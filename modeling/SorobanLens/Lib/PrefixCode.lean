import Mathlib.Data.List.Infix
import Mathlib.Tactic.Common

/-!
Words none of which begins another: joined by a separator, they can be told apart.
-/

set_option autoImplicit false

namespace PrefixCode

variable {α : Type} {words xs ys : List (List α)} {sep : List α}

def Free (words : List (List α)) : Prop :=
  [] ∉ words ∧ ∀ v ∈ words, ∀ w ∈ words, v <+: w → v = w

theorem intercalate_cons (sep x : List α) (xs : List (List α)) :
    sep.intercalate (x :: xs) = x ++ (if xs = [] then [] else sep ++ sep.intercalate xs) := by
  cases xs with
  | nil => simp [List.intercalate]
  | cons y ys => simp [List.intercalate]

theorem mem_of_mem_intercalate {a : α} (h : a ∈ sep.intercalate xs) : a ∈ sep ∨ ∃ x ∈ xs, a ∈ x := by
  induction xs with
  | nil => simp [List.intercalate] at h
  | cons x xs ih =>
    rw [intercalate_cons] at h
    obtain hx | hrest := List.mem_append.mp h
    · exact .inr ⟨x, List.mem_cons_self, hx⟩
    · split at hrest
      · cases hrest
      · obtain hsep | htail := List.mem_append.mp hrest
        · exact .inl hsep
        · obtain hsep | ⟨y, hy, hmem⟩ := ih htail
          · exact .inl hsep
          · exact .inr ⟨y, List.mem_cons_of_mem _ hy, hmem⟩

theorem Free.eq_of_append (h : Free words) {x y r s : List α} (hx : x ∈ words) (hy : y ∈ words)
    (heq : x ++ r = y ++ s) : x = y ∧ r = s := by
  have hxy : x = y := by
    have hpre : y <+: x ++ r := heq ▸ List.prefix_append y s
    obtain hle | hle := List.prefix_or_prefix_of_prefix (List.prefix_append x r) hpre
    · exact h.2 x hx y hy hle
    · exact (h.2 y hy x hx hle).symm
  subst hxy
  exact ⟨rfl, List.append_cancel_left heq⟩

theorem Free.intercalate_ne_nil (h : Free words) {x : List α} (hx : x ∈ words) :
    sep.intercalate (x :: xs) ≠ [] := by
  intro hnil
  rw [intercalate_cons] at hnil
  exact h.1 ((List.append_eq_nil_iff.mp hnil).1 ▸ hx)

theorem Free.intercalate_injective (h : Free words) (hsep : sep ≠ []) (hxs : ∀ x ∈ xs, x ∈ words)
    (hys : ∀ y ∈ ys, y ∈ words) (heq : sep.intercalate xs = sep.intercalate ys) : xs = ys := by
  induction xs generalizing ys with
  | nil =>
    cases ys with
    | nil => rfl
    | cons y ys => exact absurd heq.symm (h.intercalate_ne_nil (hys y List.mem_cons_self))
  | cons x xs ih =>
    obtain ⟨hx, hxs⟩ := List.forall_mem_cons.mp hxs
    cases ys with
    | nil => exact absurd heq (h.intercalate_ne_nil hx)
    | cons y ys =>
      obtain ⟨hy, hmore⟩ := List.forall_mem_cons.mp hys
      rw [intercalate_cons, intercalate_cons] at heq
      obtain ⟨rfl, htail⟩ := h.eq_of_append hx hy heq
      by_cases hnil : xs = [] <;> by_cases hnil' : ys = []
      · rw [hnil, hnil']
      · rw [if_pos hnil, if_neg hnil'] at htail
        exact absurd (List.append_eq_nil_iff.mp htail.symm).1 hsep
      · rw [if_neg hnil, if_pos hnil'] at htail
        exact absurd (List.append_eq_nil_iff.mp htail).1 hsep
      · rw [if_neg hnil, if_neg hnil'] at htail
        have htails := ih hxs hmore (List.append_cancel_left htail)
        rw [htails]

end PrefixCode
