import Mathlib.Data.List.Nodup

/-!
A side table derived from a main one: every main row stands for some side rows, each
owned by the main row's key. What each write of the main table must do to the side
table for it to stay exact.
-/

set_option autoImplicit false

namespace SideTable

variable {ρ σ κ : Type} {key : ρ → κ} {owner : σ → κ} {Entry : ρ → σ → Prop}

/-- The side table holds what the main rows stand for and nothing else. -/
def Exact (Entry : ρ → σ → Prop) (rows : List ρ) (side : List σ) : Prop :=
  ∀ s, s ∈ side ↔ ∃ r ∈ rows, Entry r s

theorem exact_nil : Exact Entry [] [] := by simp [Exact]

/-- An empty side table is right exactly for main rows that stand for nothing. -/
theorem exact_empty_iff {rows : List ρ} : Exact Entry rows [] ↔ ∀ r ∈ rows, ∀ s, ¬ Entry r s := by
  simp only [Exact, List.not_mem_nil, false_iff, not_exists, not_and]
  exact ⟨fun h r hr s => h s r hr, fun h s r hr => h r hr s⟩

variable {rows : List ρ} {side side' : List σ}

theorem Exact.append (h : Exact Entry rows side) {r : ρ}
    (hside : ∀ s, s ∈ side' ↔ s ∈ side ∨ Entry r s) : Exact Entry (rows ++ [r]) side' := by
  intro s
  rw [hside, h s]
  simp only [List.mem_append, List.mem_singleton, or_and_right, exists_or, exists_eq_left]

variable (howner : ∀ r s, Entry r s → owner s = key r)
include howner

theorem Exact.delete (h : Exact Entry rows side) (hnodup : (rows.map key).Nodup) (p : ρ → Bool)
    (hside : ∀ s, s ∈ side' ↔ s ∈ side ∧ owner s ∉ (rows.filter p).map key) :
    Exact Entry (rows.filter (fun r => !p r)) side' := by
  intro s
  rw [hside, h s]
  simp only [List.mem_map, List.mem_filter, not_exists, not_and, Bool.not_eq_true', and_imp]
  constructor
  · intro hs
    obtain ⟨⟨r, hr, he⟩, hkept⟩ := hs
    refine ⟨r, ⟨hr, ?_⟩, he⟩
    cases hp : p r with
    | false => rfl
    | true => exact absurd (howner r s he).symm (hkept r hr hp)
  · intro hs
    obtain ⟨r, ⟨hr, hp⟩, he⟩ := hs
    refine ⟨⟨r, hr, he⟩, ?_⟩
    intro r' hr' hp' hkey
    have hsame : r' = r := List.inj_on_of_nodup_map hnodup hr' hr (hkey.trans (howner r s he))
    rw [hsame, hp] at hp'
    cases hp'

theorem Exact.renew [DecidableEq κ] (h : Exact Entry rows side) {k : κ} {f : ρ → ρ}
    (New : σ → Prop) (hside : ∀ s, s ∈ side' ↔ (s ∈ side ∧ owner s ≠ k) ∨ New s)
    (hnew : ∀ r ∈ rows, key r = k → ∀ s, Entry (f r) s ↔ New s)
    (hnone : (∀ r ∈ rows, key r ≠ k) → ∀ s, ¬ New s) :
    Exact Entry (rows.map (fun r => if key r = k then f r else r)) side' := by
  intro s
  rw [hside, h s]
  simp only [List.mem_map, exists_exists_and_eq_and]
  constructor
  · intro hs
    rcases hs with ⟨⟨r, hr, he⟩, hother⟩ | hs
    · refine ⟨r, hr, ?_⟩
      have hne : key r ≠ k := fun hk => hother ((howner r s he).trans hk)
      rwa [if_neg hne]
    · by_cases hthere : ∃ r ∈ rows, key r = k
      · obtain ⟨r, hr, hk⟩ := hthere
        refine ⟨r, hr, ?_⟩
        rw [if_pos hk]
        exact (hnew r hr hk s).mpr hs
      · exact absurd hs (hnone (fun r hr hk => hthere ⟨r, hr, hk⟩) s)
  · intro hs
    obtain ⟨r, hr, he⟩ := hs
    by_cases hk : key r = k
    · rw [if_pos hk] at he
      exact .inr ((hnew r hr hk s).mp he)
    · rw [if_neg hk] at he
      exact .inl ⟨⟨r, hr, he⟩, fun howned => hk ((howner r s he).symm.trans howned)⟩

omit howner

/-! ### One side row each -/

section Mirror

variable {image : ρ → σ}

def Mirrors (image : ρ → σ) (rows : List ρ) (side : List σ) : Prop := side.Perm (rows.map image)

theorem mirrors_nil : Mirrors image [] [] := List.Perm.refl _

theorem Mirrors.append (h : Mirrors image rows side) (r : ρ) :
    Mirrors image (rows ++ [r]) (side ++ [image r]) := by
  unfold Mirrors
  rw [List.map_append]
  exact List.Perm.append_right _ h

variable (himage : ∀ r, owner (image r) = key r)
include himage

theorem Mirrors.delete [DecidableEq κ] (h : Mirrors image rows side) (hnodup : (rows.map key).Nodup)
    (p : ρ → Bool) : Mirrors image (rows.filter (fun r => !p r))
      (side.filter (fun s => decide (owner s ∉ (rows.filter p).map key))) := by
  refine (h.filter _).trans (List.Perm.of_eq ?_)
  rw [List.filter_map]
  congr 1
  refine List.filter_congr ?_
  intro r hr
  simp only [Function.comp_apply, himage, List.mem_map, List.mem_filter, not_exists, not_and,
    and_imp]
  cases hp : p r with
  | true =>
    simp only [Bool.not_true, decide_eq_false_iff_not, not_forall, not_not]
    exact ⟨r, hr, hp, rfl⟩
  | false =>
    simp only [Bool.not_false, decide_eq_true_eq]
    intro r' hr' hp' hkey
    rw [List.inj_on_of_nodup_map hnodup hr' hr hkey, hp] at hp'
    cases hp'

theorem Mirrors.renew [DecidableEq κ] (h : Mirrors image rows side) (hnodup : (rows.map key).Nodup)
    {r : ρ} (hr : r ∈ rows) (f : ρ → ρ) : Mirrors image
      (rows.map (fun r' => if key r' = key r then f r' else r'))
      (side.filter (fun s => decide (owner s ≠ key r)) ++ [image (f r)]) := by
  refine ((h.filter _).append_right _).trans ?_
  have hkept : (rows.map image).filter (fun s => decide (owner s ≠ key r)) =
      (rows.filter (fun r' => decide (key r' ≠ key r))).map image := by
    rw [List.filter_map]
    simp only [Function.comp_def, himage]
  rw [hkept]
  clear h hkept
  induction rows with
  | nil => cases hr
  | cons x rows ih =>
    rw [List.map_cons, List.nodup_cons] at hnodup
    by_cases hx : key x = key r
    · have hothers : ∀ r' ∈ rows, key r' ≠ key r := by
        intro r' hr' hkey
        exact hnodup.1 (List.mem_map.mpr ⟨r', hr', hkey.trans hx.symm⟩)
      have hsame : x = r := by
        rcases List.mem_cons.mp hr with heq | hmem
        · exact heq.symm
        · exact absurd rfl (hothers r hmem)
      have hfilter : rows.filter (fun r' => decide (key r' ≠ key r)) = rows :=
        List.filter_eq_self.mpr (fun r' hr' => decide_eq_true (hothers r' hr'))
      have hmap : rows.map (fun r' => if key r' = key r then f r' else r') = rows := by
        refine (List.map_congr_left ?_).trans (List.map_id rows)
        intro r' hr'
        exact if_neg (hothers r' hr')
      rw [List.filter_cons_of_neg (by simp [hx]), List.map_cons, if_pos hx, hfilter, hmap, hsame,
        List.map_cons]
      exact List.perm_append_singleton _ _
    · have hmem : r ∈ rows := by
        rcases List.mem_cons.mp hr with heq | hmem
        · exact absurd (congrArg key heq.symm) hx
        · exact hmem
      rw [List.filter_cons_of_pos (by simp [hx]), List.map_cons, List.map_cons, if_neg hx,
        List.map_cons, List.cons_append]
      exact (ih hnodup.2 hmem).cons _

end Mirror

end SideTable
