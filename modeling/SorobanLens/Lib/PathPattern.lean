import Mathlib.Data.List.Basic

/-!
Patterns of a path: fixed segments and free ones, as in `^/a/([^/]+)/b$`.
-/

set_option autoImplicit false

namespace PathPattern

inductive Segment where
  | lit (text : String)
  | param
  deriving DecidableEq, Repr

abbrev Pattern := List Segment

def execSegments : Pattern → List (List Char) → Option (List String)
  | [], [] => some []
  | .lit text :: ps, x :: xs => if x = text.toList then execSegments ps xs else none
  | .param :: ps, x :: xs =>
    if x = [] then none else (execSegments ps xs).map (fun vs => String.ofList x :: vs)
  | [], _ :: _ => none
  | _ :: _, [] => none

/-- What the free segments of a matching path are. -/
def exec (p : Pattern) (path : String) : Option (List String) :=
  match path.toList.splitOn '/' with
  | [] :: xs => execSegments p xs
  | _ => none

def fill : Pattern → List String → List (List Char)
  | [], _ => []
  | .lit text :: ps, vs => text.toList :: fill ps vs
  | .param :: ps, [] => [] :: fill ps []
  | .param :: ps, v :: vs => v.toList :: fill ps vs

def spell (p : Pattern) (vs : List String) : String :=
  String.ofList (['/'].intercalate ([] :: fill p vs))

def Plain (p : Pattern) : Prop := ∀ text, .lit text ∈ p → '/' ∉ text.toList

def Segment.isPlain : Segment → Bool
  | .lit text => !text.toList.contains '/'
  | .param => true

theorem plain_of_all {p : Pattern} (h : p.all Segment.isPlain = true) : Plain p := by
  intro text htext
  have hplain := List.all_eq_true.mp h _ htext
  simpa [Segment.isPlain] using hplain

/-- Values for the free segments: one for each, with a character and no slash. -/
structure Fits (p : Pattern) (vs : List String) : Prop where
  length : vs.length = p.count .param
  plain : ∀ v ∈ vs, v ≠ "" ∧ '/' ∉ v.toList

section Exec

variable {p q : Pattern} {vs ws : List String} {path : String}

theorem fill_of_execSegments {xs : List (List Char)} (h : execSegments p xs = some vs) :
    xs = fill p vs ∧ vs.length = p.count .param ∧ ∀ v ∈ vs, v ≠ "" ∧ v.toList ∈ xs := by
  induction p generalizing xs vs with
  | nil =>
    cases xs with
    | nil =>
      cases h
      simp [fill]
    | cons x xs => cases h
  | cons segment ps ih =>
    cases xs with
    | nil => cases segment <;> cases h
    | cons x xs =>
      cases segment with
      | lit text =>
        simp only [execSegments] at h
        split at h
        · rename_i hx
          obtain ⟨rfl, hlength, hplain⟩ := ih h
          subst hx
          refine ⟨rfl, by simpa using hlength, ?_⟩
          intro v hv
          exact ⟨(hplain v hv).1, List.mem_cons_of_mem _ (hplain v hv).2⟩
        · cases h
      | param =>
        simp only [execSegments] at h
        split at h
        · cases h
        · rename_i hx
          obtain ⟨us, hus, rfl⟩ := Option.map_eq_some_iff.mp h
          obtain ⟨rfl, hlength, hplain⟩ := ih hus
          refine ⟨by simp [fill], by simp [hlength], ?_⟩
          intro v hv
          rcases List.mem_cons.mp hv with rfl | hv
          · exact ⟨by simpa [String.ofList_eq_empty_iff] using hx, by simp⟩
          · exact ⟨(hplain v hv).1, List.mem_cons_of_mem _ (hplain v hv).2⟩

theorem execSegments_fill (hlength : vs.length = p.count .param) (hvs : ∀ v ∈ vs, v ≠ "") :
    execSegments p (fill p vs) = some vs := by
  induction p generalizing vs with
  | nil =>
    have hnil : vs = [] := List.length_eq_zero_iff.mp (by simpa using hlength)
    rw [hnil]
    rfl
  | cons segment ps ih =>
    cases segment with
    | lit text =>
      simp only [fill, execSegments, if_true]
      exact ih (by simpa using hlength) hvs
    | param =>
      cases vs with
      | nil => simp at hlength
      | cons v vs =>
        have hv : v.toList ≠ [] := by
          intro hnil
          exact hvs v List.mem_cons_self (String.toList_eq_nil_iff.mp hnil)
        have hrest : execSegments ps (fill ps vs) = some vs :=
          ih (by simpa using hlength) (fun w hw => hvs w (List.mem_cons_of_mem _ hw))
        simp only [fill, execSegments, if_neg hv, hrest, Option.map_some, String.ofList_toList]

theorem not_mem_splitOn {c : Char} {cs x : List Char} (hx : x ∈ cs.splitOn c) : c ∉ x := by
  induction cs generalizing x with
  | nil =>
    have hnil : x = [] := by simpa using hx
    simp [hnil]
  | cons d cs ih =>
    rw [List.splitOn_cons_eq_if_modifyHead] at hx
    split at hx
    · rcases List.mem_cons.mp hx with rfl | hx
      · simp
      · exact ih hx
    · rename_i hd
      cases hsplit : cs.splitOn c with
      | nil => exact absurd hsplit (List.splitOn_ne_nil c cs)
      | cons y ys =>
        rw [hsplit] at hx ih
        rcases List.mem_cons.mp hx with rfl | hx
        · have hy := ih List.mem_cons_self
          have hne : c ≠ d := fun heq => hd (beq_iff_eq.mpr heq.symm)
          simp [hy, hne]
        · exact ih (List.mem_cons_of_mem _ hx)

theorem not_mem_fill (hp : Plain p) (hvs : ∀ v ∈ vs, '/' ∉ v.toList) {x : List Char}
    (hx : x ∈ fill p vs) : '/' ∉ x := by
  induction p generalizing vs with
  | nil => cases hx
  | cons segment ps ih =>
    have hrest : Plain ps := fun text ht => hp text (List.mem_cons_of_mem _ ht)
    cases segment with
    | lit text =>
      rcases List.mem_cons.mp hx with rfl | hx
      · exact hp text List.mem_cons_self
      · exact ih hrest hvs hx
    | param =>
      cases vs with
      | nil =>
        rcases List.mem_cons.mp hx with rfl | hx
        · simp
        · exact ih hrest hvs hx
      | cons v vs =>
        rcases List.mem_cons.mp hx with rfl | hx
        · exact hvs v List.mem_cons_self
        · exact ih hrest (fun w hw => hvs w (List.mem_cons_of_mem _ hw)) hx

theorem exec_eq_some (hp : Plain p) : exec p path = some vs ↔ Fits p vs ∧ path = spell p vs := by
  constructor
  · intro h
    unfold exec at h
    split at h
    · rename_i xs hsplit
      obtain ⟨rfl, hlength, hvs⟩ := fill_of_execSegments h
      refine ⟨⟨hlength, ?_⟩, ?_⟩
      · intro v hv
        have hmem : v.toList ∈ path.toList.splitOn '/' := by
          rw [hsplit]
          exact List.mem_cons_of_mem _ (hvs v hv).2
        exact ⟨(hvs v hv).1, not_mem_splitOn hmem⟩
      · rw [spell, ← hsplit, List.intercalate_splitOn, String.ofList_toList]
    · cases h
  · rintro ⟨hfits, rfl⟩
    have hplain : ∀ x ∈ [] :: fill p vs, '/' ∉ x := by
      intro x hx
      rcases List.mem_cons.mp hx with rfl | hx
      · simp
      · exact not_mem_fill hp (fun v hv => (hfits.plain v hv).2) hx
    unfold exec spell
    rw [String.toList_ofList, List.splitOn_intercalate '/' hplain (by simp)]
    exact execSegments_fill hfits.length (fun v hv => (hfits.plain v hv).1)

/-! ### Two patterns -/

def Compatible : Pattern → Pattern → Bool
  | [], [] => true
  | .lit a :: ps, .lit b :: qs => a = b && Compatible ps qs
  | .lit _ :: ps, .param :: qs => Compatible ps qs
  | .param :: ps, _ :: qs => Compatible ps qs
  | [], _ :: _ => false
  | _ :: _, [] => false

theorem compatible_of_execSegments {xs : List (List Char)} (hp : execSegments p xs = some vs)
    (hq : execSegments q xs = some ws) : Compatible p q = true := by
  induction p generalizing q xs vs ws with
  | nil =>
    cases xs with
    | nil =>
      cases q with
      | nil => rfl
      | cons segment qs => cases segment <;> cases hq
    | cons x xs => cases hp
  | cons segment ps ih =>
    cases xs with
    | nil => cases segment <;> cases hp
    | cons x xs =>
      cases q with
      | nil => cases hq
      | cons other qs =>
        cases segment with
        | lit a =>
          simp only [execSegments] at hp
          split at hp
          · rename_i ha
            cases other with
            | lit b =>
              simp only [execSegments] at hq
              split at hq
              · rename_i hb
                have hab : a = b := String.toList_inj.mp (ha.symm.trans hb)
                simp only [Compatible, hab, decide_true, Bool.true_and]
                exact ih hp hq
              · cases hq
            | param =>
              simp only [execSegments] at hq
              split at hq
              · cases hq
              · obtain ⟨us, hus, -⟩ := Option.map_eq_some_iff.mp hq
                exact ih hp hus
          · cases hp
        | param =>
          simp only [execSegments] at hp
          split at hp
          · cases hp
          · obtain ⟨us, hus, -⟩ := Option.map_eq_some_iff.mp hp
            cases other with
            | lit b =>
              simp only [execSegments] at hq
              split at hq
              · exact ih hus hq
              · cases hq
            | param =>
              simp only [execSegments] at hq
              split at hq
              · cases hq
              · obtain ⟨us', hus', -⟩ := Option.map_eq_some_iff.mp hq
                exact ih hus hus'

theorem compatible_of_exec (hp : exec p path = some vs) (hq : exec q path = some ws) :
    Compatible p q = true := by
  unfold exec at hp hq
  split at hp
  · rename_i xs hsplit
    rw [hsplit] at hq
    exact compatible_of_execSegments hp hq
  · cases hp

theorem exec_literal (hp : Plain p) (hnone : p.count .param = 0) :
    exec p path = some vs ↔ vs = [] ∧ path = spell p [] := by
  rw [exec_eq_some hp]
  constructor
  · rintro ⟨hfits, rfl⟩
    have hnil : vs = [] := List.length_eq_zero_iff.mp (hfits.length.trans hnone)
    subst hnil
    exact ⟨rfl, rfl⟩
  · rintro ⟨rfl, rfl⟩
    exact ⟨⟨hnone.symm, by simp⟩, rfl⟩

end Exec

end PathPattern
