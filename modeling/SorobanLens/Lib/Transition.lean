import Mathlib.Logic.Relation

/-!
Runs of a step relation, and the rule every safety result goes through: what
holds at the start and is kept by each step holds in every state reached.
-/

set_option autoImplicit false

def Reachable {σ : Type} (init : σ → Prop) (step : σ → σ → Prop) (s : σ) : Prop :=
  ∃ s₀, init s₀ ∧ Relation.ReflTransGen step s₀ s

theorem Reachable.start {σ : Type} {init : σ → Prop} {step : σ → σ → Prop} {s : σ} (h : init s) :
    Reachable init step s := ⟨s, h, .refl⟩

theorem Reachable.next {σ : Type} {init : σ → Prop} {step : σ → σ → Prop} {s t : σ}
    (h : Reachable init step s) (hs : step s t) : Reachable init step t := by
  obtain ⟨s₀, h₀, hr⟩ := h
  exact ⟨s₀, h₀, hr.tail hs⟩

theorem Reachable.run {σ : Type} {init : σ → Prop} {step : σ → σ → Prop} {s t : σ}
    (h : Reachable init step s) (hs : Relation.ReflTransGen step s t) : Reachable init step t := by
  obtain ⟨s₀, h₀, hr⟩ := h
  exact ⟨s₀, h₀, hr.trans hs⟩

theorem Reachable.mono {σ : Type} {init : σ → Prop} {step step' : σ → σ → Prop} {s : σ}
    (h : Reachable init step s) (hstep : ∀ a b, step a b → step' a b) : Reachable init step' s := by
  obtain ⟨s₀, h₀, hr⟩ := h
  exact ⟨s₀, h₀, Relation.ReflTransGen.mono hstep _ _ hr⟩

theorem invariant_of_run {σ : Type} {step : σ → σ → Prop} {Inv : σ → Prop}
    (hstep : ∀ s t, Inv s → step s t → Inv t) {s t : σ} (hs : Inv s)
    (h : Relation.ReflTransGen step s t) : Inv t := by
  induction h with
  | refl => exact hs
  | tail _ hst ih => exact hstep _ _ ih hst

theorem Reachable.invariant {σ : Type} {init : σ → Prop} {step : σ → σ → Prop} {Inv : σ → Prop}
    (hinit : ∀ s, init s → Inv s) (hstep : ∀ s t, Inv s → step s t → Inv t) {s : σ}
    (h : Reachable init step s) : Inv s := by
  obtain ⟨s₀, h₀, hr⟩ := h
  exact invariant_of_run hstep (hinit s₀ h₀) hr

/-- Steps without a choice end in one place only. -/
theorem end_unique {σ : Type} {step : σ → σ → Prop} (hdet : Relator.RightUnique step) {a b c : σ}
    (hb : Relation.ReflTransGen step a b) (hc : Relation.ReflTransGen step a c)
    (hbend : ∀ x, ¬ step b x) (hcend : ∀ x, ¬ step c x) : b = c := by
  rcases Relation.ReflTransGen.total_of_right_unique hdet hb hc with hbc | hcb
  · rcases Relation.ReflTransGen.cases_head hbc with heq | ⟨x, hx, -⟩
    · exact heq
    · exact absurd hx (hbend x)
  · rcases Relation.ReflTransGen.cases_head hcb with heq | ⟨x, hx, -⟩
    · exact heq.symm
    · exact absurd hx (hcend x)
