import SorobanLens.Lib.Outcome
import Mathlib.Data.List.Dedup

/-!
Batches of keyed writes of which the first under a key wins: what a batch leaves
under every key, how many writes it counts, and that splitting or replaying it
leaves the same state.
-/

set_option autoImplicit false

/-- A write that stores one item under its key, unless the key is taken. `view`
is what a state keeps under a key. -/
structure FirstWrite (ε κ α σ E : Type) where
  key : ε → κ
  view : σ → κ → Option α
  write : ε → α
  step : ε → σ → Except E (Nat × σ)
  inv : σ → Prop
  valid : ε → Prop
  inv_step : ∀ {e s n t}, inv s → step e s = .ok (n, t) → inv t
  taken : ∀ {e s n t}, inv s → valid e → step e s = .ok (n, t) → (view s (key e)).isSome = true →
    n = 0 ∧ t = s
  fresh : ∀ {e s n t}, inv s → valid e → step e s = .ok (n, t) → view s (key e) = none →
    n = 1 ∧ view t (key e) = some (write e) ∧ ∀ k, k ≠ key e → view t k = view s k
  skip : ∀ {e s}, inv s → valid e → (view s (key e)).isSome = true → step e s = .ok (0, s)

namespace FirstWrite

variable {ε κ α σ E : Type} (W : FirstWrite ε κ α σ E)

def batch : List ε → σ → Except E (Nat × σ)
  | [], s => .ok (0, s)
  | e :: es, s => do
    let (n, s) ← W.step e s
    let (inserted, s) ← batch es s
    pure (n + inserted, s)

variable {W}

theorem batch_cons {e : ε} {es : List ε} {s u : σ} {n : Nat} :
    W.batch (e :: es) s = .ok (n, u) ↔
      ∃ a b t, W.step e s = .ok (a, t) ∧ W.batch es t = .ok (b, u) ∧ n = a + b := by
  simp only [batch, bind_eq_ok]
  constructor
  · intro h
    obtain ⟨⟨a, t⟩, hstep, ⟨b, v⟩, hrest, h⟩ := h
    cases h
    exact ⟨a, b, t, hstep, hrest, rfl⟩
  · intro h
    obtain ⟨a, b, t, hstep, hrest, rfl⟩ := h
    exact ⟨(a, t), hstep, (b, u), hrest, rfl⟩

theorem batch_append {xs ys : List ε} {s u : σ} {n : Nat} :
    W.batch (xs ++ ys) s = .ok (n, u) ↔
      ∃ a b t, W.batch xs s = .ok (a, t) ∧ W.batch ys t = .ok (b, u) ∧ n = a + b := by
  induction xs generalizing s n with
  | nil => simp [batch]
  | cons x xs ih =>
    simp only [List.cons_append, batch_cons, ih]
    constructor
    · intro h
      obtain ⟨a, _, t, hstep, ⟨b, c, v, hxs, hys, rfl⟩, rfl⟩ := h
      exact ⟨a + b, c, v, ⟨a, b, t, hstep, hxs, rfl⟩, hys, by omega⟩
    · intro h
      obtain ⟨_, c, v, ⟨a, b, t, hstep, hxs, rfl⟩, hys, rfl⟩ := h
      exact ⟨a, b + c, t, hstep, ⟨b, c, v, hxs, hys, rfl⟩, by omega⟩

theorem inv_batch {es : List ε} {s u : σ} {n : Nat} (hinv : W.inv s)
    (h : W.batch es s = .ok (n, u)) : W.inv u := by
  induction es generalizing s n with
  | nil =>
    cases h
    exact hinv
  | cons e es ih =>
    obtain ⟨a, b, t, hstep, hrest, -⟩ := batch_cons.mp h
    exact ih (W.inv_step hinv hstep) hrest

theorem batch_stored {es : List ε} {s : σ} (hinv : W.inv s) (hv : ∀ e ∈ es, W.valid e)
    (hall : ∀ e ∈ es, (W.view s (W.key e)).isSome = true) : W.batch es s = .ok (0, s) := by
  induction es with
  | nil => rfl
  | cons e es ih =>
    obtain ⟨he, hes⟩ := List.forall_mem_cons.mp hv
    obtain ⟨hstored, hrest⟩ := List.forall_mem_cons.mp hall
    exact batch_cons.mpr ⟨0, 0, s, W.skip hinv he hstored, ih hes hrest, rfl⟩

section Results

variable [DecidableEq κ]

theorem length_dedup_cons (k : κ) (ks : List κ) :
    (k :: ks).dedup.length = (ks.filter (fun x => decide (x ≠ k))).dedup.length + 1 := by
  have hperm : (k :: ks).dedup.Perm (k :: (ks.filter (fun x => decide (x ≠ k))).dedup) := by
    refine (List.perm_ext_iff_of_nodup (List.nodup_dedup _) ?_).mpr ?_
    · refine List.nodup_cons.mpr ⟨?_, List.nodup_dedup _⟩
      simp
    · intro x
      simp only [List.mem_dedup, List.mem_cons, List.mem_filter, decide_eq_true_eq]
      by_cases hx : x = k <;> simp [hx]
  rw [hperm.length_eq, List.length_cons]

theorem view_step {e : ε} {s t : σ} {n : Nat} (hinv : W.inv s) (hv : W.valid e)
    (h : W.step e s = .ok (n, t)) (k : κ) :
    W.view t k = (W.view s k).or (if W.key e = k then some (W.write e) else none) := by
  cases hs : W.view s (W.key e) with
  | some a =>
    obtain ⟨-, rfl⟩ := W.taken hinv hv h (by rw [hs]; rfl)
    by_cases hk : W.key e = k
    · rw [← hk, hs]
      rfl
    · simp [hk]
  | none =>
    obtain ⟨-, hself, hother⟩ := W.fresh hinv hv h hs
    by_cases hk : W.key e = k
    · rw [← hk, hs, hself]
      simp
    · simp [hk, hother k (Ne.symm hk)]

theorem view_batch {es : List ε} {s u : σ} {n : Nat} (hinv : W.inv s) (hv : ∀ e ∈ es, W.valid e)
    (h : W.batch es s = .ok (n, u)) (k : κ) :
    W.view u k = (W.view s k).or ((es.find? (fun e => decide (W.key e = k))).map W.write) := by
  induction es generalizing s n with
  | nil =>
    cases h
    simp
  | cons e es ih =>
    obtain ⟨a, b, t, hstep, hrest, -⟩ := batch_cons.mp h
    obtain ⟨he, hes⟩ := List.forall_mem_cons.mp hv
    rw [ih (W.inv_step hinv hstep) hes hrest, view_step hinv he hstep k]
    by_cases hk : W.key e = k
    · cases W.view s k <;> simp [hk]
    · simp [hk]

/-- The count is that of the distinct keys that were absent. -/
theorem count_batch {es : List ε} {s u : σ} {n : Nat} (hinv : W.inv s) (hv : ∀ e ∈ es, W.valid e)
    (h : W.batch es s = .ok (n, u)) :
    n = ((es.map W.key).filter (fun k => (W.view s k).isNone)).dedup.length := by
  induction es generalizing s n with
  | nil =>
    cases h
    rfl
  | cons e es ih =>
    obtain ⟨a, b, t, hstep, hrest, rfl⟩ := batch_cons.mp h
    obtain ⟨he, hes⟩ := List.forall_mem_cons.mp hv
    have hb := ih (W.inv_step hinv hstep) hes hrest
    cases hs : W.view s (W.key e) with
    | some x =>
      obtain ⟨rfl, rfl⟩ := W.taken hinv he hstep (by rw [hs]; rfl)
      simp [hs, hb]
    | none =>
      obtain ⟨rfl, -, -⟩ := W.fresh hinv he hstep hs
      have hrest' : (es.map W.key).filter (fun k => (W.view t k).isNone) =
          ((es.map W.key).filter (fun k => (W.view s k).isNone)).filter
            (fun k => decide (k ≠ W.key e)) := by
        rw [List.filter_filter]
        refine List.filter_congr (fun k _ => ?_)
        rw [view_step hinv he hstep k]
        by_cases hk : W.key e = k
        · simp [hk]
        · cases W.view s k <;> simp [hk, Ne.symm hk]
      have hkeys : ((e :: es).map W.key).filter (fun k => (W.view s k).isNone) =
          W.key e :: (es.map W.key).filter (fun k => (W.view s k).isNone) := by
        simp [hs]
      rw [hb, hrest', hkeys, length_dedup_cons, Nat.add_comm]

theorem batch_replay {es : List ε} {s u : σ} {n : Nat} (hinv : W.inv s) (hv : ∀ e ∈ es, W.valid e)
    (h : W.batch es s = .ok (n, u)) : W.batch es u = .ok (0, u) := by
  refine batch_stored (inv_batch hinv h) hv ?_
  intro e he
  have hfound : (es.find? (fun x => decide (W.key x = W.key e))).isSome = true :=
    List.find?_isSome.mpr ⟨e, he, by simp⟩
  rw [view_batch hinv hv h]
  simp [hfound]

end Results

/-! ### A batch as one transaction -/

/-- Nothing for an empty batch; else the batch, if the state is fit for it, and
nothing of it on an error. -/
def commit (W : FirstWrite ε κ α σ E) (guard : σ → Except E Unit) (es : List ε) (s : σ) :
    Except E Nat × σ :=
  if es.isEmpty then (.ok 0, s)
  else
    match guard s with
    | .error e => (.error e, s)
    | .ok () =>
      match W.batch es s with
      | .ok (n, t) => (.ok n, t)
      | .error e => (.error e, s)

variable {guard : σ → Except E Unit}

theorem commit_ok {es : List ε} {s t : σ} {n : Nat} :
    W.commit guard es s = (.ok n, t) ↔
      (es = [] ∨ guard s = .ok ()) ∧ W.batch es s = .ok (n, t) := by
  unfold commit
  cases es with
  | nil => simp [batch]
  | cons e es =>
    simp only [List.isEmpty_cons, Bool.false_eq_true, if_false, reduceCtorEq, false_or]
    cases hg : guard s with
    | error err => simp
    | ok u =>
      cases hb : W.batch (e :: es) s with
      | error err => simp
      | ok r => simp [Prod.ext_iff]

theorem commit_error {es : List ε} {s t : σ} {e : E} (h : W.commit guard es s = (.error e, t)) :
    t = s := by
  unfold commit at h
  split at h
  · cases h
  · split at h
    · exact (Prod.mk.inj h).2.symm
    · split at h
      · cases h
      · exact (Prod.mk.inj h).2.symm

theorem commit_append (hguard : ∀ t, W.inv t → guard t = .ok ()) {s : σ}
    (hinv : guard s = .ok () → W.inv s) {xs ys : List ε} {n : Nat} {u : σ} :
    W.commit guard (xs ++ ys) s = (.ok n, u) ↔ ∃ a b t, W.commit guard xs s = (.ok a, t) ∧
      W.commit guard ys t = (.ok b, u) ∧ n = a + b := by
  simp only [commit_ok, batch_append, List.append_eq_nil_iff]
  constructor
  · intro h
    obtain ⟨hfit, a, b, t, hxs, hys, rfl⟩ := h
    refine ⟨a, b, t, ⟨hfit.imp_left And.left, hxs⟩, ⟨?_, hys⟩, rfl⟩
    rcases hfit with hnil | hfit
    · exact .inl hnil.2
    · exact .inr (hguard t (inv_batch (hinv hfit) hxs))
  · intro h
    obtain ⟨a, b, t, ⟨hfit, hxs⟩, ⟨hfit', hys⟩, rfl⟩ := h
    refine ⟨?_, a, b, t, hxs, hys, rfl⟩
    rcases hfit with rfl | hfit
    · cases hxs
      exact hfit'.imp_left (fun hnil => ⟨rfl, hnil⟩)
    · exact .inr hfit

end FirstWrite
