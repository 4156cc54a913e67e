import Mathlib.Data.List.Nodup
import Mathlib.Data.List.Range
import Mathlib.Logic.Function.Basic
import Mathlib.Tactic.Common
import SorobanLens.Lib.Transition

/-!
Tasks `0, 1, …` handed out to concurrent workers by a shared index. A worker whose
task is done writes its result at the task's own place and takes the next index; one
whose task fails stops. Whatever the order of completions, nothing is done twice and
the results are those of doing the tasks one after another.
-/

set_option autoImplicit false

/-- `issued` remembers the tasks in the order they were taken. -/
structure WorkerPool (ρ ε : Type) where
  next : Nat
  inFlight : List Nat
  issued : List Nat
  results : Nat → Option ρ
  error : Option ε

namespace WorkerPool

variable {ρ ε : Type}

def idle : WorkerPool ρ ε := ⟨0, [], [], fun _ => none, none⟩

/-- A free worker takes the next index, and its task if there is one. -/
def take (n : Nat) (s : WorkerPool ρ ε) : WorkerPool ρ ε :=
  if s.next < n then
    { s with next := s.next + 1, inFlight := s.inFlight ++ [s.next], issued := s.issued ++ [s.next] }
  else { s with next := s.next + 1 }

def start (n workers : Nat) : WorkerPool ρ ε := (take n)^[workers] idle

inductive Step (n : Nat) (answer : Nat → Except ε ρ) : WorkerPool ρ ε → WorkerPool ρ ε → Prop where
  | done {s : WorkerPool ρ ε} (i : Nat) (r : ρ) : i ∈ s.inFlight → answer i = .ok r →
      Step n answer s (take n
        { s with inFlight := s.inFlight.erase i, results := Function.update s.results i (some r) })
  | failed {s : WorkerPool ρ ε} (i : Nat) (e : ε) : i ∈ s.inFlight → answer i = .error e →
      Step n answer s
        { s with inFlight := s.inFlight.erase i, error := some (s.error.getD e) }

def remaining (n : Nat) (s : WorkerPool ρ ε) : Nat := (n - s.next) + s.inFlight.length

/-- What a pool keeps: it has issued the first tasks, each once; those without a
result are in flight or failed; and no worker is idle while a task waits. -/
structure Sound (n workers : Nat) (answer : Nat → Except ε ρ) (s : WorkerPool ρ ε) : Prop where
  issued : s.issued = List.range (min s.next n)
  nodup : s.inFlight.Nodup
  flying : ∀ i ∈ s.inFlight, i < min s.next n
  bounded : s.inFlight.length ≤ workers
  result : ∀ i r, s.results i = some r → i < min s.next n ∧ answer i = .ok r
  pending : s.error = none → ∀ i < min s.next n, i ∈ s.inFlight ∨ (s.results i).isSome = true
  busy : s.error = none → s.inFlight.length = workers ∨ n ≤ s.next
  failure : s.error.isSome = true → ∃ i < n, ∃ e, answer i = .error e

variable {n workers : Nat} {answer : Nat → Except ε ρ} {s t : WorkerPool ρ ε}

theorem sound_idle (n : Nat) (answer : Nat → Except ε ρ) : (idle : WorkerPool ρ ε).Sound n 0 answer := by
  constructor <;> simp [idle]

theorem Sound.take (h : s.Sound n workers answer) : (s.take n).Sound n (workers + 1) answer := by
  obtain ⟨hissued, hnodup, hflying, hbounded, hresult, hpending, hbusy, hfailure⟩ := h
  unfold WorkerPool.take
  split
  · rename_i hnext
    have hmin : min s.next n = s.next := by omega
    have hmin' : min (s.next + 1) n = s.next + 1 := by omega
    rw [hmin] at hissued hflying hpending hresult
    constructor
    case issued => simp only [hmin', hissued, List.range_succ]
    case nodup =>
      have hfresh : s.next ∉ s.inFlight := fun hmem => absurd (hflying _ hmem) (by omega)
      exact List.nodup_append.mpr ⟨hnodup, by simp, by grind⟩
    case flying =>
      intro i hi
      simp only [List.mem_append, List.mem_singleton] at hi
      simp only [hmin']
      cases hi with
      | inl hold => have hlt := hflying i hold; omega
      | inr heq => omega
    case bounded => simpa using hbounded
    case result =>
      intro i r hr
      obtain ⟨hlt, hok⟩ := hresult i r hr
      exact ⟨by simp only [hmin']; omega, hok⟩
    case pending =>
      intro herr i hi
      simp only [hmin'] at hi
      by_cases hlast : i = s.next
      · exact .inl (by simp [hlast])
      · obtain hold | hold := hpending herr i (by omega)
        · exact .inl (List.mem_append_left _ hold)
        · exact .inr hold
    case busy =>
      intro herr
      have hold := hbusy herr
      simp only [List.length_append, List.length_singleton]
      omega
    case failure => exact hfailure
  · rename_i hnext
    have hmin : min (s.next + 1) n = min s.next n := by omega
    constructor
    case issued => simp only [hmin, hissued]
    case nodup => exact hnodup
    case flying => simpa only [hmin] using hflying
    case bounded => exact Nat.le_succ_of_le hbounded
    case result => simpa only [hmin] using hresult
    case pending => simpa only [hmin] using hpending
    case busy => exact fun _ => .inr (show n ≤ s.next + 1 by omega)
    case failure => exact hfailure

theorem sound_start (n workers : Nat) (answer : Nat → Except ε ρ) :
    (start n workers : WorkerPool ρ ε).Sound n workers answer := by
  induction workers with
  | zero => exact sound_idle n answer
  | succ workers ih =>
    rw [start, Function.iterate_succ_apply']
    exact ih.take

theorem Sound.free (h : s.Sound n (workers + 1) answer) {i : Nat} {r : ρ} (hi : i ∈ s.inFlight)
    (hr : answer i = .ok r) :
    Sound n workers answer
      { s with inFlight := s.inFlight.erase i, results := Function.update s.results i (some r) } := by
  obtain ⟨hissued, hnodup, hflying, hbounded, hresult, hpending, hbusy, hfailure⟩ := h
  have hlen := List.length_erase_of_mem hi
  have hpos := List.length_pos_of_mem hi
  constructor
  case issued => exact hissued
  case nodup => exact hnodup.erase i
  case flying => exact fun j hj => hflying j (List.mem_of_mem_erase hj)
  case bounded => dsimp only; omega
  case result =>
    intro j r' hr'
    by_cases hj : j = i
    · subst hj
      simp only [Function.update_self, Option.some.injEq] at hr'
      exact ⟨hflying j hi, hr' ▸ hr⟩
    · simp only [Function.update_of_ne hj] at hr'
      exact hresult j r' hr'
  case pending =>
    intro herr j hj
    by_cases heq : j = i
    · exact .inr (by simp [heq])
    · simp only [Function.update_of_ne heq]
      obtain hold | hold := hpending herr j hj
      · exact .inl ((List.mem_erase_of_ne heq).mpr hold)
      · exact .inr hold
  case busy =>
    intro herr
    have hold := hbusy herr
    dsimp only
    omega
  case failure => exact hfailure

theorem Sound.fail (h : s.Sound n workers answer) {i : Nat} {e : ε} (hi : i ∈ s.inFlight)
    (he : answer i = .error e) :
    Sound n workers answer { s with inFlight := s.inFlight.erase i, error := some (s.error.getD e) } := by
  obtain ⟨hissued, hnodup, hflying, hbounded, hresult, hpending, hbusy, hfailure⟩ := h
  constructor
  case issued => exact hissued
  case nodup => exact hnodup.erase i
  case flying => exact fun j hj => hflying j (List.mem_of_mem_erase hj)
  case bounded => exact le_trans List.length_erase_le hbounded
  case result => exact hresult
  case pending => exact fun herr => by cases herr
  case busy => exact fun herr => by cases herr
  case failure =>
    have hlt := hflying i hi
    exact fun _ => ⟨i, by omega, e, he⟩

theorem Sound.step (h : s.Sound n workers answer) (hs : Step n answer s t) :
    t.Sound n workers answer := by
  cases hs with
  | done i r hi hr =>
    have hpos := List.length_pos_of_mem hi
    obtain ⟨fewer, rfl⟩ : ∃ fewer, workers = fewer + 1 := ⟨workers - 1, by have := h.bounded; omega⟩
    exact (h.free hi hr).take
  | failed i e hi he => exact h.fail hi he

theorem remaining_take (n : Nat) (s : WorkerPool ρ ε) : remaining n (s.take n) = remaining n s := by
  unfold WorkerPool.take remaining
  split
  · simp only [List.length_append, List.length_singleton]
    omega
  · dsimp only
    omega

theorem remaining_step (hs : Step n answer s t) : remaining n t + 1 = remaining n s := by
  cases hs with
  | done i r hi hr =>
    have hlen := List.length_erase_of_mem hi
    have hpos := List.length_pos_of_mem hi
    rw [remaining_take]
    simp only [remaining]
    omega
  | failed i e hi he =>
    have hlen := List.length_erase_of_mem hi
    have hpos := List.length_pos_of_mem hi
    simp only [remaining]
    omega

theorem exists_step (answer : Nat → Except ε ρ) (h : s.inFlight ≠ []) : ∃ t, Step n answer s t := by
  obtain ⟨i, hi⟩ := List.exists_mem_of_ne_nil _ h
  cases hr : answer i with
  | ok r => exact ⟨_, .done i r hi hr⟩
  | error e => exact ⟨_, .failed i e hi hr⟩

/-- All workers have returned: every task was issued, once, and has its result. -/
theorem Sound.finished (h : s.Sound n workers answer) (hw : 1 ≤ workers) (herr : s.error = none)
    (hflight : s.inFlight = []) :
    s.issued = List.range n ∧ ∀ i < n, ∃ r, s.results i = some r ∧ answer i = .ok r := by
  have hbusy := h.busy herr
  rw [hflight, List.length_nil] at hbusy
  have hmin : min s.next n = n := by omega
  refine ⟨by rw [h.issued, hmin], ?_⟩
  intro i hi
  obtain hmem | hsome := h.pending herr i (by omega)
  · rw [hflight] at hmem
    cases hmem
  · obtain ⟨r, hr⟩ := Option.isSome_iff_exists.mp hsome
    exact ⟨r, hr, (h.result i r hr).2⟩

def collected (n : Nat) (s : WorkerPool ρ ε) : List ρ := (List.range n).filterMap s.results

theorem mapM_ok {α : Type} {f : α → Option ρ} {g : α → Except ε ρ} {xs : List α}
    (h : ∀ x ∈ xs, ∃ r, f x = some r ∧ g x = .ok r) : xs.mapM g = .ok (xs.filterMap f) := by
  induction xs with
  | nil => rfl
  | cons x xs ih =>
    obtain ⟨hx, hxs⟩ := List.forall_mem_cons.mp h
    obtain ⟨r, hf, hg⟩ := hx
    rw [List.mapM_cons, hg, ih hxs, List.filterMap_cons_some hf]
    rfl

theorem map_of_mapM {α : Type} {g : α → Except ε ρ} {xs : List α} {rs : List ρ}
    (h : xs.mapM g = .ok rs) : xs.map g = rs.map Except.ok := by
  induction xs generalizing rs with
  | nil =>
    cases h
    rfl
  | cons x xs ih =>
    rw [List.mapM_cons] at h
    cases hx : g x with
    | error e =>
      rw [hx] at h
      cases h
    | ok r =>
      cases hxs : xs.mapM g with
      | error e =>
        rw [hx, hxs] at h
        cases h
      | ok more =>
        rw [hx, hxs] at h
        cases h
        simp [hx, ih hxs]

/-- A finished pool has what one worker gets that does the tasks in their order. -/
theorem Sound.collected_eq (h : s.Sound n workers answer) (hw : 1 ≤ workers) (herr : s.error = none)
    (hflight : s.inFlight = []) : (List.range n).mapM answer = .ok (s.collected n) :=
  mapM_ok (fun i hi => (h.finished hw herr hflight).2 i (List.mem_range.mp hi))

theorem Sound.no_error (h : s.Sound n workers answer) (hok : ∀ i < n, ∃ r, answer i = .ok r) :
    s.error = none := by
  cases herr : s.error with
  | none => rfl
  | some e =>
    obtain ⟨i, hi, e', he⟩ := h.failure (by simp [herr])
    obtain ⟨r, hr⟩ := hok i hi
    rw [hr] at he
    cases he

end WorkerPool
