import Mathlib.Data.Rat.Defs
import Mathlib.Data.List.Count
import Mathlib.Tactic.Linarith
import Mathlib.Tactic.Ring

/-!
A token bucket over exact rationals, and the bound it puts on what it admits in
any window of time: its capacity, and what refills in the window.
-/

set_option autoImplicit false

/-- Tokens as they stood when the bucket was last looked at; `rate` is what a unit
of time adds. -/
structure TokenBucket where
  capacity : ℚ
  rate : ℚ
  tokens : ℚ
  last : ℚ
  deriving DecidableEq

namespace TokenBucket

def new (capacity rate now : ℚ) : TokenBucket := ⟨capacity, rate, capacity, now⟩

def level (b : TokenBucket) (now : ℚ) : ℚ :=
  min b.capacity (b.tokens + (now - b.last) * b.rate)

def refill (b : TokenBucket) (now : ℚ) : TokenBucket := { b with tokens := b.level now, last := now }

def consume (b : TokenBucket) (now : ℚ) : TokenBucket :=
  { b with tokens := b.level now - 1, last := now }

@[simp] theorem capacity_refill (b : TokenBucket) (now : ℚ) :
    (b.refill now).capacity = b.capacity := rfl

@[simp] theorem rate_refill (b : TokenBucket) (now : ℚ) : (b.refill now).rate = b.rate := rfl

@[simp] theorem capacity_consume (b : TokenBucket) (now : ℚ) :
    (b.consume now).capacity = b.capacity := rfl

@[simp] theorem rate_consume (b : TokenBucket) (now : ℚ) : (b.consume now).rate = b.rate := rfl

/-- What a bucket keeps: tokens between nothing and its capacity. -/
structure Sound (b : TokenBucket) : Prop where
  rate_nonneg : 0 ≤ b.rate
  tokens_nonneg : 0 ≤ b.tokens
  tokens_le : b.tokens ≤ b.capacity

theorem sound_new {capacity rate : ℚ} (now : ℚ) (hc : 0 ≤ capacity) (hr : 0 ≤ rate) :
    (new capacity rate now).Sound := ⟨hr, hc, le_refl capacity⟩

theorem level_le (b : TokenBucket) (now : ℚ) : b.level now ≤ b.capacity := min_le_left _ _

@[simp] theorem level_last {b : TokenBucket} (h : b.Sound) : b.level b.last = b.tokens := by
  have hle := h.tokens_le
  simp [level, hle]

theorem Sound.level_nonneg {b : TokenBucket} (h : b.Sound) {now : ℚ} (hn : b.last ≤ now) :
    0 ≤ b.level now := by
  have hgain : 0 ≤ (now - b.last) * b.rate := mul_nonneg (by linarith) h.rate_nonneg
  have ht := h.tokens_nonneg
  have hc := h.tokens_le
  exact le_min (by linarith) (by linarith)

theorem Sound.refill {b : TokenBucket} (h : b.Sound) {now : ℚ} (hn : b.last ≤ now) :
    (b.refill now).Sound := ⟨h.rate_nonneg, h.level_nonneg hn, b.level_le now⟩

theorem Sound.consume {b : TokenBucket} (h : b.Sound) {now : ℚ} (hlevel : 1 ≤ b.level now) :
    (b.consume now).Sound := by
  have hle := b.level_le now
  refine ⟨h.rate_nonneg, ?_, ?_⟩
  · simp only [TokenBucket.consume]
    linarith
  · simp only [TokenBucket.consume]
    linarith

theorem level_mono {b : TokenBucket} (hr : 0 ≤ b.rate) {now later : ℚ} (hn : now ≤ later) :
    b.level now ≤ b.level later := by
  have hgain : (now - b.last) * b.rate ≤ (later - b.last) * b.rate :=
    mul_le_mul_of_nonneg_right (by linarith) hr
  exact min_le_min_left _ (by linarith)

/-- Time adds to a bucket at most at its rate. -/
theorem Sound.level_later {b : TokenBucket} (h : b.Sound) {now later : ℚ} (hn : now ≤ later) :
    b.level later ≤ b.level now + (later - now) * b.rate := by
  have hgain : 0 ≤ (later - now) * b.rate := mul_nonneg (by linarith) h.rate_nonneg
  rcases le_total b.capacity (b.tokens + (now - b.last) * b.rate) with hfull | hroom
  · have hnow : b.level now = b.capacity := min_eq_left hfull
    have hle := b.level_le later
    linarith
  · have hnow : b.level now = b.tokens + (now - b.last) * b.rate := min_eq_right hroom
    have hle : b.level later ≤ b.tokens + (later - b.last) * b.rate := min_le_right _ _
    have hsum : b.tokens + (later - b.last) * b.rate =
        b.tokens + (now - b.last) * b.rate + (later - now) * b.rate := by ring
    linarith

/-! ### Windows -/

def countIn (times : List ℚ) (s t : ℚ) : Nat := times.countP (fun x => decide (s ≤ x ∧ x ≤ t))

def before (times : List ℚ) (s : ℚ) : Nat := times.countP (fun x => decide (x < s))

def upTo (times : List ℚ) (t : ℚ) : Nat := times.countP (fun x => decide (x ≤ t))

theorem upTo_eq (times : List ℚ) {s t : ℚ} (hst : s ≤ t) :
    upTo times t = before times s + countIn times s t := by
  induction times with
  | nil => rfl
  | cons x rest ih =>
    simp only [upTo, before, countIn] at ih
    simp only [upTo, before, countIn, List.countP_cons, ih, decide_eq_true_eq]
    rcases lt_or_ge x s with hlt | hge
    · have hle : x ≤ t := hlt.le.trans hst
      simp only [hlt, hle, not_le.mpr hlt, false_and, if_true, if_false]
      omega
    · simp only [not_lt.mpr hge, hge, true_and, if_false]
      omega

/-- At no moment has more of the one happened than of the other. -/
def Follows (times more : List ℚ) : Prop := ∀ m, upTo times m ≤ upTo more m

/-- What follows can exceed what it follows in a window only by what was still to come. -/
theorem Follows.countIn {times more : List ℚ} (h : Follows times more) {s t : ℚ} (hst : s ≤ t) :
    before times s + TokenBucket.countIn times s t ≤
      before more s + TokenBucket.countIn more s t := by
  rw [← upTo_eq times hst, ← upTo_eq more hst]
  exact h t

/-- The moments a bucket has let something through, all of them past: what was let
through since `s`, and what could be now, is bounded. -/
structure Paced (b : TokenBucket) (now : ℚ) (times : List ℚ) : Prop where
  sound : b.Sound
  last_le : b.last ≤ now
  past : ∀ x ∈ times, x ≤ now
  since : ∀ s, s ≤ now → countIn times s now + b.level now ≤ b.capacity + (now - s) * b.rate
  window : ∀ s t, s ≤ t → countIn times s t ≤ b.capacity + (t - s) * b.rate

theorem paced_new {capacity rate : ℚ} (now : ℚ) (hc : 0 ≤ capacity) (hr : 0 ≤ rate) :
    (new capacity rate now).Paced now [] := by
  have hs := sound_new now hc hr
  refine ⟨hs, le_refl now, by simp, ?_, ?_⟩
  · intro s hle
    have hgain : 0 ≤ (now - s) * (new capacity rate now).rate := mul_nonneg (by linarith) hr
    have hlevel := (new capacity rate now).level_le now
    simp only [countIn, List.countP_nil, Nat.cast_zero]
    linarith
  · intro s t hle
    have hgain : 0 ≤ (t - s) * (new capacity rate now).rate := mul_nonneg (by linarith) hr
    simp only [countIn, List.countP_nil, Nat.cast_zero]
    exact add_nonneg hc hgain

theorem countIn_later {times : List ℚ} {s now later : ℚ} (hp : ∀ x ∈ times, x ≤ now)
    (hn : now ≤ later) : countIn times s later = countIn times s now := by
  refine List.countP_congr ?_
  intro x hx
  have hxn := hp x hx
  simp only [decide_eq_true_eq]
  constructor
  · intro h
    exact ⟨h.1, hxn⟩
  · intro h
    exact ⟨h.1, hxn.trans hn⟩

theorem countIn_after {times : List ℚ} {s now later : ℚ} (hp : ∀ x ∈ times, x ≤ now)
    (hs : now < s) : countIn times s later = 0 := by
  refine List.countP_eq_zero.mpr ?_
  intro x hx
  have hxn := hp x hx
  simp only [decide_eq_true_eq, not_and]
  intro hle
  linarith

theorem Paced.tick {b : TokenBucket} {now later : ℚ} {times : List ℚ} (h : b.Paced now times)
    (hn : now ≤ later) : b.Paced later times := by
  have hpast := h.past
  refine ⟨h.sound, h.last_le.trans hn, fun x hx => (hpast x hx).trans hn, ?_, h.window⟩
  intro s hs
  rcases le_total s now with hle | hgt
  · have hsince := h.since s hle
    have hlater := h.sound.level_later hn
    rw [countIn_later hpast hn]
    have hsum : (later - s) * b.rate = (now - s) * b.rate + (later - now) * b.rate := by ring
    linarith
  · have hlevel := b.level_le later
    have hgain : 0 ≤ (later - s) * b.rate := mul_nonneg (by linarith) h.sound.rate_nonneg
    rcases lt_or_eq_of_le hgt with hlt | heq
    · rw [countIn_after hpast hlt, Nat.cast_zero]
      linarith
    · have hsince := h.since now (le_refl now)
      have hlater := h.sound.level_later hn
      rw [← heq, countIn_later hpast hn]
      linarith

theorem Paced.refill {b : TokenBucket} {now : ℚ} {times : List ℚ} (h : b.Paced now times) :
    (b.refill now).Paced now times := by
  have hlevel : (b.refill now).level now = b.level now := level_last (h.sound.refill h.last_le)
  refine ⟨h.sound.refill h.last_le, le_refl now, h.past, ?_, h.window⟩
  intro s hs
  rw [hlevel]
  exact h.since s hs

theorem countIn_append (times more : List ℚ) (s t : ℚ) :
    countIn (times ++ more) s t = countIn times s t + countIn more s t :=
  List.countP_append

theorem Paced.consume {b : TokenBucket} {now : ℚ} {times : List ℚ} (h : b.Paced now times)
    (hlevel : 1 ≤ b.level now) : (b.consume now).Paced now (times ++ [now]) := by
  have hsound := h.sound.consume hlevel
  have hleft : (b.consume now).level now = b.level now - 1 := level_last hsound
  have hsince : ∀ s, s ≤ now →
      countIn (times ++ [now]) s now + (b.level now - 1) ≤ b.capacity + (now - s) * b.rate := by
    intro s hs
    have hone : countIn [now] s now = 1 := by simp [countIn, hs]
    have hold := h.since s hs
    rw [countIn_append, hone]
    push_cast
    linarith
  refine ⟨hsound, le_refl now, ?_, ?_, ?_⟩
  · intro x hx
    rcases List.mem_append.mp hx with hold | hnew
    · exact h.past x hold
    · rw [List.mem_singleton.mp hnew]
  · intro s hs
    rw [hleft]
    exact hsince s hs
  · intro s t hst
    have hgain : 0 ≤ (t - s) * b.rate := mul_nonneg (by linarith) h.sound.rate_nonneg
    by_cases hin : s ≤ now ∧ now ≤ t
    · have hcount : countIn (times ++ [now]) s t = countIn (times ++ [now]) s now := by
        refine countIn_later ?_ hin.2
        intro x hx
        rcases List.mem_append.mp hx with hold | hnew
        · exact h.past x hold
        · rw [List.mem_singleton.mp hnew]
      have hbound := hsince s hin.1
      have hmore : (now - s) * b.rate ≤ (t - s) * b.rate :=
        mul_le_mul_of_nonneg_right (by linarith [hin.2]) h.sound.rate_nonneg
      rw [hcount]
      simp only [capacity_consume, rate_consume]
      linarith
    · have hnone : countIn [now] s t = 0 := by
        simp only [countIn, List.countP_eq_zero, List.mem_singleton, forall_eq, decide_eq_true_eq]
        exact hin
      have hold := h.window s t hst
      rw [countIn_append, hnone]
      simpa using hold

theorem countIn_sublist {times more : List ℚ} (h : times.Sublist more) (s t : ℚ) :
    countIn times s t ≤ countIn more s t := h.countP_le

/-- A token may be spent on nothing. -/
theorem Paced.sublist {b : TokenBucket} {now : ℚ} {times more : List ℚ} (h : b.Paced now more)
    (hsub : times.Sublist more) : b.Paced now times := by
  refine ⟨h.sound, h.last_le, fun x hx => h.past x (hsub.subset hx), ?_, ?_⟩
  · intro s hs
    have hle : (countIn times s now : ℚ) ≤ countIn more s now := by
      exact_mod_cast countIn_sublist hsub s now
    have hold := h.since s hs
    linarith
  · intro s t hst
    have hle : (countIn times s t : ℚ) ≤ countIn more s t := by
      exact_mod_cast countIn_sublist hsub s t
    exact hle.trans (h.window s t hst)

end TokenBucket
