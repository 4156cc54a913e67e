import SorobanLens.Lib.TokenBucket
import SorobanLens.Lib.KeyedTable
import SorobanLens.Lib.JsNumber
import Mathlib.Logic.Function.Basic
import Mathlib.Tactic.FieldSimp

/-!
`TokenBucketLimiter`: a bucket per key in a map that a sweep thins out, and the
ideal limiter it decides like, which keeps one bucket for every key there is.
-/

set_option autoImplicit false

namespace SorobanLens

inductive RateLimitDecision where
  | allowed
  | refused (retryAfterSeconds : Int)
  deriving DecidableEq

inductive RateLimitError where
  | requestsPerSecond (n : JsNumber)
  | burst (n : JsNumber)
  deriving DecidableEq

def SWEEP_EVERY : Nat := 1024

/-- The bucket of one key; times are in milliseconds. -/
structure ClientBucket where
  key : String
  tokens : ℚ
  updatedAt : ℚ

structure TokenBucketLimiter where
  rate : ℚ
  capacity : Nat
  rate_pos : 0 < rate
  capacity_pos : 1 ≤ capacity
  buckets : KeyedTable ClientBucket.key
  calls : Nat

structure RateLimitCall where
  now : ℚ
  key : String

namespace TokenBucketLimiter

theorem capacity_of_le {q : ℚ} (hq : 1 ≤ q) : 1 ≤ ⌊q⌋.toNat := by
  have hfloor : (1 : Int) ≤ ⌊q⌋ := Int.le_floor.mpr (by simpa using hq)
  omega

def new (requestsPerSecond : JsNumber) (burst : Option JsNumber) :
    Except RateLimitError TokenBucketLimiter :=
  match requestsPerSecond with
  | .fin rate =>
    if hr : 0 < rate then
      match burst.getD (.fin (max 1 (⌈rate⌉ : ℚ))) with
      | .fin q =>
        if hq : 1 ≤ q then
          .ok
            { rate := rate
              capacity := ⌊q⌋.toNat
              rate_pos := hr
              capacity_pos := capacity_of_le hq
              buckets := .empty
              calls := 0 }
        else .error (.burst (.fin q))
      | other => .error (.burst other)
    else .error (.requestsPerSecond (.fin rate))
  | other => .error (.requestsPerSecond other)

def refilled (l : TokenBucketLimiter) (bucket : ClientBucket) (now : ℚ) : ℚ :=
  min (l.capacity : ℚ) (bucket.tokens + max 0 (now - bucket.updatedAt) / 1000 * l.rate)

def sweep (now : ℚ) (l : TokenBucketLimiter) : TokenBucketLimiter :=
  { l with buckets := l.buckets.deleteWhere (fun b => decide ((l.capacity : ℚ) ≤ l.refilled b now)) }

def retryAfter (rate tokens : ℚ) : Int := max 1 ⌈(1 - tokens) / rate⌉

def spend (call : RateLimitCall) (l : TokenBucketLimiter) : RateLimitDecision × TokenBucketLimiter :=
  let bucket := (l.buckets.find? call.key).getD ⟨call.key, l.capacity, call.now⟩
  let tokens := l.refilled bucket call.now
  if 1 ≤ tokens then
    (.allowed, { l with buckets := l.buckets.upsert ⟨call.key, tokens - 1, call.now⟩ })
  else
    (.refused (retryAfter l.rate tokens),
      { l with buckets := l.buckets.upsert ⟨call.key, tokens, call.now⟩ })

def take (call : RateLimitCall) (l : TokenBucketLimiter) : RateLimitDecision × TokenBucketLimiter :=
  let l := { l with calls := l.calls + 1 }
  spend call (if l.calls % SWEEP_EVERY = 0 then l.sweep call.now else l)

def takeUnswept (call : RateLimitCall) (l : TokenBucketLimiter) :
    RateLimitDecision × TokenBucketLimiter := spend call { l with calls := l.calls + 1 }

end TokenBucketLimiter

/-! ### Runs -/

def verdicts {σ : Type} (take : RateLimitCall → σ → RateLimitDecision × σ) :
    σ → List RateLimitCall → List (RateLimitCall × RateLimitDecision)
  | _, [] => []
  | s, c :: cs => (c, (take c s).1) :: verdicts take (take c s).2 cs

theorem mem_of_mem_verdicts {σ : Type} {take : RateLimitCall → σ → RateLimitDecision × σ} {s : σ}
    {calls : List RateLimitCall} {v : RateLimitCall × RateLimitDecision}
    (h : v ∈ verdicts take s calls) : v.1 ∈ calls := by
  induction calls generalizing s with
  | nil => simp [verdicts] at h
  | cons call calls ih =>
    rcases List.mem_cons.mp h with rfl | hrest
    · exact List.mem_cons_self ..
    · exact List.mem_cons_of_mem _ (ih hrest)

structure TokenBucketLimiter.Refines (l : TokenBucketLimiter) (calls : List RateLimitCall) :
    Prop where
  unswept : verdicts take l calls = verdicts takeUnswept l calls
  alone : ∀ key, (verdicts take l calls).filter (fun v => decide (v.1.key = key)) =
    verdicts take l (calls.filter (fun c => decide (c.key = key)))
  window : ∀ key s t, s ≤ t →
    ((verdicts take l calls).countP (fun v => decide (v.1.key = key ∧ v.2 = .allowed ∧
      s ≤ v.1.now ∧ v.1.now ≤ t)) : ℚ) ≤ l.capacity + l.rate * ((t - s) / 1000)
  retry : ∀ key pre post (r : Int) call next d,
    (verdicts take l calls).filter (fun v => decide (v.1.key = key)) =
      pre ++ (call, .refused r) :: (next, d) :: post →
    call.now + (r : ℚ) * 1000 ≤ next.now → d = .allowed

/-! ### The ideal limiter -/

abbrev IdealLimiter := String → TokenBucket

/-- What a bucket decides, and the bucket after it; `rate` is a second's refill. -/
def bucketTake (rate : ℚ) (call : RateLimitCall) (b : TokenBucket) :
    RateLimitDecision × TokenBucket :=
  if 1 ≤ b.level call.now then (.allowed, b.consume call.now)
  else (.refused (TokenBucketLimiter.retryAfter rate (b.level call.now)), b.refill call.now)

def IdealLimiter.take (rate : ℚ) (call : RateLimitCall) (s : IdealLimiter) :
    RateLimitDecision × IdealLimiter :=
  ((bucketTake rate call (s call.key)).1,
    Function.update s call.key (bucketTake rate call (s call.key)).2)

def TokenBucketLimiter.tokensAt (l : TokenBucketLimiter) (key : String) (t : ℚ) : ℚ :=
  match l.buckets.find? key with
  | some b => l.refilled b t
  | none => l.capacity

/-- From now on the map and the ideal buckets agree. -/
structure Simulates (l : TokenBucketLimiter) (s : IdealLimiter) (now : ℚ) : Prop where
  capacity : ∀ key, (s key).capacity = l.capacity
  rate : ∀ key, (s key).rate = l.rate / 1000
  level : ∀ key t, now ≤ t → l.tokensAt key t = (s key).level t

section Simulation

variable {l : TokenBucketLimiter} {s : IdealLimiter} {now : ℚ}

theorem Simulates.later (h : Simulates l s now) {later : ℚ} (hn : now ≤ later) :
    Simulates l s later :=
  ⟨h.capacity, h.rate, fun key t ht => h.level key t (hn.trans ht)⟩

theorem refilled_mono (l : TokenBucketLimiter) (b : ClientBucket) {t u : ℚ} (h : t ≤ u) :
    l.refilled b t ≤ l.refilled b u := by
  have hrate := l.rate_pos
  have helapsed : max 0 (t - b.updatedAt) ≤ max 0 (u - b.updatedAt) :=
    max_le_max (le_refl 0) (by linarith)
  have hgain : max 0 (t - b.updatedAt) / 1000 * l.rate ≤ max 0 (u - b.updatedAt) / 1000 * l.rate :=
    mul_le_mul_of_nonneg_right (by linarith) hrate.le
  exact min_le_min (le_refl _) (by linarith)

/-- A bucket that is swept is full from then on. -/
theorem Simulates.sweep (h : Simulates l s now) : Simulates (l.sweep now) s now := by
  refine ⟨h.capacity, h.rate, ?_⟩
  intro key t ht
  rw [← h.level key t ht]
  unfold TokenBucketLimiter.tokensAt
  cases hf : l.buckets.find? key with
  | none =>
    have hgone : (l.sweep now).buckets.find? key = none :=
      KeyedTable.find?_deleteWhere_eq_none
        (fun b hb hk => absurd hk (KeyedTable.find?_eq_none.mp hf b hb))
    rw [hgone]
    rfl
  | some b =>
    obtain ⟨hb, hkey⟩ := KeyedTable.find?_eq_some.mp hf
    by_cases hfull : (l.capacity : ℚ) ≤ l.refilled b now
    · have hgone : (l.sweep now).buckets.find? key = none := by
        refine KeyedTable.find?_deleteWhere_eq_none ?_
        intro x hx hxk
        rw [l.buckets.eq_of_key hx hb (hxk.trans hkey.symm)]
        exact decide_eq_true hfull
      have hcap : l.refilled b t = l.capacity :=
        le_antisymm (min_le_left _ _) (hfull.trans (refilled_mono l b ht))
      rw [hgone]
      exact hcap.symm
    · have hstays : (l.sweep now).buckets.find? key = some b := by
        rw [← hf]
        refine KeyedTable.find?_deleteWhere ?_
        intro x hx hxk
        rw [l.buckets.eq_of_key hx hb (hxk.trans hkey.symm)]
        exact decide_eq_false hfull
      rw [hstays]
      rfl

theorem refilled_now (l : TokenBucketLimiter) (key : String) (tokens t u : ℚ) (h : t ≤ u) :
    l.refilled ⟨key, tokens, t⟩ u = min (l.capacity : ℚ) (tokens + (u - t) / 1000 * l.rate) := by
  have hclock : max 0 (u - t) = u - t := max_eq_right (by linarith)
  simp only [TokenBucketLimiter.refilled, hclock]

theorem Simulates.write (h : Simulates l s now) (key : String) (tokens : ℚ) {b : TokenBucket}
    (hb : b = { s key with tokens := tokens, last := now }) :
    Simulates { l with buckets := l.buckets.upsert ⟨key, tokens, now⟩ }
      (Function.update s key b) now := by
  have hcapacity := h.capacity key
  have hrate := h.rate key
  refine ⟨?_, ?_, ?_⟩
  · intro k
    by_cases hk : k = key
    · subst hk
      simp [hb, hcapacity]
    · simp [hk, h.capacity k]
  · intro k
    by_cases hk : k = key
    · subst hk
      simp [hb, hrate]
    · simp [hk, h.rate k]
  · intro k t ht
    by_cases hk : k = key
    · subst hk
      have hfound : (l.buckets.upsert ⟨k, tokens, now⟩).find? k = some ⟨k, tokens, now⟩ :=
        KeyedTable.find?_upsert_self l.buckets ⟨k, tokens, now⟩
      have hleft := refilled_now l k tokens now t ht
      simp only [TokenBucketLimiter.refilled] at hleft
      simp only [TokenBucketLimiter.tokensAt, hfound, Function.update_self, TokenBucket.level, hb,
        hcapacity, hrate, TokenBucketLimiter.refilled, hleft]
      congr 1
      ring
    · have hother : (l.buckets.upsert ⟨key, tokens, now⟩).find? k = l.buckets.find? k :=
        KeyedTable.find?_upsert_of_ne hk
      have hold := h.level k t ht
      simp only [TokenBucketLimiter.tokensAt, hother, Function.update_of_ne hk] at hold ⊢
      exact hold

theorem Simulates.refilled_eq {call : RateLimitCall} (h : Simulates l s call.now) :
    l.refilled ((l.buckets.find? call.key).getD ⟨call.key, l.capacity, call.now⟩) call.now =
      (s call.key).level call.now := by
  rw [← h.level call.key call.now (le_refl _)]
  unfold TokenBucketLimiter.tokensAt
  cases hf : l.buckets.find? call.key with
  | none =>
    have hnew := refilled_now l call.key l.capacity call.now call.now (le_refl _)
    simpa using hnew
  | some b => rfl

theorem Simulates.spend {call : RateLimitCall} (h : Simulates l s call.now) :
    (l.spend call).1 = (IdealLimiter.take l.rate call s).1 ∧
      Simulates (l.spend call).2 (IdealLimiter.take l.rate call s).2 call.now ∧
      (l.spend call).2.rate = l.rate := by
  have hlevel := h.refilled_eq
  by_cases hone : 1 ≤ (s call.key).level call.now
  · simp only [TokenBucketLimiter.spend, IdealLimiter.take, bucketTake, hlevel, if_pos hone]
    exact ⟨trivial, h.write call.key _ rfl, trivial⟩
  · simp only [TokenBucketLimiter.spend, IdealLimiter.take, bucketTake, hlevel, if_neg hone]
    exact ⟨trivial, h.write call.key _ rfl, trivial⟩

theorem Simulates.counted (h : Simulates l s now) (n : Nat) :
    Simulates { l with calls := n } s now := ⟨h.capacity, h.rate, h.level⟩

def FollowsIdeal (take : RateLimitCall → TokenBucketLimiter → RateLimitDecision × TokenBucketLimiter) :
    Prop :=
  ∀ (l : TokenBucketLimiter) (s : IdealLimiter) (call : RateLimitCall), Simulates l s call.now →
    (take call l).1 = (IdealLimiter.take l.rate call s).1 ∧
      Simulates (take call l).2 (IdealLimiter.take l.rate call s).2 call.now ∧
      (take call l).2.rate = l.rate

theorem followsIdeal_takeUnswept : FollowsIdeal TokenBucketLimiter.takeUnswept := by
  intro l s call h
  exact (h.counted (l.calls + 1)).spend

/-- The sweep only forgets buckets that are as good as new. -/
theorem followsIdeal_take : FollowsIdeal TokenBucketLimiter.take := by
  intro l s call h
  unfold TokenBucketLimiter.take
  by_cases hsweep : (l.calls + 1) % SWEEP_EVERY = 0
  · simp only [hsweep, if_true]
    exact (h.counted (l.calls + 1)).sweep.spend
  · simp only [hsweep, if_false]
    exact (h.counted (l.calls + 1)).spend

def InOrderFrom (now : ℚ) (calls : List RateLimitCall) : Prop :=
  calls.Pairwise (fun c d => c.now ≤ d.now) ∧ ∀ c ∈ calls, now ≤ c.now

theorem InOrderFrom.cons {call : RateLimitCall} {calls : List RateLimitCall}
    (h : InOrderFrom now (call :: calls)) : now ≤ call.now ∧ InOrderFrom call.now calls := by
  obtain ⟨hsorted, hfrom⟩ := h
  obtain ⟨hhead, htail⟩ := List.pairwise_cons.mp hsorted
  exact ⟨hfrom call (List.mem_cons_self ..), htail, hhead⟩

theorem InOrderFrom.filter {calls : List RateLimitCall} (h : InOrderFrom now calls)
    (p : RateLimitCall → Bool) : InOrderFrom now (calls.filter p) :=
  ⟨h.1.filter p, fun c hc => h.2 c (List.mem_filter.mp hc).1⟩

theorem FollowsIdeal.verdicts_eq
    {take : RateLimitCall → TokenBucketLimiter → RateLimitDecision × TokenBucketLimiter}
    (htake : FollowsIdeal take) {calls : List RateLimitCall} {l : TokenBucketLimiter}
    {s : IdealLimiter} {now : ℚ} (h : Simulates l s now) (hcalls : InOrderFrom now calls) :
    verdicts take l calls = verdicts (IdealLimiter.take l.rate) s calls := by
  induction calls generalizing l s now with
  | nil => rfl
  | cons call calls ih =>
    obtain ⟨hnow, hrest⟩ := hcalls.cons
    obtain ⟨hdecision, hnext, hrate⟩ := htake l s call (h.later hnow)
    simp only [verdicts, hdecision]
    rw [ih hnext hrest, hrate]

end Simulation

/-! ### One key's bucket -/

theorem verdicts_of_key (rate : ℚ) (key : String) (calls : List RateLimitCall)
    (s : IdealLimiter) :
    (verdicts (IdealLimiter.take rate) s calls).filter (fun v => decide (v.1.key = key)) =
      verdicts (bucketTake rate) (s key) (calls.filter (fun c => decide (c.key = key))) := by
  induction calls generalizing s with
  | nil => rfl
  | cons call calls ih =>
    have htail := ih (IdealLimiter.take rate call s).2
    by_cases hk : call.key = key
    · subst hk
      have hbucket : (IdealLimiter.take rate call s).2 call.key =
          (bucketTake rate call (s call.key)).2 := Function.update_self ..
      rw [hbucket] at htail
      simp only [verdicts, List.filter_cons, decide_true, if_true, htail]
      rfl
    · have hbucket : (IdealLimiter.take rate call s).2 key = s key :=
        Function.update_of_ne (Ne.symm hk) _ _
      rw [hbucket] at htail
      simp only [verdicts, List.filter_cons, hk, decide_false, Bool.false_eq_true, if_false, htail]

section OneBucket

variable {rate now : ℚ} {b : TokenBucket} {calls : List RateLimitCall}

theorem capacity_bucketTake (rate : ℚ) (call : RateLimitCall) (b : TokenBucket) :
    (bucketTake rate call b).2.capacity = b.capacity := by
  unfold bucketTake
  split <;> rfl

theorem rate_bucketTake (rate : ℚ) (call : RateLimitCall) (b : TokenBucket) :
    (bucketTake rate call b).2.rate = b.rate := by
  unfold bucketTake
  split <;> rfl

theorem bucketTake_allowed (rate : ℚ) {call : RateLimitCall} (h : 1 ≤ b.level call.now) :
    (bucketTake rate call b).1 = .allowed := by
  unfold bucketTake
  rw [if_pos h]

def allowedTimes (vs : List (RateLimitCall × RateLimitDecision)) : List ℚ :=
  (vs.filter (fun v => decide (v.2 = .allowed))).map (fun v => v.1.now)

/-- No window of a bucket's run lets through more than it may. -/
theorem bucket_window {times : List ℚ} (h : b.Paced now times) (hcalls : InOrderFrom now calls)
    {s t : ℚ} (hst : s ≤ t) :
    (TokenBucket.countIn (times ++ allowedTimes (verdicts (bucketTake rate) b calls)) s t : ℚ) ≤
      b.capacity + (t - s) * b.rate := by
  induction calls generalizing b now times with
  | nil =>
    have hwindow := h.window s t hst
    simpa [verdicts, allowedTimes] using hwindow
  | cons call calls ih =>
    obtain ⟨hnow, hrest⟩ := hcalls.cons
    have htick := h.tick hnow
    have hnext := fun times' hpaced => @ih call.now (bucketTake rate call b).2 times' hpaced hrest
    rw [capacity_bucketTake, rate_bucketTake] at hnext
    by_cases hone : 1 ≤ b.level call.now
    · have htake : bucketTake rate call b = (.allowed, b.consume call.now) := if_pos hone
      have hpaced := htick.consume hone
      have htail := hnext (times ++ [call.now]) (by rw [htake]; exact hpaced)
      simpa [verdicts, allowedTimes, htake] using htail
    · have htake : bucketTake rate call b =
          (.refused (TokenBucketLimiter.retryAfter rate (b.level call.now)), b.refill call.now) :=
        if_neg hone
      have htail := hnext times (by rw [htake]; exact htick.refill)
      simpa [verdicts, allowedTimes, htake] using htail

theorem level_after_refusal {call : RateLimitCall} {r : Int} {later : ℚ} (hrate : 0 < rate)
    (hb : b.rate = rate / 1000) (hc : 1 ≤ b.capacity)
    (hrefused : (bucketTake rate call b).1 = .refused r)
    (hwait : call.now + (r : ℚ) * 1000 ≤ later) :
    1 ≤ (bucketTake rate call b).2.level later := by
  by_cases hone : 1 ≤ b.level call.now
  · simp [bucketTake, hone] at hrefused
  · have htake : bucketTake rate call b =
        (.refused (TokenBucketLimiter.retryAfter rate (b.level call.now)), b.refill call.now) :=
      if_neg hone
    rw [htake] at hrefused ⊢
    have hr : TokenBucketLimiter.retryAfter rate (b.level call.now) = r := by
      simpa using hrefused
    have hceil : (1 - b.level call.now) / rate ≤ (r : ℚ) := by
      have hle : ⌈(1 - b.level call.now) / rate⌉ ≤ r := by
        rw [← hr]
        exact le_max_right _ _
      exact (Int.le_ceil _).trans (by exact_mod_cast hle)
    have hgain : 1 - b.level call.now ≤ (r : ℚ) * rate := (div_le_iff₀ hrate).mp hceil
    have helapsed : (r : ℚ) * rate ≤ (later - call.now) * (rate / 1000) := by
      have hmul := mul_le_mul_of_nonneg_right (show (r : ℚ) * 1000 ≤ later - call.now by linarith)
        (show (0 : ℚ) ≤ rate / 1000 by positivity)
      have hsame : (r : ℚ) * 1000 * (rate / 1000) = (r : ℚ) * rate := by ring
      linarith
    refine le_min hc ?_
    simp only [TokenBucket.refill, hb]
    linarith

theorem bucket_retry (hrate : 0 < rate) (hb : b.rate = rate / 1000) (hc : 1 ≤ b.capacity)
    {pre post : List (RateLimitCall × RateLimitDecision)} {call next : RateLimitCall} {r : Int}
    {d : RateLimitDecision}
    (hrun : verdicts (bucketTake rate) b calls = pre ++ (call, .refused r) :: (next, d) :: post)
    (hwait : call.now + (r : ℚ) * 1000 ≤ next.now) : d = .allowed := by
  induction pre generalizing b calls with
  | nil =>
    match calls, hrun with
    | c :: [], hrun => simp [verdicts] at hrun
    | c :: c' :: rest, hrun =>
      simp only [verdicts, List.nil_append, List.cons.injEq, Prod.mk.injEq] at hrun
      obtain ⟨⟨rfl, hrefused⟩, ⟨rfl, hd⟩, -⟩ := hrun
      have hone := level_after_refusal hrate hb hc hrefused hwait
      rw [← hd, bucketTake_allowed rate hone]
  | cons v pre ih =>
    match calls, hrun with
    | c :: rest, hrun =>
      simp only [verdicts, List.cons_append, List.cons.injEq] at hrun
      exact ih (by rw [rate_bucketTake, hb]) (by rwa [capacity_bucketTake]) hrun.2

end OneBucket

/-! ### A new limiter -/

def IdealLimiter.full (l : TokenBucketLimiter) (start : ℚ) : IdealLimiter :=
  fun _ => TokenBucket.new l.capacity (l.rate / 1000) start

section NewLimiter

variable {rps : JsNumber} {burst : Option JsNumber} {l : TokenBucketLimiter}

theorem buckets_new (h : TokenBucketLimiter.new rps burst = .ok l) : l.buckets = .empty := by
  unfold TokenBucketLimiter.new at h
  repeat' split at h
  all_goals first | cases h; rfl | cases h

theorem simulates_new (h : TokenBucketLimiter.new rps burst = .ok l) (start : ℚ) :
    Simulates l (IdealLimiter.full l start) start := by
  refine ⟨fun _ => rfl, fun _ => rfl, ?_⟩
  intro key t ht
  have hgain : 0 ≤ (t - start) * (l.rate / 1000) :=
    mul_nonneg (by linarith) (by have hrate := l.rate_pos; positivity)
  have hnone : l.buckets.find? key = none := by
    rw [buckets_new h]
    rfl
  simp only [TokenBucketLimiter.tokensAt, hnone, IdealLimiter.full, TokenBucket.new,
    TokenBucket.level]
  exact (min_eq_left (by linarith)).symm

theorem paced_full (l : TokenBucketLimiter) (start : ℚ) (key : String) :
    (IdealLimiter.full l start key).Paced start [] := by
  have hrate := l.rate_pos
  exact TokenBucket.paced_new start (by positivity) (by positivity)

def startOf (calls : List RateLimitCall) : ℚ := (calls.head?.map RateLimitCall.now).getD 0

theorem inOrderFrom_startOf {calls : List RateLimitCall}
    (h : calls.Pairwise (fun c d => c.now ≤ d.now)) : InOrderFrom (startOf calls) calls := by
  refine ⟨h, ?_⟩
  cases calls with
  | nil => simp
  | cons call calls =>
    intro c hc
    rcases List.mem_cons.mp hc with rfl | hlater
    · exact le_refl _
    · exact (List.pairwise_cons.mp h).1 c hlater

theorem countP_allowed (vs : List (RateLimitCall × RateLimitDecision)) (key : String) (s t : ℚ) :
    vs.countP (fun v => decide (v.1.key = key ∧ v.2 = .allowed ∧ s ≤ v.1.now ∧ v.1.now ≤ t)) =
      TokenBucket.countIn
        (allowedTimes (vs.filter (fun v => decide (v.1.key = key)))) s t := by
  simp only [TokenBucket.countIn, allowedTimes, List.countP_map, List.countP_filter,
    List.filter_filter]
  refine List.countP_congr ?_
  intro v hv
  simp only [Function.comp_apply, Bool.and_eq_true, decide_eq_true_eq]
  tauto

theorem verdicts_new_of_key {calls : List RateLimitCall}
    (h : TokenBucketLimiter.new rps burst = .ok l)
    (hclock : calls.Pairwise (fun c d => c.now ≤ d.now)) (key : String) :
    (verdicts TokenBucketLimiter.take l calls).filter (fun v => decide (v.1.key = key)) =
      verdicts (bucketTake l.rate) (IdealLimiter.full l (startOf calls) key)
        (calls.filter (fun c => decide (c.key = key))) := by
  have hsim := simulates_new h (startOf calls)
  rw [followsIdeal_take.verdicts_eq hsim (inOrderFrom_startOf hclock), verdicts_of_key]

theorem window_of_new {calls : List RateLimitCall} (h : TokenBucketLimiter.new rps burst = .ok l)
    (hclock : calls.Pairwise (fun c d => c.now ≤ d.now)) (key : String) {s t : ℚ} (hst : s ≤ t) :
    ((verdicts TokenBucketLimiter.take l calls).countP (fun v => decide (v.1.key = key ∧
      v.2 = .allowed ∧ s ≤ v.1.now ∧ v.1.now ≤ t)) : ℚ) ≤
      l.capacity + l.rate * ((t - s) / 1000) := by
  have horder := inOrderFrom_startOf hclock
  have hwindow : (TokenBucket.countIn ([] ++ allowedTimes (verdicts (bucketTake l.rate)
      (IdealLimiter.full l (startOf calls) key) (calls.filter (fun c => decide (c.key = key)))))
      s t : ℚ) ≤ l.capacity + (t - s) * (l.rate / 1000) :=
    bucket_window (paced_full l (startOf calls) key) (horder.filter _) hst
  rw [countP_allowed, verdicts_new_of_key h hclock]
  have hsame : (t - s) * (l.rate / 1000) = l.rate * ((t - s) / 1000) := by ring
  rw [← hsame]
  exact hwindow

/-- The map with its sweep decides like one bucket for every key, which is what makes
the keys independent and the bound and the wait of each key those of its bucket. -/
theorem limiter_refines_ideal {rps : JsNumber} {burst : Option JsNumber} {l : TokenBucketLimiter}
    {calls : List RateLimitCall} (hnew : TokenBucketLimiter.new rps burst = .ok l)
    (hclock : calls.Pairwise (fun c d => c.now ≤ d.now)) : l.Refines calls := by
  have hsim := simulates_new hnew (startOf calls)
  have horder := inOrderFrom_startOf hclock
  have hswept := followsIdeal_take.verdicts_eq hsim horder
  have hunswept := followsIdeal_takeUnswept.verdicts_eq hsim horder
  refine ⟨hswept.trans hunswept.symm, ?_, ?_, ?_⟩
  · intro key
    have hown : ∀ v ∈ verdicts (IdealLimiter.take l.rate) (IdealLimiter.full l (startOf calls))
        (calls.filter (fun c => decide (c.key = key))), v.1.key = key := by
      intro v hv
      have hcall := mem_of_mem_verdicts hv
      exact of_decide_eq_true (List.mem_filter.mp hcall).2
    have hself := List.filter_eq_self.mpr (fun v hv => decide_eq_true (hown v hv))
    rw [verdicts_new_of_key hnew hclock, followsIdeal_take.verdicts_eq hsim (horder.filter _),
      ← hself, verdicts_of_key, List.filter_filter]
    simp only [Bool.and_self]
  · intro key s t hst
    exact window_of_new hnew hclock key hst
  · intro key pre post r call next d hrun hwait
    rw [verdicts_new_of_key hnew hclock] at hrun
    have hcapacity : (1 : ℚ) ≤ l.capacity := by exact_mod_cast l.capacity_pos
    exact bucket_retry l.rate_pos rfl hcapacity hrun hwait

theorem limiter_refines_ideal_twice :
    ∃ l, TokenBucketLimiter.new (.fin 1) none = .ok l ∧
      l.Refines [⟨0, "a"⟩, ⟨0, "a"⟩, ⟨500, "b"⟩, ⟨1000, "a"⟩] := by
  have hnew : ∃ l, TokenBucketLimiter.new (.fin 1) none = .ok l := by
    simp [TokenBucketLimiter.new]
  obtain ⟨l, hl⟩ := hnew
  exact ⟨l, hl, limiter_refines_ideal hl (by simp; norm_num)⟩

end NewLimiter

end SorobanLens
