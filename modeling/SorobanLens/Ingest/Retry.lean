import SorobanLens.Lib.JsNumeral
import Mathlib.Algebra.Order.Floor.Ring
import Mathlib.Tactic.FieldSimp
import Mathlib.Tactic.Positivity

/-!
`withRetry`: which rejections are tried again, how long it waits before that, and
what a run of it looks like from outside. What it reports through `onRetry` is left
out.
-/

set_option autoImplicit false

namespace SorobanLens

/-! ### Rejections -/

/-- A header's value: of a number, its text; of an array, the items that are strings. -/
inductive HeaderValue where
  | str (s : String)
  | number (text : String)
  | array (items : List (Option String))
  | other

inductive Headers where
  /-- A `Headers` object, by its `get`. -/
  | lookup (get : String → Option String)
  | fields (entries : List (String × HeaderValue))

inductive ErrorCode where
  | text (s : String)
  | number (n : JsNumber)
  | other

/-- What `withRetry` reads of a rejection. A status that is no number is `none`. -/
structure Rejection where
  responseStatus : Option JsNumber
  status : Option JsNumber
  statusCode : Option JsNumber
  code : ErrorCode
  responseHeaders : Option Headers
  headers : Option Headers
  /-- `error.message`, or `String(error)`. -/
  message : String

inductive RpcErrorKind where
  | rate_limit
  | http
  | timeout
  | json_rpc
  | transport
  deriving DecidableEq, Repr

structure RpcErrorClass where
  kind : RpcErrorKind
  retryable : Bool

def statusOf (error : Rejection) : Option JsNumber :=
  error.responseStatus <|> error.status <|> error.statusCode

def JSONRPC_REQUEST_ERRORS : List JsNumber :=
  [.fin (-32700), .fin (-32600), .fin (-32601), .fin (-32602)]

def classifyRpcError (error : Rejection) : RpcErrorClass :=
  match statusOf error with
  | some status =>
    if status = .fin 429 then ⟨.rate_limit, true⟩
    else ⟨.http, JsNumber.le (.fin 500) status || status = .fin 408⟩
  | none =>
    match error.code with
    | .text code =>
      if code = "ETIMEDOUT" ∨ code = "ECONNABORTED" then ⟨.timeout, true⟩ else ⟨.transport, true⟩
    | .number code => ⟨.json_rpc, !(JSONRPC_REQUEST_ERRORS.contains code)⟩
    | .other => ⟨.transport, true⟩

/-! ### `Retry-After` -/

def HeaderValue.asText : HeaderValue → Option String
  | .str s => some s
  | .number text => some text
  | .array (some s :: _) => some s
  | .array _ | .other => none

def headerIn (name : String) : Headers → Option String
  | .lookup get => get name
  | .fields entries => entries.findSome? (fun e => if e.1.toLower = name then e.2.asText else none)

def headerOf (error : Rejection) (name : String) : Option String :=
  error.responseHeaders.bind (headerIn name) <|> error.headers.bind (headerIn name)

def MAX_RETRY_AFTER_MS : ℚ := 300000

def clampRetryAfter (ms : JsNumber) : JsNumber :=
  .min (.max (.fin 0) (.round ms)) (.fin MAX_RETRY_AFTER_MS)

def retryAfterMs (dateParse : String → Option Int) (error : Rejection) (now : ℚ) : Option JsNumber :=
  if statusOf error ≠ some (.fin 429) then none
  else
    match headerOf error "retry-after" with
    | none => none
    | some raw =>
      let value := JsNumber.trim raw
      if value = "" then none
      else
        let seconds := (JsNumber.ofText value).overflow
        if seconds.isFinite then
          if JsNumber.lt seconds (.fin 0) then none
          else some (clampRetryAfter (.mul seconds (.fin 1000)))
        else (dateParse value).map (fun t => clampRetryAfter (.fin (t - now)))

/-! ### The loop -/

structure RetryOptions where
  attempts : Option ℚ
  baseDelayMs : Option ℚ
  maxDelayMs : Option ℚ
  shouldRetry : Option (Rejection → Bool)

namespace RetryOptions

def total (o : RetryOptions) : ℚ := o.attempts.getD 5

def base (o : RetryOptions) : ℚ := o.baseDelayMs.getD 250

def max (o : RetryOptions) : ℚ := o.maxDelayMs.getD 30000

def retries (o : RetryOptions) : Rejection → Bool :=
  o.shouldRetry.getD (fun error => (classifyRpcError error).retryable)

end RetryOptions

/-- What the language and the clock answer. The jitter and the time are those at each
attempt. -/
structure RetryWorld where
  dateParse : String → Option Int
  text : ℚ → String
  random : Nat → {r : ℚ // 0 ≤ r ∧ r < 1}
  now : Nat → ℚ

def backoffDelay (w : RetryWorld) (o : RetryOptions) (attempt : Nat) : JsNumber :=
  let ceiling := JsNumber.min (.fin o.max)
    (.mul (.fin o.base) (JsNumber.overflow (.fin (2 ^ attempt))))
  .floor (.mul (.fin (w.random attempt).val) ceiling)

def delayAfter (w : RetryWorld) (o : RetryOptions) (attempt : Nat) (error : Rejection) : JsNumber :=
  (retryAfterMs w.dateParse error (w.now attempt)).getD (backoffDelay w o attempt)

structure RetryExhaustedError where
  message : String
  attempts : ℚ
  cause : Option Rejection

inductive RetryEvent where
  | call (attempt : Nat)
  | sleep (delay : JsNumber)

inductive RetryEnd (α : Type) where
  | returned (value : α)
  | threw (error : Rejection)
  | gaveUp (error : RetryExhaustedError)

def exhausted (w : RetryWorld) (o : RetryOptions) (lastError : Option Rejection) :
    RetryExhaustedError :=
  ⟨"Gave up after " ++ w.text o.total ++ " attempt(s): " ++
    (lastError.map Rejection.message).getD "undefined", o.total, lastError⟩

variable {α : Type}

def retryLoop (w : RetryWorld) (o : RetryOptions) (fn : Nat → Except Rejection α) (attempt : Nat)
    (lastError : Option Rejection) : List RetryEvent × RetryEnd α :=
  if (attempt : ℚ) < o.total then
    match fn attempt with
    | .ok value => ([.call attempt], .returned value)
    | .error error =>
      if !o.retries error then ([.call attempt], .threw error)
      else if (attempt : ℚ) = o.total - 1 then ([.call attempt], .gaveUp (exhausted w o (some error)))
      else
        let rest := retryLoop w o fn (attempt + 1) (some error)
        (.call attempt :: .sleep (delayAfter w o attempt error) :: rest.1, rest.2)
  else ([], .gaveUp (exhausted w o lastError))
termination_by (⌈o.total⌉ - attempt).toNat
decreasing_by
  have hlt : (attempt : Int) < ⌈o.total⌉ := Int.lt_ceil.mpr (by exact_mod_cast ‹(attempt : ℚ) < o.total›)
  omega

def withRetry (w : RetryWorld) (o : RetryOptions) (fn : Nat → Except Rejection α) :
    List RetryEvent × RetryEnd α :=
  retryLoop w o fn 0 none

/-! ### What a server asks for -/

/-- The wait, in milliseconds, that a 429 asks for in one of the two forms of the header. -/
inductive AsksFor (dateParse : String → Option Int) (now : ℚ) (error : Rejection) : ℚ → Prop where
  | seconds {raw : String} {s : ℚ} : statusOf error = some (.fin 429) →
      headerOf error "retry-after" = some raw → JsNumber.trim raw ≠ "" →
      (JsNumber.ofText (JsNumber.trim raw)).overflow = .fin s → 0 ≤ s → AsksFor dateParse now error (s * 1000)
  | date {raw : String} {t : Int} : statusOf error = some (.fin 429) →
      headerOf error "retry-after" = some raw → JsNumber.trim raw ≠ "" →
      (JsNumber.ofText (JsNumber.trim raw)).overflow.isFinite = false →
      dateParse (JsNumber.trim raw) = some t → AsksFor dateParse now error (t - now)

def clampedMs (ms : ℚ) : ℚ := min (max 0 ⌊ms + 1 / 2⌋) MAX_RETRY_AFTER_MS

theorem clampRetryAfter_fin (ms : ℚ) : clampRetryAfter (.fin ms) = .fin (clampedMs ms) := by
  rw [clampRetryAfter, JsNumber.round, JsNumber.max_fin, JsNumber.min_fin, clampedMs]

theorem clampedMs_bounds (ms : ℚ) : 0 ≤ clampedMs ms ∧ clampedMs ms ≤ MAX_RETRY_AFTER_MS := by
  have hmax : (0 : ℚ) ≤ MAX_RETRY_AFTER_MS := by norm_num [MAX_RETRY_AFTER_MS]
  exact ⟨le_min (le_max_left _ _) hmax, min_le_right _ _⟩

theorem retryAfterMs_of_asks {dateParse : String → Option Int} {now ms : ℚ} {error : Rejection}
    (h : AsksFor dateParse now error ms) :
    retryAfterMs dateParse error now = some (.fin (clampedMs ms)) := by
  cases h with
  | @seconds raw s hstatus hraw hne hseconds hnonneg =>
    simp [retryAfterMs, hstatus, hraw, hne, hseconds, JsNumber.isFinite, not_lt.mpr hnonneg,
      JsNumber.mul, clampRetryAfter_fin]
  | date hstatus hraw hne hnumber ht =>
    simp [retryAfterMs, hstatus, hraw, hne, hnumber, ht, clampRetryAfter_fin]

theorem retryAfterMs_of_not_asks {dateParse : String → Option Int} {now : ℚ} {error : Rejection}
    (h : ∀ ms, ¬ AsksFor dateParse now error ms) : retryAfterMs dateParse error now = none := by
  unfold retryAfterMs
  split
  · rfl
  · rename_i hstatus
    rw [ne_eq, not_not] at hstatus
    split
    · rfl
    · rename_i raw hraw
      dsimp only
      split
      · rfl
      · rename_i hne
        split
        · rename_i hfinite
          cases hseconds : (JsNumber.ofText (JsNumber.trim raw)).overflow with
          | fin s =>
            by_cases hnonneg : 0 ≤ s
            · exact absurd (AsksFor.seconds hstatus hraw hne hseconds hnonneg) (h _)
            · simp [not_le.mp hnonneg]
          | nan | negInf | posInf => simp [hseconds, JsNumber.isFinite] at hfinite
        · rename_i hfinite
          cases ht : dateParse (JsNumber.trim raw) with
          | none => rfl
          | some t =>
            have hnumber := Bool.eq_false_iff.mpr hfinite
            exact absurd (AsksFor.date hstatus hraw hne hnumber ht) (h _)

/-! ### The delays -/

theorem backoffDelay_eq (w : RetryWorld) (o : RetryOptions) {attempt : Nat} (h : attempt < 1024) :
    backoffDelay w o attempt =
      .fin ⌊(w.random attempt).val * min o.max (o.base * 2 ^ attempt)⌋ := by
  simp only [backoffDelay, JsNumber.overflow_two_pow, h, if_true, JsNumber.mul, JsNumber.min_fin,
    JsNumber.floor]

/-- From here on the power is an infinity, which a base of zero turns into `NaN`. -/
theorem backoffDelay_late (w : RetryWorld) (o : RetryOptions) {attempt : Nat} (h : ¬ attempt < 1024) :
    (o.base = 0 → backoffDelay w o attempt = .nan) ∧
      (0 < o.base → backoffDelay w o attempt = .fin ⌊(w.random attempt).val * o.max⌋) := by
  simp only [backoffDelay, JsNumber.overflow_two_pow, h, if_false]
  constructor
  · intro hbase
    simp [hbase, JsNumber.mul, JsNumber.scaleInf, JsNumber.min, JsNumber.floor]
  · intro hbase
    simp [hbase, hbase.ne', JsNumber.mul, JsNumber.scaleInf, JsNumber.min, JsNumber.lt, JsNumber.floor]

theorem jitter_bounds {r c m : ℚ} (hr : 0 ≤ r ∧ r < 1) (hc : 0 ≤ c) (hm : c ≤ m) :
    (0 : ℚ) ≤ (⌊r * c⌋ : ℚ) ∧ (⌊r * c⌋ : ℚ) ≤ m := by
  have hprod : 0 ≤ r * c := mul_nonneg hr.1 hc
  have hle : r * c ≤ c := mul_le_of_le_one_left hc hr.2.le
  have hfloor : (⌊r * c⌋ : ℚ) ≤ r * c := Int.floor_le _
  constructor
  · exact_mod_cast Int.floor_nonneg.mpr hprod
  · linarith

theorem backoffDelay_bounds (w : RetryWorld) (o : RetryOptions) {attempt : Nat} (hbase : 0 ≤ o.base)
    (hmax : 0 ≤ o.max) (hzero : o.base = 0 → attempt < 1024) :
    ∃ q, backoffDelay w o attempt = .fin q ∧ 0 ≤ q ∧ q ≤ o.max := by
  have hrandom := (w.random attempt).property
  by_cases hlate : attempt < 1024
  · have hscaled : 0 ≤ o.base * 2 ^ attempt := mul_nonneg hbase (by positivity)
    exact ⟨_, backoffDelay_eq w o hlate, jitter_bounds hrandom (le_min hmax hscaled) (min_le_left _ _)⟩
  · have hpos : 0 < o.base := lt_of_le_of_ne hbase (fun heq => hlate (hzero heq.symm))
    exact ⟨_, (backoffDelay_late w o hlate).2 hpos, jitter_bounds hrandom hmax (le_refl _)⟩

/-- A delay as it ought to be: within its bounds, what the server asked for where it
asked, and the jittered backoff elsewhere. -/
structure SoundDelay (w : RetryWorld) (o : RetryOptions) (attempt : Nat) (error : Rejection)
    (delay : JsNumber) : Prop where
  bounded : ∃ q, delay = .fin q ∧ 0 ≤ q ∧ q ≤ max o.max MAX_RETRY_AFTER_MS
  asked : ∀ ms, AsksFor w.dateParse (w.now attempt) error ms → delay = .fin (clampedMs ms)
  jittered : (∀ ms, ¬ AsksFor w.dateParse (w.now attempt) error ms) →
    delay = backoffDelay w o attempt

theorem soundDelay {w : RetryWorld} {o : RetryOptions} {attempt : Nat} {error : Rejection}
    (h : (∃ ms, AsksFor w.dateParse (w.now attempt) error ms) ∨
      (0 ≤ o.base ∧ 0 ≤ o.max ∧ (o.base = 0 → attempt < 1024))) :
    SoundDelay w o attempt error (delayAfter w o attempt error) := by
  have hasked : ∀ ms, AsksFor w.dateParse (w.now attempt) error ms →
      delayAfter w o attempt error = .fin (clampedMs ms) := by
    intro ms hms
    rw [delayAfter, retryAfterMs_of_asks hms]
    rfl
  have hjittered : (∀ ms, ¬ AsksFor w.dateParse (w.now attempt) error ms) →
      delayAfter w o attempt error = backoffDelay w o attempt := by
    intro hnone
    rw [delayAfter, retryAfterMs_of_not_asks hnone]
    rfl
  refine ⟨?_, hasked, hjittered⟩
  by_cases hsome : ∃ ms, AsksFor w.dateParse (w.now attempt) error ms
  · obtain ⟨ms, hms⟩ := hsome
    obtain ⟨hlow, hhigh⟩ := clampedMs_bounds ms
    exact ⟨_, hasked ms hms, hlow, le_trans hhigh (le_max_right _ _)⟩
  · obtain ⟨hbase, hmax, hzero⟩ := h.resolve_left hsome
    obtain ⟨q, hq, hlow, hhigh⟩ := backoffDelay_bounds w o hbase hmax hzero
    exact ⟨q, (hjittered (not_exists.mp hsome)).trans hq, hlow, le_trans hhigh (le_max_left _ _)⟩

/-! ### The run -/

/-- `n + 1` calls from this attempt on, with one sleep between each two. -/
def retryTrace (delay : Nat → JsNumber) (attempt : Nat) : Nat → List RetryEvent
  | 0 => [.call attempt]
  | n + 1 => .call attempt :: .sleep (delay attempt) :: retryTrace delay (attempt + 1) n

def EndsWith (o : RetryOptions) (outcome : Except Rejection α) (last : Nat) (result : RetryEnd α) :
    Prop :=
  match outcome with
  | .ok value => result = .returned value
  | .error error =>
    if o.retries error then
      (∃ e, result = .gaveUp e ∧ e.cause = some error) ∧ max 1 o.total ≤ last + 1
    else result = .threw error

/-- The run as it ought to be: every call but the last failed with a rejection that is
tried again, after a sound delay, and the last one decides the result. -/
def Disciplined (w : RetryWorld) (o : RetryOptions) (fn : Nat → Except Rejection α) : Prop :=
  ∃ (last : Nat) (delay : Nat → JsNumber),
    (withRetry w o fn).1 = retryTrace delay 0 last ∧ (last + 1 : ℚ) ≤ max 1 o.total ∧
      (∀ i < last, ∃ error, fn i = .error error ∧ o.retries error = true ∧
        SoundDelay w o i error (delay i)) ∧
      EndsWith o (fn last) last (withRetry w o fn).2

def delayOf (w : RetryWorld) (o : RetryOptions) (fn : Nat → Except Rejection α) (i : Nat) : JsNumber :=
  match fn i with
  | .error error => delayAfter w o i error
  | .ok _ => .fin 0

variable {w : RetryWorld} {o : RetryOptions} {fn : Nat → Except Rejection α}

variable (w o fn) in
theorem retryLoop_last {a : Nat} (e : Option Rejection) (h : (a : ℚ) < o.total)
    (hlast : ∀ error, fn a = .error error → o.retries error = true → (a : ℚ) = o.total - 1) :
    (retryLoop w o fn a e).1 = [.call a] ∧ EndsWith o (fn a) a (retryLoop w o fn a e).2 := by
  rw [retryLoop, if_pos h]
  cases hfn : fn a with
  | ok v => exact ⟨rfl, rfl⟩
  | error error =>
    cases hr : o.retries error with
    | false => simp [EndsWith, hr]
    | true =>
      have heq := hlast error hfn hr
      have hmax : max 1 o.total ≤ a + 1 := max_le (by simp) (by linarith)
      simp [EndsWith, hr, heq, exhausted]
      simpa [heq] using hmax

theorem retryLoop_again {a : Nat} {e : Option Rejection} {error : Rejection} (h : (a : ℚ) < o.total)
    (hfn : fn a = .error error) (hr : o.retries error = true) (hlast : (a : ℚ) ≠ o.total - 1) :
    retryLoop w o fn a e =
      (.call a :: .sleep (delayAfter w o a error) :: (retryLoop w o fn (a + 1) (some error)).1,
        (retryLoop w o fn (a + 1) (some error)).2) := by
  rw [retryLoop, if_pos h, hfn]
  simp [hr, hlast]

variable (w o fn) in
/-- With a whole number of attempts left, the run from here on. -/
theorem retryLoop_spec {n : Nat} (hn : o.total = n) (k a : Nat) (e : Option Rejection)
    (h : a + k + 1 = n) :
    ∃ m ≤ k, (retryLoop w o fn a e).1 = retryTrace (delayOf w o fn) a m ∧
      (∀ i, a ≤ i → i < a + m → ∃ error, fn i = .error error ∧ o.retries error = true) ∧
      EndsWith o (fn (a + m)) (a + m) (retryLoop w o fn a e).2 := by
  induction k generalizing a e with
  | zero =>
    have hcast : o.total = a + 1 := by rw [hn]; exact_mod_cast h.symm
    obtain ⟨htrace, hend⟩ := retryLoop_last w o fn e
      (show (a : ℚ) < o.total by linarith) (fun _ _ _ => by linarith)
    exact ⟨0, le_refl 0, htrace, by omega, hend⟩
  | succ k ih =>
    have hcast : o.total = a + k + 2 := by rw [hn]; exact_mod_cast (by omega : n = a + k + 2)
    have hk : (0 : ℚ) ≤ k := by positivity
    have hlt : (a : ℚ) < o.total := by linarith
    by_cases hagain : ∃ error, fn a = .error error ∧ o.retries error = true
    · obtain ⟨error, hfn, hr⟩ := hagain
      obtain ⟨m, hm, htrace, hfailed, hend⟩ := ih (a + 1) (some error) (by omega)
      rw [retryLoop_again hlt hfn hr (by linarith)]
      refine ⟨m + 1, by omega, ?_, ?_, ?_⟩
      · rw [retryTrace, ← htrace, delayOf, hfn]
      · intro i hlow hhigh
        by_cases hi : i = a
        · exact ⟨error, hi ▸ hfn, hr⟩
        · exact hfailed i (by omega) (by omega)
      · have hsame : a + (m + 1) = a + 1 + m := by omega
        rw [hsame]
        exact hend
    · obtain ⟨htrace, hend⟩ := retryLoop_last w o fn e hlt
        (fun error hfn hr => absurd ⟨error, hfn, hr⟩ hagain)
      exact ⟨0, by omega, htrace, by omega, hend⟩

/-! ### When it is disciplined -/

/-- No delay of `n` attempts can go wrong: there is none, the server names them all, or
the two bounds are not negative and no backoff of zero is doubled for too long. -/
def SafeDelays (dateParse : String → Option Int) (o : RetryOptions) (n : Nat) : Prop :=
  n = 1 ∨ (∀ error, o.retries error = true → ∀ now, ∃ ms, AsksFor dateParse now error ms) ∨
    (0 ≤ o.base ∧ 0 ≤ o.max ∧ (o.base = 0 → n ≤ 1025))

def RetryOptions.Sane (dateParse : String → Option Int) (o : RetryOptions) : Prop :=
  0 < o.total ∧ ((∀ error, o.retries error = false) ∨
    ∃ n : Nat, o.total = n ∧ SafeDelays dateParse o n)

theorem disciplined_of_no_retry (hpos : 0 < o.total) (hnone : ∀ error, o.retries error = false) :
    Disciplined w o fn := by
  have hfirst : ((0 : Nat) : ℚ) < o.total := by exact_mod_cast hpos
  obtain ⟨htrace, hend⟩ := retryLoop_last w o fn none hfirst
    (fun error _ hr => absurd hr (by simp [hnone error]))
  exact ⟨0, fun _ => .fin 0, htrace, by simp, by omega, hend⟩

theorem disciplined_of_whole {n : Nat} (hn : o.total = n) (hpos : 0 < o.total)
    (hsafe : SafeDelays w.dateParse o n) : Disciplined w o fn := by
  have hone : 1 ≤ n := by
    rw [hn] at hpos
    exact_mod_cast hpos
  obtain ⟨m, hm, htrace, hfailed, hend⟩ :=
    retryLoop_spec w o fn hn (n - 1) 0 none (by omega)
  rw [Nat.zero_add] at hend
  refine ⟨m, delayOf w o fn, htrace, ?_, ?_, hend⟩
  · have hcast : ((m + 1 : Nat) : ℚ) ≤ n := by exact_mod_cast (by omega : m + 1 ≤ n)
    rw [hn]
    exact le_trans (by exact_mod_cast hcast) (le_max_right _ _)
  · intro i hi
    obtain ⟨error, hfn, hr⟩ := hfailed i (by omega) (by omega)
    refine ⟨error, hfn, hr, ?_⟩
    rw [delayOf, hfn]
    refine soundDelay ?_
    obtain hsingle | hserver | ⟨hbase, hmax, hzero⟩ := hsafe
    · omega
    · exact .inl (hserver error hr _)
    · exact .inr ⟨hbase, hmax, fun heq => by have := hzero heq; omega⟩

theorem whole_of_disciplined {error : Rejection} (hr : o.retries error = true)
    (h : Disciplined (α := α) w o (fun _ => .error error)) :
    ∃ n : Nat, 1 ≤ n ∧ o.total = n ∧ ∀ i, i + 1 < n → ∃ delay, SoundDelay w o i error delay := by
  obtain ⟨last, delay, htrace, hbound, hsound, hend⟩ := h
  simp only [EndsWith, hr, if_true] at hend
  have heq : max 1 o.total = last + 1 := le_antisymm hend.2 hbound
  by_cases hone : 1 ≤ o.total
  · refine ⟨last + 1, by omega, ?_, ?_⟩
    · rw [max_eq_right hone] at heq
      exact_mod_cast heq
    · intro i hi
      obtain ⟨e, he, -, hdelay⟩ := hsound i (by omega)
      cases he
      exact ⟨delay i, hdelay⟩
  · have hlast : last = 0 := by
      rw [max_eq_left (le_of_not_ge hone)] at heq
      have hzero : (last : ℚ) = 0 := by linarith
      exact_mod_cast hzero
    rw [hlast, withRetry] at htrace
    by_cases hpos : ((0 : Nat) : ℚ) < o.total
    · have hagain : ((0 : Nat) : ℚ) ≠ o.total - 1 := by
        intro h0
        rw [Nat.cast_zero] at h0
        exact hone (by linarith)
      rw [retryLoop_again hpos rfl hr hagain] at htrace
      simp [retryTrace] at htrace
    · rw [retryLoop, if_neg hpos] at htrace
      simp [retryTrace] at htrace

theorem pos_of_disciplined {fn : Nat → Except Rejection α} (h : Disciplined w o fn) : 0 < o.total := by
  obtain ⟨last, delay, htrace, -⟩ := h
  by_contra hpos
  rw [withRetry, retryLoop, if_neg (by simpa using hpos)] at htrace
  cases last <;> simp [retryTrace] at htrace

theorem safe_of_sound {error : Rejection} (hhalf : ∀ i, (w.random i).val = 1 / 2)
    (hnone : ∀ i ms, ¬ AsksFor w.dateParse (w.now i) error ms) {n : Nat} (hn : 1 < n)
    (h : ∀ i, i + 1 < n → ∃ delay, SoundDelay w o i error delay) :
    0 ≤ o.base ∧ 0 ≤ o.max ∧ (o.base = 0 → n ≤ 1025) := by
  have hbackoff : ∀ i, i + 1 < n → ∃ q, backoffDelay w o i = .fin q ∧ 0 ≤ q := by
    intro i hi
    obtain ⟨delay, hdelay⟩ := h i hi
    obtain ⟨q, hq, hlow, -⟩ := hdelay.bounded
    exact ⟨q, (hdelay.jittered (hnone i)).symm.trans hq, hlow⟩
  obtain ⟨q, hq, hlow⟩ := hbackoff 0 (by omega)
  rw [backoffDelay_eq w o (by omega), hhalf, JsNumber.fin.injEq] at hq
  rw [← hq] at hlow
  have hfloor : (0 : Int) ≤ ⌊1 / 2 * min o.max (o.base * 2 ^ 0)⌋ := by exact_mod_cast hlow
  have hmin : 0 ≤ min o.max (o.base * 2 ^ 0) :=
    (mul_nonneg_iff_of_pos_left (by norm_num)).mp (Int.floor_nonneg.mp hfloor)
  have hbase := le_trans hmin (min_le_right _ _)
  refine ⟨by linarith, le_trans hmin (min_le_left _ _), ?_⟩
  intro hzero
  by_contra hlate
  obtain ⟨q', hq', -⟩ := hbackoff 1024 (by omega)
  rw [(backoffDelay_late w o (by omega)).1 hzero] at hq'
  cases hq'

/-- Every run over every outcome, jitter and clock is disciplined exactly under sane
options. -/
theorem with_retry_disciplined (α : Type) (dateParse : String → Option Int) (o : RetryOptions) :
    (∀ (w : RetryWorld) (fn : Nat → Except Rejection α), w.dateParse = dateParse →
      Disciplined w o fn) ↔ o.Sane dateParse := by
  constructor
  · intro hall
    let world (now : ℚ) : RetryWorld :=
      ⟨dateParse, fun _ => "", fun _ => ⟨1 / 2, by norm_num⟩, fun _ => now⟩
    let plain : Rejection := ⟨none, none, none, .other, none, none, ""⟩
    refine ⟨pos_of_disciplined (hall (world 0) (fun _ => .error plain) rfl), ?_⟩
    by_cases hnone : ∀ error, o.retries error = false
    · exact .inl hnone
    · simp only [not_forall, Bool.not_eq_false] at hnone
      obtain ⟨first, hfirst⟩ := hnone
      obtain ⟨n, hone, hn, -⟩ := whole_of_disciplined hfirst
        (hall (world 0) (fun _ => .error first) rfl)
      refine .inr ⟨n, hn, ?_⟩
      by_cases hsingle : n = 1
      · exact .inl hsingle
      by_cases hserver : ∀ error, o.retries error = true → ∀ now, ∃ ms, AsksFor dateParse now error ms
      · exact .inr (.inl hserver)
      · simp only [not_forall, not_exists] at hserver
        obtain ⟨error, hr, now, hsilent⟩ := hserver
        obtain ⟨n', -, hn', hsound⟩ := whole_of_disciplined hr
          (hall (world now) (fun _ => .error error) rfl)
        have hsame : n' = n := by
          rw [hn] at hn'
          exact_mod_cast hn'.symm
        rw [hsame] at hsound
        exact .inr (.inr (safe_of_sound (fun _ => rfl) (fun _ => hsilent) (by omega) hsound))
  · intro hsane w fn hw
    obtain ⟨hpos, hnone | ⟨n, hn, hsafe⟩⟩ := hsane
    · exact disciplined_of_no_retry hpos hnone
    · rw [← hw] at hsafe
      exact disciplined_of_whole hn hpos hsafe

def oneAndAHalf : RetryOptions := ⟨some (3 / 2), none, none, none⟩

def timedOut : Rejection := ⟨none, none, none, .text "ETIMEDOUT", none, none, "timeout"⟩

def stillWorld : RetryWorld :=
  ⟨fun _ => none, fun _ => "1.5", fun _ => ⟨0, by norm_num⟩, fun _ => 0⟩

/-- Between one attempt and two: two calls, and a sleep after the last. -/
theorem fraction_of_an_attempt :
    ¬ Disciplined (α := Unit) stillWorld oneAndAHalf (fun _ => .error timedOut) := by
  intro h
  have hr : oneAndAHalf.retries timedOut = true := rfl
  obtain ⟨n, -, hn, -⟩ := whole_of_disciplined hr h
  have htwo : (3 : ℚ) = 2 * n := by
    have htotal : (3 / 2 : ℚ) = n := hn
    linarith
  have hodd : 3 = 2 * n := by exact_mod_cast htwo
  omega

end SorobanLens
