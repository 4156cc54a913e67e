import SorobanLens.Store.Stability
import SorobanLens.Lib.TokenBucket
import SorobanLens.Lib.Transition
import Mathlib

/-!
`WebhookManager`: subscriptions with a cursor each, the pump that walks the store
on behalf of one, and the delivery attempts it makes. A step is what runs between
two awaits, so that the pumps of all subscriptions, the store's writers and the
callers of `register`, `remove` and `stop` interleave freely.
-/

set_option autoImplicit false

namespace SorobanLens

/-! ### Rate limiting -/

structure RateLimiter where
  perMinute : ℚ
  capacity : ℚ
  tokens : ℚ
  last : ℚ
  deriving DecidableEq

namespace RateLimiter

/-- The burst is a tenth of a minute's allowance. -/
def new (perMinute now : ℚ) : RateLimiter :=
  let capacity : ℚ := max 1 (⌈perMinute / 10⌉ : ℤ)
  { perMinute := perMinute, capacity := capacity, tokens := capacity, last := now }

def refill (l : RateLimiter) (now : ℚ) : RateLimiter :=
  { l with
    tokens := min l.capacity (l.tokens + ((now - l.last) * l.perMinute) / 60000)
    last := now }

def waitMs (l : RateLimiter) (now : ℚ) : JsNumber × RateLimiter :=
  let l := l.refill now
  if 1 ≤ l.tokens then (.fin 0, l)
  else if l.perMinute = 0 then (.posInf, l)
  else (.fin (⌈((1 - l.tokens) * 60000) / l.perMinute⌉ : ℤ), l)

def consume (l : RateLimiter) (now : ℚ) : RateLimiter :=
  let l := l.refill now
  { l with tokens := l.tokens - 1 }

end RateLimiter

/-! ### Subscriptions -/

structure WebhookOptions where
  maxSubscriptions : Nat := 100
  maxSubscriptionsPerHost : Nat := 5
  maxDeliveriesPerMinute : ℚ := 60
  maxDeliveriesPerMinutePerHost : ℚ := 120
  maxAttempts : Nat := 5
  batchSize : JsNumber := .ofNat 50
  deadLetterLimit : Nat := 100
  rate_nonneg : 0 ≤ maxDeliveriesPerMinute := by norm_num
  hostRate_nonneg : 0 ≤ maxDeliveriesPerMinutePerHost := by norm_num

structure WebhookFilter where
  contractId : Option String := none
  topics : Option (List (Option String)) := none
  address : Option String := none
  deriving DecidableEq

def WebhookFilter.query (f : WebhookFilter) : EventQuery :=
  { contractId := f.contractId, topics := f.topics, address := f.address }

structure DeadLetter where
  subscriptionId : Nat
  eventId : String
  attempts : Nat
  lastError : String
  failedAt : ℚ
  deriving DecidableEq

structure Subscription where
  host : String
  filter : WebhookFilter
  cursor : Option String
  busy : Bool
  removed : Bool
  limiter : RateLimiter
  delivered : Nat
  deadLettered : Nat
  deadLetters : List DeadLetter

def latestQuery (f : WebhookFilter) : EventQuery :=
  { f.query with order := some .desc, limit := some (.ofNat 1) }

def pumpQuery (o : WebhookOptions) (sub : Subscription) : EventQuery :=
  { sub.filter.query with
    order := some .asc
    limit := some o.batchSize
    cursor := given sub.cursor }

/-- An event being delivered, the rest of its page, and whether more pages follow. -/
structure Job where
  event : LensEvent
  rest : List LensEvent
  more : Bool
  attempts : Nat
  lastError : String

/-- Where a running `pump` stands: waiting for something outside, or about to go on. -/
inductive Activity where
  /-- `await this.store.queryEvents(…)`. -/
  | querying (query : EventQuery)
  /-- At the head of the loop over a page. -/
  | ready (events : List LensEvent) (more : Bool)
  /-- At the head of the loop over attempts, or of the one in `throttle`. -/
  | attempting (job : Job) (attempt : Nat)
  /-- `await this.sleep(wait)` in `throttle`. -/
  | throttled (job : Job) (attempt : Nat)
  /-- Both budgets were spent. -/
  | admitted (job : Job) (attempt : Nat)
  /-- `await postJson(…)`. -/
  | posting (job : Job) (attempt : Nat)
  /-- The sleep between two attempts. -/
  | backingOff (job : Job) (attempt : Nat)
  /-- `deliver` has returned. -/
  | returned (job : Job)

structure Pump where
  sub : Nat
  activity : Activity

/-- A `register` call that has read the store and not yet returned. -/
structure Registering where
  host : String
  filter : WebhookFilter
  cursor : Option String

/-- What `Date.now()` answers in one turn of `throttle`: to the two looks, and to the
two that spend. -/
structure Readings (now : ℚ) where
  own : ℚ
  host : ℚ
  spendOwn : ℚ
  spendHost : ℚ
  own_le : now ≤ own
  host_le : own ≤ host
  spendOwn_le : host ≤ spendOwn
  spendHost_le : spendOwn ≤ spendHost

def Readings.still (now : ℚ) : Readings now where
  own := now
  host := now
  spendOwn := now
  spendHost := now
  own_le := le_refl now
  host_le := le_refl now
  spendOwn_le := le_refl now
  spendHost_le := le_refl now

/-- One token spent from each of the two buckets. -/
structure Payment where
  sub : Nat
  host : String
  ownAt : ℚ
  hostAt : ℚ
  ownAt_le : ownAt ≤ hostAt
  deriving DecidableEq

structure Attempt where
  sub : Nat
  host : String
  eventId : String
  number : Nat
  at_ : ℚ
  deriving DecidableEq

/-- What came of a request: a status, or the error `postJson` rejects with. -/
inductive Answer where
  | status (code : Nat)
  | error (message : String)
  deriving DecidableEq

structure Reply where
  sub : Nat
  eventId : String
  number : Nat
  answer : Answer
  deriving DecidableEq

inductive Verdict where
  | delivered
  | deadLettered (letter : DeadLetter)
  deriving DecidableEq

structure Outcome where
  sub : Nat
  eventId : String
  verdict : Verdict
  attempts : Nat
  deriving DecidableEq

/-- The store, the manager and what it has done. A subscription is known by its
place in `subs`; a removed one stays there for the pump that still holds it. -/
structure Webhooks (σ : Type) where
  store : σ
  clock : ℚ
  stopped : Bool
  subs : List Subscription
  hostLimiters : String → Option RateLimiter
  pumps : List Pump
  registering : List Registering
  payments : List Payment
  attempts : List Attempt
  replies : List Reply
  outcomes : List Outcome
  /-- The cursor each subscription registered with. -/
  starts : Nat → Option String
  /-- The events handed to `deliver`, by subscription. -/
  handed : List (Nat × String)
  /-- The ids stored since a subscription registered. -/
  fresh : Nat → String → Prop

namespace Webhooks

variable {σ : Type}

def Initial (s : Webhooks σ) : Prop :=
  s.stopped = false ∧ s.subs = [] ∧ (∀ h, s.hostLimiters h = none) ∧ s.pumps = [] ∧
    s.registering = [] ∧ s.payments = [] ∧ s.attempts = [] ∧ s.replies = [] ∧
    s.outcomes = [] ∧ s.handed = [] ∧ ∀ i id, ¬ s.fresh i id

def live (s : Webhooks σ) : List Subscription := s.subs.filter (fun sub => !sub.removed)

def setActivity (s : Webhooks σ) (k i : Nat) (a : Activity) : Webhooks σ :=
  { s with pumps := s.pumps.set k ⟨i, a⟩ }

def updateSub (s : Webhooks σ) (i : Nat) (f : Subscription → Subscription) : Webhooks σ :=
  { s with subs := s.subs.modify i f }

/-- `pump` returns: `finally { sub.busy = false }`. -/
def finish (s : Webhooks σ) (k i : Nat) : Webhooks σ :=
  { s.updateSub i (fun sub => { sub with busy := false }) with pumps := s.pumps.eraseIdx k }

def gone (s : Webhooks σ) (sub : Subscription) : Bool := s.stopped || sub.removed

def hostLimiter (s : Webhooks σ) (o : WebhookOptions) (host : String) : RateLimiter :=
  (s.hostLimiters host).getD (.new o.maxDeliveriesPerMinutePerHost s.clock)

def loop (s : Webhooks σ) (o : WebhookOptions) (k i : Nat) (sub : Subscription)
    (events : List LensEvent) (more : Bool) : Webhooks σ :=
  match events with
  | [] => if more then s.setActivity k i (.querying (pumpQuery o sub)) else s.finish k i
  | e :: rest =>
    if s.gone sub then s.finish k i
    else
      { s.setActivity k i (.attempting ⟨e, rest, more, 0, "unknown error"⟩ 1) with
        handed := s.handed ++ [(i, e.id)] }

/-- The event goes to the dead letters, of which the newest are kept. -/
def deadLetter (s : Webhooks σ) (o : WebhookOptions) (k i : Nat) (job : Job) : Webhooks σ :=
  let letter : DeadLetter := ⟨i, job.event.id, job.attempts, job.lastError, s.clock⟩
  let s := s.updateSub i (fun sub =>
    let letters := sub.deadLetters ++ [letter]
    { sub with
      deadLettered := sub.deadLettered + 1
      deadLetters := letters.drop (letters.length - o.deadLetterLimit) })
  { s.setActivity k i (.returned job) with
    outcomes := s.outcomes ++ [⟨i, job.event.id, .deadLettered letter, job.attempts⟩] }

/-- `for (…; attempt <= maxAttempts; …) { await this.throttle(sub); …`: the check
of both budgets and the spending happen in one turn. -/
def attempt (s : Webhooks σ) (o : WebhookOptions) (k i : Nat) (sub : Subscription) (job : Job)
    (n : Nat) (r : Readings s.clock) : Webhooks σ :=
  if o.maxAttempts < n then s.deadLetter o k i job
  else
    let host := s.hostLimiter o sub.host
    let s := { s with hostLimiters := Function.update s.hostLimiters sub.host (some host) }
    if s.gone sub then s.setActivity k i (.returned job)
    else
      let (ownWait, own) := sub.limiter.waitMs r.own
      let (hostWait, host) := host.waitMs r.host
      if JsNumber.max ownWait hostWait = .fin 0 then
        { (s.updateSub i (fun sub => { sub with limiter := own.consume r.spendOwn })).setActivity k
            i (.admitted job n) with
          clock := r.spendHost
          hostLimiters := Function.update s.hostLimiters sub.host (some (host.consume r.spendHost))
          payments := s.payments ++ [⟨i, sub.host, r.spendOwn, r.spendHost, r.spendHost_le⟩] }
      else
        { (s.updateSub i (fun sub => { sub with limiter := own })).setActivity k i
            (.throttled job n) with
          clock := r.host
          hostLimiters := Function.update s.hostLimiters sub.host (some host) }

def post (s : Webhooks σ) (k i : Nat) (sub : Subscription) (job : Job) (n : Nat) : Webhooks σ :=
  if s.gone sub then s.setActivity k i (.returned job)
  else
    { s.setActivity k i (.posting { job with attempts := n } n) with
      attempts := s.attempts ++ [⟨i, sub.host, job.event.id, n, s.clock⟩] }

def retryable (code : Nat) : Bool := decide (500 ≤ code) || code == 408 || code == 429

def retryOrGiveUp (s : Webhooks σ) (o : WebhookOptions) (k i : Nat) (job : Job) (n : Nat) :
    Webhooks σ :=
  if n < o.maxAttempts then s.setActivity k i (.backingOff job n) else s.deadLetter o k i job

def answer (s : Webhooks σ) (o : WebhookOptions) (k i : Nat) (job : Job) (n : Nat) (a : Answer) :
    Webhooks σ :=
  let s : Webhooks σ := { s with replies := s.replies ++ [⟨i, job.event.id, n, a⟩] }
  match a with
  | .status code =>
    if 200 ≤ code ∧ code < 300 then
      { (s.updateSub i (fun sub => { sub with delivered := sub.delivered + 1 })).setActivity k i
          (.returned job) with
        outcomes := s.outcomes ++ [⟨i, job.event.id, .delivered, job.attempts⟩] }
    else
      let job := { job with lastError := "HTTP " ++ toString code }
      if retryable code then s.retryOrGiveUp o k i job n else s.deadLetter o k i job
  | .error message => s.retryOrGiveUp o k i { job with lastError := message } n

def retry (s : Webhooks σ) (k i : Nat) (sub : Subscription) (job : Job) (n : Nat) : Webhooks σ :=
  if s.gone sub then s.setActivity k i (.returned job)
  else s.setActivity k i (.attempting job (n + 1))

/-- After `deliver`: `sub.cursor = event.id`. -/
def resume (s : Webhooks σ) (k i : Nat) (job : Job) : Webhooks σ :=
  (s.updateSub i (fun sub => { sub with cursor := some job.event.id })).setActivity k i
    (.ready job.rest job.more)

def subscribe (s : Webhooks σ) (o : WebhookOptions) (r : Registering) : Subscription where
  host := r.host
  filter := r.filter
  cursor := r.cursor
  busy := false
  removed := false
  limiter := .new o.maxDeliveriesPerMinute s.clock
  delivered := 0
  deadLettered := 0
  deadLetters := []

/-- One turn of the event loop, or a write to the store by another process. How
long a sleep lasts only decides when its pump wakes, which may be at any time; time
may pass between any two steps. -/
inductive Step (E : EventStore σ) (o : WebhookOptions) : Webhooks σ → Webhooks σ → Prop where
  | insert {s : Webhooks σ} {t : σ} : E.Inserted s.store t →
      Step E o s { s with
        store := t
        fresh := fun i id => s.fresh i id ∨
          (i < s.subs.length ∧ id ∈ E.stored t ∧ id ∉ E.stored s.store) }
  | prune {s : Webhooks σ} {t : σ} : E.Pruned s.store t → Step E o s { s with store := t }
  | tick {s : Webhooks σ} {later : ℚ} : s.clock ≤ later → Step E o s { s with clock := later }
  | register {s : Webhooks σ} {host : String} {filter : WebhookFilter} {page : EventPage} :
      s.live.length < o.maxSubscriptions →
      (s.live.filter (fun sub => sub.host == host)).length < o.maxSubscriptionsPerHost →
      E.queryEvents (latestQuery filter) s.store page →
      Step E o s { s with
        registering := ⟨host, filter, page.events.head?.map LensEvent.id⟩ :: s.registering }
  | registered {s : Webhooks σ} {r : Registering} {before after : List Registering} :
      s.registering = before ++ r :: after →
      Step E o s { s with
        registering := before ++ after
        subs := s.subs ++ [s.subscribe o r]
        starts := Function.update s.starts s.subs.length r.cursor }
  | pump {s : Webhooks σ} {i : Nat} {sub : Subscription} : s.subs[i]? = some sub →
      sub.busy = false → s.gone sub = false →
      Step E o s { s.updateSub i (fun sub => { sub with busy := true }) with
        pumps := s.pumps ++ [⟨i, .querying (pumpQuery o sub)⟩] }
  | page {s : Webhooks σ} {k i : Nat} {query : EventQuery} {page : EventPage} :
      s.pumps[k]? = some ⟨i, .querying query⟩ → E.queryEvents query s.store page →
      Step E o s (s.setActivity k i
        (.ready page.events (!page.events.isEmpty && (given page.nextCursor).isSome)))
  | queryFailed {s : Webhooks σ} {k i : Nat} {query : EventQuery} :
      s.pumps[k]? = some ⟨i, .querying query⟩ → Step E o s (s.finish k i)
  | loop {s : Webhooks σ} {k i : Nat} {sub : Subscription} {events : List LensEvent} {more : Bool} :
      s.pumps[k]? = some ⟨i, .ready events more⟩ → s.subs[i]? = some sub →
      Step E o s (s.loop o k i sub events more)
  | attempt {s : Webhooks σ} {k i n : Nat} {sub : Subscription} {job : Job}
      (r : Readings s.clock) :
      s.pumps[k]? = some ⟨i, .attempting job n⟩ → s.subs[i]? = some sub →
      Step E o s (s.attempt o k i sub job n r)
  | wake {s : Webhooks σ} {k i n : Nat} {job : Job} :
      s.pumps[k]? = some ⟨i, .throttled job n⟩ →
      Step E o s (s.setActivity k i (.attempting job n))
  | post {s : Webhooks σ} {k i n : Nat} {sub : Subscription} {job : Job} :
      s.pumps[k]? = some ⟨i, .admitted job n⟩ → s.subs[i]? = some sub →
      Step E o s (s.post k i sub job n)
  | answer {s : Webhooks σ} {k i n : Nat} {job : Job} (a : Answer) :
      s.pumps[k]? = some ⟨i, .posting job n⟩ → Step E o s (s.answer o k i job n a)
  | retry {s : Webhooks σ} {k i n : Nat} {sub : Subscription} {job : Job} :
      s.pumps[k]? = some ⟨i, .backingOff job n⟩ → s.subs[i]? = some sub →
      Step E o s (s.retry k i sub job n)
  | resume {s : Webhooks σ} {k i : Nat} {job : Job} :
      s.pumps[k]? = some ⟨i, .returned job⟩ → Step E o s (s.resume k i job)
  | remove {s : Webhooks σ} {i : Nat} {sub : Subscription} : s.subs[i]? = some sub →
      sub.removed = false →
      Step E o s (s.updateSub i (fun sub => { sub with removed := true }))
  | stop {s : Webhooks σ} : Step E o s { s with stopped := true }

variable {E : EventStore σ} {o : WebhookOptions} {s : Webhooks σ}

theorem attempt_admitted {k i n : Nat} {sub : Subscription} {job : Job} (r : Readings s.clock)
    (hn : n ≤ o.maxAttempts) (hgone : s.gone sub = false)
    (hwait : JsNumber.max (sub.limiter.waitMs r.own).1
      ((s.hostLimiter o sub.host).waitMs r.host).1 = .fin 0) :
    s.attempt o k i sub job n r =
      { (s.updateSub i (fun other => { other with
          limiter := (sub.limiter.waitMs r.own).2.consume r.spendOwn })).setActivity k i
            (.admitted job n) with
        clock := r.spendHost
        hostLimiters := Function.update s.hostLimiters sub.host
          (some (((s.hostLimiter o sub.host).waitMs r.host).2.consume r.spendHost))
        payments := s.payments ++ [⟨i, sub.host, r.spendOwn, r.spendHost, r.spendHost_le⟩] } := by
  have hlt : ¬ o.maxAttempts < n := by omega
  have hg : gone { s with
      hostLimiters :=
        (Function.update s.hostLimiters sub.host (some (s.hostLimiter o sub.host))) } sub = false :=
    hgone
  simp only [attempt, if_neg hlt, hg, Bool.false_eq_true, if_false, if_pos hwait,
    Function.update_idem]
  rfl

theorem waitMs_new (rate now : ℚ) : ((RateLimiter.new rate now).waitMs now).1 = .fin 0 := by
  have hone : 1 ≤ ((RateLimiter.new rate now).refill now).tokens := by
    simp [RateLimiter.new, RateLimiter.refill]
  simp only [RateLimiter.waitMs, if_pos hone]

def NamedStep (E : EventStore σ) (o : WebhookOptions) (s t : Webhooks σ) : Prop :=
  Step E o s t ∧ "" ∉ E.stored s.store

/-! ### A delivery undisturbed -/

def Steady (E : EventStore σ) (o : WebhookOptions) (store : σ) (s t : Webhooks σ) : Prop :=
  Step E o s t ∧ s.store = store ∧ t.store = store

structure Alone (E : EventStore σ) (o : WebhookOptions) (s t : Webhooks σ) (now : ℚ) (i : Nat)
    (sub : Subscription) (a : Activity) (hosts : String → Option RateLimiter)
    (attempts : List Attempt) (replies : List Reply) : Prop where
  run : Relation.ReflTransGen (Steady E o s.store) s t
  pump : t.pumps[0]? = some ⟨i, a⟩
  held : t.subs[i]? = some sub
  live : t.gone sub = false
  store : t.store = s.store
  clock : t.clock = now
  hosts : t.hostLimiters = hosts
  attempts : t.attempts = attempts
  replies : t.replies = replies

theorem named_of_steady {store : σ} (hnamed : "" ∉ E.stored store) (s t : Webhooks σ)
    (h : Steady E o store s t) : NamedStep E o s t := ⟨h.1, h.2.1 ▸ hnamed⟩

section Alone

variable {t : Webhooks σ} {now : ℚ} {i n : Nat} {sub : Subscription} {job : Job}
  {hosts : String → Option RateLimiter} {attempts : List Attempt} {replies : List Reply}

theorem alone_pump {query : EventQuery} (hpumps : s.pumps = []) (hsub : s.subs[i]? = some sub)
    (hidle : sub.busy = false) (hlive : s.gone sub = false) (hquery : pumpQuery o sub = query) :
    ∃ u, Alone E o s u s.clock i { sub with busy := true } (.querying query) s.hostLimiters
      s.attempts s.replies := by
  refine ⟨_, .single ⟨Step.pump hsub hidle hlive, rfl, rfl⟩, ?_, ?_, hlive, rfl, rfl, rfl, rfl, rfl⟩
  · simp [hpumps, hquery]
  · simp [updateSub, hsub]

theorem Alone.set {a b : Activity} {w : Webhooks σ}
    (h : Alone E o s t now i sub a hosts attempts replies) (hw : Step E o t w)
    (hpumps : w.pumps = t.pumps.set 0 ⟨i, b⟩) {next : Subscription} (hsub : w.subs[i]? = some next)
    (hlive : w.gone next = false) (hstore : w.store = t.store) :
    Alone E o s w w.clock i next b w.hostLimiters w.attempts w.replies := by
  refine ⟨h.run.tail ⟨hw, h.store, hstore.trans h.store⟩, ?_, hsub, hlive, hstore.trans h.store,
    rfl, rfl, rfl, rfl⟩
  rw [hpumps]
  exact List.getElem?_set_self (List.getElem?_eq_some_iff.mp h.pump).1

theorem Alone.page {query : EventQuery} {page : EventPage}
    (h : Alone E o s t now i sub (.querying query) hosts attempts replies)
    (hq : E.queryEvents query s.store page) : ∃ more u,
      Alone E o s u now i sub (.ready page.events more) hosts attempts replies := by
  have hset := h.set (Step.page h.pump (h.store ▸ hq)) rfl h.held h.live rfl
  rw [← h.clock, ← h.hosts, ← h.attempts, ← h.replies]
  exact ⟨_, _, hset⟩

theorem Alone.hand {e : LensEvent} {rest : List LensEvent} {more : Bool}
    (h : Alone E o s t now i sub (.ready (e :: rest) more) hosts attempts replies) : ∃ u,
      Alone E o s u now i sub (.attempting ⟨e, rest, more, 0, "unknown error"⟩ 1) hosts attempts
        replies := by
  have hstep := Step.loop (E := E) (o := o) h.pump h.held
  have hlive := h.live
  simp only [loop, hlive, Bool.false_eq_true, if_false] at hstep
  have hset := h.set hstep rfl h.held h.live rfl
  rw [← h.clock, ← h.hosts, ← h.attempts, ← h.replies]
  exact ⟨_, hset⟩

theorem Alone.tick {a : Activity} {later : ℚ}
    (h : Alone E o s t now i sub a hosts attempts replies) (hlater : now ≤ later) : ∃ u,
      Alone E o s u later i sub a hosts attempts replies := by
  have hstep : Step E o t { t with clock := later } := .tick (h.clock ▸ hlater)
  refine ⟨{ t with clock := later }, h.run.tail ⟨hstep, h.store, h.store⟩, h.pump, h.held, h.live,
    h.store, rfl, h.hosts, h.attempts, h.replies⟩

theorem Alone.grant (h : Alone E o s t now i sub (.attempting job n) hosts attempts replies)
    (hn : n ≤ o.maxAttempts) {own host : RateLimiter} (hown : sub.limiter = own)
    (hhost : (hosts sub.host).getD (.new o.maxDeliveriesPerMinutePerHost now) = host)
    (hwait : JsNumber.max (own.waitMs now).1 (host.waitMs now).1 = .fin 0) : ∃ u,
      Alone E o s u now i { sub with limiter := (own.waitMs now).2.consume now } (.admitted job n)
        (Function.update hosts sub.host (some ((host.waitMs now).2.consume now))) attempts
        replies := by
  subst hown hhost
  have hstep := Step.attempt (E := E) (o := o) (.still t.clock) h.pump h.held
  have hlimiter : t.hostLimiter o sub.host =
      (hosts sub.host).getD (.new o.maxDeliveriesPerMinutePerHost now) := by
    rw [hostLimiter, h.hosts, h.clock]
  have hready : JsNumber.max (sub.limiter.waitMs t.clock).1
      ((t.hostLimiter o sub.host).waitMs t.clock).1 = .fin 0 := by
    rw [hlimiter, h.clock, hwait]
  rw [attempt_admitted (.still t.clock) hn h.live hready] at hstep
  have hsub : (t.subs.modify i (fun other => { other with
      limiter := (sub.limiter.waitMs t.clock).2.consume t.clock }))[i]? =
        some { sub with limiter := (sub.limiter.waitMs t.clock).2.consume t.clock } := by
    simp [h.held]
  have hset := h.set hstep rfl hsub h.live rfl
  rw [← h.attempts, ← h.replies, ← h.hosts]
  rw [hlimiter] at hset
  simp only [h.clock, Readings.still] at hset
  rw [h.hosts] at hset ⊢
  exact ⟨_, hset⟩

theorem Alone.send (h : Alone E o s t now i sub (.admitted job n) hosts attempts replies) : ∃ u,
      Alone E o s u now i sub (.posting { job with attempts := n } n) hosts
        (attempts ++ [⟨i, sub.host, job.event.id, n, now⟩]) replies := by
  have hstep := Step.post (E := E) (o := o) h.pump h.held
  have hlive := h.live
  simp only [post, hlive, Bool.false_eq_true, if_false] at hstep
  have hset := h.set hstep rfl h.held h.live rfl
  rw [← h.clock, ← h.hosts, ← h.attempts, ← h.replies]
  exact ⟨_, hset⟩

theorem Alone.backOff (code : Nat) (h : Alone E o s t now i sub (.posting job n) hosts attempts replies)
    (hfail : ¬ (200 ≤ code ∧ code < 300)) (hworth : retryable code = true) (hn : n < o.maxAttempts) :
    ∃ u, Alone E o s u now i sub
      (.backingOff { job with lastError := "HTTP " ++ toString code } n) hosts attempts
      (replies ++ [⟨i, job.event.id, n, .status code⟩]) := by
  have hstep := Step.answer (E := E) (o := o) (.status code) h.pump
  simp only [answer, if_neg hfail, hworth, if_true, retryOrGiveUp, if_pos hn] at hstep
  have hset := h.set hstep rfl h.held h.live rfl
  rw [← h.clock, ← h.hosts, ← h.attempts, ← h.replies]
  exact ⟨_, hset⟩

theorem Alone.retry (h : Alone E o s t now i sub (.backingOff job n) hosts attempts replies) : ∃ u,
      Alone E o s u now i sub (.attempting job (n + 1)) hosts attempts replies := by
  have hstep := Step.retry (E := E) (o := o) h.pump h.held
  have hlive := h.live
  simp only [Webhooks.retry, hlive, Bool.false_eq_true, if_false] at hstep
  have hset := h.set hstep rfl h.held h.live rfl
  rw [← h.clock, ← h.hosts, ← h.attempts, ← h.replies]
  exact ⟨_, hset⟩

theorem Alone.refuse (code : Nat) (h : Alone E o s t now i sub (.posting job n) hosts attempts replies)
    (hfail : ¬ (200 ≤ code ∧ code < 300)) (hworth : retryable code = false) :
    ∃ u, Relation.ReflTransGen (Steady E o s.store) s u ∧ u.attempts = attempts ∧
      u.replies = replies ++ [⟨i, job.event.id, n, .status code⟩] := by
  have hstep := Step.answer (E := E) (o := o) (.status code) h.pump
  refine ⟨_, h.run.tail ⟨hstep, h.store, ?_⟩, ?_, ?_⟩
  · simp only [answer, if_neg hfail, hworth, Bool.false_eq_true, if_false]
    exact h.store
  · simp only [answer, if_neg hfail, hworth, Bool.false_eq_true, if_false]
    exact h.attempts
  · simp only [answer, if_neg hfail, hworth, Bool.false_eq_true, if_false]
    rw [← h.replies]
    rfl

theorem first_request {page : EventPage} {e : LensEvent} {rest : List LensEvent}
    (hpumps : s.pumps = []) (hsub : s.subs[i]? = some sub) (hidle : sub.busy = false)
    (hlive : s.gone sub = false) (hq : E.queryEvents (pumpQuery o sub) s.store page)
    (hpage : page.events = e :: rest) (hn : 1 ≤ o.maxAttempts)
    (hown : sub.limiter = .new o.maxDeliveriesPerMinute s.clock)
    (hhost : s.hostLimiters sub.host = none) : ∃ more u,
      Alone E o s u s.clock i
        { sub with
          busy := true
          limiter := ((RateLimiter.new o.maxDeliveriesPerMinute s.clock).waitMs s.clock).2.consume
            s.clock }
        (.posting ⟨e, rest, more, 1, "unknown error"⟩ 1)
        (Function.update s.hostLimiters sub.host (some
          (((RateLimiter.new o.maxDeliveriesPerMinutePerHost s.clock).waitMs s.clock).2.consume
            s.clock)))
        (s.attempts ++ [⟨i, sub.host, e.id, 1, s.clock⟩]) s.replies := by
  obtain ⟨_, h⟩ := alone_pump (E := E) hpumps hsub hidle hlive rfl
  obtain ⟨more, _, h⟩ := h.page hq
  rw [hpage] at h
  obtain ⟨_, h⟩ := h.hand
  have hwait : JsNumber.max ((RateLimiter.new o.maxDeliveriesPerMinute s.clock).waitMs s.clock).1
      ((RateLimiter.new o.maxDeliveriesPerMinutePerHost s.clock).waitMs s.clock).1 = .fin 0 := by
    rw [waitMs_new, waitMs_new]
    rfl
  obtain ⟨_, h⟩ := h.grant hn hown (by rw [hhost]; rfl) hwait
  obtain ⟨_, h⟩ := h.send
  exact ⟨more, _, h⟩

end Alone

/-! ### First steps -/

def plainStart (ids : List String) : Webhooks Db where
  store := plainDb ids
  clock := 0
  stopped := false
  subs := []
  hostLimiters := fun _ => none
  pumps := []
  registering := []
  payments := []
  attempts := []
  replies := []
  outcomes := []
  starts := fun _ => none
  handed := []
  fresh := fun _ _ => False

theorem plainStart_initial (ids : List String) : Initial (plainStart ids) :=
  ⟨rfl, rfl, fun _ => rfl, rfl, rfl, rfl, rfl, rfl, rfl, rfl, fun _ _ h => h⟩

def plainSub (o : WebhookOptions) (cursor : Option String) : Subscription :=
  (plainStart []).subscribe o ⟨"h", {}, cursor⟩

theorem plain_registered (ids newest : List String) (cursor : Option String)
    (hroom : 0 < o.maxSubscriptions) (hhost : 0 < o.maxSubscriptionsPerHost)
    (hcan : CanAnswer plainReader (latestQuery {}) (plainDb ids))
    (hpage : (pageWindow plainReader (latestQuery {}) (plainDb ids)).page = newest.map plainRow)
    (hcursor : newest.head? = cursor) :
    Reachable Initial (Steady (sqliteStore plainReader) o (plainDb ids))
      { plainStart ids with
        subs := [plainSub o cursor]
        starts := Function.update (fun _ => none) 0 cursor } := by
  obtain ⟨total, estimate, hq⟩ := plain_answers hcan hpage
  have hlast : (newest.map plainEvent).head?.map LensEvent.id = cursor := by
    rw [← hcursor]
    cases newest <;> rfl
  have hstart : Reachable Initial (Steady (sqliteStore plainReader) o (plainDb ids))
      (plainStart ids) := .start (plainStart_initial ids)
  have hnone : ((plainStart ids).live.filter (fun sub => sub.host == "h")).length <
      o.maxSubscriptionsPerHost := hhost
  have hread := hstart.next ⟨Step.register hroom hnone hq, rfl, rfl⟩
  rw [hlast] at hread
  have hwaiting : [(⟨"h", {}, cursor⟩ : Registering)] = [] ++ ⟨"h", {}, cursor⟩ :: [] := rfl
  have hadded := hread.next ⟨Step.registered hwaiting, rfl, rfl⟩
  exact hadded

theorem plain_stored (hroom : 0 < o.maxSubscriptions) (hhost : 0 < o.maxSubscriptionsPerHost) :
    ∃ s : Webhooks Db, Reachable Initial (NamedStep (sqliteStore plainReader) o) s ∧
      s.store = plainDb ["b"] ∧ s.pumps = [] ∧ s.subs[0]? = some (plainSub o none) ∧
      s.gone (plainSub o none) = false ∧ s.clock = 0 ∧ s.hostLimiters "h" = none ∧
      s.attempts = [] ∧ s.replies = [] := by
  have hsteady := plain_registered [] [] none hroom hhost ⟨rfl, by decide⟩ rfl rfl
  have h := hsteady.mono (named_of_steady List.not_mem_nil)
  have hbatch : insertDecoded plainRuntime ⟨true⟩ [plainEvent "b"] (plainDb []) =
      (.ok 1, plainDb ["b"]) := rfl
  have hins := inserted_insertDecoded plainReader hbatch
  exact ⟨_, h.next ⟨Step.insert hins, List.not_mem_nil⟩, rfl, rfl, rfl, rfl, rfl, rfl, rfl, rfl⟩

theorem plain_page (hbatch : o.batchSize = .ofNat 50) :
    ∃ page, (sqliteStore plainReader).queryEvents (pumpQuery o (plainSub o none)) (plainDb ["b"])
      page ∧ page.events = [plainEvent "b"] := by
  have hquery : pumpQuery o (plainSub o none) =
      { order := some .asc, limit := some (.ofNat 50) } := by
    rw [pumpQuery, hbatch]
    rfl
  rw [hquery]
  have hlimit : normaliseLimit plainReader.maxLimit (some (.ofNat 50)) = 50 := by decide +kernel
  have hpage : (pageWindow plainReader { order := some .asc, limit := some (.ofNat 50) }
      (plainDb ["b"])).page = ["b"].map plainRow := by
    rw [pageWindow, hlimit]
    rfl
  obtain ⟨total, estimate, hq⟩ := plain_answers ⟨rfl, by decide⟩ hpage
  exact ⟨_, hq, rfl⟩

theorem plain_request : ∃ (s t : Webhooks Db) (more : Bool),
    Reachable Initial (NamedStep (sqliteStore plainReader) {}) s ∧ s.store = plainDb ["b"] ∧
      s.clock = 0 ∧ s.hostLimiters "h" = none ∧
      Alone (sqliteStore plainReader) {} s t s.clock 0
        { plainSub {} none with
          busy := true
          limiter := ((RateLimiter.new 60 s.clock).waitMs s.clock).2.consume s.clock }
        (.posting ⟨plainEvent "b", [], more, 1, "unknown error"⟩ 1)
        (Function.update s.hostLimiters "h" (some
          (((RateLimiter.new 120 s.clock).waitMs s.clock).2.consume s.clock)))
        [⟨0, "h", "b", 1, s.clock⟩] [] := by
  obtain ⟨s, hs, hstore, hpumps, hsub, hlive, hclock, hhost, hattempts, hreplies⟩ :=
    plain_stored (o := {}) (by decide) (by decide)
  obtain ⟨page, hq, hpage⟩ := plain_page (o := {}) rfl
  have hown : (plainSub {} none).limiter = .new 60 s.clock := by
    rw [hclock]
    rfl
  obtain ⟨more, t, ht⟩ := first_request (o := {}) hpumps hsub rfl hlive (hstore ▸ hq) hpage
    (by decide) hown hhost
  rw [hattempts, hreplies] at ht
  exact ⟨s, t, more, hs, hstore, hclock, hhost, ht⟩

theorem named_of_run {s t : Webhooks Db} {E : EventStore Db}
    (hs : Reachable Initial (NamedStep E o) s) (hnamed : "" ∉ E.stored s.store)
    (h : Relation.ReflTransGen (Steady E o s.store) s t) : Reachable Initial (NamedStep E o) t :=
  hs.run (Relation.ReflTransGen.mono (named_of_steady hnamed) _ _ h)

end Webhooks

end SorobanLens
