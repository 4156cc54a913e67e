import SorobanLens.Api.Webhooks

/-!
The two budgets as token buckets, and the ceiling they put on what is spent for one
host and on behalf of one subscription. Time may pass between the spending and the
request, so that a window may see requests which were paid for before it began.
-/

set_option autoImplicit false

namespace SorobanLens

namespace RateLimiter

def bucket (l : RateLimiter) : TokenBucket := ⟨l.capacity, l.perMinute / 60000, l.tokens, l.last⟩

theorem bucket_refill (l : RateLimiter) (now : ℚ) : (l.refill now).bucket = l.bucket.refill now := by
  have hgain : (now - l.last) * l.perMinute / 60000 = (now - l.last) * (l.perMinute / 60000) := by
    ring
  simp [bucket, refill, TokenBucket.refill, TokenBucket.level, hgain]

theorem bucket_consume (l : RateLimiter) (now : ℚ) :
    (l.consume now).bucket = l.bucket.consume now := by
  have hgain : (now - l.last) * l.perMinute / 60000 = (now - l.last) * (l.perMinute / 60000) := by
    ring
  simp [bucket, consume, refill, TokenBucket.consume, TokenBucket.level, hgain]

theorem waitMs_snd (l : RateLimiter) (now : ℚ) : (l.waitMs now).2 = l.refill now := by
  simp only [waitMs]
  split
  · rfl
  · split <;> rfl

theorem waitMs_cases (l : RateLimiter) (now : ℚ) (hrate : 0 ≤ l.perMinute) :
    ((l.waitMs now).1 = .fin 0 ∧ 1 ≤ l.bucket.level now) ∨ (l.waitMs now).1 = .posInf ∨
      ∃ q : ℚ, 0 < q ∧ (l.waitMs now).1 = .fin q := by
  have hlevel : (l.refill now).tokens = l.bucket.level now :=
    congrArg TokenBucket.tokens (bucket_refill l now)
  have hsame : (l.refill now).perMinute = l.perMinute := rfl
  simp only [waitMs]
  split
  · rename_i hone
    rw [hlevel] at hone
    exact .inl ⟨rfl, hone⟩
  · rename_i hone
    split
    · exact .inr (.inl rfl)
    · rename_i hzero
      have hpos : 0 < (l.refill now).perMinute := lt_of_le_of_ne (hsame ▸ hrate) (Ne.symm hzero)
      have hshort : 0 < (1 - (l.refill now).tokens) * 60000 := by linarith
      have hceil := Int.ceil_pos.mpr (div_pos hshort hpos)
      exact .inr (.inr ⟨_, by exact_mod_cast hceil, rfl⟩)

theorem level_of_waitMs {own host : RateLimiter} {now later : ℚ} (ho : 0 ≤ own.perMinute)
    (hh : 0 ≤ host.perMinute)
    (hmax : JsNumber.max (own.waitMs now).1 (host.waitMs later).1 = .fin 0) :
    1 ≤ own.bucket.level now ∧ 1 ≤ host.bucket.level later := by
  rcases waitMs_cases own now ho with ⟨hown, hol⟩ | hown | ⟨a, ha, hown⟩
  · rcases waitMs_cases host later hh with ⟨hhost, hhl⟩ | hhost | ⟨b, hb, hhost⟩
    · exact ⟨hol, hhl⟩
    · simp [hown, hhost, JsNumber.max, JsNumber.lt] at hmax
    · rw [hown, hhost, JsNumber.max_fin, max_eq_right hb.le] at hmax
      have hzero : b = 0 := by simpa using hmax
      linarith
  · rcases waitMs_cases host later hh with ⟨hhost, hhl⟩ | hhost | ⟨b, hb, hhost⟩ <;>
      simp [hown, hhost, JsNumber.max, JsNumber.lt] at hmax
  · rcases waitMs_cases host later hh with ⟨hhost, hhl⟩ | hhost | ⟨b, hb, hhost⟩
    · rw [hown, hhost, JsNumber.max_fin, max_eq_left ha.le] at hmax
      have hzero : a = 0 := by simpa using hmax
      linarith
    · simp [hown, hhost, JsNumber.max, JsNumber.lt] at hmax
    · rw [hown, hhost, JsNumber.max_fin] at hmax
      have hzero : max a b = 0 := by simpa using hmax
      have hle := le_max_left a b
      linarith

/-- A limiter of this rate that has let these moments through. -/
structure Within (l : RateLimiter) (rate now : ℚ) (times : List ℚ) : Prop where
  perMinute : l.perMinute = rate
  capacity : l.capacity = max (1 : ℚ) (⌈rate / 10⌉ : ℤ)
  paced : l.bucket.Paced now times

theorem within_new {rate : ℚ} (now : ℚ) (hr : 0 ≤ rate) : (new rate now).Within rate now [] := by
  have hcap : (0 : ℚ) ≤ max (1 : ℚ) (⌈rate / 10⌉ : ℤ) := le_max_of_le_left zero_le_one
  have hrate : 0 ≤ rate / 60000 := div_nonneg hr (by norm_num)
  exact ⟨rfl, rfl, TokenBucket.paced_new now hcap hrate⟩

variable {l : RateLimiter} {rate now : ℚ} {times : List ℚ}

theorem Within.tick {later : ℚ} (h : l.Within rate now times) (hn : now ≤ later) :
    l.Within rate later times := ⟨h.perMinute, h.capacity, h.paced.tick hn⟩

theorem Within.refill (h : l.Within rate now times) : (l.refill now).Within rate now times := by
  refine ⟨h.perMinute, h.capacity, ?_⟩
  rw [bucket_refill]
  exact h.paced.refill

theorem Within.consume (h : l.Within rate now times) (hlevel : 1 ≤ l.bucket.level now) :
    (l.consume now).Within rate now (times ++ [now]) := by
  refine ⟨h.perMinute, h.capacity, ?_⟩
  rw [bucket_consume]
  exact h.paced.consume hlevel

/-- One turn looks at a limiter, and takes a whole token from it or nothing. -/
inductive Turn (l : RateLimiter) (now later : ℚ) : RateLimiter → Option ℚ → Prop where
  | untouched : now ≤ later → Turn l now later l none
  | looked {seen : ℚ} : now ≤ seen → seen ≤ later → Turn l now later (l.refill seen) none
  | spent {seen at_ : ℚ} : now ≤ seen → seen ≤ at_ → at_ ≤ later → 1 ≤ l.bucket.level seen →
      Turn l now later ((l.refill seen).consume at_) (some at_)

theorem Within.level_refill {later : ℚ} (h : l.Within rate now times) (hn : now ≤ later) :
    l.bucket.level now ≤ (l.refill now).bucket.level later := by
  have hsound := h.paced.sound.refill h.paced.last_le
  have hsame : (l.bucket.refill now).level now = l.bucket.level now :=
    TokenBucket.level_last hsound
  rw [bucket_refill, ← hsame]
  exact TokenBucket.level_mono hsound.rate_nonneg hn

theorem Within.turn {later : ℚ} {next : RateLimiter} {paid : Option ℚ}
    (h : l.Within rate now times) (ht : l.Turn now later next paid) :
    next.Within rate later (times ++ paid.toList) := by
  cases ht with
  | untouched hle =>
    simpa using h.tick hle
  | looked hseen hlater =>
    simpa using (h.tick hseen).refill.tick hlater
  | spent hseen hat hlater hlevel =>
    have hlooked := h.tick hseen
    have hthere := hlevel.trans (hlooked.level_refill hat)
    exact ((hlooked.refill.tick hat).consume hthere).tick hlater

theorem Within.window (h : l.Within rate now times) {s t : ℚ} (hst : s ≤ t) :
    (TokenBucket.countIn times s t : ℚ) ≤
      max (1 : ℚ) (⌈rate / 10⌉ : ℤ) + rate * (t - s) / 60000 := by
  have hw := h.paced.window s t hst
  have hcap : l.bucket.capacity = max (1 : ℚ) (⌈rate / 10⌉ : ℤ) := h.capacity
  have hrate : l.bucket.rate = rate / 60000 := by simp [bucket, h.perMinute]
  rw [hcap, hrate] at hw
  calc (TokenBucket.countIn times s t : ℚ)
      ≤ max (1 : ℚ) (⌈rate / 10⌉ : ℤ) + (t - s) * (rate / 60000) := hw
    _ = max (1 : ℚ) (⌈rate / 10⌉ : ℤ) + rate * (t - s) / 60000 := by ring

theorem Within.tokens_nonneg (h : l.Within rate now times) : 0 ≤ l.tokens :=
  h.paced.sound.tokens_nonneg

end RateLimiter

def Activity.isAdmitted : Activity → Bool
  | .admitted _ _ => true
  | _ => false

namespace Webhooks

variable {σ : Type} {E : EventStore σ} {o : WebhookOptions}

def admitted (s : Webhooks σ) (q : Nat → Bool) : Nat :=
  s.pumps.countP (fun p => p.activity.isAdmitted && q p.sub)

def sentTo (s : Webhooks σ) (host : String) : List ℚ :=
  (s.attempts.filter (fun a => a.host == host)).map Attempt.at_

def sentBy (s : Webhooks σ) (i : Nat) : List ℚ :=
  (s.attempts.filter (fun a => a.sub == i)).map Attempt.at_

def paidTo (s : Webhooks σ) (host : String) : List ℚ :=
  (s.payments.filter (fun p => p.host == host)).map Payment.hostAt

def paidBy (s : Webhooks σ) (i : Nat) : List ℚ :=
  (s.payments.filter (fun p => p.sub == i)).map Payment.ownAt

def hostOf (s : Webhooks σ) (i : Nat) : Option String := s.subs[i]?.map Subscription.host

def sentFor (s : Webhooks σ) (q : Nat → Bool) (m : ℚ) : Nat :=
  s.attempts.countP (fun a => q a.sub && decide (a.at_ ≤ m))

def paidFor (s : Webhooks σ) (q : Nat → Bool) (m : ℚ) : Nat :=
  s.payments.countP (fun p => q p.sub && decide (p.hostAt ≤ m))

/-- Everything sent was paid for from both buckets. -/
structure Metered (o : WebhookOptions) (s : Webhooks σ) : Prop where
  sent : ∀ a ∈ s.attempts, s.hostOf a.sub = some a.host
  paid : ∀ p ∈ s.payments, s.hostOf p.sub = some p.host
  unused : ∀ h, s.hostLimiters h = none → s.paidTo h = []
  host : ∀ h l, s.hostLimiters h = some l →
    l.Within o.maxDeliveriesPerMinutePerHost s.clock (s.paidTo h)
  own : ∀ (i : Nat) (sub : Subscription), s.subs[i]? = some sub →
    sub.limiter.Within o.maxDeliveriesPerMinute s.clock (s.paidBy i)
  covered : ∀ q m, s.sentFor q m ≤ s.paidFor q m
  owed : ∀ q m, s.clock ≤ m → s.sentFor q m + s.admitted q ≤ s.paidFor q m

theorem metered_initial {s : Webhooks σ} (h : Initial s) : Metered o s := by
  obtain ⟨_, hsubs, hhosts, hpumps, _, hpayments, hattempts, _⟩ := h
  refine ⟨by simp [hattempts], by simp [hpayments], ?_, by simp [hhosts], by simp [hsubs], ?_, ?_⟩
  · intro host _
    simp [paidTo, hpayments]
  · intro q m
    simp [sentFor, hattempts]
  · intro q m _
    simp [sentFor, admitted, hattempts, hpumps]

/-- A step in which nothing is sent and no bucket touched. -/
structure Quiet (s t : Webhooks σ) : Prop where
  clock : t.clock = s.clock
  hosts : t.hostLimiters = s.hostLimiters
  payments : t.payments = s.payments
  attempts : t.attempts = s.attempts
  subs : t.subs.map (fun sub => (sub.host, sub.limiter)) =
    s.subs.map (fun sub => (sub.host, sub.limiter))
  admitted : ∀ q, t.admitted q = s.admitted q

variable {s t : Webhooks σ}

theorem Quiet.sub (h : Quiet s t) {i : Nat} {sub : Subscription} (ht : t.subs[i]? = some sub) :
    ∃ old, s.subs[i]? = some old ∧ old.limiter = sub.limiter := by
  have hi := congrArg (fun l => l[i]?) h.subs
  simp only [List.getElem?_map, ht, Option.map_some] at hi
  obtain ⟨old, hold, heq⟩ := Option.map_eq_some_iff.mp hi.symm
  simp only [Prod.mk.injEq] at heq
  exact ⟨old, hold, heq.2⟩

theorem hostOf_eq (s : Webhooks σ) (i : Nat) :
    s.hostOf i = ((s.subs.map (fun sub => (sub.host, sub.limiter)))[i]?).map Prod.fst := by
  simp [hostOf, List.getElem?_map, Function.comp_def]

theorem Quiet.hostOf (h : Quiet s t) (i : Nat) : t.hostOf i = s.hostOf i := by
  rw [hostOf_eq, hostOf_eq, h.subs]

theorem paidTo_congr (h : t.payments = s.payments) (host : String) :
    t.paidTo host = s.paidTo host := by
  rw [paidTo, h, paidTo]

theorem paidBy_congr (h : t.payments = s.payments) (i : Nat) : t.paidBy i = s.paidBy i := by
  rw [paidBy, h, paidBy]

theorem paidFor_congr (h : t.payments = s.payments) (q : Nat → Bool) (m : ℚ) :
    t.paidFor q m = s.paidFor q m := by
  rw [paidFor, h, paidFor]

/-- No token of a host is spent where time, limiters and payments stand still. -/
theorem Metered.hosts_same (hm : Metered o s) (hclock : t.clock = s.clock)
    (hhosts : t.hostLimiters = s.hostLimiters) (hpayments : t.payments = s.payments) :
    (∀ host, t.hostLimiters host = none → t.paidTo host = []) ∧
      ∀ host l, t.hostLimiters host = some l →
        l.Within o.maxDeliveriesPerMinutePerHost t.clock (t.paidTo host) := by
  refine ⟨?_, ?_⟩
  · intro host hnone
    rw [paidTo_congr hpayments]
    exact hm.unused host (hhosts ▸ hnone)
  · intro host l hl
    rw [paidTo_congr hpayments, hclock]
    exact hm.host host l (hhosts ▸ hl)

theorem Metered.quiet (hm : Metered o s) (h : Quiet s t) : Metered o t := by
  obtain ⟨hunused, hhost⟩ := hm.hosts_same h.clock h.hosts h.payments
  refine ⟨?_, ?_, hunused, hhost, ?_, ?_, ?_⟩
  · intro a ha
    rw [h.hostOf]
    exact hm.sent a (h.attempts ▸ ha)
  · intro p hp
    rw [h.hostOf]
    exact hm.paid p (h.payments ▸ hp)
  · intro i sub hsub
    obtain ⟨old, hold, hlim⟩ := h.sub hsub
    rw [paidBy_congr h.payments, h.clock, ← hlim]
    exact hm.own i old hold
  · intro q m
    rw [sentFor, h.attempts, paidFor_congr h.payments]
    exact hm.covered q m
  · intro q m hle
    rw [sentFor, h.attempts, paidFor_congr h.payments, h.admitted]
    exact hm.owed q m (h.clock ▸ hle)

/-! ### The quiet steps -/

theorem perm_at {l : List Pump} {k : Nat} {x : Pump} (hk : l[k]? = some x) :
    l.Perm (x :: l.eraseIdx k) := by
  obtain ⟨hlt, hget⟩ := List.getElem?_eq_some_iff.mp hk
  rw [← hget]
  exact (List.getElem_cons_eraseIdx_perm hlt).symm

theorem perm_set {l : List Pump} {k : Nat} {x : Pump} (hk : l[k]? = some x) (y : Pump) :
    (l.set k y).Perm (y :: l.eraseIdx k) := by
  obtain ⟨hlt, _⟩ := List.getElem?_eq_some_iff.mp hk
  exact List.set_perm_cons_eraseIdx hlt y

theorem admitted_set {k i : Nat} {a b : Activity} (hk : s.pumps[k]? = some ⟨i, a⟩)
    (hpumps : t.pumps = s.pumps.set k ⟨i, b⟩) (q : Nat → Bool) :
    t.admitted q + (a.isAdmitted && q i).toNat = s.admitted q + (b.isAdmitted && q i).toNat := by
  simp only [admitted, hpumps]
  rw [(perm_set hk ⟨i, b⟩).countP_eq, (perm_at hk).countP_eq, List.countP_cons, List.countP_cons]
  cases a.isAdmitted && q i <;> cases b.isAdmitted && q i <;> simp

theorem quiet_setActivity {k i : Nat} {a b : Activity} (hk : s.pumps[k]? = some ⟨i, a⟩)
    (ha : a.isAdmitted = b.isAdmitted) : Quiet s (s.setActivity k i b) := by
  refine ⟨rfl, rfl, rfl, rfl, rfl, ?_⟩
  intro q
  have hset := admitted_set (t := s.setActivity k i b) hk rfl q
  rw [ha] at hset
  omega

theorem quiet_updateSub {f : Subscription → Subscription} (i : Nat)
    (hf : ∀ sub, (f sub).host = sub.host ∧ (f sub).limiter = sub.limiter) :
    Quiet s (s.updateSub i f) := by
  refine ⟨rfl, rfl, rfl, rfl, ?_, fun _ => rfl⟩
  refine List.ext_getElem? ?_
  intro j
  simp only [updateSub, List.getElem?_map, List.getElem?_modify]
  cases s.subs[j]? with
  | none => rfl
  | some sub =>
    simp only [Option.map_eq_map, Option.map_some]
    split
    · rw [(hf sub).1, (hf sub).2]
    · rfl

theorem Quiet.trans {u : Webhooks σ} (h : Quiet s t) (h' : Quiet t u) : Quiet s u :=
  ⟨h'.clock.trans h.clock, h'.hosts.trans h.hosts, h'.payments.trans h.payments,
    h'.attempts.trans h.attempts, h'.subs.trans h.subs,
    fun q => (h'.admitted q).trans (h.admitted q)⟩

theorem quiet_finish {k i : Nat} {a : Activity} (hk : s.pumps[k]? = some ⟨i, a⟩)
    (ha : a.isAdmitted = false) : Quiet s (s.finish k i) := by
  have hsub := quiet_updateSub (s := s) (f := fun sub => { sub with busy := false }) i
    (fun _ => ⟨rfl, rfl⟩)
  refine ⟨rfl, rfl, rfl, rfl, hsub.subs, ?_⟩
  intro q
  simp only [admitted, finish, updateSub]
  rw [(perm_at hk).countP_eq, List.countP_cons]
  simp [ha]

theorem Quiet.of_fields (h : Quiet s t) {u : Webhooks σ} (hclock : u.clock = t.clock)
    (hhosts : u.hostLimiters = t.hostLimiters) (hpayments : u.payments = t.payments)
    (hattempts : u.attempts = t.attempts) (hsubs : u.subs = t.subs) (hpumps : u.pumps = t.pumps) :
    Quiet s u := by
  refine ⟨hclock.trans h.clock, hhosts.trans h.hosts, hpayments.trans h.payments,
    hattempts.trans h.attempts, ?_, ?_⟩
  · rw [hsubs]
    exact h.subs
  · intro q
    simp only [Webhooks.admitted, hpumps]
    exact h.admitted q

theorem Quiet.refl (s : Webhooks σ) : Quiet s s := ⟨rfl, rfl, rfl, rfl, rfl, fun _ => rfl⟩

theorem quiet_updateSub_setActivity {f : Subscription → Subscription} {k i : Nat} {a b : Activity}
    (hk : s.pumps[k]? = some ⟨i, a⟩) (ha : a.isAdmitted = b.isAdmitted)
    (hf : ∀ sub, (f sub).host = sub.host ∧ (f sub).limiter = sub.limiter) :
    Quiet s ((s.updateSub i f).setActivity k i b) :=
  (quiet_updateSub i hf).trans (quiet_setActivity (s := s.updateSub i f) hk ha)

theorem quiet_deadLetter {k i : Nat} {a : Activity} {job : Job}
    (hk : s.pumps[k]? = some ⟨i, a⟩) (ha : a.isAdmitted = false) :
    Quiet s (s.deadLetter o k i job) := by
  have hq := quiet_updateSub_setActivity (b := .returned job) (i := i) (f := fun sub =>
    let letters := sub.deadLetters ++ [⟨i, job.event.id, job.attempts, job.lastError, s.clock⟩]
    { sub with
      deadLettered := sub.deadLettered + 1
      deadLetters := letters.drop (letters.length - o.deadLetterLimit) }) hk
    (by rw [ha]; rfl) (fun _ => ⟨rfl, rfl⟩)
  exact hq.of_fields rfl rfl rfl rfl rfl rfl

theorem quiet_retryOrGiveUp {k i n : Nat} {a : Activity} {job : Job}
    (hk : s.pumps[k]? = some ⟨i, a⟩) (ha : a.isAdmitted = false) :
    Quiet s (s.retryOrGiveUp o k i job n) := by
  simp only [retryOrGiveUp]
  split
  · exact quiet_setActivity hk (by rw [ha]; rfl)
  · exact quiet_deadLetter hk ha

theorem quiet_answer {k i n : Nat} {job : Job} (x : Answer)
    (hk : s.pumps[k]? = some ⟨i, .posting job n⟩) : Quiet s (s.answer o k i job n x) := by
  have hlog : Quiet s { s with replies := s.replies ++ [⟨i, job.event.id, n, x⟩] } :=
    (Quiet.refl s).of_fields rfl rfl rfl rfl rfl rfl
  cases x with
  | error message => exact hlog.trans (quiet_retryOrGiveUp hk rfl)
  | status code =>
    simp only [answer]
    split
    · have hq := quiet_updateSub_setActivity (b := .returned job)
        (f := fun sub => { sub with delivered := sub.delivered + 1 }) hk rfl (fun _ => ⟨rfl, rfl⟩)
      exact hq.of_fields rfl rfl rfl rfl rfl rfl
    · split
      · exact hlog.trans (quiet_retryOrGiveUp hk rfl)
      · exact hlog.trans (quiet_deadLetter hk rfl)

theorem quiet_loop {k i : Nat} {sub : Subscription} {events : List LensEvent} {more : Bool}
    (hk : s.pumps[k]? = some ⟨i, .ready events more⟩) : Quiet s (s.loop o k i sub events more) := by
  cases events with
  | nil =>
    simp only [loop]
    split
    · exact quiet_setActivity hk rfl
    · exact quiet_finish hk rfl
  | cons e rest =>
    simp only [loop]
    split
    · exact quiet_finish hk rfl
    · have hq := quiet_setActivity (b := .attempting ⟨e, rest, more, 0, "unknown error"⟩ 1) hk rfl
      exact hq.of_fields rfl rfl rfl rfl rfl rfl

theorem quiet_retry {k i n : Nat} {sub : Subscription} {job : Job}
    (hk : s.pumps[k]? = some ⟨i, .backingOff job n⟩) : Quiet s (s.retry k i sub job n) := by
  simp only [retry]
  split <;> exact quiet_setActivity hk rfl

theorem quiet_pump {i : Nat} {query : EventQuery} :
    Quiet s { s.updateSub i (fun sub => { sub with busy := true }) with
      pumps := s.pumps ++ [⟨i, .querying query⟩] } := by
  have hq := quiet_updateSub (s := s) (f := fun sub => { sub with busy := true }) i
    (fun _ => ⟨rfl, rfl⟩)
  refine ⟨rfl, rfl, rfl, rfl, hq.subs, ?_⟩
  intro q
  simp [admitted, Activity.isAdmitted]

/-! ### Paying and sending -/

/-- A turn in which one pump looks at both buckets, and pays from both or neither. -/
structure Paying (o : WebhookOptions) (s t : Webhooks σ) (i : Nat) (sub : Subscription)
    (paid : Option Payment) : Prop where
  clock : s.clock ≤ t.clock
  attempts : t.attempts = s.attempts
  payments : t.payments = s.payments ++ paid.toList
  named : ∀ p ∈ paid, p.sub = i ∧ p.host = sub.host ∧ p.hostAt ≤ t.clock
  admitted : ∀ q, t.admitted q = s.admitted q + (paid.isSome && q i).toNat
  own : ∃ l, t.subs = s.subs.modify i (fun sub => { sub with limiter := l }) ∧
    sub.limiter.Turn s.clock t.clock l (paid.map Payment.ownAt)
  host : ∃ l, t.hostLimiters = Function.update s.hostLimiters sub.host (some l) ∧
    (s.hostLimiter o sub.host).Turn s.clock t.clock l (paid.map Payment.hostAt)

theorem Metered.hostLimiter (hm : Metered o s) (h : String) :
    (s.hostLimiter o h).Within o.maxDeliveriesPerMinutePerHost s.clock (s.paidTo h) := by
  cases hl : s.hostLimiters h with
  | none =>
    simp only [Webhooks.hostLimiter, hl, Option.getD_none]
    rw [hm.unused h hl]
    exact RateLimiter.within_new s.clock o.hostRate_nonneg
  | some l =>
    simp only [Webhooks.hostLimiter, hl, Option.getD_some]
    exact hm.host h l hl

section Paying

variable {i : Nat} {sub : Subscription} {paid : Option Payment}

theorem Paying.hostOf (h : Paying o s t i sub paid) (j : Nat) : t.hostOf j = s.hostOf j := by
  obtain ⟨l, hsubs, _⟩ := h.own
  simp only [Webhooks.hostOf, hsubs, List.getElem?_modify]
  cases s.subs[j]? with
  | none => rfl
  | some other =>
    simp only [Option.map_eq_map, Option.map_some]
    split <;> rfl

theorem Paying.paidTo_self (h : Paying o s t i sub paid) :
    t.paidTo sub.host = s.paidTo sub.host ++ (paid.map Payment.hostAt).toList := by
  cases paid with
  | none => simp [Webhooks.paidTo, h.payments]
  | some p =>
    obtain ⟨_, hhost, _⟩ := h.named p rfl
    simp [Webhooks.paidTo, h.payments, hhost]

theorem Paying.paidTo_other (h : Paying o s t i sub paid) {host : String} (hne : host ≠ sub.host) :
    t.paidTo host = s.paidTo host := by
  cases paid with
  | none => simp [Webhooks.paidTo, h.payments]
  | some p =>
    obtain ⟨_, hhost, _⟩ := h.named p rfl
    simp [Webhooks.paidTo, h.payments, hhost, Ne.symm hne]

theorem Paying.paidBy_self (h : Paying o s t i sub paid) :
    t.paidBy i = s.paidBy i ++ (paid.map Payment.ownAt).toList := by
  cases paid with
  | none => simp [Webhooks.paidBy, h.payments]
  | some p =>
    obtain ⟨hi, _⟩ := h.named p rfl
    simp [Webhooks.paidBy, h.payments, hi]

theorem Paying.paidBy_other (h : Paying o s t i sub paid) {j : Nat} (hne : j ≠ i) :
    t.paidBy j = s.paidBy j := by
  cases paid with
  | none => simp [Webhooks.paidBy, h.payments]
  | some p =>
    obtain ⟨hi, _⟩ := h.named p rfl
    simp [Webhooks.paidBy, h.payments, hi, Ne.symm hne]

theorem Paying.paidFor_le (h : Paying o s t i sub paid) (q : Nat → Bool) (m : ℚ) :
    s.paidFor q m ≤ t.paidFor q m := by
  rw [paidFor, paidFor, h.payments, List.countP_append]
  omega

theorem Paying.paidFor_later (h : Paying o s t i sub paid) (q : Nat → Bool) {m : ℚ}
    (hle : t.clock ≤ m) : t.paidFor q m = s.paidFor q m + (paid.isSome && q i).toNat := by
  rw [paidFor, paidFor, h.payments, List.countP_append]
  cases paid with
  | none => rfl
  | some p =>
    obtain ⟨hi, _, hat⟩ := h.named p rfl
    have hin : p.hostAt ≤ m := hat.trans hle
    cases hq : q i <;> simp [hi, hin, hq]

theorem Metered.paying (hm : Metered o s) (hsub : s.subs[i]? = some sub)
    (h : Paying o s t i sub paid) : Metered o t := by
  obtain ⟨own, hsubs, hown⟩ := h.own
  obtain ⟨host, hhosts, hhost⟩ := h.host
  have hclock := h.clock
  refine ⟨?_, ?_, ?_, ?_, ?_, ?_, ?_⟩
  · intro a ha
    rw [h.hostOf]
    exact hm.sent a (h.attempts ▸ ha)
  · intro p hp
    rw [h.hostOf]
    rw [h.payments] at hp
    rcases List.mem_append.mp hp with hold | hnew
    · exact hm.paid p hold
    · obtain ⟨hi, hname, _⟩ := h.named p (Option.mem_toList.mp hnew)
      simp [Webhooks.hostOf, hi, hsub, hname]
  · intro name hnone
    have hne : name ≠ sub.host := by
      intro heq
      rw [hhosts, heq, Function.update_self] at hnone
      exact Option.some_ne_none _ hnone
    rw [hhosts, Function.update_of_ne hne] at hnone
    rw [h.paidTo_other hne, hm.unused name hnone]
  · intro name l hl
    by_cases hname : name = sub.host
    · rw [hhosts, hname, Function.update_self] at hl
      cases hl
      rw [hname, h.paidTo_self]
      exact (hm.hostLimiter sub.host).turn hhost
    · rw [hhosts, Function.update_of_ne hname] at hl
      rw [h.paidTo_other hname]
      exact (hm.host name l hl).tick hclock
  · intro j other hother
    rw [hsubs, List.getElem?_modify] at hother
    obtain ⟨old, hold, heq⟩ := Option.map_eq_some_iff.mp hother
    by_cases hij : i = j
    · subst hij
      rw [hsub] at hold
      cases hold
      rw [if_pos rfl] at heq
      rw [← heq, h.paidBy_self]
      exact (hm.own i sub hsub).turn hown
    · rw [if_neg hij] at heq
      rw [← heq, h.paidBy_other (Ne.symm hij)]
      exact (hm.own j old hold).tick hclock
  · intro q m
    rw [sentFor, h.attempts]
    exact (hm.covered q m).trans (h.paidFor_le q m)
  · intro q m hle
    have howed := hm.owed q m (hclock.trans hle)
    rw [sentFor, h.attempts, h.admitted, h.paidFor_later q hle]
    rw [sentFor] at howed
    omega

end Paying

theorem paying_set {k i : Nat} {a b : Activity} {sub : Subscription} {own host : RateLimiter}
    {paid : Option Payment} (hk : s.pumps[k]? = some ⟨i, a⟩) (ha : a.isAdmitted = false)
    (hb : b.isAdmitted = paid.isSome) (hclock : s.clock ≤ t.clock)
    (hattempts : t.attempts = s.attempts) (hpayments : t.payments = s.payments ++ paid.toList)
    (hnamed : ∀ p ∈ paid, p.sub = i ∧ p.host = sub.host ∧ p.hostAt ≤ t.clock)
    (hpumps : t.pumps = s.pumps.set k ⟨i, b⟩)
    (hsubs : t.subs = s.subs.modify i (fun sub => { sub with limiter := own }))
    (hhosts : t.hostLimiters = Function.update s.hostLimiters sub.host (some host))
    (hown : sub.limiter.Turn s.clock t.clock own (paid.map Payment.ownAt))
    (hhost : (s.hostLimiter o sub.host).Turn s.clock t.clock host (paid.map Payment.hostAt)) :
    Paying o s t i sub paid := by
  refine ⟨hclock, hattempts, hpayments, hnamed, ?_, ⟨own, hsubs, hown⟩, ⟨host, hhosts, hhost⟩⟩
  intro q
  have hset := admitted_set (t := t) hk hpumps q
  simpa [ha, hb] using hset

theorem modify_self {l : List Subscription} {i : Nat} {sub : Subscription} (h : l[i]? = some sub) :
    l.modify i (fun x => { x with limiter := sub.limiter }) = l := by
  refine List.ext_getElem? ?_
  intro j
  rw [List.getElem?_modify]
  by_cases hij : i = j
  · subst hij
    simp [h]
  · simp [hij]

/-- One turn of `throttle`: the subscription is given up, the pump goes to sleep, or
both buckets are paid from. -/
theorem attempt_cases (hm : Metered o s) {k i n : Nat} {sub : Subscription} {job : Job}
    (r : Readings s.clock) (hk : s.pumps[k]? = some ⟨i, .attempting job n⟩)
    (hsub : s.subs[i]? = some sub) :
    Quiet s (s.attempt o k i sub job n r) ∨
      ∃ paid, Paying o s (s.attempt o k i sub job n r) i sub paid := by
  have hrow := r.own_le
  have hrhost := r.host_le
  have hrspend := r.spendOwn_le
  have hrlast := r.spendHost_le
  simp only [attempt]
  split
  · exact .inl (quiet_deadLetter hk rfl)
  · have hown := (hm.own i sub hsub).perMinute
    have hhost := (hm.hostLimiter sub.host).perMinute
    right
    split
    · refine ⟨none, paying_set (b := .returned job) hk rfl rfl (le_refl _) rfl
        (List.append_nil _).symm (by simp) rfl (modify_self hsub).symm rfl
        (.untouched (le_refl _)) (.untouched (le_refl _))⟩
    · split
      · rename_i hwait
        have hlevel := RateLimiter.level_of_waitMs (hown ▸ o.rate_nonneg)
          (hhost ▸ o.hostRate_nonneg) hwait
        have hlate : s.clock ≤ r.spendHost :=
          hrow.trans (hrhost.trans (hrspend.trans hrlast))
        have hspentOwn : sub.limiter.Turn s.clock r.spendHost
            ((sub.limiter.waitMs r.own).2.consume r.spendOwn) (some r.spendOwn) := by
          rw [RateLimiter.waitMs_snd]
          exact .spent hrow (hrhost.trans hrspend) hrlast hlevel.1
        have hspentHost : (s.hostLimiter o sub.host).Turn s.clock r.spendHost
            (((s.hostLimiter o sub.host).waitMs r.host).2.consume r.spendHost)
            (some r.spendHost) := by
          rw [RateLimiter.waitMs_snd]
          exact .spent (hrow.trans hrhost) (hrspend.trans hrlast) (le_refl _) hlevel.2
        refine ⟨some ⟨i, sub.host, r.spendOwn, r.spendHost, r.spendHost_le⟩,
          paying_set (b := .admitted job n) hk rfl rfl hlate rfl rfl ?_ rfl rfl
          (Function.update_idem _ _ _) hspentOwn hspentHost⟩
        intro p hp
        cases hp
        exact ⟨rfl, rfl, le_refl _⟩
      · have hlookedOwn : sub.limiter.Turn s.clock r.host (sub.limiter.waitMs r.own).2 none := by
          rw [RateLimiter.waitMs_snd]
          exact .looked hrow hrhost
        have hlookedHost : (s.hostLimiter o sub.host).Turn s.clock r.host
            ((s.hostLimiter o sub.host).waitMs r.host).2 none := by
          rw [RateLimiter.waitMs_snd]
          exact .looked (hrow.trans hrhost) (le_refl _)
        exact ⟨none, paying_set (b := .throttled job n) hk rfl rfl (hrow.trans hrhost) rfl
          (List.append_nil _).symm (by simp) rfl rfl (Function.update_idem _ _ _) hlookedOwn
          hlookedHost⟩

/-- A turn that spends nothing: what was paid for is sent, or given up. -/
structure Sending (s t : Webhooks σ) (i : Nat) (sent : Option Attempt) : Prop where
  clock : t.clock = s.clock
  hosts : t.hostLimiters = s.hostLimiters
  subs : t.subs = s.subs
  payments : t.payments = s.payments
  attempts : t.attempts = s.attempts ++ sent.toList
  named : ∀ a ∈ sent, a.sub = i ∧ s.hostOf i = some a.host ∧ a.at_ = s.clock
  admitted : ∀ q, t.admitted q + (q i).toNat = s.admitted q

section Sending

variable {i : Nat} {sent : Option Attempt}

theorem Sending.sentFor_le (h : Sending s t i sent) (q : Nat → Bool) (m : ℚ) :
    t.sentFor q m ≤ s.sentFor q m + (q i).toNat := by
  rw [sentFor, sentFor, h.attempts, List.countP_append]
  cases sent with
  | none => simp
  | some a =>
    obtain ⟨hi, _⟩ := h.named a rfl
    cases hq : q i <;> simp [hi, hq]
    split <;> omega

theorem Sending.sentFor_earlier (h : Sending s t i sent) (q : Nat → Bool) {m : ℚ}
    (hlt : m < s.clock) : t.sentFor q m = s.sentFor q m := by
  rw [sentFor, sentFor, h.attempts, List.countP_append]
  cases sent with
  | none => rfl
  | some a =>
    obtain ⟨_, _, hat⟩ := h.named a rfl
    simp [hat, not_le.mpr hlt]

theorem Metered.sending (hm : Metered o s) (h : Sending s t i sent) : Metered o t := by
  obtain ⟨hunused, hhost⟩ := hm.hosts_same h.clock h.hosts h.payments
  have hsame : ∀ j, t.hostOf j = s.hostOf j := fun j => by rw [hostOf, h.subs, hostOf]
  have howed : ∀ q m, s.clock ≤ m → t.sentFor q m + t.admitted q ≤ t.paidFor q m := by
    intro q m hle
    have hold := hm.owed q m hle
    have hsent := h.sentFor_le q m
    have hadmitted := h.admitted q
    rw [paidFor_congr h.payments]
    omega
  refine ⟨?_, ?_, hunused, hhost, ?_, ?_, ?_⟩
  · intro a ha
    rw [hsame]
    rw [h.attempts] at ha
    rcases List.mem_append.mp ha with hold | hnew
    · exact hm.sent a hold
    · obtain ⟨hi, hknown, _⟩ := h.named a (Option.mem_toList.mp hnew)
      rw [hi, hknown]
  · intro p hp
    rw [hsame]
    exact hm.paid p (h.payments ▸ hp)
  · intro j sub hsub
    rw [paidBy_congr h.payments, h.clock]
    exact hm.own j sub (h.subs ▸ hsub)
  · intro q m
    rcases lt_or_ge m s.clock with hlt | hge
    · rw [h.sentFor_earlier q hlt, paidFor_congr h.payments]
      exact hm.covered q m
    · have hlate := howed q m hge
      omega
  · intro q m hle
    exact howed q m (h.clock ▸ hle)

end Sending

theorem sending_post {k i n : Nat} {sub : Subscription} {job : Job}
    (hk : s.pumps[k]? = some ⟨i, .admitted job n⟩) (hsub : s.subs[i]? = some sub) :
    ∃ sent, Sending s (s.post k i sub job n) i sent := by
  simp only [post]
  split
  · refine ⟨none, rfl, rfl, rfl, rfl, (List.append_nil _).symm, by simp, ?_⟩
    intro q
    have hset := admitted_set (t := s.setActivity k i (.returned job)) hk rfl q
    simpa [Activity.isAdmitted] using hset
  · refine ⟨some ⟨i, sub.host, job.event.id, n, s.clock⟩, rfl, rfl, rfl, rfl, rfl, ?_, ?_⟩
    · intro a ha
      cases ha
      exact ⟨rfl, by simp [hostOf, hsub], rfl⟩
    · intro q
      have hset := admitted_set (b := .posting { job with attempts := n } n)
        (t := { s.setActivity k i (.posting { job with attempts := n } n) with
          attempts := s.attempts ++ [⟨i, sub.host, job.event.id, n, s.clock⟩] }) hk rfl q
      simpa [Activity.isAdmitted] using hset

theorem Metered.tick (hm : Metered o s) {later : ℚ} (hlater : s.clock ≤ later) :
    Metered o { s with clock := later } := by
  refine ⟨hm.sent, hm.paid, hm.unused, ?_, ?_, hm.covered, ?_⟩
  · intro host l hl
    exact (hm.host host l hl).tick hlater
  · intro i sub hsub
    exact (hm.own i sub hsub).tick hlater
  · intro q m hle
    exact hm.owed q m (hlater.trans hle)

structure Joined (o : WebhookOptions) (s t : Webhooks σ) (sub : Subscription) : Prop where
  clock : t.clock = s.clock
  hosts : t.hostLimiters = s.hostLimiters
  payments : t.payments = s.payments
  attempts : t.attempts = s.attempts
  pumps : t.pumps = s.pumps
  subs : t.subs = s.subs ++ [sub]
  fresh : sub.limiter = .new o.maxDeliveriesPerMinute s.clock

theorem Joined.hostOf {sub : Subscription} (h : Joined o s t sub) {i : Nat} {host : String}
    (hold : s.hostOf i = some host) : t.hostOf i = some host := by
  obtain ⟨own, hown, hname⟩ := Option.map_eq_some_iff.mp hold
  have hlt := (List.getElem?_eq_some_iff.mp hown).1
  rw [Webhooks.hostOf, h.subs, List.getElem?_append_left hlt, hown, Option.map_some, hname]

theorem Metered.unpaid (hm : Metered o s) {i : Nat} (hi : s.subs.length ≤ i) : s.paidBy i = [] := by
  simp only [paidBy, List.map_eq_nil_iff, List.filter_eq_nil_iff, beq_iff_eq]
  intro p hp heq
  have hknown := hm.paid p hp
  rw [heq, hostOf, List.getElem?_eq_none hi] at hknown
  cases hknown

theorem Metered.joined {sub : Subscription} (hm : Metered o s) (h : Joined o s t sub) :
    Metered o t := by
  obtain ⟨hunused, hhost⟩ := hm.hosts_same h.clock h.hosts h.payments
  refine ⟨?_, ?_, hunused, hhost, ?_, ?_, ?_⟩
  · intro a ha
    exact h.hostOf (hm.sent a (h.attempts ▸ ha))
  · intro p hp
    exact h.hostOf (hm.paid p (h.payments ▸ hp))
  · intro i other hother
    rw [paidBy_congr h.payments, h.clock]
    rw [h.subs] at hother
    rcases Nat.lt_or_ge i s.subs.length with hlt | hge
    · rw [List.getElem?_append_left hlt] at hother
      exact hm.own i other hother
    · have heq : other = sub := by
        rw [List.getElem?_append_right hge] at hother
        obtain ⟨_, hget⟩ := List.getElem?_eq_some_iff.mp hother
        simpa using hget.symm
      rw [hm.unpaid hge, heq, h.fresh]
      exact RateLimiter.within_new s.clock o.rate_nonneg
  · intro q m
    rw [sentFor, h.attempts, paidFor_congr h.payments]
    exact hm.covered q m
  · intro q m hle
    rw [sentFor, admitted, h.attempts, paidFor_congr h.payments, h.pumps]
    exact hm.owed q m (h.clock ▸ hle)

inductive Spending (o : WebhookOptions) (s t : Webhooks σ) : Prop where
  | quiet : Quiet s t → Spending o s t
  | tick (later : ℚ) : s.clock ≤ later → t = { s with clock := later } → Spending o s t
  | joined (sub : Subscription) : Joined o s t sub → Spending o s t
  | paying (i : Nat) (sub : Subscription) (paid : Option Payment) : s.subs[i]? = some sub →
      Paying o s t i sub paid → Spending o s t
  | sending (i : Nat) (sent : Option Attempt) : Sending s t i sent → Spending o s t

theorem Step.spending (hm : Metered o s) (h : Step E o s t) : Spending o s t := by
  cases h with
  | insert _ => exact .quiet ((Quiet.refl s).of_fields rfl rfl rfl rfl rfl rfl)
  | prune _ => exact .quiet ((Quiet.refl s).of_fields rfl rfl rfl rfl rfl rfl)
  | tick hlater => exact .tick _ hlater rfl
  | register _ _ _ => exact .quiet ((Quiet.refl s).of_fields rfl rfl rfl rfl rfl rfl)
  | registered _ => exact .joined _ ⟨rfl, rfl, rfl, rfl, rfl, rfl, rfl⟩
  | pump _ _ _ => exact .quiet quiet_pump
  | page hk _ => exact .quiet (quiet_setActivity hk rfl)
  | queryFailed hk => exact .quiet (quiet_finish hk rfl)
  | loop hk _ => exact .quiet (quiet_loop hk)
  | attempt r hk hsub =>
    rcases attempt_cases hm r hk hsub with hquiet | ⟨paid, hpaying⟩
    · exact .quiet hquiet
    · exact .paying _ _ paid hsub hpaying
  | wake hk => exact .quiet (quiet_setActivity hk rfl)
  | post hk hsub =>
    obtain ⟨sent, hsending⟩ := sending_post hk hsub
    exact .sending _ sent hsending
  | answer x hk => exact .quiet (quiet_answer x hk)
  | retry hk _ => exact .quiet (quiet_retry hk)
  | resume hk =>
    exact .quiet (quiet_updateSub_setActivity hk rfl (fun _ => ⟨rfl, rfl⟩))
  | remove _ _ => exact .quiet (quiet_updateSub _ (fun _ => ⟨rfl, rfl⟩))
  | stop => exact .quiet ((Quiet.refl s).of_fields rfl rfl rfl rfl rfl rfl)

theorem Metered.step (hm : Metered o s) (h : Step E o s t) : Metered o t := by
  cases h.spending hm with
  | quiet hquiet => exact hm.quiet hquiet
  | tick later hlater heq =>
    rw [heq]
    exact hm.tick hlater
  | joined sub hjoined => exact hm.joined hjoined
  | paying i sub paid hsub hpaying => exact hm.paying hsub hpaying
  | sending i sent hsending => exact hm.sending hsending

theorem Metered.of_reachable (h : Reachable Initial (Step E o) s) : Metered o s := by
  refine Reachable.invariant ?_ ?_ h
  · intro s hinit
    exact metered_initial hinit
  · intro s t hm hstep
    exact hm.step hstep

def PaidFromBoth (o : WebhookOptions) (s t : Webhooks σ) : Prop :=
  t.payments = s.payments ∨
    ∃ i sub p, s.subs[i]? = some sub ∧ Paying o s t i sub (some p)

theorem paidFromBoth_step (hm : Metered o s) (h : Step E o s t) : PaidFromBoth o s t := by
  cases h.spending hm with
  | quiet hquiet => exact .inl hquiet.payments
  | tick later _ heq => exact .inl (heq ▸ rfl)
  | joined sub hjoined => exact .inl hjoined.payments
  | sending i sent hsending => exact .inl hsending.payments
  | paying i sub paid hsub hpaying =>
    cases paid with
    | some p => exact .inr ⟨i, sub, p, hsub, hpaying⟩
    | none => exact .inl (hpaying.payments.trans (List.append_nil _))

/-! ### The ceiling -/

/-- The bound on what is paid for in a window, and on what is sent in it: that much,
and what was paid for before the window and not yet sent. -/
structure Ceiling (rate : ℚ) (paid sent : List ℚ) : Prop where
  spent : ∀ t₀ t₁ : ℚ, t₀ ≤ t₁ → (TokenBucket.countIn paid t₀ t₁ : ℚ) ≤
    max (1 : ℚ) (⌈rate / 10⌉ : ℤ) + rate * (t₁ - t₀) / 60000
  follows : TokenBucket.Follows sent paid
  requests : ∀ t₀ t₁ : ℚ, t₀ ≤ t₁ →
    (TokenBucket.before sent t₀ : ℚ) + TokenBucket.countIn sent t₀ t₁ ≤
      TokenBucket.before paid t₀ +
        (max (1 : ℚ) (⌈rate / 10⌉ : ℤ) + rate * (t₁ - t₀) / 60000)

theorem ceiling_of_within {l : RateLimiter} {rate now : ℚ} {paid sent : List ℚ}
    (h : l.Within rate now paid) (hfollows : TokenBucket.Follows sent paid) :
    Ceiling rate paid sent := by
  refine ⟨fun _ _ hle => h.window hle, hfollows, ?_⟩
  intro t₀ t₁ hle
  have hcount : (TokenBucket.before sent t₀ : ℚ) + TokenBucket.countIn sent t₀ t₁ ≤
      TokenBucket.before paid t₀ + TokenBucket.countIn paid t₀ t₁ := by
    exact_mod_cast hfollows.countIn hle
  have hwindow := h.window hle
  linarith

theorem Metered.sentTo_follows (hm : Metered o s) (host : String) :
    TokenBucket.Follows (s.sentTo host) (s.paidTo host) := by
  intro m
  have hsent : TokenBucket.upTo (s.sentTo host) m = s.sentFor (fun i => s.hostOf i == some host) m := by
    rw [TokenBucket.upTo, sentTo, List.countP_map, List.countP_filter]
    refine List.countP_congr ?_
    intro a ha
    simp [hm.sent a ha, and_comm]
  have hpaid : TokenBucket.upTo (s.paidTo host) m = s.paidFor (fun i => s.hostOf i == some host) m := by
    rw [TokenBucket.upTo, paidTo, List.countP_map, List.countP_filter]
    refine List.countP_congr ?_
    intro p hp
    simp [hm.paid p hp, and_comm]
  rw [hsent, hpaid]
  exact hm.covered _ m

theorem Metered.sentBy_follows (hm : Metered o s) (i : Nat) :
    TokenBucket.Follows (s.sentBy i) (s.paidBy i) := by
  intro m
  have hsent : TokenBucket.upTo (s.sentBy i) m = s.sentFor (· == i) m := by
    rw [TokenBucket.upTo, sentBy, List.countP_map, List.countP_filter]
    refine List.countP_congr ?_
    intro a _
    simp [and_comm]
  have hpaid : s.paidFor (· == i) m ≤ TokenBucket.upTo (s.paidBy i) m := by
    rw [TokenBucket.upTo, paidBy, List.countP_map, List.countP_filter]
    refine List.countP_mono_left ?_
    intro p _ hp
    simp only [Bool.and_eq_true, beq_iff_eq, decide_eq_true_eq, Function.comp_apply] at hp ⊢
    exact ⟨p.ownAt_le.trans hp.2, hp.1⟩
  rw [hsent]
  exact (hm.covered _ m).trans hpaid

/-- The ceiling on one host and on one subscription, in any window of time. -/
theorem flood_ceiling (h : Reachable Initial (Step E o) s) :
    (∀ host, Ceiling o.maxDeliveriesPerMinutePerHost (s.paidTo host) (s.sentTo host)) ∧
    (∀ i, Ceiling o.maxDeliveriesPerMinute (s.paidBy i) (s.sentBy i)) ∧
    (∀ host l, s.hostLimiters host = some l → 0 ≤ l.tokens) ∧
    (∀ sub ∈ s.subs, 0 ≤ sub.limiter.tokens) ∧
    ∀ t, Step E o s t → PaidFromBoth o s t := by
  have hm := Metered.of_reachable h
  refine ⟨?_, ?_, ?_, ?_, ?_⟩
  · intro host
    exact ceiling_of_within (hm.hostLimiter host) (hm.sentTo_follows host)
  · intro i
    have hfollows := hm.sentBy_follows i
    cases hsub : s.subs[i]? with
    | some sub => exact ceiling_of_within (hm.own i sub hsub) hfollows
    | none =>
      have hnone := hm.unpaid (List.getElem?_eq_none_iff.mp hsub)
      rw [hnone] at hfollows ⊢
      exact ceiling_of_within (RateLimiter.within_new s.clock o.rate_nonneg) hfollows
  · intro host l hl
    exact (hm.host host l hl).tokens_nonneg
  · intro sub hsub
    obtain ⟨i, hi⟩ := List.getElem?_of_mem hsub
    exact (hm.own i sub hi).tokens_nonneg
  · intro t hstep
    exact paidFromBoth_step hm hstep

def slow : WebhookOptions := { maxDeliveriesPerMinute := 10 }

/-- A token is spent at 0 and its request sent at 1; the event is sent again at 6000,
as soon as the bucket has refilled. -/
theorem slow_run : ∃ t : Webhooks Db, Reachable Initial (Step (sqliteStore plainReader) slow) t ∧
    t.sentBy 0 = [1, 6000] := by
  obtain ⟨s, hs, hstore, hpumps, hsub, hlive, hclock, hhost, hattempts, _⟩ :=
    plain_stored (o := slow) (by decide) (by decide)
  obtain ⟨page, hq, hpage⟩ := plain_page (o := slow) rfl
  obtain ⟨_, ht⟩ := alone_pump (E := sqliteStore plainReader) hpumps hsub rfl hlive rfl
  obtain ⟨more, _, ht⟩ := ht.page (hstore ▸ hq)
  rw [hpage, hclock, hattempts] at ht
  obtain ⟨_, ht⟩ := ht.hand
  have hnew : (s.hostLimiters "h").getD (.new 120 0) = .new 120 0 := by
    rw [hhost]
    rfl
  have hfull : JsNumber.max ((RateLimiter.new 10 0).waitMs 0).1
      ((RateLimiter.new 120 0).waitMs 0).1 = .fin 0 := by
    rw [waitMs_new, waitMs_new]
    rfl
  obtain ⟨_, ht⟩ := ht.grant (by decide) rfl hnew hfull
  obtain ⟨_, ht⟩ := ht.tick (show (0 : ℚ) ≤ 1 by norm_num)
  obtain ⟨_, ht⟩ := ht.send
  obtain ⟨_, ht⟩ := ht.backOff 500 (by decide) (by decide) (by decide)
  obtain ⟨_, ht⟩ := ht.retry
  obtain ⟨_, ht⟩ := ht.tick (show (1 : ℚ) ≤ 6000 by norm_num)
  have hspent : (Function.update s.hostLimiters "h"
      (some (((RateLimiter.new 120 0).waitMs 0).2.consume 0)) "h").getD (.new 120 6000) =
        ((RateLimiter.new 120 0).waitMs 0).2.consume 0 := by
    rw [Function.update_self]
    rfl
  have hrefilled : JsNumber.max ((((RateLimiter.new 10 0).waitMs 0).2.consume 0).waitMs 6000).1
      ((((RateLimiter.new 120 0).waitMs 0).2.consume 0).waitMs 6000).1 = .fin 0 := by
    decide +kernel
  obtain ⟨_, ht⟩ := ht.grant (by decide) rfl hspent hrefilled
  obtain ⟨t, ht⟩ := ht.send
  have hnamed : "" ∉ (sqliteStore plainReader).stored s.store := by
    rw [hstore]
    decide
  refine ⟨t, (named_of_run hs hnamed ht.run).mono (fun _ _ hst => hst.1), ?_⟩
  rw [sentBy, ht.attempts]
  rfl

theorem flood_ceiling_slow : ∃ s : Webhooks Db, s.sentBy 0 = [1, 6000] ∧
    Ceiling 10 (s.paidBy 0) (s.sentBy 0) := by
  obtain ⟨s, hs, hsent⟩ := slow_run
  exact ⟨s, hsent, (flood_ceiling hs).2.1 0⟩

theorem sent_past_ceiling : ¬ ∀ s : Webhooks Db,
    Reachable Initial (Step (sqliteStore plainReader) slow) s → ∀ i, ∀ t₀ t₁ : ℚ, t₀ ≤ t₁ →
      (TokenBucket.countIn (s.sentBy i) t₀ t₁ : ℚ) ≤
        max (1 : ℚ) (⌈slow.maxDeliveriesPerMinute / 10⌉ : ℤ) +
          slow.maxDeliveriesPerMinute * (t₁ - t₀) / 60000 := by
  intro hclaim
  obtain ⟨s, hs, hsent⟩ := slow_run
  have hbound := hclaim s hs 0 1 6000 (by norm_num)
  have htwo : TokenBucket.countIn (s.sentBy 0) 1 6000 = 2 := by
    rw [hsent]
    decide +kernel
  rw [htwo] at hbound
  have hrate : slow.maxDeliveriesPerMinute = 10 := rfl
  rw [hrate] at hbound
  norm_num at hbound

end Webhooks

end SorobanLens
