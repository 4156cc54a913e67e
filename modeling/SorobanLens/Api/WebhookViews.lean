import SorobanLens.Api.Webhooks

/-!
One subscription's part of the dispatcher: its record, where its pump stands and
what was done on its behalf. A subscription has one pump at most, so a step of the
whole is one move of a single part, and what holds of every part is proved move by
move.
-/

set_option autoImplicit false

namespace SorobanLens

def Answer.success : Answer → Bool
  | .status code => decide (200 ≤ code ∧ code < 300)
  | .error _ => false

def Answer.worthRetry : Answer → Bool
  | .status code => Webhooks.retryable code
  | .error _ => true

def Subscription.HasPassed (sub : Subscription) (id : String) : Prop :=
  ∃ c, sub.cursor = some c ∧ id ≤ c

namespace Webhooks

/-! ### Pumps by subscription -/

def activityIn (pumps : List Pump) (i : Nat) : Option Activity :=
  (pumps.find? (fun p => p.sub == i)).map Pump.activity

def OnePump (pumps : List Pump) : Prop := (pumps.map Pump.sub).Nodup

theorem activityIn_cons (p : Pump) (pumps : List Pump) (i : Nat) :
    activityIn (p :: pumps) i = if p.sub = i then some p.activity else activityIn pumps i := by
  unfold activityIn
  by_cases h : p.sub = i
  · simp [h]
  · have hne : (p.sub == i) = false := by simp [h]
    simp [hne, h]

theorem activityIn_eq_none {pumps : List Pump} {i : Nat} :
    activityIn pumps i = none ↔ ∀ p ∈ pumps, p.sub ≠ i := by
  simp [activityIn]

theorem activityIn_eq_some {pumps : List Pump} (h : OnePump pumps) {i : Nat} {a : Activity} :
    activityIn pumps i = some a ↔ ⟨i, a⟩ ∈ pumps := by
  induction pumps with
  | nil => simp [activityIn]
  | cons p ps ih =>
    obtain ⟨hnew, hrest⟩ := List.nodup_cons.mp h
    rw [activityIn_cons, List.mem_cons]
    split
    · rename_i heq
      constructor
      · intro ha
        cases ha
        left
        cases p
        simp_all
      · intro hmem
        rcases hmem with hp | hp
        · rw [← hp]
        · exact absurd (List.mem_map.mpr ⟨(⟨i, a⟩ : Pump), hp, rfl⟩) (heq ▸ hnew)
    · rename_i hne
      rw [ih hrest]
      constructor
      · exact .inr
      · intro hmem
        rcases hmem with hp | hp
        · exact absurd (congrArg Pump.sub hp).symm hne
        · exact hp

section Pumps

variable {pumps : List Pump} {k i : Nat} {a b : Activity}

theorem activityIn_at (h : OnePump pumps) (hk : pumps[k]? = some ⟨i, a⟩) :
    activityIn pumps i = some a :=
  (activityIn_eq_some h).mpr (List.mem_of_getElem? hk)

theorem subs_set (hk : pumps[k]? = some ⟨i, a⟩) (b : Activity) :
    (pumps.set k ⟨i, b⟩).map Pump.sub = pumps.map Pump.sub := by
  rw [List.map_set]
  refine List.ext_getElem? ?_
  intro j
  rw [List.getElem?_set]
  split
  · rename_i hkj
    subst hkj
    simp only [List.getElem?_map, hk, Option.map_some, List.length_map]
    rw [if_pos (List.getElem?_eq_some_iff.mp hk).1]
  · rfl

theorem OnePump.set (h : OnePump pumps) (hk : pumps[k]? = some ⟨i, a⟩) (b : Activity) :
    OnePump (pumps.set k ⟨i, b⟩) := by
  rw [OnePump, subs_set hk]
  exact h

theorem OnePump.erase (h : OnePump pumps) (k : Nat) : OnePump (pumps.eraseIdx k) :=
  List.Nodup.sublist ((List.eraseIdx_sublist pumps k).map Pump.sub) h

theorem OnePump.append (h : OnePump pumps) (hnone : activityIn pumps i = none) (a : Activity) :
    OnePump (pumps ++ [⟨i, a⟩]) := by
  rw [OnePump, List.map_append, List.nodup_append]
  refine ⟨h, by simp, ?_⟩
  intro j hj l hl heq
  obtain ⟨p, hp, rfl⟩ := List.mem_map.mp hj
  simp only [List.map_cons, List.map_nil, List.mem_singleton] at hl
  exact activityIn_eq_none.mp hnone p hp (heq.trans hl)

theorem activityIn_set (h : OnePump pumps) (hk : pumps[k]? = some ⟨i, a⟩) (b : Activity) (j : Nat) :
    activityIn (pumps.set k ⟨i, b⟩) j = if j = i then some b else activityIn pumps j := by
  induction pumps generalizing k with
  | nil => simp at hk
  | cons p ps ih =>
    obtain ⟨hnew, hrest⟩ := List.nodup_cons.mp h
    cases k with
    | zero =>
      simp only [List.getElem?_cons_zero, Option.some.injEq] at hk
      subst hk
      simp only [List.set_cons_zero, activityIn_cons, eq_comm (a := i)]
      split <;> rfl
    | succ k =>
      have hk' : ps[k]? = some ⟨i, a⟩ := by simpa using hk
      have hne : p.sub ≠ i := by
        intro heq
        exact hnew (List.mem_map.mpr ⟨_, List.mem_of_getElem? hk', heq.symm⟩)
      simp only [List.set_cons_succ, activityIn_cons, ih hrest hk']
      by_cases hj : p.sub = j
      · have hji : j ≠ i := hj ▸ hne
        simp [hj, hji]
      · simp [hj]

theorem activityIn_erase (h : OnePump pumps) (hk : pumps[k]? = some ⟨i, a⟩) (j : Nat) :
    activityIn (pumps.eraseIdx k) j = if j = i then none else activityIn pumps j := by
  induction pumps generalizing k with
  | nil => simp at hk
  | cons p ps ih =>
    obtain ⟨hnew, hrest⟩ := List.nodup_cons.mp h
    cases k with
    | zero =>
      simp only [List.getElem?_cons_zero, Option.some.injEq] at hk
      subst hk
      simp only [List.eraseIdx_cons_zero, activityIn_cons, eq_comm (a := i)]
      split
      · rename_i hj
        refine activityIn_eq_none.mpr ?_
        intro q hq heq
        exact hnew (List.mem_map.mpr ⟨q, hq, heq.trans hj⟩)
      · rfl
    | succ k =>
      have hk' : ps[k]? = some ⟨i, a⟩ := by simpa using hk
      have hne : p.sub ≠ i := by
        intro heq
        exact hnew (List.mem_map.mpr ⟨_, List.mem_of_getElem? hk', heq.symm⟩)
      simp only [List.eraseIdx_cons_succ, activityIn_cons, ih hrest hk']
      by_cases hj : p.sub = j
      · have hji : j ≠ i := hj ▸ hne
        simp [hj, hji]
      · simp [hj]

theorem activityIn_append (hnone : activityIn pumps i = none) (a : Activity) (j : Nat) :
    activityIn (pumps ++ [⟨i, a⟩]) j = if j = i then some a else activityIn pumps j := by
  unfold activityIn at hnone ⊢
  rw [List.find?_append]
  by_cases hj : j = i
  · subst hj
    simp only [Option.map_eq_none_iff] at hnone
    simp [hnone]
  · have hne : (i == j) = false := by simp [Ne.symm hj]
    simp [hj, hne]

end Pumps

/-! ### Views -/

structure View where
  stopped : Bool
  sub : Subscription
  start : Option String
  activity : Option Activity
  handed : List String
  attempts : List Attempt
  replies : List Reply
  outcomes : List Outcome

def View.gone (v : View) : Bool := v.stopped || v.sub.removed

variable {σ : Type}

def handedBy (s : Webhooks σ) (i : Nat) : List String :=
  (s.handed.filter (fun x => x.1 == i)).map Prod.snd

def attemptsBy (s : Webhooks σ) (i : Nat) : List Attempt := s.attempts.filter (fun a => a.sub == i)

def repliesBy (s : Webhooks σ) (i : Nat) : List Reply := s.replies.filter (fun r => r.sub == i)

def outcomesBy (s : Webhooks σ) (i : Nat) : List Outcome := s.outcomes.filter (fun r => r.sub == i)

def viewOf (s : Webhooks σ) (i : Nat) (sub : Subscription) : View where
  stopped := s.stopped
  sub := sub
  start := s.starts i
  activity := activityIn s.pumps i
  handed := s.handedBy i
  attempts := s.attemptsBy i
  replies := s.repliesBy i
  outcomes := s.outcomesBy i

def withLetter (o : WebhookOptions) (sub : Subscription) (letter : DeadLetter) : Subscription :=
  let letters := sub.deadLetters ++ [letter]
  { sub with
    deadLettered := sub.deadLettered + 1
    deadLetters := letters.drop (letters.length - o.deadLetterLimit) }

/-- What one step of the whole can do to one subscription's part. -/
inductive Move (E : EventStore σ) (o : WebhookOptions) (store : σ) (i : Nat) : View → View → Prop where
  | start {v : View} : v.activity = none → v.gone = false →
      Move E o store i v { v with
        sub := { v.sub with busy := true }
        activity := some (.querying (pumpQuery o v.sub)) }
  | page {v : View} {query : EventQuery} {page : EventPage} :
      v.activity = some (.querying query) → E.queryEvents query store page →
      Move E o store i v { v with
        activity := some (.ready page.events
          (!page.events.isEmpty && (given page.nextCursor).isSome)) }
  | idle {v : View} : ((∃ query, v.activity = some (.querying query)) ∨
        ∃ events more, v.activity = some (.ready events more)) →
      Move E o store i v { v with sub := { v.sub with busy := false }, activity := none }
  | again {v : View} : v.activity = some (.ready [] true) →
      Move E o store i v { v with activity := some (.querying (pumpQuery o v.sub)) }
  | hand {v : View} {e : LensEvent} {rest : List LensEvent} {more : Bool} :
      v.activity = some (.ready (e :: rest) more) → v.gone = false →
      Move E o store i v { v with
        activity := some (.attempting ⟨e, rest, more, 0, "unknown error"⟩ 1)
        handed := v.handed ++ [e.id] }
  | abandon {v : View} {job : Job} {n : Nat} :
      (v.activity = some (.attempting job n) ∨ v.activity = some (.admitted job n) ∨
        v.activity = some (.backingOff job n)) → v.gone = true →
      Move E o store i v { v with activity := some (.returned job) }
  | throttle {v : View} {job : Job} {n : Nat} (l : RateLimiter) :
      v.activity = some (.attempting job n) → n ≤ o.maxAttempts →
      Move E o store i v { v with
        sub := { v.sub with limiter := l }
        activity := some (.throttled job n) }
  | wake {v : View} {job : Job} {n : Nat} : v.activity = some (.throttled job n) →
      Move E o store i v { v with activity := some (.attempting job n) }
  | grant {v : View} {job : Job} {n : Nat} (l : RateLimiter) :
      v.activity = some (.attempting job n) → n ≤ o.maxAttempts →
      Move E o store i v { v with
        sub := { v.sub with limiter := l }
        activity := some (.admitted job n) }
  | send {v : View} {job : Job} {n : Nat} (now : ℚ) :
      v.activity = some (.admitted job n) → v.gone = false →
      Move E o store i v { v with
        activity := some (.posting { job with attempts := n } n)
        attempts := v.attempts ++ [⟨i, v.sub.host, job.event.id, n, now⟩] }
  | deliver {v : View} {job : Job} {n : Nat} {a : Answer} :
      v.activity = some (.posting job n) → a.success = true →
      Move E o store i v { v with
        sub := { v.sub with delivered := v.sub.delivered + 1 }
        activity := some (.returned job)
        replies := v.replies ++ [⟨i, job.event.id, n, a⟩]
        outcomes := v.outcomes ++ [⟨i, job.event.id, .delivered, job.attempts⟩] }
  | backOff {v : View} {job : Job} {n : Nat} {a : Answer} (lastError : String) :
      v.activity = some (.posting job n) → a.success = false → a.worthRetry = true →
      n < o.maxAttempts →
      Move E o store i v { v with
        activity := some (.backingOff { job with lastError := lastError } n)
        replies := v.replies ++ [⟨i, job.event.id, n, a⟩] }
  | bury {v : View} {n : Nat} {a : Answer} (job : Job) (lastError : String) (now : ℚ) :
      v.activity = some (.posting job n) → a.success = false →
      (a.worthRetry = false ∨ o.maxAttempts ≤ n) →
      Move E o store i v { v with
        sub := withLetter o v.sub ⟨i, job.event.id, job.attempts, lastError, now⟩
        activity := some (.returned { job with lastError := lastError })
        replies := v.replies ++ [⟨i, job.event.id, n, a⟩]
        outcomes := v.outcomes ++ [⟨i, job.event.id,
          .deadLettered ⟨i, job.event.id, job.attempts, lastError, now⟩, job.attempts⟩] }
  | exhaust {v : View} {job : Job} {n : Nat} (now : ℚ) :
      v.activity = some (.attempting job n) → o.maxAttempts < n →
      Move E o store i v { v with
        sub := withLetter o v.sub ⟨i, job.event.id, job.attempts, job.lastError, now⟩
        activity := some (.returned job)
        outcomes := v.outcomes ++ [⟨i, job.event.id,
          .deadLettered ⟨i, job.event.id, job.attempts, job.lastError, now⟩, job.attempts⟩] }
  | retry {v : View} {job : Job} {n : Nat} : v.activity = some (.backingOff job n) →
      v.gone = false →
      Move E o store i v { v with activity := some (.attempting job (n + 1)) }
  | resume {v : View} {job : Job} : v.activity = some (.returned job) →
      Move E o store i v { v with
        sub := { v.sub with cursor := some job.event.id }
        activity := some (.ready job.rest job.more) }
  | remove {v : View} : Move E o store i v { v with sub := { v.sub with removed := true } }
  | stop {v : View} : Move E o store i v { v with stopped := true }

/-- Every pump belongs to a busy subscription, and no two to the same. -/
structure Single (s : Webhooks σ) : Prop where
  one : OnePump s.pumps
  busy : ∀ p ∈ s.pumps, ∃ sub, s.subs[p.sub]? = some sub ∧ sub.busy = true

/-- One turn on behalf of a subscription: what it does to the subscription, where its
pump stands afterwards and what it adds to the records. -/
structure Turn (s t : Webhooks σ) (i : Nat) (f : Subscription → Subscription)
    (activity : Option Activity) (given : List String) (sent : List Attempt)
    (heard : List Reply) (ended : List Outcome) : Prop where
  stopped : t.stopped = s.stopped
  starts : t.starts = s.starts
  subs : t.subs = s.subs.modify i f
  one : OnePump t.pumps
  pumps : ∀ j, activityIn t.pumps j = if j = i then activity else activityIn s.pumps j
  handed : t.handed = s.handed ++ given.map (fun id => (i, id))
  attempts : t.attempts = s.attempts ++ sent
  replies : t.replies = s.replies ++ heard
  outcomes : t.outcomes = s.outcomes ++ ended
  ofSent : ∀ a ∈ sent, a.sub = i
  ofHeard : ∀ r ∈ heard, r.sub = i
  ofEnded : ∀ r ∈ ended, r.sub = i
  known : i < s.subs.length
  busy : activity.isSome = true → ∀ sub, s.subs[i]? = some sub → (f sub).busy = true

section Turn

variable {s t : Webhooks σ} {i : Nat} {f : Subscription → Subscription} {activity : Option Activity}
  {given : List String} {sent : List Attempt} {heard : List Reply} {ended : List Outcome}

theorem filter_own {α : Type} {key : α → Nat} {old new : List α} (h : ∀ x ∈ new, key x = i) :
    (old ++ new).filter (fun x => key x == i) = old.filter (fun x => key x == i) ++ new := by
  have hall : new.filter (fun x => key x == i) = new := by
    refine List.filter_eq_self.mpr ?_
    intro x hx
    simp [h x hx]
  rw [List.filter_append, hall]

theorem filter_other {α : Type} {key : α → Nat} {old new : List α} {j : Nat}
    (h : ∀ x ∈ new, key x = i) (hj : j ≠ i) :
    (old ++ new).filter (fun x => key x == j) = old.filter (fun x => key x == j) := by
  have hnone : new.filter (fun x => key x == j) = [] := by
    refine List.filter_eq_nil_iff.mpr ?_
    intro x hx
    simp [h x hx, Ne.symm hj]
  rw [List.filter_append, hnone, List.append_nil]

theorem given_own (i : Nat) (given : List String) :
    ∀ x ∈ given.map (fun id => (i, id)), Prod.fst x = i := by simp

theorem Turn.view_self (h : Turn s t i f activity given sent heard ended) (sub : Subscription) :
    t.viewOf i sub =
      { s.viewOf i sub with
        activity := activity
        handed := s.handedBy i ++ given
        attempts := s.attemptsBy i ++ sent
        replies := s.repliesBy i ++ heard
        outcomes := s.outcomesBy i ++ ended } := by
  have hhanded : t.handedBy i = s.handedBy i ++ given := by
    rw [handedBy, h.handed, filter_own (given_own i given), List.map_append]
    simp [handedBy]
  have hsent : t.attemptsBy i = s.attemptsBy i ++ sent := by
    rw [attemptsBy, h.attempts, filter_own h.ofSent, attemptsBy]
  have hheard : t.repliesBy i = s.repliesBy i ++ heard := by
    rw [repliesBy, h.replies, filter_own h.ofHeard, repliesBy]
  have hended : t.outcomesBy i = s.outcomesBy i ++ ended := by
    rw [outcomesBy, h.outcomes, filter_own h.ofEnded, outcomesBy]
  simp only [viewOf, h.stopped, h.starts, h.pumps, if_true, hhanded, hsent, hheard, hended]

structure SameRecords (s t : Webhooks σ) (j : Nat) : Prop where
  handed : t.handedBy j = s.handedBy j
  attempts : t.attemptsBy j = s.attemptsBy j
  replies : t.repliesBy j = s.repliesBy j
  outcomes : t.outcomesBy j = s.outcomesBy j

theorem Turn.others (h : Turn s t i f activity given sent heard ended) {j : Nat} (hj : j ≠ i) :
    SameRecords s t j where
  handed := by rw [handedBy, h.handed, filter_other (given_own i given) hj, handedBy]
  attempts := by rw [attemptsBy, h.attempts, filter_other h.ofSent hj, attemptsBy]
  replies := by rw [repliesBy, h.replies, filter_other h.ofHeard hj, repliesBy]
  outcomes := by rw [outcomesBy, h.outcomes, filter_other h.ofEnded hj, outcomesBy]

theorem Turn.view_other (h : Turn s t i f activity given sent heard ended) {j : Nat} (hj : j ≠ i)
    (sub : Subscription) : t.viewOf j sub = s.viewOf j sub := by
  have hsame := h.others hj
  simp only [viewOf, h.stopped, h.starts, h.pumps, if_neg hj, hsame.handed, hsame.attempts,
    hsame.replies, hsame.outcomes]

theorem Turn.single (h : Turn s t i f activity given sent heard ended) (hs : Single s) : Single t := by
  refine ⟨h.one, ?_⟩
  intro p hp
  have hact : activityIn t.pumps p.sub = some p.activity := (activityIn_eq_some h.one).mpr hp
  rw [h.pumps] at hact
  rw [h.subs]
  by_cases hi : p.sub = i
  · rw [if_pos hi] at hact
    obtain ⟨own, hown⟩ : ∃ own, s.subs[i]? = some own := ⟨_, List.getElem?_eq_getElem h.known⟩
    refine ⟨f own, ?_, h.busy (by rw [hact]; rfl) own hown⟩
    rw [hi, List.getElem?_modify_eq, hown]
    rfl
  · rw [if_neg hi] at hact
    obtain ⟨sub, hsub, hbusy⟩ := hs.busy _ ((activityIn_eq_some hs.one).mp hact)
    exact ⟨sub, by rw [List.getElem?_modify_ne _ _ (Ne.symm hi), hsub], hbusy⟩

/-- What a step does to every subscription there was, nothing or one move, and to
the records of none. -/
structure Moves (E : EventStore σ) (o : WebhookOptions) (s t : Webhooks σ) : Prop where
  single : Single t
  views : ∀ (i : Nat) (sub : Subscription), s.subs[i]? = some sub → ∃ next, t.subs[i]? = some next ∧
    (t.viewOf i next = s.viewOf i sub ∨ Move E o s.store i (s.viewOf i sub) (t.viewOf i next))
  nobody : ∀ j, s.subs.length ≤ j → SameRecords s t j
  joined : t.subs.length = s.subs.length ∨ ∃ r : Registering,
    t.subs = s.subs ++ [s.subscribe o r] ∧ t.starts s.subs.length = r.cursor

theorem Turn.moves {E : EventStore σ} {o : WebhookOptions}
    (h : Turn s t i f activity given sent heard ended) (hs : Single s)
    (hmove : ∀ sub, s.subs[i]? = some sub → Move E o s.store i (s.viewOf i sub)
      { s.viewOf i sub with
        sub := f sub
        activity := activity
        handed := s.handedBy i ++ given
        attempts := s.attemptsBy i ++ sent
        replies := s.repliesBy i ++ heard
        outcomes := s.outcomesBy i ++ ended }) : Moves E o s t := by
  refine ⟨h.single hs, ?_, ?_, .inl (by rw [h.subs, List.length_modify])⟩
  · intro j sub hsub
    by_cases hj : j = i
    · subst hj
      refine ⟨f sub, by simp [h.subs, hsub], .inr ?_⟩
      rw [h.view_self]
      exact hmove sub hsub
    · refine ⟨sub, ?_, .inl (h.view_other hj sub)⟩
      rw [h.subs, List.getElem?_modify_ne _ _ (Ne.symm hj), hsub]
  · intro j hj
    have hne : j ≠ i := by
      have hi := h.known
      omega
    exact h.others hne

end Turn

section Steps

variable {E : EventStore σ} {o : WebhookOptions} {s t : Webhooks σ}

theorem gone_view {i : Nat} {sub : Subscription} (h : ¬ s.gone sub = true) :
    (s.viewOf i sub).gone = false := by
  simp only [Bool.not_eq_true] at h
  exact h

theorem turn_set {k i : Nat} {a b : Activity} {f : Subscription → Subscription} {given : List String}
    {sent : List Attempt} {heard : List Reply} {ended : List Outcome} (hs : Single s)
    (hk : s.pumps[k]? = some ⟨i, a⟩) (hpumps : t.pumps = s.pumps.set k ⟨i, b⟩)
    (hsubs : t.subs = s.subs.modify i f) (hstopped : t.stopped = s.stopped)
    (hstarts : t.starts = s.starts) (hhanded : t.handed = s.handed ++ given.map (fun id => (i, id)))
    (hattempts : t.attempts = s.attempts ++ sent) (hreplies : t.replies = s.replies ++ heard)
    (houtcomes : t.outcomes = s.outcomes ++ ended) (hsent : ∀ a ∈ sent, a.sub = i)
    (hheard : ∀ r ∈ heard, r.sub = i) (hended : ∀ r ∈ ended, r.sub = i)
    (hf : ∀ sub, (f sub).busy = sub.busy) : Turn s t i f (some b) given sent heard ended := by
  obtain ⟨own, hown, hbusy⟩ := hs.busy _ (List.mem_of_getElem? hk)
  refine ⟨hstopped, hstarts, hsubs, ?_, ?_, hhanded, hattempts, hreplies, houtcomes, hsent, hheard,
    hended, (List.getElem?_eq_some_iff.mp hown).1, ?_⟩
  · rw [hpumps]
    exact hs.one.set hk b
  · rw [hpumps]
    exact activityIn_set hs.one hk b
  · intro _ sub hsub
    rw [hown, Option.some.injEq] at hsub
    rw [hf, ← hsub, hbusy]

theorem turn_plain {k i : Nat} {a b : Activity} {f : Subscription → Subscription} (hs : Single s)
    (hk : s.pumps[k]? = some ⟨i, a⟩) (hpumps : t.pumps = s.pumps.set k ⟨i, b⟩)
    (hsubs : t.subs = s.subs.modify i f) (hstopped : t.stopped = s.stopped)
    (hstarts : t.starts = s.starts) (hhanded : t.handed = s.handed)
    (hattempts : t.attempts = s.attempts) (hreplies : t.replies = s.replies)
    (houtcomes : t.outcomes = s.outcomes) (hf : ∀ sub, (f sub).busy = sub.busy) :
    Turn s t i f (some b) [] [] [] [] := by
  refine turn_set hs hk hpumps hsubs hstopped hstarts ?_ ?_ ?_ ?_ (by simp) (by simp) (by simp) hf
  · rw [hhanded, List.map_nil, List.append_nil]
  · rw [hattempts, List.append_nil]
  · rw [hreplies, List.append_nil]
  · rw [houtcomes, List.append_nil]

theorem modify_id (l : List Subscription) (i : Nat) : l = l.modify i id := (List.modify_id i l).symm

theorem turn_setActivity {k i : Nat} {a : Activity} (hs : Single s)
    (hk : s.pumps[k]? = some ⟨i, a⟩) (b : Activity) :
    Turn s (s.setActivity k i b) i id (some b) [] [] [] [] :=
  turn_plain hs hk rfl (modify_id _ _) rfl rfl rfl rfl rfl rfl (fun _ => rfl)

theorem turn_finish {k i : Nat} {a : Activity} (hs : Single s) (hk : s.pumps[k]? = some ⟨i, a⟩) :
    Turn s (s.finish k i) i (fun sub => { sub with busy := false }) none [] [] [] [] where
  stopped := rfl
  starts := rfl
  subs := rfl
  one := hs.one.erase k
  pumps := activityIn_erase hs.one hk
  handed := (List.append_nil _).symm
  attempts := (List.append_nil _).symm
  replies := (List.append_nil _).symm
  outcomes := (List.append_nil _).symm
  ofSent := by simp
  ofHeard := by simp
  ofEnded := by simp
  known := by
    obtain ⟨own, hown, _⟩ := hs.busy _ (List.mem_of_getElem? hk)
    exact (List.getElem?_eq_some_iff.mp hown).1
  busy := fun h => absurd h (by simp)

theorem Turn.plain_moves {i : Nat} {f : Subscription → Subscription} {activity : Option Activity}
    (h : Turn s t i f activity [] [] [] []) (hs : Single s)
    (hmove : ∀ sub, s.subs[i]? = some sub → Move E o s.store i (s.viewOf i sub)
      { s.viewOf i sub with sub := f sub, activity := activity }) : Moves E o s t := by
  refine h.moves hs ?_
  intro sub hsub
  simp only [List.append_nil]
  exact hmove sub hsub

theorem moves_plain {k i : Nat} {a b : Activity} {f : Subscription → Subscription} (hs : Single s)
    (hk : s.pumps[k]? = some ⟨i, a⟩) (hpumps : t.pumps = s.pumps.set k ⟨i, b⟩)
    (hsubs : t.subs = s.subs.modify i f) (hstopped : t.stopped = s.stopped)
    (hstarts : t.starts = s.starts) (hhanded : t.handed = s.handed)
    (hattempts : t.attempts = s.attempts) (hreplies : t.replies = s.replies)
    (houtcomes : t.outcomes = s.outcomes) (hf : ∀ sub, (f sub).busy = sub.busy)
    (hmove : ∀ sub, s.subs[i]? = some sub → Move E o s.store i (s.viewOf i sub)
      { s.viewOf i sub with sub := f sub, activity := some b }) : Moves E o s t :=
  (turn_plain hs hk hpumps hsubs hstopped hstarts hhanded hattempts hreplies houtcomes
    hf).plain_moves hs hmove

theorem moves_on {k i : Nat} {a b : Activity} {sub : Subscription} (hs : Single s)
    (hk : s.pumps[k]? = some ⟨i, a⟩) (hsub : s.subs[i]? = some sub)
    (hmove : Move E o s.store i (s.viewOf i sub) { s.viewOf i sub with activity := some b }) :
    Moves E o s (s.setActivity k i b) := by
  refine (turn_setActivity hs hk b).plain_moves hs ?_
  intro other hother
  rw [hsub, Option.some.injEq] at hother
  subst hother
  exact hmove

theorem moves_finish {k i : Nat} {a : Activity} (hs : Single s) (hk : s.pumps[k]? = some ⟨i, a⟩)
    (ha : (∃ query, a = .querying query) ∨ ∃ events more, a = .ready events more) :
    Moves E o s (s.finish k i) := by
  have hact := activityIn_at hs.one hk
  refine (turn_finish hs hk).plain_moves hs ?_
  intro sub _
  refine .idle ?_
  rcases ha with ⟨query, rfl⟩ | ⟨events, more, rfl⟩
  · exact .inl ⟨query, hact⟩
  · exact .inr ⟨events, more, hact⟩

theorem moves_loop {k i : Nat} {sub : Subscription} {events : List LensEvent} {more : Bool}
    (hs : Single s) (hk : s.pumps[k]? = some ⟨i, .ready events more⟩)
    (hsub : s.subs[i]? = some sub) : Moves E o s (s.loop o k i sub events more) := by
  have hact := activityIn_at hs.one hk
  cases events with
  | nil =>
    cases more with
    | true => exact moves_on hs hk hsub (.again hact)
    | false => exact moves_finish hs hk (.inr ⟨_, _, rfl⟩)
  | cons e rest =>
    simp only [loop]
    split
    · exact moves_finish hs hk (.inr ⟨_, _, rfl⟩)
    · rename_i hgone
      have hturn : Turn s { s.setActivity k i (.attempting ⟨e, rest, more, 0, "unknown error"⟩ 1) with
          handed := s.handed ++ [(i, e.id)] } i id
          (some (.attempting ⟨e, rest, more, 0, "unknown error"⟩ 1)) [e.id] [] [] [] :=
        turn_set hs hk rfl (modify_id _ _) rfl rfl rfl (List.append_nil _).symm
          (List.append_nil _).symm (List.append_nil _).symm (by simp) (by simp) (by simp) (fun _ => rfl)
      refine hturn.moves hs ?_
      intro other hother
      rw [hsub, Option.some.injEq] at hother
      subst hother
      simp only [List.append_nil]
      exact .hand hact (gone_view hgone)

theorem moves_deadLetter {k i : Nat} {a : Activity} {job : Job} {u : Webhooks σ} (heard : List Reply)
    (hs : Single s) (hk : s.pumps[k]? = some ⟨i, a⟩) (hheard : ∀ r ∈ heard, r.sub = i)
    (hu : u = { s with replies := s.replies ++ heard })
    (hmove : ∀ sub, Move E o s.store i (s.viewOf i sub)
      { s.viewOf i sub with
        sub := withLetter o sub ⟨i, job.event.id, job.attempts, job.lastError, s.clock⟩
        activity := some (.returned job)
        replies := s.repliesBy i ++ heard
        outcomes := s.outcomesBy i ++ [⟨i, job.event.id,
          .deadLettered ⟨i, job.event.id, job.attempts, job.lastError, s.clock⟩, job.attempts⟩] }) :
    Moves E o s (u.deadLetter o k i job) := by
  subst hu
  have hturn : Turn s (deadLetter { s with replies := s.replies ++ heard } o k i job) i
      (fun sub => withLetter o sub ⟨i, job.event.id, job.attempts, job.lastError, s.clock⟩)
      (some (.returned job)) [] [] heard [⟨i, job.event.id,
          .deadLettered ⟨i, job.event.id, job.attempts, job.lastError, s.clock⟩, job.attempts⟩] :=
    turn_set hs hk rfl rfl rfl rfl (List.append_nil _).symm (List.append_nil _).symm rfl rfl (by simp)
      hheard (by simp) (fun _ => rfl)
  refine hturn.moves hs ?_
  intro sub _
  simp only [List.append_nil]
  exact hmove sub

theorem moves_attempt {k i n : Nat} {sub : Subscription} {job : Job} (r : Readings s.clock)
    (hs : Single s) (hk : s.pumps[k]? = some ⟨i, .attempting job n⟩)
    (hsub : s.subs[i]? = some sub) : Moves E o s (s.attempt o k i sub job n r) := by
  have hact := activityIn_at hs.one hk
  simp only [attempt]
  split
  · rename_i hover
    refine moves_deadLetter [] hs hk (by simp) (by simp) ?_
    intro other
    simp only [List.append_nil]
    exact .exhaust s.clock hact hover
  · rename_i hn
    have hle : n ≤ o.maxAttempts := by omega
    split
    · rename_i hgone
      refine moves_plain hs hk rfl (modify_id _ _) rfl rfl rfl rfl rfl rfl (fun _ => rfl) ?_
      intro other hother
      rw [hsub, Option.some.injEq] at hother
      subst hother
      exact .abandon (.inl hact) hgone
    · split
      · refine moves_plain hs hk rfl rfl rfl rfl rfl rfl rfl rfl (fun _ => rfl) ?_
        intro other _
        exact .grant _ hact hle
      · refine moves_plain hs hk rfl rfl rfl rfl rfl rfl rfl rfl (fun _ => rfl) ?_
        intro other _
        exact .throttle _ hact hle

theorem moves_post {k i n : Nat} {sub : Subscription} {job : Job} (hs : Single s)
    (hk : s.pumps[k]? = some ⟨i, .admitted job n⟩) (hsub : s.subs[i]? = some sub) :
    Moves E o s (s.post k i sub job n) := by
  have hact := activityIn_at hs.one hk
  simp only [post]
  split
  · rename_i hgone
    exact moves_on hs hk hsub (.abandon (.inr (.inl hact)) hgone)
  · rename_i hgone
    have hturn : Turn s { s.setActivity k i (.posting { job with attempts := n } n) with
        attempts := s.attempts ++ [⟨i, sub.host, job.event.id, n, s.clock⟩] } i id
        (some (.posting { job with attempts := n } n)) []
        [⟨i, sub.host, job.event.id, n, s.clock⟩] [] [] :=
      turn_set hs hk rfl (modify_id _ _) rfl rfl (List.append_nil _).symm rfl
        (List.append_nil _).symm (List.append_nil _).symm (by simp) (by simp) (by simp) (fun _ => rfl)
    refine hturn.moves hs ?_
    intro other hother
    rw [hsub, Option.some.injEq] at hother
    subst hother
    simp only [List.append_nil]
    exact .send s.clock hact (gone_view hgone)

theorem moves_retryOrGiveUp {k i n : Nat} {job : Job} {x : Answer} {lastError : String}
    (hs : Single s) (hk : s.pumps[k]? = some ⟨i, .posting job n⟩) (hx : x.success = false)
    (hworth : x.worthRetry = true) :
    Moves E o s (retryOrGiveUp { s with replies := s.replies ++ [⟨i, job.event.id, n, x⟩] } o k i
      { job with lastError := lastError } n) := by
  have hact := activityIn_at hs.one hk
  simp only [retryOrGiveUp]
  split
  · rename_i hlt
    have hturn : Turn s (setActivity { s with replies := s.replies ++ [⟨i, job.event.id, n, x⟩] } k i
        (.backingOff { job with lastError := lastError } n)) i id
        (some (.backingOff { job with lastError := lastError } n)) [] []
        [⟨i, job.event.id, n, x⟩] [] :=
      turn_set hs hk rfl (modify_id _ _) rfl rfl (List.append_nil _).symm (List.append_nil _).symm
        rfl (List.append_nil _).symm (by simp) (by simp) (by simp) (fun _ => rfl)
    refine hturn.moves hs ?_
    intro sub _
    simp only [List.append_nil]
    exact .backOff lastError hact hx hworth hlt
  · rename_i hge
    refine moves_deadLetter [⟨i, job.event.id, n, x⟩] hs hk (by simp) rfl ?_
    intro sub
    exact .bury job lastError s.clock hact hx (.inr (by omega))

theorem moves_answer {k i n : Nat} {job : Job} (x : Answer) (hs : Single s)
    (hk : s.pumps[k]? = some ⟨i, .posting job n⟩) : Moves E o s (s.answer o k i job n x) := by
  have hact := activityIn_at hs.one hk
  cases x with
  | error message => exact moves_retryOrGiveUp hs hk rfl rfl
  | status code =>
    simp only [answer]
    split
    · rename_i hok
      have hsuccess : (Answer.status code).success = true := decide_eq_true hok
      have hturn : Turn s { (updateSub { s with
            replies := s.replies ++ [⟨i, job.event.id, n, .status code⟩] } i
            (fun sub => { sub with delivered := sub.delivered + 1 })).setActivity k i
            (.returned job) with
          outcomes := s.outcomes ++ [⟨i, job.event.id, .delivered, job.attempts⟩] } i
          (fun sub => { sub with delivered := sub.delivered + 1 }) (some (.returned job)) [] []
          [⟨i, job.event.id, n, .status code⟩] [⟨i, job.event.id, .delivered, job.attempts⟩] :=
        turn_set hs hk rfl rfl rfl rfl (List.append_nil _).symm (List.append_nil _).symm rfl rfl
          (by simp) (by simp) (by simp) (fun _ => rfl)
      refine hturn.moves hs ?_
      intro sub _
      simp only [List.append_nil]
      exact .deliver hact hsuccess
    · rename_i hfail
      have hfailed : (Answer.status code).success = false := decide_eq_false hfail
      split
      · rename_i hworth
        exact moves_retryOrGiveUp hs hk hfailed hworth
      · rename_i hworth
        refine moves_deadLetter [⟨i, job.event.id, n, .status code⟩] hs hk (by simp) rfl ?_
        intro sub
        exact .bury job _ s.clock hact hfailed (.inl (by simpa [Answer.worthRetry] using hworth))

theorem view_rest (hs : Single s) (h : t.stopped = s.stopped) (hsubs : t.subs = s.subs)
    (hstarts : t.starts = s.starts) (hpumps : t.pumps = s.pumps) (hhanded : t.handed = s.handed)
    (hattempts : t.attempts = s.attempts) (hreplies : t.replies = s.replies)
    (houtcomes : t.outcomes = s.outcomes) : Moves E o s t := by
  have hsame : ∀ j, SameRecords s t j := by
    intro j
    refine ⟨?_, ?_, ?_, ?_⟩
    · rw [handedBy, hhanded, handedBy]
    · rw [attemptsBy, hattempts, attemptsBy]
    · rw [repliesBy, hreplies, repliesBy]
    · rw [outcomesBy, houtcomes, outcomesBy]
  refine ⟨⟨hpumps ▸ hs.one, ?_⟩, ?_, fun j _ => hsame j, .inl (by rw [hsubs])⟩
  · rw [hpumps, hsubs]
    exact hs.busy
  · intro i sub hsub
    refine ⟨sub, hsubs ▸ hsub, .inl ?_⟩
    have hrec := hsame i
    simp only [viewOf, h, hstarts, hpumps, hrec.handed, hrec.attempts, hrec.replies, hrec.outcomes]

theorem moves_registered {r : Registering} {others : List Registering} (hs : Single s) :
    Moves E o s { s with
      registering := others
      subs := s.subs ++ [s.subscribe o r]
      starts := Function.update s.starts s.subs.length r.cursor } := by
  refine ⟨⟨hs.one, ?_⟩, ?_, fun j _ => ⟨rfl, rfl, rfl, rfl⟩,
    .inr ⟨r, rfl, Function.update_self _ _ _⟩⟩
  · intro p hp
    obtain ⟨own, hown, hbusy⟩ := hs.busy p hp
    refine ⟨own, ?_, hbusy⟩
    rw [List.getElem?_append_left (List.getElem?_eq_some_iff.mp hown).1, hown]
  · intro i old hold
    have hlt : i < s.subs.length := (List.getElem?_eq_some_iff.mp hold).1
    refine ⟨old, ?_, .inl ?_⟩
    · show (s.subs ++ [s.subscribe o r])[i]? = some old
      rw [List.getElem?_append_left hlt, hold]
    · have hne : i ≠ s.subs.length := by omega
      simp only [viewOf, Function.update_of_ne hne]
      rfl

theorem moves_pump {i : Nat} {sub : Subscription} (hs : Single s) (hsub : s.subs[i]? = some sub)
    (hidle : sub.busy = false) (hlive : s.gone sub = false) :
    Moves E o s { s.updateSub i (fun sub => { sub with busy := true }) with
      pumps := s.pumps ++ [⟨i, .querying (pumpQuery o sub)⟩] } := by
  have hnone : activityIn s.pumps i = none := by
    refine activityIn_eq_none.mpr ?_
    intro p hp heq
    obtain ⟨other, hother, hbusy⟩ := hs.busy p hp
    rw [heq, hsub, Option.some.injEq] at hother
    rw [← hother, hidle] at hbusy
    cases hbusy
  have hturn : Turn s { s.updateSub i (fun sub => { sub with busy := true }) with
      pumps := s.pumps ++ [⟨i, .querying (pumpQuery o sub)⟩] } i
      (fun sub => { sub with busy := true }) (some (.querying (pumpQuery o sub))) [] [] [] [] :=
    { stopped := rfl
      starts := rfl
      subs := rfl
      one := hs.one.append hnone _
      pumps := activityIn_append hnone _
      handed := (List.append_nil _).symm
      attempts := (List.append_nil _).symm
      replies := (List.append_nil _).symm
      outcomes := (List.append_nil _).symm
      ofSent := by simp
      ofHeard := by simp
      ofEnded := by simp
      known := (List.getElem?_eq_some_iff.mp hsub).1
      busy := fun _ _ _ => rfl }
  refine hturn.plain_moves hs ?_
  intro other hother
  rw [hsub, Option.some.injEq] at hother
  subst hother
  exact .start hnone hlive

theorem moves_remove {i : Nat} (hs : Single s) :
    Moves E o s (s.updateSub i (fun sub => { sub with removed := true })) := by
  refine ⟨⟨hs.one, ?_⟩, ?_, fun j _ => ⟨rfl, rfl, rfl, rfl⟩, .inl (List.length_modify _ _ _)⟩
  · intro p hp
    obtain ⟨own, hown, hbusy⟩ := hs.busy p hp
    simp only [updateSub, List.getElem?_modify, hown]
    split
    · exact ⟨_, rfl, hbusy⟩
    · exact ⟨_, rfl, hbusy⟩
  · intro j sub hsub
    by_cases hj : j = i
    · subst hj
      refine ⟨{ sub with removed := true }, by simp [updateSub, hsub], .inr ?_⟩
      exact .remove
    · refine ⟨sub, ?_, .inl rfl⟩
      simp only [updateSub]
      rw [List.getElem?_modify_ne _ _ (Ne.symm hj), hsub]

/-- Every step is a move, or nothing, for every subscription there was. -/
theorem Step.moves (hs : Single s) (h : Step E o s t) : Moves E o s t := by
  cases h with
  | insert _ => exact view_rest hs rfl rfl rfl rfl rfl rfl rfl rfl
  | prune _ => exact view_rest hs rfl rfl rfl rfl rfl rfl rfl rfl
  | tick _ => exact view_rest hs rfl rfl rfl rfl rfl rfl rfl rfl
  | register _ _ _ => exact view_rest hs rfl rfl rfl rfl rfl rfl rfl rfl
  | registered _ => exact moves_registered hs
  | pump hsub hidle hlive => exact moves_pump hs hsub hidle hlive
  | page hk hq =>
    exact (turn_setActivity hs hk _).plain_moves hs (fun _ _ => .page (activityIn_at hs.one hk) hq)
  | queryFailed hk => exact moves_finish hs hk (.inl ⟨_, rfl⟩)
  | loop hk hsub => exact moves_loop hs hk hsub
  | attempt r hk hsub => exact moves_attempt r hs hk hsub
  | wake hk =>
    exact (turn_setActivity hs hk _).plain_moves hs (fun _ _ => .wake (activityIn_at hs.one hk))
  | post hk hsub => exact moves_post hs hk hsub
  | answer x hk => exact moves_answer x hs hk
  | retry hk hsub =>
    have hact := activityIn_at hs.one hk
    simp only [Webhooks.retry]
    split
    · rename_i hgone
      exact moves_on hs hk hsub (.abandon (.inr (.inr hact)) hgone)
    · rename_i hgone
      exact moves_on hs hk hsub (.retry hact (gone_view hgone))
  | resume hk =>
    refine moves_plain hs hk rfl rfl rfl rfl rfl rfl rfl rfl (fun _ => rfl) ?_
    intro sub _
    exact .resume (activityIn_at hs.one hk)
  | remove _ _ => exact moves_remove hs
  | stop =>
    exact ⟨⟨hs.one, hs.busy⟩, fun i sub hsub => ⟨sub, hsub, .inr .stop⟩,
      fun j _ => ⟨rfl, rfl, rfl, rfl⟩, .inl rfl⟩

end Steps

/-! ### The rule -/

def View.new (stopped : Bool) (sub : Subscription) (start : Option String) : View :=
  ⟨stopped, sub, start, none, [], [], [], []⟩

structure Viewed (P : Nat → View → Prop) (s : Webhooks σ) : Prop where
  single : Single s
  blank : ∀ i, s.subs.length ≤ i → s.handedBy i = [] ∧ s.attemptsBy i = [] ∧ s.repliesBy i = [] ∧
    s.outcomesBy i = []
  views : ∀ (i : Nat) (sub : Subscription), s.subs[i]? = some sub → P i (s.viewOf i sub)

section Rule

variable {E : EventStore σ} {o : WebhookOptions} {P : Nat → View → Prop} {s t : Webhooks σ}

theorem viewed_initial (h : Initial s) : Viewed P s := by
  obtain ⟨_, hsubs, _, hpumps, _, _, hattempts, hreplies, houtcomes, hhanded, _⟩ := h
  refine ⟨⟨by simp [OnePump, hpumps], by simp [hpumps]⟩, ?_, by simp [hsubs]⟩
  intro i _
  simp [handedBy, attemptsBy, repliesBy, outcomesBy, hattempts, hreplies, houtcomes, hhanded]

theorem Viewed.moves (h : Viewed P s) (hmoves : Moves E o s t)
    (hnew : ∀ i stopped r, P i (.new stopped (s.subscribe o r) r.cursor))
    (hmove : ∀ i v v', P i v → Move E o s.store i v v' → P i v') : Viewed P t := by
  have hle : s.subs.length ≤ t.subs.length := by
    rcases hmoves.joined with heq | ⟨r, heq, _⟩
    · omega
    · simp [heq]
  have hblank : ∀ i, s.subs.length ≤ i → t.handedBy i = [] ∧ t.attemptsBy i = [] ∧
      t.repliesBy i = [] ∧ t.outcomesBy i = [] := by
    intro i hi
    have hsame := hmoves.nobody i hi
    rw [hsame.handed, hsame.attempts, hsame.replies, hsame.outcomes]
    exact h.blank i hi
  refine ⟨hmoves.single, fun i hi => hblank i (by omega), ?_⟩
  intro i next hnext
  have hlt := (List.getElem?_eq_some_iff.mp hnext).1
  rcases Nat.lt_or_ge i s.subs.length with hold | hge
  · obtain ⟨sub, hsub⟩ : ∃ sub, s.subs[i]? = some sub := ⟨_, List.getElem?_eq_getElem hold⟩
    obtain ⟨other, hother, hview⟩ := hmoves.views i sub hsub
    rw [hnext, Option.some.injEq] at hother
    subst hother
    rcases hview with hsame | hmv
    · rw [hsame]
      exact h.views i sub hsub
    · exact hmove i _ _ (h.views i sub hsub) hmv
  · rcases hmoves.joined with heq | ⟨r, heq, hstart⟩
    · omega
    · have hi : i = s.subs.length := by
        simp only [heq, List.length_append, List.length_singleton] at hlt
        omega
      subst hi
      have hsub : next = s.subscribe o r := by
        rw [heq, List.getElem?_concat_length, Option.some.injEq] at hnext
        exact hnext.symm
      subst hsub
      have hnone : activityIn t.pumps s.subs.length = none := by
        refine activityIn_eq_none.mpr ?_
        intro p hp hpi
        obtain ⟨own, hown, hbusy⟩ := hmoves.single.busy p hp
        rw [hpi, hnext, Option.some.injEq] at hown
        rw [← hown] at hbusy
        cases hbusy
      obtain ⟨hhanded, hattempts, hreplies, houtcomes⟩ := hblank s.subs.length (le_refl _)
      have hview : t.viewOf s.subs.length (s.subscribe o r) =
          .new t.stopped (s.subscribe o r) r.cursor := by
        simp only [viewOf, View.new, hstart, hnone, hhanded, hattempts, hreplies, houtcomes]
      rw [hview]
      exact hnew _ _ r

/-- What a new subscription has and every move keeps holds of every subscription,
however the pumps interleave. -/
theorem viewed_of_reachable {init : Webhooks σ → Prop} {step : Webhooks σ → Webhooks σ → Prop}
    {Q : σ → Prop} (hinit : ∀ s, init s → Initial s)
    (hstep : ∀ s t, step s t → Step E o s t ∧ Q s.store)
    (hnew : ∀ i stopped (s : Webhooks σ) r, P i (.new stopped (s.subscribe o r) r.cursor))
    (hmove : ∀ i store v v', Q store → P i v → Move E o store i v v' → P i v')
    (h : Reachable init step s) : Viewed P s := by
  refine Reachable.invariant ?_ ?_ h
  · intro s hs
    exact viewed_initial (hinit s hs)
  · intro s t hs hst
    obtain ⟨hst, hq⟩ := hstep s t hst
    exact hs.moves (hst.moves hs.single) (fun i stopped r => hnew i stopped s r)
      (fun i v v' => hmove i s.store v v' hq)

end Rule

end Webhooks

end SorobanLens
