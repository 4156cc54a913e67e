import SorobanLens.Api.WebhookViews

/-!
The books of one subscription: what was handed to `deliver`, in what order it was
attempted, how each delivery ended and what the counters and the dead letters say
of it.
-/

set_option autoImplicit false

namespace SorobanLens

/-- Attempts follow the events' ids, and for one event their numbers. -/
def Attempt.Before (a b : Attempt) : Prop :=
  a.eventId < b.eventId ∨ (a.eventId = b.eventId ∧ a.number < b.number)

def Answer.final (a : Answer) : Bool := a.success || !a.worthRetry

def Outcome.letter (r : Outcome) : Option DeadLetter :=
  match r.verdict with
  | .delivered => none
  | .deadLettered letter => some letter

namespace Webhooks

namespace View

def decided (v : View) : List String := v.outcomes.map Outcome.eventId

def tries (v : View) (id : String) : Nat := v.attempts.countP (fun a => a.eventId == id)

def letters (v : View) : List DeadLetter := v.outcomes.filterMap Outcome.letter

def Above (v : View) (id : String) : Prop :=
  (∀ x ∈ v.handed, x < id) ∧ ∀ c, given v.start = some c → c < id

end View

/-- What the records of one subscription say of each other. -/
structure Books (o : WebhookOptions) (v : View) : Prop where
  ordered : v.handed.Pairwise (· < ·)
  named : "" ∉ v.handed
  started : ∀ x ∈ v.handed, ∀ c, given v.start = some c → c < x
  decided : v.decided <+: v.handed
  inOrder : v.attempts.Pairwise Attempt.Before
  attempted : ∀ a ∈ v.attempts, a.eventId ∈ v.handed
  ended : ∀ r ∈ v.outcomes, 1 ≤ r.attempts ∧ r.attempts ≤ o.maxAttempts ∧
    v.tries r.eventId = r.attempts
  finals : ∀ r ∈ v.replies, r.answer.final = true → r.eventId ∈ v.decided ∧
    ∀ a ∈ v.attempts, a.eventId = r.eventId → a.number ≤ r.number
  delivered : v.sub.delivered = v.outcomes.countP (fun r => r.letter.isNone)
  deadLettered : v.sub.deadLettered = v.letters.length
  deadLetters : v.sub.deadLetters = v.letters.drop (v.letters.length - o.deadLetterLimit)

/-- Between deliveries: a live subscription's cursor is the last event decided. -/
def Settled (v : View) : Prop :=
  v.gone = false → v.handed = v.decided ∧ v.sub.cursor = v.decided.getLast?.or v.start

structure Reading (v : View) (events : List LensEvent) : Prop where
  settled : Settled v
  ascending : (events.map LensEvent.id).Pairwise (· < ·)
  named : "" ∉ events.map LensEvent.id
  above : v.gone = false → ∀ e ∈ events, v.Above e.id

structure Delivering (o : WebhookOptions) (v : View) (job : Job) (n made : Nat) : Prop where
  handed : v.handed = v.decided ++ [job.event.id]
  cursor : v.sub.cursor = v.decided.getLast?.or v.start
  ascending : (job.event.id :: job.rest.map LensEvent.id).Pairwise (· < ·)
  named : "" ∉ job.rest.map LensEvent.id
  low : 1 ≤ n
  high : n ≤ o.maxAttempts
  attempts : job.attempts = made
  tries : v.tries job.event.id = made
  numbers : ∀ a ∈ v.attempts, a.eventId = job.event.id → a.number ≤ made

structure Returned (v : View) (job : Job) : Prop where
  ascending : (job.event.id :: job.rest.map LensEvent.id).Pairwise (· < ·)
  named : "" ∉ job.rest.map LensEvent.id
  handed : ∃ earlier, v.handed = earlier ++ [job.event.id] ∧
    (v.gone = false → v.handed = v.decided ∧ v.sub.cursor = earlier.getLast?.or v.start)

def Stage (o : WebhookOptions) (v : View) : Prop :=
  match v.activity with
  | none => Settled v
  | some (.querying query) =>
    Settled v ∧ query.order = some .asc ∧ query.direction = none ∧ query.cursor = given v.sub.cursor
  | some (.ready events _) => Reading v events
  | some (.attempting job n) | some (.throttled job n) | some (.admitted job n) =>
    ∃ made, n = made + 1 ∧ Delivering o v job n made
  | some (.posting job n) => Delivering o v job n n
  | some (.backingOff job n) => Delivering o v job n n ∧ n < o.maxAttempts
  | some (.returned job) => Returned v job

section Moves

variable {o : WebhookOptions} {v w : View}

theorem Books.of_eq (h : Books o v) (hstart : w.start = v.start) (hhanded : w.handed = v.handed)
    (hattempts : w.attempts = v.attempts) (hreplies : w.replies = v.replies)
    (houtcomes : w.outcomes = v.outcomes) (hdelivered : w.sub.delivered = v.sub.delivered)
    (hdead : w.sub.deadLettered = v.sub.deadLettered)
    (hletters : w.sub.deadLetters = v.sub.deadLetters) : Books o w := by
  have hdecided : w.decided = v.decided := by rw [View.decided, houtcomes, View.decided]
  have htries : w.tries = v.tries := by
    funext id
    rw [View.tries, hattempts, View.tries]
  have hlist : w.letters = v.letters := by rw [View.letters, houtcomes, View.letters]
  refine ⟨?_, ?_, ?_, ?_, ?_, ?_, ?_, ?_, ?_, ?_, ?_⟩
  · rw [hhanded]
    exact h.ordered
  · rw [hhanded]
    exact h.named
  · rw [hhanded, hstart]
    exact h.started
  · rw [hdecided, hhanded]
    exact h.decided
  · rw [hattempts]
    exact h.inOrder
  · rw [hattempts, hhanded]
    exact h.attempted
  · rw [houtcomes, htries]
    exact h.ended
  · rw [hreplies, hdecided, hattempts]
    exact h.finals
  · rw [hdelivered, houtcomes]
    exact h.delivered
  · rw [hdead, hlist]
    exact h.deadLettered
  · rw [hletters, hlist]
    exact h.deadLetters

theorem above_of_cursor (h : Books o v) (hhanded : v.handed = v.decided)
    (hcursor : v.sub.cursor = v.decided.getLast?.or v.start) {id : String}
    (hid : ∀ c, given v.sub.cursor = some c → c < id) : v.Above id := by
  rcases List.eq_nil_or_concat' v.handed with hnil | ⟨earlier, last, hlast⟩
  · have hstart : v.sub.cursor = v.start := by
      rw [hcursor, ← hhanded, hnil]
      rfl
    refine ⟨by simp [hnil], ?_⟩
    rw [← hstart]
    exact hid
  · have hmem : last ∈ v.handed := by simp [hlast]
    have hne : last ≠ "" := by
      intro heq
      exact h.named (heq ▸ hmem)
    have hgiven : given v.sub.cursor = some last := by
      rw [hcursor, ← hhanded, hlast]
      simp [given, hne]
    have hlt := hid last hgiven
    refine ⟨?_, ?_⟩
    · intro x hx
      have hordered := h.ordered
      rw [hlast] at hx hordered
      rcases List.mem_append.mp hx with hold | hnew
      · exact lt_trans ((List.pairwise_append.mp hordered).2.2 x hold last (by simp)) hlt
      · rw [List.mem_singleton.mp hnew]
        exact hlt
    · intro c hc
      exact lt_trans (h.started last hmem c hc) hlt

theorem above_rest (h : Books o v) {earlier : List String} {job : Job}
    (hhanded : v.handed = earlier ++ [job.event.id])
    (hasc : (job.event.id :: job.rest.map LensEvent.id).Pairwise (· < ·)) :
    ∀ e ∈ job.rest, v.Above e.id := by
  intro e he
  have hlt : job.event.id < e.id :=
    (List.pairwise_cons.mp hasc).1 e.id (List.mem_map.mpr ⟨e, he, rfl⟩)
  have hmem : job.event.id ∈ v.handed := by simp [hhanded]
  have hordered := h.ordered
  rw [hhanded] at hordered
  refine ⟨?_, ?_⟩
  · intro x hx
    rw [hhanded] at hx
    rcases List.mem_append.mp hx with hold | hnew
    · exact lt_trans ((List.pairwise_append.mp hordered).2.2 x hold _ (by simp)) hlt
    · rw [List.mem_singleton.mp hnew]
      exact hlt
  · intro c hc
    exact lt_trans (h.started _ hmem c hc) hlt

theorem Books.hand (h : Books o v) {id : String} {activity : Option Activity} (habove : v.Above id)
    (hid : id ≠ "") : Books o { v with activity := activity, handed := v.handed ++ [id] } := by
  refine ⟨?_, ?_, ?_, ?_, h.inOrder, ?_, h.ended, h.finals, h.delivered, h.deadLettered,
    h.deadLetters⟩
  · refine List.pairwise_append.mpr ⟨h.ordered, by simp, ?_⟩
    intro x hx y hy
    rw [List.mem_singleton.mp hy]
    exact habove.1 x hx
  · simp [h.named, Ne.symm hid]
  · intro x hx c hc
    rcases List.mem_append.mp hx with hold | hlast
    · exact h.started x hold c hc
    · rw [List.mem_singleton.mp hlast]
      exact habove.2 c hc
  · exact h.decided.trans (List.prefix_append _ _)
  · intro a ha
    exact List.mem_append_left _ (h.attempted a ha)

theorem tries_of_above (h : Books o v) {id : String} (habove : v.Above id) : v.tries id = 0 := by
  refine List.countP_eq_zero.mpr ?_
  intro a ha
  have hlt := habove.1 a.eventId (h.attempted a ha)
  simp [hlt.ne]

theorem Delivering.undecided {job : Job} {n made : Nat} (h : Books o v)
    (hd : Delivering o v job n made) : job.event.id ∉ v.decided := by
  intro hmem
  have hordered := h.ordered
  rw [hd.handed] at hordered
  exact lt_irrefl _ ((List.pairwise_append.mp hordered).2.2 _ hmem _ (by simp))

theorem Books.send (h : Books o v) {i n made : Nat} {job : Job} {activity : Option Activity} (now : ℚ)
    (hn : n = made + 1) (hd : Delivering o v job n made) :
    Books o { v with
      activity := activity
      attempts := v.attempts ++ [⟨i, v.sub.host, job.event.id, n, now⟩] } := by
  have hundecided := hd.undecided h
  refine ⟨h.ordered, h.named, h.started, h.decided, ?_, ?_, ?_, ?_, h.delivered, h.deadLettered,
    h.deadLetters⟩
  · refine List.pairwise_append.mpr ⟨h.inOrder, by simp, ?_⟩
    intro a ha b hb
    rw [List.mem_singleton.mp hb]
    have hmem := h.attempted a ha
    rw [hd.handed] at hmem
    have hordered := h.ordered
    rw [hd.handed] at hordered
    rcases List.mem_append.mp hmem with hold | hlast
    · exact .inl ((List.pairwise_append.mp hordered).2.2 _ hold _ (by simp))
    · have heq := List.mem_singleton.mp hlast
      have hnum := hd.numbers a ha heq
      exact .inr ⟨heq, by simp only; omega⟩
  · intro a ha
    rcases List.mem_append.mp ha with hold | hlast
    · exact h.attempted a hold
    · rw [List.mem_singleton.mp hlast, hd.handed]
      simp
  · intro r hr
    have hne : job.event.id ≠ r.eventId := by
      intro heq
      exact hundecided (List.mem_map.mpr ⟨r, hr, heq.symm⟩)
    obtain ⟨hlow, hhigh, htries⟩ := h.ended r hr
    refine ⟨hlow, hhigh, ?_⟩
    rw [← htries]
    simp [View.tries, hne]
  · intro r hr hfinal
    obtain ⟨hmem, hnum⟩ := h.finals r hr hfinal
    refine ⟨hmem, ?_⟩
    intro a ha heq
    rcases List.mem_append.mp ha with hold | hlast
    · exact hnum a hold heq
    · rw [List.mem_singleton.mp hlast] at heq
      have hsame : job.event.id = r.eventId := heq
      rw [← hsame] at hmem
      exact absurd hmem hundecided

theorem Books.hear (h : Books o v) {r : Reply} {activity : Option Activity}
    (hopen : r.answer.final = false) :
    Books o { v with activity := activity, replies := v.replies ++ [r] } := by
  refine ⟨h.ordered, h.named, h.started, h.decided, h.inOrder, h.attempted, h.ended, ?_,
    h.delivered, h.deadLettered, h.deadLetters⟩
  intro x hx hfinal
  rcases List.mem_append.mp hx with hold | hlast
  · exact h.finals x hold hfinal
  · rw [List.mem_singleton.mp hlast, hopen] at hfinal
    cases hfinal

/-- Keeping the newest of what was kept keeps the newest of all. -/
theorem drop_kept {α : Type} (l : List α) (x : α) (limit : Nat) :
    (l.drop (l.length - limit) ++ [x]).drop
        ((l.drop (l.length - limit) ++ [x]).length - limit) =
      (l ++ [x]).drop ((l ++ [x]).length - limit) := by
  have hle : l.length - limit ≤ l.length := Nat.sub_le _ _
  rw [← List.drop_append_of_le_length hle, List.drop_drop]
  congr 1
  simp only [List.length_drop, List.length_append, List.length_singleton]
  omega

structure Counted (o : WebhookOptions) (old new : Subscription) (r : Outcome) : Prop where
  cursor : new.cursor = old.cursor
  removed : new.removed = old.removed
  delivered : new.delivered = old.delivered + if r.letter.isNone then 1 else 0
  deadLettered : new.deadLettered = old.deadLettered + r.letter.toList.length
  deadLetters : new.deadLetters =
    match r.letter with
    | none => old.deadLetters
    | some letter =>
      (old.deadLetters ++ [letter]).drop ((old.deadLetters ++ [letter]).length - o.deadLetterLimit)

theorem Books.finish (h : Books o v) {n : Nat} {job : Job} {sub : Subscription}
    {activity : Option Activity} {heard : Reply} {r : Outcome} (hd : Delivering o v job n n)
    (hheard : heard.eventId = job.event.id ∧ heard.number = n)
    (hr : r.eventId = job.event.id ∧ r.attempts = n) (hsub : Counted o v.sub sub r) :
    Books o { v with
      sub := sub
      activity := activity
      replies := v.replies ++ [heard]
      outcomes := v.outcomes ++ [r] } := by
  have hletters : (v.outcomes ++ [r]).filterMap Outcome.letter = v.letters ++ r.letter.toList := by
    rw [List.filterMap_append]
    cases hl : r.letter <;> simp [View.letters, hl]
  refine ⟨h.ordered, h.named, h.started, ?_, h.inOrder, h.attempted, ?_, ?_, ?_, ?_, ?_⟩
  · simp only [View.decided, List.map_append, List.map_cons, List.map_nil, hr.1]
    rw [hd.handed]
    exact List.prefix_refl _
  · intro x hx
    rcases List.mem_append.mp hx with hold | hlast
    · exact h.ended x hold
    · rw [List.mem_singleton.mp hlast, hr.2, hr.1]
      exact ⟨hd.low, hd.high, hd.tries⟩
  · intro x hx hfinal
    rcases List.mem_append.mp hx with hold | hlast
    · obtain ⟨hmem, hnum⟩ := h.finals x hold hfinal
      refine ⟨?_, hnum⟩
      simp only [View.decided, List.map_append]
      exact List.mem_append_left _ hmem
    · rw [List.mem_singleton.mp hlast, hheard.1, hheard.2]
      refine ⟨?_, hd.numbers⟩
      simp [View.decided, hr.1]
  · simp only [hsub.delivered, h.delivered, List.countP_append, List.countP_singleton]
  · simp only [hsub.deadLettered, h.deadLettered, View.letters, hletters, List.length_append]
  · simp only [hsub.deadLetters, View.letters, hletters]
    cases hl : r.letter with
    | none => simpa [View.letters] using h.deadLetters
    | some letter =>
      simp only [Option.toList_some]
      rw [h.deadLetters]
      exact drop_kept _ _ _

theorem Delivering.on {job next : Job} {n m made : Nat} (h : Delivering o v job n made)
    (hstart : w.start = v.start) (hcursor : w.sub.cursor = v.sub.cursor)
    (hhanded : w.handed = v.handed) (hattempts : w.attempts = v.attempts)
    (houtcomes : w.outcomes = v.outcomes) (hevent : next.event = job.event)
    (hrest : next.rest = job.rest) (hmade : next.attempts = job.attempts) (hlow : 1 ≤ m)
    (hhigh : m ≤ o.maxAttempts) : Delivering o w next m made := by
  have hdecided : w.decided = v.decided := by rw [View.decided, houtcomes, View.decided]
  refine ⟨?_, ?_, ?_, ?_, hlow, hhigh, hmade.trans h.attempts, ?_, ?_⟩
  · rw [hhanded, hdecided, hevent]
    exact h.handed
  · rw [hcursor, hdecided, hstart]
    exact h.cursor
  · rw [hevent, hrest]
    exact h.ascending
  · rw [hrest]
    exact h.named
  · rw [hevent, View.tries, hattempts]
    exact h.tries
  · rw [hattempts, hevent]
    exact h.numbers

theorem Settled.of_eq (h : Settled v) (hgone : w.gone = false → v.gone = false)
    (hstart : w.start = v.start) (hcursor : w.sub.cursor = v.sub.cursor)
    (hhanded : w.handed = v.handed) (houtcomes : w.outcomes = v.outcomes) : Settled w := by
  intro hlive
  have hdecided : w.decided = v.decided := by rw [View.decided, houtcomes, View.decided]
  rw [hhanded, hdecided, hcursor, hstart]
  exact h (hgone hlive)

/-- Giving up, or losing the right to go on, leaves every stage as it was. -/
theorem Stage.give_up (h : Stage o v) (hgone : w.gone = false → v.gone = false)
    (hactivity : w.activity = v.activity) (hstart : w.start = v.start)
    (hcursor : w.sub.cursor = v.sub.cursor) (hhanded : w.handed = v.handed)
    (hattempts : w.attempts = v.attempts) (houtcomes : w.outcomes = v.outcomes) : Stage o w := by
  have hdecided : w.decided = v.decided := by rw [View.decided, houtcomes, View.decided]
  have hsettled : Settled v → Settled w := fun hs =>
    hs.of_eq hgone hstart hcursor hhanded houtcomes
  have hdelivering : ∀ job n made, Delivering o v job n made → Delivering o w job n made :=
    fun job n made hd => hd.on hstart hcursor hhanded hattempts houtcomes rfl rfl rfl hd.low hd.high
  unfold Stage at h ⊢
  rw [hactivity]
  cases hact : v.activity with
  | none =>
    rw [hact] at h
    exact hsettled h
  | some a =>
    rw [hact] at h
    cases a with
    | querying query =>
      refine ⟨hsettled h.1, h.2.1, h.2.2.1, ?_⟩
      rw [hcursor]
      exact h.2.2.2
    | ready events more =>
      refine ⟨hsettled h.settled, h.ascending, h.named, ?_⟩
      intro hlive e he
      have habove := h.above (hgone hlive) e he
      rw [View.Above, hhanded, hstart]
      exact habove
    | attempting job n =>
      obtain ⟨made, hn, hd⟩ := h
      exact ⟨made, hn, hdelivering job n made hd⟩
    | throttled job n =>
      obtain ⟨made, hn, hd⟩ := h
      exact ⟨made, hn, hdelivering job n made hd⟩
    | admitted job n =>
      obtain ⟨made, hn, hd⟩ := h
      exact ⟨made, hn, hdelivering job n made hd⟩
    | posting job n => exact hdelivering job n n h
    | backingOff job n => exact ⟨hdelivering job n n h.1, h.2⟩
    | returned job =>
      obtain ⟨hasc, hnamed, earlier, hearlier, hlive⟩ := h
      refine ⟨hasc, hnamed, earlier, hhanded.trans hearlier, ?_⟩
      intro hg
      rw [hhanded, hdecided, hcursor, hstart]
      exact hlive (hgone hg)

theorem Delivering.abandon {job : Job} {n made : Nat} (h : Delivering o v job n made)
    (hgone : v.gone = true) {activity : Option Activity} :
    Returned { v with activity := activity } job := by
  refine ⟨h.ascending, h.named, v.decided, h.handed, ?_⟩
  intro hlive
  have hsame : v.gone = false := hlive
  rw [hgone] at hsame
  cases hsame

theorem Delivering.finish {job next : Job} {n made : Nat} {sub : Subscription} {r : Outcome}
    {activity : Option Activity} {replies : List Reply} (h : Delivering o v job n made)
    (hcursor : sub.cursor = v.sub.cursor) (hr : r.eventId = job.event.id)
    (hevent : next.event = job.event) (hrest : next.rest = job.rest) :
    Returned { v with
      sub := sub
      activity := activity
      replies := replies
      outcomes := v.outcomes ++ [r] } next := by
  refine ⟨?_, ?_, v.decided, ?_, ?_⟩
  · rw [hevent, hrest]
    exact h.ascending
  · rw [hrest]
    exact h.named
  · rw [hevent]
    exact h.handed
  · intro _
    refine ⟨?_, hcursor.trans h.cursor⟩
    simp only [View.decided, List.map_append, List.map_cons, List.map_nil, hr]
    exact h.handed

theorem Reading.hand {e : LensEvent} {rest : List LensEvent} {more : Bool} {activity : Option Activity}
    (hb : Books o v) (hr : Reading v (e :: rest)) (hlive : v.gone = false) (hmax : 1 ≤ o.maxAttempts) :
    Delivering o { v with activity := activity, handed := v.handed ++ [e.id] }
      ⟨e, rest, more, 0, "unknown error"⟩ 1 0 := by
  have habove := hr.above hlive e (by simp)
  obtain ⟨hhanded, hcursor⟩ := hr.settled hlive
  refine ⟨?_, hcursor, hr.ascending, ?_, le_refl 1, hmax, rfl, tries_of_above hb habove, ?_⟩
  · show v.handed ++ [e.id] = v.decided ++ [e.id]
    rw [hhanded]
  · intro hmem
    exact hr.named (List.mem_cons_of_mem _ hmem)
  · intro a ha heq
    have hlt := habove.1 a.eventId (hb.attempted a ha)
    exact absurd heq hlt.ne

theorem Delivering.send {i n made : Nat} {job : Job} {activity : Option Activity} (now : ℚ)
    (hd : Delivering o v job n made) (hn : n = made + 1) :
    Delivering o { v with
      activity := activity
      attempts := v.attempts ++ [⟨i, v.sub.host, job.event.id, n, now⟩] }
      { job with attempts := n } n n := by
  refine ⟨hd.handed, hd.cursor, hd.ascending, hd.named, hd.low, hd.high, rfl, ?_, ?_⟩
  · have htries := hd.tries
    simp only [View.tries, List.countP_append, List.countP_singleton, beq_self_eq_true, if_true] at htries ⊢
    omega
  · intro a ha heq
    rcases List.mem_append.mp ha with hold | hlast
    · have hnum := hd.numbers a hold heq
      omega
    · rw [List.mem_singleton.mp hlast]

section Kept

variable {σ : Type} {E : EventStore σ} {store : σ} {i : Nat}

theorem reading_page {query : EventQuery} {page : EventPage} {activity : Option Activity}
    (hb : Books o v) (hs : Settled v) (hnamed : "" ∉ E.stored store)
    (hasc : query.order = some .asc) (hdir : query.direction = none)
    (hcursor : query.cursor = given v.sub.cursor) (hq : E.queryEvents query store page) :
    Reading { v with activity := activity } page.events := by
  obtain ⟨hordered, hmem⟩ := EventStore.page_ascending hq hasc (isBackward_none hdir)
  refine ⟨hs, hordered, ?_, ?_⟩
  · intro hempty
    exact hnamed (E.isStored _ _ _ (hmem "" hempty).1)
  · intro hlive e he
    obtain ⟨hhanded, hc⟩ := hs hlive
    refine above_of_cursor hb hhanded hc ?_
    intro c hgiven
    refine (hmem e.id (List.mem_map.mpr ⟨e, he, rfl⟩)).2 c ?_
    rw [hcursor, hgiven]
    exact given_eq_some.mpr ⟨rfl, (given_eq_some.mp hgiven).2⟩

/-- Every move keeps the books, and the stage they are at. -/
theorem kept_move (hmax : 1 ≤ o.maxAttempts) (hnamed : "" ∉ E.stored store) (hb : Books o v)
    (hs : Stage o v) (hm : Move E o store i v w) : Books o w ∧ Stage o w := by
  cases hm with
  | start hact hlive =>
    simp only [Stage, hact] at hs
    exact ⟨hb.of_eq rfl rfl rfl rfl rfl rfl rfl rfl, hs, rfl, rfl, rfl⟩
  | page hact hq =>
    simp only [Stage, hact] at hs
    exact ⟨hb.of_eq rfl rfl rfl rfl rfl rfl rfl rfl,
      reading_page hb hs.1 hnamed hs.2.1 hs.2.2.1 hs.2.2.2 hq⟩
  | idle hact =>
    refine ⟨hb.of_eq rfl rfl rfl rfl rfl rfl rfl rfl, ?_⟩
    rcases hact with ⟨query, hact⟩ | ⟨events, more, hact⟩
    · simp only [Stage, hact] at hs
      exact hs.1
    · simp only [Stage, hact] at hs
      exact hs.settled
  | again hact =>
    simp only [Stage, hact] at hs
    exact ⟨hb.of_eq rfl rfl rfl rfl rfl rfl rfl rfl, hs.settled, rfl, rfl, rfl⟩
  | @hand e rest more hact hlive =>
    simp only [Stage, hact] at hs
    have hid : e.id ≠ "" := by
      intro heq
      exact hs.named (by simp [heq])
    exact ⟨hb.hand (hs.above hlive e (by simp)) hid, 0, rfl, hs.hand hb hlive hmax⟩
  | abandon hact hgone =>
    refine ⟨hb.of_eq rfl rfl rfl rfl rfl rfl rfl rfl, ?_⟩
    rcases hact with hact | hact | hact
    · simp only [Stage, hact] at hs
      obtain ⟨made, _, hd⟩ := hs
      exact hd.abandon hgone
    · simp only [Stage, hact] at hs
      obtain ⟨made, _, hd⟩ := hs
      exact hd.abandon hgone
    · simp only [Stage, hact] at hs
      exact hs.1.abandon hgone
  | throttle l hact hn =>
    simp only [Stage, hact] at hs
    obtain ⟨made, heq, hd⟩ := hs
    exact ⟨hb.of_eq rfl rfl rfl rfl rfl rfl rfl rfl, made, heq,
      hd.on rfl rfl rfl rfl rfl rfl rfl rfl hd.low hd.high⟩
  | wake hact =>
    simp only [Stage, hact] at hs
    obtain ⟨made, heq, hd⟩ := hs
    exact ⟨hb.of_eq rfl rfl rfl rfl rfl rfl rfl rfl, made, heq,
      hd.on rfl rfl rfl rfl rfl rfl rfl rfl hd.low hd.high⟩
  | grant l hact hn =>
    simp only [Stage, hact] at hs
    obtain ⟨made, heq, hd⟩ := hs
    exact ⟨hb.of_eq rfl rfl rfl rfl rfl rfl rfl rfl, made, heq,
      hd.on rfl rfl rfl rfl rfl rfl rfl rfl hd.low hd.high⟩
  | send now hact hlive =>
    simp only [Stage, hact] at hs
    obtain ⟨made, heq, hd⟩ := hs
    exact ⟨hb.send now heq hd, hd.send now heq⟩
  | deliver hact hok =>
    simp only [Stage, hact] at hs
    refine ⟨hb.finish hs ⟨rfl, rfl⟩ ⟨rfl, hs.attempts⟩ ⟨rfl, rfl, rfl, rfl, rfl⟩, ?_⟩
    exact hs.finish rfl rfl rfl rfl
  | backOff lastError hact hfail hworth hlt =>
    simp only [Stage, hact] at hs
    refine ⟨hb.hear (by simp [Answer.final, hfail, hworth]), ?_, hlt⟩
    exact hs.on rfl rfl rfl rfl rfl rfl rfl rfl hs.low hs.high
  | bury job lastError now hact hfail hover =>
    simp only [Stage, hact] at hs
    refine ⟨hb.finish hs ⟨rfl, rfl⟩ ⟨rfl, hs.attempts⟩ ⟨rfl, rfl, rfl, rfl, rfl⟩, ?_⟩
    exact hs.finish rfl rfl rfl rfl
  | exhaust now hact hover =>
    simp only [Stage, hact] at hs
    obtain ⟨made, _, hd⟩ := hs
    have hhigh := hd.high
    omega
  | retry hact hlive =>
    simp only [Stage, hact] at hs
    obtain ⟨hd, hlt⟩ := hs
    refine ⟨hb.of_eq rfl rfl rfl rfl rfl rfl rfl rfl, _, rfl, ?_⟩
    exact hd.on rfl rfl rfl rfl rfl rfl rfl rfl (by omega) (by omega)
  | @resume job hact =>
    simp only [Stage, hact] at hs
    obtain ⟨hasc, hnamed, earlier, hearlier, hdecided⟩ := hs
    refine ⟨hb.of_eq rfl rfl rfl rfl rfl rfl rfl rfl, ?_, (List.pairwise_cons.mp hasc).2, hnamed, ?_⟩
    · intro hlive
      obtain ⟨hhanded, _⟩ := hdecided hlive
      refine ⟨hhanded, ?_⟩
      show some job.event.id = v.decided.getLast?.or v.start
      rw [← hhanded, hearlier]
      simp
    · intro _ e he
      exact above_rest hb hearlier hasc e he
  | remove =>
    refine ⟨hb.of_eq rfl rfl rfl rfl rfl rfl rfl rfl, ?_⟩
    refine hs.give_up ?_ rfl rfl rfl rfl rfl rfl
    intro hlive
    simp [View.gone] at hlive
  | stop =>
    refine ⟨hb.of_eq rfl rfl rfl rfl rfl rfl rfl rfl, ?_⟩
    refine hs.give_up ?_ rfl rfl rfl rfl rfl rfl
    intro hlive
    simp [View.gone] at hlive

end Kept

theorem cursor_of_last {ids : List String} {start cursor : Option String}
    (h : cursor = ids.getLast?.or start) : cursor = start ∨ ∃ id ∈ ids, cursor = some id := by
  cases hl : ids.getLast? with
  | none =>
    rw [hl] at h
    exact .inl h
  | some last =>
    rw [hl] at h
    exact .inr ⟨last, List.mem_of_getLast? hl, h⟩

theorem Delivering.not_passed {job : Job} {n made : Nat} (h : Books o v)
    (hd : Delivering o v job n made) : ¬ v.sub.HasPassed job.event.id := by
  intro hpassed
  obtain ⟨c, hc, hle⟩ := hpassed
  have hmem : job.event.id ∈ v.handed := by simp [hd.handed]
  rcases cursor_of_last hd.cursor with hstart | ⟨id, hid, hcursor⟩
  · have hne : c ≠ "" := by
      intro heq
      rw [heq] at hle
      have hempty : job.event.id = "" := le_antisymm hle (not_lt.mp (not_lt_empty _))
      exact h.named (hempty ▸ hmem)
    have hgiven : given v.start = some c := given_eq_some.mpr ⟨hstart ▸ hc, hne⟩
    exact absurd (h.started _ hmem c hgiven) (not_lt.mpr hle)
  · have heq : id = c := by
      rw [hcursor] at hc
      exact Option.some.inj hc
    have hordered := h.ordered
    rw [hd.handed] at hordered
    have hlt := (List.pairwise_append.mp hordered).2.2 id hid _ (List.mem_singleton_self _)
    exact absurd (heq ▸ hlt) (not_lt.mpr hle)

structure Placed (v : View) : Prop where
  cursor : v.sub.cursor = v.start ∨ ∃ id ∈ v.decided, v.sub.cursor = some id
  passed : ∀ id ∈ v.handed, v.sub.HasPassed id → id ∈ v.decided

theorem Settled.placed (h : Settled v) (hlive : v.gone = false) : Placed v := by
  obtain ⟨hhanded, hcursor⟩ := h hlive
  exact ⟨cursor_of_last hcursor, fun id hid _ => hhanded ▸ hid⟩

theorem Delivering.placed {job : Job} {n made : Nat} (h : Books o v)
    (hd : Delivering o v job n made) : Placed v := by
  refine ⟨cursor_of_last hd.cursor, ?_⟩
  intro id hid hpassed
  rw [hd.handed] at hid
  rcases List.mem_append.mp hid with hold | hlast
  · exact hold
  · rw [List.mem_singleton.mp hlast] at hpassed
    exact absurd hpassed (hd.not_passed h)

theorem Stage.placed (h : Books o v) (hs : Stage o v) (hlive : v.gone = false) : Placed v := by
  unfold Stage at hs
  cases hact : v.activity with
  | none =>
    rw [hact] at hs
    exact hs.placed hlive
  | some a =>
    rw [hact] at hs
    cases a with
    | querying query => exact hs.1.placed hlive
    | ready events more => exact hs.settled.placed hlive
    | attempting job n =>
      obtain ⟨made, _, hd⟩ := hs
      exact hd.placed h
    | throttled job n =>
      obtain ⟨made, _, hd⟩ := hs
      exact hd.placed h
    | admitted job n =>
      obtain ⟨made, _, hd⟩ := hs
      exact hd.placed h
    | posting job n => exact hs.placed h
    | backingOff job n => exact hs.1.placed h
    | returned job =>
      obtain ⟨earlier, hearlier, hdone⟩ := hs.handed
      obtain ⟨hhanded, hcursor⟩ := hdone hlive
      refine ⟨?_, fun id hid _ => hhanded ▸ hid⟩
      rcases cursor_of_last hcursor with hstart | ⟨id, hid, hc⟩
      · exact .inl hstart
      · refine .inr ⟨id, ?_, hc⟩
        rw [← hhanded, hearlier]
        exact List.mem_append_left _ hid

structure Later (v w : View) : Prop where
  outcomes : v.outcomes <+: w.outcomes
  gone : v.gone = true → w.gone = true ∧ w.attempts = v.attempts

theorem Later.refl (v : View) : Later v v := ⟨List.prefix_refl _, fun h => ⟨h, rfl⟩⟩

theorem Later.trans {u : View} (h : Later v w) (g : Later w u) : Later v u := by
  refine ⟨h.outcomes.trans g.outcomes, ?_⟩
  intro hgone
  obtain ⟨hw, hvw⟩ := h.gone hgone
  obtain ⟨hu, hwu⟩ := g.gone hw
  exact ⟨hu, hwu.trans hvw⟩

theorem later_of_move {σ : Type} {E : EventStore σ} {store : σ} {i : Nat}
    (h : Move E o store i v w) : Later v w := by
  cases h with
  | send now hact hlive =>
    refine ⟨List.prefix_refl _, ?_⟩
    intro hgone
    rw [hlive] at hgone
    cases hgone
  | deliver hact hok => exact ⟨List.prefix_append _ _, fun hgone => ⟨hgone, rfl⟩⟩
  | bury job lastError now hact hfail hover =>
    exact ⟨List.prefix_append _ _, fun hgone => ⟨hgone, rfl⟩⟩
  | exhaust now hact hover => exact ⟨List.prefix_append _ _, fun hgone => ⟨hgone, rfl⟩⟩
  | remove => exact ⟨List.prefix_refl _, fun _ => ⟨by simp [View.gone], rfl⟩⟩
  | stop => exact ⟨List.prefix_refl _, fun _ => ⟨by simp [View.gone], rfl⟩⟩
  | _ => exact ⟨List.prefix_refl _, fun hgone => ⟨hgone, rfl⟩⟩

end Moves

/-! ### The whole -/

section Whole

variable {σ : Type} {E : EventStore σ} {o : WebhookOptions} {s t : Webhooks σ}

theorem kept_of_reachable (hmax : 1 ≤ o.maxAttempts)
    (h : Reachable Initial (NamedStep E o) s) : Viewed (fun _ v => Books o v ∧ Stage o v) s := by
  refine viewed_of_reachable (Q := fun store => "" ∉ E.stored store) (fun _ hs => hs)
    (fun _ _ hst => hst) ?_ ?_ h
  · intro i stopped s r
    refine ⟨?_, fun _ => ⟨rfl, rfl⟩⟩
    refine ⟨by simp [View.new], by simp [View.new], by simp [View.new], List.prefix_refl _,
      by simp [View.new], by simp [View.new], by simp [View.new], by simp [View.new], rfl, rfl, ?_⟩
    simp [View.new, View.letters, subscribe]
  · intro i store v w hnamed hkept hm
    exact kept_move hmax hnamed hkept.1 hkept.2 hm

theorem later_of_run (hs : Single s) (h : Relation.ReflTransGen (NamedStep E o) s t) :
    Single t ∧ ∀ (i : Nat) (sub : Subscription), s.subs[i]? = some sub →
      ∃ next, t.subs[i]? = some next ∧ Later (s.viewOf i sub) (t.viewOf i next) := by
  induction h with
  | refl => exact ⟨hs, fun i sub hsub => ⟨sub, hsub, .refl _⟩⟩
  | tail _ hst ih =>
    obtain ⟨hsingle, hviews⟩ := ih
    have hmoves := hst.1.moves hsingle
    refine ⟨hmoves.single, ?_⟩
    intro i sub hsub
    obtain ⟨mid, hmid, hlater⟩ := hviews i sub hsub
    obtain ⟨next, hnext, hmove⟩ := hmoves.views i mid hmid
    refine ⟨next, hnext, hlater.trans ?_⟩
    rcases hmove with hsame | hmv
    · rw [hsame]
      exact .refl _
    · exact later_of_move hmv

/-- What the dispatcher's records say in any state. -/
structure Accounted (o : WebhookOptions) (s : Webhooks σ) : Prop where
  /-- At most one delivery in progress for a subscription. -/
  onePump : (s.pumps.map Pump.sub).Nodup
  handedInOrder : ∀ i, (s.handedBy i).Pairwise (· < ·)
  attemptedInOrder : ∀ i, (s.attemptsBy i).Pairwise Attempt.Before
  decidedOnce : ∀ i, ((s.outcomesBy i).map Outcome.eventId).Nodup
  attempts : ∀ i, ∀ r ∈ s.outcomesBy i, 1 ≤ r.attempts ∧ r.attempts ≤ o.maxAttempts ∧
    (s.attemptsBy i).countP (fun a => a.eventId == r.eventId) = r.attempts
  finals : ∀ i, ∀ r ∈ s.repliesBy i, r.answer.final = true →
    ∀ a ∈ s.attemptsBy i, a.eventId = r.eventId → a.number ≤ r.number
  passed : ∀ (i : Nat) (sub : Subscription), s.subs[i]? = some sub → s.gone sub = false →
    ∀ id ∈ s.handedBy i, sub.HasPassed id → id ∈ (s.outcomesBy i).map Outcome.eventId
  cursor : ∀ (i : Nat) (sub : Subscription), s.subs[i]? = some sub → s.gone sub = false →
    sub.cursor = s.starts i ∨
      ∃ id ∈ (s.outcomesBy i).map Outcome.eventId, sub.cursor = some id
  counted : ∀ (i : Nat) (sub : Subscription), s.subs[i]? = some sub →
    sub.delivered = (s.outcomesBy i).countP (fun r => r.letter.isNone) ∧
    sub.deadLettered = ((s.outcomesBy i).filterMap Outcome.letter).length
  letters : ∀ (i : Nat) (sub : Subscription), s.subs[i]? = some sub →
    sub.deadLetters.length = min sub.deadLettered o.deadLetterLimit ∧
    sub.deadLetters <:+ (s.outcomesBy i).filterMap Outcome.letter

theorem books_or_blank (h : Viewed (fun _ v => Books o v ∧ Stage o v) s) (i : Nat) :
    (∃ sub, s.subs[i]? = some sub ∧ Books o (s.viewOf i sub)) ∨
      (s.handedBy i = [] ∧ s.attemptsBy i = [] ∧ s.repliesBy i = [] ∧ s.outcomesBy i = []) := by
  cases hsub : s.subs[i]? with
  | some sub => exact .inl ⟨sub, rfl, (h.views i sub hsub).1⟩
  | none => exact .inr (h.blank i (List.getElem?_eq_none_iff.mp hsub))

theorem accounted_of_viewed (h : Viewed (fun _ v => Books o v ∧ Stage o v) s) : Accounted o s := by
  refine ⟨h.single.one, ?_, ?_, ?_, ?_, ?_, ?_, ?_, ?_, ?_⟩
  · intro i
    rcases books_or_blank h i with ⟨sub, _, hb⟩ | ⟨hhanded, _⟩
    · exact hb.ordered
    · simp [hhanded]
  · intro i
    rcases books_or_blank h i with ⟨sub, _, hb⟩ | ⟨_, hattempts, _⟩
    · exact hb.inOrder
    · simp [hattempts]
  · intro i
    rcases books_or_blank h i with ⟨sub, _, hb⟩ | ⟨_, _, _, houtcomes⟩
    · exact (hb.ordered.sublist hb.decided.sublist).imp (fun hlt => hlt.ne)
    · simp [houtcomes]
  · intro i
    rcases books_or_blank h i with ⟨sub, _, hb⟩ | ⟨_, _, _, houtcomes⟩
    · exact hb.ended
    · simp [houtcomes]
  · intro i
    rcases books_or_blank h i with ⟨sub, _, hb⟩ | ⟨_, _, hreplies, _⟩
    · intro r hr hfinal
      exact (hb.finals r hr hfinal).2
    · simp [hreplies]
  · intro i sub hsub hlive
    obtain ⟨hb, hs⟩ := h.views i sub hsub
    exact (hs.placed hb hlive).passed
  · intro i sub hsub hlive
    obtain ⟨hb, hs⟩ := h.views i sub hsub
    exact (hs.placed hb hlive).cursor
  · intro i sub hsub
    obtain ⟨hb, _⟩ := h.views i sub hsub
    exact ⟨hb.delivered, hb.deadLettered⟩
  · intro i sub hsub
    obtain ⟨hb, _⟩ := h.views i sub hsub
    have hletters : sub.deadLetters = (s.viewOf i sub).letters.drop
      ((s.viewOf i sub).letters.length - o.deadLetterLimit) := hb.deadLetters
    have hcount : sub.deadLettered = (s.viewOf i sub).letters.length := hb.deadLettered
    refine ⟨?_, ?_⟩
    · rw [hletters, hcount, List.length_drop]
      omega
    · rw [hletters]
      exact List.drop_suffix _ _

/-- The accounts of the dispatcher, in every state it reaches and from it on. -/
theorem webhook_accounting (hmax : 1 ≤ o.maxAttempts)
    (h : Reachable Initial (NamedStep E o) s) :
    Accounted o s ∧ ∀ t, Relation.ReflTransGen (NamedStep E o) s t →
      ∀ (i : Nat) (sub : Subscription), s.subs[i]? = some sub →
        s.outcomesBy i <+: t.outcomesBy i ∧
          (s.gone sub = true → t.attemptsBy i = s.attemptsBy i) := by
  have hviewed := kept_of_reachable hmax h
  refine ⟨accounted_of_viewed hviewed, ?_⟩
  intro t hrun i sub hsub
  obtain ⟨next, _, hlater⟩ := (later_of_run hviewed.single hrun).2 i sub hsub
  exact ⟨hlater.outcomes, fun hgone => (hlater.gone hgone).2⟩

theorem webhook_accounting_one_request : ∃ s : Webhooks Db,
    s.attemptsBy 0 = [⟨0, "h", "b", 1, 0⟩] ∧ Accounted {} s := by
  obtain ⟨s, t, more, hs, hstore, hclock, hhost, ht⟩ := plain_request
  have hnamed : "" ∉ (sqliteStore plainReader).stored s.store := by
    rw [hstore]
    decide
  refine ⟨t, ?_, (webhook_accounting (by decide) (named_of_run hs hnamed ht.run)).1⟩
  rw [attemptsBy, ht.attempts, hclock]
  rfl

/-- A 500 and then a 400: two attempts, the second of them not worth retrying. -/
theorem refused_at_second_attempt :
    ¬ ∀ s : Webhooks Db, Reachable Initial (NamedStep (sqliteStore plainReader) {}) s →
      ∀ i, ∀ r ∈ s.repliesBy i, r.answer.success = false → r.answer.worthRetry = false →
        (s.attemptsBy i).countP (fun a => a.eventId == r.eventId) = 1 := by
  intro hclaim
  obtain ⟨s, t, more, hs, hstore, hclock, hhost, ht⟩ := plain_request
  have hnamed : "" ∉ (sqliteStore plainReader).stored s.store := by
    rw [hstore]
    decide
  rw [hclock] at ht
  have hspent : (Function.update s.hostLimiters "h"
      (some (((RateLimiter.new 120 0).waitMs 0).2.consume 0)) "h").getD (.new 120 0) =
        ((RateLimiter.new 120 0).waitMs 0).2.consume 0 := by
    rw [Function.update_self]
    rfl
  obtain ⟨_, ht⟩ := ht.backOff 500 (by decide) (by decide) (by decide)
  obtain ⟨_, ht⟩ := ht.retry
  have hwait : JsNumber.max ((((RateLimiter.new 60 0).waitMs 0).2.consume 0).waitMs 0).1
      ((((RateLimiter.new 120 0).waitMs 0).2.consume 0).waitMs 0).1 = .fin 0 := by
    decide +kernel
  obtain ⟨_, ht⟩ := ht.grant (by decide) rfl hspent hwait
  obtain ⟨_, ht⟩ := ht.send
  obtain ⟨u, hrun, hattempts, hreplies⟩ := ht.refuse 400 (by decide) (by decide)
  have hu := named_of_run hs hnamed hrun
  have hmem : (⟨0, "b", 2, .status 400⟩ : Reply) ∈ u.repliesBy 0 := by
    refine List.mem_filter.mpr ⟨?_, rfl⟩
    rw [hreplies]
    exact List.mem_append_right _ (List.mem_singleton.mpr rfl)
  have hone := hclaim u hu 0 _ hmem (by decide) (by decide)
  rw [attemptsBy, hattempts] at hone
  have htwo : 2 = 1 := hone
  cases htwo

end Whole

end Webhooks

end SorobanLens
