import SorobanLens.Api.WebhookViews

/-!
What a cursor over ids covers. A matching event stored after a subscription
registered is delivered as long as every event arrives past the cursor and past the
page being delivered; one that arrives behind them is passed over.
-/

set_option autoImplicit false

namespace SorobanLens

namespace Activity

def job? : Activity → Option Job
  | .attempting job _ | .throttled job _ | .admitted job _ | .posting job _ | .backingOff job _
  | .returned job => some job
  | .querying _ | .ready _ _ => none

def pending : Activity → List String
  | .ready events _ => events.map LensEvent.id
  | .querying _ => []
  | .attempting job _ | .throttled job _ | .admitted job _ | .posting job _ | .backingOff job _
  | .returned job => job.rest.map LensEvent.id

def inFlight (a : Activity) : List String := (a.job?.map (fun job => job.event.id)).toList ++ a.pending

end Activity

namespace Webhooks

namespace View

def pending (v : View) : List String := (v.activity.map Activity.pending).getD []

def inFlight (v : View) : List String := (v.activity.map Activity.inFlight).getD []

end View

/-- The page in hand ascends, and the next one is asked for from the cursor on. -/
structure Paged (v : View) : Prop where
  ascending : v.inFlight.Pairwise (· < ·)
  query : ∀ q, v.activity = some (.querying q) → q.order = some .asc ∧ q.direction = none ∧
    q.filter = v.sub.filter.query.filter ∧ q.cursor = given v.sub.cursor

/-- An event is still to come: past the cursor and the event being delivered, and
either in the page in hand or past all of it. -/
structure Awaits (v : View) (id : String) : Prop where
  cursor : ∀ c, v.sub.cursor = some c → c < id
  current : ∀ x ∈ v.inFlight, x ∉ v.pending → x < id
  page : id ∈ v.pending ∨ ∀ x ∈ v.pending, x < id

structure SamePlace (v w : View) : Prop where
  cursor : w.sub.cursor = v.sub.cursor
  filter : w.sub.filter = v.sub.filter
  handed : w.handed = v.handed

inductive Paging {σ : Type} (E : EventStore σ) (store : σ) (v w : View) : Prop where
  | same : SamePlace v w → w.inFlight = v.inFlight → w.pending = v.pending →
      (∀ q, w.activity = some (.querying q) → v.activity = some (.querying q)) → Paging E store v w
  | ask (q : EventQuery) : SamePlace v w → w.activity = some (.querying q) → q.order = some .asc →
      q.direction = none → q.filter = v.sub.filter.query.filter → q.cursor = given v.sub.cursor →
      Paging E store v w
  | read (q : EventQuery) (page : EventPage) (more : Bool) : SamePlace v w →
      v.activity = some (.querying q) → E.queryEvents q store page →
      w.activity = some (.ready page.events more) → Paging E store v w
  | drop : SamePlace v w → w.activity = none → Paging E store v w
  | hand (e : LensEvent) (rest : List LensEvent) (more : Bool) :
      v.activity = some (.ready (e :: rest) more) →
      w.activity = some (.attempting ⟨e, rest, more, 0, "unknown error"⟩ 1) →
      w.sub.cursor = v.sub.cursor → w.sub.filter = v.sub.filter → w.handed = v.handed ++ [e.id] →
      Paging E store v w
  | resume (job : Job) : v.activity = some (.returned job) →
      w.activity = some (.ready job.rest job.more) → w.sub.cursor = some job.event.id →
      w.sub.filter = v.sub.filter → w.handed = v.handed → Paging E store v w

section Moves

variable {σ : Type} {E : EventStore σ} {o : WebhookOptions} {store : σ} {i : Nat} {v w : View}

theorem paging_on {a b : Activity} (hact : v.activity = some a) (hnext : w.activity = some b)
    (hplace : SamePlace v w) (hflight : b.inFlight = a.inFlight) (hpending : b.pending = a.pending)
    (hno : ∀ q, b ≠ .querying q) : Paging E store v w := by
  refine .same hplace ?_ ?_ ?_
  · simp only [View.inFlight, hact, hnext, Option.map_some, hflight]
  · simp only [View.pending, hact, hnext, Option.map_some, hpending]
  · intro q hq
    rw [hnext, Option.some.injEq] at hq
    exact absurd hq (hno q)

theorem paging_of_move (hm : Move E o store i v w) : Paging E store v w := by
  cases hm with
  | start hact hlive => exact .ask _ ⟨rfl, rfl, rfl⟩ rfl rfl rfl rfl rfl
  | page hact hq => exact .read _ _ _ ⟨rfl, rfl, rfl⟩ hact hq rfl
  | idle hact => exact .drop ⟨rfl, rfl, rfl⟩ rfl
  | again hact => exact .ask _ ⟨rfl, rfl, rfl⟩ rfl rfl rfl rfl rfl
  | hand hact hlive => exact .hand _ _ _ hact rfl rfl rfl rfl
  | abandon hact hgone =>
    rcases hact with hact | hact | hact
    · exact paging_on hact rfl ⟨rfl, rfl, rfl⟩ rfl rfl (by simp)
    · exact paging_on hact rfl ⟨rfl, rfl, rfl⟩ rfl rfl (by simp)
    · exact paging_on hact rfl ⟨rfl, rfl, rfl⟩ rfl rfl (by simp)
  | throttle l hact hn => exact paging_on hact rfl ⟨rfl, rfl, rfl⟩ rfl rfl (by simp)
  | wake hact => exact paging_on hact rfl ⟨rfl, rfl, rfl⟩ rfl rfl (by simp)
  | grant l hact hn => exact paging_on hact rfl ⟨rfl, rfl, rfl⟩ rfl rfl (by simp)
  | send now hact hlive => exact paging_on hact rfl ⟨rfl, rfl, rfl⟩ rfl rfl (by simp)
  | deliver hact hok => exact paging_on hact rfl ⟨rfl, rfl, rfl⟩ rfl rfl (by simp)
  | backOff lastError hact hfail hworth hn =>
    exact paging_on hact rfl ⟨rfl, rfl, rfl⟩ rfl rfl (by simp)
  | bury job lastError now hact hfail hover =>
    exact paging_on hact rfl ⟨rfl, rfl, rfl⟩ rfl rfl (by simp)
  | exhaust now hact hover => exact paging_on hact rfl ⟨rfl, rfl, rfl⟩ rfl rfl (by simp)
  | retry hact hlive => exact paging_on hact rfl ⟨rfl, rfl, rfl⟩ rfl rfl (by simp)
  | resume hact => exact .resume _ hact rfl rfl rfl rfl
  | remove => exact .same ⟨rfl, rfl, rfl⟩ rfl rfl (fun _ hq => hq)
  | stop => exact .same ⟨rfl, rfl, rfl⟩ rfl rfl (fun _ hq => hq)

theorem paged_new {stopped : Bool} {sub : Subscription} {start : Option String} :
    Paged (.new stopped sub start) := ⟨List.Pairwise.nil, fun q hq => by cases hq⟩

theorem Paging.paged (h : Paged v) (hp : Paging E store v w) : Paged w := by
  cases hp with
  | same hplace hflight hpending hquery =>
    refine ⟨hflight ▸ h.ascending, ?_⟩
    intro q hq
    rw [hplace.filter, hplace.cursor]
    exact h.query q (hquery q hq)
  | ask q hplace hact horder hdir hfilter hcursor =>
    refine ⟨by simp [View.inFlight, hact, Activity.inFlight, Activity.job?, Activity.pending], ?_⟩
    intro q' hq'
    rw [hact, Option.some.injEq, Activity.querying.injEq] at hq'
    subst hq'
    rw [hplace.filter, hplace.cursor]
    exact ⟨horder, hdir, hfilter, hcursor⟩
  | read q page more hplace hact hq hnext =>
    obtain ⟨hasc, hdir, _, _⟩ := h.query q hact
    refine ⟨?_, by simp [hnext]⟩
    simp only [View.inFlight, hnext, Option.map_some, Option.getD_some]
    exact (EventStore.page_ascending hq hasc (isBackward_none hdir)).1
  | drop hplace hnext =>
    exact ⟨by simp [View.inFlight, hnext], by simp [hnext]⟩
  | hand e rest more hact hnext hcursor hfilter hhanded =>
    have hasc := h.ascending
    simp only [View.inFlight, hact, Option.map_some, Option.getD_some] at hasc
    refine ⟨?_, by simp [hnext]⟩
    simp only [View.inFlight, hnext, Option.map_some, Option.getD_some]
    exact hasc
  | resume job hact hnext hcursor hfilter hhanded =>
    have hasc := h.ascending
    simp only [View.inFlight, hact, Option.map_some, Option.getD_some] at hasc
    refine ⟨?_, by simp [hnext]⟩
    simp only [View.inFlight, hnext, Option.map_some, Option.getD_some]
    exact (List.pairwise_cons.mp hasc).2

theorem Paging.filter (hp : Paging E store v w) : w.sub.filter = v.sub.filter := by
  cases hp with
  | same hplace _ _ _ => exact hplace.filter
  | ask _ hplace _ _ _ _ _ => exact hplace.filter
  | read _ _ _ hplace _ _ _ => exact hplace.filter
  | drop hplace _ => exact hplace.filter
  | hand _ _ _ _ _ _ hfilter _ => exact hfilter
  | resume _ _ _ _ hfilter _ => exact hfilter

theorem Paging.handed (hp : Paging E store v w) : v.handed ⊆ w.handed := by
  cases hp with
  | same hplace _ _ _ => simp [hplace.handed]
  | ask _ hplace _ _ _ _ _ => simp [hplace.handed]
  | read _ _ _ hplace _ _ _ => simp [hplace.handed]
  | drop hplace _ => simp [hplace.handed]
  | hand _ _ _ _ _ _ _ hhanded => simp [hhanded]
  | resume _ _ _ _ _ hhanded => simp [hhanded]

theorem awaits_empty {id : String} (hcursor : ∀ c, w.sub.cursor = some c → c < id)
    (hflight : w.inFlight = []) (hpending : w.pending = []) : Awaits w id :=
  ⟨hcursor, by simp [hflight], .inr (by simp [hpending])⟩

/-- An event still to come is still to come after every move but its own handing over. -/
theorem Paging.awaits {id : String} (hpaged : Paged v)
    (hid : id ∈ E.matching v.sub.filter.query store) (h : Awaits v id) (hno : id ∉ w.handed)
    (hp : Paging E store v w) : Awaits w id := by
  cases hp with
  | same hplace hflight hpending hquery =>
    refine ⟨hplace.cursor ▸ h.cursor, ?_, ?_⟩
    · rw [hflight, hpending]
      exact h.current
    · rw [hpending]
      exact h.page
  | ask q hplace hact horder hdir hfilter hcursor =>
    refine awaits_empty (hplace.cursor ▸ h.cursor) ?_ ?_
    · simp [View.inFlight, hact, Activity.inFlight, Activity.job?, Activity.pending]
    · simp [View.pending, hact, Activity.pending]
  | read q page more hplace hact hq hnext =>
    obtain ⟨hasc, hdir, hfilter, hcursor⟩ := hpaged.query q hact
    have hpending : w.pending = page.events.map LensEvent.id := by
      simp [View.pending, hnext, Activity.pending]
    have hflight : w.inFlight = page.events.map LensEvent.id := by
      simp [View.inFlight, hnext, Activity.inFlight, Activity.job?, Activity.pending]
    have hmatch : id ∈ E.matching q store := by
      rw [E.matching_filter, hfilter, ← E.matching_filter]
      exact hid
    have hpast : ∀ c, given q.cursor = some c → c < id := by
      intro c hc
      rw [hcursor] at hc
      exact h.cursor c (given_eq_some.mp (given_eq_some.mp hc).1).1
    refine ⟨hplace.cursor ▸ h.cursor, ?_, ?_⟩
    · rw [hflight, hpending]
      intro x hx hnot
      exact absurd hx hnot
    · rw [hpending]
      by_cases hin : id ∈ page.events.map LensEvent.id
      · exact .inl hin
      · exact .inr (EventStore.page_covers hq hasc (isBackward_none hdir) hmatch hpast hin)
  | drop hplace hnext =>
    refine awaits_empty (hplace.cursor ▸ h.cursor) ?_ ?_
    · simp [View.inFlight, hnext]
    · simp [View.pending, hnext]
  | hand e rest more hact hnext hcursor hfilter hhanded =>
    have hasc := hpaged.ascending
    have hpage := h.page
    simp only [View.inFlight, hact, Option.map_some, Option.getD_some] at hasc
    simp only [View.pending, hact, Option.map_some, Option.getD_some, Activity.pending,
      List.map_cons] at hpage
    have hpending : w.pending = rest.map LensEvent.id := by
      simp [View.pending, hnext, Activity.pending]
    have hflight : w.inFlight = e.id :: rest.map LensEvent.id := by
      simp [View.inFlight, hnext, Activity.inFlight, Activity.job?, Activity.pending]
    have hne : id ≠ e.id := by
      intro heq
      exact hno (by simp [hhanded, heq])
    have hlt : e.id < id := by
      rcases hpage with hmem | hall
      · have hrest := (List.mem_cons.mp hmem).resolve_left hne
        exact (List.pairwise_cons.mp hasc).1 id hrest
      · exact hall e.id (List.mem_cons_self ..)
    refine ⟨hcursor ▸ h.cursor, ?_, ?_⟩
    · rw [hflight, hpending]
      intro x hx hnot
      rw [(List.mem_cons.mp hx).resolve_right hnot]
      exact hlt
    · rw [hpending]
      rcases hpage with hmem | hall
      · exact .inl ((List.mem_cons.mp hmem).resolve_left hne)
      · exact .inr (fun x hx => hall x (List.mem_cons_of_mem _ hx))
  | resume job hact hnext hcursor hfilter hhanded =>
    have hasc := hpaged.ascending
    have hcurrent := h.current
    have hpage := h.page
    simp only [View.inFlight, View.pending, hact, Option.map_some, Option.getD_some,
      Activity.inFlight, Activity.job?, Activity.pending] at hasc hcurrent hpage
    have hpending : w.pending = job.rest.map LensEvent.id := by
      simp [View.pending, hnext, Activity.pending]
    have hflight : w.inFlight = job.rest.map LensEvent.id := by
      simp [View.inFlight, hnext, Activity.inFlight, Activity.job?, Activity.pending]
    have hnew : job.event.id ∉ job.rest.map LensEvent.id := by
      intro hmem
      exact absurd ((List.pairwise_cons.mp hasc).1 _ hmem) (lt_irrefl _)
    refine ⟨?_, ?_, ?_⟩
    · intro c hc
      rw [hcursor, Option.some.injEq] at hc
      rw [← hc]
      exact hcurrent _ (List.mem_cons_self ..) hnew
    · rw [hflight, hpending]
      intro x hx hnot
      exact absurd hx hnot
    · rw [hpending]
      exact hpage

/-- Nothing comes back: a removed subscription stays removed, a stopped manager stopped. -/
theorem Move.live (hm : Move E o store i v w) (h : w.gone = false) : v.gone = false := by
  cases hm with
  | remove => simp [View.gone] at h
  | stop => simp [View.gone] at h
  | _ => exact h

end Moves

/-! ### Runs -/

section Runs

variable {σ : Type} {E : EventStore σ} {o : WebhookOptions} {s t : Webhooks σ}

/-- No cursor is past an event stored since registration and never handed over. -/
def Covered (E : EventStore σ) (s : Webhooks σ) : Prop :=
  ∀ (i : Nat) (sub : Subscription), s.subs[i]? = some sub → s.gone sub = false →
    ∀ id, s.fresh i id → id ∈ E.matching sub.filter.query s.store → sub.HasPassed id →
      id ∈ s.handedBy i

/-- What a step stores lies past every live subscription's cursor and past the page in
hand, if it is not in that page. -/
def Ahead (E : EventStore σ) (s t : Webhooks σ) : Prop :=
  ∀ (i : Nat) (sub : Subscription), s.subs[i]? = some sub → s.gone sub = false →
    ∀ id ∈ E.matching sub.filter.query t.store, id ∉ E.stored s.store → id ∉ s.handedBy i →
      (∀ c, sub.cursor = some c → c < id) ∧
        (id ∈ (s.viewOf i sub).pending ∨ ∀ x ∈ (s.viewOf i sub).inFlight, x < id)

def AheadStep (E : EventStore σ) (o : WebhookOptions) (s t : Webhooks σ) : Prop :=
  Step E o s t ∧ Ahead E s t

theorem awaits_of_ahead {v : View} {id : String} (hpaged : Paged v)
    (hcursor : ∀ c, v.sub.cursor = some c → c < id)
    (hpage : id ∈ v.pending ∨ ∀ x ∈ v.inFlight, x < id) : Awaits v id := by
  have hsplit : ∃ current : List String, v.inFlight = current ++ v.pending := by
    cases hact : v.activity with
    | none => exact ⟨[], by simp [View.inFlight, View.pending, hact]⟩
    | some a =>
      refine ⟨(a.job?.map (fun job => job.event.id)).toList, ?_⟩
      simp [View.inFlight, View.pending, hact, Activity.inFlight]
  obtain ⟨current, hflight⟩ := hsplit
  have hasc := hpaged.ascending
  rw [hflight, List.pairwise_append] at hasc
  refine ⟨hcursor, ?_, ?_⟩
  · intro x hx hnot
    rw [hflight] at hx hpage
    have hin := (List.mem_append.mp hx).resolve_right hnot
    rcases hpage with hmem | hall
    · exact hasc.2.2 x hin id hmem
    · exact hall x hx
  · rcases hpage with hmem | hall
    · exact .inl hmem
    · refine .inr (fun x hx => hall x ?_)
      rw [hflight]
      exact List.mem_append_right _ hx

def SameStore (s t : Webhooks σ) : Prop := t.store = s.store ∧ t.fresh = s.fresh

structure Written (E : EventStore σ) (s t : Webhooks σ) : Prop where
  settled : E.Settled s.store t.store
  subs : t.subs = s.subs
  views : ∀ i sub, t.viewOf i sub = s.viewOf i sub
  fresh : ∀ i id, t.fresh i id → s.fresh i id ∨ (i < s.subs.length ∧ id ∉ E.stored s.store)

theorem same_loop {k i : Nat} {sub : Subscription} {events : List LensEvent} {more : Bool} :
    SameStore s (s.loop o k i sub events more) := by
  unfold loop
  cases events with
  | nil => cases more <;> exact ⟨rfl, rfl⟩
  | cons e rest =>
    dsimp only
    split <;> exact ⟨rfl, rfl⟩

theorem same_attempt {k i n : Nat} {sub : Subscription} {job : Job} (r : Readings s.clock) :
    SameStore s (s.attempt o k i sub job n r) := by
  simp only [attempt]
  split
  · exact ⟨rfl, rfl⟩
  · split
    · exact ⟨rfl, rfl⟩
    · split <;> exact ⟨rfl, rfl⟩

theorem same_retryOrGiveUp {u : Webhooks σ} {k i n : Nat} {job : Job} (h : SameStore s u) :
    SameStore s (u.retryOrGiveUp o k i job n) := by
  unfold retryOrGiveUp
  split <;> exact h

theorem same_answer {k i n : Nat} {job : Job} (a : Answer) :
    SameStore s (s.answer o k i job n a) := by
  cases a with
  | error message => exact same_retryOrGiveUp ⟨rfl, rfl⟩
  | status code =>
    simp only [answer]
    split
    · exact ⟨rfl, rfl⟩
    · split
      · exact same_retryOrGiveUp ⟨rfl, rfl⟩
      · exact ⟨rfl, rfl⟩

theorem Step.stored (h : Step E o s t) : SameStore s t ∨ Written E s t := by
  cases h with
  | insert hins => exact .inr ⟨hins.settled, rfl, fun _ _ => rfl, fun i id hf =>
      hf.imp_right (fun hnew => ⟨hnew.1, hnew.2.2⟩)⟩
  | prune hpr => exact .inr ⟨hpr.settled, rfl, fun _ _ => rfl, fun _ _ hf => .inl hf⟩
  | loop _ _ => exact .inl same_loop
  | attempt r _ _ => exact .inl (same_attempt r)
  | post _ _ =>
    left
    unfold Webhooks.post
    split <;> exact ⟨rfl, rfl⟩
  | answer a _ => exact .inl (same_answer a)
  | retry _ _ =>
    left
    unfold Webhooks.retry
    split <;> exact ⟨rfl, rfl⟩
  | _ => exact .inl ⟨rfl, rfl⟩

/-- Everything stored since a live subscription registered was handed to it or is
still to come. -/
structure Awaiting (E : EventStore σ) (s : Webhooks σ) : Prop where
  paged : Viewed (fun _ v => Paged v) s
  unborn : ∀ i, s.subs.length ≤ i → ∀ id, ¬ s.fresh i id
  awaits : ∀ (i : Nat) (sub : Subscription), s.subs[i]? = some sub → s.gone sub = false →
    ∀ id, s.fresh i id → id ∈ E.matching sub.filter.query s.store → id ∉ s.handedBy i →
      Awaits (s.viewOf i sub) id

theorem Awaiting.moved (h : Awaiting E s) (hmoves : Moves E o s t) :
    Viewed (fun _ v => Paged v) t :=
  h.paged.moves hmoves (fun _ _ _ => paged_new)
    (fun _ _ _ hp hm => Paging.paged hp (paging_of_move hm))

theorem Awaiting.written (h : Awaiting E s) (hw : Written E s t) (hahead : Ahead E s t)
    (hmoves : Moves E o s t) : Awaiting E t := by
  refine ⟨h.moved hmoves, ?_, ?_⟩
  · intro i hi id hf
    rw [hw.subs] at hi
    rcases hw.fresh i id hf with hold | ⟨hlt, _⟩
    · exact h.unborn i hi id hold
    · omega
  · intro i sub hsub hlive id hf hid hno
    have hview := hw.views i sub
    have hhanded : t.handedBy i = s.handedBy i := congrArg View.handed hview
    have hgone : s.gone sub = false := by
      have hstopped : t.stopped = s.stopped := congrArg View.stopped hview
      simpa only [gone, hstopped] using hlive
    rw [hw.subs] at hsub
    rw [hhanded] at hno
    rw [hview]
    by_cases hin : id ∈ E.stored s.store
    · have hold : s.fresh i id := by
        rcases hw.fresh i id hf with hold | ⟨_, hnew⟩
        · exact hold
        · exact absurd hin hnew
      have hmatch := (hw.settled _ id hin (E.isStored _ _ id hid)).mp hid
      exact h.awaits i sub hsub hgone id hold hmatch hno
    · obtain ⟨hcursor, hpage⟩ := hahead i sub hsub hgone id hid hin hno
      exact awaits_of_ahead (h.paged.views i sub hsub) hcursor hpage

theorem Awaiting.same (h : Awaiting E s) (hs : SameStore s t) (hmoves : Moves E o s t) :
    Awaiting E t := by
  obtain ⟨hstore, hfresh⟩ := hs
  refine ⟨h.moved hmoves, ?_, ?_⟩
  · intro i hi
    rw [hfresh]
    refine h.unborn i ?_
    rcases hmoves.joined with heq | ⟨r, heq, _⟩
    · omega
    · simp only [heq, List.length_append, List.length_singleton] at hi
      omega
  · intro i next hnext hlive id hf hid hno
    rw [hfresh] at hf
    rw [hstore] at hid
    have hlt : i < s.subs.length := by
      by_contra hge
      exact h.unborn i (by omega) id hf
    obtain ⟨sub, hsub⟩ : ∃ sub, s.subs[i]? = some sub := ⟨_, List.getElem?_eq_getElem hlt⟩
    obtain ⟨other, hother, hview⟩ := hmoves.views i sub hsub
    rw [hnext, Option.some.injEq] at hother
    subst hother
    rcases hview with hsame | hmv
    · have hsubs : next = sub := congrArg View.sub hsame
      have hhanded : t.handedBy i = s.handedBy i := congrArg View.handed hsame
      have hgone : (t.viewOf i next).gone = (s.viewOf i sub).gone := congrArg View.gone hsame
      have hlive' : (s.viewOf i sub).gone = false := hgone.symm.trans hlive
      rw [hsubs] at hid
      rw [hhanded] at hno
      rw [hsame]
      exact h.awaits i sub hsub hlive' id hf hid hno
    · have hpaging := paging_of_move hmv
      have hmatch : id ∈ E.matching sub.filter.query s.store := by
        have hfilter : next.filter = sub.filter := hpaging.filter
        rw [← hfilter]
        exact hid
      have hold : id ∉ s.handedBy i := fun hmem => hno (hpaging.handed hmem)
      exact hpaging.awaits (h.paged.views i sub hsub) hmatch
        (h.awaits i sub hsub (hmv.live hlive) id hf hmatch hold) hno

theorem awaiting_of_reachable (h : Reachable Initial (AheadStep E o) s) : Awaiting E s := by
  refine Reachable.invariant ?_ ?_ h
  · intro s hs
    refine ⟨viewed_initial hs, ?_, ?_⟩
    · intro i _ id
      exact hs.2.2.2.2.2.2.2.2.2.2 i id
    · intro i sub hsub
      simp [hs.2.1] at hsub
  · intro s t hawaiting hstep
    have hmoves := hstep.1.moves hawaiting.paged.single
    rcases hstep.1.stored with hsame | hwritten
    · exact hawaiting.same hsame hmoves
    · exact hawaiting.written hwritten hstep.2 hmoves

/-- While every event arrives ahead of the subscriptions, none is passed over. -/
theorem covered_of_ahead (h : Reachable Initial (AheadStep E o) s) : Covered E s := by
  intro i sub hsub hlive id hf hid hpassed
  by_contra hno
  obtain ⟨c, hc, hle⟩ := hpassed
  exact absurd hle (not_le.mpr
    (((awaiting_of_reachable h).awaits i sub hsub hlive id hf hid hno).cursor c hc))

theorem ahead_of_same (h : t.store = s.store) : Ahead E s t := by
  intro i sub _ _ id hid hnew
  rw [h] at hid
  exact absurd (E.isStored _ _ id hid) hnew

theorem ahead_of_start (hcursors : ∀ sub ∈ s.subs, sub.cursor = none) (hpumps : s.pumps = []) :
    Ahead E s t := by
  intro i sub hsub _ id _ _ _
  have hcursor := hcursors sub (List.mem_of_getElem? hsub)
  refine ⟨by simp [hcursor], .inr ?_⟩
  simp [View.inFlight, viewOf, activityIn, hpumps]

theorem aheadStep_of_steady {store : σ} (s t : Webhooks σ) (h : Steady E o store s t) :
    AheadStep E o s t :=
  ⟨h.1, ahead_of_same (h.2.2.trans h.2.1.symm)⟩

theorem covered_of_ahead_one_event : ∃ s : Webhooks Db,
    s.fresh 0 "b" ∧ Covered (sqliteStore plainReader) s := by
  have hsteady := plain_registered (o := {}) [] [] none (by decide) (by decide)
    ⟨rfl, by decide⟩ rfl rfl
  have h := hsteady.mono aheadStep_of_steady
  have hbatch : insertDecoded plainRuntime ⟨true⟩ [plainEvent "b"] (plainDb []) =
      (.ok 1, plainDb ["b"]) := rfl
  have hins := inserted_insertDecoded plainReader hbatch
  have hnew : "b" ∈ (plainDb ["b"]).storedIds ∧ "b" ∉ (plainDb []).storedIds := by decide
  have hcursors : ∀ sub ∈ [plainSub {} none], sub.cursor = none := by simp [plainSub, subscribe]
  have hreached := h.next ⟨Step.insert hins, ahead_of_start hcursors rfl⟩
  exact ⟨_, Or.inr ⟨Nat.zero_lt_one, hnew⟩, covered_of_ahead hreached⟩

/-- The second event of two stored sorts before the first, where the cursor is. -/
theorem passed_over_behind : ¬ ∀ s : Webhooks Db,
    Reachable Initial (Step (sqliteStore plainReader) {}) s → Covered (sqliteStore plainReader) s := by
  intro hclaim
  have hlimit : normaliseLimit plainReader.maxLimit (latestQuery {}).limit = 1 := by
    decide +kernel
  have hpage : (pageWindow plainReader (latestQuery {}) (plainDb ["b"])).page =
      ["b"].map plainRow := by
    rw [pageWindow, hlimit]
    rfl
  have hsteady := plain_registered (o := {}) ["b"] ["b"] (some "b") (by decide) (by decide)
    ⟨rfl, by decide⟩ hpage rfl
  have h := hsteady.mono (fun _ _ hst => hst.1)
  have hbatch : insertDecoded plainRuntime ⟨true⟩ [plainEvent "a"] (plainDb ["b"]) =
      (.ok 1, plainDb ["b", "a"]) := rfl
  have hins := inserted_insertDecoded plainReader hbatch
  have hcovered := hclaim _ (h.next (Step.insert hins))
  have hmatch : "a" ∈ (sqliteStore plainReader).matching ({} : WebhookFilter).query
      (plainDb ["b", "a"]) := by
    show "a" ∈ (matchingRows plainReader.text ({} : WebhookFilter).query
      (plainDb ["b", "a"])).map EventRow.id
    decide
  have hnew : "a" ∈ (plainDb ["b", "a"]).storedIds ∧ "a" ∉ (plainDb ["b"]).storedIds := by decide
  have hhanded := hcovered 0 (plainSub {} (some "b")) rfl rfl "a"
    (Or.inr ⟨Nat.zero_lt_one, hnew⟩) hmatch ⟨"b", rfl, by decide⟩
  cases hhanded

end Runs

end Webhooks

end SorobanLens
