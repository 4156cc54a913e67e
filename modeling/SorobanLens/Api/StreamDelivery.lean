import SorobanLens.Api.Stream

/-!
What a stream has written at any moment: the matching events between where it opened
and its position, each once and in order.
-/

set_option autoImplicit false

namespace SorobanLens

def Polling.latest? : Polling → Option String
  | .idle | .reading => none
  | .read latest | .walking latest _ | .awaiting latest _ => some latest

namespace EventStreamHub

variable {σ : Type}

structure Fetched (E : EventStore σ) (store : σ) (sub : Subscriber) (latest : String)
    (page : EventPage) : Prop where
  ascending : (page.events.map LensEvent.id).Pairwise (· < ·)
  matching : ∀ id ∈ page.events.map LensEvent.id,
    id ∈ E.matching sub.query store ∧ sub.lastId < id
  covers : ∀ id ∈ E.matching sub.query store, sub.lastId < id →
    id ∉ page.events.map LensEvent.id → (∀ x ∈ page.events.map LensEvent.id, x < id) ∧
      (given page.nextCursor = none → latest < id)
  more : given page.nextCursor ≠ none → page.events ≠ []

structure Kept (E : EventStore σ) (o : StreamOptions) (store : σ) (sub : Subscriber) : Prop where
  ascending : sub.written.Pairwise (· < ·)
  exact : ∀ id, id ∈ sub.written ↔
    id ∈ E.matching sub.query store ∧ sub.start < id ∧ id ≤ sub.lastId
  place : sub.lastId = sub.start ∨ (sub.start < sub.lastId ∧ sub.lastId ∈ E.stored store)
  latest : ∀ d, sub.drain = some d → d.latest ∈ E.stored store
  query : ∀ d q, sub.drain = some d → d.point = .querying q → q = drainQuery o sub
  page : ∀ d p, sub.drain = some d → d.point = .annotating p → Fetched E store sub d.latest p

/-- A query for a stream still at `''` asks for what lies past `''`: no matching event
is stored at or before the cursor that came with the request. -/
def Placed (E : EventStore σ) (s : EventStreamHub σ) : Prop :=
  ∀ (i : Nat) (sub : Subscriber) (d : Drain) (q : EventQuery), s.subs[i]? = some sub →
    sub.drain = some d → d.point = .querying q → sub.lastId = "" →
    ∀ id ∈ E.matching sub.query s.store,
      (∀ c, given sub.query.cursor = some c → c < id) ↔ "" < id

def PlacedStep (E : EventStore σ) (o : StreamOptions) (s t : EventStreamHub σ) : Prop :=
  Step E o s t ∧ Placed E s

section Kept

variable {E : EventStore σ} {o : StreamOptions} {store later : σ} {sub : Subscriber}

theorem Kept.start_le (h : Kept E o store sub) : sub.start ≤ sub.lastId := by
  rcases h.place with heq | ⟨hlt, _⟩
  · exact le_of_eq heq.symm
  · exact le_of_lt hlt

theorem kept_new (query : EventQuery) (start : String) :
    Kept E o store ⟨query, start, start, none, false, false, []⟩ where
  ascending := List.Pairwise.nil
  exact id := by
    simp only [List.not_mem_nil, false_iff, not_and, not_le]
    intro _ hlt
    exact hlt
  place := .inl rfl
  latest d h := by cases h
  query d q h := by cases h
  page d p h := by cases h

/-- New ids lie past everything stored, so past where every stream stands. -/
theorem Kept.insert (h : Kept E o store sub) (hins : E.Inserted store later)
    (hex : Exceeds E store later) : Kept E o later sub := by
  have hold : ∀ id, id ∈ E.stored store →
      (id ∈ E.matching sub.query later ↔ id ∈ E.matching sub.query store) := fun id hin =>
    hins.settled _ id hin (hins.kept id hin)
  have hstays : ∀ id, id ∈ E.matching sub.query store → id ∈ E.matching sub.query later :=
    fun id hid => (hold id (E.isStored _ _ id hid)).mpr hid
  refine ⟨h.ascending, ?_, ?_, ?_, h.query, ?_⟩
  · intro id
    rw [h.exact]
    by_cases hin : id ∈ E.stored store
    · rw [hold id hin]
    · constructor
      · intro hid
        exact absurd (E.isStored _ _ id hid.1) hin
      · intro ⟨hid, hlt, hle⟩
        have hnew := hex id (E.isStored _ _ id hid) hin
        rcases h.place with heq | ⟨_, hmem⟩
        · exact absurd (heq ▸ hle) (not_le.mpr hlt)
        · exact absurd hle (not_le.mpr (hnew _ hmem))
  · exact h.place.imp_right (fun hp => ⟨hp.1, hins.kept _ hp.2⟩)
  · intro d hd
    exact hins.kept _ (h.latest d hd)
  · intro d p hd hp
    have hf := h.page d p hd hp
    refine ⟨hf.ascending, fun id hid => ⟨hstays id (hf.matching id hid).1, (hf.matching id hid).2⟩,
      ?_, hf.more⟩
    intro id hid hlt hno
    by_cases hin : id ∈ E.stored store
    · exact hf.covers id ((hold id hin).mp hid) hlt hno
    · have hnew := hex id (E.isStored _ _ id hid) hin
      refine ⟨fun x hx => hnew x (E.isStored _ _ x (hf.matching x hx).1), fun _ => ?_⟩
      exact hnew _ (h.latest d hd)

theorem Kept.flags (h : Kept E o store sub) (ended needDrain : Bool) :
    Kept E o store { sub with ended := ended, needDrain := needDrain } where
  ascending := h.ascending
  exact := h.exact
  place := h.place
  latest := h.latest
  query := h.query
  page d p hd hp :=
    have hf := h.page d p hd hp
    ⟨hf.ascending, hf.matching, hf.covers, hf.more⟩

theorem Kept.idle (h : Kept E o store sub) : Kept E o store { sub with drain := none } where
  ascending := h.ascending
  exact := h.exact
  place := h.place
  latest d hd := by cases hd
  query d q hd := by cases hd
  page d p hd := by cases hd

theorem Kept.at (h : Kept E o store sub) {d : Drain} (hd : d.latest ∈ E.stored store)
    (hquery : ∀ q, d.point = .querying q → q = drainQuery o sub)
    (hpage : ∀ p, d.point = .annotating p → Fetched E store sub d.latest p) :
    Kept E o store { sub with drain := some d } where
  ascending := h.ascending
  exact := h.exact
  place := h.place
  latest d' hd' := by
    cases hd'
    exact hd
  query d' q hd' hq := by
    cases hd'
    exact hquery q hq
  page d' p hd' hp := by
    cases hd'
    have hf := hpage p hp
    exact ⟨hf.ascending, hf.matching, hf.covers, hf.more⟩

theorem past_iff (hplaced : sub.lastId = "" → ∀ id ∈ E.matching sub.query store,
      ((∀ c, given sub.query.cursor = some c → c < id) ↔ "" < id)) {id : String}
    (hid : id ∈ E.matching sub.query store) :
    (∀ c, given (drainQuery o sub).cursor = some c → c < id) ↔ sub.lastId < id := by
  by_cases hstart : sub.lastId = ""
  · rw [hstart, ← hplaced hstart id hid]
    simp only [drainQuery, if_pos hstart]
  · have hcursor : given (drainQuery o sub).cursor = some sub.lastId := by
      simp only [drainQuery, if_neg hstart]
      exact given_eq_some.mpr ⟨rfl, hstart⟩
    rw [hcursor]
    constructor
    · intro h
      exact h _ rfl
    · intro h c hc
      cases hc
      exact h

theorem matching_drainQuery : E.matching (drainQuery o sub) store = E.matching sub.query store := by
  rw [E.matching_filter, E.matching_filter sub.query]
  rfl

theorem fetched_of_answer {latest : String} {page : EventPage}
    (hplaced : sub.lastId = "" → ∀ id ∈ E.matching sub.query store,
      ((∀ c, given sub.query.cursor = some c → c < id) ↔ "" < id))
    (hq : E.queryEvents (drainQuery o sub) store page) : Fetched E store sub latest page := by
  obtain ⟨hasc, hmem⟩ := EventStore.page_ascending hq rfl rfl
  have hmatch : ∀ id ∈ page.events.map LensEvent.id,
      id ∈ E.matching sub.query store ∧ sub.lastId < id := by
    intro id hid
    obtain ⟨hin, hpast⟩ := hmem id hid
    rw [matching_drainQuery] at hin
    exact ⟨hin, (past_iff (o := o) hplaced hin).mp hpast⟩
  have hnext : given page.nextCursor = none → page.nextCursor = none := by
    intro hnone
    cases hc : page.nextCursor with
    | none => rfl
    | some c =>
      have hlast := EventStore.page_next hq rfl hc
      have hlt := (hmatch c (List.mem_of_getLast? hlast)).2
      have hne : c ≠ "" := by
        intro heq
        rw [heq] at hlt
        exact absurd hlt (not_lt_empty _)
      rw [hc, given_eq_some.mpr ⟨rfl, hne⟩] at hnone
      cases hnone
  refine ⟨hasc, hmatch, ?_, ?_⟩
  · intro id hid hlt hno
    have hin : id ∈ E.matching (drainQuery o sub) store := by
      rw [matching_drainQuery]
      exact hid
    have hpast := (past_iff (o := o) hplaced hid).mpr hlt
    refine ⟨EventStore.page_covers hq rfl rfl hin hpast hno, ?_⟩
    intro hnone
    exact absurd (EventStore.page_complete hq rfl (hnext hnone) hin hpast) hno
  · intro hmore hnil
    cases hc : page.nextCursor with
    | none => simp [hc, given] at hmore
    | some c =>
      have hlast := EventStore.page_next hq rfl hc
      simp [hnil] at hlast

/-! ### Writing a page -/

theorem le_last {ids : List String} (h : ids.Pairwise (· < ·)) (last : String) :
    ∀ x ∈ ids, x ≤ ids.getLast?.getD last := by
  intro x hx
  rcases List.eq_nil_or_concat' ids with hnil | ⟨earlier, l, hl⟩
  · simp [hnil] at hx
  · subst hl
    rw [List.getLast?_concat, Option.getD_some]
    rcases List.mem_append.mp hx with hin | hin
    · exact le_of_lt ((List.pairwise_append.mp h).2.2 x hin l (List.mem_singleton.mpr rfl))
    · rw [List.mem_singleton.mp hin]

theorem last_cases (ids : List String) (last : String) :
    (ids = [] ∧ ids.getLast?.getD last = last) ∨ ids.getLast?.getD last ∈ ids := by
  cases h : ids.getLast? with
  | none => exact .inl ⟨List.getLast?_eq_none_iff.mp h, rfl⟩
  | some l => exact .inr (List.mem_of_getLast? h)

/-- Where a page leaves a subscriber: at its last event, or at the newest id once no
page follows. -/
def landing (sub : Subscriber) (latest : String) (page : EventPage) : String :=
  let last := (page.events.map LensEvent.id).getLast?.getD sub.lastId
  if given page.nextCursor = none ∧ last < latest then latest else last

theorem landing_ge (sub : Subscriber) (latest : String) (page : EventPage) :
    (page.events.map LensEvent.id).getLast?.getD sub.lastId ≤ landing sub latest page := by
  unfold landing
  dsimp only
  split
  · rename_i h
    exact le_of_lt h.2
  · exact le_refl _

theorem landing_latest {latest : String} {page : EventPage} (hnext : given page.nextCursor = none)
    (h : (page.events.map LensEvent.id).getLast?.getD sub.lastId ≤ latest) :
    landing sub latest page = latest := by
  unfold landing
  dsimp only
  split
  · rfl
  · rename_i hlast
    exact le_antisymm h (not_lt.mp (fun hlt => hlast ⟨hnext, hlt⟩))

/-- Nothing is skipped on the way to where a page leaves a subscriber. -/
theorem Fetched.reaches {latest : String} {page : EventPage} (h : Fetched E store sub latest page)
    {id : String} (hid : id ∈ E.matching sub.query store) (hlt : sub.lastId < id) :
    id ∈ page.events.map LensEvent.id ↔ id ≤ landing sub latest page := by
  constructor
  · intro hin
    exact le_trans (le_last h.ascending sub.lastId id hin) (landing_ge sub latest page)
  · intro hle
    by_contra hno
    obtain ⟨hall, hnewest⟩ := h.covers id hid hlt hno
    have hlast : (page.events.map LensEvent.id).getLast?.getD sub.lastId < id := by
      rcases last_cases (page.events.map LensEvent.id) sub.lastId with ⟨_, heq⟩ | hin
      · rw [heq]
        exact hlt
      · exact hall _ hin
    unfold landing at hle
    dsimp only at hle
    split at hle
    · rename_i hcond
      exact absurd hle (not_le.mpr (hnewest hcond.1))
    · exact absurd hle (not_le.mpr hlast)

theorem Kept.wrote (h : Kept E o store sub) {d : Drain} {page : EventPage}
    (hd : sub.drain = some d) (hp : d.point = .annotating page) :
    Kept E o store
      { sub with
        written := sub.written ++ page.events.map LensEvent.id
        lastId := landing sub d.latest page
        drain := none } := by
  have hf := h.page d page hd hp
  have hge : sub.lastId ≤ landing sub d.latest page := by
    refine le_trans ?_ (landing_ge sub d.latest page)
    rcases last_cases (page.events.map LensEvent.id) sub.lastId with ⟨_, heq⟩ | hin
    · exact le_of_eq heq.symm
    · exact le_of_lt (hf.matching _ hin).2
  refine ⟨?_, ?_, ?_, by simp, by simp, by simp⟩
  · refine List.pairwise_append.mpr ⟨h.ascending, hf.ascending, ?_⟩
    intro x hx y hy
    exact lt_of_le_of_lt ((h.exact x).mp hx).2.2 (hf.matching y hy).2
  · intro id
    rw [List.mem_append, h.exact]
    constructor
    · intro hin
      rcases hin with ⟨hid, hlt, hle⟩ | hin
      · exact ⟨hid, hlt, le_trans hle hge⟩
      · obtain ⟨hid, hlt⟩ := hf.matching id hin
        exact ⟨hid, lt_of_le_of_lt h.start_le hlt, (hf.reaches hid hlt).mp hin⟩
    · intro ⟨hid, hlt, hle⟩
      rcases le_or_gt id sub.lastId with hold | hnew
      · exact .inl ⟨hid, hlt, hold⟩
      · exact .inr ((hf.reaches hid hnew).mpr hle)
  · show landing sub d.latest page = sub.start ∨ _
    have hlast : landing sub d.latest page = sub.lastId ∨
        landing sub d.latest page ∈ E.stored store := by
      unfold landing
      dsimp only
      split
      · exact .inr (h.latest d hd)
      · rcases last_cases (page.events.map LensEvent.id) sub.lastId with ⟨_, heq⟩ | hin
        · exact .inl heq
        · exact .inr (E.isStored _ _ _ (hf.matching _ hin).1)
    rcases hlast with heq | hin
    · rw [heq]
      exact h.place
    · rcases lt_or_eq_of_le (le_trans h.start_le hge) with hlt | heq
      · exact .inr ⟨hlt, hin⟩
      · exact .inl heq.symm

end Kept

/-! ### The hub -/

structure Sound (E : EventStore σ) (o : StreamOptions) (s : EventStreamHub σ) : Prop where
  subs : ∀ (i : Nat) (sub : Subscriber), s.subs[i]? = some sub → Kept E o s.store sub
  caught : ∀ x ∈ s.caught, x.2 ∈ E.stored s.store
  poll : ∀ latest, s.poll.latest? = some latest → latest ∈ E.stored s.store

section Hub

variable {E : EventStore σ} {o : StreamOptions} {s t : EventStreamHub σ} {i : Nat}

theorem latest_stored {store : σ} {latest : String} (h : E.latest store = some latest) :
    latest ∈ E.stored store := List.max?_mem h

theorem Sound.modify {f : Subscriber → Subscriber} (h : Sound E o s) (hstore : t.store = s.store)
    (hsubs : t.subs = s.subs.modify i f)
    (hf : ∀ sub, s.subs[i]? = some sub → Kept E o s.store (f sub))
    (hcaught : t.caught = s.caught)
    (hpoll : ∀ latest, t.poll.latest? = some latest → latest ∈ E.stored s.store) : Sound E o t := by
  refine ⟨?_, ?_, ?_⟩
  · intro j sub hsub
    rw [hstore]
    rw [hsubs] at hsub
    by_cases hj : i = j
    · subst hj
      rw [List.getElem?_modify_eq] at hsub
      obtain ⟨old, hold, rfl⟩ := Option.map_eq_some_iff.mp hsub
      exact hf old hold
    · rw [List.getElem?_modify_ne _ _ hj] at hsub
      exact h.subs j sub hsub
  · rw [hcaught, hstore]
    exact h.caught
  · rw [hstore]
    exact hpoll

theorem Sound.rest (h : Sound E o s) (hstore : t.store = s.store) (hsubs : t.subs = s.subs)
    (hcaught : ∀ x ∈ t.caught, x.2 ∈ E.stored s.store)
    (hpoll : ∀ latest, t.poll.latest? = some latest → latest ∈ E.stored s.store) :
    Sound E o t := by
  refine ⟨?_, ?_, ?_⟩
  · rw [hsubs, hstore]
    exact h.subs
  · rw [hstore]
    exact hcaught
  · rw [hstore]
    exact hpoll

theorem Sound.join (h : Sound E o s) (query : EventQuery) (start : String) :
    Sound E o (s.join query start) := by
  refine ⟨?_, h.caught, h.poll⟩
  intro j sub hsub
  show Kept E o s.store sub
  rcases List.mem_append.mp (List.mem_of_getElem? hsub) with hold | hnew
  · obtain ⟨k, hk⟩ := List.getElem?_of_mem hold
    exact h.subs k sub hk
  · rw [List.mem_singleton.mp hnew]
    exact kept_new query start

structure Finished (s t : EventStreamHub σ) (i : Nat) : Prop where
  store : t.store = s.store
  subs : t.subs = s.subs.modify i (fun sub => { sub with drain := none })
  caught : t.caught = s.caught
  poll : t.poll.latest? = s.poll.latest?

theorem finished (s : EventStreamHub σ) (i : Nat) (d : Drain) : Finished s (s.finish i d) i := by
  unfold EventStreamHub.finish
  dsimp only
  split
  · rename_i hpoll
    have hwas : s.poll = .awaiting _ _ := hpoll
    exact ⟨rfl, rfl, rfl, by rw [hwas]; rfl⟩
  · exact ⟨rfl, rfl, rfl, rfl⟩

theorem Sound.finish (h : Sound E o s) (i : Nat) (d : Drain) : Sound E o (s.finish i d) := by
  have hfin := finished s i d
  refine h.modify hfin.store hfin.subs (fun sub hsub => (h.subs i sub hsub).idle) hfin.caught ?_
  rw [hfin.poll]
  exact h.poll

theorem Sound.setPoint {sub : Subscriber} {d : Drain} {p : DrainPoint} (h : Sound E o s)
    (hsub : s.subs[i]? = some sub) (hd : sub.drain = some d)
    (hquery : ∀ q, p = .querying q → q = drainQuery o sub)
    (hpage : ∀ page, p = .annotating page → Fetched E s.store sub d.latest page) :
    Sound E o (s.setPoint i d p) := by
  refine h.modify rfl rfl ?_ rfl h.poll
  intro other hother
  rw [hsub, Option.some.injEq] at hother
  subst hother
  have hkept := h.subs i sub hsub
  exact hkept.at (d := { d with point := p }) (hkept.latest d hd) hquery hpage

theorem Sound.startDrain {sub : Subscriber} {latest : String} (h : Sound E o s)
    (hlatest : latest ∈ E.stored s.store) (polled : Bool) :
    Sound E o (s.startDrain i sub latest polled) := by
  unfold EventStreamHub.startDrain
  split
  · exact h
  · refine h.modify rfl rfl ?_ rfl h.poll
    intro other hother
    exact (h.subs i other hother).at hlatest (by simp) (by simp)

theorem Sound.walk {sub : Subscriber} {latest : String} {todo : List Nat} (h : Sound E o s)
    (hlatest : latest ∈ E.stored s.store) : Sound E o (s.walk latest i todo sub) := by
  have hby : ∀ l, some latest = some l → l ∈ E.stored s.store := by
    intro l hl
    cases hl
    exact hlatest
  unfold EventStreamHub.walk
  split
  · rename_i hbehind
    have hfree : ¬ sub.drain.isSome = true := by simp [hbehind.2]
    have hdrain : Sound E o (s.startDrain i sub latest true) := h.startDrain hlatest true
    simp only [EventStreamHub.startDrain, if_neg hfree] at hdrain ⊢
    exact hdrain.rest rfl rfl hdrain.caught hby
  · exact h.rest rfl rfl h.caught hby

structure WroteLast (s t : EventStreamHub σ) (i : Nat) (d : Drain) (page : EventPage) : Prop where
  store : t.store = s.store
  subs : t.subs = s.subs.modify i (fun sub =>
    { sub with
      written := sub.written ++ page.events.map LensEvent.id
      lastId := landing sub d.latest page
      drain := none })
  caught : t.caught = s.caught
  poll : t.poll.latest? = s.poll.latest?

theorem wrote_last {d : Drain} {page : EventPage} (hnext : given page.nextCursor = none) :
    WroteLast s (s.write i d page) i d page := by
  unfold EventStreamHub.write
  dsimp only
  rw [hnext]
  have hfin := finished ((s.updateSub i (fun sub =>
      { sub with
        written := sub.written ++ page.events.map LensEvent.id
        lastId := (page.events.map LensEvent.id).getLast?.getD sub.lastId })).updateSub i (fun sub =>
      if sub.lastId < d.latest then { sub with lastId := d.latest } else sub)) i d
  refine ⟨hfin.store, ?_, hfin.caught, hfin.poll⟩
  rw [hfin.subs]
  simp only [updateSub, List.modify_modify_eq]
  congr 1
  funext other
  simp only [Function.comp_apply, landing, hnext, true_and]
  split <;> rfl

theorem Sound.write {sub : Subscriber} {d : Drain} {page : EventPage} (h : Sound E o s)
    (hsub : s.subs[i]? = some sub) (hd : sub.drain = some d) (hp : d.point = .annotating page) :
    Sound E o (s.write i d page) := by
  have hkept := h.subs i sub hsub
  have hwrote := hkept.wrote hd hp
  have hown : ∀ other, s.subs[i]? = some other → other = sub := by
    intro other hother
    rw [hsub, Option.some.injEq] at hother
    exact hother.symm
  unfold EventStreamHub.write
  dsimp only
  cases hnext : given page.nextCursor with
  | some c =>
    have hlanding : landing sub d.latest page =
        (page.events.map LensEvent.id).getLast?.getD sub.lastId := by
      simp [landing, hnext]
    rw [hlanding] at hwrote
    refine h.modify rfl (List.modify_modify_eq _ _ _ _) ?_ rfl h.poll
    intro other hother
    obtain rfl := hown other hother
    exact hwrote.at (d := { d with point := .looping }) (hkept.latest d hd) (by simp) (by simp)
  | none =>
    have hlast := wrote_last (s := s) (i := i) (d := d) hnext
    unfold EventStreamHub.write at hlast
    dsimp only at hlast
    rw [hnext] at hlast
    refine h.modify hlast.store hlast.subs ?_ hlast.caught ?_
    · intro other hother
      obtain rfl := hown other hother
      exact hwrote
    · rw [hlast.poll]
      exact h.poll

theorem sound_initial (h : Initial s) : Sound E o s := by
  obtain ⟨hsubs, _, _, _, hcaught, hpoll⟩ := h
  exact ⟨by simp [hsubs], by simp [hcaught], by simp [hpoll, Polling.latest?]⟩

theorem Sound.step (h : Sound E o s) (hst : PlacedStep E o s t) : Sound E o t := by
  obtain ⟨hst, hplaced⟩ := hst
  cases hst with
  | insert hins hex =>
    exact ⟨fun j sub hsub => (h.subs j sub hsub).insert hins hex,
      fun x hx => hins.kept _ (h.caught x hx), fun l hl => hins.kept _ (h.poll l hl)⟩
  | resume _ _ _ => exact h.join _ _
  | subscribe _ _ _ => exact h.rest rfl rfl h.caught h.poll
  | @opened r before after _ =>
    have hrest : Sound E o { s with opening := before ++ after } := h.rest rfl rfl h.caught h.poll
    exact hrest.join _ _
  | dismissed _ => exact h.rest rfl rfl h.caught h.poll
  | catchUp _ hlatest =>
    refine h.rest rfl rfl ?_ h.poll
    intro x hx
    rcases List.mem_cons.mp hx with rfl | hx
    · exact latest_stored hlatest
    · exact h.caught x hx
  | caughtNone _ => exact h.rest rfl rfl h.caught h.poll
  | @caughtUp i latest sub before after hcaught hsub =>
    have hlatest : latest ∈ E.stored s.store :=
      h.caught (i, latest) (hcaught ▸ List.mem_append_right _ (List.mem_cons_self ..))
    have hrest : Sound E o { s with caught := before ++ after } := by
      refine h.rest rfl rfl ?_ h.poll
      intro x hx
      refine h.caught x ?_
      rw [hcaught]
      exact List.mem_append.mpr ((List.mem_append.mp hx).imp_right (List.mem_cons_of_mem _))
    exact hrest.startDrain hlatest false
  | tick _ _ => exact h.rest rfl rfl h.caught (by simp [Polling.latest?])
  | readLatest _ hlatest =>
    refine h.rest rfl rfl h.caught ?_
    intro l hl
    cases hl
    exact latest_stored hlatest
  | readNone _ => exact h.rest rfl rfl h.caught (by simp [Polling.latest?])
  | polled hpoll =>
    refine h.rest rfl rfl h.caught ?_
    intro l hl
    cases hl
    exact h.poll _ (by rw [hpoll]; rfl)
  | @walk latest i todo sub hpoll hsub => exact h.walk (h.poll _ (by rw [hpoll]; rfl))
  | walked _ => exact h.rest rfl rfl h.caught (by simp [Polling.latest?])
  | loop hsub hd hpoint =>
    unfold EventStreamHub.loop
    split
    · exact h.finish _ _
    · refine h.setPoint hsub hd ?_ (by simp)
      intro q hq
      cases hq
      rfl
  | page hsub hd hpoint hq =>
    refine h.setPoint hsub hd (by simp) ?_
    intro page hpage
    cases hpage
    rw [(h.subs _ _ hsub).query _ _ hd hpoint] at hq
    exact fetched_of_answer (fun hstart => hplaced _ _ _ _ hsub hd hpoint hstart) hq
  | write hsub hd hpoint => exact h.write hsub hd hpoint
  | failed _ _ _ => exact h.finish _ _
  | buffer i full =>
    exact h.modify rfl rfl (fun sub hsub => (h.subs _ sub hsub).flags sub.ended full) rfl h.poll
  | disconnect i =>
    exact h.modify rfl rfl (fun sub hsub => (h.subs _ sub hsub).flags true sub.needDrain) rfl h.poll
  | closed _ _ => exact h.rest rfl rfl h.caught h.poll
  | closeAll =>
    refine ⟨?_, h.caught, h.poll⟩
    intro j sub hsub
    rw [List.getElem?_mapIdx] at hsub
    obtain ⟨old, hold, rfl⟩ := Option.map_eq_some_iff.mp hsub
    exact (h.subs j old hold).flags _ old.needDrain

/-- What a client that saw one stream up to an event, and resumed from it on another,
has received. -/
def received (first next : Subscriber) : List String :=
  first.written.filter (fun id => id ≤ next.start) ++ next.written

/-- Delivery in a state: each stream is exact, and so are two joined by a reconnect. -/
structure Delivered (E : EventStore σ) (s : EventStreamHub σ) : Prop where
  ascending : ∀ (i : Nat) (sub : Subscriber), s.subs[i]? = some sub → sub.written.Pairwise (· < ·)
  exact : ∀ (i : Nat) (sub : Subscriber), s.subs[i]? = some sub → ∀ id,
    id ∈ sub.written ↔ id ∈ E.matching sub.query s.store ∧ sub.start < id ∧ id ≤ sub.lastId
  resumed : ∀ (i j : Nat) (first next : Subscriber), s.subs[i]? = some first →
    s.subs[j]? = some next → first.query.filter = next.query.filter → next.start ∈ first.written →
    (received first next).Pairwise (· < ·) ∧ ∀ id, id ∈ received first next ↔
      id ∈ E.matching first.query s.store ∧ first.start < id ∧ id ≤ next.lastId

theorem Kept.received {store : σ} {first next : Subscriber} (hf : Kept E o store first)
    (hn : Kept E o store next) (hfilter : first.query.filter = next.query.filter)
    (hstart : next.start ∈ first.written) :
    (received first next).Pairwise (· < ·) ∧ ∀ id, id ∈ received first next ↔
      id ∈ E.matching first.query store ∧ first.start < id ∧ id ≤ next.lastId := by
  have hmatch : E.matching first.query store = E.matching next.query store := by
    rw [E.matching_filter, hfilter, ← E.matching_filter]
  obtain ⟨_, hfrom, hupto⟩ := (hf.exact _).mp hstart
  constructor
  · refine List.pairwise_append.mpr ⟨hf.ascending.filter _, hn.ascending, ?_⟩
    intro x hx y hy
    have hle : x ≤ next.start := of_decide_eq_true (List.mem_filter.mp hx).2
    exact lt_of_le_of_lt hle ((hn.exact y).mp hy).2.1
  · intro id
    rw [EventStreamHub.received, List.mem_append, List.mem_filter, hf.exact, hn.exact, ← hmatch,
      decide_eq_true_iff]
    constructor
    · intro h
      rcases h with ⟨⟨hid, hlt, _⟩, hle⟩ | ⟨hid, hlt, hle⟩
      · exact ⟨hid, hlt, le_trans hle hn.start_le⟩
      · exact ⟨hid, lt_trans hfrom hlt, hle⟩
    · intro ⟨hid, hlt, hle⟩
      rcases le_or_gt id next.start with hold | hnew
      · exact .inl ⟨⟨hid, hlt, le_trans hold hupto⟩, hold⟩
      · exact .inr ⟨hid, hnew, hle⟩

/-- Streams deliver exactly what lies between where they opened and where they are. -/
theorem delivered_of_placed (h : Reachable Initial (PlacedStep E o) s) : Delivered E s := by
  have hsound : Sound E o s := by
    refine Reachable.invariant ?_ ?_ h
    · intro s hs
      exact sound_initial hs
    · intro s t hs hst
      exact hs.step hst
  refine ⟨fun i sub hsub => (hsound.subs i sub hsub).ascending,
    fun i sub hsub => (hsound.subs i sub hsub).exact, ?_⟩
  intro i j first next hfirst hnext hfilter hstart
  exact (hsound.subs i first hfirst).received (hsound.subs j next hnext) hfilter hstart

/-! ### A first event -/

theorem placed_of_quiet (h : ∀ sub ∈ s.subs, ∀ d, sub.drain = some d → ∀ q, d.point ≠ .querying q) :
    Placed E s := by
  intro i sub d q hsub hd hpoint
  exact absurd hpoint (h sub (List.mem_of_getElem? hsub) d hd q)

def plainOptions : StreamOptions where
  maxLimit := plainReader.maxLimit
  dateParse := fun _ => none

def plainHub (ids : List String) (query : EventQuery) (drain : Option Drain) (lastId : String)
    (written : List String) : EventStreamHub Db where
  store := plainDb ids
  subs := [⟨query, "", lastId, drain, false, false, written⟩]
  members := [0]
  opening := []
  catching := []
  caught := []
  poll := .idle

def firstQuery (query : EventQuery) : EventQuery :=
  { query with
    order := some .asc
    direction := some .forward
    limit := some (.ofNat 100)
    skipTotal := some true }

theorem plain_querying (params : Params) (query : EventQuery)
    (hquery : streamQuery plainOptions params = .ok query)
    (hfirst : lastEventId none params = none) :
    Reachable Initial (PlacedStep (sqliteStore plainReader) plainOptions)
      (plainHub ["b"] query (some ⟨"b", false, .querying (firstQuery query)⟩) "" []) := by
  have hstart : Reachable Initial (PlacedStep (sqliteStore plainReader) plainOptions)
      ⟨plainDb [], [], [], [], [], [], .idle⟩ := .start ⟨rfl, rfl, rfl, rfl, rfl, rfl⟩
  have hasked := hstart.next
    ⟨Step.subscribe hquery hfirst (Nat.zero_lt_succ _), placed_of_quiet (by simp)⟩
  have hone : ∀ r : Opening, [r] = [] ++ r :: [] := fun _ => rfl
  have hopened := hasked.next ⟨Step.opened (hone _), placed_of_quiet (by simp)⟩
  have hbatch : insertDecoded plainRuntime ⟨true⟩ [plainEvent "b"] (plainDb []) =
      (.ok 1, plainDb ["b"]) := rfl
  have hins := inserted_insertDecoded plainReader hbatch
  have hexceeds : Exceeds (sqliteStore plainReader) (plainDb []) (plainDb ["b"]) := by
    intro id _ _ x hx
    cases hx
  have hstored := hopened.next
    ⟨Step.insert hins hexceeds, placed_of_quiet (by simp [EventStreamHub.join])⟩
  have hlatest : (sqliteStore plainReader).latest (plainDb ["b"]) = some "b" := rfl
  have hnew : ∀ i : Nat, [i] = [] ++ i :: [] := fun _ => rfl
  have hread := hstored.next
    ⟨Step.catchUp (hnew 0) hlatest, placed_of_quiet (by simp [EventStreamHub.join])⟩
  have hentry : ∀ x : Nat × String, [x] = [] ++ x :: [] := fun _ => rfl
  have hdrain := hread.next
    ⟨Step.caughtUp (hentry (0, "b")) rfl, placed_of_quiet (by simp [EventStreamHub.join])⟩
  have hloop := hdrain.next ⟨Step.loop (i := 0) rfl rfl rfl, placed_of_quiet
    (by simp [EventStreamHub.join, EventStreamHub.startDrain, updateSub])⟩
  exact hloop

theorem plain_wrote {R : EventStreamHub Db → EventStreamHub Db → Prop} {query : EventQuery}
    {found : List String}
    (h : Reachable Initial R
      (plainHub ["b"] query (some ⟨"b", false, .querying (firstQuery query)⟩) "" []))
    (hcan : CanAnswer plainReader (firstQuery query) (plainDb ["b"]))
    (hpage : (pageWindow plainReader (firstQuery query) (plainDb ["b"])).page = found.map plainRow)
    (hnext : (pageWindow plainReader (firstQuery query) (plainDb ["b"])).next EventRow.id = none)
    (hfound : found.getLast?.getD "" ≤ "b")
    (hstep : ∀ d t, Step (sqliteStore plainReader) plainOptions (plainHub ["b"] query (some d) "" []) t →
      R (plainHub ["b"] query (some d) "" []) t) :
    ∃ s, Reachable Initial R s ∧ s.store = plainDb ["b"] ∧
      s.subs[0]? = some ⟨query, "", "b", none, false, false, found⟩ := by
  obtain ⟨total, estimate, hq⟩ := plain_answers hcan hpage
  have hread := h.next (hstep _ _ (Step.page (i := 0) rfl rfl rfl hq))
  have hwrote := hread.next (hstep _ _ (Step.write (i := 0) rfl rfl rfl))
  refine ⟨_, hwrote, ?_, ?_⟩
  · exact (wrote_last (by rw [hnext]; rfl)).store
  · rw [(wrote_last (by rw [hnext]; rfl)).subs]
    have hids : (found.map plainEvent).map LensEvent.id = found := by
      rw [List.map_map]
      exact List.map_id _
    simp only [plainHub, List.modify_cons, if_true, List.getElem?_cons_zero]
    rw [landing_latest (by rw [hnext]; rfl) (by rw [hids]; exact hfound), hids, List.nil_append]

/-- It is written to a stream that came without a cursor. -/
theorem delivered_of_placed_one_event : ∃ s : EventStreamHub Db,
    (∃ sub, s.subs[0]? = some sub ∧ sub.written = ["b"]) ∧ Delivered (sqliteStore plainReader) s := by
  have hasked := plain_querying [] {} rfl (by decide)
  have hlimit : normaliseLimit plainReader.maxLimit (firstQuery {}).limit = 100 := by
    decide +kernel
  have hpage : (pageWindow plainReader (firstQuery {}) (plainDb ["b"])).page = ["b"].map plainRow := by
    rw [pageWindow, hlimit]
    rfl
  have hnext : (pageWindow plainReader (firstQuery {}) (plainDb ["b"])).next EventRow.id = none := by
    rw [pageWindow, hlimit]
    rfl
  have hmatch : (sqliteStore plainReader).matching {} (plainDb ["b"]) = ["b"] := rfl
  have hplaced : ∀ d, Placed (sqliteStore plainReader) (plainHub ["b"] {} (some d) "" []) := by
    intro d i sub d' q hsub _ _ _ id hid
    cases i with
    | succ i => cases hsub
    | zero =>
      cases hsub
      have heq : id = "b" := by
        rw [show (plainHub ["b"] {} (some d) "" []).store = plainDb ["b"] from rfl, hmatch] at hid
        exact List.mem_singleton.mp hid
      subst heq
      refine ⟨fun _ => by decide, ?_⟩
      intro _ c hc
      cases hc
  obtain ⟨s, hs, -, hsub⟩ := plain_wrote hasked ⟨rfl, by decide⟩ hpage hnext (by decide)
    (fun d t hst => ⟨hst, hplaced d⟩)
  exact ⟨s, ⟨_, hsub, rfl⟩, delivered_of_placed hs⟩

/-- The stream opened on an empty store, with a cursor in its request; the event that
is then stored is not past that cursor, and is passed over. -/
theorem passed_over_before_cursor : ¬ ∀ s : EventStreamHub Db,
    Reachable Initial (Step (sqliteStore plainReader) plainOptions) s →
      Delivered (sqliteStore plainReader) s := by
  intro hclaim
  have hasked := (plain_querying [("cursor", "x")] { cursor := some "x" } rfl
    (by decide)).mono (fun _ _ hst => hst.1)
  have hlimit : normaliseLimit plainReader.maxLimit (firstQuery { cursor := some "x" }).limit = 100 := by
    decide +kernel
  have hpage : (pageWindow plainReader (firstQuery { cursor := some "x" }) (plainDb ["b"])).page =
      [].map plainRow := by
    rw [pageWindow, hlimit]
    rfl
  have hnext : (pageWindow plainReader (firstQuery { cursor := some "x" })
      (plainDb ["b"])).next EventRow.id = none := by
    rw [pageWindow, hlimit]
    rfl
  obtain ⟨s, hs, hstore, hsub⟩ := plain_wrote hasked ⟨rfl, by decide⟩ hpage hnext (by decide)
    (fun _ _ hst => hst)
  have hmatch : "b" ∈ (sqliteStore plainReader).matching { cursor := some "x" } s.store := by
    rw [hstore]
    exact List.mem_singleton.mpr rfl
  have hwritten := ((hclaim s hs).exact 0 _ hsub "b").mpr ⟨hmatch, by decide, le_refl _⟩
  cases hwritten

end Hub

end EventStreamHub

end SorobanLens
