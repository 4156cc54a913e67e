import SorobanLens.Ingest.Node
import SorobanLens.Ingest.RpcPool
import SorobanLens.Lib.Transition

/-!
The ledger saved with a cursor, against what the stream has yielded, while
ledgers close, pages cover as much as the node cares to scan, and a replacement
provider is asked from that ledger.
-/

set_option autoImplicit false

namespace SorobanLens

/-- A page covers the history from where it was asked up to place `q`, which is
where its cursor stands, and holds the selected events of that stretch. How far
`q` reaches is the node's choice. -/
structure Node.Covers (node : Node) (history : List RawEvent) (req : GetEventsRequest)
    (batch : EventBatch) (q : Nat) : Prop where
  start_le : node.start history req ≤ q
  le_length : q ≤ history.length
  events : batch.events =
    (stretch history (node.start history req) q).filter (node.selects req.filters)
  cursor_ne : batch.cursor ≠ ""
  cursor : node.position batch.cursor = q

namespace SavedLedger

structure Config where
  node : Node
  options : PollerOptions

/-- What a pool may put to a provider: the request itself, or the last committed
ledger in place of the cursor. -/
inductive Asked (o : PollerOptions) (l : StreamLocals) (saved : Option Nat) :
    GetEventsRequest → Prop where
  | direct {req : GetEventsRequest} (h : getEventsRequest (getEventsArgs o l saved) = .ok req) :
      Asked o l saved req
  | fallback {req : GetEventsRequest} (ledger : Nat)
      (hc : truthy (getEventsArgs o l saved).cursor = true)
      (hl : (getEventsArgs o l saved).fallbackLedger = some ledger)
      (h : getEventsRequest
        { getEventsArgs o l saved with cursor := none, startLedger := some ledger } = .ok req) :
      Asked o l saved req

/-- Every page a pool returns was some provider's answer to one of these. -/
theorem asked_of_getEvents {w : Providers} {p p' : FailoverRpcClient} {o : PollerOptions}
    {l : StreamLocals} {saved : Option Nat} {batch : EventBatch}
    (h : p.getEvents w (getEventsArgs o l saved) = (.ok batch, p')) :
    ∃ t i req, Asked o l saved req ∧ w.getEvents t i req = .ok batch := by
  have hclient : ∀ {t i args}, FailoverRpcClient.clientGetEvents w t i args = .ok batch →
      ∃ req, getEventsRequest args = .ok req ∧ w.getEvents t i req = .ok batch := by
    intro t i args hok
    unfold FailoverRpcClient.clientGetEvents at hok
    split at hok
    · cases hok
    · rename_i req hreq
      exact ⟨req, hreq, hok⟩
  unfold FailoverRpcClient.getEvents FailoverRpcClient.getEventsOfActive at h
  split at h
  · rename_i hok
    cases h
    obtain ⟨req, hreq, hans⟩ := hclient hok
    exact ⟨_, _, req, .direct hreq, hans⟩
  · split at h
    · cases h
    · unfold FailoverRpcClient.getEventsOfNext at h
      simp only at h
      split at h
      · rename_i hcursor
        split at h
        · rename_i hok
          cases h
          obtain ⟨req, hreq, hans⟩ := hclient hok
          exact ⟨_, _, req, .direct hreq, hans⟩
        · split at h
          · rename_i ledger hledger
            obtain ⟨hok, -⟩ := Prod.mk.inj h
            obtain ⟨req, hreq, hans⟩ := hclient hok
            exact ⟨_, _, req, .fallback ledger hcursor hledger hreq, hans⟩
          · cases h
      · cases h

inductive Phase where
  | stopped
  | polling (l : StreamLocals)
  /-- The page was yielded, as far as it was fresh; its cursor is not saved yet. -/
  | holding (l : StreamLocals) (batch : EventBatch) (q : Nat)

structure System where
  history : List RawEvent
  /-- The latest closed ledger. -/
  tip : Nat
  saved : Option CursorState
  phase : Phase
  /-- The ids of every event yielded under this key. -/
  yielded : List String
  /-- Where the walk behind the stream's position began. -/
  origin : Nat
  /-- Where the walk behind the saved cursor began. -/
  savedOrigin : Nat

/-- One step, over nodes whose pages all satisfy `served`. -/
inductive Step (cfg : Config) (served : List RawEvent → EventBatch → Nat → Prop) :
    System → System → Prop where
  | close {s : System} (events : List RawEvent) (h : ∀ e ∈ events, e.ledger = s.tip + 1) :
      Step cfg served s { s with history := s.history ++ events, tip := s.tip + 1 }
  | start {s : System} (hp : s.phase = .stopped) :
      Step cfg served s { s with phase := .polling (initialLocals cfg.options) }
  | resolve {s : System} {l : StreamLocals} (window : RetentionState) (hp : s.phase = .polling l)
      (hr : l.positionResolved = false) :
      Step cfg served s { s with
        phase := .polling (resolveStart cfg.options s.saved window l)
        origin := s.savedOrigin }
  | page {s : System} {l : StreamLocals} {req : GetEventsRequest} {q : Nat} (batch : EventBatch)
      (hp : s.phase = .polling l) (hr : l.positionResolved = true)
      (hreq : Asked cfg.options l (s.saved.map CursorState.ledger) req)
      (hs : cfg.node.Covers s.history req batch q) (hl : batch.latestLedger ≤ s.tip)
      (hok : served s.history batch q) :
      Step cfg served s { s with
        phase := .holding l batch q
        yielded := s.yielded ++ (turn cfg.options l.seen batch).fresh.map RawEvent.id
        origin := if truthy l.cursor then s.origin else cfg.node.start s.history req }
  | outOfRange {s : System} {l : StreamLocals} (err : RpcError) (window : RetentionState)
      (hp : s.phase = .polling l) (hr : l.positionResolved = true)
      (hc : (truthy l.cursor && isCursorOutOfRange err) = true) :
      Step cfg served s
        { s with saved := none, phase := .polling (restartAt window.oldestLedger l) }
  | save {s : System} {l : StreamLocals} {batch : EventBatch} {q : Nat} (now : String)
      (hp : s.phase = .holding l batch q) :
      Step cfg served s { s with
        saved := some (cursorState batch (turn cfg.options l.seen batch) now)
        phase :=
          if (turn cfg.options l.seen batch).progress.reachedEndLedger then .stopped
          else .polling (advance l batch (turn cfg.options l.seen batch))
        savedOrigin := s.origin }
  | stop {s : System} : Step cfg served s { s with phase := .stopped }

def Ahead (cfg : Config) (history : List RawEvent) (q ledger : Nat) : Prop :=
  ∀ e ∈ history.drop q, cfg.node.selects cfg.options.filters e = true → ledger ≤ e.ledger

/-- No process; nothing saved, or a position that was true when it was saved. -/
structure Initial (cfg : Config) (s : System) : Prop where
  sorted : s.history.Pairwise (fun a b => a.ledger ≤ b.ledger)
  closed : ∀ e ∈ s.history, e.ledger ≤ s.tip
  phase : s.phase = .stopped
  saved : ∀ st, s.saved = some st → cfg.node.position st.cursor ≤ s.history.length ∧
    s.savedOrigin = cfg.node.position st.cursor ∧ st.cursor ≠ "" ∧ st.ledger ≤ s.tip ∧
      Ahead cfg s.history (cfg.node.position st.cursor) st.ledger

/-- A page that names no ledger, because it is empty, leaves nothing from its
cursor on below its `latestLedger`. -/
def Tight (cfg : Config) (history : List RawEvent) (batch : EventBatch) (q : Nat) : Prop :=
  lastLedger batch = 0 → Ahead cfg history q batch.latestLedger

/-! ### Invariant -/

def Yielded (cfg : Config) (history : List RawEvent) (yielded : List String) (a b : Nat) : Prop :=
  ∀ i e, a ≤ i → i < b → history[i]? = some e →
    cfg.node.selects cfg.options.filters e = true → e.id ∈ yielded

structure At (cfg : Config) (history : List RawEvent) (tip : Nat) (yielded : List String)
    (origin : Nat) (cursor : String) (ledger : Nat) : Prop where
  le_length : cfg.node.position cursor ≤ history.length
  cursor_ne : cursor ≠ ""
  behind : Yielded cfg history yielded origin (cfg.node.position cursor)
  past : ledger ≤ tip
  ahead : Ahead cfg history (cfg.node.position cursor) ledger

def PhaseInv (cfg : Config) (s : System) : Phase → Prop
  | .stopped => True
  | .polling l =>
    (∀ x ∈ l.seen.ids, x ∈ s.yielded) ∧
      (l.positionResolved = true → truthy l.cursor = true →
        s.origin = s.savedOrigin ∧ l.startLedger = none ∧
          ∃ st, s.saved = some st ∧ l.cursor = some st.cursor)
  | .holding l batch q =>
    (∀ x ∈ (turn cfg.options l.seen batch).seen.ids, x ∈ s.yielded) ∧
      cfg.node.position batch.cursor = q ∧
        At cfg s.history s.tip s.yielded s.origin batch.cursor (turn cfg.options l.seen batch).savedLedger

structure Inv (cfg : Config) (s : System) : Prop where
  sorted : s.history.Pairwise (fun a b => a.ledger ≤ b.ledger)
  closed : ∀ e ∈ s.history, e.ledger ≤ s.tip
  saved : ∀ st, s.saved = some st →
    At cfg s.history s.tip s.yielded s.savedOrigin st.cursor st.ledger
  phase : PhaseInv cfg s s.phase

theorem Yielded.self {cfg : Config} {history : List RawEvent} {yielded : List String} {a b : Nat}
    (h : b ≤ a) : Yielded cfg history yielded a b := by
  intro i e ha hb
  omega

theorem Yielded.append {cfg : Config} {history events : List RawEvent} {yielded : List String}
    {a b : Nat} (h : Yielded cfg history yielded a b) (hb : b ≤ history.length) :
    Yielded cfg (history ++ events) yielded a b := by
  intro i e hai hib he hs
  rw [List.getElem?_append_left (by omega)] at he
  exact h i e hai hib he hs

theorem Ahead.append {cfg : Config} {history events : List RawEvent} {q ledger : Nat}
    (h : Ahead cfg history q ledger) (hq : q ≤ history.length)
    (he : ∀ e ∈ events, ledger ≤ e.ledger) : Ahead cfg (history ++ events) q ledger := by
  intro e hmem hs
  rw [List.drop_append_of_le_length hq] at hmem
  rcases List.mem_append.mp hmem with hmem | hmem
  · exact h e hmem hs
  · exact he e hmem

section At

variable {cfg : Config} {history : List RawEvent} {tip : Nat} {yielded : List String} {origin : Nat}
  {cursor : String} {ledger : Nat}

theorem At.close (h : At cfg history tip yielded origin cursor ledger) {events : List RawEvent}
    (he : ∀ e ∈ events, e.ledger = tip + 1) :
    At cfg (history ++ events) (tip + 1) yielded origin cursor ledger := by
  have hlen := h.le_length
  have hpast := h.past
  refine ⟨by simp only [List.length_append]; omega, h.cursor_ne, h.behind.append hlen, by omega, ?_⟩
  refine h.ahead.append hlen ?_
  intro e hmem
  rw [he e hmem]
  omega

theorem At.more (h : At cfg history tip yielded origin cursor ledger) (fresh : List String) :
    At cfg history tip (yielded ++ fresh) origin cursor ledger :=
  { h with behind := fun i e ha hb he hs => List.mem_append_left _ (h.behind i e ha hb he hs) }

theorem At.unyielded (h : At cfg history tip yielded origin cursor ledger) {i : Nat} {e : RawEvent}
    (hi : origin ≤ i) (he : history[i]? = some e)
    (hs : cfg.node.selects cfg.options.filters e = true) (hno : e.id ∉ yielded) :
    ledger ≤ e.ledger := by
  by_cases hlt : i < cfg.node.position cursor
  · exact absurd (h.behind i e hi hlt he hs) hno
  · refine h.ahead e ?_ hs
    refine List.mem_iff_getElem?.mpr ⟨i - cfg.node.position cursor, ?_⟩
    rw [List.getElem?_drop]
    rwa [show cfg.node.position cursor + (i - cfg.node.position cursor) = i by omega]

end At

theorem ledgerIndex_le_of_ledger_le {history : List RawEvent} {i ledger : Nat} {e : RawEvent}
    (he : history[i]? = some e) (hl : ledger ≤ e.ledger) : ledgerIndex history ledger ≤ i := by
  by_contra hlt
  have hlen : i < (history.takeWhile (fun x => decide (x.ledger < ledger))).length := by
    unfold ledgerIndex at hlt
    omega
  obtain ⟨_, rfl⟩ := List.getElem?_eq_some_iff.mp he
  have hinit : history.takeWhile (fun x => decide (x.ledger < ledger)) <+: history :=
    List.takeWhile_prefix _
  have hmem := List.getElem_mem hlen
  rw [hinit.getElem hlen] at hmem
  have hbelow := List.mem_takeWhile_imp hmem
  simp only [decide_eq_true_eq] at hbelow
  omega

/-! ### Steps -/

theorem inv_initial {cfg : Config} {s : System} (h : Initial cfg s) : Inv cfg s where
  sorted := h.sorted
  closed := h.closed
  saved := by
    intro st hst
    obtain ⟨hle, horigin, hne, hpast, hahead⟩ := h.saved st hst
    exact ⟨hle, hne, .self (by omega), hpast, hahead⟩
  phase := by
    rw [h.phase]
    trivial

theorem Inv.close {cfg : Config} {s : System} (h : Inv cfg s) {events : List RawEvent}
    (he : ∀ e ∈ events, e.ledger = s.tip + 1) :
    Inv cfg { s with history := s.history ++ events, tip := s.tip + 1 } where
  sorted := by
    refine List.pairwise_append.mpr ⟨h.sorted, ?_, ?_⟩
    · refine List.Pairwise.imp_of_mem (R := fun _ _ => True) ?_ (List.pairwise_of_forall (by simp))
      intro a b ha hb _
      rw [he a ha, he b hb]
    · intro a ha b hb
      have := h.closed a ha
      rw [he b hb]
      omega
  closed := by
    intro e hmem
    simp only
    rcases List.mem_append.mp hmem with hmem | hmem
    · have := h.closed e hmem
      omega
    · rw [he e hmem]
  saved st hst := (h.saved st hst).close he
  phase := by
    have hphase := h.phase
    show PhaseInv cfg { s with history := s.history ++ events, tip := s.tip + 1 } s.phase
    cases hp : s.phase with
    | stopped => trivial
    | polling l =>
      rw [hp] at hphase
      exact hphase
    | holding l batch q =>
      rw [hp] at hphase
      exact ⟨hphase.1, hphase.2.1, hphase.2.2.close he⟩

/-- The request of a page is asked from a place behind which all is yielded. -/
theorem yielded_to_start {cfg : Config} {s : System} (h : Inv cfg s) {l : StreamLocals}
    {req : GetEventsRequest} (hp : s.phase = .polling l) (hr : l.positionResolved = true)
    (hreq : Asked cfg.options l (s.saved.map CursorState.ledger) req) :
    req.filters = cfg.options.filters ∧
      Yielded cfg s.history s.yielded
        (if truthy l.cursor then s.origin else cfg.node.start s.history req)
        (cfg.node.start s.history req) := by
  have hphase := h.phase
  rw [hp] at hphase
  cases hc : truthy l.cursor with
  | false =>
    refine ⟨?_, .self (by simp)⟩
    cases hreq with
    | direct hreq => exact filters_getEventsRequest hreq
    | fallback ledger hcursor _ _ =>
      have hnone : (getEventsArgs cfg.options l (s.saved.map CursorState.ledger)).cursor = none := by
        simp only [getEventsArgs, hc, Bool.false_eq_true, if_false]
      rw [hnone] at hcursor
      cases hcursor
  | true =>
    obtain ⟨horigin, hstart, st, hst, hcur⟩ := hphase.2 hr hc
    have hat := h.saved st hst
    rw [if_pos rfl, horigin]
    cases hreq with
    | direct hreq =>
      rw [getEventsRequest_ofCursor hcur hat.cursor_ne] at hreq
      cases hreq
      exact ⟨rfl, hat.behind⟩
    | fallback ledger _ hledger hreq =>
      simp only [getEventsArgs, hc, if_true, hstart, hst, Option.map_some, Option.none_or,
        Option.some.injEq] at hledger
      simp only [getEventsArgs, hc, if_true, getEventsRequest, Except.ok.injEq] at hreq
      subst hledger hreq
      refine ⟨rfl, ?_⟩
      intro i e hi hlt he hs
      by_contra hno
      have hle := ledgerIndex_le_of_ledger_le he (hat.unyielded hi he hs hno)
      simp only [Node.start] at hlt
      omega

/-- The ledger to be saved with a page is of the past, and nothing from the page's
cursor on lies below it. -/
theorem savedLedger_ahead {cfg : Config} {s : System} (h : Inv cfg s) (seen : RecentIds)
    {req : GetEventsRequest} {batch : EventBatch} {q : Nat}
    (hs : cfg.node.Covers s.history req batch q) (hl : batch.latestLedger ≤ s.tip)
    (hok : Tight cfg s.history batch q) :
    (turn cfg.options seen batch).savedLedger ≤ s.tip ∧
      Ahead cfg s.history q (turn cfg.options seen batch).savedLedger := by
  simp only [turn]
  by_cases hlast : lastLedger batch = 0
  · rw [if_pos hlast]
    exact ⟨hl, hok hlast⟩
  · rw [if_neg hlast]
    unfold lastLedger at hlast ⊢
    cases hget : batch.events.getLast? with
    | none => simp [hget] at hlast
    | some e =>
      have hmem : e ∈ stretch s.history (cfg.node.start s.history req) q := by
        have hin := List.mem_of_getLast? hget
        rw [hs.events] at hin
        exact List.mem_of_mem_filter hin
      refine ⟨h.closed e (mem_of_mem_stretch hmem), ?_⟩
      intro x hx _
      have hsorted := h.sorted
      rw [← List.take_append_drop q s.history] at hsorted
      exact (List.pairwise_append.mp hsorted).2.2 e (List.mem_of_mem_drop hmem) x hx

theorem Inv.page {cfg : Config} {s : System} (h : Inv cfg s) {l : StreamLocals}
    {req : GetEventsRequest} {q : Nat} {batch : EventBatch} (hp : s.phase = .polling l)
    (hr : l.positionResolved = true)
    (hreq : Asked cfg.options l (s.saved.map CursorState.ledger) req)
    (hs : cfg.node.Covers s.history req batch q) (hl : batch.latestLedger ≤ s.tip)
    (hok : Tight cfg s.history batch q) :
    Inv cfg { s with
      phase := .holding l batch q
      yielded := s.yielded ++ (turn cfg.options l.seen batch).fresh.map RawEvent.id
      origin := if truthy l.cursor then s.origin else cfg.node.start s.history req } := by
  have hphase := h.phase
  rw [hp] at hphase
  obtain ⟨hfilters, hbehind⟩ := yielded_to_start h hp hr hreq
  obtain ⟨hevents, hseen⟩ := mem_yielded_of_turn cfg.options batch hphase.1
  obtain ⟨hpast, hahead⟩ := savedLedger_ahead h l.seen hs hl hok
  refine ⟨h.sorted, h.closed, fun st hst => (h.saved st hst).more _, hseen, hs.cursor, ?_⟩
  refine ⟨by rw [hs.cursor]; exact hs.le_length, hs.cursor_ne, ?_, hpast, by rwa [hs.cursor]⟩
  rw [hs.cursor]
  intro i e hi hlt he hsel
  by_cases hstart : i < cfg.node.start s.history req
  · exact List.mem_append_left _ (hbehind i e hi hstart he hsel)
  · refine hevents e ?_
    rw [hs.events, hfilters]
    exact List.mem_filter.mpr ⟨mem_stretch_of_getElem? (by omega) hlt he, hsel⟩

theorem Inv.step {cfg : Config} {s t : System} (h : Inv cfg s)
    (hst : Step cfg (Tight cfg) s t) : Inv cfg t := by
  have hphase := h.phase
  cases hst with
  | close events he => exact h.close he
  | start hp =>
    refine ⟨h.sorted, h.closed, h.saved, ?_, ?_⟩
    · intro x hx
      simp [initialLocals, RecentIds.new] at hx
    · intro hr
      cases hr
  | @resolve l window hp hr =>
    rw [hp] at hphase
    have hseen : (resolveStart cfg.options s.saved window l).seen = l.seen := by
      unfold resolveStart
      split <;> rfl
    refine ⟨h.sorted, h.closed, h.saved, by rw [hseen]; exact hphase.1, ?_⟩
    intro _ hc
    cases hsaved : s.saved with
    | none => simp [resolveStart, hsaved, truthy] at hc
    | some st => exact ⟨rfl, rfl, st, rfl, rfl⟩
  | page batch hp hr hreq hs hl hok => exact h.page hp hr hreq hs hl hok
  | outOfRange err window hp hr hc =>
    rw [hp] at hphase
    refine ⟨h.sorted, h.closed, by simp, hphase.1, ?_⟩
    intro _ hcursor
    cases hcursor
  | @save l batch q now hp =>
    rw [hp] at hphase
    obtain ⟨hseen, hq, hat⟩ := hphase
    refine ⟨h.sorted, h.closed, ?_, ?_⟩
    · intro st hst
      cases hst
      exact hat
    · simp only
      split
      · trivial
      · exact ⟨hseen, fun _ _ => ⟨rfl, rfl, _, rfl, rfl⟩⟩
  | stop => exact ⟨h.sorted, h.closed, h.saved, trivial⟩

/-- Over nodes whose empty pages leave nothing behind, in every state reached: no
event still to be yielded lies below the saved ledger, and so none lies before
the place a replacement node would be asked from. -/
theorem saved_ledger_safe (cfg : Config) {s : System}
    (h : Reachable (Initial cfg) (Step cfg (Tight cfg)) s) {st : CursorState}
    (hst : s.saved = some st) :
    ∀ i e, s.savedOrigin ≤ i → s.history[i]? = some e →
      cfg.node.selects cfg.options.filters e = true → e.id ∉ s.yielded →
        st.ledger ≤ e.ledger ∧ ledgerIndex s.history st.ledger ≤ i := by
  have hinv : Inv cfg s := h.invariant (fun _ hs => inv_initial hs) (fun _ _ hs hstep => hs.step hstep)
  intro i e hi he hs hno
  have hle := (hinv.saved st hst).unyielded hi he hs hno
  exact ⟨hle, ledgerIndex_le_of_ledger_le he hle⟩

/-! ### Two pages of one history -/

def plainEvent (id : String) (ledger : Nat) : RawEvent where
  id := id
  type := .contract
  ledger := ledger
  ledgerClosedAt := "1970-01-01T00:00:00Z"
  contractId := "C"
  topic := []
  value := ""
  txHash := "00"
  transactionIndex := 0
  operationIndex := 0
  inSuccessfulContractCall := true

def twoEvents : List RawEvent := [plainEvent "a" 5, plainEvent "b" 7]

def bareConfig : Config := ⟨referenceNode, { contractIds := [] }⟩

def firstLocals : StreamLocals :=
  resolveStart bareConfig.options none ⟨10, 1⟩ (initialLocals bareConfig.options)

def firstRequest : GetEventsRequest :=
  .ofRange bareConfig.options.filters 1 none (clampLimit (some (.ofNat 200)))

theorem asked_firstRequest : Asked bareConfig.options firstLocals none firstRequest := .direct rfl

def resolved : System where
  history := twoEvents
  tip := 10
  saved := none
  phase := .polling firstLocals
  yielded := []
  origin := 0
  savedOrigin := 0

theorem reachable_resolved (served : List RawEvent → EventBatch → Nat → Prop) :
    Reachable (Initial bareConfig) (Step bareConfig served) resolved := by
  have h0 : Reachable (Initial bareConfig) (Step bareConfig served)
      { resolved with phase := .stopped } := by
    refine .start ⟨?_, ?_, rfl, by simp [resolved]⟩
    · simp [resolved, twoEvents, plainEvent]
    · simp [resolved, twoEvents, plainEvent]
  exact (h0.next (.start rfl)).next (.resolve ⟨10, 1⟩ rfl rfl)

theorem saved_ledger_safe_partial_page : ∃ s st, Reachable (Initial bareConfig)
    (Step bareConfig (Tight bareConfig)) s ∧ s.saved = some st ∧ st.ledger = 5 ∧
      "b" ∉ s.yielded ∧ st.ledger ≤ (plainEvent "b" 7).ledger ∧
        ledgerIndex s.history st.ledger ≤ 1 := by
  have hpage := (reachable_resolved (Tight bareConfig)).next
    (.page (q := 1) ⟨[plainEvent "a" 5], placeCursor 1, 10, 1⟩ rfl rfl asked_firstRequest
      ⟨by decide, by decide, by decide, placeCursor_ne 1, position_placeCursor 1⟩ (by decide)
      (by intro h; simp [lastLedger, plainEvent] at h))
  have hsaved := hpage.next (.save "1970-01-01T00:00:00.000Z" rfl)
  have hno : "b" ∉ (turn bareConfig.options (initialLocals bareConfig.options).seen
      ⟨[plainEvent "a" 5], placeCursor 1, 10, 1⟩).fresh.map RawEvent.id := by decide +kernel
  have hb := saved_ledger_safe bareConfig hsaved rfl 1 (plainEvent "b" 7) (by decide) rfl rfl hno
  exact ⟨_, _, hsaved, rfl, rfl, hno, hb.1, hb.2⟩

/-- An empty page that reached no event yet saves the node's latest ledger. -/
theorem saved_ledger_past_empty_page : ∃ s st e, Reachable (Initial bareConfig)
    (Step bareConfig (fun _ _ _ => True)) s ∧ s.saved = some st ∧ s.savedOrigin = 0 ∧
      e ∈ s.history ∧ bareConfig.node.selects bareConfig.options.filters e = true ∧
        e.id ∉ s.yielded ∧ e.ledger < st.ledger := by
  have hpage := (reachable_resolved (fun _ _ _ => True)).next
    (.page (q := 0) ⟨[], placeCursor 0, 10, 1⟩ rfl rfl asked_firstRequest
      ⟨by decide, by decide, by decide, placeCursor_ne 0, position_placeCursor 0⟩ (by decide) trivial)
  have hsaved := hpage.next (.save "1970-01-01T00:00:00.000Z" rfl)
  exact ⟨_, _, plainEvent "a" 5, hsaved, rfl, rfl, by decide, rfl, by decide, by decide⟩

end SavedLedger

end SorobanLens
