import SorobanLens.Cli.Pipeline

/-!
At-least-once delivery and exactly-once storage. The invariant: what lies behind
a position, saved or in memory, is stored, and every id the stream would drop as
a repeat is stored as well.
-/

set_option autoImplicit false

namespace SorobanLens

def Covered (cfg : PipelineConfig) (history : List RawEvent) (db : Db) (a b : Nat) : Prop :=
  ∀ i e, a ≤ i → i < b → history[i]? = some e →
    cfg.node.selects cfg.options.filters e = true → db.hasEvent e.id

def SeenStored (db : Db) (seen : RecentIds) : Prop := ∀ id ∈ seen.ids, db.hasEvent id

theorem Covered.mono {cfg : PipelineConfig} {history : List RawEvent} {db db' : Db} {a b : Nat}
    (hdb : ∀ id, db.hasEvent id → db'.hasEvent id) (h : Covered cfg history db a b) :
    Covered cfg history db' a b :=
  fun i e ha hb he hs => hdb _ (h i e ha hb he hs)

theorem Covered.append {cfg : PipelineConfig} {history : List RawEvent} {db : Db} {a b : Nat}
    (e : RawEvent) (hb : b ≤ history.length) (h : Covered cfg history db a b) :
    Covered cfg (history ++ [e]) db a b := by
  intro i f hai hib hf hs
  rw [List.getElem?_append_left (by omega)] at hf
  exact h i f hai hib hf hs

theorem Covered.join {cfg : PipelineConfig} {history : List RawEvent} {db : Db} {a b c : Nat}
    (h : Covered cfg history db a b) (g : Covered cfg history db b c) :
    Covered cfg history db a c := by
  intro i e ha hc he hs
  by_cases hib : i < b
  · exact h i e ha hib he hs
  · exact g i e (by omega) hc he hs

theorem Covered.self {cfg : PipelineConfig} {history : List RawEvent} {db : Db} {a b : Nat}
    (h : b ≤ a) : Covered cfg history db a b := by
  intro i e ha hb
  omega

theorem Covered.of_page {cfg : PipelineConfig} {history : List RawEvent} {db : Db} {p q : Nat}
    (h : ∀ e ∈ (stretch history p q).filter (cfg.node.selects cfg.options.filters),
      db.hasEvent e.id) : Covered cfg history db p q := by
  intro i e hp hq he hs
  exact h e (List.mem_filter.mpr ⟨mem_stretch_of_getElem? hp hq he, hs⟩)

theorem stretch_append {history : List RawEvent} {p q : Nat} (e : RawEvent)
    (hq : q ≤ history.length) : stretch (history ++ [e]) p q = stretch history p q := by
  simp [stretch, List.take_append_of_le_length hq]

structure PageInv (cfg : PipelineConfig) (history : List RawEvent) (db : Db) (origin : Nat)
    (batch : EventBatch) (p q : Nat) : Prop where
  le_length : q ≤ history.length
  start_le : p ≤ q
  cursor_ne : batch.cursor ≠ ""
  cursor : cfg.node.position batch.cursor = q
  events : batch.events = (stretch history p q).filter (cfg.node.selects cfg.options.filters)
  covered : Covered cfg history db origin p

theorem PageInv.mono {cfg : PipelineConfig} {history : List RawEvent} {db db' : Db}
    {origin p q : Nat} {batch : EventBatch} (hdb : ∀ id, db.hasEvent id → db'.hasEvent id)
    (h : PageInv cfg history db origin batch p q) : PageInv cfg history db' origin batch p q :=
  { h with covered := h.covered.mono hdb }

theorem PageInv.append {cfg : PipelineConfig} {history : List RawEvent} {db : Db}
    {origin p q : Nat} {batch : EventBatch} (e : RawEvent)
    (h : PageInv cfg history db origin batch p q) :
    PageInv cfg (history ++ [e]) db origin batch p q :=
  { h with
    le_length := by
      have := h.le_length
      simp only [List.length_append, List.length_singleton]
      omega
    events := by rw [stretch_append e h.le_length]; exact h.events
    covered := h.covered.append e (h.start_le.trans h.le_length) }

def PhaseInv (cfg : PipelineConfig) (history : List RawEvent) (db : Db) (origin : Nat) :
    Phase → Prop
  | .stopped => True
  | .polling l =>
    SeenStored db l.seen ∧
      (l.positionResolved = true → ∀ c, l.cursor = some c → c ≠ "" →
        cfg.node.position c ≤ history.length ∧
          Covered cfg history db origin (cfg.node.position c))
  | .yielded l batch p q => SeenStored db l.seen ∧ PageInv cfg history db origin batch p q
  | .resumed l batch p q =>
    SeenStored db (turn cfg.options l.seen batch).seen ∧
      PageInv cfg history db origin batch p q ∧ Covered cfg history db p q

structure DeliveryInv (cfg : PipelineConfig) (s : Pipeline) : Prop where
  admitted : ∀ e ∈ s.history, e.type.admitted = true
  saved : ∀ st, loadCursor cfg.key s.db = .ok (some st) →
    cfg.node.position st.cursor ≤ s.history.length ∧
      Covered cfg s.history s.db s.savedOrigin (cfg.node.position st.cursor)
  passed : ∀ i, s.passed i → i < s.history.length ∧
    ∀ e, s.history[i]? = some e → cfg.node.selects cfg.options.filters e = true →
      s.db.hasEvent e.id
  phase : PhaseInv cfg s.history s.db s.origin s.phase

theorem deliveryInv_initial {cfg : PipelineConfig} {s : Pipeline} (h : s.Initial cfg) :
    DeliveryInv cfg s where
  admitted := h.history
  saved := fun st hst => ⟨(h.saved st hst).1, .self (h.saved st hst).2⟩
  passed := fun i hi => absurd hi (h.passed i)
  phase := by
    rw [h.phase]
    trivial

/-- A new event moves no place of the history and unsettles nothing stored. -/
theorem deliveryInv_emit {cfg : PipelineConfig} {s : Pipeline} (h : DeliveryInv cfg s)
    {e : RawEvent} (he : e.type.admitted = true) :
    DeliveryInv cfg { s with history := s.history ++ [e] } := by
  have hlen : (s.history ++ [e]).length = s.history.length + 1 := by simp
  refine ⟨?_, ?_, ?_, ?_⟩
  · intro f hf
    rcases List.mem_append.mp hf with hf | hf
    · exact h.admitted f hf
    · rw [List.mem_singleton.mp hf]
      exact he
  · intro st hst
    obtain ⟨hle, hc⟩ := h.saved st hst
    exact ⟨by simp only [hlen]; omega, hc.append e hle⟩
  · intro i hi
    obtain ⟨hlt, hst⟩ := h.passed i hi
    refine ⟨by simp only [hlen]; omega, ?_⟩
    intro f hf
    simp only [List.getElem?_append_left hlt] at hf
    exact hst f hf
  · have hp := h.phase
    show PhaseInv cfg (s.history ++ [e]) s.db s.origin s.phase
    cases hs : s.phase with
    | stopped => trivial
    | polling l =>
      rw [hs] at hp
      refine ⟨hp.1, ?_⟩
      intro hr c hc hne
      obtain ⟨hle, hcov⟩ := hp.2 hr c hc hne
      exact ⟨by simp only [hlen]; omega, hcov.append e hle⟩
    | yielded l batch p q =>
      rw [hs] at hp
      exact ⟨hp.1, hp.2.append e⟩
    | resumed l batch p q =>
      rw [hs] at hp
      exact ⟨hp.1, hp.2.1.append e, hp.2.2.append e hp.2.1.le_length⟩

/-- Only `phase` is left to show of a step that keeps the saved cursor and loses no row. -/
theorem DeliveryInv.of_db {cfg : PipelineConfig} {s : Pipeline} (db' : Db) (phase : Phase)
    (origin : Nat) (h : DeliveryInv cfg s) (hdb : ∀ id, s.db.hasEvent id → db'.hasEvent id)
    (hstate : ∀ st, loadCursor cfg.key db' = .ok (some st) →
      loadCursor cfg.key s.db = .ok (some st))
    (hp : PhaseInv cfg s.history db' origin phase) :
    DeliveryInv cfg { s with db := db', phase := phase, origin := origin } where
  admitted := h.admitted
  saved := fun st hst => ⟨(h.saved st (hstate st hst)).1, (h.saved st (hstate st hst)).2.mono hdb⟩
  passed := fun i hi =>
    ⟨(h.passed i hi).1, fun e he hs => hdb _ ((h.passed i hi).2 e he hs)⟩
  phase := hp

theorem stored_of_fresh {cfg : PipelineConfig} {seen : RecentIds} {batch : EventBatch} {db : Db}
    (hseen : SeenStored db seen)
    (hfresh : ∀ e ∈ (turn cfg.options seen batch).fresh, db.hasEvent e.id) :
    (∀ e ∈ batch.events, db.hasEvent e.id) ∧
      SeenStored db (turn cfg.options seen batch).seen := by
  constructor
  · intro e he
    rcases mem_filterFresh seen he with hf | hs | ⟨f, hf, hid⟩
    · exact hfresh e hf
    · exact hseen e.id hs
    · rw [← hid]
      exact hfresh f hf
  · intro id hid
    rcases mem_seen_filterFresh hid with hs | ⟨f, hf, rfl⟩
    · exact hseen id hs
    · exact hfresh f hf

theorem deliveryInv_page {cfg : PipelineConfig} {s : Pipeline} (h : DeliveryInv cfg s)
    {l : StreamLocals} {req : GetEventsRequest} {q : Nat} {batch : EventBatch}
    {savedLedger : Option Nat} (hp : s.phase = .polling l) (hr : l.positionResolved = true)
    (hreq : getEventsRequest (getEventsArgs cfg.options l savedLedger) = .ok req)
    (hs : cfg.node.Serves s.history req batch q) :
    DeliveryInv cfg { s with
      phase :=
        if (turn cfg.options l.seen batch).fresh = [] then
          .resumed l batch (cfg.node.start s.history req) q
        else .yielded l batch (cfg.node.start s.history req) q
      origin := if truthy l.cursor then s.origin else cfg.node.start s.history req } := by
  have hphase := h.phase
  rw [hp] at hphase
  obtain ⟨hseen, hpos⟩ := hphase
  -- the walk continues where the position stands, or begins at the ledger asked for
  have hcov : Covered cfg s.history s.db
      (if truthy l.cursor then s.origin else cfg.node.start s.history req)
      (cfg.node.start s.history req) := by
    cases hc : l.cursor with
    | none => exact .self (by simp [truthy])
    | some c =>
      by_cases hne : c = ""
      · exact .self (by simp [truthy, hne])
      · rw [getEventsRequest_ofCursor hc hne] at hreq
        cases hreq
        simp only [truthy, Option.any_some, bne_iff_ne, ne_eq, hne, not_false_eq_true, if_true]
        exact (hpos hr c hc hne).2
  have hpage : PageInv cfg s.history s.db
      (if truthy l.cursor then s.origin else cfg.node.start s.history req) batch
      (cfg.node.start s.history req) q :=
    { le_length := hs.le_length
      start_le := hs.start_le
      cursor_ne := hs.cursor_ne
      cursor := hs.cursor
      events := by rw [hs.events, filters_getEventsRequest hreq]
      covered := hcov }
  refine h.of_db s.db _ _ (fun _ hid => hid) (fun _ hst => hst) ?_
  by_cases hf : (turn cfg.options l.seen batch).fresh = []
  · rw [if_pos hf]
    obtain ⟨hall, hseen'⟩ := stored_of_fresh hseen
      (show ∀ e ∈ (turn cfg.options l.seen batch).fresh, s.db.hasEvent e.id by simp [hf])
    refine ⟨hseen', hpage, .of_page ?_⟩
    rw [← hpage.events]
    exact hall
  · rw [if_neg hf]
    exact ⟨hseen, hpage⟩

theorem deliveryInv_insert {cfg : PipelineConfig} {s : Pipeline} (h : DeliveryInv cfg s)
    {l : StreamLocals} {batch : EventBatch} {p q n : Nat} {db' : Db} {now : Nat → String}
    (hp : s.phase = .yielded l batch p q)
    (hi : insertEvents cfg.rt cfg.build now (turn cfg.options l.seen batch).fresh s.db =
      (.ok n, db')) :
    DeliveryInv cfg { s with db := db', phase := .resumed l batch p q } := by
  have hphase := h.phase
  rw [hp] at hphase
  obtain ⟨hseen, hpage⟩ := hphase
  obtain ⟨hmono, hstate, hall⟩ := insertEvents_spec hi
  have hfresh : ∀ e ∈ (turn cfg.options l.seen batch).fresh, db'.hasEvent e.id := by
    intro e he
    have hb : e ∈ batch.events := filterFresh_subset he
    rw [hpage.events] at hb
    exact hall n rfl e he (h.admitted e (mem_of_mem_stretch (List.mem_of_mem_filter hb)))
  obtain ⟨hstored, hseen'⟩ :=
    stored_of_fresh (fun id hid => hmono id (hseen id hid)) hfresh
  refine h.of_db db' _ s.origin hmono
    (fun st hst => by rwa [loadCursor_congr hstate] at hst) ?_
  refine ⟨hseen', hpage.mono hmono, .of_page ?_⟩
  rw [← hpage.events]
  exact hstored

theorem deliveryInv_save {cfg : PipelineConfig} {s : Pipeline} (h : DeliveryInv cfg s)
    {l : StreamLocals} {batch : EventBatch} {p q : Nat} {db' : Db} {now : String}
    (hp : s.phase = .resumed l batch p q)
    (hd : saveCursor cfg.key (cursorState batch (turn cfg.options l.seen batch) now) s.db =
      (.ok (), db')) :
    DeliveryInv cfg { s with
      db := db'
      phase :=
        if (turn cfg.options l.seen batch).progress.reachedEndLedger then .stopped
        else .polling (advance l batch (turn cfg.options l.seen batch))
      savedOrigin := s.origin
      passed := fun i => s.passed i ∨ (p ≤ i ∧ i < q) } := by
  have hphase := h.phase
  rw [hp] at hphase
  obtain ⟨hseen, hpage, hcov⟩ := hphase
  obtain ⟨he, hsaved⟩ := saveCursor_ok hd
  have hdb : ∀ id, s.db.hasEvent id → db'.hasEvent id := fun id hid => hid.congr he
  have hwalk : Covered cfg s.history db' s.origin q := (hpage.covered.join hcov).mono hdb
  refine ⟨h.admitted, ?_, ?_, ?_⟩
  · intro st hst
    have hc : cfg.node.position st.cursor = q := by
      rw [hsaved st hst]
      exact hpage.cursor
    simp only [hc]
    exact ⟨hpage.le_length, hwalk⟩
  · rintro i (hi | ⟨hpi, hiq⟩)
    · exact ⟨(h.passed i hi).1, fun e hei hs => hdb _ ((h.passed i hi).2 e hei hs)⟩
    · exact ⟨hiq.trans_le hpage.le_length, fun e hei hs => hdb _ (hcov i e hpi hiq hei hs)⟩
  · simp only
    split
    · trivial
    · refine ⟨fun id hid => hdb id (hseen id hid), ?_⟩
      intro _ c hc _
      have hcq : cfg.node.position c = q := by
        cases hc
        exact hpage.cursor
      simp only [hcq]
      exact ⟨hpage.le_length, hwalk⟩

theorem deliveryInv_step {cfg : PipelineConfig} {s t : Pipeline} (h : DeliveryInv cfg s)
    (hst : Pipeline.Step cfg s t) : DeliveryInv cfg t := by
  cases hst with
  | emit e he => exact deliveryInv_emit h he
  | start hp hm =>
    have hk := keeps_migrateSync hm
    refine h.of_db _ _ s.origin (fun _ hid => hk.hasEvent hid) ?_ ⟨?_, ?_⟩
    · intro st hst
      obtain ⟨state, hl, hne, rfl⟩ := loadCursor_some.mp hst
      exact loadCursor_some.mpr ⟨state, hk.loadStreamState hl, hne, rfl⟩
    · intro id hid
      simp [initialLocals, RecentIds.new] at hid
    · intro hr
      cases hr
  | resolve window hp hr hl =>
    have hphase := h.phase
    rw [hp] at hphase
    refine h.of_db s.db _ _ (fun _ hid => hid) (fun _ hst => hst) ⟨?_, ?_⟩
    · intro id hid
      refine hphase.1 id ?_
      unfold resolveStart at hid
      split at hid <;> exact hid
    · intro _ c hc _
      unfold resolveStart at hc
      split at hc
      · cases hc
        exact h.saved _ hl
      · cases hc
  | page batch savedLedger hp hr hreq hs => exact deliveryInv_page h hp hr hreq hs
  | exhausted err hp hx hc => exact h
  | outOfRange err window now hp hr hc hd =>
    have hphase := h.phase
    rw [hp] at hphase
    obtain ⟨he, hl⟩ := clearCursor_ok hd
    have hdb : ∀ id, s.db.hasEvent id → _ := fun id hid => Db.hasEvent.congr he hid
    refine h.of_db _ _ s.origin hdb ?_ ⟨fun id hid => hdb id (hphase.1 id hid), ?_⟩
    · intro st hst
      rw [hl] at hst
      cases hst
    · intro _ c hcur
      cases hcur
  | insert now hp hi => exact deliveryInv_insert h hp hi
  | insertFails now hp hi =>
    obtain ⟨hmono, hstate, -⟩ := insertEvents_spec hi
    refine h.of_db _ _ s.origin hmono ?_ trivial
    intro st hst
    rwa [loadCursor_congr hstate] at hst
  | save now hp hd => exact deliveryInv_save h hp hd
  | stop =>
    exact h.of_db s.db .stopped s.origin (fun _ hid => hid) (fun _ hst => hst) trivial

/-- In every state of every run, with crashes anywhere: all selected events
behind the saved cursor have their row, and so has every event passed. -/
theorem delivery_safe (cfg : PipelineConfig) {s : Pipeline}
    (h : Reachable (Pipeline.Initial cfg) (Pipeline.Step cfg) s) :
    (∀ st, loadCursor cfg.key s.db = .ok (some st) →
      ∀ i e, s.savedOrigin ≤ i → i < cfg.node.position st.cursor → s.history[i]? = some e →
        cfg.node.selects cfg.options.filters e = true → s.db.hasOneRow e.id) ∧
    (∀ i e, s.passed i → s.history[i]? = some e →
      cfg.node.selects cfg.options.filters e = true → s.db.hasOneRow e.id) := by
  have hinv : DeliveryInv cfg s :=
    h.invariant (fun _ hs => deliveryInv_initial hs) (fun _ _ hs hst => deliveryInv_step hs hst)
  constructor
  · intro st hst i e hlo hhi he hs
    exact ((hinv.saved st hst).2 i e hlo hhi he hs).hasOneRow
  · intro i e hi he hs
    exact ((hinv.passed i hi).2 e he hs).hasOneRow

/-! ### One event, delivered -/

/-- A host on which the event below reads as it does anywhere: an empty text is
no XDR, and its ledger closed at the epoch. -/
def quietRuntime : Runtime where
  sdk := ⟨fun _ => .error "XDR Read Error", fun _ => .error "unreachable"⟩
  dateGetTime := fun _ => some 0
  toISOString := fun _ => "1970-01-01T00:00:00.000Z"
  gzipLength := fun text => text.utf8ByteSize + 18

def quietEvent (id : String) (ledger : Nat) : RawEvent where
  id := id
  type := .contract
  ledger := ledger
  ledgerClosedAt := "1970-01-01T00:00:00Z"
  contractId := "C"
  topic := []
  value := ""
  txHash := "00"
  transactionIndex := 0
  operationIndex := 0
  inSuccessfulContractCall := true

def quietConfig : PipelineConfig where
  rt := quietRuntime
  build := ⟨true⟩
  node := ⟨fun _ _ => true, String.length⟩
  options := { contractIds := [] }
  key := "stream"

def quietBatch : EventBatch := ⟨[quietEvent "a" 7], "c", 9, 5⟩

def quietStart : Pipeline := ⟨[quietEvent "a" 7], Db.new, .stopped, 0, 0, fun _ => False⟩

theorem quietTurn (l : StreamLocals) (hl : l.seen.ids = []) :
    (turn quietConfig.options l.seen quietBatch).fresh = [quietEvent "a" 7] := by
  obtain ⟨k, -, ha⟩ := add_of_not_mem l.seen (show (quietEvent "a" 7).id ∉ l.seen.ids by simp [hl])
  simp [turn, quietBatch, RecentIds.filterFresh, ha]

theorem quietServes : quietConfig.node.Serves [quietEvent "a" 7]
    (.ofRange quietConfig.options.filters 5 none (clampLimit (some (.ofNat 200)))) quietBatch 1 where
  start_le := by decide
  le_length := by decide
  events := by decide
  in_range := by
    intro e _ l hl
    cases hl
  limit := by simp [GetEventsRequest.limit, clampLimit, MAX_PAGE_SIZE, quietBatch]
  full := by simp
  cursor_ne := by decide
  cursor := by decide

def quietLocals : StreamLocals :=
  resolveStart quietConfig.options none ⟨9, 5⟩ (initialLocals quietConfig.options)

def quietNow : String := "1970-01-01T00:00:00.000Z"

def quietOpened : Db := (migrateSync ⟨true⟩ Db.new).2

def quietInserted : Db :=
  (insertEvents quietRuntime ⟨true⟩ (fun _ => quietNow) [quietEvent "a" 7] quietOpened).2

theorem delivery_safe_one_event : ∃ s, Reachable (Pipeline.Initial quietConfig)
    (Pipeline.Step quietConfig) s ∧ s.passed 0 ∧ s.db.hasOneRow "a" := by
  have hf := quietTurn quietLocals rfl
  have hm : (migrateSync ⟨true⟩ Db.new).1 = .ok () := by decide +kernel
  have hi : (insertEvents quietRuntime ⟨true⟩ (fun _ => quietNow) [quietEvent "a" 7] quietOpened).1 =
      .ok 1 := by decide +kernel
  have hd : (saveCursor "stream" (cursorState quietBatch
      (turn quietConfig.options quietLocals.seen quietBatch) quietNow) quietInserted).1 = .ok () := by
    decide +kernel
  have h0 : Reachable (Pipeline.Initial quietConfig) (Pipeline.Step quietConfig) quietStart := by
    refine .start ⟨?_, rfl, ?_, fun _ h => h⟩
    · simp [quietStart, quietEvent, EventType.admitted]
    · intro st hst
      cases hst
  have h1 : Reachable (Pipeline.Initial quietConfig) (Pipeline.Step quietConfig)
      ⟨[quietEvent "a" 7], quietOpened, .polling (initialLocals quietConfig.options), 0, 0,
        fun _ => False⟩ := h0.next (.start rfl (Prod.ext hm rfl))
  have h2 : Reachable (Pipeline.Initial quietConfig) (Pipeline.Step quietConfig)
      ⟨[quietEvent "a" 7], quietOpened, .polling quietLocals, 0, 0, fun _ => False⟩ :=
    h1.next (.resolve ⟨9, 5⟩ rfl rfl (show loadCursor "stream" quietOpened = .ok none from rfl))
  have h3 : Reachable (Pipeline.Initial quietConfig) (Pipeline.Step quietConfig)
      ⟨[quietEvent "a" 7], quietOpened, .yielded quietLocals quietBatch 0 1, 0, 0, fun _ => False⟩ := by
    have h := h2.next (.page quietBatch none rfl rfl rfl quietServes)
    simp only [hf, List.cons_ne_nil, if_false] at h
    exact h
  have h4 : Reachable (Pipeline.Initial quietConfig) (Pipeline.Step quietConfig)
      ⟨[quietEvent "a" 7], quietInserted, .resumed quietLocals quietBatch 0 1, 0, 0, fun _ => False⟩ :=
    h3.next (.insert (n := 1) (fun _ => quietNow) rfl (by rw [hf]; exact Prod.ext hi rfl))
  have h5 := h4.next (.save quietNow rfl (Prod.ext hd rfl))
  exact ⟨_, h5, .inr ⟨Nat.le_refl 0, Nat.zero_lt_one⟩,
    (delivery_safe quietConfig h5).2 0 (quietEvent "a" 7) (.inr ⟨Nat.le_refl 0, Nat.zero_lt_one⟩)
      rfl rfl⟩

end SorobanLens
