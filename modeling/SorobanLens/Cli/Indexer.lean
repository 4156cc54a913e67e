import SorobanLens.Cli.Delivery
import SorobanLens.Store.Ready

/-!
`runIndexer`: the poller's pages inserted one after the other, until a batch says
that the stream caught up. A page that is empty says so to nobody.
-/

set_option autoImplicit false

namespace SorobanLens

/-! ### `runIndexer` -/

structure IndexerConfig where
  rt : Runtime
  build : SqliteBuild
  contractIds : List String
  startLedger : Option Nat
  pageSize : JsNumber
  cursorKey : String
  maxEvents : Option Nat
  stopWhenCaughtUp : Bool

/-- `overrides.pageSize ?? numberOr(env.LENS_PAGE_SIZE, 200)`. -/
def resolvePageSize (override env : Option JsNumber) : JsNumber :=
  override.getD ((env.filter JsNumber.isFinite).getD (.ofNat 200))

def IndexerConfig.options (cfg : IndexerConfig) : PollerOptions where
  contractIds := cfg.contractIds
  startLedger := cfg.startLedger
  pageSize := some cfg.pageSize

structure IndexerResult where
  inserted : Nat
  seen : Nat
  lastLedger : Nat

inductive IndexerEnding where
  | returned (result : IndexerResult)
  | threw
  /-- Still polling after the calls counted. -/
  | running

/-- The body of the `for await`, and whether it breaks. -/
def consume (cfg : IndexerConfig) (now : Nat → String) (t : Turn) (r : IndexerResult) (db : Db) :
    Except StoreError (IndexerResult × Bool) × Db :=
  match insertEvents cfg.rt cfg.build now t.fresh db with
  | (.error err, db) => (.error err, db)
  | (.ok added, db) =>
    let r : IndexerResult := ⟨r.inserted + added, r.seen + t.fresh.length, t.progress.ledger⟩
    (.ok (r, cfg.maxEvents.any (fun m => decide (m ≤ r.seen)) ||
      (cfg.stopWhenCaughtUp && t.progress.caughtUp)), db)

/-- The consumer's turn: a page with nothing fresh never reaches it. -/
def yieldTo (cfg : IndexerConfig) (now : Nat → String) (t : Turn) (r : IndexerResult) (db : Db) :
    Except StoreError (IndexerResult × Bool) × Db :=
  if t.fresh = [] then (.ok (r, false), db) else consume cfg now t r db

/-- The loop over `poller.stream()`, for so many calls of `getEvents`. A `break`
leaves the cursor of the last page unsaved. -/
def indexerLoop (cfg : IndexerConfig) (now : Nat → String)
    (rpc : GetEventsRequest → EventBatch) :
    Nat → StreamLocals → IndexerResult → Db → IndexerEnding × Db
  | 0, _, _, db => (.running, db)
  | calls + 1, l, r, db =>
    match nextPage cfg.options none rpc l with
    | .error _ => (.threw, db)
    | .ok (batch, t) =>
      match yieldTo cfg now t r db with
      | (.error _, db) => (.threw, db)
      | (.ok (r, true), db) => (.returned r, db)
      | (.ok (r, false), db) =>
        match saveCursor cfg.cursorKey (cursorState batch t (now 0)) db with
        | (.error _, db) => (.threw, db)
        | (.ok _, db) => indexerLoop cfg now rpc calls (advance l batch t) r db

def runIndexer (cfg : IndexerConfig) (window : RetentionState) (now : Nat → String)
    (rpc : GetEventsRequest → EventBatch) (calls : Nat) (file : Db) : IndexerEnding × Db :=
  match migrateSync cfg.build file with
  | (.error _, db) => (.threw, db)
  | (.ok _, db) =>
    match loadCursor cfg.cursorKey db with
    | .error _ => (.threw, db)
    | .ok saved =>
      indexerLoop cfg now rpc calls
        (resolveStart cfg.options saved window (initialLocals cfg.options)) ⟨0, 0, 0⟩ db

/-! ### One indexing run to the tip -/

structure IndexOnce where
  rt : Runtime
  build : SqliteBuild
  contractIds : List String
  startLedger : Option Nat
  /-- The page size of the command line and of the environment. -/
  pageSizeFlag : Option JsNumber
  pageSizeEnv : Option JsNumber
  cursorKey : String
  now : Nat → String
  window : RetentionState
  node : Node
  history : List RawEvent
  rpc : GetEventsRequest → EventBatch
  file : Db
  /-- The database once opened, and the cursor saved in it. -/
  db : Db
  saved : Option CursorState
  distinct : (history.map RawEvent.id).Nodup
  admitted : ∀ e ∈ history, e.type.admitted = true
  serves : ∀ req, node.start history req ≤ history.length →
    ∃ q, node.Serves history req (rpc req) q
  opened : migrateSync build file = (.ok (), db)
  ready : db.Ready build
  loaded : loadCursor cursorKey db = .ok saved
  saved_le : ∀ st, saved = some st → node.position st.cursor ≤ history.length

namespace IndexOnce

variable (s : IndexOnce)

def pageSize : JsNumber := resolvePageSize s.pageSizeFlag s.pageSizeEnv

def config : IndexerConfig where
  rt := s.rt
  build := s.build
  contractIds := s.contractIds
  startLedger := s.startLedger
  pageSize := s.pageSize
  cursorKey := s.cursorKey
  maxEvents := none
  stopWhenCaughtUp := true

def selects (e : RawEvent) : Bool := s.node.selects s.config.options.filters e

def limit : Nat := (clampLimit (some s.pageSize)).floorNat

def firstLedger : Nat :=
  min (max (s.startLedger.getD s.window.oldestLedger) s.window.oldestLedger) s.window.latestLedger

def place : Nat :=
  match s.saved with
  | some st => s.node.position st.cursor
  | none => ledgerIndex s.history s.firstLedger

def pending : List RawEvent := (s.history.drop s.place).filter s.selects

def run (calls : Nat) : IndexerEnding × Db :=
  runIndexer s.config s.window s.now s.rpc calls s.file

def loop (calls : Nat) (l : StreamLocals) (r : IndexerResult) (db : Db) : IndexerEnding × Db :=
  indexerLoop s.config s.now s.rpc calls l r db

/-- After finitely many calls the run returns, with every pending event stored. -/
def Completes : Prop :=
  ∃ calls r db, s.run calls = (.returned r, db) ∧ ∀ e ∈ s.pending, db.hasEvent e.id

def CompletesFrom (l : StreamLocals) (r : IndexerResult) (db : Db) : Prop :=
  ∃ calls r' db', s.loop calls l r db = (.returned r', db') ∧ ∀ e ∈ s.pending, db'.hasEvent e.id

/-- The stream is about to ask from a place with `xs` still to come. -/
structure At (l : StreamLocals) (xs : List RawEvent) : Prop where
  ask : ∃ req, getEventsRequest (getEventsArgs s.config.options l none) = .ok req ∧
    req.limit = clampLimit (some s.pageSize) ∧ req.endLedger = none ∧
    s.node.start s.history req ≤ s.history.length ∧
    (s.history.drop (s.node.start s.history req)).filter s.selects = xs ∧
    SeenBefore s.history (s.node.start s.history req) l.seen

theorem at_start : s.At (resolveStart s.config.options s.saved s.window
    (initialLocals s.config.options)) s.pending := by
  have hseen : ∀ p, SeenBefore s.history p (initialLocals s.config.options).seen := by
    intro p x hx
    simp [initialLocals, RecentIds.new] at hx
  cases hs : s.saved with
  | some st =>
    have hne : st.cursor ≠ "" := by
      obtain ⟨state, -, hne, rfl⟩ := loadCursor_some.mp (hs ▸ s.loaded)
      exact hne
    have hplace : s.place = s.node.position st.cursor := by simp [place, hs]
    exact ⟨_, getEventsRequest_ofCursor rfl hne, rfl, rfl, s.saved_le st hs,
      by rw [pending, hplace]; rfl, hseen _⟩
  | none =>
    have hplace : s.place = ledgerIndex s.history s.firstLedger := by simp [place, hs]
    exact ⟨_, getEventsRequest_ofRange rfl rfl, rfl, rfl, ledgerIndex_le _ _,
      by rw [pending, hplace]; rfl, hseen _⟩

theorem page {l : StreamLocals} {xs : List RawEvent} (h : s.At l xs) :
    ∃ batch t, nextPage s.config.options none s.rpc l = .ok (batch, t) ∧
      t.fresh = xs.take s.limit ∧
      t.progress.caughtUp = JsNumber.lt (.ofNat (min s.limit xs.length)) s.pageSize ∧
      s.At (advance l batch t) (xs.drop s.limit) := by
  obtain ⟨req, hreq, hlim, hend, hle, hxs, hseen⟩ := h.ask
  have hfilters : s.node.selects req.filters = s.selects := by
    rw [filters_getEventsRequest hreq]
    rfl
  have hlimit : req.limit.floorNat = s.limit := by rw [hlim, limit]
  obtain ⟨q, hs⟩ := s.serves req hle
  obtain ⟨hev, hafter⟩ := hs.take_all hend
  rw [hfilters, hlimit, hxs] at hev hafter
  obtain ⟨hfresh, hseen'⟩ := hs.fresh s.distinct hseen
  refine ⟨s.rpc req, turn s.config.options l.seen (s.rpc req), ?_, ?_, ?_, ?_⟩
  · simp [nextPage, hreq, Except.map]
  · exact hfresh.trans hev
  · simp [turn, hev, PollerOptions.pageSizeOrDefault, IndexerConfig.options, config]
  · have hpos : s.node.position (s.rpc req).cursor = q := hs.cursor
    have hstart : s.node.start s.history (.ofCursor s.config.options.filters (s.rpc req).cursor
        (clampLimit (some s.config.options.pageSizeOrDefault))) = q := hpos
    refine ⟨_, getEventsRequest_ofCursor rfl hs.cursor_ne, rfl, rfl, ?_, ?_, ?_⟩
    · rw [hstart]
      exact hs.le_length
    · rw [hstart, hafter]
    · rw [hstart]
      exact hseen'

/-! ### What a pass does to the run -/

theorem save {db : Db} (h : db.Ready s.build) (batch : EventBatch) (t : Turn) :
    ∃ db', saveCursor s.cursorKey (cursorState batch t (s.now 0)) db = (.ok (), db') ∧
      db'.Ready s.build ∧ ∀ id, db'.hasEvent id ↔ db.hasEvent id := by
  obtain ⟨db', hsave, hready⟩ := h.saveStreamState
    ⟨s.cursorKey, batch.cursor, t.savedLedger, s.now 0⟩
  have he : db'.events = db.events := (saveStreamState_ok hsave).1
  refine ⟨db', hsave, hready, ?_⟩
  intro id
  simp [Db.hasEvent, he]

theorem loop_empty {l : StreamLocals} {batch : EventBatch} {t : Turn} {db : Db}
    (hready : db.Ready s.build) (hn : nextPage s.config.options none s.rpc l = .ok (batch, t))
    (hf : t.fresh = []) (r : IndexerResult) :
    ∃ db', (∀ calls, s.loop (calls + 1) l r db = s.loop calls (advance l batch t) r db') ∧
      db'.Ready s.build := by
  obtain ⟨db', hsave, hready', -⟩ := s.save hready batch t
  refine ⟨db', ?_, hready'⟩
  intro calls
  have hy : yieldTo s.config s.now t r db = (.ok (r, false), db) := by simp [yieldTo, hf]
  have hsave' : saveCursor s.config.cursorKey (cursorState batch t (s.now 0)) db =
      (.ok (), db') := hsave
  simp only [loop, indexerLoop, hn, hy, hsave']

theorem loop_page {l : StreamLocals} {batch : EventBatch} {t : Turn} {db : Db}
    (hready : db.Ready s.build) (hn : nextPage s.config.options none s.rpc l = .ok (batch, t))
    (hf : t.fresh ≠ []) (r : IndexerResult) :
    ∃ r' db', db'.Ready s.build ∧
      (∀ id, db'.hasEvent id ↔
        db.hasEvent id ∨ ∃ e ∈ t.fresh, e.type.admitted = true ∧ e.id = id) ∧
      (t.progress.caughtUp = true → ∀ calls, s.loop (calls + 1) l r db = (.returned r', db')) ∧
      (t.progress.caughtUp = false → ∀ calls,
        s.loop (calls + 1) l r db = s.loop calls (advance l batch t) r' db') := by
  obtain ⟨n, mid, hins, hmid⟩ := hready.insertEvents s.rt s.now t.fresh
  have hhas : ∀ id, mid.hasEvent id ↔
      db.hasEvent id ∨ ∃ e ∈ t.fresh, e.type.admitted = true ∧ e.id = id :=
    fun _ => hasEvent_insertEvents hins
  let r' : IndexerResult := ⟨r.inserted + n, r.seen + t.fresh.length, t.progress.ledger⟩
  have hy : yieldTo s.config s.now t r db = (.ok (r', t.progress.caughtUp), mid) := by
    simp [yieldTo, hf, consume, config, hins, r']
  cases hc : t.progress.caughtUp with
  | true =>
    rw [hc] at hy
    refine ⟨r', mid, hmid, hhas, ?_, fun h => by cases h⟩
    intro _ calls
    simp only [loop, indexerLoop, hn, hy]
  | false =>
    rw [hc] at hy
    obtain ⟨db', hsave, hready', hsame⟩ := s.save hmid batch t
    refine ⟨r', db', hready', ?_, (fun h => by cases h), ?_⟩
    · intro id
      rw [hsame, hhas]
    · intro _ calls
      have hsave' : saveCursor s.config.cursorKey (cursorState batch t (s.now 0)) mid =
          (.ok (), db') := hsave
      simp only [loop, indexerLoop, hn, hy, hsave']

theorem loop_never {l : StreamLocals} {xs : List RawEvent} (h : s.At l xs)
    (hx : xs.take s.limit = []) {db : Db} (hready : db.Ready s.build) (r : IndexerResult)
    (calls : Nat) : (s.loop calls l r db).1 = .running := by
  induction calls generalizing l db with
  | zero => rfl
  | succ calls ih =>
    obtain ⟨batch, t, hn, hfresh, -, hnext⟩ := s.page h
    obtain ⟨db', hloop, hready'⟩ := s.loop_empty hready hn (hfresh.trans hx) r
    have hsame : xs.drop s.limit = xs := by
      have hcut := List.take_append_drop s.limit xs
      rwa [hx, List.nil_append] at hcut
    rw [hsame] at hnext
    rw [hloop]
    exact ih hnext hready'

theorem not_completesFrom {l : StreamLocals} {xs : List RawEvent} (h : s.At l xs)
    (hx : xs.take s.limit = []) {db : Db} (hready : db.Ready s.build) (r : IndexerResult) :
    ¬ s.CompletesFrom l r db := by
  intro hc
  obtain ⟨calls, r', db', hrun, -⟩ := hc
  have hnever := s.loop_never h hx hready r calls
  rw [hrun] at hnever
  cases hnever

theorem completesFrom_of_last {l : StreamLocals} {r r' : IndexerResult} {db db' : Db}
    (h : ∀ calls, s.loop (calls + 1) l r db = (.returned r', db')) :
    s.CompletesFrom l r db ↔ ∀ e ∈ s.pending, db'.hasEvent e.id := by
  constructor
  · intro hc
    obtain ⟨calls, r₁, db₁, hrun, hall⟩ := hc
    cases calls with
    | zero => cases hrun
    | succ calls =>
      rw [h calls] at hrun
      cases hrun
      exact hall
  · intro hall
    exact ⟨1, r', db', h 0, hall⟩

theorem completesFrom_of_next {l l' : StreamLocals} {r r' : IndexerResult} {db db' : Db}
    (h : ∀ calls, s.loop (calls + 1) l r db = s.loop calls l' r' db') :
    s.CompletesFrom l r db ↔ s.CompletesFrom l' r' db' := by
  constructor
  · intro hc
    obtain ⟨calls, r₁, db₁, hrun, hall⟩ := hc
    cases calls with
    | zero => cases hrun
    | succ calls =>
      rw [h calls] at hrun
      exact ⟨calls, r₁, db₁, hrun, hall⟩
  · intro hc
    obtain ⟨calls, r₁, db₁, hrun, hall⟩ := hc
    exact ⟨calls + 1, r₁, db₁, (h calls).trans hrun, hall⟩

/-! ### When the run completes -/

theorem mem_pending_admitted {e : RawEvent} (he : e ∈ s.pending) : e.type.admitted = true :=
  s.admitted e (List.mem_of_mem_drop (List.mem_of_mem_filter he))

/-- Asking for whole pages, the run completes unless the last one is full. -/
theorem completesFrom_iff_mod (hsize : s.pageSize = .ofNat s.limit) (hpos : 1 ≤ s.limit)
    {l : StreamLocals} {xs : List RawEvent} (h : s.At l xs) {db : Db} (hready : db.Ready s.build)
    (hsub : ∀ e ∈ xs, e ∈ s.pending) (hgoal : ∀ e ∈ s.pending, e ∈ xs ∨ db.hasEvent e.id)
    (r : IndexerResult) : s.CompletesFrom l r db ↔ xs.length % s.limit ≠ 0 := by
  induction hlen : xs.length using Nat.strong_induction_on generalizing l xs db r with
  | _ n ih =>
    subst hlen
    obtain ⟨batch, t, hn, hfresh, hcaught, hnext⟩ := s.page h
    rw [hsize, JsNumber.ofNat_lt_ofNat] at hcaught
    cases xs with
    | nil => simpa using s.not_completesFrom h (by simp) hready r
    | cons x xs =>
      have hne : t.fresh ≠ [] := by
        rw [hfresh]
        intro hnil
        have hl := congrArg List.length hnil
        simp only [List.length_take, List.length_cons, List.length_nil] at hl
        omega
      obtain ⟨r', db', hready', hhas, hlast, hfull⟩ := s.loop_page hready hn hne r
      by_cases hshort : (x :: xs).length < s.limit
      · have hc : t.progress.caughtUp = true := by
          rw [hcaught]
          simp only [decide_eq_true_eq]
          omega
        rw [s.completesFrom_of_last (hlast hc), Nat.mod_eq_of_lt hshort]
        rw [List.take_of_length_le (by omega)] at hfresh
        simp only [List.length_cons, ne_eq, Nat.add_one_ne_zero, not_false_eq_true, iff_true]
        intro e he
        rw [hhas, hfresh]
        rcases hgoal e he with hx | hdb
        · exact .inr ⟨e, hx, s.mem_pending_admitted he, rfl⟩
        · exact .inl hdb
      · have hc : t.progress.caughtUp = false := by
          rw [hcaught]
          simp only [decide_eq_false_iff_not]
          omega
        have hdrop : ((x :: xs).drop s.limit).length = (x :: xs).length - s.limit :=
          List.length_drop
        rw [s.completesFrom_of_next (hfull hc), ih _ (by omega) hnext hready'
          (fun e he => hsub e (List.mem_of_mem_drop he)) ?_ r' rfl, hdrop,
          ← Nat.mod_eq_sub_mod (by omega)]
        intro e he
        rcases hgoal e he with hx | hdb
        · rw [← List.take_append_drop s.limit (x :: xs), List.mem_append] at hx
          rcases hx with hx | hx
          · exact .inr ((hhas e.id).mpr
              (.inr ⟨e, hfresh ▸ hx, s.mem_pending_admitted he, rfl⟩))
          · exact .inl hx
        · exact .inr ((hhas e.id).mpr (.inl hdb))

/-- Asking for less than the page size, the run returns after its first page. -/
theorem completesFrom_iff_first (hsize : JsNumber.lt (.ofNat s.limit) s.pageSize = true)
    (hpos : 1 ≤ s.limit) {l : StreamLocals} (h : s.At l s.pending) {db : Db}
    (hready : db.Ready s.build) (r : IndexerResult) : s.CompletesFrom l r db ↔
      (s.pending ≠ [] ∧ ∀ e ∈ s.pending.drop s.limit, db.hasEvent e.id) := by
  obtain ⟨batch, t, hn, hfresh, hcaught, -⟩ := s.page h
  by_cases hnil : s.pending = []
  · simpa [hnil] using s.not_completesFrom h (by simp [hnil]) hready r
  · have hne : t.fresh ≠ [] := by
      rw [hfresh]
      intro htake
      rcases List.take_eq_nil_iff.mp htake with hzero | hempty
      · omega
      · exact hnil hempty
    have hc : t.progress.caughtUp = true := by
      rw [hcaught]
      exact JsNumber.lt_of_ofNat_le (Nat.min_le_left _ _) hsize
    obtain ⟨r', db', -, hhas, hlast, -⟩ := s.loop_page hready hn hne r
    rw [s.completesFrom_of_last (hlast hc)]
    simp only [hhas, hfresh, ne_eq, hnil, not_false_eq_true, true_and]
    constructor
    · intro hall e he
      rcases hall e (List.mem_of_mem_drop he) with hdb | ⟨f, hf, -, hid⟩
      · exact hdb
      · have hd : (s.pending.map RawEvent.id).Nodup :=
          s.distinct.sublist (((List.filter_sublist).trans (List.drop_sublist _ _)).map _)
        rw [← List.take_append_drop s.limit s.pending, List.map_append] at hd
        exact absurd hid ((List.nodup_append.mp hd).2.2 f.id (List.mem_map_of_mem hf) e.id
          (List.mem_map_of_mem he))
    · intro hrest e he
      have hpart := he
      rw [← List.take_append_drop s.limit s.pending, List.mem_append] at hpart
      rcases hpart with hx | hx
      · exact .inr ⟨e, hx, s.mem_pending_admitted he, rfl⟩
      · exact .inl (hrest e hx)

theorem completes_eq : s.Completes ↔ s.CompletesFrom
    (resolveStart s.config.options s.saved s.window (initialLocals s.config.options))
    ⟨0, 0, 0⟩ s.db := by
  have ho : migrateSync s.config.build s.file = (.ok (), s.db) := s.opened
  have hl : loadCursor s.config.cursorKey s.db = .ok s.saved := s.loaded
  simp only [Completes, run, runIndexer, ho, hl]
  exact Iff.rfl

/-- Whole pages whose last one is not full, or a first page that is all. -/
def FillsNoLastPage : Prop :=
  (s.pageSize = .ofNat s.limit ∧ 1 ≤ s.limit ∧ s.pending.length % s.limit ≠ 0) ∨
    (JsNumber.lt (.ofNat s.limit) s.pageSize = true ∧ 1 ≤ s.limit ∧ s.pending ≠ [] ∧
      ∀ e ∈ s.pending.drop s.limit, s.db.hasEvent e.id)

theorem completes_iff_fills : s.Completes ↔ s.FillsNoLastPage := by
  rw [completes_eq, FillsNoLastPage]
  by_cases hpos : 1 ≤ s.limit
  · have hcases : s.pageSize = .ofNat s.limit ∨
        JsNumber.lt (.ofNat s.limit) s.pageSize = true := clampLimit_cases hpos
    rcases hcases with heq | hlt
    · have hnot : ¬ JsNumber.lt (.ofNat s.limit) s.pageSize = true := by
        rw [heq, JsNumber.ofNat_lt_ofNat]
        simp
      rw [s.completesFrom_iff_mod heq hpos s.at_start s.ready (fun e he => he)
        (fun e he => .inl he)]
      constructor
      · intro hmod
        exact .inl ⟨heq, hpos, hmod⟩
      · intro hcase
        rcases hcase with ⟨-, -, hmod⟩ | ⟨hlt, -⟩
        · exact hmod
        · exact absurd hlt hnot
    · have hne : s.pageSize ≠ .ofNat s.limit := by
        intro heq
        rw [heq, JsNumber.ofNat_lt_ofNat] at hlt
        simp at hlt
      rw [s.completesFrom_iff_first hlt hpos s.at_start s.ready]
      simp only [hne, hlt, hpos, false_and, false_or, true_and]
  · have hzero : s.limit = 0 := by omega
    have hno := s.not_completesFrom s.at_start (by simp [hzero]) s.ready ⟨0, 0, 0⟩
    simp [hno, hpos]

end IndexOnce

/-- `lens index --once` comes back with everything up to the tip exactly when no
page before the end is taken for the last, and the last page is neither full nor empty. -/
theorem index_once_completes_iff (s : IndexOnce) : s.Completes ↔ s.FillsNoLastPage :=
  s.completes_iff_fills

theorem migrated_quietOpened : migrateSync ⟨true⟩ Db.new = (.ok (), quietOpened) := by
  have h : (migrateSync ⟨true⟩ Db.new).1 = .ok () := by decide +kernel
  exact Prod.ext h rfl

def onceFullPage : IndexOnce where
  rt := quietRuntime
  build := ⟨true⟩
  contractIds := []
  startLedger := none
  pageSizeFlag := some (.ofNat 1)
  pageSizeEnv := none
  cursorKey := "stream"
  now := fun _ => quietNow
  window := ⟨9, 5⟩
  node := referenceNode
  history := [quietEvent "a" 7]
  rpc := referenceRpc [quietEvent "a" 7]
  file := Db.new
  db := quietOpened
  saved := none
  distinct := by simp
  admitted := by simp [quietEvent, EventType.admitted]
  serves := by
    intro req hle
    exact ⟨_, referenceRpc_serves (by simp) hle⟩
  opened := migrated_quietOpened
  ready := by
    obtain ⟨db, hopen, hready⟩ := ready_open_new ⟨true⟩
    have hdb : db = quietOpened := by
      rw [quietOpened, hopen]
    exact hdb ▸ hready
  loaded := rfl
  saved_le := by
    intro st hst
    cases hst

theorem index_once_full_page : ¬ onceFullPage.Completes := by
  have hlimit : onceFullPage.limit = 1 := by
    have hsize : onceFullPage.pageSize = .ofNat 1 := rfl
    simp [IndexOnce.limit, hsize, clampLimit, MAX_PAGE_SIZE]
  have hpending : onceFullPage.pending = [quietEvent "a" 7] := by decide
  rw [IndexOnce.completes_iff_fills, IndexOnce.FillsNoLastPage, hlimit, hpending,
    show onceFullPage.pageSize = .ofNat 1 from rfl]
  simp

end SorobanLens
