import SorobanLens.Store.Effects
import SorobanLens.Lib.JsNumber
import SorobanLens.Lib.Json
import SorobanLens.Lib.Keyset
import Mathlib.Data.String.Basic

/-!
`queryEvents`: the conditions of a query, the page a keyset scan reads and the
cursors to the pages on either side.
-/

set_option autoImplicit false

namespace SorobanLens

/-! ### Conditions -/

inductive TopicColumn where
  | topic0
  | topic1
  | topic2
  | topic3
  deriving DecidableEq, Repr

inductive Condition where
  | contractId (v : String)
  | txHash (v : String)
  /-- `id IN (SELECT event_id FROM events_fts WHERE events_fts MATCH ?)`. -/
  | search (phrase : String)
  /-- `ILIKE` over the JSON columns, which is how Postgres searches. -/
  | ilike (pattern : String)
  | address (v : String)
  | transactionIndex (n : JsNumber)
  | operationIndex (n : JsNumber)
  | fromLedger (n : JsNumber)
  | toLedger (n : JsNumber)
  | fromTime (n : JsNumber)
  | toTime (n : JsNumber)
  | successful
  | topic (column : TopicColumn) (v : String)
  deriving DecidableEq

/-- A text that a truthiness check lets through. -/
def given (s : Option String) : Option String := s.filter (fun v => v != "")

theorem given_eq_some {s : Option String} {c : String} : given s = some c ↔ s = some c ∧ c ≠ "" := by
  simp [given, Option.filter_eq_some_iff]

theorem not_lt_empty (text : String) : ¬ text < "" := by
  rw [String.lt_iff_toList_lt]
  exact List.not_lt_nil _

def topicColumn : Nat → Option TopicColumn
  | 0 => some .topic0
  | 1 => some .topic1
  | 2 => some .topic2
  | 3 => some .topic3
  | _ => none

/-- `null` is a wildcard, and positions past the indexed four are ignored. -/
def topicConditions (topics : Option (List (Option String))) : List Condition :=
  (topics.getD []).zipIdx.filterMap (fun t =>
    match t.1, topicColumn t.2 with
    | some topic, some column => some (.topic column topic)
    | _, _ => none)

/-- The conjuncts of a query; only how text is searched differs between stores. -/
def conditions (search : String → Condition) (query : EventQuery) : List Condition :=
  (given query.contractId).toList.map .contractId ++
  (given query.txHash).toList.map .txHash ++
  (given query.search).toList.map search ++
  (given query.address).toList.map .address ++
  query.transactionIndex.toList.map .transactionIndex ++
  query.operationIndex.toList.map .operationIndex ++
  query.fromLedger.toList.map .fromLedger ++
  query.toLedger.toList.map .toLedger ++
  query.fromTime.toList.map .fromTime ++
  query.toTime.toList.map .toTime ++
  (if query.successfulOnly = some true then [.successful] else []) ++
  topicConditions query.topics

def ftsPhraseQuery (text : String) : String :=
  String.ofList ('"' :: text.toList.flatMap (fun c => if c = '"' then ['"', '"'] else [c]) ++ ['"'])

def buildWhere (query : EventQuery) : List Condition :=
  conditions (fun text => .search (ftsPhraseQuery text)) query

def EventRow.topicAt (row : EventRow) : TopicColumn → Option String
  | .topic0 => row.topic0
  | .topic1 => row.topic1
  | .topic2 => row.topic2
  | .topic3 => row.topic3

def Db.indexedAddresses (db : Db) : List AddressRow :=
  match db.eventAddresses with
  | some a => a.rows
  | none => []

theorem indexedAddresses_some {db : Db} {a : AddressTable} (h : db.eventAddresses = some a) :
    db.indexedAddresses = a.rows := by simp [Db.indexedAddresses, h]

/-- FTS5 reads its query as a C string: U+0000 in the text leaves the phrase unclosed, and
the statement throws. -/
def EventQuery.SearchWhole (query : EventQuery) : Prop :=
  ∀ text, query.search = some text → Whole text

structure TextMatch where
  /-- Whether a phrase query, of a text without U+0000, matches one indexed column. -/
  phrase : String → String → Bool
  /-- `text ILIKE pattern`. -/
  ilike : String → String → Bool

/-- A comparison with a bound `NaN`, which is `NULL`, is not true. -/
def Condition.holds (tm : TextMatch) (db : Db) (row : EventRow) : Condition → Bool
  | .contractId v => row.contractId == v
  | .txHash v => row.txHash == v
  | .search phrase =>
    (db.eventsFts.getD []).any (fun f =>
      f.eventId == row.id && (tm.phrase phrase f.topicsText || tm.phrase phrase f.valueText))
  | .ilike pattern => tm.ilike pattern row.topicsJson || tm.ilike pattern row.valueJson
  | .address v => db.indexedAddresses.any (fun a => a.eventId == row.id && a.address == v)
  | .transactionIndex n => JsNumber.ofNat row.transactionIndex = n
  | .operationIndex n => JsNumber.ofNat row.operationIndex = n
  | .fromLedger n => JsNumber.le n (.ofNat row.ledger)
  | .toLedger n => JsNumber.le (.ofNat row.ledger) n
  | .fromTime n => JsNumber.le n (.fin row.closedAtUnix)
  | .toTime n => JsNumber.le (.fin row.closedAtUnix) n
  | .successful => row.inSuccessfulCall
  | .topic column v => row.topicAt column == some v

/-- The tables a condition reads must be there when its statement is prepared. -/
def Condition.prepare (build : SqliteBuild) (db : Db) : Condition → Except StoreError Unit
  | .search _ => (db.fts build).map (fun _ => ())
  | .address _ => (addressTable db).map (fun _ => ())
  | _ => .ok ()

def prepareAll (build : SqliteBuild) (db : Db) : List Condition → Except StoreError Unit
  | [] => .ok ()
  | c :: cs => do
    c.prepare build db
    prepareAll build db cs

def matchesAll (tm : TextMatch) (db : Db) (conds : List Condition) (row : EventRow) : Bool :=
  conds.all (fun c => c.holds tm db row)

def selectWhere (tm : TextMatch) (build : SqliteBuild) (conds : List Condition) (db : Db) :
    Except StoreError (List EventRow) :=
  match db.events with
  | none => .error (.noSuchTable "events")
  | some t => do
    prepareAll build db conds
    pure (t.rows.filter (matchesAll tm db conds))

/-! ### Counting -/

inductive SqlParam where
  | text (s : String)
  | number (n : JsNumber)
  deriving DecidableEq

def Condition.text : Condition → String
  | .contractId _ => "contract_id = ?"
  | .txHash _ => "tx_hash = ?"
  | .search _ => "id IN (SELECT event_id FROM events_fts WHERE events_fts MATCH ?)"
  | .ilike _ => "(topics_json::text ILIKE ? OR value_json::text ILIKE ?)"
  | .address _ => "id IN (SELECT event_id FROM event_addresses WHERE address = ?)"
  | .transactionIndex _ => "transaction_index = ?"
  | .operationIndex _ => "operation_index = ?"
  | .fromLedger _ => "ledger >= ?"
  | .toLedger _ => "ledger <= ?"
  | .fromTime _ => "closed_at_unix >= ?"
  | .toTime _ => "closed_at_unix <= ?"
  | .successful => "in_successful_call = 1"
  | .topic .topic0 _ => "topic0 = ?"
  | .topic .topic1 _ => "topic1 = ?"
  | .topic .topic2 _ => "topic2 = ?"
  | .topic .topic3 _ => "topic3 = ?"

def Condition.param : Condition → Option SqlParam
  | .contractId v | .txHash v | .search v | .ilike v | .address v | .topic _ v => some (.text v)
  | .transactionIndex n | .operationIndex n | .fromLedger n | .toLedger n | .fromTime n
  | .toTime n => some (.number n)
  | .successful => none

/-- A number that is not finite is `null` in JSON. -/
def SqlParam.json : SqlParam → Json ℚ
  | .text s => .str s
  | .number (.fin q) => .num q
  | .number _ => .null

structure SqlWhere where
  clause : String
  values : List SqlParam
  deriving DecidableEq

def sqlWhere (conds : List Condition) : SqlWhere where
  clause := if conds = [] then "" else "WHERE " ++ " AND ".intercalate (conds.map Condition.text)
  values := conds.filterMap Condition.param

/-- The clause, U+0000 and `JSON.stringify` of the values. -/
def countKey (numbers : Json.NumFormat ℚ) (sql : SqlWhere) : String :=
  sql.clause ++ "\x00" ++ Json.stringify numbers (.arr (sql.values.map SqlParam.json))

structure CachedCount where
  total : Nat
  expiresAt : JsNumber
  deriving DecidableEq

abbrev CountCache := List (String × CachedCount)

structure CountClock where
  countCacheTtlMs : JsNumber
  before : JsNumber
  after : JsNumber

def countCached (numbers : Json.NumFormat ℚ) (clock : CountClock) (sql : SqlWhere)
    (rows : List EventRow) (cache : CountCache) : (Nat × Bool) × CountCache :=
  let caching := JsNumber.lt (.ofNat 0) clock.countCacheTtlMs
  let key := countKey numbers sql
  match (if caching then cache.lookup key else none).filter
      (fun cached => JsNumber.lt clock.before cached.expiresAt) with
  | some cached => ((cached.total, true), cache)
  | none =>
    let expiresAt := JsNumber.add clock.after clock.countCacheTtlMs
    let cache := if caching then
        (key, ⟨rows.length, expiresAt⟩) :: cache.filter (fun entry => entry.1 ≠ key)
      else cache
    ((rows.length, false), cache)

/-! ### The page -/

inductive CompareOp where
  | lt
  | gt
  deriving DecidableEq

/-- `a op b` on ids: the binary collation compares code points. -/
def CompareOp.holds (a : String) (op : CompareOp) (b : String) : Bool :=
  match op with
  | .lt => decide (a < b)
  | .gt => decide (b < a)

def Order.flip : Order → Order
  | .asc => .desc
  | .desc => .asc

def Order.Before (order : Order) (a b : String) : Prop :=
  match order with
  | .asc => a < b
  | .desc => b < a

instance (order : Order) : DecidableRel order.Before := fun a b =>
  match order with
  | .asc => inferInstanceAs (Decidable (a < b))
  | .desc => inferInstanceAs (Decidable (b < a))

instance (order : Order) : IsStrictTotalOrder String order.Before :=
  match order with
  | .asc => inferInstanceAs (IsStrictTotalOrder String (· < ·))
  | .desc => inferInstanceAs (IsStrictTotalOrder String (· > ·))

def orderById (order : Order) (rows : List EventRow) : List EventRow :=
  Keyset.arrange EventRow.id order.Before rows

def existsBeyond (rows : List EventRow) (op : CompareOp) (id : String) : Bool :=
  rows.any (fun row => op.holds row.id id)

structure RowPage where
  rows : List EventRow
  nextCursor : Option String
  prevCursor : Option String

/-- The rows matching a query, paged: both stores run this. Ids are taken to be whole, for
`node:sqlite` would hand a cursor over up to its first U+0000. -/
def keysetPage (order : Order) (backward : Bool) (cursor : Option String) (limit : Nat)
    (matching : List EventRow) : RowPage :=
  let afterOp := if order = .desc then CompareOp.lt else .gt
  let beforeOp := if order = .desc then CompareOp.gt else .lt
  let scanOrder := if backward then order.flip else order
  let op := if backward then beforeOp else afterOp
  let inKeyset := matching.filter (fun row =>
    match cursor with
    | some c => op.holds row.id c
    | none => true)
  let rows := (orderById scanOrder inKeyset).take (limit + 1)
  let hasMore := decide (limit < rows.length)
  let scanned := if hasMore then rows.take limit else rows
  let page := if backward then scanned.reverse else scanned
  let first := page.head?.map EventRow.id
  let last := page.getLast?.map EventRow.id
  { rows := page
    -- the scan's own side is known from the extra row, the other takes a probe
    nextCursor :=
      if backward then last.filter (existsBeyond matching afterOp)
      else if hasMore then last else none
    prevCursor :=
      if backward then (if hasMore then first else none)
      else first.filter (existsBeyond matching beforeOp) }

def EventQuery.resultOrder (query : EventQuery) : Order :=
  if query.order = some .asc then .asc else .desc

def EventQuery.isBackward (query : EventQuery) : Bool := query.direction = some .backward

theorem isBackward_none {q : EventQuery} (h : q.direction = none) : q.isBackward = false := by
  simp [EventQuery.isBackward, h]

def RowPage.toEventPage (page : RowPage) (count : Nat × Bool) : Except StoreError EventPage :=
  match page.rows.mapM rowToEvent with
  | none => .error (.thrown "unreadable row")
  | some events => .ok
    { events := events
      nextCursor := page.nextCursor
      prevCursor := page.prevCursor
      total := count.1
      totalIsEstimate := count.2 }

def searchUnavailable : String :=
  "search requires the FTS5 SQLite extension, which this build does not have " ++
    "(this is a build-time property of node:sqlite, not something a query can work around). " ++
    "Everything else in this query would have worked fine without `search`."

structure Reader where
  maxLimit : MaxQueryLimit
  text : TextMatch
  build : SqliteBuild
  numbers : Json.NumFormat ℚ
  clock : CountClock

def queryEvents (rd : Reader) (query : EventQuery) (db : Db) (cache : CountCache) :
    Except StoreError EventPage × CountCache :=
  if (given query.search).isSome && !rd.build.fts5 then
    (.error (.thrown searchUnavailable), cache)
  else
    let conds := buildWhere query
    match selectWhere rd.text rd.build conds db with
    | .error e => (.error e, cache)
    | .ok matching =>
      let counted := if query.skipTotal = some true then ((0, false), cache)
        else countCached rd.numbers rd.clock (sqlWhere conds) matching cache
      let page := keysetPage query.resultOrder query.isBackward (given query.cursor)
        (normaliseLimit rd.maxLimit query.limit) matching
      (page.toEventPage counted.1, counted.2)

/-! ### What a page is -/

def window (order : Order) (backward : Bool) (cursor : Option String) (limit : Nat)
    (matching : List EventRow) : Keyset.Window EventRow :=
  if backward then
    Keyset.backward EventRow.id order.Before (orderById order matching) cursor limit
  else Keyset.forward EventRow.id order.Before (orderById order matching) cursor limit

theorem ascending_orderById {rows : List EventRow} (h : (rows.map EventRow.id).Nodup)
    (order : Order) : Keyset.Ascending EventRow.id order.Before (orderById order rows) :=
  Keyset.ascending_arrange h

theorem window_all {rows : List EventRow} (h : (rows.map EventRow.id).Nodup) (order : Order)
    (backward : Bool) (cursor : Option String) (limit : Nat) :
    (window order backward cursor limit rows).all = orderById order rows := by
  have hasc := ascending_orderById h order
  cases backward with
  | true => exact Keyset.backward_all hasc cursor limit
  | false => exact Keyset.forward_all hasc cursor limit

theorem orderById_flip {rows : List EventRow} (h : (rows.map EventRow.id).Nodup) (order : Order) :
    orderById order.flip rows = (orderById order rows).reverse := by
  cases order with
  | asc => exact Keyset.arrange_swap h
  | desc => exact Keyset.arrange_swap h

theorem afterOp_holds (order : Order) (a b : String) :
    (if order = .desc then CompareOp.lt else .gt).holds a b = decide (order.Before b a) := by
  cases order <;> rfl

theorem beforeOp_holds (order : Order) (a b : String) :
    (if order = .desc then CompareOp.gt else .lt).holds a b = decide (order.Before a b) := by
  cases order <;> rfl

theorem any_orderById (order : Order) (rows : List EventRow) (p : EventRow → Bool) :
    (orderById order rows).any p = rows.any p := by
  rw [Bool.eq_iff_iff]
  simp [orderById, Keyset.mem_arrange]

theorem existsBeyond_after (order : Order) (rows : List EventRow) :
    existsBeyond rows (if order = .desc then CompareOp.lt else .gt) =
      fun id => (orderById order rows).any (Keyset.past EventRow.id order.Before (some id)) := by
  funext id
  rw [any_orderById]
  simp only [existsBeyond, afterOp_holds]
  rfl

theorem existsBeyond_before (order : Order) (rows : List EventRow) :
    existsBeyond rows (if order = .desc then CompareOp.gt else .lt) =
      fun id => (orderById order rows).any (Keyset.short EventRow.id order.Before (some id)) := by
  funext id
  rw [any_orderById]
  simp only [existsBeyond, beforeOp_holds]
  rfl

theorem inKeyset_forward (order : Order) (cursor : Option String) :
    (fun row : EventRow => match cursor with
      | some c => (if order = .desc then CompareOp.lt else .gt).holds row.id c
      | none => true) = Keyset.past EventRow.id order.Before cursor := by
  funext row
  cases cursor with
  | none => rfl
  | some c => simp only [afterOp_holds, Keyset.past]

theorem inKeyset_backward (order : Order) (cursor : Option String) :
    (fun row : EventRow => match cursor with
      | some c => (if order = .desc then CompareOp.gt else .lt).holds row.id c
      | none => true) = Keyset.short EventRow.id order.Before cursor := by
  funext row
  cases cursor with
  | none => rfl
  | some c => simp only [beforeOp_holds, Keyset.short]

theorem keysetPage_forward {rows : List EventRow} (h : (rows.map EventRow.id).Nodup)
    (order : Order) (cursor : Option String) (limit : Nat) :
    keysetPage order false cursor limit rows =
      { rows := (window order false cursor limit rows).page
        nextCursor := (window order false cursor limit rows).next EventRow.id
        prevCursor := (window order false cursor limit rows).prev EventRow.id } := by
  have hall := window_all h order false cursor limit
  have hasc : Keyset.Ascending EventRow.id order.Before (window order false cursor limit rows).all := by
    rw [hall]
    exact ascending_orderById h order
  have hprobe := Keyset.prev_eq_probe hasc
  rw [hall] at hprobe
  have hrows : orderById order (rows.filter (Keyset.past EventRow.id order.Before cursor)) =
      (orderById order rows).filter (Keyset.past EventRow.id order.Before cursor) :=
    Keyset.arrange_filter h _
  rw [hprobe]
  simp only [keysetPage, Bool.false_eq_true, if_false, inKeyset_forward, hrows,
    decide_eq_true_eq, Keyset.page_of_probe, existsBeyond_before]
  simp only [window, Bool.false_eq_true, if_false, Keyset.Window.next, Keyset.forward,
    Keyset.probe_iff, RowPage.mk.injEq, true_and, and_true]
  split <;> simp_all

theorem keysetPage_backward {rows : List EventRow} (h : (rows.map EventRow.id).Nodup)
    (order : Order) (cursor : Option String) (limit : Nat) :
    keysetPage order true cursor limit rows =
      { rows := (window order true cursor limit rows).page
        nextCursor := (window order true cursor limit rows).next EventRow.id
        prevCursor := (window order true cursor limit rows).prev EventRow.id } := by
  have hall := window_all h order true cursor limit
  have hasc : Keyset.Ascending EventRow.id order.Before (window order true cursor limit rows).all := by
    rw [hall]
    exact ascending_orderById h order
  have hprobe := Keyset.next_eq_probe hasc
  rw [hall] at hprobe
  have hrows : orderById order.flip (rows.filter (Keyset.short EventRow.id order.Before cursor)) =
      ((orderById order rows).filter (Keyset.short EventRow.id order.Before cursor)).reverse := by
    rw [orderById_flip (Keyset.nodup_filter h _), orderById, Keyset.arrange_filter h]
    rfl
  rw [hprobe]
  simp only [keysetPage, if_true, inKeyset_backward, hrows, decide_eq_true_eq,
    Keyset.page_of_probe, existsBeyond_after]
  simp only [window, if_true, Keyset.Window.prev, Keyset.backward, List.rtake_eq_reverse_take_reverse,
    List.rdrop_eq_reverse_drop_reverse, Keyset.probe_iff, RowPage.mk.injEq, true_and]
  split <;> simp_all

/-- A page is the window's own, and each cursor is there when rows lie beyond. -/
theorem keysetPage_eq {rows : List EventRow} (h : (rows.map EventRow.id).Nodup) (order : Order)
    (backward : Bool) (cursor : Option String) (limit : Nat) :
    keysetPage order backward cursor limit rows =
      { rows := (window order backward cursor limit rows).page
        nextCursor := (window order backward cursor limit rows).next EventRow.id
        prevCursor := (window order backward cursor limit rows).prev EventRow.id } := by
  cases backward with
  | false => exact keysetPage_forward h order cursor limit
  | true => exact keysetPage_backward h order cursor limit

/-! ### What a query answers -/

def matchingRows (tm : TextMatch) (query : EventQuery) (db : Db) : List EventRow :=
  match db.events with
  | none => []
  | some t => t.rows.filter (matchesAll tm db (buildWhere query))

theorem mem_matchingRows {tm : TextMatch} {query : EventQuery} {db : Db} {row : EventRow} :
    row ∈ matchingRows tm query db ↔
      ∃ t, db.events = some t ∧ row ∈ t.rows ∧ matchesAll tm db (buildWhere query) row = true := by
  unfold matchingRows
  cases db.events <;> simp

theorem nodup_matchingRows (tm : TextMatch) (query : EventQuery) (db : Db) :
    ((matchingRows tm query db).map EventRow.id).Nodup := by
  unfold matchingRows
  cases db.events with
  | none => simp
  | some t => exact Keyset.nodup_filter t.nodup _

theorem prepareAll_ok {build : SqliteBuild} {db : Db} {conds : List Condition} :
    prepareAll build db conds = .ok () ↔ ∀ c ∈ conds, c.prepare build db = .ok () := by
  induction conds with
  | nil => simp [prepareAll]
  | cons c cs ih =>
    rw [List.forall_mem_cons, ← ih, prepareAll, bind_eq_ok]
    exact ⟨fun ⟨_, h⟩ => h, fun h => ⟨(), h⟩⟩

theorem selectWhere_ok {tm : TextMatch} {build : SqliteBuild} {query : EventQuery} {db : Db}
    {rows : List EventRow} :
    selectWhere tm build (buildWhere query) db = .ok rows ↔
      db.events.isSome = true ∧ (∀ c ∈ buildWhere query, c.prepare build db = .ok ()) ∧
        rows = matchingRows tm query db := by
  unfold selectWhere matchingRows
  cases db.events with
  | none => simp
  | some t =>
    simp only [bind_eq_ok, Option.isSome_some, true_and, ← prepareAll_ok]
    constructor
    · intro h
      obtain ⟨_, hprep, h⟩ := h
      cases h
      exact ⟨hprep, rfl⟩
    · intro h
      obtain ⟨hprep, rfl⟩ := h
      exact ⟨(), hprep, rfl⟩

/-- The statements of a query can be prepared: its tables are there, and the
build has what a search needs. -/
def CanAnswer (rd : Reader) (query : EventQuery) (db : Db) : Prop :=
  db.events.isSome = true ∧ ∀ c ∈ buildWhere query, c.prepare rd.build db = .ok ()

def pageWindow (rd : Reader) (query : EventQuery) (db : Db) : Keyset.Window EventRow :=
  window query.resultOrder query.isBackward (given query.cursor)
    (normaliseLimit rd.maxLimit query.limit) (matchingRows rd.text query db)

theorem search_mem_buildWhere {query : EventQuery} (h : (given query.search).isSome = true) :
    ∃ phrase, Condition.search phrase ∈ buildWhere query := by
  obtain ⟨text, ht⟩ := Option.isSome_iff_exists.mp h
  exact ⟨ftsPhraseQuery text, by simp [buildWhere, conditions, ht]⟩

/-- A query that can be prepared answers with its window, whatever the count. -/
theorem queryEvents_eq {rd : Reader} {query : EventQuery} {db : Db} (h : CanAnswer rd query db)
    (cache : CountCache) :
    ∃ count, (queryEvents rd query db cache).1 = RowPage.toEventPage
      { rows := (pageWindow rd query db).page
        nextCursor := (pageWindow rd query db).next EventRow.id
        prevCursor := (pageWindow rd query db).prev EventRow.id } count := by
  have hsel : selectWhere rd.text rd.build (buildWhere query) db =
      .ok (matchingRows rd.text query db) := selectWhere_ok.mpr ⟨h.1, h.2, rfl⟩
  have hbuild : ((given query.search).isSome && !rd.build.fts5) = false := by
    cases hs : (given query.search).isSome with
    | false => rfl
    | true =>
      obtain ⟨phrase, hp⟩ := search_mem_buildWhere hs
      obtain ⟨rows, hr, -⟩ := map_eq_ok.mp (h.2 _ hp)
      simp [(fts_ok.mp hr).1]
  refine ⟨(if query.skipTotal = some true then ((0, false), cache)
    else countCached rd.numbers rd.clock (sqlWhere (buildWhere query))
      (matchingRows rd.text query db) cache).1, ?_⟩
  unfold queryEvents
  simp only [hbuild, Bool.false_eq_true, if_false, hsel]
  rw [keysetPage_eq (nodup_matchingRows rd.text query db)]
  rfl

theorem toEventPage_ok {page : RowPage} {count : Nat × Bool} {p : EventPage}
    (h : page.toEventPage count = .ok p) :
    page.rows.mapM rowToEvent = some p.events ∧ p.nextCursor = page.nextCursor ∧
      p.prevCursor = page.prevCursor := by
  unfold RowPage.toEventPage at h
  split at h
  · cases h
  · rename_i events he
    cases h
    exact ⟨he, rfl, rfl⟩

theorem canAnswer_of_ok {rd : Reader} {query : EventQuery} {db : Db} {cache : CountCache}
    {p : EventPage} (h : (queryEvents rd query db cache).1 = .ok p) : CanAnswer rd query db := by
  unfold queryEvents at h
  split at h
  · cases h
  · simp only at h
    split at h
    · cases h
    · rename_i rows hsel
      have hok := selectWhere_ok.mp hsel
      exact ⟨hok.1, hok.2.1⟩

theorem queryEvents_ok {rd : Reader} {query : EventQuery} {db : Db} {cache : CountCache}
    {p : EventPage} (h : (queryEvents rd query db cache).1 = .ok p) :
    (pageWindow rd query db).page.mapM rowToEvent = some p.events ∧
      p.nextCursor = (pageWindow rd query db).next EventRow.id ∧
      p.prevCursor = (pageWindow rd query db).prev EventRow.id := by
  obtain ⟨count, heq⟩ := queryEvents_eq (canAnswer_of_ok h) cache
  rw [heq] at h
  exact toEventPage_ok h

theorem queryEvents_of_readable {rd : Reader} {query : EventQuery} {db : Db}
    (h : CanAnswer rd query db) {events : List LensEvent}
    (hread : (pageWindow rd query db).page.mapM rowToEvent = some events) (cache : CountCache) :
    ∃ p, (queryEvents rd query db cache).1 = .ok p ∧ p.events = events := by
  obtain ⟨count, heq⟩ := queryEvents_eq h cache
  refine ⟨⟨events, (pageWindow rd query db).next EventRow.id,
    (pageWindow rd query db).prev EventRow.id, count.1, count.2⟩, ?_, rfl⟩
  rw [heq]
  simp only [RowPage.toEventPage, hread]

theorem map_id_of_mapM {rows : List EventRow} {events : List LensEvent}
    (h : rows.mapM rowToEvent = some events) :
    events.map LensEvent.id = rows.map EventRow.id := by
  have hall := mapM_eq_some.mp h
  clear h
  induction hall with
  | nil => rfl
  | cons hrow _ ih => simp [rowToEvent_id hrow, ih]

end SorobanLens
