import SorobanLens.Store.Query
import SorobanLens.Lib.Jsonb

/-!
`PostgresEventStore`: the same trait over a server that checks what is bound to
a statement. A JSONB column is its text, an XDR column is plain.
-/

set_option autoImplicit false

namespace SorobanLens.Postgres

structure PgDb where
  events : EventsTable
  eventAddresses : AddressTable
  references : ∀ r ∈ eventAddresses.rows, events.has r.eventId = true

def PgDb.empty : PgDb := ⟨.empty, .empty, by simp⟩

def PgDb.addEvent (db : PgDb) (row : EventRow) : PgDb where
  events := db.events.insertOrIgnore row
  eventAddresses := db.eventAddresses
  references r hr := KeyedTable.has_insertOrIgnore_of_has (db.references r hr)

def PgDb.addAddress (db : PgDb) (row : AddressRow) (h : db.events.has row.eventId = true) : PgDb where
  events := db.events
  eventAddresses := db.eventAddresses.insertOrIgnore row
  references r hr := by
    rcases KeyedTable.mem_insertOrIgnore.mp hr with hr | ⟨rfl, -⟩
    · exact db.references r hr
    · exact h

/-- `UPDATE events SET … WHERE id = $12`. -/
def PgDb.setDerived (db : PgDb) (id : String) (d : DerivedColumns) : PgDb where
  events := db.events.updateKey id (fun r => r.setDerived d) (setDerived_keeps d)
  eventAddresses := db.eventAddresses
  references r hr := by
    obtain ⟨row, hrow, hid⟩ := KeyedTable.has_iff.mp (db.references r hr)
    by_cases hk : row.id = id
    · exact KeyedTable.has_iff.mpr
        ⟨_, KeyedTable.mem_updateKey.mpr (.inr ⟨row, hrow, hk, rfl⟩), hid⟩
    · exact KeyedTable.has_iff.mpr ⟨row, KeyedTable.mem_updateKey.mpr (.inl ⟨hrow, hk⟩), hid⟩

def PgDb.dropAddresses (db : PgDb) (id : String) : PgDb where
  events := db.events
  eventAddresses := db.eventAddresses.deleteWhere (fun r => r.eventId = id)
  references r hr := db.references r (List.mem_of_mem_filter hr)

/-- `DELETE FROM events WHERE p`, with the cascade to the address index. -/
def PgDb.deleteEvents (db : PgDb) (p : EventRow → Bool) : PgDb where
  events := db.events.deleteWhere p
  eventAddresses := db.eventAddresses.deleteWhere (fun r =>
    r.eventId ∈ (db.events.rows.filter p).map EventRow.id)
  references r hr := by
    obtain ⟨hmem, hkept⟩ := List.mem_filter.mp hr
    obtain ⟨row, hrow, hid⟩ := KeyedTable.has_iff.mp (db.references r hmem)
    refine KeyedTable.has_iff.mpr ⟨row, List.mem_filter.mpr ⟨hrow, ?_⟩, hid⟩
    cases hp : p row with
    | false => rfl
    | true =>
      have hgone : r.eventId ∈ (db.events.rows.filter p).map EventRow.id :=
        List.mem_map.mpr ⟨row, List.mem_filter.mpr ⟨hrow, hp⟩, hid⟩
      simp [hgone] at hkept

/-- Whether the index entries of a new row fit a page. -/
structure PgServer where
  fitsEvent : EventRow → Bool
  fitsAddress : AddressRow → Bool

def tx {α : Type} (db : PgDb) (body : Except StoreError (α × PgDb)) : Except StoreError α × PgDb :=
  match body with
  | .ok (a, db') => (.ok a, db')
  | .error e => (.error e, db)

/-! ### Parameters -/

/-- A `TEXT` value holds no U+0000. -/
def textBinds (s : String) : Bool := !s.toList.contains '\x00'

/-- Nor does a string or a key inside a `JSONB` value, which would be `\u0000`. -/
def jsonbBinds (v : JsonValue) : Bool := v.texts.all textBinds

def integerBinds (n : Int) : Bool := decide (-2147483648 ≤ n ∧ n ≤ 2147483647)

def bigintBinds (n : Int) : Bool :=
  decide (-9223372036854775808 ≤ n ∧ n ≤ 9223372036854775807)

def badParameter : StoreError := .thrown "data_exception"

def derivedBinds (e : LensEvent) : Bool :=
  jsonbBinds (topicsToJson e.topics) && textBinds (stringify (stringsToJson e.topicsXdr)) &&
  integerBinds e.topics.length &&
  (topicKey e.topics[0]?).all textBinds && (topicKey e.topics[1]?).all textBinds &&
  (topicKey e.topics[2]?).all textBinds && (topicKey e.topics[3]?).all textBinds &&
  textBinds e.value.type && jsonbBinds e.value.toJson && textBinds e.valueXdr &&
  e.decodeError.all textBinds

def insertBinds (rt : Runtime) (e : LensEvent) : Bool :=
  textBinds e.id && textBinds e.contractId && integerBinds e.ledger &&
  textBinds e.ledgerClosedAt && bigintBinds (closedAtUnix rt e.ledgerClosedAt) &&
  textBinds e.txHash && integerBinds e.transactionIndex && integerBinds e.operationIndex &&
  derivedBinds e && textBinds e.indexedAt

/-! ### Writing -/

def jsonbColumn (v : JsonValue) : String := Json.jsonbText Json.intFormat v

def insertParams (rt : Runtime) (e : LensEvent) : EventRow where
  id := e.id
  contractId := e.contractId
  type := e.type
  ledger := e.ledger
  ledgerClosedAt := e.ledgerClosedAt
  closedAtUnix := closedAtUnix rt e.ledgerClosedAt
  txHash := e.txHash
  transactionIndex := e.transactionIndex
  operationIndex := e.operationIndex
  inSuccessfulCall := e.inSuccessfulContractCall
  topicsJson := jsonbColumn (topicsToJson e.topics)
  topicsXdrJson := .text (stringify (stringsToJson e.topicsXdr))
  topicCount := e.topics.length
  topic0 := topicKey e.topics[0]?
  topic1 := topicKey e.topics[1]?
  topic2 := topicKey e.topics[2]?
  topic3 := topicKey e.topics[3]?
  valueType := e.value.type
  valueJson := jsonbColumn e.value.toJson
  valueXdr := .text e.valueXdr
  decodeError := e.decodeError
  indexedAt := e.indexedAt

/-- `INSERT_EVENT` and its row count. Parameters are checked when they are bound
and the `CHECK` before the conflict, so both also refuse a duplicate. -/
def insertEvent (server : PgServer) (rt : Runtime) (e : LensEvent) (db : PgDb) :
    Except StoreError (Nat × PgDb) :=
  if insertBinds rt e = false then .error badParameter
  else if e.type.admitted = false then .error (.thrown "check_violation")
  else if db.events.has e.id then .ok (0, db)
  else if server.fitsEvent (insertParams rt e) = false then
    .error (.thrown "program_limit_exceeded")
  else .ok (1, db.addEvent (insertParams rt e))

def addressBinds (r : AddressRow) : Bool :=
  textBinds r.eventId && textBinds r.address && textBinds r.position

def insertAddress (server : PgServer) (r : AddressRow) (db : PgDb) : Except StoreError PgDb :=
  if addressBinds r = false then .error badParameter
  else if db.eventAddresses.has r then .ok db
  else if server.fitsAddress r = false then .error (.thrown "program_limit_exceeded")
  else if h : db.events.has r.eventId = true then .ok (db.addAddress r h)
  else .error .foreignKey

def insertAddressRows (server : PgServer) : List AddressRow → PgDb → Except StoreError PgDb
  | [], db => .ok db
  | r :: rs, db => do
    let db ← insertAddress server r db
    insertAddressRows server rs db

def insertAddresses (server : PgServer) (rt : Runtime) (eventId : String) (e : LensEvent)
    (db : PgDb) : Except StoreError PgDb :=
  insertAddressRows server (addressRows rt.sdk eventId e) db

def insertOne (server : PgServer) (rt : Runtime) (e : LensEvent) (db : PgDb) :
    Except StoreError (Nat × PgDb) := do
  let (changed, db) ← insertEvent server rt e db
  if 0 < changed then
    let db ← insertAddresses server rt e.id e db
    pure (changed, db)
  else pure (changed, db)

def insertBatch (server : PgServer) (rt : Runtime) :
    List LensEvent → PgDb → Except StoreError (Nat × PgDb)
  | [], db => .ok (0, db)
  | e :: es, db => do
    let (changed, db) ← insertOne server rt e db
    let (inserted, db) ← insertBatch server rt es db
    pure (changed + inserted, db)

def insertDecoded (server : PgServer) (rt : Runtime) (events : List LensEvent) (db : PgDb) :
    Except StoreError Nat × PgDb :=
  if events = [] then (.ok 0, db) else tx db (insertBatch server rt events db)

def insertEvents (server : PgServer) (rt : Runtime) (now : Nat → String) (events : List RawEvent)
    (db : PgDb) : Except StoreError Nat × PgDb :=
  insertDecoded server rt (events.mapIdx (fun i e => decodeEvent rt.sdk (now i) e)) db

/-! ### Pruning and re-decoding -/

/-- A number as an `INTEGER` parameter: its decimal text must be one. -/
def integerParam : JsNumber → Bool
  | .fin q => q.isInt && integerBinds q.num
  | _ => false

def bigintParam : JsNumber → Bool
  | .fin q => q.isInt && bigintBinds q.num
  | _ => false

def pruneBefore (ledger : JsNumber) (db : PgDb) : Except StoreError Nat × PgDb :=
  if integerParam ledger = false then (.error badParameter, db)
  else (.ok (db.events.rows.filter (below ledger)).length, db.deleteEvents (below ledger))

def derivedColumns (e : LensEvent) : DerivedColumns where
  topicsJson := jsonbColumn (topicsToJson e.topics)
  topicsXdrJson := .text (stringify (stringsToJson e.topicsXdr))
  topicCount := e.topics.length
  topic0 := topicKey e.topics[0]?
  topic1 := topicKey e.topics[1]?
  topic2 := topicKey e.topics[2]?
  topic3 := topicKey e.topics[3]?
  valueType := e.value.type
  valueJson := jsonbColumn e.value.toJson
  valueXdr := .text e.valueXdr
  decodeError := e.decodeError

def updateRow (server : PgServer) (id : String) (e : LensEvent) (db : PgDb) :
    Except StoreError PgDb :=
  if derivedBinds e = false then .error badParameter
  else
    match db.events.find? id with
    | none => .ok db
    | some current =>
      if server.fitsEvent (current.setDerived (derivedColumns e)) = false then
        .error (.thrown "program_limit_exceeded")
      else .ok (db.setDerived id (derivedColumns e))

def rewrite (server : PgServer) (rt : Runtime) (row : EventRow) (db : PgDb) :
    Except StoreError PgDb := do
  match recompute rt row with
  | none => .error (.thrown "unreadable row")
  | some (_, event) =>
    let db ← updateRow server row.id event db
    insertAddresses server rt row.id event (db.dropAddresses row.id)

def rewriteAll (server : PgServer) (rt : Runtime) : List EventRow → PgDb → Except StoreError PgDb
  | [], db => .ok db
  | row :: rows, db => do
    let db ← rewrite server rt row db
    rewriteAll server rt rows db

def redecode (server : PgServer) (rt : Runtime) (all : Bool) (db : PgDb) :
    Except StoreError Nat × PgDb :=
  let rows := db.events.rows.filter (fun r => all || r.decodeError.isSome)
  if rows = [] then (.ok 0, db)
  else tx db ((rewriteAll server rt rows db).map (fun db => (rows.length, db)))

def repairRow (server : PgServer) (rt : Runtime) (id : String) (db : PgDb) :
    Except StoreError Unit × PgDb :=
  if textBinds id = false then (.error badParameter, db)
  else
    match db.events.find? id with
    | none => (.ok (), db)
    | some row => tx db ((rewrite server rt row db).map (fun db => ((), db)))

/-! ### Reading -/

def getEvent (id : String) (db : PgDb) : Except StoreError (Option LensEvent) :=
  if textBinds id = false then .error badParameter
  else
    match db.events.find? id with
    | none => .ok none
    | some row =>
      match rowToEvent row with
      | some e => .ok (some e)
      | none => .error (.thrown "unreadable row")

/-- `text.replace(/[\\%_]/g, (c) => '\\' + c)`. -/
def likeEscape (text : String) : String :=
  String.ofList (text.toList.flatMap (fun c =>
    if c = '\\' ∨ c = '%' ∨ c = '_' then ['\\', c] else [c]))

def buildWhere (query : EventQuery) : List Condition :=
  conditions (fun text => .ilike ("%" ++ likeEscape text ++ "%")) query

def conditionBinds : Condition → Bool
  | .contractId v | .txHash v | .search v | .ilike v | .address v | .topic _ v => textBinds v
  | .transactionIndex n | .operationIndex n | .fromLedger n | .toLedger n => integerParam n
  | .fromTime n | .toTime n => bigintParam n
  | .successful => true

/-- The tables as the shared conditions read them. -/
def PgDb.tables (db : PgDb) : Db :=
  { Db.new with events := some db.events, eventAddresses := some db.eventAddresses }

def conditionText (n : Nat) : Condition → String
  | .contractId _ => "contract_id = $" ++ n.repr
  | .txHash _ => "tx_hash = $" ++ n.repr
  | .search _ | .ilike _ =>
    "(topics_json::text ILIKE $" ++ n.repr ++ " OR value_json::text ILIKE $" ++ n.repr ++ ")"
  | .address _ => "id IN (SELECT event_id FROM event_addresses WHERE address = $" ++ n.repr ++ ")"
  | .transactionIndex _ => "transaction_index = $" ++ n.repr
  | .operationIndex _ => "operation_index = $" ++ n.repr
  | .fromLedger _ => "ledger >= $" ++ n.repr
  | .toLedger _ => "ledger <= $" ++ n.repr
  | .fromTime _ => "closed_at_unix >= $" ++ n.repr
  | .toTime _ => "closed_at_unix <= $" ++ n.repr
  | .successful => "in_successful_call = TRUE"
  | .topic .topic0 _ => "topic0 = $" ++ n.repr
  | .topic .topic1 _ => "topic1 = $" ++ n.repr
  | .topic .topic2 _ => "topic2 = $" ++ n.repr
  | .topic .topic3 _ => "topic3 = $" ++ n.repr

/-- The texts of conditions before which the clause binds this many values. -/
def conditionTexts : Nat → List Condition → List String
  | _, [] => []
  | bound, c :: cs =>
    conditionText (bound + 1) c :: conditionTexts (bound + c.param.toList.length) cs

def sqlWhere (conds : List Condition) : SqlWhere where
  clause := if conds = [] then "" else "WHERE " ++ " AND ".intercalate (conditionTexts 0 conds)
  values := conds.filterMap Condition.param

structure PgReader where
  maxLimit : MaxQueryLimit
  text : TextMatch
  numbers : Json.NumFormat ℚ
  clock : CountClock

def matchingRows (tm : TextMatch) (query : EventQuery) (db : PgDb) : List EventRow :=
  db.events.rows.filter (matchesAll tm db.tables (buildWhere query))

def queryEvents (rd : PgReader) (query : EventQuery) (db : PgDb) (cache : CountCache) :
    Except StoreError EventPage × CountCache :=
  let conds := buildWhere query
  if conds.all conditionBinds = false then (.error badParameter, cache)
  else
    let matching := matchingRows rd.text query db
    let counted := if query.skipTotal = some true then ((0, false), cache)
      else countCached rd.numbers rd.clock (sqlWhere conds) matching cache
    if (given query.cursor).all textBinds = false then (.error badParameter, counted.2)
    else
      let page := keysetPage query.resultOrder query.isBackward (given query.cursor)
        (normaliseLimit rd.maxLimit query.limit) matching
      (page.toEventPage counted.1, counted.2)

end SorobanLens.Postgres
