import SorobanLens.Store.Backend
import SorobanLens.Lib.JsonRead
import SorobanLens.Lib.JsNumeral

/-!
`exportSnapshot` and `importSnapshot`: one event a line, written with
`JSON.stringify` and read back through `node:readline`.
-/

set_option autoImplicit false

namespace SorobanLens

/-! ### A record -/

def EventType.text : EventType → String
  | .contract => "contract"
  | .system => "system"
  | .diagnostic => "diagnostic"

def EventType.ofText (text : String) : Option EventType :=
  if text = "contract" then some .contract
  else if text = "system" then some .system
  else if text = "diagnostic" then some .diagnostic
  else none

theorem EventType.ofText_text (t : EventType) : ofText t.text = some t := by
  cases t <;> decide

def eventToJson (e : LensEvent) : JsonValue :=
  .obj
    ([ ("id", .str e.id)
     , ("contractId", .str e.contractId)
     , ("type", .str e.type.text)
     , ("ledger", .num e.ledger)
     , ("ledgerClosedAt", .str e.ledgerClosedAt)
     , ("txHash", .str e.txHash)
     , ("transactionIndex", .num e.transactionIndex)
     , ("operationIndex", .num e.operationIndex)
     , ("inSuccessfulContractCall", .bool e.inSuccessfulContractCall)
     , ("topics", topicsToJson e.topics)
     , ("topicsXdr", stringsToJson e.topicsXdr)
     , ("value", e.value.toJson)
     , ("valueXdr", .str e.valueXdr) ] ++
     (e.decodeError.toList.map (fun text => ("decodeError", .str text))) ++
     [("indexedAt", .str e.indexedAt)])

def natOfJson : JsonValue → Option Nat
  | .num (.ofNat n) => some n
  | _ => none

def boolOfJson : JsonValue → Option Bool
  | .bool b => some b
  | _ => none

/-- The fields of a record, as an insert binds them. A field that is missing
binds `undefined`, which throws. -/
def eventOfJson : JsonValue → Option LensEvent
  | .obj fields => do
    let id ← (fields.lookup "id").bind stringOfJson
    let contractId ← (fields.lookup "contractId").bind stringOfJson
    let type ← ((fields.lookup "type").bind stringOfJson).bind EventType.ofText
    let ledger ← (fields.lookup "ledger").bind natOfJson
    let ledgerClosedAt ← (fields.lookup "ledgerClosedAt").bind stringOfJson
    let txHash ← (fields.lookup "txHash").bind stringOfJson
    let transactionIndex ← (fields.lookup "transactionIndex").bind natOfJson
    let operationIndex ← (fields.lookup "operationIndex").bind natOfJson
    let inSuccessfulContractCall ← (fields.lookup "inSuccessfulContractCall").bind boolOfJson
    let topics ← (fields.lookup "topics").bind topicsOfJson
    let topicsXdr ← (fields.lookup "topicsXdr").bind stringsOfJson
    let value ← (fields.lookup "value").bind DecodedValue.ofJson
    let valueXdr ← (fields.lookup "valueXdr").bind stringOfJson
    let indexedAt ← (fields.lookup "indexedAt").bind stringOfJson
    pure
      { id := id
        contractId := contractId
        type := type
        ledger := ledger
        ledgerClosedAt := ledgerClosedAt
        txHash := txHash
        transactionIndex := transactionIndex
        operationIndex := operationIndex
        inSuccessfulContractCall := inSuccessfulContractCall
        topics := topics
        topicsXdr := topicsXdr
        value := value
        valueXdr := valueXdr
        decodeError := (fields.lookup "decodeError").bind stringOfJson
        indexedAt := indexedAt }
  | _ => none

def recordText (e : LensEvent) : List Char := Json.render Json.intFormat (eventToJson e)

/-! ### Lines -/

def isLineEnd (c : Char) : Bool := c = '\n' || c = '\r' || c = '\u2028' || c = '\u2029'

/-- The lines of a text, `line` being what was read of the first. What follows
the last line end is a line unless it is empty. -/
def lines : List Char → List Char → List (List Char)
  | line, [] => if line = [] then [] else [line]
  | line, '\r' :: '\n' :: cs => line :: lines [] cs
  | line, c :: cs => if isLineEnd c then line :: lines [] cs else lines (line ++ [c]) cs

/-- One line of a snapshot: `none` is a `SyntaxError`, `some none` a blank line. -/
def readLine (line : List Char) : Option (Option LensEvent) :=
  let trimmed := JsNumber.trimChars line
  if trimmed = [] then some none
  else ((parseJson (String.ofList trimmed)).bind eventOfJson).map some

/-! ### Writing -/

def writeSnapshot (rows : List EventRow) : Except StoreError (List Char × Nat) :=
  match rows.mapM rowToEvent with
  | none => .error (.thrown "unreadable row")
  | some events => .ok (events.flatMap (fun e => recordText e ++ ['\n']), rows.length)

def EXPORT_BATCH : Nat := 1000

/-- `WHERE id > $1 ORDER BY id ASC LIMIT $2`, from the last id of each batch on. -/
def exportBatches : Nat → String → List EventRow → List EventRow
  | 0, _, _ => []
  | fuel + 1, after, rows =>
    let batch := (orderById .asc (rows.filter (fun r => decide (after < r.id)))).take EXPORT_BATCH
    match batch.getLast? with
    | none => []
    | some last => batch ++ exportBatches fuel last.id rows

def SNAPSHOT_BATCH : Nat := 500

/-- `getEvent` with its row as `node:sqlite` returns it. -/
def fetchEvent (build : SqliteBuild) (id : String) (db : Db) :
    Except StoreError (Option LensEvent) := do
  prepared build db
  match db.events with
  | none => .error (.noSuchTable "events")
  | some t =>
    match t.find? id with
    | none => pure none
    | some row =>
      match rowToEvent row.readBack with
      | some e => pure (some e)
      | none => .error (.thrown "unreadable row")

/-- Where a row comes back whole, that is the event of the row as stored. -/
theorem fetchEvent_eq_getEvent {build : SqliteBuild} {id : String} {db : Db}
    (h : ∀ t, db.events = some t → ∀ row, t.find? id = some row → row.readBack = row) :
    fetchEvent build id db = SorobanLens.getEvent build id db := by
  unfold fetchEvent SorobanLens.getEvent
  cases ht : db.events with
  | none => rfl
  | some t =>
    cases hf : t.find? id with
    | none => simp only [hf]
    | some row =>
      have hrow := h t ht row hf
      cases hread : rowToEvent row with
      | none => simp only [hf, hrow, hread]
      | some e => simp only [hf, hrow, hread]

namespace Backend

def rows : Backend → List EventRow
  | .sqlite db => (db.events.map KeyedTable.rows).getD []
  | .postgres db => db.events.rows

def fetched : Backend → EventRow → EventRow
  | .sqlite _, row => row.readBack
  | .postgres _, row => row

def exportSnapshot : Backend → Except StoreError (List Char × Nat)
  | .sqlite db =>
    match db.events with
    | none => .error (.noSuchTable "events")
    | some t => writeSnapshot ((orderById .asc t.rows).map EventRow.readBack)
  | .postgres db => writeSnapshot (exportBatches (db.events.rows.length + 1) "" db.events.rows)

def andThen (result : Except StoreError Nat × Backend)
    (next : Nat → Backend → Except StoreError Nat × Backend) : Except StoreError Nat × Backend :=
  match result with
  | (.ok n, s) => next n s
  | (.error e, s) => (.error e, s)

/-- Insert what has been read so far, if anything. -/
def flush (host : Host) (batch : List LensEvent) (inserted : Nat) (s : Backend) :
    Except StoreError Nat × Backend :=
  andThen (s.insertDecoded host batch) (fun n s => (.ok (inserted + n), s))

def importLines (host : Host) : List (List Char) → List LensEvent → Nat → Backend →
    Except StoreError Nat × Backend
  | [], batch, inserted, s => s.flush host batch inserted
  | line :: rest, batch, inserted, s =>
    match readLine line with
    | none => (.error (.thrown "SyntaxError"), s)
    | some none => importLines host rest batch inserted s
    | some (some e) =>
      if SNAPSHOT_BATCH ≤ (batch ++ [e]).length then
        andThen (s.flush host (batch ++ [e]) inserted)
          (fun inserted s => importLines host rest [] inserted s)
      else importLines host rest (batch ++ [e]) inserted s

def importSnapshot (host : Host) (file : List Char) (s : Backend) :
    Except StoreError Nat × Backend := importLines host (lines [] file) [] 0 s

def getEvent (host : Host) (id : String) : Backend → Except StoreError (Option LensEvent)
  | .sqlite db => fetchEvent host.build id db
  | .postgres db => Postgres.getEvent id db

/-! ### A store of events -/

def Opened (host : Host) : Backend → Prop
  | .sqlite db => db.Ready host.build
  | .postgres _ => True

def Binds (id : String) : Backend → Prop
  | .sqlite _ => True
  | .postgres _ => Postgres.textBinds id = true

structure Sound (host : Host) (s : Backend) : Prop where
  opened : s.Opened host
  admitted : ∀ row ∈ s.rows, row.type.admitted = true
  readable : ∀ row ∈ s.rows, (s.fetched row).Readable
  binds : ∀ row ∈ s.rows, s.Binds row.id

structure Fresh (host : Host) (s : Backend) : Prop where
  opened : s.Opened host
  empty : s.rows = []
  references : s.References

end Backend

def DecodedValue.jsonb (d : DecodedValue) : DecodedValue := ⟨d.type, d.value.jsonb⟩

/-- An event with the keys of its objects in one order, for a JSONB column does
not keep theirs: equal images are deeply equal events. -/
def LensEvent.image (e : LensEvent) : LensEvent :=
  { e with topics := e.topics.map DecodedValue.jsonb, value := e.value.jsonb }

namespace Backend

structure SameEvents (host : Host) (s s' : Backend) : Prop where
  kept : ∀ id e, s.getEvent host id = .ok (some e) →
    ∃ e', s'.getEvent host id = .ok (some e') ∧ e'.image = e.image
  only : ∀ id e', s'.getEvent host id = .ok (some e') → ∃ e, s.getEvent host id = .ok (some e)

def RoundTrips (host : Host) (src dst : Backend) : Prop :=
  ∃ file n dst', src.exportSnapshot = .ok (file, n) ∧
    dst.importSnapshot host file = (.ok n, dst') ∧ src.SameEvents host dst' ∧
    dst'.importSnapshot host file = (.ok 0, dst')

end Backend

end SorobanLens
