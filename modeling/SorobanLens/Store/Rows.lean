import SorobanLens.Store.Decode
import SorobanLens.Lib.KeyedTable
import Mathlib.Data.List.Forall2
import Mathlib.Data.List.TakeWhile

/-!
The rows of the event tables, how an event becomes one and how a row reads back.
-/

set_option autoImplicit false

namespace SorobanLens

structure Runtime where
  sdk : Sdk
  /-- `new Date(text).getTime()`, `none` for an invalid date. -/
  dateGetTime : String → Option Int
  toISOString : Int → String
  /-- Bytes `gzipSync` makes of a text. -/
  gzipLength : String → Nat

/-- A raw-XDR column: plain text, or the gzip blob of a text. -/
inductive XdrColumn where
  | text (s : String)
  | blob (packed : String)
  deriving DecidableEq, Repr

def encodeXdrColumn (rt : Runtime) (text : String) : XdrColumn :=
  if rt.gzipLength text < text.utf8ByteSize then .blob text else .text text

def decompressXdrColumn : XdrColumn → String
  | .text s | .blob s => s

@[simp] theorem decompress_encode (rt : Runtime) (text : String) :
    decompressXdrColumn (encodeXdrColumn rt text) = text := by
  unfold encodeXdrColumn
  split <;> rfl

structure EventRow where
  id : String
  contractId : String
  type : EventType
  ledger : Nat
  ledgerClosedAt : String
  closedAtUnix : Int
  txHash : String
  transactionIndex : Nat
  operationIndex : Nat
  inSuccessfulCall : Bool
  topicsJson : String
  topicsXdrJson : XdrColumn
  topicCount : Nat
  topic0 : Option String
  topic1 : Option String
  topic2 : Option String
  topic3 : Option String
  valueType : String
  valueJson : String
  valueXdr : XdrColumn
  decodeError : Option String
  indexedAt : String
  deriving DecidableEq, Repr

/-! ### Text columns -/

/-- `node:sqlite` binds a text as it is and reads one back up to its first U+0000. -/
def readText (text : String) : String :=
  String.ofList (text.toList.takeWhile (fun c => c != '\x00'))

/-- A text that a `TEXT` column of either store gives back as it was. -/
def Whole (text : String) : Prop := '\x00' ∉ text.toList

instance : DecidablePred Whole := fun text => inferInstanceAs (Decidable ('\x00' ∉ text.toList))

theorem whole_readText (text : String) : Whole (readText text) := by
  intro hmem
  rw [readText, String.toList_ofList] at hmem
  simpa using List.mem_takeWhile_imp hmem

theorem readText_eq_iff {text : String} : readText text = text ↔ Whole text := by
  constructor
  · intro h
    rw [← h]
    exact whole_readText text
  · intro h
    have hall : text.toList.takeWhile (fun c => c != '\x00') = text.toList := by
      refine List.takeWhile_eq_self_iff.mpr ?_
      intro c hc
      simp only [bne_iff_ne, ne_eq]
      intro heq
      exact h (heq ▸ hc)
    rw [readText, hall, String.ofList_toList]

theorem readText_of_whole {text : String} (h : Whole text) : readText text = text :=
  readText_eq_iff.mpr h

theorem readText_append {text : String} (h : Whole text) (rest : String) :
    readText (text ++ "\x00" ++ rest) = text := by
  have hpos : ∀ c ∈ text.toList, (c != '\x00') = true := by
    intro c hc
    simp only [bne_iff_ne, ne_eq]
    intro heq
    exact h (heq ▸ hc)
  have hlist : (text ++ "\x00" ++ rest).toList = text.toList ++ '\x00' :: rest.toList := by simp
  rw [readText, hlist, List.takeWhile_append_of_pos hpos, List.takeWhile_cons_of_neg (by decide),
    List.append_nil, String.ofList_toList]

/-- A blob is read back to its end. -/
def XdrColumn.readBack : XdrColumn → XdrColumn
  | .text s => .text (readText s)
  | .blob packed => .blob packed

def EventRow.readBack (row : EventRow) : EventRow :=
  { row with
    id := readText row.id
    contractId := readText row.contractId
    ledgerClosedAt := readText row.ledgerClosedAt
    txHash := readText row.txHash
    topicsJson := readText row.topicsJson
    topicsXdrJson := row.topicsXdrJson.readBack
    topic0 := row.topic0.map readText
    topic1 := row.topic1.map readText
    topic2 := row.topic2.map readText
    topic3 := row.topic3.map readText
    valueType := readText row.valueType
    valueJson := readText row.valueJson
    valueXdr := row.valueXdr.readBack
    decodeError := row.decodeError.map readText
    indexedAt := readText row.indexedAt }

@[simp] theorem readBack_id (row : EventRow) : row.readBack.id = readText row.id := rfl

@[simp] theorem readBack_type (row : EventRow) : row.readBack.type = row.type := rfl

structure AddressRow where
  eventId : String
  address : String
  position : String
  deriving DecidableEq, Repr

structure FtsRow where
  eventId : String
  topicsText : String
  valueText : String
  deriving DecidableEq, Repr

structure SpecRow where
  contractId : String
  source : String
  wasmHash : Option String
  entriesXdr : String
  eventCount : Nat
  error : Option String
  fetchedAt : String
  deriving DecidableEq, Repr

/-! ### JSON columns -/

def DecodedValue.toJson (v : DecodedValue) : JsonValue :=
  .obj [("type", .str v.type), ("value", v.value)]

def topicsToJson (topics : List DecodedValue) : JsonValue := .arr (topics.map DecodedValue.toJson)

def stringsToJson (xs : List String) : JsonValue := .arr (xs.map Json.str)

def stringify (v : JsonValue) : String := Json.stringify Json.intFormat v

def parseJson (s : String) : Option JsonValue := Json.parse Json.intFormat s

def DecodedValue.ofJson : JsonValue → Option DecodedValue
  | .obj fields =>
    match fields.lookup "type", fields.lookup "value" with
    | some (.str type), some value => some ⟨type, value⟩
    | _, _ => none
  | _ => none

def topicsOfJson : JsonValue → Option (List DecodedValue)
  | .arr items => items.mapM DecodedValue.ofJson
  | _ => none

def stringOfJson : JsonValue → Option String
  | .str s => some s
  | _ => none

def stringsOfJson : JsonValue → Option (List String)
  | .arr items => items.mapM stringOfJson
  | _ => none

def DecodedValue.normalise (v : DecodedValue) : DecodedValue := ⟨v.type, v.value.normalise⟩

theorem normaliseItems_map {α ν : Type} (f : α → Json ν) (xs : List α) :
    Json.normaliseItems (xs.map f) = xs.map (fun x => (f x).normalise) := by
  induction xs with
  | nil => rfl
  | cons x xs ih => simp [Json.normaliseItems, ih]

theorem object_typeValue {ν : Type} (a b : Json ν) :
    Json.object [("type", a), ("value", b)] = [("type", a), ("value", b)] := by
  have ht : Json.arrayIndex "type" = none := by decide
  have hv : Json.arrayIndex "value" = none := by decide
  simp [Json.object, Json.defineProperty, Json.placeProperty, hv]

theorem ofJson_normalise_toJson (v : DecodedValue) :
    DecodedValue.ofJson v.toJson.normalise = some v.normalise := by
  simp [DecodedValue.toJson, Json.normalise, Json.normaliseFields, object_typeValue,
    DecodedValue.ofJson, List.lookup_cons, DecodedValue.normalise]

theorem mapM_map_some {α β γ : Type} (f : β → Option γ) (g : α → β) (h : α → γ)
    (hf : ∀ x, f (g x) = some (h x)) (xs : List α) : (xs.map g).mapM f = some (xs.map h) := by
  induction xs with
  | nil => rfl
  | cons x xs ih => simp [List.mapM_cons, hf, ih]

theorem mapM_eq_some {α β : Type} {f : α → Option β} {xs : List α} {ys : List β} :
    xs.mapM f = some ys ↔ List.Forall₂ (fun x y => f x = some y) xs ys := by
  induction xs generalizing ys with
  | nil => cases ys <;> simp
  | cons x xs ih =>
    simp only [List.mapM_cons, Option.bind_eq_bind, Option.bind_eq_some_iff, Option.pure_def,
      Option.some.injEq, List.forall₂_cons_left_iff, ih]
    constructor
    · intro h
      obtain ⟨y, hy, zs, hzs, rfl⟩ := h
      exact ⟨y, zs, hy, hzs, rfl⟩
    · intro h
      obtain ⟨y, zs, hy, hzs, rfl⟩ := h
      exact ⟨y, hy, zs, hzs, rfl⟩

theorem mem_of_forall₂ {α β : Type} {R : α → β → Prop} {xs : List α} {ys : List β}
    (h : List.Forall₂ R xs ys) : (∀ x ∈ xs, ∃ y ∈ ys, R x y) ∧ ∀ y ∈ ys, ∃ x ∈ xs, R x y := by
  induction h with
  | nil => simp
  | cons hxy _ ih =>
    refine ⟨List.forall_mem_cons.mpr ⟨⟨_, List.mem_cons_self, hxy⟩, ?_⟩,
      List.forall_mem_cons.mpr ⟨⟨_, List.mem_cons_self, hxy⟩, ?_⟩⟩
    · intro x hx
      obtain ⟨y, hy, hf⟩ := ih.1 x hx
      exact ⟨y, List.mem_cons_of_mem _ hy, hf⟩
    · intro y hy
      obtain ⟨x, hx, hf⟩ := ih.2 y hy
      exact ⟨x, List.mem_cons_of_mem _ hx, hf⟩

theorem parse_topics (topics : List DecodedValue) :
    (parseJson (stringify (topicsToJson topics))).bind topicsOfJson =
      some (topics.map DecodedValue.normalise) := by
  simp only [parseJson, stringify, Json.parse_stringify, Option.bind_some, topicsToJson,
    Json.normalise, normaliseItems_map, topicsOfJson]
  exact mapM_map_some _ _ _ ofJson_normalise_toJson topics

theorem parse_value (v : DecodedValue) :
    (parseJson (stringify v.toJson)).bind DecodedValue.ofJson = some v.normalise := by
  simp only [parseJson, stringify, Json.parse_stringify, Option.bind_some]
  exact ofJson_normalise_toJson v

theorem parse_strings (xs : List String) :
    (parseJson (stringify (stringsToJson xs))).bind stringsOfJson = some xs := by
  simp only [parseJson, stringify, Json.parse_stringify, Option.bind_some, stringsToJson,
    Json.normalise, normaliseItems_map, stringsOfJson]
  have h := mapM_map_some stringOfJson (fun s : String => (Json.str s : JsonValue)) id
    (fun _ => rfl) xs
  simpa using h

/-! ### Events and rows -/

def closedAtUnix (rt : Runtime) (ledgerClosedAt : String) : Int :=
  match rt.dateGetTime ledgerClosedAt with
  | some ms => ms.fdiv 1000
  | none => 0

def insertParams (rt : Runtime) (e : LensEvent) : EventRow where
  id := e.id
  contractId := e.contractId
  type := e.type
  ledger := e.ledger
  ledgerClosedAt := e.ledgerClosedAt
  closedAtUnix := closedAtUnix rt e.ledgerClosedAt
  txHash := e.txHash
  transactionIndex := e.transactionIndex
  operationIndex := e.operationIndex
  inSuccessfulCall := e.inSuccessfulContractCall
  topicsJson := stringify (topicsToJson e.topics)
  topicsXdrJson := encodeXdrColumn rt (stringify (stringsToJson e.topicsXdr))
  topicCount := e.topics.length
  topic0 := topicKey e.topics[0]?
  topic1 := topicKey e.topics[1]?
  topic2 := topicKey e.topics[2]?
  topic3 := topicKey e.topics[3]?
  valueType := e.value.type
  valueJson := stringify e.value.toJson
  valueXdr := encodeXdrColumn rt e.valueXdr
  decodeError := e.decodeError
  indexedAt := e.indexedAt

def EventRow.topicsXdr (row : EventRow) : Option (List String) :=
  (parseJson (decompressXdrColumn row.topicsXdrJson)).bind stringsOfJson

/-- The record a row reads back as; `none` is the `SyntaxError` of a column that
does not hold what was written to it. -/
def rowToEvent (row : EventRow) : Option LensEvent := do
  let topics ← (parseJson row.topicsJson).bind topicsOfJson
  let topicsXdr ← row.topicsXdr
  let value ← (parseJson row.valueJson).bind DecodedValue.ofJson
  pure
    { id := row.id
      contractId := row.contractId
      type := row.type
      ledger := row.ledger
      ledgerClosedAt := row.ledgerClosedAt
      txHash := row.txHash
      transactionIndex := row.transactionIndex
      operationIndex := row.operationIndex
      inSuccessfulContractCall := row.inSuccessfulCall
      topics := topics
      topicsXdr := topicsXdr
      value := value
      valueXdr := decompressXdrColumn row.valueXdr
      decodeError := row.decodeError
      indexedAt := row.indexedAt }

/-- The columns computed from the raw XDR, which an `UPDATE` may rewrite. -/
structure DerivedColumns where
  topicsJson : String
  topicsXdrJson : XdrColumn
  topicCount : Nat
  topic0 : Option String
  topic1 : Option String
  topic2 : Option String
  topic3 : Option String
  valueType : String
  valueJson : String
  valueXdr : XdrColumn
  decodeError : Option String

def EventRow.setDerived (row : EventRow) (d : DerivedColumns) : EventRow :=
  { row with
    topicsJson := d.topicsJson
    topicsXdrJson := d.topicsXdrJson
    topicCount := d.topicCount
    topic0 := d.topic0
    topic1 := d.topic1
    topic2 := d.topic2
    topic3 := d.topic3
    valueType := d.valueType
    valueJson := d.valueJson
    valueXdr := d.valueXdr
    decodeError := d.decodeError }

@[simp] theorem setDerived_id (row : EventRow) (d : DerivedColumns) :
    (row.setDerived d).id = row.id := rfl

theorem setDerived_keeps (d : DerivedColumns) : ∀ row : EventRow, (row.setDerived d).id = row.id :=
  fun _ => rfl

@[simp] theorem setDerived_type (row : EventRow) (d : DerivedColumns) :
    (row.setDerived d).type = row.type := rfl

@[simp] theorem setDerived_ledger (row : EventRow) (d : DerivedColumns) :
    (row.setDerived d).ledger = row.ledger := rfl

def derivedColumns (rt : Runtime) (event : LensEvent) : DerivedColumns where
  topicsJson := stringify (topicsToJson event.topics)
  topicsXdrJson := encodeXdrColumn rt (stringify (stringsToJson event.topicsXdr))
  topicCount := event.topics.length
  topic0 := topicKey event.topics[0]?
  topic1 := topicKey event.topics[1]?
  topic2 := topicKey event.topics[2]?
  topic3 := topicKey event.topics[3]?
  valueType := event.value.type
  valueJson := stringify event.value.toJson
  valueXdr := encodeXdrColumn rt event.valueXdr
  decodeError := event.decodeError

/-- Re-decode a row from the raw XDR it keeps. `none` is a thrown error: a topics
column that is not what was written, or a date that is none. -/
def recompute (rt : Runtime) (row : EventRow) : Option (DerivedColumns × LensEvent) := do
  let topic ← row.topicsXdr
  let indexedAt ← rt.dateGetTime row.indexedAt
  let raw : RawEvent :=
    { id := row.id
      type := row.type
      ledger := row.ledger
      ledgerClosedAt := row.ledgerClosedAt
      contractId := row.contractId
      topic := topic
      value := decompressXdrColumn row.valueXdr
      txHash := row.txHash
      transactionIndex := row.transactionIndex
      operationIndex := row.operationIndex
      inSuccessfulContractCall := row.inSuccessfulCall }
  let event := decodeEvent rt.sdk (rt.toISOString indexedAt) raw
  pure (derivedColumns rt event, event)

@[simp] theorem insertParams_id (rt : Runtime) (e : LensEvent) : (insertParams rt e).id = e.id := rfl

@[simp] theorem insertParams_type (rt : Runtime) (e : LensEvent) :
    (insertParams rt e).type = e.type := rfl

@[simp] theorem topicsXdr_insertParams (rt : Runtime) (e : LensEvent) :
    (insertParams rt e).topicsXdr = some e.topicsXdr := by
  simp [EventRow.topicsXdr, insertParams, parse_strings]

@[simp] theorem valueXdr_insertParams (rt : Runtime) (e : LensEvent) :
    decompressXdrColumn (insertParams rt e).valueXdr = e.valueXdr := by
  simp [insertParams]

def LensEvent.normalise (e : LensEvent) : LensEvent :=
  { e with topics := e.topics.map DecodedValue.normalise, value := e.value.normalise }

theorem rowToEvent_insertParams (rt : Runtime) (e : LensEvent) :
    rowToEvent (insertParams rt e) = some e.normalise := by
  have ht : (parseJson (insertParams rt e).topicsJson).bind topicsOfJson =
      some (e.topics.map DecodedValue.normalise) := parse_topics e.topics
  have hv : (parseJson (insertParams rt e).valueJson).bind DecodedValue.ofJson =
      some e.value.normalise := parse_value e.value
  unfold rowToEvent
  rw [ht, hv, topicsXdr_insertParams, valueXdr_insertParams]
  rfl

def EventRow.Readable (row : EventRow) : Prop := ∃ e, rowToEvent row = some e

theorem readable_of_columns {row : EventRow} {topics : List DecodedValue} {xdr : List String}
    {value : DecodedValue} (ht : (parseJson row.topicsJson).bind topicsOfJson = some topics)
    (hx : row.topicsXdr = some xdr)
    (hv : (parseJson row.valueJson).bind DecodedValue.ofJson = some value) : row.Readable := by
  simp [EventRow.Readable, rowToEvent, ht, hx, hv]

theorem readable_insertParams (rt : Runtime) (e : LensEvent) : (insertParams rt e).Readable :=
  readable_of_columns (parse_topics e.topics) (topicsXdr_insertParams rt e) (parse_value e.value)

@[simp] theorem topicsXdr_setDerived (rt : Runtime) (row : EventRow) (e : LensEvent) :
    (row.setDerived (derivedColumns rt e)).topicsXdr = some e.topicsXdr := by
  simp [EventRow.topicsXdr, EventRow.setDerived, derivedColumns, parse_strings]

@[simp] theorem valueXdr_setDerived (rt : Runtime) (row : EventRow) (e : LensEvent) :
    decompressXdrColumn (row.setDerived (derivedColumns rt e)).valueXdr = e.valueXdr := by
  simp [EventRow.setDerived, derivedColumns]

theorem readable_setDerived (rt : Runtime) (row : EventRow) (e : LensEvent) :
    (row.setDerived (derivedColumns rt e)).Readable :=
  readable_of_columns (parse_topics e.topics) (topicsXdr_setDerived rt row e) (parse_value e.value)

/-- Re-decoding keeps the raw XDR, and rewrites what it decodes from nothing else. -/
theorem recompute_spec {rt : Runtime} {row : EventRow} {d : DerivedColumns} {event : LensEvent}
    (h : recompute rt row = some (d, event)) :
    d = derivedColumns rt event ∧ event.id = row.id ∧ row.topicsXdr = some event.topicsXdr ∧
      event.valueXdr = decompressXdrColumn row.valueXdr := by
  unfold recompute at h
  simp only [Option.pure_def, Option.bind_eq_bind, Option.bind_eq_some_iff, Option.some.injEq,
    Prod.mk.injEq] at h
  obtain ⟨topic, ht, ms, -, rfl, rfl⟩ := h
  exact ⟨rfl, rfl, ht, rfl⟩

@[simp] theorem rowToEvent_id {row : EventRow} {e : LensEvent} (h : rowToEvent row = some e) :
    e.id = row.id := by
  unfold rowToEvent at h
  simp only [Option.bind_eq_bind, Option.bind_eq_some_iff] at h
  obtain ⟨_, _, _, _, _, _, h⟩ := h
  simp only [Option.pure_def, Option.some.injEq] at h
  rw [← h]

theorem rowToEvent_type {row : EventRow} {e : LensEvent} (h : rowToEvent row = some e) :
    e.type = row.type := by
  unfold rowToEvent at h
  simp only [Option.bind_eq_bind, Option.bind_eq_some_iff] at h
  obtain ⟨_, _, _, _, _, _, h⟩ := h
  simp only [Option.pure_def, Option.some.injEq] at h
  rw [← h]

end SorobanLens
