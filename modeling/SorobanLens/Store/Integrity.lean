import SorobanLens.Store.RowInvariant
import SorobanLens.Lib.JsonNumeral

/-!
`checkIntegrity`: the derived columns of every row compared with what its own JSON
says, whoever wrote it.
-/

set_option autoImplicit false

namespace SorobanLens

/-- Integers print as they are everywhere here; `stringOfNumber` is `String(n)` of the rest. -/
def numeralText (stringOfNumber : Json.Numeral → String) (n : Json.Numeral) : String :=
  match n.integer? with
  | some k => intString k
  | none => stringOfNumber n

/-- `topicKey` of a parsed element, which need not be a decoded value. -/
def topicKeyOfJson (stringOfNumber : Json.Numeral → String) :
    Option (Json Json.Numeral) → Option String
  | some (.obj fields) =>
    match fields.lookup "value" with
    | some (.str s) => some s
    | some (.num n) => some (numeralText stringOfNumber n)
    | some (.bool b) => some (if b then "true" else "false")
    | _ => none
  | _ => none

def parseAnyJson (text : String) : Option (Json Json.Numeral) := Json.parse Json.numeralFormat text

def columnText (v : Option String) : String := v.getD "null"

def topicProblem (i : Nat) (exp actual : Option String) : List String :=
  if exp = actual then []
  else ["topic" ++ toString i ++ " is \"" ++ columnText actual ++ "\", expected \"" ++
    columnText exp ++ "\" from topics_json"]

def countProblem (row : EventRow) (length : Nat) : List String :=
  if length = row.topicCount then []
  else ["topic_count (" ++ toString row.topicCount ++ ") does not match topics_json length (" ++
    toString length ++ ")"]

def rowProblems (stringOfNumber : Json.Numeral → String) (row : EventRow) : List String :=
  let topics := parseAnyJson row.topicsJson
  (match topics with
    | none => ["topics_json is not valid JSON"]
    | some (.arr _) => []
    | some _ => ["topics_json is not a JSON array"]) ++
  (match parseAnyJson (decompressXdrColumn row.topicsXdrJson) with
    | none => ["topics_xdr_json is not valid JSON (or not validly compressed)"]
    | some _ => []) ++
  (match parseAnyJson row.valueJson with
    | none => ["value_json is not valid JSON"]
    | some _ => []) ++
  (match topics with
    | some (.arr items) =>
      countProblem row items.length ++
        topicProblem 0 (topicKeyOfJson stringOfNumber items[0]?) row.topic0 ++
        topicProblem 1 (topicKeyOfJson stringOfNumber items[1]?) row.topic1 ++
        topicProblem 2 (topicKeyOfJson stringOfNumber items[2]?) row.topic2 ++
        topicProblem 3 (topicKeyOfJson stringOfNumber items[3]?) row.topic3
    | _ => [])

structure IntegrityReport where
  id : String
  problems : List String
  deriving DecidableEq, Repr

def checkIntegrity (stringOfNumber : Json.Numeral → String) (db : Db) :
    Except StoreError (List IntegrityReport) :=
  match db.events with
  | none => .error (.noSuchTable "events")
  | some t =>
    .ok (((t.rows.map EventRow.readBack).map
      (fun row => ⟨row.id, rowProblems stringOfNumber row⟩)).filter
        (fun report => report.problems ≠ []))

/-! ### Rows the store wrote -/

def EventRow.Sound (stringOfNumber : Json.Numeral → String) (row : EventRow) : Prop :=
  rowProblems stringOfNumber row = []

section Sound

variable {stringOfNumber : Json.Numeral → String}

theorem parseAnyJson_stringify (v : JsonValue) :
    parseAnyJson (stringify v) = some (v.mapNum Json.Numeral.ofInt).normalise :=
  Json.parse_stringify_mapNum (show ∀ n, Json.numeralFormat.print (Json.Numeral.ofInt n) =
    Json.intFormat.print n from fun _ => rfl) v

theorem mapItems_map {α : Type} (f : α → JsonValue) (xs : List α) :
    Json.mapItems Json.Numeral.ofInt (xs.map f) =
      xs.map (fun x => (f x).mapNum Json.Numeral.ofInt) := by
  induction xs with
  | nil => rfl
  | cons x xs ih => simp [Json.mapItems, ih]

theorem topicKeyOfJson_toJson (topic : Option DecodedValue) :
    topicKeyOfJson stringOfNumber
      (topic.map (fun t => (t.toJson.mapNum Json.Numeral.ofInt).normalise)) = topicKey topic := by
  cases topic with
  | none => rfl
  | some t =>
    have hobj : (t.toJson.mapNum Json.Numeral.ofInt).normalise =
        .obj [("type", .str t.type), ("value", (t.value.mapNum Json.Numeral.ofInt).normalise)] := by
      simp [DecodedValue.toJson, Json.mapNum, Json.mapFields, Json.normalise, Json.normaliseFields,
        object_typeValue]
    simp only [Option.map_some, hobj, topicKeyOfJson, topicKey]
    cases t.value <;> simp [Json.mapNum, Json.normalise, List.lookup_cons, numeralText]

theorem parseAnyJson_topics (topics : List DecodedValue) :
    parseAnyJson (stringify (topicsToJson topics)) =
      some (.arr (topics.map (fun t => (t.toJson.mapNum Json.Numeral.ofInt).normalise))) := by
  simp only [parseAnyJson_stringify, topicsToJson, Json.mapNum, Json.normalise, mapItems_map,
    normaliseItems_map]

theorem sound_of_columns {row : EventRow} {topics : List DecodedValue} {xdr v : JsonValue}
    (ht : row.topicsJson = stringify (topicsToJson topics))
    (hx : decompressXdrColumn row.topicsXdrJson = stringify xdr) (hv : row.valueJson = stringify v)
    (hcount : row.topicCount = topics.length) (h0 : row.topic0 = topicKey topics[0]?)
    (h1 : row.topic1 = topicKey topics[1]?) (h2 : row.topic2 = topicKey topics[2]?)
    (h3 : row.topic3 = topicKey topics[3]?) : row.Sound stringOfNumber := by
  unfold EventRow.Sound rowProblems
  rw [ht, parseAnyJson_topics]
  simp only [hx, hv, parseAnyJson_stringify, List.length_map, List.getElem?_map,
    topicKeyOfJson_toJson, h0, h1, h2, h3, countProblem, hcount, topicProblem, if_true,
    List.append_nil]

theorem sound_insertParams (rt : Runtime) (e : LensEvent) :
    (insertParams rt e).Sound stringOfNumber :=
  sound_of_columns rfl (decompress_encode rt _) rfl rfl rfl rfl rfl rfl

theorem sound_setDerived (rt : Runtime) (row : EventRow) (e : LensEvent) :
    (row.setDerived (derivedColumns rt e)).Sound stringOfNumber :=
  sound_of_columns (show _ = stringify (topicsToJson e.topics) from rfl) (decompress_encode rt _)
    rfl rfl rfl rfl rfl rfl

theorem EventRow.Sound.topic0 {row : EventRow} {topics : List DecodedValue}
    (h : row.Sound stringOfNumber) (ht : row.topicsJson = stringify (topicsToJson topics)) :
    row.topic0 = topicKey topics[0]? := by
  unfold EventRow.Sound rowProblems at h
  rw [ht, parseAnyJson_topics] at h
  simp only [List.append_eq_nil_iff, List.getElem?_map, topicKeyOfJson_toJson] at h
  obtain ⟨-, ⟨⟨⟨-, h0⟩, -⟩, -⟩, -⟩ := h
  by_contra hne
  simp [topicProblem, Ne.symm hne] at h0

theorem checkIntegrity_of_sound {db : Db} {t : EventsTable} (ht : db.events = some t)
    (h : ∀ row ∈ t.rows, row.readBack.Sound stringOfNumber) :
    checkIntegrity stringOfNumber db = .ok [] := by
  unfold checkIntegrity
  rw [ht]
  refine congrArg Except.ok (List.filter_eq_nil_iff.mpr ?_)
  intro report hreport
  obtain ⟨row, hrow, rfl⟩ := List.mem_map.mp hreport
  obtain ⟨stored, hstored, rfl⟩ := List.mem_map.mp hrow
  have hnone : rowProblems stringOfNumber stored.readBack = [] := h stored hstored
  simp [hnone]

/-- No history leaves a row the check reports, other than one it reads cut. -/
theorem Db.Reached.checkIntegrity {db : Db} (h : db.Reached) {t : EventsTable}
    (ht : db.events = some t) (hwhole : ∀ row ∈ t.rows, row.readBack = row) :
    SorobanLens.checkIntegrity stringOfNumber db = .ok [] := by
  have hsound : db.EveryRow (EventRow.Sound stringOfNumber) :=
    h.everyRow sound_insertParams (fun rt row e _ => sound_setDerived rt row e)
  refine checkIntegrity_of_sound ht ?_
  intro row hrow
  rw [hwhole row hrow]
  exact hsound.rows ht row hrow

end Sound

end SorobanLens
