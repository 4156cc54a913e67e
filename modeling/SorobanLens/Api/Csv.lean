import SorobanLens.Lib.Csv
import SorobanLens.Lib.JsNumeral
import SorobanLens.Store.Snapshot

/-!
The CSV export of events: a header, then a row per event with its topics in columns
and everything that is not text as JSON.
-/

set_option autoImplicit false

namespace SorobanLens

def EOL : String := "\r\n"

def csvCell (text : String) (force : Bool := false) : String :=
  if force || text.toList.any Csv.isSpecial then String.ofList (Csv.quoted text.toList) else text

def TEXT_TYPES : List String := ["symbol", "string", "address"]

/-- `/^[=+\-@\t\r]/` -/
def isFormulaStart (text : String) : Bool :=
  text.toList.head?.any (fun c => ['=', '+', '-', '@', '\t', '\r'].contains c)

def guardFormula (text : String) : String := if isFormulaStart text then "'" ++ text else text

def jsonText (value : JsonValue) : String := Json.stringify Json.intFormat value

def valueText (decoded : DecodedValue) : String :=
  if TEXT_TYPES.contains decoded.type then
    match decoded.value with
    | .str s => guardFormula s
    | value => jsonText value
  else jsonText decoded.value

def valueCell (decoded : DecodedValue) : String := csvCell (valueText decoded)

def headerNames (topicColumns : Nat) : List String :=
  ["id", "contractId", "type", "ledger", "ledgerClosedAt", "txHash", "transactionIndex",
    "operationIndex", "inSuccessfulContractCall"] ++
  (List.range topicColumns).map (fun i => "topic" ++ toString i) ++
  ["valueType", "value", "decodeError"]

def eventCsvHeader (topicColumns : Nat) : String := ",".intercalate (headerNames topicColumns) ++ EOL

/-- A column for every topic, also beyond the header's width; columns without one are blank. -/
def topicCells (event : LensEvent) (topicColumns : Nat) : List String :=
  (List.range (max topicColumns event.topics.length)).map (fun i =>
    match event.topics[i]? with
    | some topic => valueCell topic
    | none => "")

def decodeErrorCell (event : LensEvent) : String :=
  match event.decodeError with
  | none => ""
  | some message => if message = "" then "" else csvCell (guardFormula message)

def rowCells (event : LensEvent) (topicColumns : Nat) : List String :=
  [csvCell event.id, csvCell event.contractId, csvCell event.type.text,
    JsNumber.intText event.ledger, csvCell event.ledgerClosedAt, csvCell event.txHash,
    JsNumber.intText event.transactionIndex, JsNumber.intText event.operationIndex,
    (if event.inSuccessfulContractCall then "true" else "false")] ++
  topicCells event topicColumns ++
  [csvCell event.value.type, valueCell ⟨"json", event.value.value⟩, decodeErrorCell event]

def eventCsvRow (event : LensEvent) (topicColumns : Nat) : String :=
  ",".intercalate (rowCells event topicColumns) ++ EOL

def csvRows (events : List LensEvent) (topicColumns : Nat) : List String :=
  eventCsvHeader topicColumns :: events.map (fun event => eventCsvRow event topicColumns)

/-! ### Every cell holds its text -/

def HoldsText (text cell : String) : Prop := Csv.Cell text.toList cell.toList

theorem holdsText_csvCell (text : String) (force : Bool) : HoldsText text (csvCell text force) := by
  unfold csvCell
  split
  · exact .inl (by rw [String.toList_ofList])
  · rename_i h
    simp only [Bool.or_eq_true, not_or, Bool.not_eq_true] at h
    exact .inr ⟨rfl, h.2⟩

theorem holdsText_plain {text : String} (h : text.toList.any Csv.isSpecial = false) :
    HoldsText text text := .inr ⟨rfl, h⟩

structure CsvRecord where
  front : List String
  topics : List String
  valueType : String
  value : String
  decodeError : String

def CsvRecord.fields (r : CsvRecord) : List String :=
  r.front ++ r.topics ++ [r.valueType, r.value, r.decodeError]

def frontTexts (event : LensEvent) : List String :=
  [event.id, event.contractId, event.type.text, JsNumber.intText event.ledger, event.ledgerClosedAt,
    event.txHash, JsNumber.intText event.transactionIndex, JsNumber.intText event.operationIndex,
    if event.inSuccessfulContractCall then "true" else "false"]

def topicTexts (event : LensEvent) (topicColumns : Nat) : List String :=
  (List.range (max topicColumns event.topics.length)).map (fun i =>
    match event.topics[i]? with
    | some topic => valueText topic
    | none => "")

def rowRecord (event : LensEvent) (topicColumns : Nat) : CsvRecord :=
  { front := frontTexts event
    topics := topicTexts event topicColumns
    valueType := event.value.type
    value := jsonText event.value.value
    decodeError := guardFormula (event.decodeError.getD "") }

theorem holdsText_intText (n : Nat) : HoldsText (JsNumber.intText n) (JsNumber.intText n) := by
  refine holdsText_plain (List.any_eq_false.mpr ?_)
  intro c hc hspecial
  have hneg : ¬ (n : Int) < 0 := by omega
  have hmem : c ∈ JsNumber.natChars n := by simpa [JsNumber.intText, hneg] using hc
  have hplain := (JsNumber.natChars_spec n).2.1 c hmem
  simp only [Csv.isSpecial, Bool.or_eq_true, decide_eq_true_eq] at hspecial
  obtain ((rfl | rfl) | rfl) | rfl := hspecial <;> exact absurd hplain (by decide)

theorem holdsText_topicCells (event : LensEvent) (topicColumns : Nat) :
    List.Forall₂ HoldsText (topicTexts event topicColumns) (topicCells event topicColumns) := by
  unfold topicTexts topicCells
  rw [List.forall₂_map_left_iff, List.forall₂_map_right_iff, List.forall₂_same]
  intro i _
  cases event.topics[i]? with
  | none => exact holdsText_plain rfl
  | some topic => exact holdsText_csvCell _ _

theorem holdsText_decodeErrorCell (event : LensEvent) :
    HoldsText (guardFormula (event.decodeError.getD "")) (decodeErrorCell event) := by
  unfold decodeErrorCell
  cases event.decodeError with
  | none => exact holdsText_plain rfl
  | some message =>
    dsimp only [Option.getD_some]
    split
    · rename_i h
      subst h
      exact holdsText_plain rfl
    · exact holdsText_csvCell _ _

/-! ### The export reads back -/

/-- An RFC 4180 reader, over strings. -/
def parseCsv (text : String) : Option (List (List String)) :=
  (Csv.parse text.toList).map (fun records => records.map (fun record => record.map String.ofList))

theorem toList_row (cells : List String) :
    (",".intercalate cells ++ EOL).toList = Csv.row (cells.map String.toList) := by
  rw [String.toList_append, String.toList_intercalate]
  rfl

theorem parseCsv_rows {records rows : List (List String)}
    (h : List.Forall₂ (List.Forall₂ HoldsText) records rows) (hne : ∀ cells ∈ rows, cells ≠ []) :
    parseCsv (String.join (rows.map (fun cells => ",".intercalate cells ++ EOL))) = some records := by
  have hchars : List.Forall₂ (List.Forall₂ Csv.Cell) (records.map (List.map String.toList))
      (rows.map (List.map String.toList)) := by
    rw [List.forall₂_map_left_iff, List.forall₂_map_right_iff]
    refine h.imp (fun texts cells hcells => ?_)
    rw [List.forall₂_map_left_iff, List.forall₂_map_right_iff]
    exact hcells
  have hparse := Csv.parse_rows hchars (by simpa using hne)
  have htext : (String.join (rows.map (fun cells => ",".intercalate cells ++ EOL))).toList =
      (rows.map (List.map String.toList)).flatMap Csv.row := by
    rw [String.toList_join, List.flatMap_map, List.flatMap_map]
    exact List.flatMap_congr (fun cells _ => toList_row cells)
  rw [parseCsv, htext, hparse]
  simp [Function.comp_def]

theorem holdsText_row (event : LensEvent) (topicColumns : Nat) :
    List.Forall₂ HoldsText (rowRecord event topicColumns).fields (rowCells event topicColumns) := by
  have hbool : HoldsText (if event.inSuccessfulContractCall then "true" else "false")
      (if event.inSuccessfulContractCall then "true" else "false") := by
    cases event.inSuccessfulContractCall <;> exact holdsText_plain (by decide)
  have hfront : List.Forall₂ HoldsText (frontTexts event)
      [csvCell event.id, csvCell event.contractId, csvCell event.type.text,
        JsNumber.intText event.ledger, csvCell event.ledgerClosedAt, csvCell event.txHash,
        JsNumber.intText event.transactionIndex, JsNumber.intText event.operationIndex,
        (if event.inSuccessfulContractCall then "true" else "false")] := by
    refine .cons (holdsText_csvCell _ _) (.cons (holdsText_csvCell _ _) (.cons (holdsText_csvCell _ _)
      (.cons (holdsText_intText _) (.cons (holdsText_csvCell _ _) (.cons (holdsText_csvCell _ _)
      (.cons (holdsText_intText _) (.cons (holdsText_intText _) (.cons hbool .nil))))))))
  have hvalue : valueText ⟨"json", event.value.value⟩ = jsonText event.value.value := rfl
  have hback : List.Forall₂ HoldsText
      [event.value.type, jsonText event.value.value, guardFormula (event.decodeError.getD "")]
      [csvCell event.value.type, valueCell ⟨"json", event.value.value⟩, decodeErrorCell event] := by
    refine .cons (holdsText_csvCell _ _) (.cons ?_ (.cons (holdsText_decodeErrorCell event) .nil))
    exact hvalue ▸ holdsText_csvCell _ _
  exact List.rel_append (List.rel_append hfront (holdsText_topicCells event topicColumns)) hback

def IsJsonText (value : JsonValue) (field : String) : Prop :=
  Json.parse Json.intFormat field = some value.normalise ∧
    (Json.Canonical value → Json.parse Json.intFormat field = some value)

theorem isJsonText_jsonText (value : JsonValue) : IsJsonText value (jsonText value) :=
  ⟨Json.parse_stringify _ _, Json.parse_stringify_canonical _⟩

def TopicField (topic : DecodedValue) (field : String) : Prop :=
  (∃ s, topic.type ∈ TEXT_TYPES ∧ topic.value = .str s ∧ field = guardFormula s) ∨
    ((topic.type ∉ TEXT_TYPES ∨ ∀ s, topic.value ≠ .str s) ∧ IsJsonText topic.value field)

theorem topicField_valueText (topic : DecodedValue) : TopicField topic (valueText topic) := by
  unfold valueText
  split
  · rename_i htype
    have hmem : topic.type ∈ TEXT_TYPES := List.contains_iff_mem.mp htype
    split
    · rename_i s hvalue
      exact .inl ⟨s, hmem, hvalue, rfl⟩
    · rename_i hvalue
      exact .inr ⟨.inr hvalue, isJsonText_jsonText _⟩
  · rename_i htype
    exact .inr ⟨.inl (fun hmem => htype (List.contains_iff_mem.mpr hmem)), isJsonText_jsonText _⟩

/-! ### No field is a formula -/

theorem isFormulaStart_guardFormula (text : String) : isFormulaStart (guardFormula text) = false := by
  unfold guardFormula
  split
  · simp [isFormulaStart]
  · rename_i h
    simpa using h

theorem num_of_isFormulaStart {value : JsonValue} (h : isFormulaStart (jsonText value) = true) :
    ∃ n, value = .num n := by
  have hhead : ∀ c cs, Json.render Json.intFormat value = c :: cs →
      ['=', '+', '-', '@', '\t', '\r'].contains c = true := by
    intro c cs hc
    simpa [isFormulaStart, jsonText, Json.stringify, hc] using h
  cases value with
  | num n => exact ⟨n, rfl⟩
  | null => exact absurd (hhead 'n' _ rfl) (by decide)
  | bool b => cases b <;> exact absurd (hhead _ _ rfl) (by decide)
  | str s => exact absurd (hhead '"' _ rfl) (by decide)
  | arr vs => cases vs <;> exact absurd (hhead '[' _ (by rw [Json.render])) (by decide)
  | obj fs => cases fs <;> exact absurd (hhead '\x7b' _ (by rw [Json.render])) (by decide)

def IsNumberText (field : String) : Prop := ∃ n : Int, field = jsonText (.num n)

theorem valueText_safe (decoded : DecodedValue) (h : isFormulaStart (valueText decoded) = true) :
    IsNumberText (valueText decoded) := by
  have hjson : ∀ value : JsonValue, isFormulaStart (jsonText value) = true →
      IsNumberText (jsonText value) := by
    intro value hvalue
    obtain ⟨n, rfl⟩ := num_of_isFormulaStart hvalue
    exact ⟨n, rfl⟩
  unfold valueText at h ⊢
  split at h
  · rename_i htype
    simp only [htype, if_true]
    split at h
    · rename_i s hvalue
      rw [isFormulaStart_guardFormula] at h
      cases h
    · rename_i hvalue
      exact hjson _ h
  · rename_i htype
    simp only [htype, Bool.false_eq_true, if_false]
    exact hjson _ h

/-- The record of an event: as many fields as the header has names, unless a topic is
beyond its width; the topics, the value and the error where the header says; and none of
these begins like a formula unless it is a number. -/
structure RecordOf (topicColumns : Nat) (event : LensEvent) (r : CsvRecord) : Prop where
  front : r.front = frontTexts event
  columns : r.topics.length = max topicColumns event.topics.length
  width : event.topics.length ≤ topicColumns →
    r.fields.length = (headerNames topicColumns).length
  topics : ∀ (i : Nat) (topic : DecodedValue), event.topics[i]? = some topic →
    ∃ field, r.topics[i]? = some field ∧ TopicField topic field
  value : r.valueType = event.value.type ∧ IsJsonText event.value.value r.value
  safe : ∀ field ∈ r.topics ++ [r.value, r.decodeError],
    isFormulaStart field = true → IsNumberText field

theorem recordOf_rowRecord (event : LensEvent) (topicColumns : Nat) :
    RecordOf topicColumns event (rowRecord event topicColumns) := by
  have hcolumns : (rowRecord event topicColumns).topics.length = max topicColumns event.topics.length := by
    simp [rowRecord, topicTexts]
  constructor
  case front => rfl
  case columns => exact hcolumns
  case width =>
    intro hle
    simp only [CsvRecord.fields, List.length_append, hcolumns, headerNames, List.length_map,
      List.length_range, max_eq_left hle]
    rfl
  case topics =>
    intro i topic htopic
    have hi : i < event.topics.length := (List.getElem?_eq_some_iff.mp htopic).1
    refine ⟨valueText topic, ?_, topicField_valueText topic⟩
    simp [rowRecord, topicTexts, List.getElem?_range (lt_of_lt_of_le hi (le_max_right _ _)), htopic]
  case value => exact ⟨rfl, isJsonText_jsonText _⟩
  case safe =>
    intro field hfield hstart
    simp only [rowRecord, List.mem_append, topicTexts, List.mem_map, List.mem_cons,
      List.not_mem_nil, or_false] at hfield
    obtain ⟨i, -, rfl⟩ | rfl | rfl := hfield
    · cases htopic : event.topics[i]? with
      | none =>
        rw [htopic] at hstart
        exact absurd hstart (by decide)
      | some topic =>
        rw [htopic] at hstart
        exact valueText_safe topic hstart
    · obtain ⟨n, hn⟩ := num_of_isFormulaStart hstart
      exact ⟨n, by rw [hn]⟩
    · rw [isFormulaStart_guardFormula] at hstart
      cases hstart

theorem holdsText_header (topicColumns : Nat) :
    List.Forall₂ HoldsText (headerNames topicColumns) (headerNames topicColumns) := by
  refine List.forall₂_same.mpr ?_
  intro name hname
  refine holdsText_plain ?_
  simp only [headerNames, List.mem_append, List.mem_map] at hname
  obtain (hfront | ⟨i, -, rfl⟩) | hback := hname
  · revert name
    decide
  · refine List.any_eq_false.mpr ?_
    intro c hc hspecial
    have hword : ∀ d ∈ "topic".toList, Csv.isSpecial d = false := by simp [Csv.isSpecial]
    rw [String.toList_append, List.mem_append] at hc
    obtain hc | hc := hc
    · exact absurd hspecial (by simp [hword c hc])
    · have hdigits : (toString i).toList = Nat.toDigits 10 i := by
        simp [ToString.toString, Nat.repr]
      rw [hdigits] at hc
      have hdigit := Json.isDigit_toDigits hc
      simp only [Csv.isSpecial, Bool.or_eq_true, decide_eq_true_eq] at hspecial
      obtain ((rfl | rfl) | rfl) | rfl := hspecial <;> exact absurd hdigit (by decide)
  · revert name
    decide

theorem csv_parses_back (events : List LensEvent) (topicColumns : Nat) :
    ∃ records : List CsvRecord,
      parseCsv (String.join (csvRows events topicColumns)) =
        some (headerNames topicColumns :: records.map CsvRecord.fields) ∧
      List.Forall₂ (RecordOf topicColumns) events records := by
  refine ⟨events.map (fun event => rowRecord event topicColumns), ?_, ?_⟩
  · have hrows : List.Forall₂ (List.Forall₂ HoldsText)
        (events.map (fun event => (rowRecord event topicColumns).fields))
        (events.map (fun event => rowCells event topicColumns)) := by
      rw [List.forall₂_map_left_iff, List.forall₂_map_right_iff, List.forall₂_same]
      exact fun event _ => holdsText_row event topicColumns
    have hne : ∀ cells ∈ headerNames topicColumns :: events.map (fun event => rowCells event topicColumns),
        cells ≠ [] := by
      simp [headerNames, rowCells]
    have hparse := parseCsv_rows (.cons (holdsText_header topicColumns) hrows) hne
    simpa [csvRows, eventCsvHeader, eventCsvRow, Function.comp_def] using hparse
  · rw [List.forall₂_map_right_iff, List.forall₂_same]
    exact fun event _ => recordOf_rowRecord event topicColumns

end SorobanLens
