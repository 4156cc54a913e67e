import SorobanLens.Store.SnapshotLines

/-!
When an exported snapshot imports back: batches of an import are one insert, and
either store takes it unless a line or an id is cut or Postgres refuses an event.
-/

set_option autoImplicit false

namespace SorobanLens

/-! ### Importing -/

namespace Backend

variable {host : Host}

theorem References.insertDecoded {s s' : Backend} (h : s.References) {es : List LensEvent}
    {r : Except StoreError Nat} (hins : s.insertDecoded host es = (r, s')) : s'.References := by
  cases s with
  | sqlite db =>
    cases hdb : SorobanLens.insertDecoded host.rt host.build es db with
    | mk r' db' =>
      rw [Backend.insertDecoded, hdb] at hins
      obtain ⟨-, rfl⟩ := Prod.mk.inj hins
      rcases insertDecoded_cases hdb with ⟨n, -, hb⟩ | ⟨e, -, rfl⟩
      · refine insertBatch_induct (P := Db.References) ?_ h hb
        intro e m mid mid' hmid hstep
        exact hmid.insertOne hstep
      · exact h
  | postgres db =>
    obtain ⟨-, rfl⟩ := Prod.mk.inj hins
    trivial

theorem insertDecoded_append {s s'' : Backend} (hrefs : s.References) {xs ys : List LensEvent}
    (hes : ∀ e ∈ xs ++ ys, e.type.admitted = true) {n : Nat} :
    s.insertDecoded host (xs ++ ys) = (.ok n, s'') ↔ ∃ a b s',
      s.insertDecoded host xs = (.ok a, s') ∧ s'.insertDecoded host ys = (.ok b, s'') ∧
        n = a + b := by
  cases s with
  | sqlite db => exact (firstWriteWins_sqlite hrefs hes).split xs ys rfl n s''
  | postgres db => exact (firstWriteWins_postgres host _ db).split xs ys rfl n s''

theorem andThen_ok {result : Except StoreError Nat × Backend}
    {next : Nat → Backend → Except StoreError Nat × Backend} {n : Nat} {s' : Backend} :
    andThen result next = (.ok n, s') ↔ ∃ k t, result = (.ok k, t) ∧ next k t = (.ok n, s') := by
  obtain ⟨r, t⟩ := result
  cases r with
  | ok k =>
    constructor
    · intro h
      exact ⟨k, t, rfl, h⟩
    · intro h
      obtain ⟨k', t', heq, h⟩ := h
      cases heq
      exact h
  | error e => simp [andThen]

theorem flush_ok {batch : List LensEvent} {inserted n : Nat} {s s' : Backend} :
    s.flush host batch inserted = (.ok n, s') ↔
      ∃ m, s.insertDecoded host batch = (.ok m, s') ∧ n = inserted + m := by
  simp only [flush, andThen_ok, Prod.mk.injEq, Except.ok.injEq]
  constructor
  · intro h
    obtain ⟨m, t, hm, hn, rfl⟩ := h
    exact ⟨m, hm, hn.symm⟩
  · intro h
    obtain ⟨m, hm, hn⟩ := h
    exact ⟨m, s', hm, hn.symm, rfl⟩

theorem importLines_ok {ls : List (List Char)} {es batch : List LensEvent} {inserted n : Nat}
    {s s' : Backend} (hread : ls.map readLine = es.map (fun e => some (some e)))
    (hadmitted : ∀ e ∈ batch ++ es, e.type.admitted = true) (hrefs : s.References) :
    importLines host ls batch inserted s = (.ok n, s') ↔
      ∃ m, s.insertDecoded host (batch ++ es) = (.ok m, s') ∧ n = inserted + m := by
  induction ls generalizing es batch inserted n s with
  | nil =>
    obtain rfl : es = [] := by simpa using hread.symm
    rw [List.append_nil, importLines, flush_ok]
  | cons line ls ih =>
    cases es with
    | nil => simp at hread
    | cons e es =>
      obtain ⟨hline, hrest⟩ := List.cons.inj hread
      rw [importLines, hline]
      have happend : batch ++ e :: es = (batch ++ [e]) ++ es := by simp
      rw [happend] at hadmitted ⊢
      by_cases hfull : SNAPSHOT_BATCH ≤ (batch ++ [e]).length
      · have hes : ∀ x ∈ ([] : List LensEvent) ++ es, x.type.admitted = true :=
          fun x hx => hadmitted x (List.mem_append_right _ hx)
        simp only [hfull, if_true, andThen_ok, flush_ok, insertDecoded_append hrefs hadmitted]
        constructor
        · intro h
          obtain ⟨_, t, ⟨a, ha, rfl⟩, h⟩ := h
          obtain ⟨b, hb, rfl⟩ := (ih hrest hes (hrefs.insertDecoded ha)).mp h
          exact ⟨a + b, ⟨a, b, t, ha, hb, rfl⟩, by omega⟩
        · intro h
          obtain ⟨_, ⟨a, b, t, ha, hb, rfl⟩, rfl⟩ := h
          exact ⟨_, t, ⟨a, ha, rfl⟩,
            (ih hrest hes (hrefs.insertDecoded ha)).mpr ⟨b, hb, by omega⟩⟩
      · simp only [hfull, if_false]
        exact ih hrest hadmitted hrefs

theorem importLines_error {ls : List (List Char)} {line : List Char} (hmem : line ∈ ls)
    (hbad : readLine line = none) (batch : List LensEvent) (inserted : Nat) (s : Backend) :
    ∃ err, (importLines host ls batch inserted s).1 = .error err := by
  induction ls generalizing batch inserted s with
  | nil => simp at hmem
  | cons x ls ih =>
    rw [importLines]
    cases hx : readLine x with
    | none => exact ⟨_, rfl⟩
    | some r =>
      have hne : line ≠ x := by
        intro heq
        rw [heq, hx] at hbad
        cases hbad
      have hrest := ih ((List.mem_cons.mp hmem).resolve_left hne)
      cases r with
      | none => exact hrest batch inserted s
      | some e =>
        simp only
        split
        · cases hflush : s.flush host (batch ++ [e]) inserted with
          | mk r t =>
            cases r with
            | ok k => exact hrest [] k t
            | error err => exact ⟨err, rfl⟩
        · exact hrest _ _ _

end Backend

/-! ### Exporting -/

theorem exportBatches_eq {rows : List EventRow} (h : (rows.map EventRow.id).Nodup) {fuel : Nat}
    {after : String} (hfuel : (rows.filter (fun r => decide (after < r.id))).length < fuel) :
    exportBatches fuel after rows =
      orderById .asc (rows.filter (fun r => decide (after < r.id))) := by
  have hfilter : ∀ c : String, orderById .asc (rows.filter (fun r => decide (c < r.id))) =
      (orderById .asc rows).filter (Keyset.past EventRow.id Order.asc.Before (some c)) :=
    fun c => Keyset.arrange_filter h _
  have hlength : ∀ c : String, (rows.filter (fun r => decide (c < r.id))).length =
      (orderById .asc (rows.filter (fun r => decide (c < r.id)))).length :=
    fun c => (List.length_insertionSort _ _).symm
  have hall : ∀ c, (Keyset.forward EventRow.id Order.asc.Before (orderById .asc rows) (some c)
      EXPORT_BATCH).all = orderById .asc rows :=
    fun c => Keyset.forward_all (ascending_orderById h .asc) (some c) EXPORT_BATCH
  induction fuel generalizing after with
  | zero => omega
  | succ fuel ih =>
    have hascending : Keyset.Ascending EventRow.id Order.asc.Before
        (Keyset.forward EventRow.id Order.asc.Before (orderById .asc rows) (some after)
          EXPORT_BATCH).all := by
      rw [hall]
      exact ascending_orderById h .asc
    simp only [exportBatches, hfilter]
    cases hlast : (((orderById .asc rows).filter
        (Keyset.past EventRow.id Order.asc.Before (some after))).take EXPORT_BATCH).getLast? with
    | none =>
      have hnil := List.getLast?_eq_none_iff.mp hlast
      rw [List.take_eq_nil_iff] at hnil
      exact (hnil.resolve_left (by decide)).symm
    | some last =>
      have hrest := Keyset.filter_past_last hascending (x := last) hlast
      rw [hall] at hrest
      have hshorter : (rows.filter (fun r => decide (last.id < r.id))).length < fuel := by
        rw [hlength, hfilter, hrest]
        rw [hlength, hfilter] at hfuel
        have hpos : 0 < ((orderById .asc rows).filter
            (Keyset.past EventRow.id Order.asc.Before (some after))).length := by
          refine List.length_pos_iff.mpr (fun hnil => ?_)
          simp [hnil] at hlast
        simp only [Keyset.forward, List.length_drop, EXPORT_BATCH]
        omega
      simp only [ih hshorter, hfilter, hrest]
      exact List.take_append_drop _ _

namespace Backend

variable {host : Host}

/-- The rows an export writes: Postgres starts past the empty id. -/
def exportRows : Backend → List EventRow
  | .sqlite db => orderById .asc (Backend.sqlite db).rows
  | .postgres db => orderById .asc (db.events.rows.filter (fun r => decide ("" < r.id)))

theorem nodup_rows (s : Backend) : (s.rows.map EventRow.id).Nodup := by
  cases s with
  | sqlite db =>
    cases he : db.events with
    | none => simp [rows, he]
    | some t => simpa [rows, he] using t.nodup
  | postgres db => exact db.events.nodup

theorem empty_lt_iff {s : String} : "" < s ↔ s ≠ "" := by
  constructor
  · intro h heq
    rw [heq] at h
    exact absurd h (lt_irrefl "")
  · intro h
    rw [String.lt_iff_toList_lt]
    cases hs : s.toList with
    | nil => exact absurd (String.toList_eq_nil_iff.mp hs) h
    | cons c cs => exact List.nil_lt_cons c cs

def Exports : Backend → String → Prop
  | .sqlite _, _ => True
  | .postgres _, id => id ≠ ""

theorem mem_exportRows {s : Backend} {row : EventRow} :
    row ∈ s.exportRows ↔ row ∈ s.rows ∧ s.Exports row.id := by
  cases s with
  | sqlite db => simp [exportRows, orderById, Keyset.mem_arrange, Exports]
  | postgres db =>
    simp only [exportRows, orderById, Keyset.mem_arrange, List.mem_filter, decide_eq_true_eq, rows,
      empty_lt_iff, Exports]

theorem nodup_exportRows (s : Backend) : (s.exportRows.map EventRow.id).Nodup := by
  have hsorted : ∀ rows : List EventRow, (rows.map EventRow.id).Nodup →
      ((orderById .asc rows).map EventRow.id).Nodup := by
    intro rows h
    exact ((List.perm_insertionSort _ rows).map EventRow.id).nodup_iff.mpr h
  cases s with
  | sqlite db => exact hsorted _ (nodup_rows _)
  | postgres db => exact hsorted _ (Keyset.nodup_filter (nodup_rows (.postgres db)) _)

theorem exportSnapshot_ok {s : Backend} (h : s.Sound host) : ∃ es,
    List.Forall₂ (fun row e => rowToEvent (s.fetched row) = some e) s.exportRows es ∧
      s.exportSnapshot = .ok (fileText es, es.length) := by
  have hread : ∀ rows : List EventRow, (∀ row ∈ rows, (s.fetched row).Readable) → ∃ es,
      List.Forall₂ (fun row e => rowToEvent (s.fetched row) = some e) rows es := by
    intro rows hrows
    induction rows with
    | nil => exact ⟨[], .nil⟩
    | cons row rows ih =>
      obtain ⟨⟨e, he⟩, hrest⟩ := List.forall_mem_cons.mp hrows
      obtain ⟨es, hes⟩ := ih hrest
      exact ⟨e :: es, .cons he hes⟩
  obtain ⟨es, hes⟩ := hread s.exportRows (fun row hrow => h.readable row (mem_exportRows.mp hrow).1)
  refine ⟨es, hes, ?_⟩
  have hwrite : writeSnapshot (s.exportRows.map s.fetched) = .ok (fileText es, es.length) := by
    rw [writeSnapshot, mapM_eq_some.mpr (List.forall₂_map_left_iff.mpr hes), List.length_map,
      hes.length_eq]
    rfl
  cases s with
  | sqlite db =>
    obtain ⟨t, ht⟩ := Option.isSome_iff_exists.mp (Db.Ready.events h.opened)
    simp only [exportRows, rows, ht, Option.map_some, Option.getD_some] at hwrite
    simp only [exportSnapshot, ht]
    exact hwrite
  | postgres db =>
    have hid : (Backend.postgres db).fetched = id := rfl
    rw [hid, List.map_id] at hwrite
    have hfuel : (db.events.rows.filter (fun r => decide ("" < r.id))).length <
        db.events.rows.length + 1 := Nat.lt_succ_of_le (List.length_filter_le _ _)
    rw [exportSnapshot, exportBatches_eq db.events.nodup hfuel]
    exact hwrite

/-! ### Reading one event of either store -/

theorem stored_mem {s : Backend} {id : String} {row : EventRow} {a : Set AddressRow}
    (h : s.stored id = some (row, a)) : row ∈ s.rows ∧ row.id = id := by
  cases s with
  | sqlite db =>
    cases he : db.events with
    | none => simp [stored, Db.stored, he] at h
    | some t =>
      simp only [stored, Db.stored, he, Option.map_eq_some_iff, Prod.mk.injEq] at h
      obtain ⟨r, hr, rfl, -⟩ := h
      obtain ⟨hmem, hid⟩ := KeyedTable.find?_eq_some.mp hr
      exact ⟨by simpa [rows, he] using hmem, hid⟩
  | postgres db =>
    simp only [stored, Postgres.PgDb.stored, Option.map_eq_some_iff, Prod.mk.injEq] at h
    obtain ⟨r, hr, rfl, -⟩ := h
    exact KeyedTable.find?_eq_some.mp hr

theorem stored_of_mem {s : Backend} {row : EventRow} (h : row ∈ s.rows) :
    ∃ a, s.stored row.id = some (row, a) := by
  cases s with
  | sqlite db =>
    cases he : db.events with
    | none => simp [rows, he] at h
    | some t =>
      have hmem : row ∈ t.rows := by simpa [rows, he] using h
      have hfind : t.find? row.id = some row := KeyedTable.find?_eq_some.mpr ⟨hmem, rfl⟩
      refine ⟨{r | r ∈ db.indexedAddresses ∧ r.eventId = row.id}, ?_⟩
      simp only [stored, Db.stored, he, hfind, Option.map_some]
  | postgres db =>
    have hfind : db.events.find? row.id = some row := KeyedTable.find?_eq_some.mpr ⟨h, rfl⟩
    refine ⟨{r | r ∈ db.eventAddresses.rows ∧ r.eventId = row.id}, ?_⟩
    simp only [stored, Postgres.PgDb.stored, hfind, Option.map_some]

def readRow (s : Backend) : Option (EventRow × Set AddressRow) → Except StoreError (Option LensEvent)
  | none => .ok none
  | some (row, _) =>
    match rowToEvent (s.fetched row) with
    | some e => .ok (some e)
    | none => .error (.thrown "unreadable row")

theorem readRow_some {s : Backend} {found : Option (EventRow × Set AddressRow)} {e : LensEvent} :
    s.readRow found = .ok (some e) ↔
      ∃ row a, found = some (row, a) ∧ rowToEvent (s.fetched row) = some e := by
  cases found with
  | none => simp [readRow]
  | some r =>
    obtain ⟨row, a⟩ := r
    cases he : rowToEvent (s.fetched row) <;> simp [readRow, he]

theorem getEvent_eq {s : Backend} {id : String} (hopened : s.Opened host) (hbinds : s.Binds id) :
    s.getEvent host id = s.readRow (s.stored id) := by
  cases s with
  | sqlite db =>
    have hprep : prepared host.build db = .ok () := Db.Ready.prepared hopened
    obtain ⟨t, ht⟩ := Option.isSome_iff_exists.mp (Db.Ready.events hopened)
    simp only [getEvent, fetchEvent, hprep, stored, Db.stored, ht, bind, Except.bind]
    cases hf : t.find? id with
    | none => rfl
    | some row =>
      cases he : rowToEvent row.readBack with
      | none => simp only [Option.map_some, readRow, fetched, he]
      | some e =>
        simp only [Option.map_some, readRow, fetched, he]
        rfl
  | postgres db =>
    have hb : Postgres.textBinds id = true := hbinds
    simp only [getEvent, Postgres.getEvent, hb, Bool.true_eq_false, if_false, stored,
      Postgres.PgDb.stored]
    cases hf : db.events.find? id with
    | none => rfl
    | some row => cases he : rowToEvent row <;> simp only [Option.map_some, readRow, fetched, he]

theorem binds_of_getEvent {s : Backend} {id : String} {r : Option LensEvent}
    (h : s.getEvent host id = .ok r) : s.Binds id := by
  cases s with
  | sqlite db => trivial
  | postgres db =>
    by_contra hno
    have hb : Postgres.textBinds id = false := by simpa [Binds] using hno
    simp [getEvent, Postgres.getEvent, hb] at h

end Backend

/-! ### Reading back what was written -/

theorem jsonb_toJson (d : DecodedValue) : d.toJson.jsonb = d.jsonb.toJson := by
  have hafter : ¬ Json.KeyBefore "value" "type" := by decide +kernel
  simp [DecodedValue.toJson, DecodedValue.jsonb, Json.jsonb, Json.jsonbFields, object_typeValue,
    Keyset.arrange, hafter]

theorem jsonb_topicsToJson (topics : List DecodedValue) :
    (topicsToJson topics).jsonb = topicsToJson (topics.map DecodedValue.jsonb) := by
  have hitems : Json.jsonbItems (topics.map DecodedValue.toJson) =
      (topics.map DecodedValue.jsonb).map DecodedValue.toJson := by
    induction topics with
    | nil => rfl
    | cons d topics ih => simp [Json.jsonbItems, jsonb_toJson, ih]
  rw [topicsToJson, Json.jsonb, hitems]
  rfl

theorem parse_jsonbColumn (v : JsonValue) :
    parseJson (Postgres.jsonbColumn v) = some v.jsonb.normalise :=
  Json.parse_jsonbText Json.intFormat v

theorem rowToEvent_postgres (rt : Runtime) (e : LensEvent) :
    rowToEvent (Postgres.insertParams rt e) = some e.image.normalise := by
  have ht : (parseJson (Postgres.jsonbColumn (topicsToJson e.topics))).bind topicsOfJson =
      some ((e.topics.map DecodedValue.jsonb).map DecodedValue.normalise) := by
    have h := parse_topics (e.topics.map DecodedValue.jsonb)
    rw [parse_jsonbColumn, jsonb_topicsToJson]
    simpa only [parseJson, stringify, Json.parse_stringify, Option.bind_some] using h
  have hv : (parseJson (Postgres.jsonbColumn e.value.toJson)).bind DecodedValue.ofJson =
      some e.value.jsonb.normalise := by
    rw [parse_jsonbColumn, jsonb_toJson]
    exact ofJson_normalise_toJson e.value.jsonb
  have hx : (Postgres.insertParams rt e).topicsXdr = some e.topicsXdr := by
    simp [EventRow.topicsXdr, Postgres.insertParams, decompressXdrColumn, parse_strings]
  have htopics : (parseJson (Postgres.insertParams rt e).topicsJson).bind topicsOfJson = _ := ht
  have hvalue : (parseJson (Postgres.insertParams rt e).valueJson).bind DecodedValue.ofJson = _ := hv
  unfold rowToEvent
  rw [htopics, hvalue, hx]
  rfl

theorem image_normalise (e : LensEvent) : e.normalise.image = e.image := by
  have hd : ∀ d : DecodedValue, d.normalise.jsonb = d.jsonb := by
    intro d
    rw [DecodedValue.jsonb, DecodedValue.normalise, Json.jsonb_normalise]
    rfl
  simp [LensEvent.image, LensEvent.normalise, hd]

theorem image_image (e : LensEvent) : e.image.image = e.image := by
  have hd : ∀ d : DecodedValue, d.jsonb.jsonb = d.jsonb := by
    intro d
    rw [DecodedValue.jsonb, DecodedValue.jsonb, Json.jsonb_jsonb]
  simp [LensEvent.image, hd]

/-- An event whose row comes back through `node:sqlite`: the texts of its JSON columns are
whole whatever they spell. -/
def LensEvent.readBack (rt : Runtime) (e : LensEvent) : LensEvent :=
  { e with
    id := readText e.id
    contractId := readText e.contractId
    ledgerClosedAt := readText e.ledgerClosedAt
    txHash := readText e.txHash
    valueXdr := decompressXdrColumn (encodeXdrColumn rt e.valueXdr).readBack
    decodeError := e.decodeError.map readText
    indexedAt := readText e.indexedAt }

theorem decompress_readBack_encode (rt : Runtime) {text : String} (h : Whole text) :
    decompressXdrColumn (encodeXdrColumn rt text).readBack = text := by
  unfold encodeXdrColumn
  split
  · rfl
  · exact readText_of_whole h

theorem rowToEvent_readBack (rt : Runtime) (e : LensEvent) :
    rowToEvent (insertParams rt e).readBack = some (e.readBack rt).normalise := by
  have htopics : (parseJson (insertParams rt e).readBack.topicsJson).bind topicsOfJson =
      some (e.topics.map DecodedValue.normalise) := by
    simp only [EventRow.readBack, insertParams, readText_of_whole (whole_stringify _)]
    exact parse_topics e.topics
  have hvalue : (parseJson (insertParams rt e).readBack.valueJson).bind DecodedValue.ofJson =
      some e.value.normalise := by
    simp only [EventRow.readBack, insertParams, readText_of_whole (whole_stringify _)]
    exact parse_value e.value
  have hxdr : (insertParams rt e).readBack.topicsXdr = some e.topicsXdr := by
    simp only [EventRow.topicsXdr, EventRow.readBack, insertParams,
      decompress_readBack_encode rt (whole_stringify _)]
    exact parse_strings e.topicsXdr
  unfold rowToEvent
  rw [htopics, hvalue, hxdr]
  rfl

def LensEvent.columnTexts (e : LensEvent) : List String :=
  [e.id, e.contractId, e.ledgerClosedAt, e.txHash, e.valueXdr, e.indexedAt] ++ e.decodeError.toList

theorem readBack_of_whole {rt : Runtime} {e : LensEvent} (h : ∀ text ∈ e.columnTexts, Whole text) :
    e.readBack rt = e := by
  have herror : e.decodeError.map readText = e.decodeError := by
    cases hd : e.decodeError with
    | none => rfl
    | some text =>
      have hwhole : Whole text := h text (by simp [LensEvent.columnTexts, hd])
      rw [Option.map_some, readText_of_whole hwhole]
  simp only [LensEvent.columnTexts, List.cons_append, List.forall_mem_cons] at h
  obtain ⟨hid, hcontract, hclosed, hhash, hxdr, hindexed, -⟩ := h
  simp only [LensEvent.readBack, readText_of_whole hid, readText_of_whole hcontract,
    readText_of_whole hclosed, readText_of_whole hhash, decompress_readBack_encode rt hxdr,
    readText_of_whole hindexed, herror]

/-- No text of the event is cut on its way back. -/
def Backend.Keeps (host : Host) (e : LensEvent) : Backend → Prop
  | .sqlite _ => e.readBack host.rt = e
  | .postgres _ => True

theorem image_readBack_iff {rt : Runtime} {e : LensEvent} :
    (e.readBack rt).image = e.image ↔ e.readBack rt = e := by
  constructor
  · intro h
    have hfields := LensEvent.mk.inj h
    obtain ⟨hid, hcontract, -, -, hclosed, hhash, -, -, -, -, -, -, hxdr, herror, hindexed⟩ := hfields
    unfold LensEvent.readBack at hid hcontract hclosed hhash hxdr herror hindexed ⊢
    simp only at hid hcontract hclosed hhash hxdr herror hindexed
    rw [hid, hcontract, hclosed, hhash, hxdr, herror, hindexed]
  · intro h
    rw [h]

/-- A written event reads back deeply equal exactly when none of its texts is cut. -/
theorem Backend.rowToEvent_written (host : Host) (e : LensEvent) (s : Backend) :
    ∃ e', rowToEvent (s.fetched (s.written host e).1) = some e' ∧
      (e'.image = e.image ↔ s.Keeps host e) := by
  cases s with
  | sqlite db =>
    refine ⟨(e.readBack host.rt).normalise, rowToEvent_readBack host.rt e, ?_⟩
    rw [image_normalise]
    exact image_readBack_iff
  | postgres db =>
    refine ⟨e.image.normalise, rowToEvent_postgres host.rt e, ?_⟩
    simp only [image_normalise, image_image, Keeps]

/-! ### Into an empty store -/

namespace Backend

variable {host : Host}

theorem Fresh.stored {dst : Backend} (h : dst.Fresh host) (id : String) : dst.stored id = none := by
  cases hs : dst.stored id with
  | none => rfl
  | some r =>
    have hmem := (stored_mem hs).1
    rw [h.empty] at hmem
    simp at hmem

/-- Postgres takes what it can bind and store, SQLite all of it. -/
def Takes (host : Host) (e : LensEvent) : Backend → Prop
  | .sqlite _ => True
  | .postgres _ => Postgres.Admitted host.rt e ∧ Postgres.Storable host.server host.rt e

theorem Fresh.insert_ok_iff {dst : Backend} (h : dst.Fresh host) {es : List LensEvent}
    (hnodup : (es.map LensEvent.id).Nodup) :
    (∃ n s', dst.insertDecoded host es = (.ok n, s')) ↔ ∀ e ∈ es, dst.Takes host e := by
  cases dst with
  | sqlite db =>
    obtain ⟨n, db', hok, -⟩ := Db.Ready.insertDecoded h.opened host.rt es
    simp only [Takes, implies_true, iff_true]
    exact ⟨n, .sqlite db', by rw [insertDecoded, hok]; rfl⟩
  | postgres db =>
    have hempty : db.events.rows = [] := h.empty
    have hno : ∀ id, db.events.has id = false := by
      intro id
      simp [KeyedTable.has, hempty]
    have hiff : (∃ n s', (Backend.postgres db).insertDecoded host es = (.ok n, s')) ↔
        Postgres.Acceptable host.server host.rt es db := by
      rw [← Postgres.insertBatch_ok_iff]
      simp only [insertDecoded, ← Postgres.commit_writes, ← Postgres.batch_writes]
      constructor
      · intro hok
        obtain ⟨n, s', hok⟩ := hok
        cases hc : (Postgres.writes host.server host.rt).commit (fun _ => .ok ()) es db with
        | mk r db' =>
          rw [hc] at hok
          obtain ⟨rfl, -⟩ := Prod.mk.inj hok
          exact ⟨n, db', (FirstWrite.commit_ok.mp hc).2⟩
      · intro hok
        obtain ⟨n, db', hb⟩ := hok
        refine ⟨n, .postgres db', ?_⟩
        have hc : (Postgres.writes host.server host.rt).commit (fun _ => .ok ()) es db =
            (.ok n, db') := FirstWrite.commit_ok.mpr ⟨.inr rfl, hb⟩
        rw [hc]
        rfl
    rw [hiff]
    constructor
    · intro hacc e he
      obtain ⟨pre, post, rfl⟩ := List.append_of_mem he
      rw [List.map_append, List.map_cons, List.nodup_append] at hnodup
      refine ⟨hacc.1 e he, hacc.2 pre e post rfl (hno e.id) ?_⟩
      intro hmem
      exact hnodup.2.2 e.id hmem e.id (by simp) rfl
    · intro hall
      refine ⟨fun e he => (hall e he).1, ?_⟩
      intro pre e post hes _ _
      exact (hall e (by simp [hes])).2

structure Filled (host : Host) (es : List LensEvent) (dst s' : Backend) : Prop where
  opened : s'.Opened host
  fetched : s'.fetched = dst.fetched
  references : s'.References
  binds : ∀ id, s'.Binds id ↔ dst.Binds id
  stored : ∀ id, s'.stored id =
    (es.find? (fun e => decide (e.id = id))).map (fun e => dst.written host e)
  again : s'.insertDecoded host es = (.ok 0, s')

theorem Fresh.filled {dst s' : Backend} (h : dst.Fresh host) {es : List LensEvent}
    (hes : ∀ e ∈ es, e.type.admitted = true) {n : Nat}
    (hins : dst.insertDecoded host es = (.ok n, s')) :
    n = (es.map LensEvent.id).dedup.length ∧ Filled host es dst s' := by
  have hwins : FirstWriteWins host es dst := by
    cases dst with
    | sqlite db => exact firstWriteWins_sqlite h.references hes
    | postgres db => exact firstWriteWins_postgres host es db
  have hcount := hwins.counted n s' hins
  have hkept := hwins.kept n s' hins
  simp only [h.stored, Option.isNone_none, List.filter_true, Option.none_or] at hcount hkept
  obtain ⟨hopened, hfetched, hbinds⟩ : s'.Opened host ∧ s'.fetched = dst.fetched ∧
      ∀ id, s'.Binds id ↔ dst.Binds id := by
    cases dst with
    | sqlite db =>
      obtain ⟨m, db', hok, hready⟩ := Db.Ready.insertDecoded h.opened host.rt es
      rw [insertDecoded, hok] at hins
      obtain ⟨-, rfl⟩ := Prod.mk.inj hins
      exact ⟨hready, rfl, fun _ => Iff.rfl⟩
    | postgres db =>
      obtain ⟨-, rfl⟩ := Prod.mk.inj hins
      exact ⟨trivial, rfl, fun _ => Iff.rfl⟩
  exact ⟨hcount, hopened, hfetched, h.references.insertDecoded hins, hbinds, hkept,
    hwins.replayed n s' hins⟩

theorem nodup_of_counted {es : List LensEvent}
    (h : es.length = (es.map LensEvent.id).dedup.length) : (es.map LensEvent.id).Nodup := by
  have hlength : (es.map LensEvent.id).dedup.length = (es.map LensEvent.id).length := by
    rw [← h, List.length_map]
  rw [← (List.dedup_sublist (es.map LensEvent.id)).eq_of_length hlength]
  exact List.nodup_dedup _

/-! ### The round trip -/

def KeepsId : Backend → String → Prop
  | .sqlite _, id => Whole id
  | .postgres _, id => id ≠ ""

theorem keepsId_iff {s : Backend} {row : EventRow} :
    s.KeepsId row.id ↔ s.Exports row.id ∧ (s.fetched row).id = row.id := by
  cases s with
  | sqlite db =>
    simp only [KeepsId, Exports, fetched, readBack_id, true_and]
    exact readText_eq_iff.symm
  | postgres db => simp only [KeepsId, Exports, fetched, and_true]

theorem keepsId_fetched {s : Backend} {row : EventRow} (h : s.Exports row.id) :
    s.KeepsId (s.fetched row).id := by
  cases s with
  | sqlite db => exact whole_readText row.id
  | postgres db => exact h

@[simp] theorem fetched_type (s : Backend) (row : EventRow) : (s.fetched row).type = row.type := by
  cases s <;> rfl

/-- What an export must be for it to import: no line is cut, every id is written as it is
stored, and the importing store takes every event and gives it back. -/
structure Carries (host : Host) (src dst : Backend) : Prop where
  lines : ∀ row ∈ src.rows, ∀ e, rowToEvent (src.fetched row) = some e → OneLine e
  ids : ∀ row ∈ src.rows, src.KeepsId row.id
  taken : ∀ row ∈ src.rows, ∀ e, rowToEvent (src.fetched row) = some e → dst.Takes host e
  kept : ∀ row ∈ src.rows, ∀ e, rowToEvent (src.fetched row) = some e → dst.Keeps host e

structure Exported (src : Backend) (es : List LensEvent) : Prop where
  read : ∀ e ∈ es, ∃ row ∈ src.rows, rowToEvent (src.fetched row) = some e ∧ src.Exports row.id
  written : ∀ row ∈ src.rows, src.Exports row.id → ∃ e ∈ es, rowToEvent (src.fetched row) = some e
  nodup : (∀ row ∈ src.rows, src.KeepsId row.id) → (es.map LensEvent.id).Nodup
  admitted : ∀ e ∈ es, e.type.admitted = true

theorem exported_of_rows {src : Backend} (h : src.Sound host) {es : List LensEvent}
    (hes : List.Forall₂ (fun row e => rowToEvent (src.fetched row) = some e) src.exportRows es) :
    Exported src es := by
  have hids : es.map LensEvent.id = (src.exportRows.map src.fetched).map EventRow.id :=
    map_id_of_mapM (mapM_eq_some.mpr (List.forall₂_map_left_iff.mpr hes))
  obtain ⟨hwritten, hread⟩ := mem_of_forall₂ hes
  refine ⟨?_, ?_, ?_, ?_⟩
  · intro e he
    obtain ⟨row, hrow, hre⟩ := hread e he
    obtain ⟨hmem, hid⟩ := mem_exportRows.mp hrow
    exact ⟨row, hmem, hre, hid⟩
  · intro row hrow hid
    exact hwritten row (mem_exportRows.mpr ⟨hrow, hid⟩)
  · intro hkept
    have hsame : ∀ row ∈ src.exportRows, (EventRow.id ∘ src.fetched) row = row.id :=
      fun row hrow => (keepsId_iff.mp (hkept row (mem_exportRows.mp hrow).1)).2
    rw [hids, List.map_map, List.map_congr_left hsame]
    exact nodup_exportRows src
  · intro e he
    obtain ⟨row, hrow, hre⟩ := hread e he
    rw [rowToEvent_type hre, fetched_type]
    exact h.admitted row (mem_exportRows.mp hrow).1

theorem importSnapshot_fileText {src : Backend} {es : List LensEvent} (hexp : Exported src es)
    (hlines : ∀ e ∈ es, OneLine e) {s s' : Backend} (hrefs : s.References) {n : Nat} :
    s.importSnapshot host (fileText es) = (.ok n, s') ↔ s.insertDecoded host es = (.ok n, s') := by
  have hsplit : lines [] (fileText es) = es.map recordText := by
    have h := lines_fileText hlines []
    rwa [List.append_nil, show lines [] [] = [] from rfl, List.append_nil] at h
  have hread : (es.map recordText).map readLine = es.map (fun e => some (some e)) := by
    rw [List.map_map]
    refine List.map_congr_left (fun e he => ?_)
    obtain ⟨row, -, hrow, -⟩ := hexp.read e he
    rw [Function.comp, readLine_recordText, normalise_rowToEvent hrow]
  rw [importSnapshot, hsplit, importLines_ok hread hexp.admitted hrefs]
  simp

theorem importSnapshot_cut {es : List LensEvent} {e : LensEvent} (he : e ∈ es) (hcut : ¬ OneLine e)
    (s : Backend) : ∃ err, (s.importSnapshot host (fileText es)).1 = .error err := by
  have hfound : (es.find? (fun e => decide (¬ OneLine e))).isSome = true :=
    List.find?_isSome.mpr ⟨e, he, by simpa using hcut⟩
  obtain ⟨first, hfirst⟩ := Option.isSome_iff_exists.mp hfound
  obtain ⟨hbad, pre, post, rfl, hpre⟩ := List.find?_eq_some_iff_append.mp hfirst
  obtain ⟨line, hline, hnone⟩ := @lines_cut pre first post (fun x hx => by simpa using hpre x hx)
    (by simpa using hbad)
  exact importLines_error hline hnone [] 0 s

theorem binds_of_takes {dst : Backend} {e : LensEvent} (h : dst.Takes host e) : dst.Binds e.id := by
  cases dst with
  | sqlite db => trivial
  | postgres db =>
    have hb := h.1.1
    simp only [Postgres.insertBinds, Bool.and_eq_true] at hb
    simp [Binds, hb]

theorem Sound.finds {src : Backend} (h : src.Sound host) {row : EventRow} {e : LensEvent}
    (hrow : row ∈ src.rows) (he : rowToEvent (src.fetched row) = some e) :
    src.getEvent host row.id = .ok (some e) := by
  obtain ⟨a, ha⟩ := stored_of_mem hrow
  rw [getEvent_eq h.opened (h.binds row hrow)]
  exact readRow_some.mpr ⟨row, a, ha, he⟩

theorem Filled.finds {dst s' : Backend} {es : List LensEvent} (h : Filled host es dst s')
    (hnodup : (es.map LensEvent.id).Nodup) {e : LensEvent} (he : e ∈ es) (hbinds : dst.Binds e.id) :
    ∃ e', s'.getEvent host e.id = .ok (some e') ∧ (e'.image = e.image ↔ dst.Keeps host e) := by
  have hfound : (es.find? (fun x => decide (x.id = e.id))).isSome = true :=
    List.find?_isSome.mpr ⟨e, he, by simp⟩
  obtain ⟨x, hx⟩ := Option.isSome_iff_exists.mp hfound
  have hxe : x = e := List.inj_on_of_nodup_map hnodup (List.mem_of_find?_eq_some hx) he
    (by simpa using List.find?_some hx)
  have hstored := h.stored e.id
  rw [hx, hxe, Option.map_some] at hstored
  obtain ⟨e', hread, himage⟩ := rowToEvent_written host e dst
  refine ⟨e', ?_, himage⟩
  rw [getEvent_eq h.opened ((h.binds e.id).mpr hbinds), hstored]
  exact readRow_some.mpr ⟨_, _, rfl, by rw [h.fetched]; exact hread⟩

theorem Filled.mem {dst s' : Backend} {es : List LensEvent} (h : Filled host es dst s') {id : String}
    {e' : LensEvent} (hfound : s'.getEvent host id = .ok (some e')) : ∃ e ∈ es, e.id = id := by
  rw [getEvent_eq h.opened (binds_of_getEvent hfound), readRow_some, h.stored id] at hfound
  obtain ⟨row, a, hmap, -⟩ := hfound
  obtain ⟨x, hx, -⟩ := Option.map_eq_some_iff.mp hmap
  exact ⟨x, List.mem_of_find?_eq_some hx, by simpa using List.find?_some hx⟩

theorem SameEvents.keepsId {src dst s' : Backend} {es : List LensEvent} (hsrc : src.Sound host)
    (hexp : Exported src es) (hfilled : Filled host es dst s') (h : src.SameEvents host s') :
    ∀ row ∈ src.rows, src.KeepsId row.id := by
  intro row hrow
  obtain ⟨e, he⟩ := hsrc.readable row hrow
  obtain ⟨e', hfound, -⟩ := h.kept row.id e (hsrc.finds hrow he)
  obtain ⟨x, hx, hid⟩ := hfilled.mem hfound
  obtain ⟨row', -, hread, hexports⟩ := hexp.read x hx
  rw [← hid, rowToEvent_id hread]
  exact keepsId_fetched hexports

theorem sameEvents_iff {src dst s' : Backend} {es : List LensEvent} (hsrc : src.Sound host)
    (hexp : Exported src es) (hfilled : Filled host es dst s')
    (hids : ∀ row ∈ src.rows, src.KeepsId row.id) (hbinds : ∀ e ∈ es, dst.Binds e.id) :
    src.SameEvents host s' ↔ ∀ e ∈ es, dst.Keeps host e := by
  have hnodup := hexp.nodup hids
  have hstored : ∀ e ∈ es, ∃ row ∈ src.rows, rowToEvent (src.fetched row) = some e ∧
      row.id = e.id := by
    intro e he
    obtain ⟨row, hrow, hread, -⟩ := hexp.read e he
    exact ⟨row, hrow, hread,
      ((rowToEvent_id hread).trans (keepsId_iff.mp (hids row hrow)).2).symm⟩
  constructor
  · intro h e he
    obtain ⟨row, hrow, hread, hid⟩ := hstored e he
    obtain ⟨e', hfound, himage⟩ := h.kept row.id e (hsrc.finds hrow hread)
    obtain ⟨e'', hfound', hkeeps⟩ := hfilled.finds hnodup he (hbinds e he)
    rw [hid, hfound'] at hfound
    cases hfound
    exact hkeeps.mp himage
  · intro h
    constructor
    · intro id e hfound
      have hopen := hfound
      rw [getEvent_eq hsrc.opened (binds_of_getEvent hfound), readRow_some] at hopen
      obtain ⟨row, a, hsaved, hread⟩ := hopen
      obtain ⟨hrow, rfl⟩ := stored_mem hsaved
      obtain ⟨hexports, hid⟩ := keepsId_iff.mp (hids row hrow)
      obtain ⟨x, hx, hxread⟩ := hexp.written row hrow hexports
      rw [hread, Option.some.injEq] at hxread
      subst hxread
      obtain ⟨e', hfound', hkeeps⟩ := hfilled.finds hnodup hx (hbinds e hx)
      rw [rowToEvent_id hread, hid] at hfound'
      exact ⟨e', hfound', hkeeps.mpr (h e hx)⟩
    · intro id e' hfound
      obtain ⟨x, hx, rfl⟩ := hfilled.mem hfound
      obtain ⟨row, hrow, hread, hid⟩ := hstored x hx
      rw [← hid]
      exact ⟨x, hsrc.finds hrow hread⟩

/-- A snapshot round trips exactly when its lines carry it. -/
theorem snapshot_round_trips_iff (host : Host) (src dst : Backend) (hsrc : src.Sound host)
    (hdst : dst.Fresh host) : RoundTrips host src dst ↔ Carries host src dst := by
  obtain ⟨es, hrows, hexport⟩ := exportSnapshot_ok hsrc
  have hexp := exported_of_rows hsrc hrows
  have hbinds : (∀ e ∈ es, dst.Takes host e) → ∀ e ∈ es, dst.Binds e.id := by
    intro htakes e he
    exact binds_of_takes (htakes e he)
  constructor
  · intro h
    obtain ⟨file, n, dst', hfile, himport, hsame, hagain⟩ := h
    rw [hexport] at hfile
    obtain ⟨rfl, rfl⟩ := Prod.mk.inj (Except.ok.inj hfile)
    have hlines : ∀ e ∈ es, OneLine e := by
      intro e he
      by_contra hcut
      obtain ⟨err, herr⟩ := @importSnapshot_cut host es e he hcut dst
      rw [himport] at herr
      cases herr
    have hins := (importSnapshot_fileText hexp hlines hdst.references).mp himport
    obtain ⟨hcount, hfilled⟩ := hdst.filled hexp.admitted hins
    have htakes := (hdst.insert_ok_iff (nodup_of_counted hcount)).mp ⟨_, _, hins⟩
    have hids := hsame.keepsId hsrc hexp hfilled
    have hkeeps := (sameEvents_iff hsrc hexp hfilled hids (hbinds htakes)).mp hsame
    have hall : ∀ row ∈ src.rows, ∀ e, rowToEvent (src.fetched row) = some e → e ∈ es := by
      intro row hrow e he
      obtain ⟨e', he', hrow'⟩ := hexp.written row hrow (keepsId_iff.mp (hids row hrow)).1
      rw [he, Option.some.injEq] at hrow'
      exact hrow' ▸ he'
    exact ⟨fun row hrow e he => hlines e (hall row hrow e he), hids,
      fun row hrow e he => htakes e (hall row hrow e he),
      fun row hrow e he => hkeeps e (hall row hrow e he)⟩
  · intro h
    have hevents {P : LensEvent → Prop}
        (hp : ∀ row ∈ src.rows, ∀ e, rowToEvent (src.fetched row) = some e → P e) :
        ∀ e ∈ es, P e := by
      intro e he
      obtain ⟨row, hrow, hre, -⟩ := hexp.read e he
      exact hp row hrow e hre
    have hlines := hevents h.lines
    have htakes := hevents h.taken
    have hnodup := hexp.nodup h.ids
    obtain ⟨n, dst', hins⟩ := (hdst.insert_ok_iff hnodup).mpr htakes
    obtain ⟨hcount, hfilled⟩ := hdst.filled hexp.admitted hins
    rw [hnodup.dedup, List.length_map] at hcount
    subst hcount
    refine ⟨fileText es, es.length, dst', hexport,
      (importSnapshot_fileText hexp hlines hdst.references).mpr hins,
      (sameEvents_iff hsrc hexp hfilled h.ids (hbinds htakes)).mpr (hevents h.kept),
      (importSnapshot_fileText hexp hlines hfilled.references).mpr hfilled.again⟩

theorem Filled.sound {dst s' : Backend} {es : List LensEvent} (h : Filled host es dst s')
    (hes : ∀ e ∈ es, e.type.admitted = true) (hbinds : ∀ e ∈ es, dst.Binds e.id) :
    s'.Sound host := by
  have hrows : ∀ row ∈ s'.rows, ∃ e ∈ es, e.id = row.id ∧ row = (dst.written host e).1 := by
    intro row hrow
    obtain ⟨a, ha⟩ := stored_of_mem hrow
    rw [h.stored] at ha
    obtain ⟨x, hx, hwritten⟩ := Option.map_eq_some_iff.mp ha
    exact ⟨x, List.mem_of_find?_eq_some hx, by simpa using List.find?_some hx, by rw [hwritten]⟩
  refine ⟨h.opened, ?_, ?_, ?_⟩
  · intro row hrow
    obtain ⟨e, he, -, rfl⟩ := hrows row hrow
    cases dst <;> exact hes e he
  · intro row hrow
    obtain ⟨e, he, -, rfl⟩ := hrows row hrow
    obtain ⟨e', hread, -⟩ := rowToEvent_written host e dst
    rw [h.fetched]
    exact ⟨e', hread⟩
  · intro row hrow
    obtain ⟨e, he, hid, -⟩ := hrows row hrow
    rw [← hid, h.binds]
    exact hbinds e he

/-! ### A topic that holds U+2028 -/

def separatorEvent : LensEvent where
  id := "0000000004294967296-0000000000"
  contractId := "CA"
  type := .contract
  ledger := 1
  ledgerClosedAt := "1970-01-01T00:00:00Z"
  txHash := "00"
  transactionIndex := 0
  operationIndex := 0
  inSuccessfulContractCall := true
  topics := [⟨"string", .str "\u2028"⟩]
  topicsXdr := ["AAAADgAAAAPigKgA"]
  value := ⟨"void", .null⟩
  valueXdr := "AAAAAQ=="
  decodeError := none
  indexedAt := "1970-01-01T00:00:00.000Z"

def separatorStore : Backend :=
  .sqlite (SorobanLens.insertDecoded smallHost.rt smallHost.build [separatorEvent] openedDb).2

theorem fresh_openedDb : Fresh smallHost (.sqlite openedDb) where
  opened := ready_openedDb
  empty := by
    have hids : openedDb.storedIds = [] := by decide +kernel
    cases he : openedDb.events with
    | none => simp [rows, he]
    | some t => simpa [rows, he, Db.storedIds] using hids
  references := references_openedDb

theorem filled_separatorStore :
    Filled smallHost [separatorEvent] (.sqlite openedDb) separatorStore := by
  obtain ⟨n, db, hok, -⟩ := ready_openedDb.insertDecoded smallHost.rt [separatorEvent]
  have hbuild : SorobanLens.insertDecoded smallHost.rt smallHost.build [separatorEvent] openedDb =
      (.ok n, db) := hok
  have hins : (Backend.sqlite openedDb).insertDecoded smallHost [separatorEvent] =
      (.ok n, separatorStore) := by
    rw [insertDecoded, separatorStore, hbuild]
    rfl
  exact (fresh_openedDb.filled (by simp [separatorEvent, EventType.admitted]) hins).2

theorem sound_separatorStore : separatorStore.Sound smallHost :=
  filled_separatorStore.sound (by simp [separatorEvent, EventType.admitted])
    (fun _ _ => trivial)

theorem snapshot_round_trips_iff_separator :
    RoundTrips smallHost separatorStore (.sqlite openedDb) ↔
      Carries smallHost separatorStore (.sqlite openedDb) :=
  snapshot_round_trips_iff smallHost separatorStore (.sqlite openedDb) sound_separatorStore
    fresh_openedDb

theorem snapshot_cut_at_separator :
    ¬ RoundTrips smallHost separatorStore (.sqlite openedDb) := by
  intro h
  obtain ⟨file, n, dst', hfile, himport, -, -⟩ := h
  obtain ⟨es, hrows, hexport⟩ := exportSnapshot_ok sound_separatorStore
  rw [hexport] at hfile
  obtain ⟨rfl, rfl⟩ := Prod.mk.inj (Except.ok.inj hfile)
  have hstored := filled_separatorStore.stored separatorEvent.id
  obtain ⟨hmem, -⟩ := stored_mem hstored
  obtain ⟨e, he, hread⟩ := (exported_of_rows sound_separatorStore hrows).written _ hmem trivial
  have hwhole : separatorEvent.readBack smallHost.rt = separatorEvent :=
    readBack_of_whole (by decide +kernel)
  have hback := rowToEvent_readBack smallHost.rt separatorEvent
  rw [hwhole] at hback
  have hevent : separatorEvent.normalise = e := Option.some.inj (hback.symm.trans hread)
  have hcut : ¬ OneLine separatorEvent.normalise := by decide +kernel
  obtain ⟨err, herr⟩ := @importSnapshot_cut smallHost es e he (hevent ▸ hcut) (.sqlite openedDb)
  rw [himport] at herr
  cases herr

end Backend

end SorobanLens
