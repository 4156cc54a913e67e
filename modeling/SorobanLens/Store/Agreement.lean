import SorobanLens.Store.SearchIndex
import SorobanLens.Store.Refresh
import SorobanLens.Store.PruneSize
import SorobanLens.Store.CountCache
import SorobanLens.Store.PostgresInsert
import SorobanLens.Store.SnapshotRoundTrip
import SorobanLens.Store.Paging
import SorobanLens.Store.Growth

/-!
A SQLite store and a Postgres store taken through the same operations: row for row
they keep the same events, so a query that both can run finds the same ids.
-/

set_option autoImplicit false

namespace SorobanLens

/-! ### The two rows of an event -/

/-- Two records of one event, decoded when two clocks read different times. -/
structure LensEvent.Twin (rt : Runtime) (e e' : LensEvent) : Prop where
  rest : e' = { e with indexedAt := e'.indexedAt }
  dated : (rt.dateGetTime e'.indexedAt).isSome = (rt.dateGetTime e.indexedAt).isSome

/-- The rows SQLite and Postgres keep of one event. -/
structure EventRow.Twin (rt : Runtime) (row row' : EventRow) : Prop where
  rest : row' =
    { row with
      topicsJson := row'.topicsJson
      topicsXdrJson := row'.topicsXdrJson
      valueJson := row'.valueJson
      valueXdr := row'.valueXdr
      indexedAt := row'.indexedAt }
  topics : ∃ topics, row.topicsJson = stringify (topicsToJson topics) ∧
    row'.topicsJson = Postgres.jsonbColumn (topicsToJson topics)
  value : ∃ value : DecodedValue, row.valueJson = stringify value.toJson ∧
    row'.valueJson = Postgres.jsonbColumn value.toJson
  topicsXdr : ∃ xdr, row.topicsXdr = some xdr ∧ row'.topicsXdr = some xdr
  valueXdr : decompressXdrColumn row'.valueXdr = decompressXdrColumn row.valueXdr
  dated : (rt.dateGetTime row'.indexedAt).isSome = (rt.dateGetTime row.indexedAt).isSome

section Twin

variable {rt : Runtime} {row row' : EventRow} {e e' : LensEvent}

theorem EventRow.Twin.id (h : row.Twin rt row') : row'.id = row.id := by rw [h.rest]

theorem EventRow.Twin.ledger (h : row.Twin rt row') : row'.ledger = row.ledger := by rw [h.rest]

theorem EventRow.Twin.decodeError (h : row.Twin rt row') : row'.decodeError = row.decodeError := by
  rw [h.rest]

theorem EventRow.Twin.readable (h : row.Twin rt row') : row.Readable := by
  obtain ⟨topics, htopics, -⟩ := h.topics
  obtain ⟨value, hvalue, -⟩ := h.value
  obtain ⟨xdr, hxdr, -⟩ := h.topicsXdr
  have hreadTopics := parse_topics topics
  have hreadValue := parse_value value
  rw [← htopics] at hreadTopics
  rw [← hvalue] at hreadValue
  exact readable_of_columns hreadTopics hxdr hreadValue

theorem EventRow.Twin.readable_server (h : row.Twin rt row') : row'.Readable := by
  obtain ⟨topics, -, htopics⟩ := h.topics
  obtain ⟨value, -, hvalue⟩ := h.value
  obtain ⟨xdr, -, hxdr⟩ := h.topicsXdr
  have hreadTopics : (parseJson row'.topicsJson).bind topicsOfJson =
      some ((topics.map DecodedValue.jsonb).map DecodedValue.normalise) := by
    have hparse := parse_topics (topics.map DecodedValue.jsonb)
    rw [htopics, parse_jsonbColumn, jsonb_topicsToJson]
    simpa only [parseJson, stringify, Json.parse_stringify, Option.bind_some] using hparse
  have hreadValue : (parseJson row'.valueJson).bind DecodedValue.ofJson =
      some value.jsonb.normalise := by
    rw [hvalue, parse_jsonbColumn, jsonb_toJson]
    exact ofJson_normalise_toJson value.jsonb
  exact readable_of_columns hreadTopics hxdr hreadValue

theorem twin_insertParams (h : e.Twin rt e') :
    (insertParams rt e).Twin rt (Postgres.insertParams rt e') := by
  obtain ⟨hrest, hdated⟩ := h
  refine ⟨?_, ⟨e.topics, rfl, ?_⟩, ⟨e.value, rfl, ?_⟩, ⟨e.topicsXdr, topicsXdr_insertParams rt e, ?_⟩,
    ?_, hdated⟩
  all_goals rw [hrest]
  · rfl
  · rfl
  · rfl
  · simp [EventRow.topicsXdr, Postgres.insertParams, decompressXdrColumn, parse_strings]
  · rw [valueXdr_insertParams]
    rfl

theorem EventRow.Twin.redecoded (h : row.Twin rt row') :
    (row'.redecoded rt) = { row.redecoded rt with indexedAt := (row'.redecoded rt).indexedAt } := by
  obtain ⟨xdr, hxdr, hxdr'⟩ := h.topicsXdr
  have hvalue := h.valueXdr
  unfold EventRow.redecoded
  rw [hxdr, hxdr', hvalue]
  rw [h.rest]
  rfl

theorem EventRow.Twin.decodable (h : row.Twin rt row') : row'.Decodable rt ↔ row.Decodable rt := by
  obtain ⟨xdr, hxdr, hxdr'⟩ := h.topicsXdr
  unfold EventRow.Decodable
  rw [hxdr, hxdr', h.dated]

theorem EventRow.Twin.setDerived (h : row.Twin rt row')
    (he : e' = { e with indexedAt := e'.indexedAt }) :
    (row.setDerived (derivedColumns rt e)).Twin rt (row'.setDerived (Postgres.derivedColumns e')) := by
  refine ⟨?_, ⟨e.topics, rfl, ?_⟩, ⟨e.value, rfl, ?_⟩,
    ⟨e.topicsXdr, topicsXdr_setDerived rt row e, ?_⟩, ?_, h.dated⟩
  all_goals rw [he]
  · rw [h.rest]
    rfl
  · rfl
  · rfl
  · simp [EventRow.topicsXdr, EventRow.setDerived, Postgres.derivedColumns, decompressXdrColumn,
      parse_strings]
  · rw [valueXdr_setDerived]
    rfl

theorem addressRows_twin (sdk : Sdk) (id : String) (he : e' = { e with indexedAt := e'.indexedAt }) :
    addressRows sdk id e' = addressRows sdk id e := by
  rw [he]
  rfl

end Twin

/-! ### The two tables -/

section Related

variable {α β : Type} {R : α → β → Prop} {xs : List α} {ys : List β}

theorem related_of_mem (h : List.Forall₂ R xs ys) {x : α} (hx : x ∈ xs) : ∃ y ∈ ys, R x y := by
  induction h with
  | nil => cases hx
  | @cons a b as bs hab _ ih =>
    rcases List.mem_cons.mp hx with heq | hx
    · exact ⟨b, List.mem_cons_self, heq ▸ hab⟩
    · obtain ⟨y, hy, hr⟩ := ih hx
      exact ⟨y, List.mem_cons_of_mem b hy, hr⟩

theorem forall₂_filter {p : α → Bool} {q : β → Bool} (h : List.Forall₂ R xs ys)
    (hpq : ∀ x ∈ xs, ∀ y ∈ ys, R x y → q y = p x) :
    List.Forall₂ R (xs.filter p) (ys.filter q) := by
  induction h with
  | nil => exact .nil
  | @cons x y xs ys hxy _ ih =>
    have htail := ih (fun a ha b hb =>
      hpq a (List.mem_cons_of_mem x ha) b (List.mem_cons_of_mem y hb))
    rw [List.filter_cons, List.filter_cons, hpq x List.mem_cons_self y List.mem_cons_self hxy]
    split
    · exact .cons hxy htail
    · exact htail

end Related

section Tables

variable {rt : Runtime} {rows rows' : List EventRow}

theorem ids_of_twins (h : List.Forall₂ (EventRow.Twin rt) rows rows') :
    rows'.map EventRow.id = rows.map EventRow.id := by
  induction h with
  | nil => rfl
  | cons hrow _ ih => rw [List.map_cons, List.map_cons, hrow.id, ih]

variable {t t' : EventsTable} {row row' : EventRow}

theorem has_of_twins (h : List.Forall₂ (EventRow.Twin rt) t.rows t'.rows) (k : String) :
    t'.has k = t.has k := by
  have hids := ids_of_twins h
  rw [Bool.eq_iff_iff, KeyedTable.has_iff, KeyedTable.has_iff]
  simp only [← List.mem_map, hids]

theorem twins_insert (h : List.Forall₂ (EventRow.Twin rt) t.rows t'.rows) (hrow : row.Twin rt row') :
    List.Forall₂ (EventRow.Twin rt) (t.insertOrIgnore row).rows (t'.insertOrIgnore row').rows := by
  have hhas : t'.has row'.id = t.has row.id := by rw [hrow.id, has_of_twins h]
  cases hk : t.has row.id with
  | true => rwa [KeyedTable.insertOrIgnore_of_has hk, KeyedTable.insertOrIgnore_of_has (hhas.trans hk)]
  | false =>
    rw [KeyedTable.rows_insertOrIgnore_of_not_has hk,
      KeyedTable.rows_insertOrIgnore_of_not_has (hhas.trans hk)]
    exact List.rel_append h (.cons hrow .nil)

theorem twins_update (h : List.Forall₂ (EventRow.Twin rt) t.rows t'.rows) (id : String)
    {e e' : LensEvent} (he : e' = { e with indexedAt := e'.indexedAt }) :
    List.Forall₂ (EventRow.Twin rt)
      (t.updateKey id (fun r => r.setDerived (derivedColumns rt e)) (fun _ => rfl)).rows
      (t'.updateKey id (fun r => r.setDerived (Postgres.derivedColumns e')) (fun _ => rfl)).rows := by
  refine List.rel_map ?_ h
  intro row row' hrow
  simp only [hrow.id]
  split
  · exact hrow.setDerived he
  · exact hrow

end Tables

/-! ### The two stores -/

/-- The stores keep one set of events, and the SQLite file searches what it stores. -/
structure Agree (rt : Runtime) (db : Db) (pg : Postgres.PgDb) : Prop where
  events : ∃ t, db.events = some t ∧ List.Forall₂ (EventRow.Twin rt) t.rows pg.events.rows
  addresses : db.eventAddresses = some pg.eventAddresses
  streamState : db.streamState.isSome = true
  searchable : db.eventsFts.isSome = true
  kept : db.SearchKept
  binds : ∀ id, pg.events.has id = true → Postgres.textBinds id = true

section Agree

variable {server : Postgres.PgServer} {rt : Runtime} {db db' : Db} {pg pg' : Postgres.PgDb}

theorem Agree.ready (h : Agree rt db pg) : db.Ready ⟨true⟩ := by
  obtain ⟨t, ht, -⟩ := h.events
  exact ⟨by simp [ht], by simp [h.addresses], h.streamState, fun _ => ⟨rfl, h.searchable⟩⟩

/-! ### Inserting -/

theorem textBinds_of_admitted {e : LensEvent} (h : Postgres.Admitted rt e) :
    Postgres.textBinds e.id = true := by
  have hbinds := h.1
  simp only [Postgres.insertBinds, Bool.and_eq_true] at hbinds
  tauto

theorem Agree.insertOne (h : Agree rt db pg) {e e' : LensEvent} (he : e.Twin rt e') {n : Nat}
    (hok : Postgres.insertOne server rt e' pg = .ok (n, pg')) :
    ∃ db', SorobanLens.insertOne rt ⟨true⟩ e db = .ok (n, db') ∧ Agree rt db' pg' := by
  obtain ⟨t, ht, htwins⟩ := h.events
  have hid : e'.id = e.id := by rw [he.rest]
  have htype : e'.type = e.type := by rw [he.rest]
  have hadmitted : e'.type.admitted = true := (Postgres.insertOne_ok_iff.mp ⟨n, pg', hok⟩).1.2
  have hspec := Postgres.insertOne_spec hok
  have hhas : pg.events.has e'.id = t.has e.id := by rw [hid, has_of_twins htwins]
  obtain ⟨m, db', hone, hready⟩ := h.ready.insertOne rt e
  obtain ⟨u, hu, ⟨rfl, rfl, hskip⟩ | ⟨rfl, -, hnew, hins⟩⟩ := insertOne_ok hone
  · rw [ht] at hu
    cases hu
    have hstored : t.has e.id = true := by
      rcases hskip with hno | hstored
      · rw [← htype, hadmitted] at hno
        cases hno
      · exact hstored
    obtain ⟨rfl, rfl⟩ := hspec.known (hhas.trans hstored)
    exact ⟨db', hone, h⟩
  · rw [ht] at hu
    cases hu
    obtain ⟨rfl, hevents, haddresses⟩ := hspec.fresh (hhas.trans hnew)
    refine ⟨db', hone, ⟨_, hins.events, ?_⟩, ?_, hready.streamState, ?_,
      searchKept_insertOne h.kept hone, ?_⟩
    · rw [hevents]
      exact twins_insert htwins (twin_insertParams he)
    · obtain ⟨a, ha, hafter⟩ := hins.addresses
      rw [h.addresses] at ha
      cases ha
      rw [hafter, haddresses, hid, addressRows_twin rt.sdk e.id he.rest]
    · rw [hins.fts.isSome]
      exact h.searchable
    · intro id hstored
      rcases (hspec.has_iff id).mp hstored with hstored | rfl
      · exact h.binds id hstored
      · exact textBinds_of_admitted (Postgres.insertOne_ok_iff.mp ⟨_, pg', hok⟩).1

theorem Agree.insertBatch (h : Agree rt db pg) {es es' : List LensEvent}
    (hes : List.Forall₂ (LensEvent.Twin rt) es es') {n : Nat}
    (hok : Postgres.insertBatch server rt es' pg = .ok (n, pg')) :
    ∃ db', SorobanLens.insertBatch rt ⟨true⟩ es db = .ok (n, db') ∧ Agree rt db' pg' := by
  induction hes generalizing db pg n with
  | nil =>
    cases hok
    exact ⟨db, rfl, h⟩
  | @cons e e' es es' he _ ih =>
    obtain ⟨⟨m, mid'⟩, hone, hok⟩ := bind_eq_ok.mp hok
    obtain ⟨⟨k, fin'⟩, hrest, hok⟩ := bind_eq_ok.mp hok
    cases hok
    obtain ⟨mid, hone', hmid⟩ := h.insertOne he hone
    obtain ⟨fin, hrest', hfin⟩ := ih hmid hrest
    refine ⟨fin, ?_, hfin⟩
    simp only [SorobanLens.insertBatch, hone', hrest', bind, Except.bind, pure, Except.pure]

theorem insertBatch_known {t : EventsTable} (hready : db.Ready ⟨true⟩) (ht : db.events = some t)
    {es : List LensEvent} (hes : ∀ e ∈ es, e.type.admitted = true → t.has e.id = true) :
    SorobanLens.insertBatch rt ⟨true⟩ es db = .ok (0, db) := by
  induction es with
  | nil => rfl
  | cons e es ih =>
    obtain ⟨m, db', hone, -⟩ := hready.insertOne rt e
    obtain ⟨u, hu, ⟨rfl, rfl, -⟩ | ⟨-, htype, hnew, -⟩⟩ := insertOne_ok hone
    · have hrest := ih (fun x hx => hes x (List.mem_cons_of_mem e hx))
      simp only [SorobanLens.insertBatch, hone, hrest, bind, Except.bind, pure, Except.pure]
    · rw [ht] at hu
      cases hu
      rw [hes e List.mem_cons_self htype] at hnew
      cases hnew

/-- The batch does the same to both stores: the server takes it whole, or there is nothing
new in it. -/
def SuitsInsert (server : Postgres.PgServer) (rt : Runtime) (es : List LensEvent)
    (pg : Postgres.PgDb) : Prop :=
  Postgres.Acceptable server rt es pg ∨
    ∀ e ∈ es, e.type.admitted = true → pg.events.has e.id = true

theorem Agree.insertDecoded (h : Agree rt db pg) {es es' : List LensEvent}
    (hes : List.Forall₂ (LensEvent.Twin rt) es es') (hsuits : SuitsInsert server rt es' pg) :
    Agree rt (SorobanLens.insertDecoded rt ⟨true⟩ es db).2
      (Postgres.insertDecoded server rt es' pg).2 := by
  have hnil : es = [] ↔ es' = [] := by
    rw [← List.length_eq_zero_iff, ← List.length_eq_zero_iff, hes.length_eq]
  obtain ⟨t, ht, htwins⟩ := h.events
  unfold SorobanLens.insertDecoded Postgres.insertDecoded
  by_cases hempty : es = []
  · rw [if_pos hempty, if_pos (hnil.mp hempty)]
    exact h
  · rw [if_neg hempty, if_neg (fun he => hempty (hnil.mpr he))]
    simp only [h.ready.prepared]
    cases hbatch : Postgres.insertBatch server rt es' pg with
    | ok step =>
      obtain ⟨n, pg'⟩ := step
      obtain ⟨db', hbatch', hafter⟩ := h.insertBatch hes hbatch
      simp only [hbatch', transaction, Postgres.tx]
      exact hafter
    | error e =>
      have hknown : ∀ e ∈ es, e.type.admitted = true → t.has e.id = true := by
        rcases hsuits with hacceptable | hknown
        · obtain ⟨n, pg', hok⟩ := Postgres.insertBatch_ok_iff.mpr hacceptable
          rw [hbatch] at hok
          cases hok
        · intro e he htype
          obtain ⟨e', he', htwin⟩ := related_of_mem hes he
          have hstored := hknown e' he' (by rwa [htwin.rest])
          rw [has_of_twins htwins, htwin.rest] at hstored
          exact hstored
      simp only [insertBatch_known h.ready ht hknown, transaction, Postgres.tx]
      exact h

theorem twins_decodeBatch {now now' : Nat → String}
    (hnow : ∀ i, (rt.dateGetTime (now i)).isSome = true)
    (hnow' : ∀ i, (rt.dateGetTime (now' i)).isSome = true) (raws : List RawEvent) :
    List.Forall₂ (LensEvent.Twin rt) (Postgres.decodeBatch rt now raws)
      (Postgres.decodeBatch rt now' raws) := by
  refine List.forall₂_iff_get.mpr ⟨by simp [Postgres.decodeBatch], ?_⟩
  intro i hi hi'
  simp only [Postgres.decodeBatch, List.get_eq_getElem, List.getElem_mapIdx]
  exact ⟨rfl, (hnow' i).trans (hnow i).symm⟩

/-! ### Pruning -/

def SuitsPrune (ledger : JsNumber) (pg : Postgres.PgDb) : Prop :=
  Postgres.integerParam ledger = true ∨ pg.events.rows.filter (below ledger) = []

theorem below_twin {row row' : EventRow} (h : row.Twin rt row') (ledger : JsNumber) :
    below ledger row' = below ledger row := by
  unfold below
  rw [h.ledger]

theorem deleteEvents_nothing {p : EventRow → Bool} (hnone : pg.events.rows.filter p = []) :
    (pg.deleteEvents p).events = pg.events ∧ (pg.deleteEvents p).eventAddresses = pg.eventAddresses := by
  constructor
  · refine KeyedTable.deleteWhere_eq_self ?_
    intro row hrow
    simpa using List.filter_eq_nil_iff.mp hnone row hrow
  · refine KeyedTable.deleteWhere_eq_self ?_
    intro r _
    simp [hnone]

theorem Agree.pruneBefore (h : Agree rt db pg) {ledger : JsNumber} (hsuits : SuitsPrune ledger pg) :
    Agree rt (SorobanLens.pruneBefore ⟨true⟩ ledger db).2 (Postgres.pruneBefore ledger pg).2 := by
  obtain ⟨t, ht, htwins⟩ := h.events
  have hselected : List.Forall₂ (EventRow.Twin rt) (t.rows.filter (below ledger))
      (pg.events.rows.filter (below ledger)) :=
    forall₂_filter htwins (fun row _ row' _ hrow => below_twin hrow ledger)
  by_cases hnone : pg.events.rows.filter (below ledger) = []
  · have hnone' : t.rows.filter (below ledger) = [] := by
      rw [hnone] at hselected
      exact List.forall₂_nil_right_iff.mp hselected
    have hsqlite : (SorobanLens.pruneBefore ⟨true⟩ ledger db).2 = db := by
      simp [SorobanLens.pruneBefore, ht, hnone']
    obtain ⟨hevents, haddresses⟩ := deleteEvents_nothing hnone
    rw [hsqlite]
    unfold Postgres.pruneBefore
    split
    · exact h
    · refine ⟨⟨t, ht, ?_⟩, ?_, h.streamState, h.searchable, h.kept, ?_⟩
      · rw [hevents]
        exact htwins
      · rw [haddresses]
        exact h.addresses
      · rw [hevents]
        exact h.binds
  · have hparam : Postgres.integerParam ledger = true := hsuits.resolve_right hnone
    have hsome : t.rows.filter (below ledger) ≠ [] := by
      intro hnil
      rw [hnil] at hselected
      exact hnone (List.forall₂_nil_left_iff.mp hselected)
    obtain ⟨u, hwrite⟩ := h.ready.prepareWrite .ftsDelete
    obtain ⟨db', hdel⟩ := deleteEvents_total hwrite (below ledger)
    have hsqlite : (SorobanLens.pruneBefore ⟨true⟩ ledger db).2 = db' := by
      simp [SorobanLens.pruneBefore, ht, hsome, hdel, Except.map, transaction]
    rw [hsqlite]
    simp only [Postgres.pruneBefore, hparam, Bool.true_eq_false, if_false]
    have hkept := searchKept_deleteEvents h.kept hdel
    obtain ⟨u, hu, hafter⟩ := deleteEvents_ok hdel
    rw [ht] at hu
    cases hu
    refine ⟨⟨_, hafter.events, ?_⟩, ?_, ?_, ?_, hkept, ?_⟩
    · exact forall₂_filter htwins (fun row _ row' _ hrow => by rw [below_twin hrow])
    · rw [hafter.addresses, h.addresses]
      simp only [Option.map_some, Postgres.PgDb.deleteEvents, ids_of_twins hselected]
    · rw [hafter.frame.streamState]
      exact h.streamState
    · rw [hafter.fts.isSome]
      exact h.searchable
    · intro id hstored
      obtain ⟨row, hrow, hid⟩ := KeyedTable.has_iff.mp hstored
      exact h.binds id (KeyedTable.has_iff.mpr ⟨row, List.mem_of_mem_filter hrow, hid⟩)

/-! ### Re-decoding -/

def Rewritable (server : Postgres.PgServer) (rt : Runtime) (row : EventRow) : Prop :=
  Postgres.derivedBinds (row.redecoded rt) = true ∧
    server.fitsEvent (row.setDerived (Postgres.derivedColumns (row.redecoded rt))) = true ∧
    ∀ r ∈ addressRows rt.sdk row.id (row.redecoded rt),
      Postgres.addressBinds r = true ∧ server.fitsAddress r = true

def SuitsRewrite (server : Postgres.PgServer) (rt : Runtime) (rows : List EventRow) : Prop :=
  (∀ row ∈ rows, row.Decodable rt) → ∀ row ∈ rows, Rewritable server rt row

theorem rewrite_ok {row : EventRow} (hrow : row ∈ pg.events.rows) (hdecodable : row.Decodable rt)
    (hrewritable : Rewritable server rt row) :
    ∃ pg', Postgres.rewrite server rt row pg = .ok pg' ∧
      pg'.events = pg.events.updateKey row.id
        (fun r => r.setDerived (Postgres.derivedColumns (row.redecoded rt))) (fun _ => rfl) ∧
      pg'.eventAddresses = (pg.eventAddresses.deleteWhere (fun r => r.eventId = row.id)).insertAll
        (addressRows rt.sdk row.id (row.redecoded rt)) := by
  obtain ⟨hbinds, hfits, haddresses⟩ := hrewritable
  have hrec := recompute_eq_some.mpr ⟨hdecodable, rfl⟩
  have hfind : pg.events.find? row.id = some row := KeyedTable.find?_eq_some.mpr ⟨hrow, rfl⟩
  have hupdate : Postgres.updateRow server row.id (row.redecoded rt) pg =
      .ok (pg.setDerived row.id (Postgres.derivedColumns (row.redecoded rt))) := by
    simp only [Postgres.updateRow, hbinds, hfind, hfits, Bool.true_eq_false, if_false]
  have hstored : ∀ r ∈ addressRows rt.sdk row.id (row.redecoded rt),
      ((pg.setDerived row.id (Postgres.derivedColumns (row.redecoded rt))).dropAddresses
        row.id).events.has r.eventId = true := by
    intro r hr
    have hthere : (pg.events.updateKey row.id (fun r =>
        r.setDerived (Postgres.derivedColumns (row.redecoded rt))) (fun _ => rfl)).has row.id = true :=
      KeyedTable.has_updateKey.mpr (KeyedTable.has_of_mem hrow)
    rw [mem_addressRows_eventId hr]
    exact hthere
  obtain ⟨pg', hrows⟩ := (Postgres.insertAddressRows_ok hstored).mpr
    (fun r hr => ⟨(haddresses r hr).1, .inr (haddresses r hr).2⟩)
  obtain ⟨hevents, hafter⟩ := Postgres.insertAddressRows_spec hrows
  refine ⟨pg', ?_, hevents, hafter⟩
  unfold Postgres.rewrite
  rw [hrec]
  simp only [hupdate, Postgres.insertAddresses, bind, Except.bind]
  exact hrows

theorem Agree.rewrite (h : Agree rt db pg) {row row' : EventRow} (htwin : row.Twin rt row')
    (hrow' : row' ∈ pg.events.rows) (hdecodable : row.Decodable rt)
    (hrewritable : Rewritable server rt row') :
    ∃ pg', Postgres.rewrite server rt row' pg = .ok pg' ∧ Agree rt (db.refresh rt row) pg' ∧
      ∀ r ∈ pg.events.rows, r.id ≠ row'.id → r ∈ pg'.events.rows := by
  obtain ⟨t, ht, htwins⟩ := h.events
  have hhas : t.has row.id = true := by
    rw [← htwin.id, ← has_of_twins htwins]
    exact KeyedTable.has_of_mem hrow'
  obtain ⟨pg', hok, hevents, haddresses⟩ :=
    rewrite_ok hrow' (htwin.decodable.mpr hdecodable) hrewritable
  have hrecompute := recomputeRow_refresh h.ready.refreshable hdecodable ht hhas
  refine ⟨pg', hok, ⟨⟨_, events_refresh rt row ht, ?_⟩, ?_, h.streamState, ?_,
    searchKept_recomputeRow h.kept hrecompute, ?_⟩, ?_⟩
  · rw [hevents, htwin.id]
    exact twins_update htwins row.id htwin.redecoded
  · rw [haddresses, htwin.id, addressRows_twin rt.sdk row.id htwin.redecoded]
    simp [Db.refresh, h.addresses]
  · have hsearchable := h.searchable
    simp only [Db.refresh]
    split
    · simpa using hsearchable
    · exact hsearchable
  · intro id hstored
    rw [hevents] at hstored
    exact h.binds id (KeyedTable.has_updateKey.mp hstored)
  · intro r hr hne
    rw [hevents]
    exact KeyedTable.mem_updateKey.mpr (.inl ⟨hr, hne⟩)

theorem Agree.rewriteAll (h : Agree rt db pg) {rows rows' : List EventRow}
    (hrows : List.Forall₂ (EventRow.Twin rt) rows rows') (hsub : ∀ row ∈ rows', row ∈ pg.events.rows)
    (hnodup : (rows'.map EventRow.id).Nodup) (hdecodable : ∀ row ∈ rows, row.Decodable rt)
    (hrewritable : ∀ row ∈ rows', Rewritable server rt row) :
    ∃ pg', Postgres.rewriteAll server rt rows' pg = .ok pg' ∧ Agree rt (db.refreshAll rt rows) pg' := by
  induction hrows generalizing db pg with
  | nil => exact ⟨pg, rfl, h⟩
  | @cons row row' rows rows' htwin _ ih =>
    rw [List.map_cons, List.nodup_cons] at hnodup
    obtain ⟨mid, hone, hmid, hkept⟩ := h.rewrite htwin (hsub row' List.mem_cons_self)
      (hdecodable row List.mem_cons_self) (hrewritable row' List.mem_cons_self)
    have hsub' : ∀ r ∈ rows', r ∈ mid.events.rows := by
      intro r hr
      refine hkept r (hsub r (List.mem_cons_of_mem row' hr)) ?_
      intro hid
      exact hnodup.1 (hid ▸ List.mem_map_of_mem hr)
    obtain ⟨fin, hrest, hfin⟩ := ih hmid hsub' hnodup.2
      (fun r hr => hdecodable r (List.mem_cons_of_mem row hr))
      (fun r hr => hrewritable r (List.mem_cons_of_mem row' hr))
    refine ⟨fin, ?_, hfin⟩
    simp only [Postgres.rewriteAll, hone, hrest, bind, Except.bind]

theorem rewriteAll_stops {rows : List EventRow} {row : EventRow} (hrow : row ∈ rows)
    (hno : ¬ row.Decodable rt) : ∃ e, Postgres.rewriteAll server rt rows pg = .error e := by
  induction rows generalizing pg with
  | nil => cases hrow
  | cons r rows ih =>
    simp only [Postgres.rewriteAll]
    cases hone : Postgres.rewrite server rt r pg with
    | error e => exact ⟨e, rfl⟩
    | ok mid =>
      rcases List.mem_cons.mp hrow with heq | hrow
      · subst heq
        have hnone : recompute rt row = none := by
          cases hrec : recompute rt row with
          | none => rfl
          | some p => exact absurd (recompute_eq_some.mp hrec).1 hno
        simp [Postgres.rewrite, hnone] at hone
      · exact ih hrow

theorem Agree.pass (h : Agree rt db pg) {rows rows' : List EventRow}
    (hrows : List.Forall₂ (EventRow.Twin rt) rows rows') (hsub : ∀ row ∈ rows', row ∈ pg.events.rows)
    (hnodup : (rows'.map EventRow.id).Nodup) (hsuits : SuitsRewrite server rt rows') :
    (∃ pg', Postgres.rewriteAll server rt rows' pg = .ok pg' ∧
      recomputeRows rt ⟨true⟩ rows db = .ok (db.refreshAll rt rows) ∧
      Agree rt (db.refreshAll rt rows) pg') ∨
    ((∃ e, Postgres.rewriteAll server rt rows' pg = .error e) ∧
      ∃ e, recomputeRows rt ⟨true⟩ rows db = .error e) := by
  obtain ⟨t, ht, htwins⟩ := h.events
  have hhas : ∀ row ∈ rows, t.has row.id = true := by
    intro row hrow
    obtain ⟨row', hrow', htwin⟩ := related_of_mem hrows hrow
    rw [← htwin.id, ← has_of_twins htwins]
    exact KeyedTable.has_of_mem (hsub row' hrow')
  by_cases hdecodable : ∀ row ∈ rows, row.Decodable rt
  · have hdecodable' : ∀ row ∈ rows', row.Decodable rt := by
      intro row' hrow'
      obtain ⟨row, hrow, htwin⟩ := related_of_mem hrows.flip hrow'
      exact (EventRow.Twin.decodable htwin).mpr (hdecodable row hrow)
    obtain ⟨pg', hok, hafter⟩ := h.rewriteAll hrows hsub hnodup hdecodable (hsuits hdecodable')
    exact .inl ⟨pg', hok, (recomputeRows_eq_ok ht hhas).mpr
      ⟨hdecodable, fun _ => h.ready.refreshable, rfl⟩, hafter⟩
  · refine .inr ⟨?_, ?_⟩
    · simp only [not_forall] at hdecodable
      obtain ⟨row, hrow, hno⟩ := hdecodable
      obtain ⟨row', hrow', htwin⟩ := related_of_mem hrows hrow
      exact rewriteAll_stops hrow' (fun hyes => hno (htwin.decodable.mp hyes))
    · cases hrec : recomputeRows rt ⟨true⟩ rows db with
      | error e => exact ⟨e, rfl⟩
      | ok db' => exact absurd ((recomputeRows_eq_ok ht hhas).mp hrec).1 hdecodable

def redecodeRows (all : Bool) (pg : Postgres.PgDb) : List EventRow :=
  pg.events.rows.filter (fun r => all || r.decodeError.isSome)

theorem Agree.redecode (h : Agree rt db pg) {all : Bool}
    (hsuits : SuitsRewrite server rt (redecodeRows all pg)) :
    Agree rt (SorobanLens.redecode rt ⟨true⟩ all db).2 (Postgres.redecode server rt all pg).2 := by
  obtain ⟨t, ht, htwins⟩ := h.events
  have hrows : List.Forall₂ (EventRow.Twin rt)
      (t.rows.filter (fun r => all || r.decodeError.isSome)) (redecodeRows all pg) :=
    forall₂_filter htwins (fun row _ row' _ hrow => by rw [hrow.decodeError])
  obtain ⟨u, hprep⟩ := h.ready.prepareWrite .ftsUpdate
  have hsub : ∀ row ∈ redecodeRows all pg, row ∈ pg.events.rows :=
    fun row hrow => List.mem_of_mem_filter hrow
  have hnodup : ((redecodeRows all pg).map EventRow.id).Nodup := Keyset.nodup_filter pg.events.nodup _
  unfold SorobanLens.redecode Postgres.redecode
  rw [ht]
  simp only [hprep]
  rw [show pg.events.rows.filter (fun r => all || r.decodeError.isSome) = redecodeRows all pg from rfl]
  generalize t.rows.filter (fun r => all || r.decodeError.isSome) = rows at hrows ⊢
  generalize redecodeRows all pg = rows' at hrows hsub hnodup hsuits ⊢
  have hnil : rows = [] ↔ rows' = [] := by
    rw [← List.length_eq_zero_iff, ← List.length_eq_zero_iff, hrows.length_eq]
  by_cases hempty : rows = []
  · rw [if_pos hempty, if_pos (hnil.mp hempty)]
    exact h
  · rw [if_neg hempty, if_neg (fun he => hempty (hnil.mpr he))]
    rcases h.pass hrows hsub hnodup hsuits with ⟨pg', hok, hok', hafter⟩ | ⟨⟨e, hno⟩, ⟨e', hno'⟩⟩
    · rw [hok, hok']
      exact hafter
    · rw [hno, hno']
      exact h

theorem rewriteAll_one (row : EventRow) :
    Postgres.rewriteAll server rt [row] pg = Postgres.rewrite server rt row pg := by
  simp only [Postgres.rewriteAll]
  cases Postgres.rewrite server rt row pg <;> rfl

theorem recomputeRows_one (build : SqliteBuild) (row : EventRow) :
    recomputeRows rt build [row] db = recomputeRow rt build row db := by
  simp only [recomputeRows]
  cases recomputeRow rt build row db <;> rfl

theorem Agree.repairRow (h : Agree rt db pg) {id : String}
    (hsuits : SuitsRewrite server rt (pg.events.find? id).toList) :
    Agree rt (SorobanLens.repairRow rt ⟨true⟩ id db).2 (Postgres.repairRow server rt id pg).2 := by
  obtain ⟨t, ht, htwins⟩ := h.events
  unfold SorobanLens.repairRow Postgres.repairRow
  rw [ht]
  cases hfind : pg.events.find? id with
  | none =>
    have hnone : t.find? id = none := by
      have hhas := has_of_twins htwins id
      rw [← KeyedTable.find?_isSome, ← KeyedTable.find?_isSome, hfind] at hhas
      simpa using hhas.symm
    simp only [hnone]
    split
    · exact h
    · exact h
  | some row' =>
    obtain ⟨hrow', hid⟩ := KeyedTable.find?_eq_some.mp hfind
    have hbinds := h.binds id (KeyedTable.has_iff.mpr ⟨row', hrow', hid⟩)
    obtain ⟨row, hrow, htwin⟩ := related_of_mem htwins.flip hrow'
    have hfind' : t.find? id = some row :=
      KeyedTable.find?_eq_some.mpr ⟨hrow, (EventRow.Twin.id htwin).symm.trans hid⟩
    rw [hfind] at hsuits
    have htwins' : List.Forall₂ (EventRow.Twin rt) [row] [row'] := .cons htwin .nil
    have hpass := h.pass htwins' (by simpa using hrow') (by simp) hsuits
    simp only [hfind', hbinds, Bool.true_eq_false, if_false]
    rw [← rewriteAll_one, ← recomputeRows_one]
    rcases hpass with ⟨pg', hok, hok', hafter⟩ | ⟨⟨e, hno⟩, ⟨e', hno'⟩⟩
    · rw [hok, hok']
      exact hafter
    · rw [hno, hno']
      exact h

end Agree

/-! ### The conditions of a query -/

/-- A condition that both stores compile alike. -/
def Condition.shared : Condition → Bool
  | .search _ | .ilike _ => false
  | _ => true

theorem shared_conditions (f : String → Condition) (query : EventQuery) :
    (conditions f { query with search := none }).all Condition.shared = true := by
  have htopics : (topicConditions query.topics).all Condition.shared = true := by
    refine List.all_eq_true.mpr ?_
    intro c hc
    obtain ⟨column, v, rfl⟩ := mem_topicConditions hc
    rfl
  have hnone : given (none : Option String) = none := rfl
  have hsuccessful : (if query.successfulOnly = some true then [Condition.successful] else []).all
      Condition.shared = true := by
    split <;> rfl
  simp [conditions, Condition.shared, hnone, htopics, hsuccessful]

theorem all_conditions (p : Condition → Bool) (f : String → Condition) (query : EventQuery) :
    (conditions f query).all p = ((given query.search).toList.all (fun text => p (f text)) &&
      (conditions f { query with search := none }).all p) := by
  have hnone : given (none : Option String) = none := rfl
  simp only [conditions, List.all_append, List.all_map, Function.comp_def, hnone, Option.toList_none,
    List.all_nil, Bool.and_true]
  ac_rfl

def EventRow.found (p : String → Bool) (row : EventRow) : Bool := p row.topicsJson || p row.valueJson

section Matching

variable {rt : Runtime} {db : Db} {pg : Postgres.PgDb} {row row' : EventRow}

theorem any_unique {t : EventsTable} (hrow : row ∈ t.rows) (q : EventRow → Bool) :
    t.rows.any (fun r => r.id == row.id && q r) = q row := by
  rw [Bool.eq_iff_iff, List.any_eq_true]
  simp only [Bool.and_eq_true, beq_iff_eq]
  constructor
  · intro h
    obtain ⟨r, hr, hid, hq⟩ := h
    rwa [t.eq_of_key hr hrow hid] at hq
  · intro hq
    exact ⟨row, hrow, rfl, hq⟩

/-- The search table is read as the row's own text. -/
theorem holds_search (h : Agree rt db pg) {t : EventsTable} (ht : db.events = some t)
    (hrow : row ∈ t.rows) (tm : TextMatch) (phrase : String) :
    (Condition.search phrase).holds tm db row = row.found (tm.phrase phrase) := by
  obtain ⟨-, rows, hrows, hmirrors⟩ := h.kept h.searchable
  rw [ht] at hmirrors
  have hany := any_unique hrow (fun r => r.found (tm.phrase phrase))
  rw [← hany]
  simp only [Condition.holds, hrows, Option.getD_some]
  rw [hmirrors.any_eq, List.any_map]
  rfl

theorem holds_shared (h : Agree rt db pg) (htwin : row.Twin rt row') {c : Condition}
    (hc : c.shared = true) (tm tm' : TextMatch) :
    c.holds tm' pg.tables row' = c.holds tm db row := by
  have haddresses : pg.tables.indexedAddresses = db.indexedAddresses := by
    rw [indexedAddresses_some h.addresses]
    rfl
  cases c with
  | search phrase => cases hc
  | ilike pattern => cases hc
  | address v =>
    simp only [Condition.holds, haddresses, htwin.id]
  | topic column v =>
    simp only [Condition.holds]
    rw [htwin.rest]
    cases column <;> rfl
  | _ =>
    simp only [Condition.holds]
    rw [htwin.rest]

/-- How both stores are set up: one ceiling on pages, a build that searches phrases of three
characters and more, and a server that matches patterns. -/
structure SameSetup (contains : String → String → Bool) (rd : Reader) (rd' : Postgres.PgReader) :
    Prop where
  maxLimit : rd'.maxLimit = rd.maxLimit
  build : rd.build = ⟨true⟩
  phrase : ∀ text column, rd.text.phrase (ftsPhraseQuery text) column =
    (decide (3 ≤ text.length) && contains text column)
  ilike : ∀ text column, rd'.text.ilike ("%" ++ Postgres.likeEscape text ++ "%") column =
    contains text column

/-- What a query needs for both stores to answer it alike: the server takes its parameters,
and a text it searches for has three characters at least and stands in the JSON of an event
as one store writes it exactly when it does as the other writes it. -/
structure SuitsQuery (contains : String → String → Bool) (query : EventQuery) (db : Db)
    (pg : Postgres.PgDb) : Prop where
  conditions : (Postgres.buildWhere query).all Postgres.conditionBinds = true
  cursor : (given query.cursor).all Postgres.textBinds = true
  search : ∀ text, given query.search = some text → ∀ row ∈ tableRows db.events,
    ∀ row' ∈ pg.events.rows, row'.id = row.id →
      ((3 ≤ text.length ∧ row.found (contains text) = true) ↔ row'.found (contains text) = true)

theorem SameSetup.found_phrase {contains : String → String → Bool} {rd : Reader}
    {rd' : Postgres.PgReader} (h : SameSetup contains rd rd') (row : EventRow) (text : String) :
    row.found (rd.text.phrase (ftsPhraseQuery text)) =
      (decide (3 ≤ text.length) && row.found (contains text)) := by
  simp only [EventRow.found, h.phrase, Bool.and_or_distrib_left]

theorem SameSetup.holds_pattern {contains : String → String → Bool} {rd : Reader}
    {rd' : Postgres.PgReader} (h : SameSetup contains rd rd') (db : Db) (row : EventRow) (text : String) :
    (Condition.ilike ("%" ++ Postgres.likeEscape text ++ "%")).holds rd'.text db row =
      row.found (contains text) := by
  simp only [Condition.holds, h.ilike, EventRow.found]

theorem matchesAll_twin (h : Agree rt db pg) {contains : String → String → Bool} {rd : Reader}
    {rd' : Postgres.PgReader} (hsetup : SameSetup contains rd rd') {query : EventQuery}
    (hquery : SuitsQuery contains query db pg) {t : EventsTable} (ht : db.events = some t)
    (hrow : row ∈ t.rows) (hrow' : row' ∈ pg.events.rows) (htwin : row.Twin rt row') :
    matchesAll rd'.text pg.tables (Postgres.buildWhere query) row' =
      matchesAll rd.text db (buildWhere query) row := by
  have hshared : ∀ c ∈ conditions (fun text => .search (ftsPhraseQuery text))
      { query with search := none }, c.holds rd'.text pg.tables row' = c.holds rd.text db row :=
    fun c hc => holds_shared h htwin (List.all_eq_true.mp (shared_conditions _ query) c hc) _ _
  have hlist : conditions (fun text => .ilike ("%" ++ Postgres.likeEscape text ++ "%"))
      { query with search := none } = conditions (fun text => .search (ftsPhraseQuery text))
      { query with search := none } := rfl
  unfold matchesAll Postgres.buildWhere buildWhere
  rw [all_conditions _ _ query, all_conditions _ (fun text => .search (ftsPhraseQuery text)) query, hlist]
  congr 1
  · cases hsearch : given query.search with
    | none => rfl
    | some text =>
      have hrows : tableRows db.events = t.rows := by rw [ht]; rfl
      have hsame := hquery.search text hsearch row (hrows ▸ hrow) row' hrow' htwin.id
      simp only [Option.toList_some, List.all_cons, List.all_nil, Bool.and_true,
        holds_search h ht hrow]
      rw [hsetup.holds_pattern, hsetup.found_phrase, Bool.eq_iff_iff, Bool.and_eq_true,
        decide_eq_true_eq, hsame]
  · rw [Bool.eq_iff_iff, List.all_eq_true, List.all_eq_true]
    refine forall₂_congr ?_
    intro c hc
    rw [hshared c hc]

theorem matchingRows_twins (h : Agree rt db pg) {contains : String → String → Bool} {rd : Reader}
    {rd' : Postgres.PgReader} (hsetup : SameSetup contains rd rd') {query : EventQuery}
    (hquery : SuitsQuery contains query db pg) :
    List.Forall₂ (EventRow.Twin rt) (matchingRows rd.text query db)
      (Postgres.matchingRows rd'.text query pg) := by
  obtain ⟨t, ht, htwins⟩ := h.events
  unfold matchingRows Postgres.matchingRows
  rw [ht]
  exact forall₂_filter htwins (fun row hrow row' hrow' htwin =>
    matchesAll_twin h hsetup hquery ht hrow hrow' htwin)

/-! ### The answers -/

structure EventPage.SameIds (p p' : EventPage) : Prop where
  ids : p'.events.map LensEvent.id = p.events.map LensEvent.id
  nextCursor : p'.nextCursor = p.nextCursor
  prevCursor : p'.prevCursor = p.prevCursor
  total : p.totalIsEstimate = false → p'.totalIsEstimate = false → p'.total = p.total

theorem toEventPage_count {page : RowPage} {count : Nat × Bool} {p : EventPage}
    (h : page.toEventPage count = .ok p) : (p.total, p.totalIsEstimate) = count := by
  unfold RowPage.toEventPage at h
  split at h
  · cases h
  · cases h
    rfl

theorem counted_exact {numbers : Json.NumFormat ℚ} {clock : CountClock} {sql : SqlWhere}
    {rows : List EventRow} {cache : CountCache} {skip : Prop} [Decidable skip] {total : Nat}
    (h : (total, false) =
      (if skip then ((0, false), cache) else countCached numbers clock sql rows cache).1) :
    total = if skip then 0 else rows.length := by
  split at h
  · rename_i hskip
    rw [if_pos hskip]
    exact (Prod.mk.inj h).1
  · rename_i hskip
    rw [if_neg hskip]
    rcases countCached_cases numbers clock sql rows cache with ⟨cached, -, -, -, heq⟩ | ⟨heq, -⟩
    · rw [heq] at h
      exact absurd (Prod.mk.inj h).2 (by simp)
    · rw [heq] at h
      exact (Prod.mk.inj h).1

theorem total_sqlite {rd : Reader} {query : EventQuery} {cache : CountCache} {p : EventPage}
    (h : (queryEvents rd query db cache).1 = .ok p) (hexact : p.totalIsEstimate = false) :
    p.total = if query.skipTotal = some true then 0 else (matchingRows rd.text query db).length := by
  unfold queryEvents at h
  split at h
  · cases h
  · dsimp only at h
    split at h
    · cases h
    · rename_i rows hsel
      obtain ⟨-, -, rfl⟩ := selectWhere_ok.mp hsel
      have hcount := toEventPage_count h
      rw [hexact] at hcount
      exact counted_exact hcount

theorem total_postgres {rd : Postgres.PgReader} {query : EventQuery} {cache : CountCache}
    {p : EventPage} (h : (Postgres.queryEvents rd query pg cache).1 = .ok p)
    (hexact : p.totalIsEstimate = false) : p.total =
      if query.skipTotal = some true then 0 else (Postgres.matchingRows rd.text query pg).length := by
  unfold Postgres.queryEvents at h
  dsimp only at h
  split at h
  · cases h
  · split at h
    · cases h
    · have hcount := toEventPage_count h
      rw [hexact] at hcount
      exact counted_exact hcount

theorem Agree.canAnswer (h : Agree rt db pg) {rd : Reader} (hbuild : rd.build = ⟨true⟩)
    (query : EventQuery) : CanAnswer rd query db := by
  obtain ⟨fts, hfts⟩ := Option.isSome_iff_exists.mp h.searchable
  have hsearch : db.fts rd.build = .ok fts := fts_ok.mpr ⟨by rw [hbuild], hfts⟩
  refine ⟨h.ready.events, ?_⟩
  intro c _
  cases c with
  | search phrase => simp [Condition.prepare, hsearch, Except.map]
  | address v => simp [Condition.prepare, addressTable_ok.mpr h.addresses, Except.map]
  | _ => rfl

theorem Agree.queryEvents (h : Agree rt db pg) {contains : String → String → Bool} {rd : Reader}
    {rd' : Postgres.PgReader} (hsetup : SameSetup contains rd rd') {query : EventQuery}
    (hquery : SuitsQuery contains query db pg) (cache cache' : CountCache) :
    ∃ p p', (SorobanLens.queryEvents rd query db cache).1 = .ok p ∧
      (Postgres.queryEvents rd' query pg cache').1 = .ok p' ∧ p.SameIds p' := by
  have hrows := matchingRows_twins h hsetup hquery
  have hreadable : ∀ row ∈ (PagedStore.pageWindow (.sqlite rd db) query).page, row.Readable := by
    intro row hrow
    obtain ⟨row', -, htwin⟩ := related_of_mem hrows (PagedStore.mem_pageWindow hrow)
    exact htwin.readable
  have hreadable' : ∀ row ∈ (PagedStore.pageWindow (.postgres rd' pg) query).page, row.Readable := by
    intro row' hrow'
    obtain ⟨row, -, htwin⟩ := related_of_mem hrows.flip (PagedStore.mem_pageWindow hrow')
    exact EventRow.Twin.readable_server htwin
  obtain ⟨events, hevents⟩ := exists_mapM_of_readable hreadable
  obtain ⟨events', hevents'⟩ := exists_mapM_of_readable hreadable'
  obtain ⟨p, hp, -⟩ := PagedStore.queryEvents_of_accepts (s := .sqlite rd db)
    (h.canAnswer hsetup.build query) trivial hevents cache
  obtain ⟨p', hp', -⟩ := PagedStore.queryEvents_of_accepts (s := .postgres rd' pg)
    hquery.conditions hquery.cursor hevents' cache'
  have hwindow : (PagedStore.pageWindow (.postgres rd' pg) query).map EventRow.id =
      (PagedStore.pageWindow (.sqlite rd db) query).map EventRow.id := by
    unfold PagedStore.pageWindow
    rw [map_window _ _ _ _ (PagedStore.nodup_matching _ _),
      map_window _ _ _ _ (PagedStore.nodup_matching _ _)]
    simp only [PagedStore.matching, PagedStore.limit, ids_of_twins hrows, hsetup.maxLimit]
  obtain ⟨-, -, hnext, hprev⟩ := PagedStore.queryEvents_ok hp
  obtain ⟨-, -, hnext', hprev'⟩ := PagedStore.queryEvents_ok hp'
  refine ⟨p, p', hp, hp', ?_, ?_, ?_, ?_⟩
  · rw [PagedStore.map_id_events hp, PagedStore.map_id_events hp']
    exact congrArg Keyset.Window.page hwindow
  · have hcursor := congrArg (Keyset.Window.next id) hwindow
    rw [Keyset.next_map, Keyset.next_map] at hcursor
    rw [hnext, hnext', hcursor]
  · have hcursor := congrArg (Keyset.Window.prev id) hwindow
    rw [Keyset.prev_map, Keyset.prev_map] at hcursor
    rw [hprev, hprev', hcursor]
  · intro hexact hexact'
    rw [total_sqlite hp hexact, total_postgres hp' hexact', hrows.length_eq]

end Matching

/-! ### Runs of both stores -/

inductive SharedOp where
  | insertEvents (now now' : Nat → String) (events : List RawEvent)
  | insertDecoded (events : List LensEvent)
  | pruneBefore (ledger : JsNumber)
  | redecode (all : Bool)
  | repairRow (id : String)

def SharedOp.sqlite (rt : Runtime) (db : Db) : SharedOp → Db
  | .insertEvents now _ events => (SorobanLens.insertEvents rt ⟨true⟩ now events db).2
  | .insertDecoded events => (SorobanLens.insertDecoded rt ⟨true⟩ events db).2
  | .pruneBefore ledger => (SorobanLens.pruneBefore ⟨true⟩ ledger db).2
  | .redecode all => (SorobanLens.redecode rt ⟨true⟩ all db).2
  | .repairRow id => (SorobanLens.repairRow rt ⟨true⟩ id db).2

def SharedOp.postgres (server : Postgres.PgServer) (rt : Runtime) (pg : Postgres.PgDb) :
    SharedOp → Postgres.PgDb
  | .insertEvents _ now' events => (Postgres.insertEvents server rt now' events pg).2
  | .insertDecoded events => (Postgres.insertDecoded server rt events pg).2
  | .pruneBefore ledger => (Postgres.pruneBefore ledger pg).2
  | .redecode all => (Postgres.redecode server rt all pg).2
  | .repairRow id => (Postgres.repairRow server rt id pg).2

def SharedOp.Timed (rt : Runtime) : SharedOp → Prop
  | .insertEvents now now' _ => ∀ i, (rt.dateGetTime (now i)).isSome = true ∧
      (rt.dateGetTime (now' i)).isSome = true
  | _ => True

/-- The server does what SQLite does: it takes what the operation binds and stores, or the
operation has nothing to do. -/
def SharedOp.Suits (server : Postgres.PgServer) (rt : Runtime) (pg : Postgres.PgDb) :
    SharedOp → Prop
  | .insertEvents _ now' events => SuitsInsert server rt (Postgres.decodeBatch rt now' events) pg
  | .insertDecoded events => SuitsInsert server rt events pg
  | .pruneBefore ledger => SuitsPrune ledger pg
  | .redecode all => SuitsRewrite server rt (redecodeRows all pg)
  | .repairRow id => SuitsRewrite server rt (pg.events.find? id).toList

def BothStep (server : Postgres.PgServer) (rt : Runtime)
    (allowed : Runtime → Postgres.PgDb → SharedOp → Prop) (s s' : Db × Postgres.PgDb) : Prop :=
  ∃ (sdk : Sdk) (op : SharedOp), op.Timed rt ∧ allowed { rt with sdk := sdk } s.2 op ∧
    s' = (op.sqlite { rt with sdk := sdk } s.1, op.postgres server { rt with sdk := sdk } s.2)

def BothNew (s : Db × Postgres.PgDb) : Prop :=
  s = ((migrateSync ⟨true⟩ Db.new).2, Postgres.PgDb.empty)

section Runs

variable {server : Postgres.PgServer} {rt : Runtime} {db : Db} {pg : Postgres.PgDb}

theorem agree_new : Agree rt (migrateSync ⟨true⟩ Db.new).2 Postgres.PgDb.empty where
  events := ⟨.empty, by decide +kernel, .nil⟩
  addresses := by decide +kernel
  streamState := by decide +kernel
  searchable := by decide +kernel
  kept := by
    intro _
    have hevents : (migrateSync ⟨true⟩ Db.new).2.events = some .empty := by decide +kernel
    refine ⟨fun name => by cases name <;> decide +kernel, [], by decide +kernel, ?_⟩
    rw [hevents]
    exact SideTable.mirrors_nil
  binds id h := by cases h

/-- Which release of the SDK a process runs makes no difference to what is stored. -/
theorem Agree.upgrade (h : Agree rt db pg) (sdk : Sdk) : Agree { rt with sdk := sdk } db pg := by
  obtain ⟨t, ht, htwins⟩ := h.events
  exact ⟨⟨t, ht, htwins.imp (fun _ _ hrow =>
    ⟨hrow.rest, hrow.topics, hrow.value, hrow.topicsXdr, hrow.valueXdr, hrow.dated⟩)⟩,
    h.addresses, h.streamState, h.searchable, h.kept, h.binds⟩

theorem Agree.exec (h : Agree rt db pg) {op : SharedOp} (htimed : op.Timed rt)
    (hsuits : op.Suits server rt pg) : Agree rt (op.sqlite rt db) (op.postgres server rt pg) := by
  cases op with
  | insertEvents now now' events =>
    exact h.insertDecoded (twins_decodeBatch (fun i => (htimed i).1) (fun i => (htimed i).2) events)
      hsuits
  | insertDecoded events =>
    exact h.insertDecoded (List.forall₂_same.mpr (fun e _ => ⟨rfl, rfl⟩)) hsuits
  | pruneBefore ledger => exact h.pruneBefore hsuits
  | redecode all => exact h.redecode hsuits
  | repairRow id => exact h.repairRow hsuits

theorem agree_of_run {s : Db × Postgres.PgDb}
    (h : Reachable BothNew (BothStep server rt (fun rt pg op => op.Suits server rt pg)) s) :
    Agree rt s.1 s.2 := by
  have hstart : ∀ s, BothNew s → Agree rt s.1 s.2 := by
    intro s hs
    rw [hs]
    exact agree_new
  refine Reachable.invariant hstart ?_ h
  intro s s' hs hstep
  obtain ⟨sdk, op, htimed, hsuits, rfl⟩ := hstep
  exact ((hs.upgrade sdk).exec htimed hsuits).upgrade rt.sdk

end Runs

/-- Both stores answer a query, with the same ids, cursors and exact total. -/
def BothAnswer (rd : Reader) (rd' : Postgres.PgReader) (query : EventQuery)
    (s : Db × Postgres.PgDb) : Prop :=
  ∀ cache cache', ∃ p p', (queryEvents rd query s.1 cache).1 = .ok p ∧
    (Postgres.queryEvents rd' query s.2 cache').1 = .ok p' ∧ p.SameIds p'

/-- Where every operation suits the server, both stores answer a query that suits it alike. -/
theorem backends_agree {server : Postgres.PgServer} {rt : Runtime}
    {contains : String → String → Bool} {rd : Reader} {rd' : Postgres.PgReader}
    (hsetup : SameSetup contains rd rd') {s : Db × Postgres.PgDb}
    (h : Reachable BothNew (BothStep server rt (fun rt pg op => op.Suits server rt pg)) s)
    {query : EventQuery} (hquery : SuitsQuery contains query s.1 s.2) : BothAnswer rd rd' query s :=
  fun cache cache' => (agree_of_run h).queryEvents hsetup hquery cache cache'

/-! ### One transfer -/

def unquoted : List Char → List Char
  | '"' :: '"' :: cs => '"' :: unquoted cs
  | c :: cs => c :: unquoted cs
  | [] => []

def unescaped : List Char → List Char
  | '\\' :: c :: cs => c :: unescaped cs
  | c :: cs => c :: unescaped cs
  | [] => []

theorem unquoted_quoted (cs : List Char) :
    unquoted (cs.flatMap (fun c => if c = '"' then ['"', '"'] else [c])) = cs := by
  induction cs with
  | nil => rfl
  | cons c cs ih =>
    rw [List.flatMap_cons]
    by_cases hc : c = '"'
    · rw [if_pos hc, hc]
      simp only [List.cons_append, List.nil_append, unquoted, ih]
    · rw [if_neg hc]
      simp only [List.cons_append, List.nil_append]
      rw [unquoted, ih]
      intro _ heq
      exact absurd heq hc

theorem unescaped_escaped (cs : List Char) :
    unescaped (cs.flatMap (fun c => if c = '\\' ∨ c = '%' ∨ c = '_' then ['\\', c] else [c])) = cs := by
  induction cs with
  | nil => rfl
  | cons c cs ih =>
    rw [List.flatMap_cons]
    by_cases hc : c = '\\' ∨ c = '%' ∨ c = '_'
    · rw [if_pos hc]
      simp only [List.cons_append, List.nil_append, unescaped, ih]
    · rw [if_neg hc]
      simp only [List.cons_append, List.nil_append]
      rw [unescaped, ih]
      intro _ _ heq _
      exact absurd (.inl heq) hc

def foldedContains (text column : String) : Bool :=
  decide (text.toList.map Char.toLower <:+: column.toList.map Char.toLower)

def foldedMatch : TextMatch where
  phrase phrase column :=
    let text := String.ofList (unquoted phrase.toList.tail.dropLast)
    decide (3 ≤ text.length) && foldedContains text column
  ilike pattern column :=
    foldedContains (String.ofList (unescaped pattern.toList.tail.dropLast)) column

theorem sameSetup_folded : SameSetup foldedContains { plainReader with text := foldedMatch }
    ⟨plainReader.maxLimit, foldedMatch, plainReader.numbers, plainReader.clock⟩ where
  maxLimit := rfl
  build := rfl
  phrase text column := by
    have hplain : String.ofList (unquoted (ftsPhraseQuery text).toList.tail.dropLast) = text := by
      simp [ftsPhraseQuery, unquoted_quoted]
    simp only [foldedMatch, hplain]
  ilike text column := by
    have hplain : String.ofList (unescaped
        ("%" ++ Postgres.likeEscape text ++ "%").toList.tail.dropLast) = text := by
      simp [Postgres.likeEscape, unescaped_escaped]
    simp only [foldedMatch, hplain]

def transferEvent : LensEvent :=
  { plainEvent "a" with
    topics := [⟨"symbol", .str "transfer"⟩]
    topicsXdr := ["AAAADwAAAAh0cmFuc2Zlcg=="] }

def roomyServer : Postgres.PgServer := ⟨fun _ => true, fun _ => true⟩

def transferred : Db × Postgres.PgDb :=
  ((insertDecoded plainRuntime ⟨true⟩ [transferEvent] (migrateSync ⟨true⟩ Db.new).2).2,
    (Postgres.insertDecoded roomyServer plainRuntime [transferEvent] Postgres.PgDb.empty).2)

theorem suits_transfer :
    (SharedOp.insertDecoded [transferEvent]).Suits roomyServer plainRuntime Postgres.PgDb.empty := by
  refine .inl (Postgres.insertBatch_ok_iff.mp ⟨1, transferred.2, ?_⟩)
  rfl

theorem reachable_transferred {allowed : Runtime → Postgres.PgDb → SharedOp → Prop}
    (h : allowed plainRuntime Postgres.PgDb.empty (.insertDecoded [transferEvent])) :
    Reachable BothNew (BothStep roomyServer plainRuntime allowed) transferred :=
  Reachable.next (.start (s := ((migrateSync ⟨true⟩ Db.new).2, Postgres.PgDb.empty)) rfl)
    ⟨plainRuntime.sdk, .insertDecoded [transferEvent], trivial, h, rfl⟩

theorem rows_transferred :
    tableRows transferred.1.events = [insertParams plainRuntime transferEvent] ∧
      transferred.2.events.rows = [Postgres.insertParams plainRuntime transferEvent] := by
  constructor
  · rfl
  · rfl

/-- Both stores find the transfer by the whole word. -/
theorem backends_agree_transfer : (tableRows transferred.1.events).length = 1 ∧
    BothAnswer { plainReader with text := foldedMatch }
      ⟨plainReader.maxLimit, foldedMatch, plainReader.numbers, plainReader.clock⟩
      { search := some "transfer" } transferred := by
  refine ⟨by decide +kernel, backends_agree sameSetup_folded (reachable_transferred suits_transfer) ?_⟩
  refine ⟨by decide +kernel, rfl, ?_⟩
  intro text htext row hrow row' hrow' _
  rw [rows_transferred.1, List.mem_singleton] at hrow
  rw [rows_transferred.2, List.mem_singleton] at hrow'
  have htext : text = "transfer" := (Option.some.inj htext).symm
  subst hrow hrow' htext
  decide +kernel

/-- A text of two characters is found by the server alone. -/
theorem short_search_differs : ¬ ∀ (server : Postgres.PgServer) (rt : Runtime)
    (contains : String → String → Bool) (rd : Reader) (rd' : Postgres.PgReader),
    SameSetup contains rd rd' → ∀ s, Reachable BothNew (BothStep server rt (fun _ _ _ => True)) s →
      ∀ query, BothAnswer rd rd' query s := by
  intro hclaim
  obtain ⟨p, p', hp, hp', hsame⟩ := hclaim _ _ _ _ _ sameSetup_folded _
    (reachable_transferred trivial) { search := some "tr" } [] []
  have hnone : matchingRows foldedMatch { search := some "tr" } transferred.1 = [] := by
    decide +kernel
  have hone : Postgres.matchingRows foldedMatch { search := some "tr" } transferred.2 =
      [Postgres.insertParams plainRuntime transferEvent] := by
    decide +kernel
  have hempty : p.events = [] := by
    refine List.eq_nil_iff_forall_not_mem.mpr ?_
    intro e he
    have hid : e.id ∈ p.events.map LensEvent.id := List.mem_map_of_mem he
    rw [PagedStore.map_id_events (s := .sqlite _ _) hp] at hid
    obtain ⟨row, hrow, -⟩ := List.mem_map.mp hid
    have hmatch : row ∈ matchingRows foldedMatch { search := some "tr" } transferred.1 :=
      PagedStore.mem_pageWindow hrow
    rw [hnone] at hmatch
    cases hmatch
  have hpage : (PagedStore.pageWindow (.postgres
      ⟨plainReader.maxLimit, foldedMatch, plainReader.numbers, plainReader.clock⟩ transferred.2)
      { search := some "tr" }).page.map EventRow.id = ["a"] := by
    have hlimit : normaliseLimit plainReader.maxLimit none = 50 := by decide +kernel
    rw [PagedStore.pageWindow, PagedStore.limit, hlimit, PagedStore.matching, hone]
    rfl
  have hids := hsame.ids
  rw [hempty, PagedStore.map_id_events (s := .postgres _ _) hp', hpage] at hids
  cases hids

end SorobanLens
