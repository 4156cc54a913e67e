import SorobanLens.Lib.JsonNumeral
import SorobanLens.Store.EventStore
import SorobanLens.Store.Ready

/-!
Writes of other events do not change what a stored event matches: an insert adds
side rows of new ids only, a delete removes those of the ids that go.
-/

set_option autoImplicit false

namespace SorobanLens

/-! ### Inserting -/

theorem mem_indexedAddresses_insert {rt : Runtime} {build : SqliteBuild} {e : LensEvent} {t : EventsTable}
    {db db' : Db} (h : db.Inserted rt build e t db') {r : AddressRow} (hne : r.eventId ≠ e.id) :
    r ∈ db'.indexedAddresses ↔ r ∈ db.indexedAddresses := by
  obtain ⟨a, ha, ha'⟩ := h.addresses
  rw [indexedAddresses_some ha, indexedAddresses_some ha', KeyedTable.mem_insertAll_id]
  constructor
  · intro hr
    rcases hr with hr | hr
    · exact hr
    · exact absurd (mem_addressRows_eventId hr) hne
  · exact .inl

theorem mem_fts_insert {rt : Runtime} {build : SqliteBuild} {e : LensEvent} {t : EventsTable}
    {db db' : Db} (h : db.Inserted rt build e t db') {f : FtsRow} (hne : f.eventId ≠ e.id) :
    f ∈ db'.eventsFts.getD [] ↔ f ∈ db.eventsFts.getD [] := by
  have hfts := h.fts
  unfold Db.FtsAfter at hfts
  split at hfts
  · obtain ⟨-, rows, hr, hr'⟩ := hfts
    have hnot : f ≠ ⟨e.id, (insertParams rt e).topicsJson, (insertParams rt e).valueJson⟩ := by
      intro heq
      exact hne (congrArg FtsRow.eventId heq)
    simp [hr, hr', hnot]
  · rw [hfts]

theorem any_congr_of_mem {α : Type} {xs ys : List α} {p : α → Bool}
    (h : ∀ x, p x = true → (x ∈ xs ↔ x ∈ ys)) : xs.any p = ys.any p := by
  rw [Bool.eq_iff_iff, List.any_eq_true, List.any_eq_true]
  constructor
  · intro hx
    obtain ⟨x, hx, hp⟩ := hx
    exact ⟨x, (h x hp).mp hx, hp⟩
  · intro hx
    obtain ⟨x, hx, hp⟩ := hx
    exact ⟨x, (h x hp).mpr hx, hp⟩

/-- Conditions read the side rows of the row's own id alone. -/
theorem holds_congr {tm : TextMatch} {db db' : Db} {row : EventRow}
    (ha : ∀ r : AddressRow, r.eventId = row.id → (r ∈ db'.indexedAddresses ↔ r ∈ db.indexedAddresses))
    (hf : ∀ f : FtsRow, f.eventId = row.id →
      (f ∈ db'.eventsFts.getD [] ↔ f ∈ db.eventsFts.getD [])) (c : Condition) :
    c.holds tm db' row = c.holds tm db row := by
  cases c with
  | search phrase =>
    refine any_congr_of_mem ?_
    intro f hp
    simp only [Bool.and_eq_true, beq_iff_eq] at hp
    exact hf f hp.1
  | address v =>
    refine any_congr_of_mem ?_
    intro r hp
    simp only [Bool.and_eq_true, beq_iff_eq] at hp
    exact ha r hp.1
  | _ => rfl

theorem matchesAll_congr {tm : TextMatch} {db db' : Db} {row : EventRow}
    (h : ∀ c : Condition, c.holds tm db' row = c.holds tm db row) (conds : List Condition) :
    matchesAll tm db' conds row = matchesAll tm db conds row := by
  simp [matchesAll, h]

theorem id_mem_matching {tm : TextMatch} {q : EventQuery} {db : Db} {t : EventsTable}
    {row : EventRow} (ht : db.events = some t) (hrow : row ∈ t.rows) :
    row.id ∈ (matchingRows tm q db).map EventRow.id ↔ matchesAll tm db (buildWhere q) row = true := by
  simp only [List.mem_map, mem_matchingRows]
  constructor
  · intro h
    obtain ⟨other, ⟨u, hu, hmem, hmatch⟩, hid⟩ := h
    rw [ht, Option.some.injEq] at hu
    subst hu
    rwa [t.eq_of_key hmem hrow hid] at hmatch
  · intro h
    exact ⟨row, ⟨t, ht, hrow, h⟩, rfl⟩

section Sqlite

variable (rd : Reader)

/-- An id matches as before when its row is still there with its side rows. -/
theorem settled_of_rows {db db' : Db}
    (h : ∀ t t', db.events = some t → db'.events = some t' → ∀ row ∈ t.rows, ∀ row' ∈ t'.rows,
      row'.id = row.id → row' = row ∧ ∀ c : Condition, c.holds rd.text db' row = c.holds rd.text db row) :
    (sqliteStore rd).Settled db db' := by
  intro q id hid hid'
  obtain ⟨t, ht, row, hrow, rfl⟩ := mem_storedIds.mp hid
  obtain ⟨t', ht', row', hrow', hk⟩ := mem_storedIds.mp hid'
  obtain ⟨rfl, hholds⟩ := h t t' ht ht' row hrow row' hrow' hk
  show _ ∈ (matchingRows rd.text q db').map EventRow.id ↔ _ ∈ (matchingRows rd.text q db).map EventRow.id
  rw [id_mem_matching ht hrow, id_mem_matching ht' hrow', matchesAll_congr hholds]

theorem inserted_insertOne {rt : Runtime} {build : SqliteBuild} {e : LensEvent} {db db' : Db}
    {n : Nat} (h : insertOne rt build e db = .ok (n, db')) : (sqliteStore rd).Inserted db db' := by
  obtain ⟨t, ht, ⟨-, rfl, -⟩ | ⟨-, -, hid, hins⟩⟩ := insertOne_ok h
  · exact ⟨fun _ hk => hk, fun _ _ _ _ => Iff.rfl⟩
  · have hkept : ∀ row ∈ t.rows, row ∈ (t.insertOrIgnore (insertParams rt e)).rows :=
      fun row hrow => KeyedTable.mem_insertOrIgnore_of_mem hrow
    refine ⟨?_, settled_of_rows rd ?_⟩
    · intro id hk
      obtain ⟨u, hu, row, hrow, rfl⟩ := mem_storedIds.mp hk
      rw [ht, Option.some.injEq] at hu
      subst hu
      exact mem_storedIds.mpr ⟨_, hins.events, row, hkept row hrow, rfl⟩
    · intro u u' hu hu' row hrow row' hrow' hk
      rw [ht, Option.some.injEq] at hu
      rw [hins.events, Option.some.injEq] at hu'
      subst hu hu'
      have hne : row.id ≠ e.id := KeyedTable.not_has_iff.mp hid row hrow
      refine ⟨KeyedTable.eq_of_key _ hrow' (hkept row hrow) hk, ?_⟩
      refine holds_congr ?_ ?_
      · intro r hr
        exact mem_indexedAddresses_insert hins (hr ▸ hne)
      · intro f hf
        exact mem_fts_insert hins (hf ▸ hne)

end Sqlite

theorem EventStore.Inserted.refl {σ : Type} (E : EventStore σ) (s : σ) : E.Inserted s s :=
  ⟨fun _ h => h, fun _ _ _ _ => Iff.rfl⟩

theorem EventStore.Inserted.trans {σ : Type} {E : EventStore σ} {a b c : σ} (h : E.Inserted a b)
    (g : E.Inserted b c) : E.Inserted a c where
  kept := fun id hid => g.kept id (h.kept id hid)
  settled := fun q id ha hc =>
    (g.settled q id (h.kept id ha) hc).trans (h.settled q id ha (h.kept id ha))

theorem inserted_insertDecoded (rd : Reader) {rt : Runtime} {build : SqliteBuild}
    {es : List LensEvent} {db db' : Db} {r : Except StoreError Nat}
    (h : insertDecoded rt build es db = (r, db')) : (sqliteStore rd).Inserted db db' := by
  rcases insertDecoded_cases h with ⟨n, -, hb⟩ | ⟨e, -, rfl⟩
  · refine insertBatch_induct (P := fun d => (sqliteStore rd).Inserted db d) ?_ (.refl _ db) hb
    intro e m mid mid' hp hstep
    exact hp.trans (inserted_insertOne rd hstep)
  · exact .refl _ _

/-! ### Deleting -/

theorem pruned_deleteEvents (rd : Reader) {build : SqliteBuild} {p : EventRow → Bool} {db db' : Db}
    (h : deleteEvents build p db = .ok db') : (sqliteStore rd).Pruned db db' := by
  obtain ⟨t, ht, hdel⟩ := deleteEvents_ok h
  refine ⟨?_, settled_of_rows rd ?_⟩
  · intro id hk
    obtain ⟨u, hu, row, hrow, rfl⟩ := mem_storedIds.mp hk
    rw [hdel.events, Option.some.injEq] at hu
    subst hu
    exact mem_storedIds.mpr ⟨t, ht, row, (KeyedTable.mem_deleteWhere.mp hrow).1, rfl⟩
  · intro u u' hu hu' row hrow row' hrow' hk
    rw [ht, Option.some.injEq] at hu
    rw [hdel.events, Option.some.injEq] at hu'
    subst hu hu'
    obtain ⟨hmem', hp'⟩ := KeyedTable.mem_deleteWhere.mp hrow'
    obtain rfl := t.eq_of_key hmem' hrow hk
    have hstays : row'.id ∉ (t.rows.filter p).map EventRow.id := by
      intro hgone
      obtain ⟨other, ho, hok⟩ := List.mem_map.mp hgone
      obtain ⟨homem, hop⟩ := List.mem_filter.mp ho
      rw [t.eq_of_key homem hmem' hok, hp'] at hop
      cases hop
    refine ⟨rfl, holds_congr ?_ ?_⟩
    · intro r hr
      have haddr := hdel.addresses
      cases ha : db.eventAddresses with
      | none => simp [Db.indexedAddresses, ha, haddr]
      | some a =>
        have hkeep : r.eventId ∉ (t.rows.filter p).map EventRow.id := by rwa [hr]
        rw [ha, Option.map_some] at haddr
        rw [indexedAddresses_some ha, indexedAddresses_some haddr, KeyedTable.mem_deleteWhere]
        simp only [decide_eq_false_iff_not, hkeep, not_false_eq_true, and_true]
    · intro f hf
      have hkeep : f.eventId ∉ (t.rows.filter p).map EventRow.id := by rwa [hf]
      have hfts := hdel.fts
      unfold Db.FtsAfter at hfts
      split at hfts
      · obtain ⟨-, rows, hr, hr'⟩ := hfts
        simp only [hr, hr', Option.getD_some, List.mem_filter, decide_not, Bool.not_eq_eq_eq_not,
          Bool.not_true, decide_eq_false_iff_not, hkeep, not_false_eq_true, and_true]
      · rw [hfts]

theorem pruned_pruneBefore (rd : Reader) {build : SqliteBuild} {ledger : JsNumber} {db db' : Db}
    {r : Except StoreError Nat} (h : pruneBefore build ledger db = (r, db')) :
    (sqliteStore rd).Pruned db db' := by
  rcases pruneBefore_cases h with rfl | hd
  · exact ⟨fun _ hk => hk, fun _ _ _ _ => Iff.rfl⟩
  · exact pruned_deleteEvents rd hd

/-! ### A small store -/

def plainRuntime : Runtime :=
  ⟨⟨fun _ => .error "", fun _ => .error ""⟩, fun _ => none, fun _ => "", fun _ => 0⟩

def plainReader : Reader where
  maxLimit := ⟨1000, by decide⟩
  text := ⟨fun _ _ => false, fun _ _ => false⟩
  build := ⟨true⟩
  numbers := Json.rationalFormat
  clock := ⟨.ofNat 0, .ofNat 0, .ofNat 0⟩

def plainEvent (id : String) : LensEvent where
  id := id
  contractId := "C"
  type := .contract
  ledger := 7
  ledgerClosedAt := ""
  txHash := ""
  transactionIndex := 0
  operationIndex := 0
  inSuccessfulContractCall := true
  topics := []
  topicsXdr := []
  value := ⟨"void", .null⟩
  valueXdr := ""
  decodeError := none
  indexedAt := ""

def plainRow (id : String) : EventRow := insertParams plainRuntime (plainEvent id)

def plainDb (ids : List String) : Db :=
  (insertDecoded plainRuntime ⟨true⟩ (ids.map plainEvent) (migrateSync ⟨true⟩ Db.new).2).2

theorem plainRow_reads (ids : List String) :
    (ids.map plainRow).mapM rowToEvent = some (ids.map plainEvent) := by
  refine mapM_map_some rowToEvent plainRow plainEvent ?_ ids
  intro id
  rw [plainRow, rowToEvent_insertParams]
  rfl

theorem plain_answers {query : EventQuery} {db : Db} {ids : List String}
    (h : CanAnswer plainReader query db)
    (hpage : (pageWindow plainReader query db).page = ids.map plainRow) :
    ∃ total estimate, (sqliteStore plainReader).queryEvents query db
      { events := ids.map plainEvent
        nextCursor := (pageWindow plainReader query db).next EventRow.id
        prevCursor := (pageWindow plainReader query db).prev EventRow.id
        total := total
        totalIsEstimate := estimate } := by
  refine sqliteStore_answers h ?_
  rw [hpage]
  exact plainRow_reads ids

end SorobanLens
