import SorobanLens.Store.Rollback
import SorobanLens.Lib.Renewal

/-!
What a re-decode leaves: the derived columns of each row it takes, its address rows and
its search row, all computed from the raw XDR. A second pass finds the same XDR.
-/

set_option autoImplicit false

namespace SorobanLens

/-! ### One row -/

def EventRow.redecoded (rt : Runtime) (row : EventRow) : LensEvent :=
  decodeEvent rt.sdk (rt.toISOString ((rt.dateGetTime row.indexedAt).getD 0))
    { id := row.id
      type := row.type
      ledger := row.ledger
      ledgerClosedAt := row.ledgerClosedAt
      contractId := row.contractId
      topic := row.topicsXdr.getD []
      value := decompressXdrColumn row.valueXdr
      txHash := row.txHash
      transactionIndex := row.transactionIndex
      operationIndex := row.operationIndex
      inSuccessfulContractCall := row.inSuccessfulCall }

/-- A re-decode of the row does not throw. -/
def EventRow.Decodable (rt : Runtime) (row : EventRow) : Prop :=
  row.topicsXdr.isSome = true ∧ (rt.dateGetTime row.indexedAt).isSome = true

def EventRow.settled (rt : Runtime) (row : EventRow) : EventRow :=
  row.setDerived (derivedColumns rt (row.redecoded rt))

section Row

variable {rt : Runtime} {row : EventRow}

theorem recompute_eq_some {p : DerivedColumns × LensEvent} : recompute rt row = some p ↔
    row.Decodable rt ∧ p = (derivedColumns rt (row.redecoded rt), row.redecoded rt) := by
  unfold recompute EventRow.Decodable EventRow.redecoded
  cases ht : row.topicsXdr with
  | none => simp
  | some topic =>
    cases hd : rt.dateGetTime row.indexedAt with
    | none => simp
    | some ms => simp [Eq.comm]

@[simp] theorem settled_id (rt : Runtime) (row : EventRow) : (row.settled rt).id = row.id := rfl

@[simp] theorem settled_indexedAt (rt : Runtime) (row : EventRow) :
    (row.settled rt).indexedAt = row.indexedAt := rfl

@[simp] theorem topicsXdr_settled (rt : Runtime) (row : EventRow) :
    (row.settled rt).topicsXdr = some (row.topicsXdr.getD []) := topicsXdr_setDerived rt row _

@[simp] theorem valueXdr_settled (rt : Runtime) (row : EventRow) :
    decompressXdrColumn (row.settled rt).valueXdr = decompressXdrColumn row.valueXdr :=
  valueXdr_setDerived rt row _

@[simp] theorem redecoded_settled (rt : Runtime) (row : EventRow) :
    (row.settled rt).redecoded rt = row.redecoded rt := by
  simp only [EventRow.redecoded, topicsXdr_settled, valueXdr_settled, Option.getD_some]
  rfl

theorem decodable_settled (h : row.Decodable rt) : (row.settled rt).Decodable rt :=
  ⟨by simp, h.2⟩

theorem setDerived_setDerived (row : EventRow) (d e : DerivedColumns) :
    (row.setDerived d).setDerived e = row.setDerived e := rfl

@[simp] theorem settled_settled (rt : Runtime) (row : EventRow) :
    (row.settled rt).settled rt = row.settled rt := by
  have hsame := redecoded_settled rt row
  unfold EventRow.settled at hsame ⊢
  rw [hsame, setDerived_setDerived]

end Row

/-! ### One statement after the other -/

/-- No statement of a re-decode can fail to prepare. -/
structure Db.Refreshable (build : SqliteBuild) (db : Db) : Prop where
  events : db.events.isSome = true
  addresses : db.eventAddresses.isSome = true
  insertTrigger : .ftsInsert ∈ db.triggers → build.fts5 = true ∧ db.eventsFts.isSome = true
  updateTrigger : .ftsUpdate ∈ db.triggers → build.fts5 = true ∧ db.eventsFts.isSome = true

theorem Db.Ready.refreshable {build : SqliteBuild} {db : Db} (h : db.Ready build) :
    db.Refreshable build := ⟨h.events, h.addresses, h.trigger, h.trigger⟩

def Db.refresh (rt : Runtime) (row : EventRow) (db : Db) : Db :=
  { db with
    events := db.events.map (fun t => t.updateKey row.id
      (fun r => r.setDerived (derivedColumns rt (row.redecoded rt))) (fun _ => rfl))
    eventsFts := if .ftsUpdate ∈ db.triggers then
        db.eventsFts.map (renew FtsRow.eventId row.id
          [⟨row.id, (row.settled rt).topicsJson, (row.settled rt).valueJson⟩])
      else db.eventsFts
    eventAddresses := db.eventAddresses.map (fun a =>
      (a.deleteWhere (fun r => r.eventId = row.id)).insertAll
        (addressRows rt.sdk row.id (row.redecoded rt))) }

def Db.refreshAll (rt : Runtime) (rows : List EventRow) (db : Db) : Db :=
  rows.foldl (fun db row => db.refresh rt row) db

section Refresh

variable {rt : Runtime} {build : SqliteBuild} {row : EventRow} {rows : List EventRow} {db db' : Db}

theorem Db.Refreshable.refresh (h : db.Refreshable build) (rt : Runtime) (row : EventRow) :
    (db.refresh rt row).Refreshable build := by
  have hfts : db.eventsFts.isSome = true → (db.refresh rt row).eventsFts.isSome = true := by
    intro hsome
    simp only [Db.refresh]
    split <;> simp [hsome]
  exact ⟨by simp [Db.refresh, h.events], by simp [Db.refresh, h.addresses],
    fun hn => ⟨(h.insertTrigger hn).1, hfts (h.insertTrigger hn).2⟩,
    fun hn => ⟨(h.updateTrigger hn).1, hfts (h.updateTrigger hn).2⟩⟩

theorem updateRow_refresh {t : EventsTable} (h : db.Refreshable build) (ht : db.events = some t)
    (hhas : t.has row.id = true) :
    updateRow build row (derivedColumns rt (row.redecoded rt)) db =
      .ok { db.refresh rt row with eventAddresses := db.eventAddresses } := by
  obtain ⟨current, hfind⟩ := Option.isSome_iff_exists.mp (by rwa [KeyedTable.find?_isSome] :
    (t.find? row.id).isSome = true)
  have hid : current.id = row.id := (KeyedTable.find?_eq_some.mp hfind).2
  have hprep : prepareWrite build .ftsUpdate db = .ok t := prepareWrite_ok.mpr ⟨ht, h.updateTrigger⟩
  unfold updateRow
  rw [hprep]
  simp only [bind, Except.bind, hfind, fireUpdate, Db.refresh, ht, Option.map_some]
  split
  · rename_i hn
    obtain ⟨hb, hsome⟩ := h.updateTrigger hn
    obtain ⟨fts, hfts⟩ := Option.isSome_iff_exists.mp hsome
    simp [Db.fts, hb, hfts, renew, hid, EventRow.settled, EventRow.setDerived, pure, Except.pure]
  · rfl

theorem updateRow_frame {d : DerivedColumns} (h : updateRow build row d db = .ok db') :
    db'.triggers = db.triggers ∧ db'.eventAddresses = db.eventAddresses ∧
      db'.eventsFts.isSome = db.eventsFts.isSome := by
  obtain ⟨t, -, ⟨-, rfl⟩ | ⟨current, -, hdb, hfts⟩⟩ := updateRow_ok h
  · exact ⟨rfl, rfl, rfl⟩
  · exact ⟨by rw [hdb], by rw [hdb], hfts.isSome⟩

theorem recomputeRow_refresh {t : EventsTable} (h : db.Refreshable build)
    (hrow : row.Decodable rt) (ht : db.events = some t) (hhas : t.has row.id = true) :
    recomputeRow rt build row db = .ok (db.refresh rt row) := by
  obtain ⟨a, ha⟩ := Option.isSome_iff_exists.mp h.addresses
  have hrec := recompute_eq_some.mpr ⟨hrow, rfl⟩
  have hready := h.refresh rt row
  have htable : (db.refresh rt row).events = some (t.updateKey row.id
      (fun r => r.setDerived (derivedColumns rt (row.redecoded rt))) (fun _ => rfl)) := by
    simp [Db.refresh, ht]
  have hprep : prepared build { db.refresh rt row with
      eventAddresses := some (a.deleteWhere (fun r => r.eventId = row.id)) } = .ok () :=
    prepared_ok.mpr ⟨⟨_, prepareWrite_ok.mpr ⟨htable, hready.insertTrigger⟩⟩, ⟨_, rfl⟩⟩
  have hfk : ∀ r ∈ addressRows rt.sdk row.id (row.redecoded rt), (t.updateKey row.id
      (fun r => r.setDerived (derivedColumns rt (row.redecoded rt))) (fun _ => rfl)).has r.eventId =
        true := by
    intro r hr
    rw [mem_addressRows_eventId hr]
    exact KeyedTable.has_updateKey.mpr hhas
  have hrows : insertAddressRows (addressRows rt.sdk row.id (row.redecoded rt))
      { db.refresh rt row with
        eventAddresses := some (a.deleteWhere (fun r => r.eventId = row.id)) } = _ :=
    insertAddressRows_total htable rfl hfk
  unfold recomputeRow
  rw [hrec]
  simp only [updateRow_refresh h ht hhas, refreshAddresses, insertAddresses, addressTable, ha, hprep,
    hrows, bind, Except.bind]
  simp [Db.refresh, ha]

/-- What a re-decode of a stored row needs, and what it leaves. -/
theorem recomputeRow_eq_ok {t : EventsTable} (ht : db.events = some t)
    (hhas : t.has row.id = true) : recomputeRow rt build row db = .ok db' ↔
      row.Decodable rt ∧ db.Refreshable build ∧ db' = db.refresh rt row := by
  constructor
  · intro h
    have hrow : row.Decodable rt := by
      obtain ⟨d, event, mid, hrec, -, -⟩ := recomputeRow_ok h
      exact (recompute_eq_some.mp hrec).1
    have hready : db.Refreshable build := by
      obtain ⟨d, event, mid, -, hupd, haddr⟩ := recomputeRow_ok h
      obtain ⟨u, hprep, -⟩ := bind_eq_ok.mp hupd
      obtain ⟨-, hupdate⟩ := prepareWrite_ok.mp hprep
      obtain ⟨a, ha, hins⟩ := bind_eq_ok.mp haddr
      obtain ⟨_, hprepared, -⟩ := bind_eq_ok.mp hins
      obtain ⟨⟨v, hinsert⟩, -⟩ := prepared_ok.mp hprepared
      have hmid : mid.triggers = db.triggers ∧ mid.eventAddresses = db.eventAddresses ∧
          mid.eventsFts.isSome = db.eventsFts.isSome := updateRow_frame hupd
      refine ⟨by simp [ht], ?_, ?_, hupdate⟩
      · rw [← hmid.2.1, addressTable_ok.mp ha]
        rfl
      · intro hn
        rw [← hmid.2.2]
        exact (prepareWrite_ok.mp hinsert).2 (by rwa [← hmid.1] at hn)
    refine ⟨hrow, hready, ?_⟩
    rw [recomputeRow_refresh hready hrow ht hhas] at h
    exact (Except.ok.inj h).symm
  · intro h
    obtain ⟨hrow, hready, rfl⟩ := h
    exact recomputeRow_refresh hready hrow ht hhas

/-! ### A pass over many rows -/

theorem refreshAll_cons (rt : Runtime) (row : EventRow) (rows : List EventRow) (db : Db) :
    db.refreshAll rt (row :: rows) = (db.refresh rt row).refreshAll rt rows := rfl

theorem events_refresh (rt : Runtime) (row : EventRow) {t : EventsTable} (ht : db.events = some t) :
    (db.refresh rt row).events = some (t.updateKey row.id
      (fun r => r.setDerived (derivedColumns rt (row.redecoded rt))) (fun _ => rfl)) := by
  simp [Db.refresh, ht]

theorem recomputeRows_eq_ok {t : EventsTable} (ht : db.events = some t)
    (hhas : ∀ row ∈ rows, t.has row.id = true) : recomputeRows rt build rows db = .ok db' ↔
      (∀ row ∈ rows, row.Decodable rt) ∧ (rows ≠ [] → db.Refreshable build) ∧
        db' = db.refreshAll rt rows := by
  induction rows generalizing db t with
  | nil => simp [recomputeRows, Db.refreshAll, Eq.comm]
  | cons row rows ih =>
    have hrest : ∀ r ∈ rows, (t.updateKey row.id (fun r => r.setDerived
        (derivedColumns rt (row.redecoded rt))) (fun _ => rfl)).has r.id = true := fun r hr =>
      KeyedTable.has_updateKey.mpr (hhas r (List.mem_cons_of_mem row hr))
    have hhead := hhas row List.mem_cons_self
    simp only [recomputeRows, bind_eq_ok, recomputeRow_eq_ok ht hhead, List.forall_mem_cons,
      refreshAll_cons]
    constructor
    · intro h
      obtain ⟨mid, ⟨hrow, hready, rfl⟩, h⟩ := h
      obtain ⟨hrows, -, hdb⟩ := (ih (events_refresh rt row ht) hrest).mp h
      exact ⟨⟨hrow, hrows⟩, fun _ => hready, hdb⟩
    · intro h
      obtain ⟨⟨hrow, hrows⟩, hready, hdb⟩ := h
      have hready := hready (List.cons_ne_nil row rows)
      exact ⟨_, ⟨hrow, hready, rfl⟩, (ih (events_refresh rt row ht) hrest).mpr
        ⟨hrows, fun _ => hready.refresh rt row, hdb⟩⟩

theorem rows_updateKey_settled {t : EventsTable} (hrow : row ∈ t.rows) :
    (t.updateKey row.id (fun r => r.setDerived (derivedColumns rt (row.redecoded rt)))
      (fun _ => rfl)).rows = t.rows.map (fun r => if r.id = row.id then r.settled rt else r) := by
  refine List.map_congr_left ?_
  intro r hr
  by_cases hid : r.id = row.id
  · rw [t.eq_of_key hr hrow hid]
    simp [EventRow.settled]
  · simp [hid]

theorem subset_updateKey (rt : Runtime) {t : EventsTable} (hrow : row ∈ t.rows)
    (hsub : ∀ r ∈ rows, r ∈ t.rows) (hnew : row.id ∉ rows.map EventRow.id) :
    ∀ r ∈ rows, r ∈ (t.updateKey row.id (fun r => r.setDerived
      (derivedColumns rt (row.redecoded rt))) (fun _ => rfl)).rows := by
  intro r hr
  rw [rows_updateKey_settled hrow]
  have hne : r.id ≠ row.id := fun heq => hnew (heq ▸ List.mem_map_of_mem hr)
  exact List.mem_map.mpr ⟨r, hsub r hr, by simp [hne]⟩

theorem events_refreshAll (rt : Runtime) {t : EventsTable} (ht : db.events = some t)
    (hsub : ∀ row ∈ rows, row ∈ t.rows) (hnodup : (rows.map EventRow.id).Nodup) :
    ∃ t', (db.refreshAll rt rows).events = some t' ∧ t'.rows =
      t.rows.map (fun r => if r.id ∈ rows.map EventRow.id then r.settled rt else r) := by
  induction rows generalizing db t with
  | nil => exact ⟨t, ht, by simp⟩
  | cons row rows ih =>
    rw [List.map_cons, List.nodup_cons] at hnodup
    have hrow := hsub row List.mem_cons_self
    have hrest := subset_updateKey rt hrow
      (fun r hr => hsub r (List.mem_cons_of_mem row hr)) hnodup.1
    obtain ⟨t', ht', hrows⟩ := ih (events_refresh rt row ht) hrest hnodup.2
    refine ⟨t', ht', ?_⟩
    rw [hrows, rows_updateKey_settled hrow, List.map_map]
    refine List.map_congr_left ?_
    intro r hr
    by_cases hid : r.id = row.id
    · simp [hid, hnodup.1]
    · simp [hid]

theorem settled_of_whole_pass (rt : Runtime) {t : EventsTable} (ht : db.events = some t) :
    ∃ t', (db.refreshAll rt t.rows).events = some t' ∧
      t'.rows = t.rows.map (EventRow.settled rt) := by
  obtain ⟨t', ht', hrows⟩ := events_refreshAll rt ht (fun _ h => h) t.nodup
  refine ⟨t', ht', ?_⟩
  rw [hrows]
  refine List.map_congr_left ?_
  intro r hr
  rw [if_pos (List.mem_map_of_mem hr)]

def searchNews (rt : Runtime) (row : EventRow) : String × List FtsRow :=
  (row.id, [⟨row.id, (row.settled rt).topicsJson, (row.settled rt).valueJson⟩])

def addressNews (rt : Runtime) (row : EventRow) : String × List AddressRow :=
  (row.id, ((KeyedTable.empty : AddressTable).insertAll
    (addressRows rt.sdk row.id (row.redecoded rt))).rows)

theorem fts_refreshAll (rt : Runtime) (rows : List EventRow) (db : Db) :
    (db.refreshAll rt rows).eventsFts = if .ftsUpdate ∈ db.triggers then
        db.eventsFts.map (renewAll FtsRow.eventId (rows.map (searchNews rt)))
      else db.eventsFts := by
  induction rows generalizing db with
  | nil =>
    have hid : renewAll FtsRow.eventId [] = id := rfl
    simp [Db.refreshAll, hid]
  | cons row rows ih =>
    rw [refreshAll_cons, ih]
    by_cases hn : TriggerName.ftsUpdate ∈ db.triggers
    · simp only [Db.refresh, hn, if_true, Option.map_map, List.map_cons]
      rfl
    · simp [Db.refresh, hn]

theorem addresses_refreshAll (rt : Runtime) (rows : List EventRow) (db : Db) :
    (db.refreshAll rt rows).eventAddresses.map KeyedTable.rows =
      (db.eventAddresses.map KeyedTable.rows).map
        (renewAll AddressRow.eventId (rows.map (addressNews rt))) := by
  induction rows generalizing db with
  | nil =>
    have hid : renewAll AddressRow.eventId [] = id := rfl
    simp [Db.refreshAll, hid]
  | cons row rows ih =>
    rw [refreshAll_cons, ih]
    cases ha : db.eventAddresses with
    | none => simp [Db.refresh, ha]
    | some a =>
      have hone : ((a.deleteWhere (fun r => r.eventId = row.id)).insertAll
          (addressRows rt.sdk row.id (row.redecoded rt))).rows =
            renew AddressRow.eventId row.id (addressNews rt row).2 a.rows :=
        KeyedTable.rows_renewed (fun r hr => mem_addressRows_eventId hr)
          (fun r s h => congrArg AddressRow.eventId h)
      simp only [Db.refresh, ha, Option.map_some, hone, List.map_cons, renewAll_cons]
      rfl

theorem frame_refreshAll (rt : Runtime) (rows : List EventRow) (db : Db) :
    db.SameFrame (db.refreshAll rt rows) := by
  induction rows generalizing db with
  | nil => exact .refl db
  | cons row rows ih =>
    have hone : db.SameFrame (db.refresh rt row) := ⟨rfl, rfl, rfl, rfl, rfl⟩
    exact hone.trans (ih (db.refresh rt row))

/-- A pass does not tell rows from what a pass left of them. -/
theorem refreshAll_settled (rt : Runtime) (rows : List EventRow) (db : Db) :
    db.refreshAll rt (rows.map (EventRow.settled rt)) = db.refreshAll rt rows := by
  induction rows generalizing db with
  | nil => rfl
  | cons row rows ih =>
    have hone : db.refresh rt (row.settled rt) = db.refresh rt row := by
      simp only [Db.refresh, redecoded_settled, settled_settled, settled_id]
      rfl
    rw [List.map_cons, refreshAll_cons, refreshAll_cons, hone, ih]

theorem Db.eq_of_frame {a b : Db} (h : a.SameFrame b) (he : b.events = a.events)
    (ha : b.eventAddresses = a.eventAddresses) (hf : b.eventsFts = a.eventsFts) : b = a := by
  obtain ⟨h1, h2, h3, h4, h5⟩ := h
  cases a
  cases b
  simp_all

theorem owned_searchNews (rt : Runtime) (rows : List EventRow) :
    Owned FtsRow.eventId (rows.map (searchNews rt)) := by
  intro n hn r hr
  obtain ⟨row, -, rfl⟩ := List.mem_map.mp hn
  rw [List.mem_singleton.mp hr]
  rfl

theorem owned_addressNews (rt : Runtime) (rows : List EventRow) :
    Owned AddressRow.eventId (rows.map (addressNews rt)) := by
  intro n hn r hr
  obtain ⟨row, -, rfl⟩ := List.mem_map.mp hn
  rcases KeyedTable.mem_of_mem_insertAll hr with hnone | hr
  · cases hnone
  · exact mem_addressRows_eventId hr

theorem refreshAll_refreshAll {t : EventsTable} (ht : db.events = some t) :
    (db.refreshAll rt t.rows).refreshAll rt t.rows = db.refreshAll rt t.rows := by
  have hnews : ((t.rows.map (searchNews rt)).map Prod.fst).Nodup := by
    simpa [List.map_map, Function.comp_def, searchNews] using t.nodup
  have hnews' : ((t.rows.map (addressNews rt)).map Prod.fst).Nodup := by
    simpa [List.map_map, Function.comp_def, addressNews] using t.nodup
  refine Db.eq_of_frame (frame_refreshAll rt t.rows _) ?_ ?_ ?_
  · obtain ⟨t', ht', hsettled⟩ := settled_of_whole_pass rt ht
    rw [← refreshAll_settled rt t.rows (db.refreshAll rt t.rows), ← hsettled, ht']
    obtain ⟨t'', ht'', hrows''⟩ := events_refreshAll rt ht' (fun _ h => h) t'.nodup
    rw [ht'']
    refine congrArg some (KeyedTable.ext ?_)
    have hsame : t'.rows.map (fun r => if r.id ∈ t'.rows.map EventRow.id then r.settled rt else r) =
        t'.rows.map (fun r => r) := by
      refine List.map_congr_left ?_
      intro r hr
      rw [if_pos (List.mem_map_of_mem hr)]
      rw [hsettled] at hr
      obtain ⟨row, -, rfl⟩ := List.mem_map.mp hr
      exact settled_settled rt row
    rw [hrows'', hsame, List.map_id']
  · refine Option.map_injective (fun _ _ => KeyedTable.ext) ?_
    rw [addresses_refreshAll, addresses_refreshAll, Option.map_map]
    congr 1
    funext xs
    exact renewAll_renewAll hnews' (owned_addressNews rt t.rows) xs
  · rw [fts_refreshAll, fts_refreshAll, (frame_refreshAll rt t.rows db).triggers]
    split
    · simp [Function.comp_def, renewAll_renewAll hnews (owned_searchNews rt t.rows)]
    · rfl

/-! ### The operations -/

/-- A whole re-decode settles every row, or throws and changes nothing. -/
theorem redecode_all_cases (rt : Runtime) (build : SqliteBuild) {t : EventsTable} (ht : db.events = some t) :
    (∃ e, redecode rt build true db = (.error e, db)) ∨
      ((∀ row ∈ t.rows, row.Decodable rt) ∧ (t.rows ≠ [] → db.Refreshable build) ∧
        redecode rt build true db = (.ok t.rows.length, db.refreshAll rt t.rows)) := by
  have hhas : ∀ row ∈ t.rows, t.has row.id = true := fun row hrow => KeyedTable.has_of_mem hrow
  have hrows : t.rows.filter (fun r => true || r.decodeError.isSome) = t.rows := by simp
  unfold redecode
  rw [ht]
  simp only [hrows]
  split
  · rename_i hnil
    exact .inr ⟨by simp [hnil], fun hne => absurd hnil hne, by simp [hnil, Db.refreshAll]⟩
  · split
    · rename_i e _
      exact .inl ⟨e, rfl⟩
    · cases hrec : recomputeRows rt build t.rows db with
      | error e => exact .inl ⟨e, rfl⟩
      | ok fin =>
        obtain ⟨hdecodable, hready, rfl⟩ := (recomputeRows_eq_ok ht hhas).mp hrec
        exact .inr ⟨hdecodable, hready, rfl⟩

theorem redecode_all_ok {t : EventsTable} (ht : db.events = some t)
    (hdecodable : ∀ row ∈ t.rows, row.Decodable rt) (hready : t.rows ≠ [] → db.Refreshable build) :
    redecode rt build true db = (.ok t.rows.length, db.refreshAll rt t.rows) := by
  have hrec : recomputeRows rt build t.rows db = .ok (db.refreshAll rt t.rows) :=
    (recomputeRows_eq_ok ht (fun row hrow => KeyedTable.has_of_mem hrow)).mpr
      ⟨hdecodable, hready, rfl⟩
  have hrows : t.rows.filter (fun r => true || r.decodeError.isSome) = t.rows := by simp
  unfold redecode
  rw [ht]
  simp only [hrows]
  split
  · rename_i hnil
    simp [hnil, Db.refreshAll]
  · rename_i hne
    have hprep : prepareWrite build .ftsUpdate db = .ok t :=
      prepareWrite_ok.mpr ⟨ht, (hready hne).updateTrigger⟩
    simp [hprep, hrec, transaction, Except.map]

theorem Db.Refreshable.refreshAll (h : db.Refreshable build) (rows : List EventRow) :
    (db.refreshAll rt rows).Refreshable build := by
  induction rows generalizing db with
  | nil => exact h
  | cons row rows ih => exact ih (h.refresh rt row)

theorem redecode_redecode (rt : Runtime) (build : SqliteBuild) (db : Db) :
    redecode rt build true (redecode rt build true db).2 = redecode rt build true db := by
  cases ht : db.events with
  | none =>
    have hnone : redecode rt build true db = (.error (.noSuchTable "events"), db) := by
      simp [redecode, ht]
    rw [hnone, hnone]
  | some t =>
    rcases redecode_all_cases rt build ht with ⟨e, he⟩ | ⟨hrows, hready, hok⟩
    · rw [he, he]
    · obtain ⟨t', ht', hsettled⟩ := settled_of_whole_pass rt ht
      have hne : t'.rows ≠ [] → t.rows ≠ [] := by
        intro hne hnil
        simp [hsettled, hnil] at hne
      have hrows' : ∀ row ∈ t'.rows, row.Decodable rt := by
        intro row hrow
        rw [hsettled] at hrow
        obtain ⟨r, hr, rfl⟩ := List.mem_map.mp hrow
        exact decodable_settled (hrows r hr)
      rw [hok, redecode_all_ok ht' hrows' (fun h => (hready (hne h)).refreshAll t.rows), hsettled,
        refreshAll_settled, refreshAll_refreshAll ht, List.length_map]

end Refresh

end SorobanLens
