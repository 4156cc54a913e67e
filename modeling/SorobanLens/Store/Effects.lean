import SorobanLens.Store.Sqlite
import SorobanLens.Lib.Outcome

/-!
What each statement and each operation of the store can do to the database: one
inversion lemma apiece, guards included. Invariants are derived from these alone.
-/

set_option autoImplicit false

namespace SorobanLens

structure Db.SameFrame (db db' : Db) : Prop where
  schemaMigrations : db'.schemaMigrations = db.schemaMigrations
  streamState : db'.streamState = db.streamState
  contractSpecs : db'.contractSpecs = db.contractSpecs
  indexes : db'.indexes = db.indexes
  triggers : db'.triggers = db.triggers

theorem Db.SameFrame.refl (db : Db) : db.SameFrame db := ⟨rfl, rfl, rfl, rfl, rfl⟩

theorem Db.SameFrame.trans {a b c : Db} (h : a.SameFrame b) (g : b.SameFrame c) : a.SameFrame c :=
  ⟨g.1.trans h.1, g.2.trans h.2, g.3.trans h.3, g.4.trans h.4, g.5.trans h.5⟩

/-- A transaction commits what its body returned, or leaves the database alone. -/
theorem transaction_cases {α : Type} {db db' : Db} {body : Except StoreError (α × Db)}
    {r : Except StoreError α} (h : transaction db body = (r, db')) :
    (∃ a, r = .ok a ∧ body = .ok (a, db')) ∨ (∃ e, r = .error e ∧ body = .error e ∧ db' = db) := by
  unfold transaction at h
  split at h
  · obtain ⟨rfl, rfl⟩ := Prod.mk.inj h
    exact .inl ⟨_, rfl, rfl⟩
  · obtain ⟨rfl, rfl⟩ := Prod.mk.inj h
    exact .inr ⟨_, rfl, rfl, rfl⟩

/-! ### Statements -/

theorem fts_ok {build : SqliteBuild} {db : Db} {rows : List FtsRow} :
    db.fts build = .ok rows ↔ build.fts5 = true ∧ db.eventsFts = some rows := by
  unfold Db.fts
  cases build.fts5 <;> cases db.eventsFts <;> simp

theorem prepareWrite_ok {build : SqliteBuild} {trigger : TriggerName} {db : Db} {t : EventsTable} :
    prepareWrite build trigger db = .ok t ↔
      db.events = some t ∧
        (trigger ∈ db.triggers → build.fts5 = true ∧ db.eventsFts.isSome = true) := by
  unfold prepareWrite
  cases he : db.events with
  | none => simp
  | some u =>
    by_cases ht : trigger ∈ db.triggers
    · simp only [ht, if_true, bind_eq_ok, fts_ok, forall_const, Option.some.injEq]
      constructor
      · rintro ⟨rows, ⟨hb, hr⟩, h⟩
        cases h
        exact ⟨rfl, hb, by simp [hr]⟩
      · rintro ⟨rfl, hb, hr⟩
        obtain ⟨rows, hr⟩ := Option.isSome_iff_exists.mp hr
        exact ⟨rows, ⟨hb, hr⟩, rfl⟩
    · simp [ht]

theorem addressTable_ok {db : Db} {t : AddressTable} :
    addressTable db = .ok t ↔ db.eventAddresses = some t := by
  unfold addressTable
  cases db.eventAddresses <;> simp

theorem prepared_ok {build : SqliteBuild} {db : Db} :
    prepared build db = .ok () ↔
      (∃ t, prepareWrite build .ftsInsert db = .ok t) ∧ ∃ a, db.eventAddresses = some a := by
  simp only [prepared, bind_eq_ok, addressTable_ok]
  constructor
  · rintro ⟨t, ht, a, ha, -⟩
    exact ⟨⟨t, ht⟩, a, ha⟩
  · rintro ⟨⟨t, ht⟩, a, ha⟩
    exact ⟨t, ht, a, ha, rfl⟩

/-- The search rows after a trigger has rewritten them with `f`, if it exists. -/
def Db.FtsAfter (build : SqliteBuild) (trigger : TriggerName) (f : List FtsRow → List FtsRow)
    (db db' : Db) : Prop :=
  if trigger ∈ db.triggers then
    build.fts5 = true ∧ ∃ rows, db.eventsFts = some rows ∧ db'.eventsFts = some (f rows)
  else db'.eventsFts = db.eventsFts

theorem fireInsert_ok {build : SqliteBuild} {row : EventRow} {db db' : Db}
    (h : fireInsert build row db = .ok db') :
    db' = { db with eventsFts := db'.eventsFts } ∧
      db.FtsAfter build .ftsInsert (fun rows => rows ++ [⟨row.id, row.topicsJson, row.valueJson⟩]) db' := by
  unfold fireInsert at h
  unfold Db.FtsAfter
  split at h
  · rename_i ht
    obtain ⟨rows, hr, h⟩ := bind_eq_ok.mp h
    cases h
    refine ⟨rfl, ?_⟩
    simp only [ht, if_true]
    exact ⟨(fts_ok.mp hr).1, rows, (fts_ok.mp hr).2, rfl⟩
  · rename_i ht
    cases h
    simp [ht]

theorem fireUpdate_ok {build : SqliteBuild} {row : EventRow} {db db' : Db}
    (h : fireUpdate build row db = .ok db') :
    db' = { db with eventsFts := db'.eventsFts } ∧
      db.FtsAfter build .ftsUpdate (fun rows => rows.filter (fun f => f.eventId ≠ row.id) ++
        [⟨row.id, row.topicsJson, row.valueJson⟩]) db' := by
  unfold fireUpdate at h
  unfold Db.FtsAfter
  split at h
  · rename_i ht
    obtain ⟨rows, hr, h⟩ := bind_eq_ok.mp h
    cases h
    refine ⟨rfl, ?_⟩
    simp only [ht, if_true]
    exact ⟨(fts_ok.mp hr).1, rows, (fts_ok.mp hr).2, rfl⟩
  · rename_i ht
    cases h
    simp [ht]

theorem fireDelete_ok {build : SqliteBuild} {ids : List String} {db db' : Db}
    (h : fireDelete build ids db = .ok db') :
    db' = { db with eventsFts := db'.eventsFts } ∧
      db.FtsAfter build .ftsDelete (fun rows => rows.filter (fun f => f.eventId ∉ ids)) db' := by
  unfold fireDelete at h
  unfold Db.FtsAfter
  split at h
  · rename_i ht
    obtain ⟨rows, hr, h⟩ := bind_eq_ok.mp h
    cases h
    refine ⟨rfl, ?_⟩
    simp only [ht, if_true]
    exact ⟨(fts_ok.mp hr).1, rows, (fts_ok.mp hr).2, rfl⟩
  · rename_i ht
    cases h
    simp [ht]

/-! ### Inserting -/

theorem insertAddress_ok {row : AddressRow} {db db' : Db} {a : AddressTable}
    (ha : db.eventAddresses = some a) (h : insertAddress row db = .ok db') :
    db' = { db with eventAddresses := some (a.insertOrIgnore row) } := by
  unfold insertAddress at h
  obtain ⟨t, ht, h⟩ := bind_eq_ok.mp h
  rw [addressTable_ok, ha, Option.some.injEq] at ht
  subst ht
  split at h
  · rename_i hrow
    cases h
    rw [KeyedTable.insertOrIgnore_of_has hrow, ← ha]
  · split at h
    · cases h
    · split at h
      · cases h
        rfl
      · cases h

theorem insertAddressRows_ok {rs : List AddressRow} {db db' : Db} {a : AddressTable}
    (ha : db.eventAddresses = some a) (h : insertAddressRows rs db = .ok db') :
    db' = { db with eventAddresses := some (a.insertAll rs) } := by
  induction rs generalizing db a with
  | nil =>
    cases h
    rw [KeyedTable.insertAll_nil, ← ha]
  | cons r rs ih =>
    obtain ⟨mid, hm, h⟩ := bind_eq_ok.mp h
    have hmid := insertAddress_ok ha hm
    have hrest := ih (by rw [hmid]) h
    rw [hrest, hmid, KeyedTable.insertAll_cons]

theorem mem_addressRows_eventId {sdk : Sdk} {id : String} {e : LensEvent} {r : AddressRow}
    (h : r ∈ addressRows sdk id e) : r.eventId = id := by
  simp only [addressRows, List.mem_append, List.mem_flatMap, List.mem_map] at h
  rcases h with ⟨t, -, a, -, rfl⟩ | ⟨a, -, rfl⟩ <;> rfl

theorem insertAddresses_ok {rt : Runtime} {build : SqliteBuild} {id : String} {e : LensEvent}
    {db db' : Db} (h : insertAddresses rt build id e db = .ok db') :
    ∃ a, db.eventAddresses = some a ∧
      db' = { db with eventAddresses := some (a.insertAll (addressRows rt.sdk id e)) } := by
  obtain ⟨_, hp, h⟩ := bind_eq_ok.mp h
  obtain ⟨-, a, ha⟩ := prepared_ok.mp hp
  exact ⟨a, ha, insertAddressRows_ok ha h⟩

structure Db.Inserted (rt : Runtime) (build : SqliteBuild) (e : LensEvent) (t : EventsTable)
    (db db' : Db) : Prop where
  frame : db.SameFrame db'
  events : db'.events = some (t.insertOrIgnore (insertParams rt e))
  addresses : ∃ a, db.eventAddresses = some a ∧
    db'.eventAddresses = some (a.insertAll (addressRows rt.sdk e.id e))
  fts : db.FtsAfter build .ftsInsert (fun rows => rows ++
    [⟨e.id, (insertParams rt e).topicsJson, (insertParams rt e).valueJson⟩]) db'

theorem insertRow_ok {build : SqliteBuild} {row : EventRow} {db db' : Db} {added : Bool}
    (h : insertRow build row db = .ok (added, db')) :
    ∃ t, db.events = some t ∧
      ((added = false ∧ db' = db ∧ (row.type.admitted = false ∨ t.has row.id = true)) ∨
        (added = true ∧ row.type.admitted = true ∧ t.has row.id = false ∧
          db' = { db with events := some (t.insertOrIgnore row), eventsFts := db'.eventsFts } ∧
          db.FtsAfter build .ftsInsert
            (fun rows => rows ++ [⟨row.id, row.topicsJson, row.valueJson⟩]) db')) := by
  obtain ⟨t, ht, h⟩ := bind_eq_ok.mp h
  refine ⟨t, (prepareWrite_ok.mp ht).1, ?_⟩
  split at h
  · rename_i htype
    cases h
    exact .inl ⟨rfl, rfl, .inl htype⟩
  · split at h
    · rename_i hid
      cases h
      exact .inl ⟨rfl, rfl, .inr hid⟩
    · rename_i htype hid
      obtain ⟨mid, hfire, h⟩ := bind_eq_ok.mp h
      cases h
      obtain ⟨hdb, hfts⟩ := fireInsert_ok hfire
      exact .inr ⟨rfl, by simpa using htype, by simpa using hid, hdb, hfts⟩

theorem insertOne_ok {rt : Runtime} {build : SqliteBuild} {e : LensEvent} {db db' : Db} {n : Nat}
    (h : insertOne rt build e db = .ok (n, db')) :
    ∃ t, db.events = some t ∧
      ((n = 0 ∧ db' = db ∧ (e.type.admitted = false ∨ t.has e.id = true)) ∨
        (n = 1 ∧ e.type.admitted = true ∧ t.has e.id = false ∧ db.Inserted rt build e t db')) := by
  obtain ⟨⟨added, mid⟩, hrow, hrest⟩ := bind_eq_ok.mp h
  obtain ⟨t, ht, ⟨rfl, rfl, hskip⟩ | ⟨rfl, htype, hid, hmid, hfts⟩⟩ := insertRow_ok hrow
  · cases hrest
    exact ⟨t, ht, .inl ⟨rfl, rfl, hskip⟩⟩
  · obtain ⟨fin, haddr, hfin⟩ := bind_eq_ok.mp hrest
    cases hfin
    obtain ⟨a, ha, hfin⟩ := insertAddresses_ok haddr
    rw [hmid] at ha hfin
    refine ⟨t, ht, .inr ⟨rfl, htype, hid, ⟨?_, ?_, ⟨a, ha, ?_⟩, ?_⟩⟩⟩
    · rw [hfin]
      exact ⟨rfl, rfl, rfl, rfl, rfl⟩
    · rw [hfin]
    · rw [hfin]
    · unfold Db.FtsAfter at hfts ⊢
      rw [hfin]
      exact hfts

/-- A relation that one event of a batch respects, a whole batch respects. -/
theorem insertBatch_induct {rt : Runtime} {build : SqliteBuild} {P : Db → Prop}
    (step : ∀ e n db db', P db → insertOne rt build e db = .ok (n, db') → P db')
    {es : List LensEvent} {n : Nat} {db db' : Db} (hp : P db)
    (h : insertBatch rt build es db = .ok (n, db')) : P db' := by
  induction es generalizing db n with
  | nil =>
    cases h
    exact hp
  | cons e es ih =>
    obtain ⟨⟨m, mid⟩, hm, h⟩ := bind_eq_ok.mp h
    obtain ⟨⟨k, fin⟩, hk, h⟩ := bind_eq_ok.mp h
    cases h
    exact ih (step e m db mid hp hm) hk

/-- An insert commits its whole batch, or throws and changes nothing. -/
theorem insertDecoded_cases {rt : Runtime} {build : SqliteBuild} {es : List LensEvent} {db db' : Db}
    {r : Except StoreError Nat} (h : insertDecoded rt build es db = (r, db')) :
    (∃ n, r = .ok n ∧ insertBatch rt build es db = .ok (n, db')) ∨ (∃ e, r = .error e ∧ db' = db) := by
  unfold insertDecoded at h
  split at h
  · rename_i hes
    subst hes
    obtain ⟨rfl, rfl⟩ := Prod.mk.inj h
    exact .inl ⟨0, rfl, rfl⟩
  · split at h
    · obtain ⟨rfl, rfl⟩ := Prod.mk.inj h
      exact .inr ⟨_, rfl, rfl⟩
    · rcases transaction_cases h with ⟨n, hr, hb⟩ | ⟨e, hr, -, hdb⟩
      · exact .inl ⟨n, hr, hb⟩
      · exact .inr ⟨e, hr, hdb⟩

/-! ### Which events are stored -/

def Db.hasEvent (db : Db) (id : String) : Prop := ∃ t, db.events = some t ∧ t.has id = true

def Db.hasOneRow (db : Db) (id : String) : Prop :=
  ∃ t, db.events = some t ∧ (t.rows.filter (fun r => decide (r.id = id))).length = 1

theorem Db.hasEvent.hasOneRow {db : Db} {id : String} (h : db.hasEvent id) : db.hasOneRow id := by
  obtain ⟨t, ht, hid⟩ := h
  exact ⟨t, ht, KeyedTable.count_key hid⟩

theorem Db.hasEvent.congr {db db' : Db} {id : String} (he : db'.events = db.events)
    (h : db.hasEvent id) : db'.hasEvent id := by
  obtain ⟨t, ht, hid⟩ := h
  exact ⟨t, he.trans ht, hid⟩

theorem hasEvent_insertOne {rt : Runtime} {build : SqliteBuild} {e : LensEvent} {db db' : Db}
    {n : Nat} (h : insertOne rt build e db = .ok (n, db')) {id : String} :
    db'.hasEvent id ↔ db.hasEvent id ∨ (e.type.admitted = true ∧ e.id = id) := by
  obtain ⟨t, ht, ⟨-, rfl, hskip⟩ | ⟨-, htype, hid, hins⟩⟩ := insertOne_ok h
  · constructor
    · exact .inl
    · intro hcase
      rcases hcase with hcase | ⟨htype, rfl⟩
      · exact hcase
      · rcases hskip with hbad | hid
        · rw [htype] at hbad
          cases hbad
        · exact ⟨t, ht, hid⟩
  · have hrows : (t.insertOrIgnore (insertParams rt e)).rows = t.rows ++ [insertParams rt e] :=
      KeyedTable.rows_insertOrIgnore_of_not_has hid
    simp only [Db.hasEvent, hins.events, ht, Option.some.injEq, exists_eq_left', KeyedTable.has,
      hrows, List.any_append, Bool.or_eq_true, htype, true_and]
    refine or_congr_right ?_
    simp only [List.any_cons, List.any_nil, Bool.or_false, decide_eq_true_eq]
    exact Iff.rfl

theorem hasEvent_insertBatch {rt : Runtime} {build : SqliteBuild} {es : List LensEvent} {db db' : Db}
    {n : Nat} (h : insertBatch rt build es db = .ok (n, db')) {id : String} :
    db'.hasEvent id ↔ db.hasEvent id ∨ ∃ e ∈ es, e.type.admitted = true ∧ e.id = id := by
  induction es generalizing db n with
  | nil =>
    cases h
    simp
  | cons e es ih =>
    obtain ⟨⟨m, mid⟩, hm, h⟩ := bind_eq_ok.mp h
    obtain ⟨⟨k, fin⟩, hk, h⟩ := bind_eq_ok.mp h
    cases h
    rw [ih hk, hasEvent_insertOne hm]
    simp [or_assoc]

theorem sameFrame_insertBatch {rt : Runtime} {build : SqliteBuild} {es : List LensEvent}
    {db db' : Db} {n : Nat} (h : insertBatch rt build es db = .ok (n, db')) : db.SameFrame db' := by
  refine insertBatch_induct (P := fun d => db.SameFrame d) ?_ (Db.SameFrame.refl db) h
  intro e m mid mid' hp hstep
  obtain ⟨t, -, ⟨-, rfl, -⟩ | ⟨-, -, -, hins⟩⟩ := insertOne_ok hstep
  · exact hp
  · exact hp.trans hins.frame

theorem hasEvent_insertEvents {rt : Runtime} {build : SqliteBuild} {now : Nat → String}
    {events : List RawEvent} {db db' : Db} {n : Nat}
    (h : insertEvents rt build now events db = (.ok n, db')) {id : String} :
    db'.hasEvent id ↔ db.hasEvent id ∨ ∃ e ∈ events, e.type.admitted = true ∧ e.id = id := by
  obtain ⟨m, -, hb⟩ | ⟨err, herr, -⟩ := insertDecoded_cases h
  · rw [hasEvent_insertBatch hb]
    refine or_congr_right ?_
    constructor
    · intro hd
      obtain ⟨d, hd, htype, rfl⟩ := hd
      obtain ⟨i, hi, rfl⟩ := List.mem_mapIdx.mp hd
      exact ⟨events[i], List.getElem_mem hi, htype, rfl⟩
    · intro he
      obtain ⟨e, he, htype, rfl⟩ := he
      obtain ⟨i, hi, rfl⟩ := List.getElem_of_mem he
      exact ⟨_, List.mem_mapIdx.mpr ⟨i, hi, rfl⟩, htype, rfl⟩
  · cases herr

/-- Inserting raw events only adds rows, and on success has them all. -/
theorem insertEvents_spec {rt : Runtime} {build : SqliteBuild} {now : Nat → String}
    {events : List RawEvent} {db db' : Db} {r : Except StoreError Nat}
    (h : insertEvents rt build now events db = (r, db')) :
    (∀ id, db.hasEvent id → db'.hasEvent id) ∧ db'.streamState = db.streamState ∧
      (∀ n, r = .ok n → ∀ e ∈ events, e.type.admitted = true → db'.hasEvent e.id) := by
  rcases insertDecoded_cases h with ⟨n, rfl, hb⟩ | ⟨err, rfl, rfl⟩
  · refine ⟨?_, (sameFrame_insertBatch hb).streamState, ?_⟩
    · intro id hid
      exact (hasEvent_insertEvents h).mpr (.inl hid)
    · intro _ _ e he htype
      exact (hasEvent_insertEvents h).mpr (.inr ⟨e, he, htype, rfl⟩)
  · refine ⟨fun id hid => hid, rfl, ?_⟩
    intro n hn
    cases hn

/-! ### Deleting -/

structure Db.Deleted (build : SqliteBuild) (p : EventRow → Bool) (t : EventsTable)
    (db db' : Db) : Prop where
  frame : db.SameFrame db'
  events : db'.events = some (t.deleteWhere p)
  addresses : db'.eventAddresses = db.eventAddresses.map
    (fun a => a.deleteWhere (fun r => r.eventId ∈ (t.rows.filter p).map EventRow.id))
  fts : db.FtsAfter build .ftsDelete
    (fun rows => rows.filter (fun f => f.eventId ∉ (t.rows.filter p).map EventRow.id)) db'

theorem deleteEvents_ok {build : SqliteBuild} {p : EventRow → Bool} {db db' : Db}
    (h : deleteEvents build p db = .ok db') :
    ∃ t, db.events = some t ∧ db.Deleted build p t db' := by
  obtain ⟨t, ht, h⟩ := bind_eq_ok.mp h
  obtain ⟨hdb, hfts⟩ := fireDelete_ok h
  refine ⟨t, (prepareWrite_ok.mp ht).1, ?_, ?_, ?_, hfts⟩
  · rw [hdb]
    exact ⟨rfl, rfl, rfl, rfl, rfl⟩
  · rw [hdb]
  · rw [hdb]

/-- A prune deletes everything below its ledger, or changes nothing. -/
theorem pruneBefore_cases {build : SqliteBuild} {ledger : JsNumber} {db db' : Db}
    {r : Except StoreError Nat} (h : pruneBefore build ledger db = (r, db')) :
    db' = db ∨ deleteEvents build (below ledger) db = .ok db' := by
  unfold pruneBefore at h
  split at h
  · obtain ⟨-, rfl⟩ := Prod.mk.inj h
    exact .inl rfl
  · simp only at h
    split at h
    · obtain ⟨-, rfl⟩ := Prod.mk.inj h
      exact .inl rfl
    · rcases transaction_cases h with ⟨n, -, hb⟩ | ⟨e, -, -, hdb⟩
      · obtain ⟨fin, hf, heq⟩ := map_eq_ok.mp hb
        cases heq
        exact .inr hf
      · exact .inl hdb

/-! ### Stream state -/

theorem saveStreamState_ok {state : StreamState} {db db' : Db}
    (h : saveStreamState state db = (.ok (), db')) :
    db'.events = db.events ∧ loadStreamState state.key db' = .ok (some state) := by
  unfold saveStreamState at h
  split at h
  · cases h
  · obtain ⟨-, rfl⟩ := Prod.mk.inj h
    refine ⟨rfl, ?_⟩
    simp [loadStreamState, KeyedTable.find?_upsert_self]

theorem loadStreamState_congr {key : String} {db db' : Db} (h : db'.streamState = db.streamState) :
    loadStreamState key db' = loadStreamState key db := by
  simp [loadStreamState, h]

/-! ### Migrating forward -/

def Kept {α : Type} (fresh : α) (old new : Option α) : Prop :=
  new = old ∨ (old = none ∧ new = some fresh)

theorem Kept.trans {α : Type} {fresh : α} {a b c : Option α} (h : Kept fresh a b)
    (g : Kept fresh b c) : Kept fresh a c := by
  rcases h with rfl | ⟨rfl, rfl⟩
  · exact g
  · rcases g with rfl | ⟨hb, -⟩
    · exact .inr ⟨rfl, rfl⟩
    · cases hb

theorem Kept.some {α : Type} {fresh t : α} {new : Option α} (h : Kept fresh (some t) new) :
    new = some t := by
  rcases h with h | ⟨h, -⟩
  · exact h
  · cases h

structure Db.Keeps (db db' : Db) : Prop where
  events : Kept .empty db.events db'.events
  streamState : Kept .empty db.streamState db'.streamState
  eventAddresses : Kept .empty db.eventAddresses db'.eventAddresses
  eventsFts : Kept [] db.eventsFts db'.eventsFts
  contractSpecs : Kept .empty db.contractSpecs db'.contractSpecs

theorem Db.Keeps.refl (db : Db) : db.Keeps db := ⟨.inl rfl, .inl rfl, .inl rfl, .inl rfl, .inl rfl⟩

theorem Db.Keeps.trans {a b c : Db} (h : a.Keeps b) (g : b.Keeps c) : a.Keeps c :=
  ⟨h.1.trans g.1, h.2.trans g.2, h.3.trans g.3, h.4.trans g.4, h.5.trans g.5⟩

def Ddl.creates : Ddl → Bool
  | .createTable _ | .createIndex _ _ | .createTrigger _ => true
  | .dropTableIfExists _ | .dropIndexIfExists _ | .dropTriggerIfExists _ => false

theorem keeps_exec {build : SqliteBuild} {d : Ddl} {db db' : Db} (hd : d.creates = true)
    (h : d.exec build db = .ok db') : db.Keeps db' := by
  cases d with
  | createTable t =>
    simp only [Ddl.exec] at h
    split at h
    · cases h
    · split at h
      · cases h
      · rename_i hno
        cases h
        have hnone : db.hasTable t = false := by simpa using hno
        cases t <;> simp only [Db.hasTable, Option.isSome_eq_false_iff,
          Option.isNone_iff_eq_none] at hnone
        · exact ⟨.inr ⟨hnone, rfl⟩, .inl rfl, .inl rfl, .inl rfl, .inl rfl⟩
        · exact ⟨.inl rfl, .inr ⟨hnone, rfl⟩, .inl rfl, .inl rfl, .inl rfl⟩
        · exact ⟨.inl rfl, .inl rfl, .inr ⟨hnone, rfl⟩, .inl rfl, .inl rfl⟩
        · exact ⟨.inl rfl, .inl rfl, .inl rfl, .inr ⟨hnone, rfl⟩, .inl rfl⟩
        · exact ⟨.inl rfl, .inl rfl, .inl rfl, .inl rfl, .inr ⟨hnone, rfl⟩⟩
  | createIndex name t =>
    simp only [Ddl.exec] at h
    split at h
    · cases h
    · split at h
      · cases h
      · cases h
        exact ⟨.inl rfl, .inl rfl, .inl rfl, .inl rfl, .inl rfl⟩
  | createTrigger name =>
    simp only [Ddl.exec] at h
    split at h
    · cases h
    · split at h
      · cases h
      · cases h
        exact ⟨.inl rfl, .inl rfl, .inl rfl, .inl rfl, .inl rfl⟩
  | dropTableIfExists t => exact absurd hd (by simp [Ddl.creates])
  | dropIndexIfExists name => exact absurd hd (by simp [Ddl.creates])
  | dropTriggerIfExists name => exact absurd hd (by simp [Ddl.creates])

theorem keeps_execAll {build : SqliteBuild} {ds : List Ddl} {db db' : Db}
    (hd : ∀ d ∈ ds, d.creates = true) (h : execAll build ds db = .ok db') : db.Keeps db' := by
  induction ds generalizing db with
  | nil =>
    cases h
    exact .refl _
  | cons d ds ih =>
    obtain ⟨mid, hm, h⟩ := bind_eq_ok.mp h
    exact (keeps_exec (hd d List.mem_cons_self) hm).trans
      (ih (fun d' hd' => hd d' (List.mem_cons_of_mem d hd')) h)

theorem up_creates : ∀ m ∈ MIGRATIONS, ∀ d ∈ m.up, d.creates = true := by decide

theorem keeps_record (db : Db) (m : Migration) : db.Keeps (db.record m) :=
  ⟨.inl rfl, .inl rfl, .inl rfl, .inl rfl, .inl rfl⟩

theorem keeps_applyMigration {build : SqliteBuild} {m : Migration} {db db' : Db}
    (hm : m ∈ MIGRATIONS) (h : applyMigration build m db = .ok db') : db.Keeps db' := by
  obtain ⟨mid, hmid, rfl⟩ := map_eq_ok.mp h
  refine Db.Keeps.trans ?_ (keeps_record mid m)
  unfold runUp at hmid
  split at hmid
  · cases hmid
    exact .refl db
  · exact keeps_execAll (up_creates m hm) hmid

theorem keeps_applyMigrations {build : SqliteBuild} {ms : List Migration} {db db' : Db}
    (hms : ∀ m ∈ ms, m ∈ MIGRATIONS) (h : applyMigrations build ms db = .ok db') :
    db.Keeps db' := by
  induction ms generalizing db with
  | nil =>
    cases h
    exact .refl _
  | cons m ms ih =>
    obtain ⟨mid, hm, h⟩ := bind_eq_ok.mp h
    exact (keeps_applyMigration (hms m List.mem_cons_self) hm).trans
      (ih (fun m' hm' => hms m' (List.mem_cons_of_mem m hm')) h)

theorem migrateSync_cases {build : SqliteBuild} {db db' : Db} {r : Except StoreError Unit}
    (h : migrateSync build db = (r, db')) :
    (r = .ok () ∧ applyMigrations build (pendingMigrations db.withMigrationsTable)
        db.withMigrationsTable = .ok db') ∨
      (∃ e, r = .error e ∧ db' = db.withMigrationsTable) := by
  unfold migrateSync at h
  simp only at h
  split at h
  · rename_i hp
    obtain ⟨rfl, rfl⟩ := Prod.mk.inj h
    rw [hp]
    exact .inl ⟨rfl, rfl⟩
  · rcases transaction_cases h with ⟨a, rfl, hb⟩ | ⟨e, rfl, -, rfl⟩
    · obtain ⟨fin, hf, heq⟩ := map_eq_ok.mp hb
      cases heq
      exact .inl ⟨rfl, hf⟩
    · exact .inr ⟨e, rfl, rfl⟩

theorem keeps_migrateSync {build : SqliteBuild} {db db' : Db} {r : Except StoreError Unit}
    (h : migrateSync build db = (r, db')) : db.Keeps db' := by
  have hw : db.Keeps db.withMigrationsTable := ⟨.inl rfl, .inl rfl, .inl rfl, .inl rfl, .inl rfl⟩
  rcases migrateSync_cases h with ⟨-, ha⟩ | ⟨e, -, rfl⟩
  · exact hw.trans (keeps_applyMigrations (fun m hm => List.mem_of_mem_filter hm) ha)
  · exact hw

theorem Db.Keeps.hasEvent {db db' : Db} (h : db.Keeps db') {id : String} (hid : db.hasEvent id) :
    db'.hasEvent id := by
  obtain ⟨t, ht, hk⟩ := hid
  have he := h.events
  rw [ht] at he
  exact ⟨t, he.some, hk⟩

theorem Db.Keeps.loadStreamState {db db' : Db} (h : db.Keeps db') {key : String}
    {st : StreamState} (hst : SorobanLens.loadStreamState key db' = .ok (some st)) :
    SorobanLens.loadStreamState key db = .ok (some st) := by
  rcases h.streamState with he | ⟨-, he⟩
  · rwa [loadStreamState_congr he] at hst
  · simp [SorobanLens.loadStreamState, he, KeyedTable.find?] at hst

end SorobanLens
