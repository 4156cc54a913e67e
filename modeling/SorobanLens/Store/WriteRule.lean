import SorobanLens.Store.Rollback

/-!
The rule for properties of the whole file: what each write keeps, every operation that
does not migrate keeps, and what each data definition of a rollback keeps, a rollback
keeps.
-/

set_option autoImplicit false

namespace SorobanLens

structure KeptByWrites (host : Host) (P : Db → Prop) : Prop where
  insertOne : ∀ (e : LensEvent) (n : Nat) (db db' : Db), P db →
    SorobanLens.insertOne host.rt host.build e db = .ok (n, db') → P db'
  deleteEvents : ∀ (p : EventRow → Bool) (db db' : Db), P db →
    SorobanLens.deleteEvents host.build p db = .ok db' → P db'
  recomputeRow : ∀ (row : EventRow) (db db' : Db), P db →
    SorobanLens.recomputeRow host.rt host.build row db = .ok db' → P db'
  rebuild : ∀ (t : EventsTable) (db : Db), P db → db.events = some t → db.eventsFts.isSome = true →
    P { db with eventsFts := some (t.rows.map (fun row => ⟨row.id, row.topicsJson, row.valueJson⟩)) }
  streamState : ∀ (t : Option StreamTable) (db : Db), P db → P { db with streamState := t }
  contractSpecs : ∀ (t : Option SpecTable) (db : Db), P db → P { db with contractSpecs := t }

namespace KeptByWrites

variable {host : Host} {P : Db → Prop} {db : Db}

theorem insertDecoded (h : KeptByWrites host P) (es : List LensEvent) (hp : P db) :
    P (SorobanLens.insertDecoded host.rt host.build es db).2 := by
  cases hres : SorobanLens.insertDecoded host.rt host.build es db with
  | mk r db' =>
    rcases insertDecoded_cases hres with ⟨n, -, hbatch⟩ | ⟨e, -, rfl⟩
    · exact insertBatch_induct h.insertOne hp hbatch
    · exact hp

theorem pruneBefore (h : KeptByWrites host P) (ledger : JsNumber) (hp : P db) :
    P (SorobanLens.pruneBefore host.build ledger db).2 := by
  cases hres : SorobanLens.pruneBefore host.build ledger db with
  | mk r db' =>
    rcases pruneBefore_cases hres with rfl | hdel
    · exact hp
    · exact h.deleteEvents _ _ _ hp hdel

theorem pruneToSize (h : KeptByWrites host P) (disk : Option Disk)
    (targetBytes chunkLedgers : JsNumber) (hp : P db) :
    P (SorobanLens.pruneToSize host.build disk targetBytes chunkLedgers db).2 := by
  cases hres : SorobanLens.pruneToSize host.build disk targetBytes chunkLedgers db with
  | mk r db' => exact pruneToSize_induct h.deleteEvents hp hres

theorem redecode (h : KeptByWrites host P) (all : Bool) (hp : P db) :
    P (SorobanLens.redecode host.rt host.build all db).2 := by
  cases hres : SorobanLens.redecode host.rt host.build all db with
  | mk r db' =>
    rcases redecode_cases hres with rfl | ⟨t, -, hrows⟩
    · exact hp
    · exact recomputeRows_induct h.recomputeRow hp hrows

theorem repairRow (h : KeptByWrites host P) (id : String) (hp : P db) :
    P (SorobanLens.repairRow host.rt host.build id db).2 := by
  cases hres : SorobanLens.repairRow host.rt host.build id db with
  | mk r db' =>
    rcases repairRow_cases hres with rfl | ⟨t, row, -, -, hrow⟩
    · exact hp
    · exact h.recomputeRow _ _ _ hp hrow

theorem rebuildSearchIndex (h : KeptByWrites host P) (hp : P db) :
    P (SorobanLens.rebuildSearchIndex host.build db).2 := by
  cases hres : SorobanLens.rebuildSearchIndex host.build db with
  | mk r db' =>
    rcases rebuildSearchIndex_cases hres with rfl | ⟨t, ht, hsome, rfl⟩
    · exact hp
    · exact h.rebuild t _ hp ht hsome

/-- Every operation but the migrations is made of writes. -/
theorem exec (h : KeptByWrites host P) (op : StoreOp) (hup : op ≠ .migrate)
    (hdown : ∀ v, op ≠ .migrateDown v) (hp : P db) : P (op.exec host db) := by
  cases op with
  | migrate => exact absurd rfl hup
  | migrateDown v => exact absurd rfl (hdown v)
  | insertEvents now events => exact h.insertDecoded _ hp
  | insertDecoded events => exact h.insertDecoded _ hp
  | importSnapshot file =>
    exact Backend.importSnapshot_induct (fun es mid hmid => h.insertDecoded es hmid) file hp
  | saveStreamState state =>
    simp only [StoreOp.exec, SorobanLens.saveStreamState]
    split
    · exact hp
    · exact h.streamState _ _ hp
  | saveContractSpec record =>
    simp only [StoreOp.exec, SorobanLens.saveContractSpec]
    split
    · exact hp
    · exact h.contractSpecs _ _ hp
  | pruneBefore ledger => exact h.pruneBefore ledger hp
  | pruneToSize disk targetBytes chunkLedgers => exact h.pruneToSize disk _ _ hp
  | redecode all => exact h.redecode all hp
  | repairRow id => exact h.repairRow id hp
  | rebuildSearchIndex => exact h.rebuildSearchIndex hp

end KeptByWrites

/-! ### Rolling back -/

theorem execAll_induct {build : SqliteBuild} {P : Db → Prop} {ds : List Ddl}
    (step : ∀ d ∈ ds, ∀ db db', P db → d.exec build db = .ok db' → P db') {db db' : Db}
    (hp : P db) (h : execAll build ds db = .ok db') : P db' := by
  induction ds generalizing db with
  | nil =>
    cases h
    exact hp
  | cons d ds ih =>
    obtain ⟨mid, hmid, h⟩ := bind_eq_ok.mp h
    exact ih (fun d' hd' => step d' (List.mem_cons_of_mem d hd'))
      (step d List.mem_cons_self db mid hp hmid) h

theorem down_drops : ∀ m ∈ MIGRATIONS, ∀ d ∈ m.down.getD [], d.creates = false := by decide

theorem rollbackMigrations_induct {build : SqliteBuild} {P : Db → Prop}
    (drop : ∀ d db db', d.creates = false → P db → Ddl.exec build db d = .ok db' → P db')
    (unrecord : ∀ db t, P db → P { db with schemaMigrations := t })
    {rs : List MigrationRow} {db db' : Db} (hp : P db)
    (h : rollbackMigrations build rs db = .ok db') : P db' := by
  induction rs generalizing db with
  | nil =>
    cases h
    exact hp
  | cons r rs ih =>
    simp only [rollbackMigrations] at h
    split at h
    · rename_i down hdown
      obtain ⟨m, hm, hmdown⟩ := Option.bind_eq_some_iff.mp hdown
      obtain ⟨mid, hmid, h⟩ := bind_eq_ok.mp h
      obtain ⟨fin, hfin, hback⟩ := bind_eq_ok.mp hmid
      cases hback
      refine ih (unrecord _ _ ?_) h
      refine execAll_induct ?_ hp hfin
      intro d hd a b ha hab
      refine drop d a b (down_drops m (List.mem_of_find?_eq_some hm) d ?_) ha hab
      rw [hmdown]
      exact hd
    · cases h

theorem migrateDown_induct {build : SqliteBuild} {P : Db → Prop}
    (drop : ∀ d db db', d.creates = false → P db → Ddl.exec build db d = .ok db' → P db')
    (unrecord : ∀ db t, P db → P { db with schemaMigrations := t }) (toVersion : JsNumber)
    {db : Db} (hp : P db) : P (migrateDown build toVersion db).2 := by
  cases hres : migrateDown build toVersion db with
  | mk r db' =>
    rcases migrateDown_cases hres with rfl | ⟨rs, -, hrs⟩
    · exact hp
    · exact rollbackMigrations_induct drop unrecord hp hrs

/-! ### Tables at a version -/

theorem baseTables_schemaAt : ∀ fts5 : Bool, ∀ version ≤ 6,
    ((schemaAt fts5 version).events.isSome = decide (1 ≤ version)) ∧
      ((schemaAt fts5 version).streamState.isSome = decide (1 ≤ version)) ∧
      ((schemaAt fts5 version).eventAddresses.isSome = decide (4 ≤ version)) := by
  decide +kernel

section AtVersion

variable {db : Db} {fts5 : Bool} {version : Nat}

theorem Db.AtVersion.baseTables (h : db.AtVersion fts5 version) :
    db.events.isSome = decide (1 ≤ version) ∧ db.streamState.isSome = decide (1 ≤ version) ∧
      db.eventAddresses.isSome = decide (4 ≤ version) := by
  have htables := baseTables_schemaAt fts5 version h.1
  rw [← h.2] at htables
  simpa [Db.skeleton, Db.withMigrationsTable] using htables

theorem Db.AtVersion.latest (h : db.AtVersion fts5 version)
    (hcurrent : db.Current) : version = 6 := by
  have hlast : ∃ m ∈ MIGRATIONS, m.version = 6 := by decide
  obtain ⟨m, hm, hversion⟩ := hlast
  have happlied : m.version ∈ db.appliedVersions := by
    simpa using List.filter_eq_nil_iff.mp hcurrent m hm
  rw [h.appliedVersions] at happlied
  obtain ⟨i, hi, heq⟩ := List.mem_map.mp happlied
  have hrange := List.mem_range.mp hi
  have hlow := h.1
  omega

end AtVersion

end SorobanLens
