import SorobanLens.Store.Operations

/-!
Migrating down and up again. Data definition looks at the schema alone, so its
runs are followed on the database without its rows.
-/

set_option autoImplicit false

namespace SorobanLens

deriving instance DecidableEq for Db

/-- The database without its rows; which migrations are recorded is schema. -/
def Db.skeleton (db : Db) : Db :=
  { db with
    events := db.events.map (fun _ => .empty)
    streamState := db.streamState.map (fun _ => .empty)
    eventAddresses := db.eventAddresses.map (fun _ => .empty)
    eventsFts := db.eventsFts.map (fun _ => [])
    contractSpecs := db.contractSpecs.map (fun _ => .empty) }

section Skeleton

variable {build : SqliteBuild}

theorem hasTable_skeleton (db : Db) (t : TableName) : db.skeleton.hasTable t = db.hasTable t := by
  cases t <;> simp [Db.skeleton, Db.hasTable]

theorem skeleton_putEmpty (db : Db) (t : TableName) :
    (db.putEmpty t).skeleton = db.skeleton.putEmpty t := by
  cases t <;> rfl

theorem skeleton_removeTable (db : Db) (t : TableName) :
    (db.removeTable t).skeleton = db.skeleton.removeTable t := by
  cases t <;> simp [Db.skeleton, Db.removeTable, Function.comp_def]

/-- A data definition does the same to a database with rows as to one without. -/
theorem skeleton_exec (build : SqliteBuild) (db : Db) (d : Ddl) :
    (d.exec build db).map Db.skeleton = d.exec build db.skeleton := by
  cases d with
  | createTable t =>
    simp only [Ddl.exec, hasTable_skeleton]
    split
    · rfl
    · split
      · rfl
      · simp only [Except.map, skeleton_putEmpty]
  | createIndex name t =>
    simp only [Ddl.exec, hasTable_skeleton]
    split
    · rfl
    · change Except.map Db.skeleton (if name ∈ db.indexes.map Prod.fst then _ else _) =
        if name ∈ db.indexes.map Prod.fst then _ else _
      split
      · rfl
      · rfl
  | createTrigger name =>
    have hevents : db.skeleton.events = none ↔ db.events = none := by simp [Db.skeleton]
    simp only [Ddl.exec, hevents]
    split
    · rfl
    · change Except.map Db.skeleton (if name ∈ db.triggers then _ else _) =
        if name ∈ db.triggers then _ else _
      split
      · rfl
      · rfl
  | dropTableIfExists t =>
    simp only [Ddl.exec, hasTable_skeleton]
    split
    · rfl
    · split
      · rfl
      · simp only [Except.map, Except.ok.injEq]
        rw [← skeleton_removeTable]
        rfl
  | dropIndexIfExists name => rfl
  | dropTriggerIfExists name => rfl

theorem skeleton_execAll (build : SqliteBuild) (ds : List Ddl) (db : Db) :
    (execAll build ds db).map Db.skeleton = execAll build ds db.skeleton := by
  induction ds generalizing db with
  | nil => rfl
  | cons d ds ih =>
    have hd := skeleton_exec build db d
    simp only [execAll]
    rw [← hd]
    cases d.exec build db with
    | error e => rfl
    | ok mid => exact ih mid

theorem skeleton_applyMigration (build : SqliteBuild) (m : Migration) (db : Db) :
    (applyMigration build m db).map Db.skeleton = applyMigration build m db.skeleton := by
  have hup : (runUp build m db).map Db.skeleton = runUp build m db.skeleton := by
    unfold runUp
    split
    · rfl
    · exact skeleton_execAll build m.up db
  unfold applyMigration
  rw [← hup]
  cases runUp build m db <;> rfl

theorem skeleton_applyMigrations (build : SqliteBuild) (ms : List Migration) (db : Db) :
    (applyMigrations build ms db).map Db.skeleton = applyMigrations build ms db.skeleton := by
  induction ms generalizing db with
  | nil => rfl
  | cons m ms ih =>
    have hm := skeleton_applyMigration build m db
    simp only [applyMigrations]
    rw [← hm]
    cases applyMigration build m db with
    | error e => rfl
    | ok mid => exact ih mid

theorem skeleton_transaction {α : Type} (db : Db) (a : α) (body : Except StoreError Db) :
    (transaction db (body.map (fun db => (a, db)))).map id Db.skeleton =
      transaction db.skeleton ((body.map Db.skeleton).map (fun db => (a, db))) := by
  cases body <;> rfl

theorem skeleton_withMigrationsTable (db : Db) :
    db.withMigrationsTable.skeleton = db.skeleton.withMigrationsTable := rfl

/-- The runner sees nothing of the rows. -/
theorem skeleton_migrateSync (build : SqliteBuild) (db : Db) :
    (migrateSync build db).map id Db.skeleton = migrateSync build db.skeleton := by
  have hpending : pendingMigrations db.skeleton.withMigrationsTable =
      pendingMigrations db.withMigrationsTable := rfl
  unfold migrateSync
  simp only [hpending]
  split
  · rfl
  · rw [skeleton_transaction, skeleton_applyMigrations, skeleton_withMigrationsTable]

theorem skeleton_rollbackMigrations (build : SqliteBuild) (rs : List MigrationRow) (db : Db) :
    (rollbackMigrations build rs db).map Db.skeleton = rollbackMigrations build rs db.skeleton := by
  induction rs generalizing db with
  | nil => rfl
  | cons r rs ih =>
    simp only [rollbackMigrations]
    cases (migrationByVersion r.version).bind Migration.down with
    | none => rfl
    | some down =>
      have hd := skeleton_execAll build down db
      simp only [rollbackMigration]
      rw [← hd]
      cases execAll build down db with
      | error e => rfl
      | ok mid => exact ih _

theorem skeleton_migrateDown (build : SqliteBuild) (toVersion : JsNumber) (db : Db) :
    (migrateDown build toVersion db).map id Db.skeleton =
      migrateDown build toVersion db.skeleton := by
  have hsame : db.skeleton.schemaMigrations = db.schemaMigrations := rfl
  unfold migrateDown
  rw [hsame]
  cases db.schemaMigrations with
  | none => rfl
  | some t =>
    simp only
    split
    · rfl
    · split
      · rfl
      · rw [skeleton_transaction, skeleton_rollbackMigrations]

/-! ### The schema at a version -/

/-- The database file whose first migrations were just applied, by a build with or
without the search extension. -/
def schemaAt (fts5 : Bool) (version : Nat) : Db :=
  match applyMigrations ⟨fts5⟩ (MIGRATIONS.take version) Db.new.withMigrationsTable with
  | .ok db => db
  | .error _ => Db.new

theorem migrateSync_schemaAt : ∀ fts5 fts5' : Bool, ∀ version ≤ 6,
    migrateSync ⟨fts5'⟩ (schemaAt fts5 version) =
      (.ok (), schemaAt (if version < 5 then fts5' else fts5) 6) := by
  decide +kernel

theorem migrateDown_schemaAt : ∀ fts5 fts5' : Bool, ∀ version ≤ 6, ∀ n ≤ 6,
    (migrateDown ⟨fts5'⟩ (.ofNat n) (schemaAt fts5 version)).map Except.isOk id =
      (if n < 5 ∧ 5 ≤ version ∧ fts5 = true ∧ fts5' = false then (false, schemaAt fts5 version)
        else (true, schemaAt fts5 (min version n))) := by
  decide +kernel

end Skeleton

/-! ### Operations on rows -/

section Rows

variable {rt : Runtime} {build : SqliteBuild} {db db' : Db}

theorem map_const_congr {α β : Type} {a b : Option α} (c : β) (h : b.isSome = a.isSome) :
    b.map (fun _ => c) = a.map (fun _ => c) := by
  cases a <;> cases b <;> simp at h ⊢

theorem skeleton_congr (hmigrations : db'.schemaMigrations = db.schemaMigrations)
    (hevents : db'.events.isSome = db.events.isSome)
    (hstream : db'.streamState.isSome = db.streamState.isSome)
    (haddresses : db'.eventAddresses.isSome = db.eventAddresses.isSome)
    (hfts : db'.eventsFts.isSome = db.eventsFts.isSome)
    (hspecs : db'.contractSpecs.isSome = db.contractSpecs.isSome)
    (hindexes : db'.indexes = db.indexes) (htriggers : db'.triggers = db.triggers) :
    db'.skeleton = db.skeleton := by
  simp only [Db.skeleton, hmigrations, map_const_congr _ hevents, map_const_congr _ hstream,
    map_const_congr _ haddresses, map_const_congr _ hfts, map_const_congr _ hspecs, hindexes,
    htriggers]

theorem Db.FtsAfter.isSome {trigger : TriggerName} {f : List FtsRow → List FtsRow}
    (h : db.FtsAfter build trigger f db') : db'.eventsFts.isSome = db.eventsFts.isSome := by
  unfold Db.FtsAfter at h
  split at h
  · obtain ⟨-, rows, hrows, hafter⟩ := h
    rw [hrows, hafter]
    rfl
  · rw [h]

theorem Db.SameFrame.skeleton (h : db.SameFrame db')
    (hevents : db'.events.isSome = db.events.isSome)
    (haddresses : db'.eventAddresses.isSome = db.eventAddresses.isSome)
    (hfts : db'.eventsFts.isSome = db.eventsFts.isSome) : db'.skeleton = db.skeleton :=
  skeleton_congr h.schemaMigrations hevents (by rw [h.streamState]) haddresses hfts
    (by rw [h.contractSpecs]) h.indexes h.triggers

theorem skeleton_insertOne {e : LensEvent} {n : Nat}
    (h : insertOne rt build e db = .ok (n, db')) : db'.skeleton = db.skeleton := by
  obtain ⟨t, ht, ⟨-, rfl, -⟩ | ⟨-, -, -, hins⟩⟩ := insertOne_ok h
  · rfl
  · obtain ⟨a, ha, hafter⟩ := hins.addresses
    exact hins.frame.skeleton (by rw [hins.events, ht]; rfl) (by rw [hafter, ha]; rfl)
      hins.fts.isSome

theorem skeleton_insertDecoded (rt : Runtime) (build : SqliteBuild) (es : List LensEvent) (db : Db) :
    (insertDecoded rt build es db).2.skeleton = db.skeleton := by
  cases h : insertDecoded rt build es db with
  | mk r db' =>
    rcases insertDecoded_cases h with ⟨n, -, hb⟩ | ⟨e, -, rfl⟩
    · refine insertBatch_induct (P := fun d => d.skeleton = db.skeleton) ?_ rfl hb
      intro e m mid mid' hmid hone
      exact (skeleton_insertOne hone).trans hmid
    · rfl

theorem skeleton_deleteEvents {p : EventRow → Bool} (h : deleteEvents build p db = .ok db') :
    db'.skeleton = db.skeleton := by
  obtain ⟨t, ht, hdel⟩ := deleteEvents_ok h
  exact hdel.frame.skeleton (by rw [hdel.events, ht]; rfl) (by rw [hdel.addresses, Option.isSome_map])
    hdel.fts.isSome

theorem skeleton_pruneBefore (build : SqliteBuild) (ledger : JsNumber) (db : Db) :
    (pruneBefore build ledger db).2.skeleton = db.skeleton := by
  cases h : pruneBefore build ledger db with
  | mk r db' =>
    rcases pruneBefore_cases h with rfl | hdel
    · rfl
    · exact skeleton_deleteEvents hdel

theorem skeleton_pruneToSize (build : SqliteBuild) (disk : Option Disk)
    (targetBytes chunkLedgers : JsNumber) (db : Db) :
    (pruneToSize build disk targetBytes chunkLedgers db).2.skeleton = db.skeleton := by
  cases h : pruneToSize build disk targetBytes chunkLedgers db with
  | mk r db' =>
    refine pruneToSize_induct (P := fun d => d.skeleton = db.skeleton) ?_ rfl h
    intro p mid mid' hmid hdel
    exact (skeleton_deleteEvents hdel).trans hmid

theorem skeleton_recomputeRow {row : EventRow} (h : recomputeRow rt build row db = .ok db') :
    db'.skeleton = db.skeleton := by
  obtain ⟨d, event, mid, -, hupdate, hrefresh⟩ := recomputeRow_ok h
  obtain ⟨a, ha, rfl⟩ := refreshAddresses_ok hrefresh
  have hmid : mid.skeleton = db.skeleton := by
    obtain ⟨t, ht, ⟨-, rfl⟩ | ⟨current, -, hdb, hfts⟩⟩ := updateRow_ok hupdate
    · rfl
    · have hsome := hfts.isSome
      rw [hdb]
      exact skeleton_congr rfl (by rw [ht]; rfl) rfl rfl hsome rfl rfl rfl
  rw [← hmid]
  exact skeleton_congr rfl rfl rfl (by rw [ha]; rfl) rfl rfl rfl rfl

theorem skeleton_redecode (rt : Runtime) (build : SqliteBuild) (all : Bool) (db : Db) :
    (redecode rt build all db).2.skeleton = db.skeleton := by
  cases h : redecode rt build all db with
  | mk r db' =>
    rcases redecode_cases h with rfl | ⟨t, -, hrows⟩
    · rfl
    · refine recomputeRows_induct (P := fun d => d.skeleton = db.skeleton) ?_ rfl hrows
      intro row mid mid' hmid hrow
      exact (skeleton_recomputeRow hrow).trans hmid

theorem skeleton_repairRow (rt : Runtime) (build : SqliteBuild) (id : String) (db : Db) :
    (repairRow rt build id db).2.skeleton = db.skeleton := by
  cases h : repairRow rt build id db with
  | mk r db' =>
    rcases repairRow_cases h with rfl | ⟨t, row, -, -, hrow⟩
    · rfl
    · exact skeleton_recomputeRow hrow

theorem skeleton_rebuildSearchIndex (build : SqliteBuild) (db : Db) :
    (rebuildSearchIndex build db).2.skeleton = db.skeleton := by
  cases h : rebuildSearchIndex build db with
  | mk r db' =>
    rcases rebuildSearchIndex_cases h with rfl | ⟨t, -, hsome, rfl⟩
    · rfl
    · exact skeleton_congr rfl rfl rfl rfl (by rw [hsome]; rfl) rfl rfl rfl

theorem skeleton_saveStreamState (state : StreamState) (db : Db) :
    (saveStreamState state db).2.skeleton = db.skeleton := by
  unfold saveStreamState
  split
  · rfl
  · rename_i t ht
    exact skeleton_congr rfl rfl (by rw [ht]; rfl) rfl rfl rfl rfl rfl

theorem skeleton_saveContractSpec (record : ContractSpecRecord) (db : Db) :
    (saveContractSpec record db).2.skeleton = db.skeleton := by
  unfold saveContractSpec
  split
  · rfl
  · rename_i t ht
    exact skeleton_congr rfl rfl rfl rfl rfl (by rw [ht]; rfl) rfl rfl

/-- Only the migrations change the schema. -/
theorem StoreOp.skeleton_exec (host : Host) (db : Db) (op : StoreOp)
    (hup : op ≠ .migrate) (hdown : ∀ v, op ≠ .migrateDown v) :
    (op.exec host db).skeleton = db.skeleton := by
  cases op with
  | migrate => exact absurd rfl hup
  | migrateDown v => exact absurd rfl (hdown v)
  | insertEvents now events => exact skeleton_insertDecoded _ _ _ db
  | insertDecoded events => exact skeleton_insertDecoded _ _ _ db
  | importSnapshot file =>
    refine Backend.importSnapshot_induct (P := fun d => d.skeleton = db.skeleton) ?_ file rfl
    intro es mid hmid
    exact (skeleton_insertDecoded _ _ es mid).trans hmid
  | saveStreamState state => exact skeleton_saveStreamState state db
  | saveContractSpec record => exact skeleton_saveContractSpec record db
  | pruneBefore ledger => exact skeleton_pruneBefore _ ledger db
  | pruneToSize disk targetBytes chunkLedgers => exact skeleton_pruneToSize _ disk _ _ db
  | redecode all => exact skeleton_redecode _ _ all db
  | repairRow id => exact skeleton_repairRow _ _ id db
  | rebuildSearchIndex => exact skeleton_rebuildSearchIndex _ db

end Rows

/-! ### Every file a store leaves -/

/-- The schema a file is at; a file no store was ever opened on counts as at none. -/
def Db.AtVersion (db : Db) (fts5 : Bool) (version : Nat) : Prop :=
  version ≤ 6 ∧ db.withMigrationsTable.skeleton = schemaAt fts5 version

theorem withMigrationsTable_schemaAt : ∀ fts5 : Bool, ∀ version ≤ 6,
    (schemaAt fts5 version).withMigrationsTable = schemaAt fts5 version := by decide +kernel

theorem tables_schemaAt : ∀ fts5 : Bool, ∀ version ≤ 6,
    ((schemaAt fts5 version).contractSpecs.isSome = decide (6 ≤ version)) ∧
      ((schemaAt fts5 version).eventsFts.isSome = (fts5 && decide (5 ≤ version))) := by
  decide +kernel

theorem appliedVersions_schemaAt : ∀ fts5 : Bool, ∀ version ≤ 6,
    (schemaAt fts5 version).appliedVersions = (List.range version).map (fun i => i + 1) := by
  decide +kernel

theorem current_schemaAt : ∀ fts5 : Bool, pendingMigrations (schemaAt fts5 6) = [] := by
  decide +kernel

section Versions

variable {build : SqliteBuild} {toVersion : JsNumber} {db db' : Db} {fts5 : Bool} {version : Nat}

theorem Db.AtVersion.congr (h : db.AtVersion fts5 version) (hs : db'.skeleton = db.skeleton) :
    db'.AtVersion fts5 version := by
  refine ⟨h.1, ?_⟩
  rw [skeleton_withMigrationsTable, hs, ← skeleton_withMigrationsTable]
  exact h.2

theorem Db.AtVersion.of_skeleton (hv : version ≤ 6) (h : db.skeleton = schemaAt fts5 version) :
    db.AtVersion fts5 version := by
  refine ⟨hv, ?_⟩
  rw [skeleton_withMigrationsTable, h]
  exact withMigrationsTable_schemaAt fts5 version hv

theorem Db.AtVersion.skeleton_eq (h : db.AtVersion fts5 version)
    (hm : db.schemaMigrations.isSome = true) : db.skeleton = schemaAt fts5 version := by
  obtain ⟨t, ht⟩ := Option.isSome_iff_exists.mp hm
  have hsame : db.withMigrationsTable = db := by
    cases db
    simp only at ht
    subst ht
    rfl
  rw [← h.2, hsame]

theorem Db.AtVersion.tables (h : db.AtVersion fts5 version) :
    db.contractSpecs.isSome = decide (6 ≤ version) ∧
      db.eventsFts.isSome = (fts5 && decide (5 ≤ version)) := by
  have htables := tables_schemaAt fts5 version h.1
  rw [← h.2] at htables
  simpa [Db.skeleton, Db.withMigrationsTable] using htables

theorem Db.AtVersion.appliedVersions (h : db.AtVersion fts5 version) :
    db.appliedVersions = (List.range version).map (fun i => i + 1) := by
  rw [← appliedVersions_schemaAt fts5 version h.1, ← h.2]
  cases hm : db.schemaMigrations <;>
    simp [Db.appliedVersions, Db.migrationRows, Db.withMigrationsTable, Db.skeleton, hm]

theorem Db.AtVersion.migrate (h : db.AtVersion fts5 version) (build : SqliteBuild) :
    ∃ db', migrateSync build db = (.ok (), db') ∧
      db'.skeleton = schemaAt (if version < 5 then build.fts5 else fts5) 6 := by
  have hagain : migrateSync build db = migrateSync build db.withMigrationsTable := by
    have hidem : db.withMigrationsTable.withMigrationsTable = db.withMigrationsTable := by
      cases hm : db.schemaMigrations <;> simp [Db.withMigrationsTable, hm]
    unfold migrateSync
    rw [hidem]
  have hrun := skeleton_migrateSync build db.withMigrationsTable
  rw [h.2, migrateSync_schemaAt fts5 build.fts5 version h.1, ← hagain] at hrun
  obtain ⟨hok, hdb⟩ := Prod.ext_iff.mp hrun
  exact ⟨(migrateSync build db).2, Prod.ext hok rfl, hdb⟩

theorem migrateDown_error {e : StoreError}
    (h : migrateDown build toVersion db = (.error e, db')) : db' = db := by
  unfold migrateDown at h
  split at h
  · exact (Prod.mk.inj h).2.symm
  · simp only at h
    split at h
    · exact (Prod.mk.inj h).2.symm
    · split at h
      · exact (Prod.mk.inj h).2.symm
      · rcases transaction_cases h with ⟨a, ha, -⟩ | ⟨err, -, -, hdb⟩
        · cases ha
        · exact hdb

theorem migrateDown_of_not_ok (h : (migrateDown build toVersion db).1.isOk = false) :
    (migrateDown build toVersion db).2 = db := by
  cases hres : migrateDown build toVersion db with
  | mk r db' =>
    cases r with
    | ok vs => simp [hres, Except.isOk, Except.toBool] at h
    | error e => exact migrateDown_error hres

theorem exists_versionBelow (toVersion : JsNumber) : ∃ n ≤ 6, ∀ v, 1 ≤ v → v ≤ 6 →
    JsNumber.lt toVersion (.ofNat v) = decide (n < v) := by
  cases toVersion with
  | nan => exact ⟨6, le_refl 6, fun v _ hv => by simpa [JsNumber.lt, JsNumber.ofNat] using hv⟩
  | posInf => exact ⟨6, le_refl 6, fun v _ hv => by simpa [JsNumber.lt, JsNumber.ofNat] using hv⟩
  | negInf =>
    refine ⟨0, by omega, ?_⟩
    intro v hv _
    have hpos : 0 < v := hv
    simp [JsNumber.lt, JsNumber.ofNat, hpos]
  | fin q =>
    refine ⟨min ⌊q⌋₊ 6, min_le_right _ _, ?_⟩
    intro v hv hle
    have hfloor : ⌊q⌋₊ < v ↔ q < v := Nat.floor_lt' (by omega)
    simp only [JsNumber.lt, JsNumber.ofNat, ← hfloor, decide_eq_decide]
    omega

theorem migrateDown_congr {other : JsNumber}
    (h : ∀ v ∈ db.appliedVersions,
      JsNumber.lt toVersion (.ofNat v) = JsNumber.lt other (.ofNat v)) :
    migrateDown build toVersion db = migrateDown build other db := by
  unfold migrateDown
  cases hm : db.schemaMigrations with
  | none => rfl
  | some t =>
    have hsame : (t.rows.insertionSort (fun a b => b.version ≤ a.version)).filter
        (fun r => JsNumber.lt toVersion (.ofNat r.version)) =
        (t.rows.insertionSort (fun a b => b.version ≤ a.version)).filter
          (fun r => JsNumber.lt other (.ofNat r.version)) := by
      refine List.filter_congr ?_
      intro r hr
      refine h r.version ?_
      simp only [Db.appliedVersions, Db.migrationRows, hm]
      exact List.mem_map_of_mem ((List.mem_insertionSort _).mp hr)
    simp only [hsame]

/-- Where a migration down leaves such a file: at the target, or, where the build
cannot drop the search table, untouched. -/
theorem Db.AtVersion.migrateDown (h : db.AtVersion fts5 version)
    (hm : db.schemaMigrations.isSome = true) {n : Nat} (hn : n ≤ 6)
    (hbelow : ∀ v, 1 ≤ v → v ≤ 6 → JsNumber.lt toVersion (.ofNat v) = decide (n < v)) :
    if n < 5 ∧ 5 ≤ version ∧ fts5 = true ∧ build.fts5 = false then
      (SorobanLens.migrateDown build toVersion db).1.isOk = false
    else (SorobanLens.migrateDown build toVersion db).2.skeleton = schemaAt fts5 (min version n) := by
  have hskeleton := h.skeleton_eq hm
  have hnat : SorobanLens.migrateDown build toVersion db =
      SorobanLens.migrateDown build (.ofNat n) db := by
    refine migrateDown_congr ?_
    intro v hv
    rw [h.appliedVersions] at hv
    obtain ⟨i, hi, rfl⟩ := List.mem_map.mp hv
    have hrange := List.mem_range.mp hi
    have hversion := h.1
    rw [hbelow (i + 1) (by omega) (by omega), JsNumber.ofNat_lt_ofNat]
  have hrun := skeleton_migrateDown build (.ofNat n) db
  have hat := migrateDown_schemaAt fts5 build.fts5 version h.1 n hn
  rw [← hskeleton, ← hrun] at hat
  rw [hnat]
  split
  · rename_i hblocked
    rw [if_pos hblocked] at hat
    exact (Prod.ext_iff.mp hat).1
  · rename_i hopen
    rw [if_neg hopen] at hat
    exact (Prod.ext_iff.mp hat).2

theorem Db.AtVersion.after_migrateDown (h : db.AtVersion fts5 version) (build : SqliteBuild)
    (toVersion : JsNumber) :
    ∃ version', (SorobanLens.migrateDown build toVersion db).2.AtVersion fts5 version' := by
  obtain ⟨n, hn, hbelow⟩ := exists_versionBelow toVersion
  by_cases hok : (SorobanLens.migrateDown build toVersion db).1.isOk = true
  · have hm : db.schemaMigrations.isSome = true := by
      cases hm : db.schemaMigrations with
      | none => simp [SorobanLens.migrateDown, hm, Except.isOk, Except.toBool] at hok
      | some t => rfl
    have hrun := @Db.AtVersion.migrateDown build toVersion db fts5 version h hm n hn hbelow
    split at hrun
    · rw [hrun] at hok
      cases hok
    · exact ⟨min version n, .of_skeleton ((min_le_left _ _).trans h.1) hrun⟩
  · rw [migrateDown_of_not_ok (by simpa using hok)]
    exact ⟨version, h⟩

theorem Db.AtVersion.exec (h : db.AtVersion fts5 version) (host : Host) (op : StoreOp) :
    ∃ fts5' version', (op.exec host db).AtVersion fts5' version' := by
  by_cases hup : op = .migrate
  · subst hup
    obtain ⟨after, hrun, hskel⟩ := h.migrate host.build
    refine ⟨if version < 5 then host.build.fts5 else fts5, 6, ?_⟩
    simp only [StoreOp.exec, hrun]
    exact .of_skeleton (le_refl 6) hskel
  · by_cases hdown : ∃ v, op = .migrateDown v
    · obtain ⟨v, rfl⟩ := hdown
      exact ⟨fts5, h.after_migrateDown host.build v⟩
    · exact ⟨fts5, version, h.congr (op.skeleton_exec host db hup (by simpa using hdown))⟩

/-- Every file a store leaves is at some version of the schema. -/
theorem Db.Reached.atVersion (h : db.Reached) : ∃ fts5 version, db.AtVersion fts5 version := by
  have hinit : ∀ d : Db, d = Db.new → ∃ fts5 version, d.AtVersion fts5 version := by
    intro d hd
    subst hd
    exact ⟨true, 0, by omega, by decide +kernel⟩
  have hstep : ∀ d d' : Db, (∃ fts5 version, d.AtVersion fts5 version) → StoreStep d d' →
      ∃ fts5 version, d'.AtVersion fts5 version := by
    intro d d' hd hstep
    obtain ⟨fts5, version, hat⟩ := hd
    obtain ⟨host, op, rfl⟩ := hstep
    exact hat.exec host op
  exact Reachable.invariant hinit hstep h

/-! ### What is in the tables -/

def tableRows {ρ κ : Type} {key : ρ → κ} (t : Option (KeyedTable key)) : List ρ :=
  (t.map KeyedTable.rows).getD []

theorem Kept.tableRows {ρ κ : Type} {key : ρ → κ} {old new : Option (KeyedTable key)}
    (h : Kept .empty old new) : SorobanLens.tableRows new = SorobanLens.tableRows old := by
  rcases h with rfl | ⟨rfl, rfl⟩ <;> rfl

structure Db.SameContents (db db' : Db) : Prop where
  events : tableRows db'.events = tableRows db.events
  streamState : tableRows db'.streamState = tableRows db.streamState
  contractSpecs : tableRows db'.contractSpecs = tableRows db.contractSpecs

def Ddl.spares : Ddl → Bool
  | .dropTableIfExists .events | .dropTableIfExists .streamState => false
  | .createTable _ => false
  | _ => true

theorem spares_exec {d : Ddl} (hd : d.spares = true) (h : d.exec build db = .ok db') :
    db'.events = db.events ∧ db'.streamState = db.streamState ∧
      (db'.contractSpecs = db.contractSpecs ∨ d = .dropTableIfExists .contractSpecs) := by
  cases d with
  | createTable t => cases hd
  | createIndex name t =>
    simp only [Ddl.exec] at h
    split at h
    · cases h
    · split at h
      · cases h
      · cases h
        exact ⟨rfl, rfl, .inl rfl⟩
  | createTrigger name =>
    simp only [Ddl.exec] at h
    split at h
    · cases h
    · split at h
      · cases h
      · cases h
        exact ⟨rfl, rfl, .inl rfl⟩
  | dropTableIfExists t =>
    simp only [Ddl.exec] at h
    split at h
    · cases h
      exact ⟨rfl, rfl, .inl rfl⟩
    · split at h
      · cases h
      · cases h
        cases t with
        | events => cases hd
        | streamState => cases hd
        | eventAddresses => exact ⟨rfl, rfl, .inl rfl⟩
        | eventsFts => exact ⟨rfl, rfl, .inl rfl⟩
        | contractSpecs => exact ⟨rfl, rfl, .inr rfl⟩
  | dropIndexIfExists name =>
    cases h
    exact ⟨rfl, rfl, .inl rfl⟩
  | dropTriggerIfExists name =>
    cases h
    exact ⟨rfl, rfl, .inl rfl⟩

theorem spares_execAll {ds : List Ddl} (hds : ∀ d ∈ ds, d.spares = true)
    (h : execAll build ds db = .ok db') :
    db'.events = db.events ∧ db'.streamState = db.streamState := by
  induction ds generalizing db with
  | nil =>
    cases h
    exact ⟨rfl, rfl⟩
  | cons d ds ih =>
    obtain ⟨mid, hm, h⟩ := bind_eq_ok.mp h
    obtain ⟨he, hs, -⟩ := spares_exec (hds d List.mem_cons_self) hm
    obtain ⟨he', hs'⟩ := ih (fun d' hd' => hds d' (List.mem_cons_of_mem d hd')) h
    exact ⟨he'.trans he, hs'.trans hs⟩

theorem down_spares : ∀ m ∈ MIGRATIONS, 2 ≤ m.version →
    ∀ down, m.down = some down → ∀ d ∈ down, d.spares = true := by
  have hall : ∀ m ∈ MIGRATIONS, 2 ≤ m.version →
      ∀ d ∈ m.down.getD [], d.spares = true := by decide
  intro m hm hv down hdown d hd
  exact hall m hm hv d (by rw [hdown]; exact hd)

theorem spares_rollbackMigrations {rs : List MigrationRow} (hrs : ∀ r ∈ rs, 2 ≤ r.version)
    (h : rollbackMigrations build rs db = .ok db') :
    db'.events = db.events ∧ db'.streamState = db.streamState := by
  induction rs generalizing db with
  | nil =>
    cases h
    exact ⟨rfl, rfl⟩
  | cons r rs ih =>
    simp only [rollbackMigrations] at h
    split at h
    · rename_i down hdown
      obtain ⟨m, hm, hmdown⟩ := Option.bind_eq_some_iff.mp hdown
      have hmem : m ∈ MIGRATIONS := List.mem_of_find?_eq_some hm
      have hversion : m.version = r.version := by
        simpa using List.find?_some hm
      have hlow := hrs r List.mem_cons_self
      obtain ⟨mid, hmid, h⟩ := bind_eq_ok.mp h
      obtain ⟨fin, hfin, hback⟩ := bind_eq_ok.mp hmid
      cases hback
      obtain ⟨he, hs⟩ := spares_execAll (down_spares m hmem (by omega) down hmdown) hfin
      obtain ⟨he', hs'⟩ := ih (fun r' hr' => hrs r' (List.mem_cons_of_mem r hr')) h
      exact ⟨he'.trans he, hs'.trans hs⟩
    · cases h

/-- A migration down rolls back versions above its target, or changes nothing. -/
theorem migrateDown_cases {r : Except StoreError (List Nat)}
    (h : migrateDown build toVersion db = (r, db')) :
    db' = db ∨ ∃ rs : List MigrationRow,
      (∀ row ∈ rs, row.version ∈ db.appliedVersions ∧
        JsNumber.lt toVersion (.ofNat row.version) = true) ∧
      rollbackMigrations build rs db = .ok db' := by
  unfold migrateDown at h
  split at h
  · exact .inl (Prod.mk.inj h).2.symm
  · rename_i t ht
    simp only at h
    split at h
    · exact .inl (Prod.mk.inj h).2.symm
    · split at h
      · exact .inl (Prod.mk.inj h).2.symm
      · rcases transaction_cases h with ⟨a, -, hb⟩ | ⟨e, -, -, rfl⟩
        · obtain ⟨fin, hfin, heq⟩ := map_eq_ok.mp hb
          cases heq
          refine .inr ⟨_, ?_, hfin⟩
          intro row hrow
          obtain ⟨hmem, habove⟩ := List.mem_filter.mp hrow
          refine ⟨?_, habove⟩
          simp only [Db.appliedVersions, Db.migrationRows, ht]
          exact List.mem_map_of_mem ((List.mem_insertionSort _).mp hmem)
        · exact .inl rfl

theorem migrateDown_spares (hv : JsNumber.le (.ofNat 1) toVersion = true) :
    (migrateDown build toVersion db).2.events = db.events ∧
      (migrateDown build toVersion db).2.streamState = db.streamState := by
  cases h : migrateDown build toVersion db with
  | mk r db' =>
    rcases migrateDown_cases h with rfl | ⟨rs, habove, hrs⟩
    · exact ⟨rfl, rfl⟩
    · refine spares_rollbackMigrations ?_ hrs
      intro row hrow
      exact JsNumber.lt_of_le_of_lt_ofNat hv (habove row hrow).2

theorem Db.AtVersion.migrateDown_latest (h : db.AtVersion fts5 version)
    (hlatest : JsNumber.lt toVersion (.ofNat 6) = false) :
    (SorobanLens.migrateDown build toVersion db).2 = db := by
  cases hres : SorobanLens.migrateDown build toVersion db with
  | mk r db' =>
    rcases migrateDown_cases hres with rfl | ⟨rs, habove, hrs⟩
    · rfl
    · have hnil : rs = [] := by
        refine List.eq_nil_iff_forall_not_mem.mpr ?_
        intro row hrow
        obtain ⟨hmem, hlt⟩ := habove row hrow
        rw [h.appliedVersions] at hmem
        obtain ⟨i, hi, hversion⟩ := List.mem_map.mp hmem
        have hrange := List.mem_range.mp hi
        have hat := h.1
        obtain ⟨n, hn, hbelow⟩ := exists_versionBelow toVersion
        rw [hbelow 6 (by omega) (by omega)] at hlatest
        rw [hbelow row.version (by omega) (by omega)] at hlt
        have hsix := of_decide_eq_false hlatest
        have hover := of_decide_eq_true hlt
        omega
      subst hnil
      cases hrs
      rfl

structure Db.RollbackLossless (build : SqliteBuild) (toVersion : JsNumber) (db : Db) : Prop where
  contents : db.SameContents (migrateSync build (migrateDown build toVersion db).2).2
  recorded : (migrateSync build (migrateDown build toVersion db).2).2.Current
  downThrows : ∀ e db', migrateDown build toVersion db = (.error e, db') → db' = db
  migrateThrows : ∀ e db', migrateSync build db = (.error e, db') → db' = db
  againThrows : ∀ e db', migrateSync build (migrateDown build toVersion db).2 = (.error e, db') →
    db' = (migrateDown build toVersion db).2

theorem Db.AtVersion.contractSpecs_migrateDown (h : db.AtVersion fts5 version) :
    tableRows (SorobanLens.migrateDown build toVersion db).2.contractSpecs =
      tableRows db.contractSpecs ↔
    JsNumber.lt toVersion (.ofNat 6) = false ∨ tableRows db.contractSpecs = [] ∨
      (build.fts5 = false ∧ db.eventsFts.isSome = true ∧
        JsNumber.lt toVersion (.ofNat 5) = true) := by
  obtain ⟨n, hn, hbelow⟩ := exists_versionBelow toVersion
  obtain ⟨hspecs, hfts⟩ := h.tables
  rw [hbelow 6 (by omega) (by omega), hbelow 5 (by omega) (by omega)]
  cases hm : db.schemaMigrations with
  | none =>
    have hzero : version = 0 := by
      have hnone : db.appliedVersions = [] := by simp [Db.appliedVersions, Db.migrationRows, hm]
      have hrange := h.appliedVersions
      rw [hnone] at hrange
      simpa using hrange.symm
    have hempty : tableRows db.contractSpecs = [] := by
      rw [hzero] at hspecs
      have hnone : db.contractSpecs = none := by simpa using hspecs
      rw [hnone]
      rfl
    simp [SorobanLens.migrateDown, hm, hempty]
  | some t =>
    have hsome : db.schemaMigrations.isSome = true := by simp [hm]
    have hrun := @Db.AtVersion.migrateDown build toVersion db fts5 version h hsome n hn hbelow
    by_cases hblocked : n < 5 ∧ 5 ≤ version ∧ fts5 = true ∧ build.fts5 = false
    · rw [if_pos hblocked] at hrun
      obtain ⟨hfive, hversion, hwith, hwithout⟩ := hblocked
      rw [migrateDown_of_not_ok hrun, hfts]
      simp [hfive, hversion, hwith, hwithout]
    · rw [if_neg hblocked] at hrun
      by_cases hsix : n = 6
      · have hlatest : JsNumber.lt toVersion (.ofNat 6) = false := by
          rw [hbelow 6 (by omega) (by omega), hsix]
          rfl
        rw [h.migrateDown_latest hlatest]
        simp [hsix]
      · have hgone : (SorobanLens.migrateDown build toVersion db).2.contractSpecs = none := by
          have htables := (tables_schemaAt fts5 (min version n) (by omega)).1
          rw [← hrun] at htables
          have hfew : ¬ 6 ≤ min version n := by omega
          simpa [Db.skeleton, hfew] using htables
        have hfree : ¬ (build.fts5 = false ∧ db.eventsFts.isSome = true ∧ decide (n < 5) = true) := by
          intro hb
          obtain ⟨hwithout, hsome, hfive⟩ := hb
          rw [hfts, Bool.and_eq_true, decide_eq_true_eq] at hsome
          exact hblocked ⟨of_decide_eq_true hfive, hsome.2, hsome.1, hwithout⟩
        have hlow : n < 6 := by omega
        rw [hgone]
        simp only [hlow, decide_true, Bool.true_eq_false, false_or, hfree, or_false]
        exact eq_comm

end Versions

/-! ### Rolling back -/

theorem rollback_lossless_iff {db : Db} (build : SqliteBuild) {toVersion : JsNumber}
    (hdb : db.Reached) (hv : JsNumber.le (.ofNat 1) toVersion = true) :
    db.RollbackLossless build toVersion ↔
      JsNumber.lt toVersion (.ofNat 6) = false ∨ tableRows db.contractSpecs = [] ∨
        (build.fts5 = false ∧ db.eventsFts.isSome = true ∧
          JsNumber.lt toVersion (.ofNat 5) = true) := by
  obtain ⟨fts5, version, hat⟩ := hdb.atVersion
  obtain ⟨version', hdown⟩ := hat.after_migrateDown build toVersion
  obtain ⟨after, hup, hskeleton⟩ := hdown.migrate build
  have hkeeps := keeps_migrateSync hup
  obtain ⟨hevents, hstream⟩ := @migrateDown_spares build toVersion db hv
  rw [← hat.contractSpecs_migrateDown]
  constructor
  · intro hlossless
    have hspecs := hlossless.contents.contractSpecs
    rw [hup, hkeeps.contractSpecs.tableRows] at hspecs
    exact hspecs
  · intro hspecs
    refine ⟨⟨?_, ?_, ?_⟩, ?_, fun e db' => migrateDown_error, ?_, ?_⟩
    · rw [hup, hkeeps.events.tableRows, hevents]
    · rw [hup, hkeeps.streamState.tableRows, hstream]
    · rw [hup, hkeeps.contractSpecs.tableRows, hspecs]
    · have hcurrent : pendingMigrations after = pendingMigrations after.skeleton := rfl
      rw [hup]
      unfold Db.Current
      rw [hcurrent, hskeleton]
      exact current_schemaAt _
    · intro e db' herr
      obtain ⟨d, hd, -⟩ := hat.migrate build
      rw [hd] at herr
      cases herr
    · intro e db' herr
      rw [hup] at herr
      cases herr

def specRecord : ContractSpecRecord := ⟨"C", .wasm, none, ["AAAA"], 1, none, "t"⟩

def specDb : Db := (saveContractSpec specRecord openedDb).2

theorem Db.Reached.exec {db : Db} (h : db.Reached) (host : Host) (op : StoreOp) :
    (op.exec host db).Reached := Reachable.next h ⟨host, op, rfl⟩

theorem reached_new : Db.new.Reached := Reachable.start rfl

theorem reached_openedDb : openedDb.Reached := reached_new.exec smallHost .migrate

theorem reached_specDb : specDb.Reached :=
  reached_openedDb.exec smallHost (.saveContractSpec specRecord)

/-- Rolling back what does not reach the specs' migration keeps them. -/
theorem rollback_lossless_latest : specDb.RollbackLossless ⟨true⟩ (.ofNat 6) :=
  (rollback_lossless_iff ⟨true⟩ reached_specDb (by decide)).mpr (.inl (by decide))

/-- One migration down and up again, and the spec is gone. -/
theorem rollback_loses_spec : ∃ db : Db, db.Reached ∧ ¬ db.RollbackLossless ⟨true⟩ (.ofNat 5) := by
  refine ⟨specDb, reached_specDb, ?_⟩
  intro h
  have hspecs := h.contents.contractSpecs
  have hafter : tableRows (migrateSync ⟨true⟩ (migrateDown ⟨true⟩ (.ofNat 5) specDb).2).2.contractSpecs
      = [] := by decide +kernel
  have hbefore : (tableRows specDb.contractSpecs).length = 1 := by decide +kernel
  rw [hafter] at hspecs
  rw [← hspecs] at hbefore
  cases hbefore

end SorobanLens
