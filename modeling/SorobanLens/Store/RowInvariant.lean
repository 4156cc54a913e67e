import SorobanLens.Store.Rollback

/-!
What every write gives the rows it makes, every row in a file has: the rule for
properties of stored events over whole histories.
-/

set_option autoImplicit false

namespace SorobanLens

def Db.EveryRow (Q : EventRow → Prop) (db : Db) : Prop := ∀ row ∈ tableRows db.events, Q row

section Rule

variable {Q : EventRow → Prop} {rt : Runtime} {build : SqliteBuild} {db db' : Db}

theorem Db.EveryRow.congr (h : db.EveryRow Q) (he : db'.events = db.events) : db'.EveryRow Q := by
  unfold Db.EveryRow
  rw [he]
  exact h

theorem Db.EveryRow.of_rows {t : EventsTable} (he : db.events = some t) (h : ∀ row ∈ t.rows, Q row) :
    db.EveryRow Q := by
  intro row hrow
  rw [he] at hrow
  exact h row hrow

theorem Db.EveryRow.rows (h : db.EveryRow Q) {t : EventsTable} (he : db.events = some t) :
    ∀ row ∈ t.rows, Q row := by
  intro row hrow
  refine h row ?_
  rw [he]
  exact hrow

theorem everyRow_insertOne (hinsert : ∀ rt e, Q (insertParams rt e)) {e : LensEvent} {n : Nat}
    (hq : db.EveryRow Q) (h : insertOne rt build e db = .ok (n, db')) : db'.EveryRow Q := by
  obtain ⟨t, ht, ⟨-, rfl, -⟩ | ⟨-, -, -, hins⟩⟩ := insertOne_ok h
  · exact hq
  · refine .of_rows hins.events ?_
    intro row hrow
    rcases KeyedTable.mem_insertOrIgnore.mp hrow with hrow | ⟨rfl, -⟩
    · exact hq.rows ht row hrow
    · exact hinsert rt e

theorem everyRow_insertDecoded (hinsert : ∀ rt e, Q (insertParams rt e)) (es : List LensEvent)
    (hq : db.EveryRow Q) : (insertDecoded rt build es db).2.EveryRow Q := by
  cases h : insertDecoded rt build es db with
  | mk r db' =>
    rcases insertDecoded_cases h with ⟨n, -, hb⟩ | ⟨e, -, rfl⟩
    · exact insertBatch_induct (P := Db.EveryRow Q)
        (fun e m mid mid' hp hstep => everyRow_insertOne hinsert hp hstep) hq hb
    · exact hq

theorem everyRow_deleteEvents {p : EventRow → Bool} (hq : db.EveryRow Q)
    (h : deleteEvents build p db = .ok db') : db'.EveryRow Q := by
  obtain ⟨t, ht, hdel⟩ := deleteEvents_ok h
  refine .of_rows hdel.events ?_
  intro row hrow
  exact hq.rows ht row (KeyedTable.mem_deleteWhere.mp hrow).1

theorem everyRow_recomputeRow (hderive : ∀ rt row e, Q row → Q (row.setDerived (derivedColumns rt e)))
    {row : EventRow} (hq : db.EveryRow Q) (h : recomputeRow rt build row db = .ok db') :
    db'.EveryRow Q := by
  obtain ⟨d, event, mid, hrec, hupd, haddr⟩ := recomputeRow_ok h
  obtain ⟨a, -, rfl⟩ := refreshAddresses_ok haddr
  obtain ⟨t, ht, ⟨-, rfl⟩ | ⟨current, -, hmid, -⟩⟩ := updateRow_ok hupd
  · exact hq.congr rfl
  · refine .of_rows (t := t.updateKey row.id (fun r => r.setDerived d) (fun _ => rfl))
      (congrArg Db.events hmid) ?_
    intro r hr
    rcases KeyedTable.mem_updateKey.mp hr with ⟨hr, -⟩ | ⟨r', hr', -, rfl⟩
    · exact hq.rows ht r hr
    · rw [(recompute_spec hrec).1]
      exact hderive rt r' event (hq.rows ht r' hr')

theorem everyRow_redecode (hderive : ∀ rt row e, Q row → Q (row.setDerived (derivedColumns rt e)))
    (all : Bool) (hq : db.EveryRow Q) : (redecode rt build all db).2.EveryRow Q := by
  cases h : redecode rt build all db with
  | mk r db' =>
    rcases redecode_cases h with rfl | ⟨t, -, hrows⟩
    · exact hq
    · exact recomputeRows_induct (P := Db.EveryRow Q)
        (fun row mid mid' hp hstep => everyRow_recomputeRow hderive hp hstep) hq hrows

theorem everyRow_repairRow (hderive : ∀ rt row e, Q row → Q (row.setDerived (derivedColumns rt e)))
    (id : String) (hq : db.EveryRow Q) : (repairRow rt build id db).2.EveryRow Q := by
  cases h : repairRow rt build id db with
  | mk r db' =>
    rcases repairRow_cases h with rfl | ⟨t, row, -, -, hrow⟩
    · exact hq
    · exact everyRow_recomputeRow hderive hq hrow

theorem everyRow_ddl {d : Ddl} (hq : db.EveryRow Q) (h : d.exec build db = .ok db') :
    db'.EveryRow Q := by
  have hnone {db' : Db} (he : tableRows db'.events = []) : db'.EveryRow Q := by
    intro row hrow
    rw [he] at hrow
    cases hrow
  cases hd : d.spares with
  | true => exact hq.congr (spares_exec hd h).1
  | false =>
    cases d with
    | createTable t =>
      simp only [Ddl.exec] at h
      split at h
      · cases h
      · split at h
        · cases h
        · cases h
          cases t with
          | events => exact hnone rfl
          | _ => exact hq.congr rfl
    | dropTableIfExists t =>
      simp only [Ddl.exec] at h
      split at h
      · cases h
        exact hq
      · split at h
        · cases h
        · cases h
          cases t with
          | events => exact hnone rfl
          | _ => exact hq.congr rfl
    | createIndex name t => cases hd
    | createTrigger name => cases hd
    | dropIndexIfExists name => cases hd
    | dropTriggerIfExists name => cases hd

theorem everyRow_execAll {ds : List Ddl} (hq : db.EveryRow Q) (h : execAll build ds db = .ok db') :
    db'.EveryRow Q := by
  induction ds generalizing db with
  | nil =>
    cases h
    exact hq
  | cons d ds ih =>
    obtain ⟨mid, hm, h⟩ := bind_eq_ok.mp h
    exact ih (everyRow_ddl hq hm) h

theorem everyRow_rollbackMigrations {rs : List MigrationRow} (hq : db.EveryRow Q)
    (h : rollbackMigrations build rs db = .ok db') : db'.EveryRow Q := by
  induction rs generalizing db with
  | nil =>
    cases h
    exact hq
  | cons r rs ih =>
    simp only [rollbackMigrations] at h
    split at h
    · obtain ⟨mid, hmid, h⟩ := bind_eq_ok.mp h
      obtain ⟨fin, hfin, hback⟩ := bind_eq_ok.mp hmid
      cases hback
      refine ih ?_ h
      exact (everyRow_execAll hq hfin).congr rfl
    · cases h

theorem everyRow_migrateSync (hq : db.EveryRow Q) : (migrateSync build db).2.EveryRow Q := by
  cases h : migrateSync build db with
  | mk r db' =>
    intro row hrow
    rw [(keeps_migrateSync h).events.tableRows] at hrow
    exact hq row hrow

theorem everyRow_migrateDown (toVersion : JsNumber) (hq : db.EveryRow Q) :
    (migrateDown build toVersion db).2.EveryRow Q := by
  cases h : migrateDown build toVersion db with
  | mk r db' =>
    rcases migrateDown_cases h with rfl | ⟨rs, -, hrs⟩
    · exact hq
    · exact everyRow_rollbackMigrations hq hrs

end Rule

/-- One operation keeps what inserting gives and re-decoding keeps. -/
theorem StoreOp.everyRow_exec {Q : EventRow → Prop} (hinsert : ∀ rt e, Q (insertParams rt e))
    (hderive : ∀ rt row e, Q row → Q (row.setDerived (derivedColumns rt e))) (host : Host) {db : Db}
    (op : StoreOp) (hq : db.EveryRow Q) : (op.exec host db).EveryRow Q := by
  cases op with
  | migrate => exact everyRow_migrateSync hq
  | migrateDown v => exact everyRow_migrateDown v hq
  | insertEvents now events => exact everyRow_insertDecoded hinsert _ hq
  | insertDecoded events => exact everyRow_insertDecoded hinsert _ hq
  | importSnapshot file =>
    exact Backend.importSnapshot_induct (P := Db.EveryRow Q)
      (fun es mid hmid => everyRow_insertDecoded hinsert es hmid) file hq
  | saveStreamState state =>
    refine hq.congr ?_
    simp only [StoreOp.exec, SorobanLens.saveStreamState]
    split <;> rfl
  | saveContractSpec record =>
    refine hq.congr ?_
    simp only [StoreOp.exec, SorobanLens.saveContractSpec]
    split <;> rfl
  | pruneBefore ledger =>
    cases h : SorobanLens.pruneBefore host.build ledger db with
    | mk r db' =>
      have hkeep : db'.EveryRow Q := by
        rcases pruneBefore_cases h with rfl | hd
        · exact hq
        · exact everyRow_deleteEvents hq hd
      simpa only [StoreOp.exec, h] using hkeep
  | pruneToSize disk targetBytes chunkLedgers =>
    cases h : SorobanLens.pruneToSize host.build disk targetBytes chunkLedgers db with
    | mk r db' =>
      have hkeep : db'.EveryRow Q := pruneToSize_induct (P := Db.EveryRow Q)
        (fun p mid mid' hp hd => everyRow_deleteEvents hp hd) hq h
      simpa only [StoreOp.exec, h] using hkeep
  | redecode all => exact everyRow_redecode hderive all hq
  | repairRow id => exact everyRow_repairRow hderive id hq
  | rebuildSearchIndex =>
    cases h : SorobanLens.rebuildSearchIndex host.build db with
    | mk r db' =>
      have hkeep : db'.EveryRow Q := by
        rcases rebuildSearchIndex_cases h with rfl | ⟨t, ht, -, rfl⟩
        · exact hq
        · exact hq.congr rfl
      simpa only [StoreOp.exec, h] using hkeep

theorem Db.Reached.everyRow {Q : EventRow → Prop} (hinsert : ∀ rt e, Q (insertParams rt e))
    (hderive : ∀ rt row e, Q row → Q (row.setDerived (derivedColumns rt e))) {db : Db}
    (h : db.Reached) : db.EveryRow Q := by
  refine Reachable.invariant ?_ ?_ h
  · intro db hnew row hrow
    rw [hnew] at hrow
    cases hrow
  · intro db db' hq hstep
    obtain ⟨host, op, rfl⟩ := hstep
    exact op.everyRow_exec hinsert hderive host hq

/-- No history leaves an event that does not read back. -/
theorem Db.Reached.readable {db : Db} (h : db.Reached) : db.EveryRow EventRow.Readable :=
  h.everyRow readable_insertParams (fun rt row e _ => readable_setDerived rt row e)

end SorobanLens
