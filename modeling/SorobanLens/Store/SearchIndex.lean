import SorobanLens.Store.WriteRule
import SorobanLens.Store.Stability
import SorobanLens.Lib.SideTable

/-!
The search table over whole histories of a file that several builds open, with the
search extension or without: its rows mirror the stored events, and a build without
it works as one with it does, while each file stays with one kind of build.
-/

set_option autoImplicit false

namespace SorobanLens

/-! ### The mirror -/

def EventRow.ftsRow (row : EventRow) : FtsRow := ⟨row.id, row.topicsJson, row.valueJson⟩

theorem eventId_ftsRow (row : EventRow) : row.ftsRow.eventId = row.id := rfl

/-- The search table is there and holds one row for each stored event, with its
current text. -/
def Db.SearchExact (db : Db) : Prop :=
  ∃ rows, db.eventsFts = some rows ∧ SideTable.Mirrors EventRow.ftsRow (tableRows db.events) rows

/-- A search table has all its triggers and mirrors the events. -/
def Db.SearchKept (db : Db) : Prop :=
  db.eventsFts.isSome = true → (∀ name, name ∈ db.triggers) ∧ db.SearchExact

section Writes

variable {rt : Runtime} {build : SqliteBuild} {db db' : Db}

theorem Db.SearchKept.congr (h : db.SearchKept) (he : tableRows db'.events = tableRows db.events)
    (hf : db'.eventsFts = db.eventsFts) (ht : db'.triggers = db.triggers) : db'.SearchKept := by
  unfold Db.SearchKept Db.SearchExact
  rw [he, hf, ht]
  exact h

theorem Db.FtsAfter.kept {name : TriggerName} {f : List FtsRow → List FtsRow} {rows : List FtsRow}
    (h : db.FtsAfter build name f db') (hname : name ∈ db.triggers) (hrows : db.eventsFts = some rows) :
    db'.eventsFts = some (f rows) := by
  unfold Db.FtsAfter at h
  rw [if_pos hname] at h
  obtain ⟨-, rows', hrows', hafter⟩ := h
  rw [hrows] at hrows'
  cases hrows'
  exact hafter

theorem searchKept_insertOne {e : LensEvent} {n : Nat} (hk : db.SearchKept)
    (h : insertOne rt build e db = .ok (n, db')) : db'.SearchKept := by
  obtain ⟨t, ht, ⟨-, rfl, -⟩ | ⟨-, -, hid, hins⟩⟩ := insertOne_ok h
  · exact hk
  · intro hsome
    rw [hins.fts.isSome] at hsome
    obtain ⟨htriggers, rows, hrows, hmirrors⟩ := hk hsome
    refine ⟨fun name => hins.frame.triggers ▸ htriggers name, _,
      hins.fts.kept (htriggers .ftsInsert) hrows, ?_⟩
    rw [ht] at hmirrors
    have hnew : tableRows db'.events = t.rows ++ [insertParams rt e] := by
      rw [hins.events]
      exact KeyedTable.rows_insertOrIgnore_of_not_has hid
    rw [hnew]
    exact hmirrors.append (insertParams rt e)

theorem searchKept_deleteEvents {p : EventRow → Bool} (hk : db.SearchKept)
    (h : deleteEvents build p db = .ok db') : db'.SearchKept := by
  obtain ⟨t, ht, hdel⟩ := deleteEvents_ok h
  intro hsome
  rw [hdel.fts.isSome] at hsome
  obtain ⟨htriggers, rows, hrows, hmirrors⟩ := hk hsome
  refine ⟨fun name => hdel.frame.triggers ▸ htriggers name, _,
    hdel.fts.kept (htriggers .ftsDelete) hrows, ?_⟩
  rw [ht] at hmirrors
  rw [hdel.events]
  exact SideTable.Mirrors.delete eventId_ftsRow hmirrors t.nodup p

theorem searchKept_recomputeRow {row : EventRow} (hk : db.SearchKept)
    (h : recomputeRow rt build row db = .ok db') : db'.SearchKept := by
  obtain ⟨d, event, mid, -, hupd, hrefresh⟩ := recomputeRow_ok h
  obtain ⟨a, -, rfl⟩ := refreshAddresses_ok hrefresh
  obtain ⟨t, ht, ⟨-, rfl⟩ | ⟨current, hfind, hmid, hfts⟩⟩ := updateRow_ok hupd
  · exact hk.congr rfl rfl rfl
  · intro hsome
    rw [hfts.isSome] at hsome
    obtain ⟨htriggers, rows, hrows, hmirrors⟩ := hk hsome
    obtain ⟨hmem, hid⟩ := KeyedTable.find?_eq_some.mp hfind
    refine ⟨?_, _, hfts.kept (htriggers .ftsUpdate) hrows, ?_⟩
    · intro name
      rw [hmid]
      exact htriggers name
    · rw [ht] at hmirrors
      have hrenewed := SideTable.Mirrors.renew eventId_ftsRow hmirrors t.nodup hmem
        (fun r => r.setDerived d)
      rw [hid] at hrenewed
      have hafter : tableRows mid.events =
          t.rows.map (fun r => if r.id = row.id then r.setDerived d else r) := by
        rw [hmid]
        rfl
      have htext : (current.setDerived d).ftsRow = ⟨row.id, d.topicsJson, d.valueJson⟩ := by
        rw [← hid]
        rfl
      rw [htext] at hrenewed
      exact Eq.subst (motive := fun rs => SideTable.Mirrors _ rs _) hafter.symm hrenewed

theorem keptByWrites_search (host : Host) : KeptByWrites host Db.SearchKept where
  insertOne _ _ _ _ hk h := searchKept_insertOne hk h
  deleteEvents _ _ _ hk h := searchKept_deleteEvents hk h
  recomputeRow _ _ _ hk h := searchKept_recomputeRow hk h
  rebuild t db hk ht hsome := by
    intro _
    refine ⟨(hk hsome).1, _, rfl, ?_⟩
    rw [show tableRows db.events = t.rows by rw [ht]; rfl]
    exact List.Perm.refl _
  streamState _ _ hk := hk.congr rfl rfl rfl
  contractSpecs _ _ hk := hk.congr rfl rfl rfl

end Writes

/-! ### Without triggers -/

inductive OpResult where
  | done
  | count (n : Nat)
  | versions (vs : List Nat)
  | pruned (r : PruneToSizeResult)

def StoreOp.returns (host : Host) (db : Db) : StoreOp → Except StoreError OpResult
  | .migrate => (SorobanLens.migrateSync host.build db).1.map (fun _ => .done)
  | .migrateDown toVersion => (SorobanLens.migrateDown host.build toVersion db).1.map .versions
  | .insertEvents now events => (SorobanLens.insertEvents host.rt host.build now events db).1.map .count
  | .insertDecoded events => (SorobanLens.insertDecoded host.rt host.build events db).1.map .count
  | .importSnapshot file => (Backend.importSnapshot host file (.sqlite db)).1.map .count
  | .saveStreamState state => (SorobanLens.saveStreamState state db).1.map (fun _ => .done)
  | .saveContractSpec record => (SorobanLens.saveContractSpec record db).1.map (fun _ => .done)
  | .pruneBefore ledger => (SorobanLens.pruneBefore host.build ledger db).1.map .count
  | .pruneToSize disk targetBytes chunkLedgers =>
    (SorobanLens.pruneToSize host.build disk targetBytes chunkLedgers db).1.map .pruned
  | .redecode all => (SorobanLens.redecode host.rt host.build all db).1.map .count
  | .repairRow id => (SorobanLens.repairRow host.rt host.build id db).1.map (fun _ => .done)
  | .rebuildSearchIndex => (SorobanLens.rebuildSearchIndex host.build db).1.map (fun _ => .done)

theorem bind_congr_of_ok {ε α β : Type} {x : Except ε α} {f g : α → Except ε β}
    (h : ∀ a, x = .ok a → f a = g a) : (x >>= f) = (x >>= g) := by
  cases x with
  | ok a => exact h a rfl
  | error e => rfl

section NoTriggers

variable {rt : Runtime} {db db' : Db} (b b' : SqliteBuild)

theorem triggers_of_skeleton (h : db'.skeleton = db.skeleton) : db'.triggers = db.triggers := by
  have hsame : db'.skeleton.triggers = db.skeleton.triggers := by rw [h]
  exact hsame

theorem prepareWrite_build (h : db.triggers = []) (name : TriggerName) :
    prepareWrite b name db = prepareWrite b' name db := by
  simp [prepareWrite, h]

theorem prepared_build (h : db.triggers = []) : prepared b db = prepared b' db := by
  unfold prepared
  rw [prepareWrite_build b b' h]

theorem insertRow_build (h : db.triggers = []) (row : EventRow) :
    insertRow b row db = insertRow b' row db := by
  unfold insertRow
  rw [prepareWrite_build b b' h]
  simp [fireInsert, h]

theorem insertAddresses_build (h : db.triggers = []) (id : String) (e : LensEvent) :
    insertAddresses rt b id e db = insertAddresses rt b' id e db := by
  unfold insertAddresses
  rw [prepared_build b b' h]

theorem insertOne_build (h : db.triggers = []) (e : LensEvent) :
    insertOne rt b e db = insertOne rt b' e db := by
  unfold insertOne
  rw [insertRow_build b b' h]
  refine bind_congr_of_ok ?_
  intro step hrow
  obtain ⟨added, mid⟩ := step
  have hmid : mid.triggers = [] := by
    obtain ⟨t, -, ⟨-, rfl, -⟩ | ⟨-, -, -, hdb, -⟩⟩ := insertRow_ok hrow
    · exact h
    · rw [hdb]
      exact h
  simp only
  rw [insertAddresses_build b b' hmid]

theorem insertBatch_build (h : db.triggers = []) (es : List LensEvent) :
    insertBatch rt b es db = insertBatch rt b' es db := by
  induction es generalizing db with
  | nil => rfl
  | cons e es ih =>
    unfold insertBatch
    rw [insertOne_build b b' h]
    refine bind_congr_of_ok ?_
    intro step hone
    obtain ⟨n, mid⟩ := step
    simp only
    rw [ih ((triggers_of_skeleton (skeleton_insertOne hone)).trans h)]

theorem insertDecoded_build (h : db.triggers = []) (es : List LensEvent) :
    insertDecoded rt b es db = insertDecoded rt b' es db := by
  unfold insertDecoded
  rw [prepared_build b b' h, insertBatch_build b b' h]

theorem deleteEvents_build (h : db.triggers = []) (p : EventRow → Bool) :
    deleteEvents b p db = deleteEvents b' p db := by
  unfold deleteEvents
  rw [prepareWrite_build b b' h]
  simp [fireDelete, h]

theorem pruneBefore_build (h : db.triggers = []) (ledger : JsNumber) :
    pruneBefore b ledger db = pruneBefore b' ledger db := by
  unfold pruneBefore
  rw [deleteEvents_build b b' h]

theorem pruneLoop_build (h : db.triggers = []) (disk : Disk) (targetBytes chunkLedgers : JsNumber)
    (turns : Nat) (p : PruneTotals) :
    pruneLoop b disk targetBytes chunkLedgers turns p db =
      pruneLoop b' disk targetBytes chunkLedgers turns p db := by
  induction turns generalizing p db with
  | zero => rfl
  | succ turns ih =>
    simp only [pruneLoop, deleteEvents_build b b' h]
    split
    · rfl
    · cases db.events with
      | none => rfl
      | some t =>
        simp only
        cases (t.rows.map EventRow.ledger).min? with
        | none => rfl
        | some oldest =>
          simp only
          split
          · rfl
          · cases hdel : deleteEvents b' (below (pruneCutoff oldest chunkLedgers)) db with
            | error e => rfl
            | ok mid => exact ih ((triggers_of_skeleton (skeleton_deleteEvents hdel)).trans h) _

theorem pruneToSize_build (h : db.triggers = []) (disk : Option Disk)
    (targetBytes chunkLedgers : JsNumber) :
    pruneToSize b disk targetBytes chunkLedgers db = pruneToSize b' disk targetBytes chunkLedgers db := by
  unfold pruneToSize
  cases disk with
  | none => rfl
  | some disk => simp only [pruneLoop_build b b' h]

theorem updateRow_build (h : db.triggers = []) (row : EventRow) (d : DerivedColumns) :
    updateRow b row d db = updateRow b' row d db := by
  unfold updateRow
  rw [prepareWrite_build b b' h]
  simp [fireUpdate, h]

theorem refreshAddresses_build (h : db.triggers = []) (id : String) (event : LensEvent) :
    refreshAddresses rt b id event db = refreshAddresses rt b' id event db := by
  unfold refreshAddresses
  refine bind_congr_of_ok ?_
  intro a _
  exact insertAddresses_build b b' (by exact h) id event

theorem recomputeRow_build (h : db.triggers = []) (row : EventRow) :
    recomputeRow rt b row db = recomputeRow rt b' row db := by
  unfold recomputeRow
  cases recompute rt row with
  | none => rfl
  | some p =>
    simp only
    rw [updateRow_build b b' h]
    refine bind_congr_of_ok ?_
    intro mid hupd
    have hmid : mid.triggers = [] := by
      obtain ⟨t, -, ⟨-, rfl⟩ | ⟨current, -, hdb, -⟩⟩ := updateRow_ok hupd
      · exact h
      · rw [hdb]
        exact h
    exact refreshAddresses_build b b' hmid _ _

theorem recomputeRows_build (h : db.triggers = []) (rows : List EventRow) :
    recomputeRows rt b rows db = recomputeRows rt b' rows db := by
  induction rows generalizing db with
  | nil => rfl
  | cons row rows ih =>
    unfold recomputeRows
    rw [recomputeRow_build b b' h]
    refine bind_congr_of_ok ?_
    intro mid hrow
    exact ih ((triggers_of_skeleton (skeleton_recomputeRow hrow)).trans h)

theorem redecode_build (h : db.triggers = []) (all : Bool) :
    redecode rt b all db = redecode rt b' all db := by
  unfold redecode
  rw [prepareWrite_build b b' h]
  simp only [recomputeRows_build b b' h]

theorem repairRow_build (h : db.triggers = []) (id : String) :
    repairRow rt b id db = repairRow rt b' id db := by
  unfold repairRow
  simp only [recomputeRow_build b b' h]

theorem getEvent_build (h : db.triggers = []) (id : String) :
    getEvent b id db = getEvent b' id db := by
  unfold getEvent
  rw [prepared_build b b' h]

theorem importLines_build (h : db.triggers = []) (host : Host) (ls : List (List Char))
    (batch : List LensEvent) (inserted : Nat) :
    Backend.importLines { host with build := b } ls batch inserted (.sqlite db) =
      Backend.importLines { host with build := b' } ls batch inserted (.sqlite db) := by
  have hflush : ∀ {db : Db}, db.triggers = [] → ∀ batch inserted,
      Backend.flush { host with build := b } batch inserted (.sqlite db) =
        Backend.flush { host with build := b' } batch inserted (.sqlite db) := by
    intro db h batch inserted
    simp only [Backend.flush, Backend.insertDecoded, insertDecoded_build b b' h]
  induction ls generalizing batch inserted db with
  | nil => exact hflush h batch inserted
  | cons line rest ih =>
    simp only [Backend.importLines]
    split
    · rfl
    · exact ih h batch inserted
    · split
      · rw [hflush h]
        simp only [Backend.flush, Backend.insertDecoded]
        rename_i e _ _
        have hmid := skeleton_insertDecoded host.rt b' (batch ++ [e]) db
        cases hins : SorobanLens.insertDecoded host.rt b' (batch ++ [e]) db with
        | mk r mid =>
          rw [hins] at hmid
          cases r with
          | error e => rfl
          | ok n => exact ih ((triggers_of_skeleton hmid).trans h) _ _
      · exact ih h _ _

theorem prepareAll_build (conds : List Condition) (hno : ∀ phrase, Condition.search phrase ∉ conds) :
    prepareAll b db conds = prepareAll b' db conds := by
  induction conds with
  | nil => rfl
  | cons c cs ih =>
    have hhead : c.prepare b db = c.prepare b' db := by
      cases c with
      | search phrase => exact absurd List.mem_cons_self (hno phrase)
      | _ => rfl
    unfold prepareAll
    rw [hhead, ih (fun phrase hmem => hno phrase (List.mem_cons_of_mem c hmem))]

theorem search_not_mem_buildWhere {query : EventQuery} (h : given query.search = none)
    (phrase : String) : Condition.search phrase ∉ buildWhere query := by
  have htopics : Condition.search phrase ∉ topicConditions query.topics := by
    unfold topicConditions
    intro hmem
    obtain ⟨t, -, ht⟩ := List.mem_filterMap.mp hmem
    split at ht
    · cases ht
    · cases ht
  simp [buildWhere, conditions, h, htopics]

theorem queryEvents_build {query : EventQuery} (hsearch : given query.search = none) (rd : Reader)
    (cache : CountCache) :
    queryEvents { rd with build := b } query db cache = queryEvents { rd with build := b' } query db cache := by
  have hselect : selectWhere rd.text b (buildWhere query) db =
      selectWhere rd.text b' (buildWhere query) db := by
    unfold selectWhere
    cases db.events with
    | none => rfl
    | some t =>
      simp only
      rw [prepareAll_build b b' _ (search_not_mem_buildWhere hsearch)]
  unfold queryEvents
  simp only [hsearch, Option.isSome_none, Bool.false_and, hselect]

theorem StoreOp.build (h : db.triggers = []) (host : Host) (op : StoreOp) (hup : op ≠ .migrate)
    (hdown : ∀ v, op ≠ .migrateDown v) (hrebuild : op ≠ .rebuildSearchIndex) :
    op.returns { host with build := b } db = op.returns { host with build := b' } db ∧
      op.exec { host with build := b } db = op.exec { host with build := b' } db := by
  cases op with
  | migrate => exact absurd rfl hup
  | migrateDown v => exact absurd rfl (hdown v)
  | insertEvents now events =>
    simp only [StoreOp.returns, StoreOp.exec, SorobanLens.insertEvents, insertDecoded_build b b' h,
      and_self]
  | insertDecoded events =>
    simp only [StoreOp.returns, StoreOp.exec, insertDecoded_build b b' h, and_self]
  | importSnapshot file =>
    simp only [StoreOp.returns, StoreOp.exec, Backend.importSnapshot, importLines_build b b' h, and_self]
  | saveStreamState state => exact ⟨rfl, rfl⟩
  | saveContractSpec record => exact ⟨rfl, rfl⟩
  | pruneBefore ledger =>
    simp only [StoreOp.returns, StoreOp.exec, pruneBefore_build b b' h, and_self]
  | pruneToSize disk targetBytes chunkLedgers =>
    simp only [StoreOp.returns, StoreOp.exec, pruneToSize_build b b' h, and_self]
  | redecode all => simp only [StoreOp.returns, StoreOp.exec, redecode_build b b' h, and_self]
  | repairRow id => simp only [StoreOp.returns, StoreOp.exec, repairRow_build b b' h, and_self]
  | rebuildSearchIndex => exact absurd rfl hrebuild

end NoTriggers

/-- On a build without the extension everything but searching and rebuilding goes as
on a build that has it. -/
structure Db.WorksWithoutFts5 (db : Db) : Prop where
  operations : ∀ (host : Host) (op : StoreOp), op ≠ .rebuildSearchIndex →
    (∀ v, op ≠ .migrateDown v) →
    op.returns { host with build := ⟨false⟩ } db = op.returns { host with build := ⟨true⟩ } db ∧
      op.exec { host with build := ⟨false⟩ } db = op.exec { host with build := ⟨true⟩ } db
  getEvent : ∀ id, SorobanLens.getEvent ⟨false⟩ id db = SorobanLens.getEvent ⟨true⟩ id db
  queryEvents : ∀ (rd : Reader) (query : EventQuery) (cache : CountCache),
    given query.search = none →
    SorobanLens.queryEvents { rd with build := ⟨false⟩ } query db cache =
      SorobanLens.queryEvents { rd with build := ⟨true⟩ } query db cache

theorem migrateSync_of_current {build : SqliteBuild} {db : Db}
    (h : db.withMigrationsTable.Current) : migrateSync build db = (.ok (), db.withMigrationsTable) := by
  unfold migrateSync
  exact if_pos h

theorem worksWithoutFts5 {db : Db} (htriggers : db.triggers = [])
    (hcurrent : db.withMigrationsTable.Current) : db.WorksWithoutFts5 := by
  refine ⟨?_, getEvent_build _ _ htriggers, fun rd query cache h => queryEvents_build _ _ h rd cache⟩
  intro host op hrebuild hdown
  by_cases hup : op = .migrate
  · subst hup
    simp only [StoreOp.returns, StoreOp.exec, migrateSync_of_current hcurrent, and_self]
  · exact op.build _ _ htriggers host hup hdown hrebuild

/-! ### Histories of opens -/

structure OpenFile where
  db : Db
  build : Option SqliteBuild

inductive SearchStep (allowed : Db → SqliteBuild → Prop) : OpenFile → OpenFile → Prop where
  | opens {db : Db} {before : Option SqliteBuild} (build : SqliteBuild) : allowed db build →
      SearchStep allowed ⟨db, before⟩ ⟨(migrateSync build db).2, some build⟩
  | runs {db : Db} (host : Host) (op : StoreOp) : (∀ v, op ≠ .migrateDown v) →
      SearchStep allowed ⟨db, some host.build⟩ ⟨op.exec host db, some host.build⟩

/-- A closed file of some version of the schema, as its own version of the store left it. -/
def OpenFile.Closed (s : OpenFile) : Prop :=
  s.build = none ∧ s.db.SearchKept ∧ ∃ fts5 version, s.db.AtVersion fts5 version

/-- A file the search migration was applied to stays with builds of the kind that applied
it; where the extension is there when it is applied, there is no event yet. -/
def Db.SuitsBuild (db : Db) (build : SqliteBuild) : Prop :=
  if 5 ∈ db.appliedVersions then build.fts5 = db.eventsFts.isSome
  else build.fts5 = true → tableRows db.events = []

/-- Search finds every event where the build can search, and where it cannot nothing
else suffers. -/
structure OpenFile.SearchSound (s : OpenFile) : Prop where
  indexed : s.build = some ⟨true⟩ → s.db.Current → s.db.SearchExact
  unhindered : s.build = some ⟨false⟩ → s.db.WorksWithoutFts5
  opens : ∀ build, (migrateSync build s.db).1 = .ok ()

section Opens

variable {build : SqliteBuild} {db : Db} {fts5 : Bool} {version : Nat}

theorem triggers_schemaAt : ∀ fts5 : Bool, ∀ version ≤ 6, (schemaAt fts5 version).triggers =
    if fts5 = true ∧ 5 ≤ version then [.ftsInsert, .ftsUpdate, .ftsDelete] else [] := by
  decide +kernel

theorem Db.AtVersion.triggers (h : db.AtVersion fts5 version) : db.triggers =
    if fts5 = true ∧ 5 ≤ version then [.ftsInsert, .ftsUpdate, .ftsDelete] else [] := by
  rw [← triggers_schemaAt fts5 version h.1, ← h.2]
  rfl

theorem Db.AtVersion.mem_triggers (h : db.AtVersion fts5 version)
    (hsome : db.eventsFts.isSome = true) (name : TriggerName) : name ∈ db.triggers := by
  rw [h.tables.2, Bool.and_eq_true, decide_eq_true_eq] at hsome
  rw [h.triggers, if_pos hsome]
  cases name <;> decide

theorem Db.AtVersion.searchApplied (h : db.AtVersion fts5 version) :
    5 ∈ db.appliedVersions ↔ 5 ≤ version := by
  rw [h.appliedVersions, List.mem_map]
  constructor
  · intro hmem
    obtain ⟨i, hi, heq⟩ := hmem
    have hlow := List.mem_range.mp hi
    omega
  · intro hversion
    exact ⟨4, List.mem_range.mpr (by omega), rfl⟩

theorem Db.AtVersion.current (h : db.AtVersion fts5 6) : db.withMigrationsTable.Current := by
  have hsame : pendingMigrations db.withMigrationsTable =
      pendingMigrations db.withMigrationsTable.skeleton := rfl
  unfold Db.Current
  rw [hsame, h.2]
  exact current_schemaAt fts5

theorem Db.AtVersion.suitsBuild_iff (h : db.AtVersion fts5 version) : db.SuitsBuild build ↔
    if 5 ≤ version then build.fts5 = fts5 else build.fts5 = true → tableRows db.events = [] := by
  unfold Db.SuitsBuild
  rw [if_congr h.searchApplied rfl rfl]
  split
  · rename_i hversion
    rw [h.tables.2, decide_eq_true hversion, Bool.and_true]
  · rfl

theorem searchKept_migrate (hat : db.AtVersion fts5 version) (hk : db.SearchKept)
    (hsuits : db.SuitsBuild build) : (migrateSync build db).2.SearchKept := by
  obtain ⟨after, hrun, hskeleton⟩ := hat.migrate build
  have hafter : after.AtVersion (if version < 5 then build.fts5 else fts5) 6 :=
    .of_skeleton (le_refl 6) hskeleton
  have hkeeps := keeps_migrateSync hrun
  rw [hrun]
  intro hsome
  refine ⟨hafter.mem_triggers hsome, ?_⟩
  unfold Db.SearchExact
  rw [hkeeps.events.tableRows]
  rcases hkeeps.eventsFts with hsame | ⟨hnone, hfresh⟩
  · rw [hsame] at hsome ⊢
    exact (hk hsome).2
  · have hold : ¬ (fts5 = true ∧ 5 ≤ version) := by
      have htables := hat.tables.2
      rw [hnone] at htables
      intro hboth
      simp [hboth.1, hboth.2] at htables
    have hnew : (if version < 5 then build.fts5 else fts5) = true := by
      have htables := hafter.tables.2
      rw [hfresh] at htables
      simpa using htables.symm
    have hbefore : ¬ 5 ≤ version := by
      intro hversion
      rw [if_neg (by omega)] at hnew
      exact hold ⟨hnew, hversion⟩
    rw [if_pos (by omega)] at hnew
    have hrows := hat.suitsBuild_iff.mp hsuits
    rw [if_neg hbefore] at hrows
    rw [hrows hnew]
    exact ⟨[], hfresh, SideTable.mirrors_nil⟩

end Opens

structure OpenFile.Settled (s : OpenFile) (fts5 : Bool) (version : Nat) : Prop where
  atVersion : s.db.AtVersion fts5 version
  kept : s.db.SearchKept
  latest : s.build.isSome = true → version = 6
  build : ∀ build, s.build = some build → build.fts5 = fts5

theorem OpenFile.Settled.sound {s : OpenFile} {fts5 : Bool} {version : Nat}
    (h : s.Settled fts5 version) : s.SearchSound := by
  have hopen : ∀ b, s.build = some b → s.db.AtVersion b.fts5 6 := by
    intro b hb
    have hlatest := h.latest (by rw [hb]; rfl)
    subst hlatest
    rw [h.build b hb]
    exact h.atVersion
  refine ⟨?_, ?_, ?_⟩
  · intro hb _
    exact (h.kept (by rw [(hopen _ hb).tables.2]; rfl)).2
  · intro hb
    have hat := hopen _ hb
    refine worksWithoutFts5 ?_ hat.current
    rw [hat.triggers]
    simp
  · intro b
    obtain ⟨after, hrun, -⟩ := h.atVersion.migrate b
    rw [hrun]

theorem OpenFile.Settled.step {s s' : OpenFile} {fts5 : Bool} {version : Nat}
    (h : s.Settled fts5 version) (hstep : SearchStep Db.SuitsBuild s s') :
    ∃ fts5' version', s'.Settled fts5' version' := by
  cases hstep with
  | @opens db before build hsuits =>
    obtain ⟨after, hrun, hskeleton⟩ := h.atVersion.migrate build
    have hkept := searchKept_migrate h.atVersion h.kept hsuits
    have hkind : (if version < 5 then build.fts5 else fts5) = build.fts5 := by
      have hiff := (h.atVersion.suitsBuild_iff).mp hsuits
      split
      · rfl
      · rw [if_pos (by omega)] at hiff
        exact hiff.symm
    rw [hkind] at hskeleton
    rw [hrun] at hkept ⊢
    exact ⟨build.fts5, 6, .of_skeleton (le_refl 6) hskeleton, hkept, fun _ => rfl,
      fun b hb => by cases hb; rfl⟩
  | @runs db host op hdown =>
    have hlatest := h.latest rfl
    subst hlatest
    have hkind := h.build host.build rfl
    refine ⟨fts5, 6, ?_, ?_, fun _ => rfl, h.build⟩
    · by_cases hup : op = .migrate
      · subst hup
        simp only [StoreOp.exec, migrateSync_of_current h.atVersion.current]
        refine ⟨le_refl 6, ?_⟩
        rw [← h.atVersion.2]
        cases hm : db.schemaMigrations <;> simp [Db.withMigrationsTable, hm]
      · exact h.atVersion.congr (op.skeleton_exec host db hup hdown)
    · by_cases hup : op = .migrate
      · subst hup
        simp only [StoreOp.exec, migrateSync_of_current h.atVersion.current]
        exact h.kept.congr rfl rfl rfl
      · exact (keptByWrites_search host).exec op hup hdown h.kept

theorem settled_of_run {s : OpenFile}
    (h : Reachable OpenFile.Closed (SearchStep Db.SuitsBuild) s) :
    ∃ fts5 version, s.Settled fts5 version := by
  obtain ⟨s₀, hclosed, hrun⟩ := h
  induction hrun with
  | refl =>
    obtain ⟨hnone, hkept, fts5, version, hat⟩ := hclosed
    exact ⟨fts5, version, hat, hkept, by simp [hnone], by simp [hnone]⟩
  | tail _ hstep ih =>
    obtain ⟨fts5, version, hs⟩ := ih
    exact hs.step hstep

theorem search_sound {s : OpenFile}
    (h : Reachable OpenFile.Closed (SearchStep Db.SuitsBuild) s) : s.SearchSound := by
  obtain ⟨fts5, version, hsettled⟩ := settled_of_run h
  exact hsettled.sound

/-! ### Opens that do not suit -/

/-- A build without the extension cannot write a file with search triggers. -/
theorem not_worksWithoutFts5 {db : Db} (hready : db.Ready ⟨true⟩)
    (htrigger : .ftsInsert ∈ db.triggers) : ¬ db.WorksWithoutFts5 := by
  intro h
  obtain ⟨n, db', hins, -⟩ := hready.insertDecoded smallHost.rt [plainEvent "a"]
  have hsame := (h.operations smallHost (.insertDecoded [plainEvent "a"]) (by simp) (by simp)).1
  have hthrows : (insertDecoded smallHost.rt ⟨false⟩ [plainEvent "a"] db).1 = .error .noSuchModule := by
    obtain ⟨t, ht⟩ := Option.isSome_iff_exists.mp hready.events
    have hprep : prepared ⟨false⟩ db = .error .noSuchModule := by
      simp [prepared, prepareWrite, ht, htrigger, Db.fts, bind, Except.bind]
    simp [insertDecoded, hprep]
  simp only [StoreOp.returns, hthrows, hins] at hsame
  cases hsame

theorem search_opened_iff {db : Db} {fts5 : Bool} {version : Nat} (hat : db.AtVersion fts5 version)
    (hk : db.SearchKept) (build : SqliteBuild) :
    (OpenFile.mk (migrateSync build db).2 (some build)).SearchSound ↔ db.SuitsBuild build := by
  obtain ⟨after, hrun, hskeleton⟩ := hat.migrate build
  have hafter : after.AtVersion (if version < 5 then build.fts5 else fts5) 6 :=
    .of_skeleton (le_refl 6) hskeleton
  have hkeeps := keeps_migrateSync hrun
  constructor
  · intro hsound
    rw [hrun] at hsound
    have hcurrent : after.Current := by
      have hsame : pendingMigrations after = pendingMigrations after.skeleton := rfl
      unfold Db.Current
      rw [hsame, hskeleton]
      exact current_schemaAt _
    have hexact : build.fts5 = true → after.SearchExact := by
      intro hb
      refine hsound.indexed ?_ hcurrent
      rw [← hb]
    rw [hat.suitsBuild_iff]
    split
    · rename_i hversion
      rw [if_neg (by omega)] at hafter
      cases hb : build.fts5 with
      | true =>
        obtain ⟨rows, hrows, -⟩ := hexact hb
        have hsome := hafter.tables.2
        rw [hrows] at hsome
        simpa using hsome
      | false =>
        cases hf : fts5 with
        | false => rfl
        | true =>
          subst hf
          refine absurd (hsound.unhindered (by rw [← hb])) (not_worksWithoutFts5 ?_ ?_)
          · obtain ⟨hevents, hstream, haddresses⟩ := hafter.baseTables
            exact ⟨hevents, haddresses, hstream, fun _ => ⟨rfl, hafter.tables.2⟩⟩
          · exact hafter.mem_triggers hafter.tables.2 _
    · rename_i hversion
      intro hb
      obtain ⟨rows, hrows, hmirrors⟩ := hexact hb
      have hnone : db.eventsFts = none := by
        have htables := hat.tables.2
        rw [decide_eq_false hversion, Bool.and_false] at htables
        simpa using htables
      rw [hkeeps.events.tableRows] at hmirrors
      rcases hkeeps.eventsFts with hsame | ⟨-, hfresh⟩
      · rw [hsame, hnone] at hrows
        cases hrows
      · rw [hfresh] at hrows
        cases hrows
        exact List.map_eq_nil_iff.mp (List.nil_perm.mp hmirrors)
  · intro hsuits
    obtain ⟨fts5', version', hsettled⟩ := OpenFile.Settled.step (s := ⟨db, none⟩)
      ⟨hat, hk, by simp, by simp⟩ (SearchStep.opens build hsuits)
    exact hsettled.sound

/-! ### An upgrade over stored events -/

theorem closed_new : OpenFile.Closed ⟨Db.new, none⟩ := by
  refine ⟨rfl, ?_, true, 0, by omega, by decide +kernel⟩
  intro hsome
  cases hsome

/-- A file made and written by builds that have the extension. -/
theorem search_sound_plain : (tableRows (plainDb ["a"]).events).length = 1 ∧
    (OpenFile.mk (plainDb ["a"]) (some ⟨true⟩)).SearchSound := by
  refine ⟨by decide +kernel, search_sound ?_⟩
  refine Reachable.next (Reachable.next (.start closed_new) (.opens ⟨true⟩ ?_))
    (SearchStep.runs ⟨plainRuntime, ⟨true⟩, smallHost.server⟩ (.insertDecoded [plainEvent "a"]) (by simp))
  exact fun _ => rfl

def olderPlainDb : Db := (migrateDown ⟨true⟩ (.ofNat 4) (plainDb ["a"])).2

theorem search_upgrade_forgets : ∃ s,
    Reachable OpenFile.Closed (SearchStep (fun _ _ => True)) s ∧ ¬ s.SearchSound := by
  have hreached : olderPlainDb.Reached :=
    ((reached_new.exec ⟨plainRuntime, ⟨true⟩, smallHost.server⟩ .migrate).exec
      ⟨plainRuntime, ⟨true⟩, smallHost.server⟩ (.insertDecoded [plainEvent "a"])).exec
      ⟨plainRuntime, ⟨true⟩, smallHost.server⟩ (.migrateDown (.ofNat 4))
  obtain ⟨fts5, version, hat⟩ := hreached.atVersion
  have hnone : olderPlainDb.eventsFts.isSome = false := by decide +kernel
  have hkept : olderPlainDb.SearchKept := by
    intro hsome
    rw [hnone] at hsome
    cases hsome
  refine ⟨⟨(migrateSync ⟨true⟩ olderPlainDb).2, some ⟨true⟩⟩,
    Reachable.next (.start (s := ⟨olderPlainDb, none⟩) ⟨rfl, hkept, fts5, version, hat⟩)
      (.opens ⟨true⟩ trivial), ?_⟩
  rw [search_opened_iff hat hkept]
  have hunapplied : 5 ∉ olderPlainDb.appliedVersions := by decide +kernel
  have hrows : tableRows olderPlainDb.events = [plainRow "a"] := by
    have hspared := @migrateDown_spares ⟨true⟩ (.ofNat 4) (plainDb ["a"]) (by decide)
    unfold olderPlainDb
    rw [hspared.1]
    rfl
  unfold Db.SuitsBuild
  rw [if_neg hunapplied, hrows]
  simp

end SorobanLens
