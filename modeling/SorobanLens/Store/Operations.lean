import SorobanLens.Store.Prune
import SorobanLens.Store.Snapshot
import SorobanLens.Lib.Transition

/-!
Every operation that writes the database file, as one type, and what each of the
remaining ones can do: contract specs, re-decoding, repair and import.
-/

set_option autoImplicit false

namespace SorobanLens

/-! ### Contract specs -/

inductive SpecSource where
  | wasm
  | stellarAsset
  | none
  deriving DecidableEq, Repr

def SpecSource.text : SpecSource → String
  | .wasm => "wasm"
  | .stellarAsset => "stellar-asset"
  | .none => "none"

structure ContractSpecRecord where
  contractId : String
  source : SpecSource
  wasmHash : Option String
  entriesXdr : List String
  eventCount : Nat
  error : Option String
  fetchedAt : String
  deriving DecidableEq, Repr

def ContractSpecRecord.toRow (record : ContractSpecRecord) : SpecRow where
  contractId := record.contractId
  source := record.source.text
  wasmHash := record.wasmHash
  entriesXdr := stringify (stringsToJson record.entriesXdr)
  eventCount := record.eventCount
  error := record.error
  fetchedAt := record.fetchedAt

def saveContractSpec (record : ContractSpecRecord) (db : Db) : Except StoreError Unit × Db :=
  match db.contractSpecs with
  | none => (.error (.noSuchTable "contract_specs"), db)
  | some t => (.ok (), { db with contractSpecs := some (t.upsert record.toRow) })

def SpecSource.ofText (text : String) : SpecSource :=
  if text = "wasm" then .wasm else if text = "stellar-asset" then .stellarAsset else .none

def SpecRow.toRecord (row : SpecRow) : Option ContractSpecRecord :=
  ((parseJson row.entriesXdr).bind stringsOfJson).map (fun entriesXdr =>
    { contractId := row.contractId
      source := .ofText row.source
      wasmHash := row.wasmHash
      entriesXdr := entriesXdr
      eventCount := row.eventCount
      error := row.error
      fetchedAt := row.fetchedAt })

def getContractSpec (contractId : String) (db : Db) :
    Except StoreError (Option ContractSpecRecord) :=
  match db.contractSpecs with
  | none => .error (.noSuchTable "contract_specs")
  | some t =>
    match t.find? contractId with
    | none => .ok none
    | some row =>
      match row.toRecord with
      | some record => .ok (some record)
      | none => .error (.thrown "unreadable spec")

/-! ### The operations -/

inductive StoreOp where
  | migrate
  | migrateDown (toVersion : JsNumber)
  | insertEvents (now : Nat → String) (events : List RawEvent)
  | insertDecoded (events : List LensEvent)
  | importSnapshot (file : List Char)
  | saveStreamState (state : StreamState)
  | saveContractSpec (record : ContractSpecRecord)
  | pruneBefore (ledger : JsNumber)
  | pruneToSize (disk : Option Disk) (targetBytes chunkLedgers : JsNumber)
  | redecode (all : Bool)
  | repairRow (id : String)
  | rebuildSearchIndex

def Backend.file (s : Backend) (db : Db) : Db :=
  match s with
  | .sqlite db' => db'
  | .postgres _ => db

def StoreOp.exec (host : Host) (db : Db) : StoreOp → Db
  | .migrate => (SorobanLens.migrateSync host.build db).2
  | .migrateDown toVersion => (SorobanLens.migrateDown host.build toVersion db).2
  | .insertEvents now events => (SorobanLens.insertEvents host.rt host.build now events db).2
  | .insertDecoded events => (SorobanLens.insertDecoded host.rt host.build events db).2
  | .importSnapshot file => (Backend.importSnapshot host file (.sqlite db)).2.file db
  | .saveStreamState state => (SorobanLens.saveStreamState state db).2
  | .saveContractSpec record => (SorobanLens.saveContractSpec record db).2
  | .pruneBefore ledger => (SorobanLens.pruneBefore host.build ledger db).2
  | .pruneToSize disk targetBytes chunkLedgers =>
    (SorobanLens.pruneToSize host.build disk targetBytes chunkLedgers db).2
  | .redecode all => (SorobanLens.redecode host.rt host.build all db).2
  | .repairRow id => (SorobanLens.repairRow host.rt host.build id db).2
  | .rebuildSearchIndex => (SorobanLens.rebuildSearchIndex host.build db).2

/-- Some process performs some operation on the file; opening a store is `migrate`. -/
def StoreStep (db db' : Db) : Prop := ∃ (host : Host) (op : StoreOp), db' = op.exec host db

def Db.Reached (db : Db) : Prop := Reachable (fun d => d = Db.new) StoreStep db

/-! ### Re-decoding -/

theorem updateRow_ok {build : SqliteBuild} {row : EventRow} {d : DerivedColumns} {db db' : Db}
    (h : updateRow build row d db = .ok db') :
    ∃ t, db.events = some t ∧ ((t.find? row.id = none ∧ db' = db) ∨
      ∃ current, t.find? row.id = some current ∧
        db' = { db with
          events := some (t.updateKey row.id (fun r => r.setDerived d) (fun _ => rfl))
          eventsFts := db'.eventsFts } ∧
        db.FtsAfter build .ftsUpdate (fun rows => rows.filter (fun f => f.eventId ≠ row.id) ++
          [⟨row.id, d.topicsJson, d.valueJson⟩]) db') := by
  obtain ⟨t, ht, h⟩ := bind_eq_ok.mp h
  refine ⟨t, (prepareWrite_ok.mp ht).1, ?_⟩
  cases hf : t.find? row.id with
  | none =>
    rw [hf] at h
    cases h
    exact .inl ⟨rfl, rfl⟩
  | some current =>
    rw [hf] at h
    obtain ⟨hdb, hfts⟩ := fireUpdate_ok h
    have hid : current.id = row.id := (KeyedTable.find?_eq_some.mp hf).2
    refine .inr ⟨current, rfl, hdb, ?_⟩
    rw [setDerived_id, hid] at hfts
    exact hfts

theorem refreshAddresses_ok {rt : Runtime} {build : SqliteBuild} {id : String} {event : LensEvent}
    {db db' : Db} (h : refreshAddresses rt build id event db = .ok db') :
    ∃ a, db.eventAddresses = some a ∧ db' = { db with
      eventAddresses := some ((a.deleteWhere (fun r => r.eventId = id)).insertAll
        (addressRows rt.sdk id event)) } := by
  obtain ⟨a, ha, h⟩ := bind_eq_ok.mp h
  obtain ⟨b, hb, hdb⟩ := insertAddresses_ok h
  cases hb
  exact ⟨a, addressTable_ok.mp ha, hdb⟩

theorem recomputeRow_ok {rt : Runtime} {build : SqliteBuild} {row : EventRow} {db db' : Db}
    (h : recomputeRow rt build row db = .ok db') :
    ∃ d event mid, recompute rt row = some (d, event) ∧ updateRow build row d db = .ok mid ∧
      refreshAddresses rt build row.id event mid = .ok db' := by
  unfold recomputeRow at h
  split at h
  · cases h
  · rename_i d event hr
    obtain ⟨mid, hm, h⟩ := bind_eq_ok.mp h
    exact ⟨d, event, mid, hr, hm, h⟩

theorem recomputeRows_induct {rt : Runtime} {build : SqliteBuild} {P : Db → Prop}
    (step : ∀ row db db', P db → recomputeRow rt build row db = .ok db' → P db')
    {rows : List EventRow} {db db' : Db} (hp : P db)
    (h : recomputeRows rt build rows db = .ok db') : P db' := by
  induction rows generalizing db with
  | nil =>
    cases h
    exact hp
  | cons row rows ih =>
    obtain ⟨mid, hm, h⟩ := bind_eq_ok.mp h
    exact ih (step row db mid hp hm) h

/-- A re-decode rewrites the rows it selects in one transaction, or changes nothing. -/
theorem redecode_cases {rt : Runtime} {build : SqliteBuild} {all : Bool} {db db' : Db}
    {r : Except StoreError Nat} (h : redecode rt build all db = (r, db')) :
    db' = db ∨ ∃ t, db.events = some t ∧
      recomputeRows rt build (t.rows.filter (fun row => all || row.decodeError.isSome)) db = .ok db' := by
  unfold redecode at h
  split at h
  · obtain ⟨-, rfl⟩ := Prod.mk.inj h
    exact .inl rfl
  · rename_i t ht
    simp only at h
    split at h
    · obtain ⟨-, rfl⟩ := Prod.mk.inj h
      exact .inl rfl
    · split at h
      · obtain ⟨-, rfl⟩ := Prod.mk.inj h
        exact .inl rfl
      · rcases transaction_cases h with ⟨n, -, hb⟩ | ⟨e, -, -, hdb⟩
        · obtain ⟨fin, hf, heq⟩ := map_eq_ok.mp hb
          cases heq
          exact .inr ⟨t, ht, hf⟩
        · exact .inl hdb

theorem repairRow_cases {rt : Runtime} {build : SqliteBuild} {id : String} {db db' : Db}
    {r : Except StoreError Unit} (h : repairRow rt build id db = (r, db')) :
    db' = db ∨ ∃ t row, db.events = some t ∧ t.find? id = some row ∧
      recomputeRow rt build row db = .ok db' := by
  unfold repairRow at h
  split at h
  · obtain ⟨-, rfl⟩ := Prod.mk.inj h
    exact .inl rfl
  · rename_i t ht
    split at h
    · obtain ⟨-, rfl⟩ := Prod.mk.inj h
      exact .inl rfl
    · rename_i row hrow
      rcases transaction_cases h with ⟨n, -, hb⟩ | ⟨e, -, -, hdb⟩
      · obtain ⟨fin, hf, heq⟩ := map_eq_ok.mp hb
        cases heq
        exact .inr ⟨t, row, ht, hrow, hf⟩
      · exact .inl hdb

theorem rebuildSearchIndex_cases {build : SqliteBuild} {db db' : Db} {r : Except StoreError Unit}
    (h : rebuildSearchIndex build db = (r, db')) :
    db' = db ∨ ∃ t, db.events = some t ∧ db.eventsFts.isSome = true ∧ db' = { db with
      eventsFts := some (t.rows.map (fun row => ⟨row.id, row.topicsJson, row.valueJson⟩)) } := by
  unfold rebuildSearchIndex at h
  split at h
  · obtain ⟨-, rfl⟩ := Prod.mk.inj h
    exact .inl rfl
  · rcases transaction_cases h with ⟨a, -, hb⟩ | ⟨e, -, -, hdb⟩
    · obtain ⟨rows, hrows, hb⟩ := bind_eq_ok.mp hb
      have hsome : db.eventsFts.isSome = true := by simp [(fts_ok.mp hrows).2]
      split at hb
      · cases hb
      · rename_i t ht
        cases hb
        exact .inr ⟨t, ht, hsome, rfl⟩
    · exact .inl hdb

/-! ### Importing -/

namespace Backend

theorem importLines_induct {host : Host} {P : Db → Prop}
    (step : ∀ es db, P db → P (SorobanLens.insertDecoded host.rt host.build es db).2)
    (ls : List (List Char)) (batch : List LensEvent) (inserted : Nat) {db : Db} (hp : P db) :
    ∃ r db', importLines host ls batch inserted (.sqlite db) = (r, .sqlite db') ∧ P db' := by
  have hflush : ∀ batch inserted db, P db →
      ∃ r db', flush host batch inserted (.sqlite db) = (r, .sqlite db') ∧ P db' := by
    intro batch inserted db hp
    have hkeep := step batch db hp
    simp only [flush, insertDecoded]
    cases hins : SorobanLens.insertDecoded host.rt host.build batch db with
    | mk r db' =>
      rw [hins] at hkeep
      cases r with
      | ok n => exact ⟨_, db', rfl, hkeep⟩
      | error e => exact ⟨_, db', rfl, hkeep⟩
  induction ls generalizing batch inserted db with
  | nil => exact hflush batch inserted db hp
  | cons line rest ih =>
    simp only [importLines]
    split
    · exact ⟨_, db, rfl, hp⟩
    · exact ih batch inserted hp
    · split
      · rename_i e _ _
        obtain ⟨r, mid, hmid, hpm⟩ := hflush (batch ++ [e]) inserted db hp
        rw [hmid]
        cases r with
        | ok n => exact ih [] n hpm
        | error e => exact ⟨_, mid, rfl, hpm⟩
      · exact ih _ inserted hp

theorem importSnapshot_induct {host : Host} {P : Db → Prop}
    (step : ∀ es db, P db → P (SorobanLens.insertDecoded host.rt host.build es db).2)
    (file : List Char) {db : Db} (hp : P db) :
    P ((importSnapshot host file (.sqlite db)).2.file db) := by
  obtain ⟨r, db', h, hkeep⟩ := importLines_induct step (lines [] file) [] 0 hp
  unfold importSnapshot
  rw [h]
  exact hkeep

end Backend

end SorobanLens
