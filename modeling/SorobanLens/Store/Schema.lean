import SorobanLens.Store.Rows
import Mathlib.Data.List.Sort

/-!
The database file: its tables, the data definition its migrations run, and the
runner that applies and rolls them back.
-/

set_option autoImplicit false

namespace SorobanLens

inductive TableName where
  | events
  | streamState
  | eventAddresses
  | eventsFts
  | contractSpecs
  deriving DecidableEq, Repr

inductive TriggerName where
  | ftsInsert
  | ftsUpdate
  | ftsDelete
  deriving DecidableEq, Repr

structure MigrationRow where
  version : Nat
  name : String
  deriving DecidableEq, Repr

abbrev EventsTable := KeyedTable EventRow.id

abbrev AddressTable := KeyedTable (id : AddressRow → AddressRow)

abbrev StreamTable := KeyedTable StreamState.key

abbrev SpecTable := KeyedTable SpecRow.contractId

/-- One SQLite database file. A table that was never created, or was dropped, is
`none`. -/
structure Db where
  schemaMigrations : Option (KeyedTable MigrationRow.version)
  events : Option EventsTable
  streamState : Option StreamTable
  eventAddresses : Option AddressTable
  eventsFts : Option (List FtsRow)
  contractSpecs : Option SpecTable
  indexes : List (String × TableName)
  triggers : List TriggerName

def Db.new : Db := ⟨none, none, none, none, none, none, [], []⟩

structure SqliteBuild where
  fts5 : Bool
  deriving DecidableEq, Repr

inductive StoreError where
  | noSuchTable (name : String)
  | noSuchModule
  | alreadyExists (name : String)
  | foreignKey
  /-- An error object thrown by the program itself. -/
  | thrown (message : String)
  deriving DecidableEq, Repr

/-- `BEGIN … COMMIT`: an error leaves the database as it was. -/
def transaction {α : Type} (db : Db) (body : Except StoreError (α × Db)) :
    Except StoreError α × Db :=
  match body with
  | .ok (a, db') => (.ok a, db')
  | .error e => (.error e, db)

/-- The rows of the search table, for a statement or trigger that touches it. -/
def Db.fts (build : SqliteBuild) (db : Db) : Except StoreError (List FtsRow) :=
  if build.fts5 then
    match db.eventsFts with
    | some rows => .ok rows
    | none => .error (.noSuchTable "events_fts")
  else .error .noSuchModule

/-! ### Data definition -/

inductive Ddl where
  | createTable (t : TableName)
  | createIndex (name : String) (on : TableName)
  | createTrigger (name : TriggerName)
  | dropTableIfExists (t : TableName)
  | dropIndexIfExists (name : String)
  | dropTriggerIfExists (name : TriggerName)
  deriving DecidableEq, Repr

def TableName.text : TableName → String
  | .events => "events"
  | .streamState => "stream_state"
  | .eventAddresses => "event_addresses"
  | .eventsFts => "events_fts"
  | .contractSpecs => "contract_specs"

def TriggerName.text : TriggerName → String
  | .ftsInsert => "trg_events_fts_insert"
  | .ftsUpdate => "trg_events_fts_update"
  | .ftsDelete => "trg_events_fts_delete"

def Db.hasTable (db : Db) : TableName → Bool
  | .events => db.events.isSome
  | .streamState => db.streamState.isSome
  | .eventAddresses => db.eventAddresses.isSome
  | .eventsFts => db.eventsFts.isSome
  | .contractSpecs => db.contractSpecs.isSome

def Db.putEmpty (db : Db) : TableName → Db
  | .events => { db with events := some .empty }
  | .streamState => { db with streamState := some .empty }
  | .eventAddresses => { db with eventAddresses := some .empty }
  | .eventsFts => { db with eventsFts := some [] }
  | .contractSpecs => { db with contractSpecs := some .empty }

/-- Dropping `events` deletes the rows that reference it and its own triggers. -/
def Db.removeTable (db : Db) : TableName → Db
  | .events =>
    { db with
      events := none
      eventAddresses := db.eventAddresses.map (fun _ => .empty)
      triggers := [] }
  | .streamState => { db with streamState := none }
  | .eventAddresses => { db with eventAddresses := none }
  | .eventsFts => { db with eventsFts := none }
  | .contractSpecs => { db with contractSpecs := none }

def Ddl.exec (build : SqliteBuild) (db : Db) : Ddl → Except StoreError Db
  | .createTable t =>
    if t = .eventsFts ∧ build.fts5 = false then .error .noSuchModule
    else if db.hasTable t then .error (.alreadyExists t.text)
    else .ok (db.putEmpty t)
  | .createIndex name t =>
    if db.hasTable t = false then .error (.noSuchTable t.text)
    else if name ∈ db.indexes.map Prod.fst then .error (.alreadyExists name)
    else .ok { db with indexes := db.indexes ++ [(name, t)] }
  | .createTrigger name =>
    if db.events = none then .error (.noSuchTable "events")
    else if name ∈ db.triggers then .error (.alreadyExists name.text)
    else .ok { db with triggers := db.triggers ++ [name] }
  | .dropTableIfExists t =>
    if db.hasTable t = false then .ok db
    else if t = .eventsFts ∧ build.fts5 = false then .error .noSuchModule
    else .ok { db.removeTable t with indexes := db.indexes.filter (fun i => i.2 ≠ t) }
  | .dropIndexIfExists name => .ok { db with indexes := db.indexes.filter (fun i => i.1 ≠ name) }
  | .dropTriggerIfExists name => .ok { db with triggers := db.triggers.filter (· ≠ name) }

def execAll (build : SqliteBuild) : List Ddl → Db → Except StoreError Db
  | [], db => .ok db
  | d :: ds, db => do
    let db ← d.exec build db
    execAll build ds db

/-! ### Migrations -/

structure Migration where
  version : Nat
  name : String
  up : List Ddl
  down : Option (List Ddl)
  requiresFts5 : Bool := false
  deriving DecidableEq, Repr

def MIGRATIONS : List Migration :=
  [ { version := 1
      name := "initial-events-schema"
      up :=
        [ .createTable .events
        , .createIndex "idx_events_contract_id_desc" .events
        , .createIndex "idx_events_ledger" .events
        , .createIndex "idx_events_topic0" .events
        , .createIndex "idx_events_contract_topic0" .events
        , .createIndex "idx_events_tx_hash" .events
        , .createTable .streamState ]
      down := some [.dropTableIfExists .streamState, .dropTableIfExists .events] }
  , { version := 2
      name := "index-indexed-at"
      up := [.createIndex "idx_events_indexed_at" .events]
      down := some [.dropIndexIfExists "idx_events_indexed_at"] }
  , { version := 3
      name := "index-closed-at-unix"
      up := [.createIndex "idx_events_closed_at_unix" .events]
      down := some [.dropIndexIfExists "idx_events_closed_at_unix"] }
  , { version := 4
      name := "index-decoded-addresses"
      up :=
        [ .createTable .eventAddresses
        , .createIndex "idx_event_addresses_address" .eventAddresses
        , .createIndex "idx_event_addresses_event_id" .eventAddresses ]
      down := some [.dropTableIfExists .eventAddresses] }
  , { version := 5
      name := "full-text-search"
      requiresFts5 := true
      up :=
        [ .createTable .eventsFts
        , .createTrigger .ftsInsert
        , .createTrigger .ftsUpdate
        , .createTrigger .ftsDelete ]
      down := some
        [ .dropTriggerIfExists .ftsDelete
        , .dropTriggerIfExists .ftsUpdate
        , .dropTriggerIfExists .ftsInsert
        , .dropTableIfExists .eventsFts ] }
  , { version := 6
      name := "contract-specs"
      up := [.createTable .contractSpecs]
      down := some [.dropTableIfExists .contractSpecs] } ]

def LATEST_SCHEMA_VERSION : Nat := MIGRATIONS.foldl (fun top m => max top m.version) 0

def Db.migrationRows (db : Db) : List MigrationRow :=
  match db.schemaMigrations with
  | some t => t.rows
  | none => []

def Db.appliedVersions (db : Db) : List Nat := db.migrationRows.map MigrationRow.version

def Db.record (db : Db) (m : Migration) : Db :=
  { db with
    schemaMigrations := db.schemaMigrations.map (fun t => t.insertOrIgnore ⟨m.version, m.name⟩) }

def runUp (build : SqliteBuild) (m : Migration) (db : Db) : Except StoreError Db :=
  if m.requiresFts5 && !build.fts5 then .ok db else execAll build m.up db

/-- One turn of the runner: a skipped migration is recorded all the same. -/
def applyMigration (build : SqliteBuild) (m : Migration) (db : Db) : Except StoreError Db :=
  (runUp build m db).map (fun db => db.record m)

def applyMigrations (build : SqliteBuild) : List Migration → Db → Except StoreError Db
  | [], db => .ok db
  | m :: ms, db => do
    let db ← applyMigration build m db
    applyMigrations build ms db

/-- `MIGRATIONS` ascends by version, so what is missing is in order already. -/
def pendingMigrations (db : Db) : List Migration :=
  MIGRATIONS.filter (fun m => m.version ∉ db.appliedVersions)

def Db.withMigrationsTable (db : Db) : Db :=
  { db with schemaMigrations := some (db.schemaMigrations.getD .empty) }

def migrateSync (build : SqliteBuild) (db : Db) : Except StoreError Unit × Db :=
  let db := db.withMigrationsTable
  let pending := pendingMigrations db
  if pending = [] then (.ok (), db)
  else transaction db ((applyMigrations build pending db).map (fun db => ((), db)))

def migrationByVersion (version : Nat) : Option Migration :=
  MIGRATIONS.find? (fun m => m.version = version)

def rollbackMigration (build : SqliteBuild) (version : Nat) (down : List Ddl) (db : Db) :
    Except StoreError Db := do
  let db ← execAll build down db
  pure { db with
    schemaMigrations := db.schemaMigrations.map (fun t => t.deleteWhere (fun r => r.version = version)) }

def rollbackMigrations (build : SqliteBuild) : List MigrationRow → Db → Except StoreError Db
  | [], db => .ok db
  | r :: rs, db =>
    match (migrationByVersion r.version).bind Migration.down with
    | some down => do
      let db ← rollbackMigration build r.version down db
      rollbackMigrations build rs db
    | none => .error (.thrown (noDown r))
where
  noDown (r : MigrationRow) : String :=
    "cannot roll back: migration " ++ toString r.version ++ " (" ++ r.name ++
      ") has no down SQL. Nothing was rolled back."

def migrateDown (build : SqliteBuild) (toVersion : JsNumber) (db : Db) :
    Except StoreError (List Nat) × Db :=
  match db.schemaMigrations with
  | none => (.error (.noSuchTable "schema_migrations"), db)
  | some t =>
    let applied := (t.rows.insertionSort (fun a b => b.version ≤ a.version)).filter
      (fun r => JsNumber.lt toVersion (.ofNat r.version))
    if applied = [] then (.ok [], db)
    else
      match applied.find? (fun r => ((migrationByVersion r.version).bind Migration.down).isNone) with
      | some r => (.error (.thrown (rollbackMigrations.noDown r)), db)
      | none =>
        transaction db ((rollbackMigrations build applied db).map
          (fun db => (applied.map MigrationRow.version, db)))

def Db.Current (db : Db) : Prop := pendingMigrations db = []

end SorobanLens
