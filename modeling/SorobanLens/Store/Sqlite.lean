import SorobanLens.Store.Schema

/-!
The write path of `SqliteEventStore`: statements with the triggers and the
cascade they fire, and the operations built from them. Every operation returns
its result and the database it leaves behind.
-/

set_option autoImplicit false

namespace SorobanLens

/-! ### Statements -/

/-- Preparing a statement that fires a trigger compiles the trigger too. -/
def prepareWrite (build : SqliteBuild) (trigger : TriggerName) (db : Db) :
    Except StoreError EventsTable :=
  match db.events with
  | none => .error (.noSuchTable "events")
  | some t =>
    if trigger ∈ db.triggers then do
      let _ ← db.fts build
      pure t
    else .ok t

def addressTable (db : Db) : Except StoreError AddressTable :=
  match db.eventAddresses with
  | none => .error (.noSuchTable "event_addresses")
  | some t => .ok t

/-- `#prepared()`: the insert, the lookup by id and the address insert. -/
def prepared (build : SqliteBuild) (db : Db) : Except StoreError Unit := do
  let _ ← prepareWrite build .ftsInsert db
  let _ ← addressTable db
  pure ()

def fireInsert (build : SqliteBuild) (row : EventRow) (db : Db) : Except StoreError Db :=
  if TriggerName.ftsInsert ∈ db.triggers then do
    let fts ← db.fts build
    pure { db with eventsFts := some (fts ++ [⟨row.id, row.topicsJson, row.valueJson⟩]) }
  else .ok db

def fireUpdate (build : SqliteBuild) (row : EventRow) (db : Db) : Except StoreError Db :=
  if TriggerName.ftsUpdate ∈ db.triggers then do
    let fts ← db.fts build
    pure { db with
      eventsFts := some (fts.filter (fun f => f.eventId ≠ row.id) ++
        [⟨row.id, row.topicsJson, row.valueJson⟩]) }
  else .ok db

def fireDelete (build : SqliteBuild) (ids : List String) (db : Db) : Except StoreError Db :=
  if TriggerName.ftsDelete ∈ db.triggers then do
    let fts ← db.fts build
    pure { db with eventsFts := some (fts.filter (fun f => f.eventId ∉ ids)) }
  else .ok db

/-- `type IN ('contract', 'system')`. -/
def EventType.admitted : EventType → Bool
  | .contract | .system => true
  | .diagnostic => false

/-- `INSERT OR IGNORE INTO events`; whether a row was added. A row that fails the
`CHECK` or repeats an id is skipped. -/
def insertRow (build : SqliteBuild) (row : EventRow) (db : Db) : Except StoreError (Bool × Db) := do
  let t ← prepareWrite build .ftsInsert db
  if row.type.admitted = false then pure (false, db)
  else if t.has row.id then pure (false, db)
  else
    let db ← fireInsert build row { db with events := some (t.insertOrIgnore row) }
    pure (true, db)

/-- `INSERT OR IGNORE INTO event_addresses`, under the foreign key on `events`. -/
def insertAddress (row : AddressRow) (db : Db) : Except StoreError Db := do
  let t ← addressTable db
  if t.has row then pure db
  else
    match db.events with
    | none => .error (.noSuchTable "events")
    | some events =>
      if events.has row.eventId then pure { db with eventAddresses := some (t.insertOrIgnore row) }
      else .error .foreignKey

def insertAddressRows : List AddressRow → Db → Except StoreError Db
  | [], db => .ok db
  | r :: rs, db => do
    let db ← insertAddress r db
    insertAddressRows rs db

/-- Every address of an event's topics and value, with where it appeared. -/
def addressRows (sdk : Sdk) (eventId : String) (e : LensEvent) : List AddressRow :=
  e.topicsXdr.zipIdx.flatMap (fun t =>
    (extractAddresses sdk t.1).map (fun a => ⟨eventId, a, "topic" ++ toString t.2⟩)) ++
  (extractAddresses sdk e.valueXdr).map (fun a => ⟨eventId, a, "value"⟩)

def insertAddresses (rt : Runtime) (build : SqliteBuild) (eventId : String) (e : LensEvent)
    (db : Db) : Except StoreError Db := do
  prepared build db
  insertAddressRows (addressRows rt.sdk eventId e) db

/-- `DELETE FROM events WHERE p`, with the cascade to the address index. -/
def deleteEvents (build : SqliteBuild) (p : EventRow → Bool) (db : Db) : Except StoreError Db := do
  let t ← prepareWrite build .ftsDelete db
  let ids := (t.rows.filter p).map EventRow.id
  fireDelete build ids
    { db with
      events := some (t.deleteWhere p)
      eventAddresses := db.eventAddresses.map (fun a => a.deleteWhere (fun r => r.eventId ∈ ids)) }

def updateRow (build : SqliteBuild) (row : EventRow) (d : DerivedColumns) (db : Db) :
    Except StoreError Db := do
  let t ← prepareWrite build .ftsUpdate db
  match t.find? row.id with
  | none => pure db
  | some current =>
    fireUpdate build (current.setDerived d)
      { db with events := some (t.updateKey row.id (fun r => r.setDerived d) (fun _ => rfl)) }

/-! ### Inserting -/

def insertOne (rt : Runtime) (build : SqliteBuild) (e : LensEvent) (db : Db) :
    Except StoreError (Nat × Db) := do
  let (added, db) ← insertRow build (insertParams rt e) db
  if added then
    let db ← insertAddresses rt build e.id e db
    pure (1, db)
  else pure (0, db)

def insertBatch (rt : Runtime) (build : SqliteBuild) :
    List LensEvent → Db → Except StoreError (Nat × Db)
  | [], db => .ok (0, db)
  | e :: es, db => do
    let (n, db) ← insertOne rt build e db
    let (inserted, db) ← insertBatch rt build es db
    pure (n + inserted, db)

def insertDecoded (rt : Runtime) (build : SqliteBuild) (events : List LensEvent) (db : Db) :
    Except StoreError Nat × Db :=
  if events = [] then (.ok 0, db)
  else
    match prepared build db with
    | .error e => (.error e, db)
    | .ok () => transaction db (insertBatch rt build events db)

/-- `now` is what `new Date()` reads for the event at each index. -/
def insertEvents (rt : Runtime) (build : SqliteBuild) (now : Nat → String) (events : List RawEvent)
    (db : Db) : Except StoreError Nat × Db :=
  insertDecoded rt build (events.mapIdx (fun i e => decodeEvent rt.sdk (now i) e)) db

/-! ### Pruning -/

/-- The rows with `ledger < cutoff`; a cutoff of `NaN` binds as `NULL` and
selects none. -/
def below (cutoff : JsNumber) (row : EventRow) : Bool := JsNumber.lt (.ofNat row.ledger) cutoff

def pruneBefore (build : SqliteBuild) (ledger : JsNumber) (db : Db) :
    Except StoreError Nat × Db :=
  match db.events with
  | none => (.error (.noSuchTable "events"), db)
  | some t =>
    let before := (t.rows.filter (below ledger)).length
    if before = 0 then (.ok 0, db)
    else transaction db ((deleteEvents build (below ledger) db).map (fun db => (before, db)))

/-! ### Re-decoding -/

def refreshAddresses (rt : Runtime) (build : SqliteBuild) (eventId : String) (event : LensEvent)
    (db : Db) : Except StoreError Db := do
  let t ← addressTable db
  insertAddresses rt build eventId event
    { db with eventAddresses := some (t.deleteWhere (fun r => r.eventId = eventId)) }

def recomputeRow (rt : Runtime) (build : SqliteBuild) (row : EventRow) (db : Db) :
    Except StoreError Db := do
  match recompute rt row with
  | none => .error (.thrown "unreadable row")
  | some (d, event) =>
    let db ← updateRow build row d db
    refreshAddresses rt build row.id event db

def recomputeRows (rt : Runtime) (build : SqliteBuild) :
    List EventRow → Db → Except StoreError Db
  | [], db => .ok db
  | r :: rs, db => do
    let db ← recomputeRow rt build r db
    recomputeRows rt build rs db

def redecode (rt : Runtime) (build : SqliteBuild) (all : Bool) (db : Db) :
    Except StoreError Nat × Db :=
  match db.events with
  | none => (.error (.noSuchTable "events"), db)
  | some t =>
    let rows := t.rows.filter (fun r => all || r.decodeError.isSome)
    if rows = [] then (.ok 0, db)
    else
      match prepareWrite build .ftsUpdate db with
      | .error e => (.error e, db)
      | .ok _ =>
        transaction db ((recomputeRows rt build rows db).map (fun db => (rows.length, db)))

def repairRow (rt : Runtime) (build : SqliteBuild) (id : String) (db : Db) :
    Except StoreError Unit × Db :=
  match db.events with
  | none => (.error (.noSuchTable "events"), db)
  | some t =>
    match t.find? id with
    | none => (.ok (), db)
    | some row => transaction db ((recomputeRow rt build row db).map (fun db => ((), db)))

def rebuildSearchIndex (build : SqliteBuild) (db : Db) : Except StoreError Unit × Db :=
  if build.fts5 = false then
    (.error (.thrown
      "rebuildSearchIndex requires the FTS5 SQLite extension, which this build does not have."), db)
  else transaction db (do
    let _ ← db.fts build
    match db.events with
    | none => .error (.noSuchTable "events")
    | some t =>
      pure ((), { db with
        eventsFts := some (t.rows.map (fun r => ⟨r.id, r.topicsJson, r.valueJson⟩)) }))

/-! ### Stream state -/

def saveStreamState (state : StreamState) (db : Db) : Except StoreError Unit × Db :=
  match db.streamState with
  | none => (.error (.noSuchTable "stream_state"), db)
  | some t => (.ok (), { db with streamState := some (t.upsert state) })

def loadStreamState (key : String) (db : Db) : Except StoreError (Option StreamState) :=
  match db.streamState with
  | none => .error (.noSuchTable "stream_state")
  | some t => .ok (t.find? key)

/-! ### Reading one event -/

def getEvent (build : SqliteBuild) (id : String) (db : Db) : Except StoreError (Option LensEvent) := do
  prepared build db
  match db.events with
  | none => .error (.noSuchTable "events")
  | some t =>
    match t.find? id with
    | none => pure none
    | some row =>
      match rowToEvent row with
      | some e => pure (some e)
      | none => .error (.thrown "unreadable row")

end SorobanLens
