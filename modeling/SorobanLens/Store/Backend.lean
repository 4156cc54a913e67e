import SorobanLens.Store.PostgresInsert
import SorobanLens.Store.Ready
import SorobanLens.Store.EventStore
import SorobanLens.Lib.FirstWrite
import Mathlib.Data.Set.Basic

/-!
Both stores behind one type, and what inserting a batch of decoded events does to
either: the first event under an id is kept with its addresses, and a batch that
fails leaves nothing.
-/

set_option autoImplicit false

namespace SorobanLens

/-- The foreign key of `event_addresses`, which every connection enforces. -/
def Db.References (db : Db) : Prop := ∀ r ∈ db.indexedAddresses, db.hasEvent r.eventId

def Db.stored (db : Db) (id : String) : Option (EventRow × Set AddressRow) :=
  match db.events with
  | none => none
  | some t => (t.find? id).map (fun row => (row, {r | r ∈ db.indexedAddresses ∧ r.eventId = id}))

def Postgres.PgDb.stored (db : Postgres.PgDb) (id : String) : Option (EventRow × Set AddressRow) :=
  (db.events.find? id).map
    (fun row => (row, {r | r ∈ db.eventAddresses.rows ∧ r.eventId = id}))

/-! ### Writing one event -/

section Sqlite

variable {rt : Runtime} {build : SqliteBuild} {e : LensEvent} {db db' : Db} {t : EventsTable}

theorem Db.stored_isSome {id : String} : (db.stored id).isSome = true ↔ db.hasEvent id := by
  unfold Db.stored Db.hasEvent
  cases db.events <;> simp [KeyedTable.find?_isSome]

theorem Db.Inserted.mem_addresses (h : db.Inserted rt build e t db') {r : AddressRow} :
    r ∈ db'.indexedAddresses ↔ r ∈ db.indexedAddresses ∨ r ∈ addressRows rt.sdk e.id e := by
  obtain ⟨a, ha, ha'⟩ := h.addresses
  rw [indexedAddresses_some ha, indexedAddresses_some ha', KeyedTable.mem_insertAll_id]

theorem Db.References.insertOne (h : db.References) {n : Nat}
    (hins : SorobanLens.insertOne rt build e db = .ok (n, db')) : db'.References := by
  obtain ⟨t, ht, ⟨-, rfl, -⟩ | ⟨-, htype, -, hinserted⟩⟩ := insertOne_ok hins
  · exact h
  · intro r hr
    rw [hasEvent_insertOne hins]
    rcases hinserted.mem_addresses.mp hr with hr | hr
    · exact .inl (h r hr)
    · exact .inr ⟨htype, (mem_addressRows_eventId hr).symm⟩

theorem Db.Inserted.prepared (hp : SorobanLens.prepared build db = .ok ())
    (h : db.Inserted rt build e t db') : SorobanLens.prepared build db' = .ok () := by
  obtain ⟨⟨u, hu⟩, -⟩ := prepared_ok.mp hp
  obtain ⟨a, -, ha⟩ := h.addresses
  refine prepared_ok.mpr ⟨⟨_, prepareWrite_ok.mpr ⟨h.events, ?_⟩⟩, _, ha⟩
  intro hn
  rw [h.frame.triggers] at hn
  obtain ⟨hb, -⟩ := (prepareWrite_ok.mp hu).2 hn
  have hfts := h.fts
  simp only [Db.FtsAfter, hn, if_true] at hfts
  obtain ⟨-, rows, -, hrows⟩ := hfts
  exact ⟨hb, by rw [hrows]; rfl⟩

def sqliteWrites (rt : Runtime) (build : SqliteBuild) :
    FirstWrite LensEvent String (EventRow × Set AddressRow) Db StoreError where
  key := LensEvent.id
  view := Db.stored
  write e := (insertParams rt e, {r | r ∈ addressRows rt.sdk e.id e})
  step := insertOne rt build
  inv db := db.References ∧ prepared build db = .ok ()
  valid e := e.type.admitted = true
  inv_step := by
    intro e db n db' hinv h
    refine ⟨hinv.1.insertOne h, ?_⟩
    obtain ⟨t, -, ⟨-, rfl, -⟩ | ⟨-, -, -, hins⟩⟩ := insertOne_ok h
    · exact hinv.2
    · exact hins.prepared hinv.2
  taken := by
    intro e db n db' hinv hvalid h hstored
    obtain ⟨t, ht, ⟨hn, hdb, -⟩ | ⟨-, -, hno, -⟩⟩ := insertOne_ok h
    · exact ⟨hn, hdb⟩
    · obtain ⟨u, hu, hid⟩ := Db.stored_isSome.mp hstored
      rw [ht, Option.some.injEq] at hu
      rw [← hu, hno] at hid
      cases hid
  fresh := by
    intro e db n db' hinv hvalid h hstored
    have habsent : ¬ db.hasEvent e.id := by
      rw [← Db.stored_isSome, hstored]
      simp
    obtain ⟨t, ht, ⟨-, -, hskip⟩ | ⟨hn, -, hno, hins⟩⟩ := insertOne_ok h
    · rcases hskip with hskip | hskip
      · rw [hvalid] at hskip
        cases hskip
      · exact absurd ⟨t, ht, hskip⟩ habsent
    · refine ⟨hn, ?_, ?_⟩
      · have hrow : (t.insertOrIgnore (insertParams rt e)).find? e.id = some (insertParams rt e) :=
          KeyedTable.find?_insertOrIgnore_self hno
        simp only [Db.stored, hins.events, hrow, Option.map_some, Option.some.injEq, Prod.mk.injEq,
          true_and, hins.mem_addresses]
        ext r
        constructor
        · intro hr
          rcases hr.1 with hold | hnew
          · exact absurd (hr.2 ▸ hinv.1 r hold) habsent
          · exact hnew
        · intro hr
          exact ⟨.inr hr, mem_addressRows_eventId hr⟩
      · intro k hk
        have hrow : (t.insertOrIgnore (insertParams rt e)).find? k = t.find? k :=
          KeyedTable.find?_insertOrIgnore_of_ne hk
        have haddr : {r | r ∈ db'.indexedAddresses ∧ r.eventId = k} =
            {r | r ∈ db.indexedAddresses ∧ r.eventId = k} := by
          ext r
          simp only [Set.mem_ofPred_eq, hins.mem_addresses]
          refine and_congr_left (fun hr => ⟨fun h => h.resolve_right ?_, .inl⟩)
          intro hnew
          exact hk (hr.symm.trans (mem_addressRows_eventId hnew))
        simp only [Db.stored, hins.events, ht, hrow, haddr]
  skip := by
    intro e db hinv hvalid hstored
    obtain ⟨t, ht, hid⟩ := Db.stored_isSome.mp hstored
    obtain ⟨⟨u, hu⟩, -⟩ := prepared_ok.mp hinv.2
    have htu : db.events = some u := (prepareWrite_ok.mp hu).1
    rw [ht, Option.some.injEq] at htu
    subst htu
    simp [insertOne, insertRow, hu, hvalid, hid, bind, Except.bind, pure, Except.pure]

theorem batch_sqliteWrites (rt : Runtime) (build : SqliteBuild) (es : List LensEvent) (db : Db) :
    (sqliteWrites rt build).batch es db = insertBatch rt build es db := by
  induction es generalizing db with
  | nil => rfl
  | cons e es ih =>
    simp only [FirstWrite.batch, insertBatch, ih]
    rfl

theorem commit_sqliteWrites (rt : Runtime) (build : SqliteBuild) (es : List LensEvent) (db : Db) :
    (sqliteWrites rt build).commit (prepared build) es db = insertDecoded rt build es db := by
  unfold FirstWrite.commit insertDecoded transaction
  rw [batch_sqliteWrites]
  cases es with
  | nil => rfl
  | cons e es =>
    simp only [List.isEmpty_cons, Bool.false_eq_true, if_false, reduceCtorEq]
    cases prepared build db with
    | error err => rfl
    | ok u => cases insertBatch rt build (e :: es) db <;> rfl

end Sqlite

namespace Postgres

variable {server : PgServer} {rt : Runtime}

theorem PgDb.stored_isSome {db : PgDb} {id : String} :
    (db.stored id).isSome = db.events.has id := by
  simp [PgDb.stored, KeyedTable.find?_isSome]

def writes (server : PgServer) (rt : Runtime) :
    FirstWrite LensEvent String (EventRow × Set AddressRow) PgDb StoreError where
  key := LensEvent.id
  view := PgDb.stored
  write e := (insertParams rt e, {r | r ∈ addressRows rt.sdk e.id e})
  step := insertOne server rt
  inv _ := True
  valid := Admitted rt
  inv_step _ _ := trivial
  taken := by
    intro e db n db' _ _ h hstored
    rw [PgDb.stored_isSome] at hstored
    exact (insertOne_spec h).known hstored
  fresh := by
    intro e db n db' _ _ h hstored
    have habsent : db.events.has e.id = false := by
      rw [← PgDb.stored_isSome, hstored]
      rfl
    obtain ⟨hn, hevents, haddresses⟩ := (insertOne_spec h).fresh habsent
    have hmem : ∀ r, r ∈ db'.eventAddresses.rows ↔
        r ∈ db.eventAddresses.rows ∨ r ∈ addressRows rt.sdk e.id e := by
      intro r
      rw [haddresses, KeyedTable.mem_insertAll_id]
    refine ⟨hn, ?_, ?_⟩
    · have hrow : db'.events.find? e.id = some (insertParams rt e) := by
        rw [hevents]
        exact KeyedTable.find?_insertOrIgnore_self habsent
      simp only [PgDb.stored, hrow, Option.map_some, Option.some.injEq, Prod.mk.injEq, true_and, hmem]
      ext r
      constructor
      · intro hr
        rcases hr.1 with hold | hnew
        · have href := db.references r hold
          rw [hr.2, habsent] at href
          cases href
        · exact hnew
      · intro hr
        exact ⟨.inr hr, mem_addressRows_eventId hr⟩
    · intro k hk
      have hrow : db'.events.find? k = db.events.find? k := by
        rw [hevents]
        exact KeyedTable.find?_insertOrIgnore_of_ne hk
      have haddr : {r | r ∈ db'.eventAddresses.rows ∧ r.eventId = k} =
          {r | r ∈ db.eventAddresses.rows ∧ r.eventId = k} := by
        ext r
        simp only [Set.mem_ofPred_eq, hmem]
        refine and_congr_left (fun hr => ⟨fun h => h.resolve_right ?_, .inl⟩)
        intro hnew
        exact hk (hr.symm.trans (mem_addressRows_eventId hnew))
      simp only [PgDb.stored, hrow, haddr]
  skip := by
    intro e db _ hvalid hstored
    rw [PgDb.stored_isSome] at hstored
    have hevent : insertEvent server rt e db = .ok (0, db) :=
      insertEvent_ok.mpr ⟨hvalid, .inl ⟨hstored, rfl, rfl⟩⟩
    simp [insertOne, hevent, bind, Except.bind, pure, Except.pure]

theorem batch_writes (server : PgServer) (rt : Runtime) (es : List LensEvent) (db : PgDb) :
    (writes server rt).batch es db = insertBatch server rt es db := by
  induction es generalizing db with
  | nil => rfl
  | cons e es ih =>
    simp only [FirstWrite.batch, insertBatch, ih]
    rfl

theorem commit_writes (server : PgServer) (rt : Runtime) (es : List LensEvent) (db : PgDb) :
    (writes server rt).commit (fun _ => .ok ()) es db = insertDecoded server rt es db := by
  unfold FirstWrite.commit insertDecoded tx
  rw [batch_writes]
  cases es with
  | nil => rfl
  | cons e es =>
    simp only [List.isEmpty_cons, Bool.false_eq_true, if_false, reduceCtorEq]
    cases insertBatch server rt (e :: es) db <;> rfl

end Postgres

/-! ### Either store -/

/-- The process a store runs in, and the servers it may run against. -/
structure Host where
  rt : Runtime
  build : SqliteBuild
  server : Postgres.PgServer

inductive Backend where
  | sqlite (db : Db)
  | postgres (db : Postgres.PgDb)

namespace Backend

def insertDecoded (host : Host) (es : List LensEvent) : Backend → Except StoreError Nat × Backend
  | .sqlite db => (SorobanLens.insertDecoded host.rt host.build es db).map id .sqlite
  | .postgres db => (Postgres.insertDecoded host.server host.rt es db).map id .postgres

def stored (id : String) : Backend → Option (EventRow × Set AddressRow)
  | .sqlite db => db.stored id
  | .postgres db => db.stored id

def written (host : Host) (e : LensEvent) : Backend → EventRow × Set AddressRow
  | .sqlite _ => (insertParams host.rt e, {r | r ∈ addressRows host.rt.sdk e.id e})
  | .postgres _ => (Postgres.insertParams host.rt e, {r | r ∈ addressRows host.rt.sdk e.id e})

def References : Backend → Prop
  | .sqlite db => db.References
  | .postgres _ => True

/-- What inserting a batch does: it fails and changes nothing, or stores the
first event under every id that was absent. -/
structure FirstWriteWins (host : Host) (es : List LensEvent) (s : Backend) : Prop where
  atomic : ∀ err s', s.insertDecoded host es = (.error err, s') → s' = s
  counted : ∀ n s', s.insertDecoded host es = (.ok n, s') →
    n = ((es.map LensEvent.id).filter (fun id => (s.stored id).isNone)).dedup.length
  kept : ∀ n s', s.insertDecoded host es = (.ok n, s') → ∀ id, s'.stored id =
    (s.stored id).or ((es.find? (fun e => decide (e.id = id))).map (fun e => s.written host e))
  replayed : ∀ n s', s.insertDecoded host es = (.ok n, s') → s'.insertDecoded host es = (.ok 0, s')
  split : ∀ xs ys, es = xs ++ ys → ∀ n s'', s.insertDecoded host es = (.ok n, s'') ↔
    ∃ a b s', s.insertDecoded host xs = (.ok a, s') ∧ s'.insertDecoded host ys = (.ok b, s'') ∧
      n = a + b

/-- A store that runs its batches as keyed writes keeps the first of each key. -/
theorem firstWriteWins_of {host : Host} {σ : Type}
    (W : FirstWrite LensEvent String (EventRow × Set AddressRow) σ StoreError)
    (guard : σ → Except StoreError Unit) (store : σ → Backend)
    (hkey : W.key = LensEvent.id)
    (hrun : ∀ es s, (store s).insertDecoded host es = (W.commit guard es s).map id store)
    (hview : ∀ s id, (store s).stored id = W.view s id)
    (hwrite : ∀ s e, (store s).written host e = W.write e)
    (hguard : ∀ t, W.inv t → guard t = .ok ()) {es : List LensEvent} {s : σ}
    (hinv : guard s = .ok () → W.inv s)
    (hvalid : ∀ n t, W.batch es s = .ok (n, t) → ∀ e ∈ es, W.valid e) :
    FirstWriteWins host es (store s) := by
  have hok : ∀ xs d n s', (store d).insertDecoded host xs = (.ok n, s') ↔
      ∃ d', W.commit guard xs d = (.ok n, d') ∧ store d' = s' := by
    intro xs d n s'
    rw [hrun]
    obtain ⟨r, d'⟩ := W.commit guard xs d
    simp only [Prod.map, id_eq, Prod.mk.injEq]
    constructor
    · intro h
      exact ⟨d', ⟨h.1, rfl⟩, h.2⟩
    · intro h
      obtain ⟨x, ⟨hr, rfl⟩, hx⟩ := h
      exact ⟨hr, hx⟩
  constructor
  case atomic =>
    intro err s' h
    rw [hrun] at h
    obtain ⟨hr, rfl⟩ := Prod.mk.inj h
    exact congrArg store (FirstWrite.commit_error (Prod.ext hr rfl))
  case counted =>
    intro n s' h
    obtain ⟨t, hcommit, rfl⟩ := (hok es s n s').mp h
    obtain ⟨hfit, hb⟩ := FirstWrite.commit_ok.mp hcommit
    rcases hfit with rfl | hfit
    · cases hb
      rfl
    · rw [FirstWrite.count_batch (hinv hfit) (hvalid n t hb) hb, hkey]
      simp only [hview]
  case kept =>
    intro n s' h id
    obtain ⟨t, hcommit, rfl⟩ := (hok es s n s').mp h
    obtain ⟨hfit, hb⟩ := FirstWrite.commit_ok.mp hcommit
    rcases hfit with rfl | hfit
    · cases hb
      simp
    · rw [hview, hview, FirstWrite.view_batch (hinv hfit) (hvalid n t hb) hb id, hkey]
      simp only [hwrite]
  case replayed =>
    intro n s' h
    obtain ⟨t, hcommit, rfl⟩ := (hok es s n s').mp h
    obtain ⟨hfit, hb⟩ := FirstWrite.commit_ok.mp hcommit
    refine (hok es t 0 (store t)).mpr ⟨t, FirstWrite.commit_ok.mpr ?_, rfl⟩
    rcases hfit with rfl | hfit
    · exact ⟨.inl rfl, rfl⟩
    · exact ⟨.inr (hguard t (FirstWrite.inv_batch (hinv hfit) hb)),
        FirstWrite.batch_replay (hinv hfit) (hvalid n t hb) hb⟩
  case split =>
    intro xs ys hes n s''
    rw [hok, hes]
    constructor
    · intro h
      obtain ⟨u, h, rfl⟩ := h
      obtain ⟨a, b, t, hxs, hys, hn⟩ := (FirstWrite.commit_append hguard hinv).mp h
      exact ⟨a, b, store t, (hok xs s a _).mpr ⟨t, hxs, rfl⟩, (hok ys t b _).mpr ⟨u, hys, rfl⟩, hn⟩
    · intro h
      obtain ⟨a, b, s', hfirst, hsecond, hn⟩ := h
      obtain ⟨t, hxs, rfl⟩ := (hok xs s a s').mp hfirst
      obtain ⟨u, hys, rfl⟩ := (hok ys t b s'').mp hsecond
      exact ⟨u, (FirstWrite.commit_append hguard hinv).mpr ⟨a, b, t, hxs, hys, hn⟩, rfl⟩

theorem firstWriteWins_sqlite {host : Host} {es : List LensEvent} {db : Db} (hrefs : db.References)
    (hes : ∀ e ∈ es, e.type.admitted = true) : FirstWriteWins host es (.sqlite db) := by
  refine firstWriteWins_of (sqliteWrites host.rt host.build) (prepared host.build) .sqlite rfl
    ?_ (fun _ _ => rfl) (fun _ _ => rfl) (fun _ h => h.2) (fun h => ⟨hrefs, h⟩) (fun _ _ _ => hes)
  intro xs d
  rw [commit_sqliteWrites]
  rfl

theorem firstWriteWins_postgres (host : Host) (es : List LensEvent) (db : Postgres.PgDb) :
    FirstWriteWins host es (.postgres db) := by
  refine firstWriteWins_of (Postgres.writes host.server host.rt) (fun _ => .ok ()) .postgres rfl
    ?_ (fun _ _ => rfl) (fun _ _ => rfl) (fun _ _ => rfl) (fun _ => trivial) ?_
  · intro xs d
    rw [Postgres.commit_writes]
    rfl
  · intro n t h
    rw [Postgres.batch_writes] at h
    exact (Postgres.insertBatch_ok_iff.mp ⟨n, t, h⟩).1

/-- Inserting decoded events is idempotent, keeps the first event under an id and
is atomic, in either store. -/
theorem insertDecoded_first_write_wins (host : Host) (es : List LensEvent) (s : Backend)
    (hrefs : s.References) (hes : ∀ e ∈ es, e.type.admitted = true) : FirstWriteWins host es s := by
  cases s with
  | sqlite db => exact firstWriteWins_sqlite hrefs hes
  | postgres db => exact firstWriteWins_postgres host es db

end Backend

/-! ### A batch that repeats an id -/

def openedDb : Db := (migrateSync ⟨true⟩ Db.new).2

def smallHost : Host := ⟨Postgres.nulRuntime, ⟨true⟩, ⟨fun _ => true, fun _ => true⟩⟩

theorem ready_openedDb : openedDb.Ready ⟨true⟩ := by
  obtain ⟨db, hopen, hready⟩ := ready_open_new ⟨true⟩
  rw [openedDb, hopen]
  exact hready

theorem references_openedDb : openedDb.References := by
  have hnone : openedDb.indexedAddresses = [] := by decide +kernel
  simp [Db.References, hnone]

theorem Backend.insertDecoded_first_write_wins_twice : Backend.FirstWriteWins smallHost
    [decodeEvent Postgres.nulRuntime.sdk "a" Postgres.nulEvent,
      decodeEvent Postgres.nulRuntime.sdk "b" Postgres.nulEvent] (.sqlite openedDb) := by
  refine Backend.insertDecoded_first_write_wins smallHost _ _ references_openedDb ?_
  simp [Postgres.nulEvent, EventType.admitted]

/-! ### Events no store refuses aloud -/

theorem insertEvents_ok_postgres {server : Postgres.PgServer} {rt : Runtime} {now : Nat → String}
    {raws : List RawEvent} {pg : Postgres.PgDb} :
    (∃ n pg', Postgres.insertEvents server rt now raws pg = (.ok n, pg')) ↔
      Postgres.Acceptable server rt (Postgres.decodeBatch rt now raws) pg := by
  rw [← Postgres.insertBatch_ok_iff]
  unfold Postgres.insertEvents
  rw [← Postgres.commit_writes, ← Postgres.decodeBatch]
  simp only [FirstWrite.commit_ok, or_true, true_and, Postgres.batch_writes]

/-- Both stores take a batch and keep all of it exactly when Postgres takes it. -/
theorem insertEvents_drops_nothing_iff (host : Host) (now : Nat → String) (raws : List RawEvent)
    (db : Db) (pg : Postgres.PgDb) (hready : db.Ready host.build) :
    ((∀ n db', insertEvents host.rt host.build now raws db = (.ok n, db') →
        ∀ raw ∈ raws, db'.hasEvent raw.id) ∧
      ((∃ n db', insertEvents host.rt host.build now raws db = (.ok n, db')) ↔
        ∃ n pg', Postgres.insertEvents host.server host.rt now raws pg = (.ok n, pg'))) ↔
      Postgres.Acceptable host.server host.rt (Postgres.decodeBatch host.rt now raws) pg := by
  obtain ⟨n, db', hsqlite, -⟩ := hready.insertEvents host.rt now raws
  constructor
  · intro h
    exact insertEvents_ok_postgres.mp (h.2.mp ⟨n, db', hsqlite⟩)
  · intro h
    refine ⟨?_, fun _ => insertEvents_ok_postgres.mpr h, fun _ => ⟨n, db', hsqlite⟩⟩
    intro m db'' hok raw hraw
    refine (hasEvent_insertEvents hok).mpr (.inr ⟨raw, hraw, ?_, rfl⟩)
    obtain ⟨i, hi, rfl⟩ := List.getElem_of_mem hraw
    have hmem : decodeEvent host.rt.sdk (now i) raws[i] ∈ Postgres.decodeBatch host.rt now raws :=
      List.mem_mapIdx.mpr ⟨i, hi, rfl⟩
    exact (h.1 _ hmem).2

theorem insertEvents_drops_nothing_nul :
    ((∀ n db', insertEvents smallHost.rt smallHost.build (fun _ => "") [Postgres.nulEvent] openedDb =
        (.ok n, db') → ∀ raw ∈ [Postgres.nulEvent], db'.hasEvent raw.id) ∧
      ((∃ n db', insertEvents smallHost.rt smallHost.build (fun _ => "") [Postgres.nulEvent]
          openedDb = (.ok n, db')) ↔
        ∃ n pg', Postgres.insertEvents smallHost.server smallHost.rt (fun _ => "")
          [Postgres.nulEvent] Postgres.PgDb.empty = (.ok n, pg'))) ↔
      Postgres.Acceptable smallHost.server smallHost.rt
        (Postgres.decodeBatch smallHost.rt (fun _ => "") [Postgres.nulEvent]) Postgres.PgDb.empty :=
  insertEvents_drops_nothing_iff smallHost _ _ _ _ ready_openedDb

def diagnosticEvent : RawEvent := { Postgres.nulEvent with type := .diagnostic }

theorem insertEvents_drops_diagnostic :
    ¬ ((∀ n db', insertEvents smallHost.rt smallHost.build (fun _ => "") [diagnosticEvent] openedDb =
        (.ok n, db') → ∀ raw ∈ [diagnosticEvent], db'.hasEvent raw.id) ∧
      ((∃ n db', insertEvents smallHost.rt smallHost.build (fun _ => "") [diagnosticEvent]
          openedDb = (.ok n, db')) ↔
        ∃ n pg', Postgres.insertEvents smallHost.server smallHost.rt (fun _ => "")
          [diagnosticEvent] Postgres.PgDb.empty = (.ok n, pg'))) := by
  intro h
  have hempty : openedDb.storedIds = [] := by decide +kernel
  obtain ⟨n, db', hok, -⟩ := ready_openedDb.insertEvents smallHost.rt (fun _ => "") [diagnosticEvent]
  have hstored := h.1 n db' hok diagnosticEvent (by simp)
  rcases (hasEvent_insertEvents hok).mp hstored with hold | ⟨e, he, htype, -⟩
  · obtain ⟨t, ht, hid⟩ := hold
    obtain ⟨row, hrow, hkey⟩ := KeyedTable.has_iff.mp hid
    have hmem : row.id ∈ openedDb.storedIds := mem_storedIds.mpr ⟨t, ht, row, hrow, rfl⟩
    simp [hempty] at hmem
  · rw [List.mem_singleton.mp he] at htype
    cases htype

end SorobanLens
