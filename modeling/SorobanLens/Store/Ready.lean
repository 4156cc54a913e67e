import SorobanLens.Store.Effects

/-!
A database whose schema is there: no write of events and no save of a cursor can
fail on it, and each leaves such a database behind.
-/

set_option autoImplicit false

namespace SorobanLens

structure Db.Ready (build : SqliteBuild) (db : Db) : Prop where
  events : db.events.isSome = true
  addresses : db.eventAddresses.isSome = true
  streamState : db.streamState.isSome = true
  triggers : db.triggers ≠ [] → build.fts5 = true ∧ db.eventsFts.isSome = true

theorem Db.Ready.trigger {build : SqliteBuild} {db : Db} (h : db.Ready build) {name : TriggerName}
    (hn : name ∈ db.triggers) : build.fts5 = true ∧ db.eventsFts.isSome = true :=
  h.triggers (List.ne_nil_of_mem hn)

theorem Db.Ready.prepareWrite {build : SqliteBuild} {db : Db} (h : db.Ready build)
    (name : TriggerName) : ∃ t, SorobanLens.prepareWrite build name db = .ok t := by
  obtain ⟨t, ht⟩ := Option.isSome_iff_exists.mp h.events
  exact ⟨t, prepareWrite_ok.mpr ⟨ht, fun hn => h.trigger hn⟩⟩

theorem Db.Ready.prepared {build : SqliteBuild} {db : Db} (h : db.Ready build) :
    SorobanLens.prepared build db = .ok () :=
  prepared_ok.mpr ⟨h.prepareWrite .ftsInsert, Option.isSome_iff_exists.mp h.addresses⟩

theorem Db.Ready.fireInsert {build : SqliteBuild} {db : Db} (h : db.Ready build) (row : EventRow) :
    ∃ rows, SorobanLens.fireInsert build row db = .ok { db with eventsFts := rows } ∧
      (db.eventsFts.isSome = true → rows.isSome = true) := by
  unfold SorobanLens.fireInsert
  by_cases hn : TriggerName.ftsInsert ∈ db.triggers
  · obtain ⟨hb, hf⟩ := h.trigger hn
    obtain ⟨rows, hr⟩ := Option.isSome_iff_exists.mp hf
    have hfts : db.fts build = .ok rows := fts_ok.mpr ⟨hb, hr⟩
    simp only [hn, if_true, hfts]
    exact ⟨_, rfl, fun _ => rfl⟩
  · simp only [hn, if_false]
    exact ⟨db.eventsFts, rfl, fun hs => hs⟩

theorem insertAddressRows_total {rs : List AddressRow} {db : Db} {t : EventsTable} {a : AddressTable}
    (ht : db.events = some t) (ha : db.eventAddresses = some a)
    (hfk : ∀ r ∈ rs, t.has r.eventId = true) :
    insertAddressRows rs db = .ok { db with eventAddresses := some (a.insertAll rs) } := by
  induction rs generalizing db a with
  | nil => simp [insertAddressRows, ← ha]
  | cons r rs ih =>
    have hr : t.has r.eventId = true := hfk r List.mem_cons_self
    have hone : insertAddress r db =
        .ok { db with eventAddresses := some (a.insertOrIgnore r) } := by
      have hat : addressTable db = .ok a := addressTable_ok.mpr ha
      by_cases hrow : a.has r = true
      · have hsame : a.insertOrIgnore r = a := KeyedTable.insertOrIgnore_of_has hrow
        simp [insertAddress, hat, hrow, hsame, ← ha, bind, Except.bind, pure, Except.pure]
      · simp [insertAddress, hat, hrow, ht, hr, bind, Except.bind, pure, Except.pure]
    rw [insertAddressRows, hone]
    exact ih ht rfl (fun s hs => hfk s (List.mem_cons_of_mem r hs))

theorem Db.Ready.insertOne {build : SqliteBuild} {db : Db} (h : db.Ready build) (rt : Runtime)
    (e : LensEvent) :
    ∃ n db', SorobanLens.insertOne rt build e db = .ok (n, db') ∧ db'.Ready build := by
  obtain ⟨t, ht⟩ := Option.isSome_iff_exists.mp h.events
  obtain ⟨a, ha⟩ := Option.isSome_iff_exists.mp h.addresses
  have hprep : SorobanLens.prepareWrite build .ftsInsert db = .ok t :=
    prepareWrite_ok.mpr ⟨ht, fun hn => h.trigger hn⟩
  by_cases hskip : e.type.admitted = false ∨ t.has e.id = true
  · refine ⟨0, db, ?_, h⟩
    have hrow : insertRow build (insertParams rt e) db = .ok (false, db) := by
      rcases hskip with hs | hs
      · simp [insertRow, hprep, hs, bind, Except.bind, pure, Except.pure]
      · simp [insertRow, hprep, hs, bind, Except.bind, pure, Except.pure]
    simp [SorobanLens.insertOne, hrow, bind, Except.bind, pure, Except.pure]
  · rw [not_or] at hskip
    have htype : e.type.admitted = true := by simpa using hskip.1
    have hid : t.has e.id = false := by simpa using hskip.2
    have hmid : Db.Ready build { db with events := some (t.insertOrIgnore (insertParams rt e)) } :=
      ⟨rfl, h.addresses, h.streamState, h.triggers⟩
    obtain ⟨rows, hfire, hrows⟩ := hmid.fireInsert (insertParams rt e)
    have hrow : insertRow build (insertParams rt e) db = .ok (true,
        { db with events := some (t.insertOrIgnore (insertParams rt e)), eventsFts := rows }) := by
      simp [insertRow, hprep, htype, hid, hfire, bind, Except.bind, pure, Except.pure]
    have hready : Db.Ready build
        { db with events := some (t.insertOrIgnore (insertParams rt e)), eventsFts := rows } := by
      refine ⟨rfl, h.addresses, h.streamState, ?_⟩
      intro hn
      exact ⟨(h.triggers hn).1, hrows (h.triggers hn).2⟩
    have hfk : ∀ r ∈ addressRows rt.sdk e.id e,
        (t.insertOrIgnore (insertParams rt e)).has r.eventId = true := by
      intro r hr
      rw [mem_addressRows_eventId hr]
      exact KeyedTable.has_insertOrIgnore_self t (insertParams rt e)
    have haddr : insertAddressRows (addressRows rt.sdk e.id e)
        { db with events := some (t.insertOrIgnore (insertParams rt e)), eventsFts := rows } = _ :=
      insertAddressRows_total rfl ha hfk
    refine ⟨1, { db with
        events := some (t.insertOrIgnore (insertParams rt e))
        eventsFts := rows
        eventAddresses := some (a.insertAll (addressRows rt.sdk e.id e)) }, ?_,
      ⟨rfl, rfl, h.streamState, hready.triggers⟩⟩
    simp only [SorobanLens.insertOne, hrow, insertAddresses, hready.prepared, haddr, bind,
      Except.bind, pure, Except.pure, if_true]

theorem Db.Ready.insertBatch {build : SqliteBuild} {db : Db} (h : db.Ready build) (rt : Runtime)
    (es : List LensEvent) :
    ∃ n db', SorobanLens.insertBatch rt build es db = .ok (n, db') ∧ db'.Ready build := by
  induction es generalizing db with
  | nil => exact ⟨0, db, rfl, h⟩
  | cons e es ih =>
    obtain ⟨m, mid, hm, hmid⟩ := h.insertOne rt e
    obtain ⟨n, fin, hn, hfin⟩ := ih hmid
    refine ⟨m + n, fin, ?_, hfin⟩
    simp [SorobanLens.insertBatch, hm, hn, bind, Except.bind, pure, Except.pure]

theorem Db.Ready.insertDecoded {build : SqliteBuild} {db : Db} (h : db.Ready build) (rt : Runtime)
    (es : List LensEvent) :
    ∃ n db', SorobanLens.insertDecoded rt build es db = (.ok n, db') ∧ db'.Ready build := by
  unfold SorobanLens.insertDecoded
  split
  · exact ⟨0, db, rfl, h⟩
  · obtain ⟨n, fin, hn, hfin⟩ := h.insertBatch rt es
    refine ⟨n, fin, ?_, hfin⟩
    simp only [h.prepared, hn, transaction]

theorem Db.Ready.insertEvents {build : SqliteBuild} {db : Db} (h : db.Ready build) (rt : Runtime)
    (now : Nat → String) (events : List RawEvent) :
    ∃ n db', SorobanLens.insertEvents rt build now events db = (.ok n, db') ∧ db'.Ready build :=
  h.insertDecoded rt _

theorem Db.Ready.saveStreamState {build : SqliteBuild} {db : Db} (h : db.Ready build)
    (state : StreamState) :
    ∃ db', SorobanLens.saveStreamState state db = (.ok (), db') ∧ db'.Ready build := by
  obtain ⟨s, hs⟩ := Option.isSome_iff_exists.mp h.streamState
  refine ⟨{ db with streamState := some (s.upsert state) }, ?_, ⟨h.events, h.addresses, rfl, h.triggers⟩⟩
  simp [SorobanLens.saveStreamState, hs]

theorem ready_open_new (build : SqliteBuild) : ∃ db, migrateSync build Db.new = (.ok (), db) ∧
    db.Ready build := by
  obtain ⟨fts5⟩ := build
  cases fts5 with
  | false =>
    have h : (migrateSync ⟨false⟩ Db.new).1 = .ok () := by decide +kernel
    have ht : (migrateSync ⟨false⟩ Db.new).2.triggers = [] := by decide +kernel
    refine ⟨(migrateSync ⟨false⟩ Db.new).2, Prod.ext h rfl, ?_, ?_, ?_, fun hn => absurd ht hn⟩
    all_goals decide +kernel
  | true =>
    have h : (migrateSync ⟨true⟩ Db.new).1 = .ok () := by decide +kernel
    have hf : (migrateSync ⟨true⟩ Db.new).2.eventsFts.isSome = true := by decide +kernel
    refine ⟨(migrateSync ⟨true⟩ Db.new).2, Prod.ext h rfl, ?_, ?_, ?_, fun _ => ⟨rfl, hf⟩⟩
    all_goals decide +kernel

end SorobanLens
