import SorobanLens.Store.Integrity
import SorobanLens.Store.Refresh

/-!
Integrity over the life of a store: no write breaks it, a second re-decode changes
nothing, and repairing what the check reports mends corrupted columns.
-/

set_option autoImplicit false

namespace SorobanLens

/-! ### Rows and their raw XDR -/

/-- A row as `insertEvents` writes it with this SDK. -/
def EventRow.WrittenBy (sdk : Sdk) (row : EventRow) : Prop :=
  ∃ (rt : Runtime) (now : String) (raw : RawEvent), row = insertParams rt (decodeEvent sdk now raw)

/-- The same row but for how its XDR columns are packed. -/
def EventRow.Repacked (row row' : EventRow) : Prop :=
  ∃ topics value : XdrColumn, row' = { row with topicsXdrJson := topics, valueXdr := value } ∧
    decompressXdrColumn topics = decompressXdrColumn row.topicsXdrJson ∧
    decompressXdrColumn value = decompressXdrColumn row.valueXdr

/-- The derived columns hold anything; the raw XDR and the rest are as they were. -/
def EventRow.SameRaw (row row' : EventRow) : Prop :=
  ∃ d : DerivedColumns, d.topicsXdrJson = row.topicsXdrJson ∧ d.valueXdr = row.valueXdr ∧
    row' = row.setDerived d

section Row

variable {rt : Runtime} {row row' : EventRow}

theorem EventRow.Repacked.refl (row : EventRow) : row.Repacked row := ⟨_, _, rfl, rfl, rfl⟩

theorem EventRow.Repacked.rowToEvent (h : row.Repacked row') :
    SorobanLens.rowToEvent row' = SorobanLens.rowToEvent row := by
  obtain ⟨topics, value, rfl, htopics, hvalue⟩ := h
  simp only [SorobanLens.rowToEvent, EventRow.topicsXdr, htopics, hvalue]

/-- Decoding a written row's XDR again gives the columns it has. -/
theorem repacked_settled (h : row.WrittenBy rt.sdk) : row.Repacked (row.settled rt) := by
  obtain ⟨rt', now, raw, rfl⟩ := h
  have hredecoded : ∃ date, (insertParams rt' (decodeEvent rt.sdk now raw)).redecoded rt =
      decodeEvent rt.sdk date raw := by
    refine ⟨rt.toISOString ((rt.dateGetTime now).getD 0), ?_⟩
    simp only [EventRow.redecoded, topicsXdr_insertParams, valueXdr_insertParams, Option.getD_some]
    rfl
  obtain ⟨date, hdate⟩ := hredecoded
  refine ⟨encodeXdrColumn rt (stringify (stringsToJson raw.topic)), encodeXdrColumn rt raw.value,
    ?_, ?_, ?_⟩
  · unfold EventRow.settled
    rw [hdate]
    rfl
  · exact (decompress_encode rt _).trans (decompress_encode rt' _).symm
  · exact (decompress_encode rt _).trans (decompress_encode rt' _).symm

theorem settled_of_sameRaw (h : row.SameRaw row') : row'.settled rt = row.settled rt := by
  obtain ⟨d, htopics, hvalue, rfl⟩ := h
  have hredecoded : (row.setDerived d).redecoded rt = row.redecoded rt := by
    simp only [EventRow.redecoded, EventRow.topicsXdr, EventRow.setDerived, htopics, hvalue]
  unfold EventRow.settled
  rw [hredecoded, setDerived_setDerived]

theorem rowToEvent_settled (rt : Runtime) (row : EventRow) : rowToEvent (row.settled rt) =
    some { (row.redecoded rt).normalise with indexedAt := row.indexedAt } := by
  have ht : (parseJson (row.settled rt).topicsJson).bind topicsOfJson =
      some ((row.redecoded rt).topics.map DecodedValue.normalise) := parse_topics _
  have hv : (parseJson (row.settled rt).valueJson).bind DecodedValue.ofJson =
      some (row.redecoded rt).value.normalise := parse_value _
  unfold rowToEvent
  rw [ht, hv, topicsXdr_settled, valueXdr_settled]
  rfl

end Row

/-! ### States -/

def StoreOp.KeepsSchema (op : StoreOp) : Prop := op ≠ .migrate ∧ ∀ v, op ≠ .migrateDown v

/-- A file of any history with its schema there, and what operations on it leave. -/
def Db.InService (build : SqliteBuild) (db : Db) : Prop :=
  Reachable (fun d => d.Reached ∧ d.Ready build)
    (fun d d' => ∃ (host : Host) (op : StoreOp), op.KeepsSchema ∧ d' = op.exec host d) db

theorem Db.Ready.of_skeleton {build : SqliteBuild} {db db' : Db} (h : db.Ready build)
    (hs : db'.skeleton = db.skeleton) : db'.Ready build := by
  have hfield {α : Type} (f : Db → Option α) (g : Db → Option α)
      (hf : ∀ d, (f d).isSome = (g d.skeleton).isSome) : (f db').isSome = (f db).isSome := by
    rw [hf, hf, hs]
  have htriggers : db'.skeleton.triggers = db.skeleton.triggers := congrArg Db.triggers hs
  change db'.triggers = db.triggers at htriggers
  refine ⟨?_, ?_, ?_, ?_⟩
  · rw [hfield Db.events Db.events (fun d => by simp [Db.skeleton]), h.events]
  · rw [hfield Db.eventAddresses Db.eventAddresses (fun d => by simp [Db.skeleton]), h.addresses]
  · rw [hfield Db.streamState Db.streamState (fun d => by simp [Db.skeleton]), h.streamState]
  · intro hn
    rw [htriggers] at hn
    rw [hfield Db.eventsFts Db.eventsFts (fun d => by simp [Db.skeleton])]
    exact h.triggers hn

theorem Db.InService.reached_ready {build : SqliteBuild} {db : Db} (h : db.InService build) :
    db.Reached ∧ db.Ready build := by
  have hstep : ∀ d d' : Db, d.Reached ∧ d.Ready build →
      (∃ (host : Host) (op : StoreOp), op.KeepsSchema ∧ d' = op.exec host d) →
        d'.Reached ∧ d'.Ready build := by
    intro d d' hd hrun
    obtain ⟨host, op, hkeeps, rfl⟩ := hrun
    exact ⟨hd.1.exec host op, hd.2.of_skeleton (op.skeleton_exec host d hkeeps.1 hkeeps.2)⟩
  have hinv := Reachable.invariant (fun _ h => h) hstep h
  exact hinv

structure Db.Corrupted (db bad : Db) : Prop where
  triggers : bad.triggers = db.triggers
  addresses : bad.eventAddresses.isSome = db.eventAddresses.isSome
  fts : bad.eventsFts.isSome = db.eventsFts.isSome
  rows : ∃ t t', db.events = some t ∧ bad.events = some t' ∧
    List.Forall₂ EventRow.SameRaw t.rows t'.rows

def repairAll (rt : Runtime) (build : SqliteBuild) : List String → Db → Except StoreError Unit × Db
  | [], db => (.ok (), db)
  | id :: ids, db =>
    match repairRow rt build id db with
    | (.ok (), db) => repairAll rt build ids db
    | (.error e, db) => (.error e, db)

section Repair

variable {rt : Runtime} {build : SqliteBuild} {db bad : Db} {rows : List EventRow}
  {stringOfNumber : Json.Numeral → String}

theorem repairRow_settles {t : EventsTable} {row : EventRow} (h : db.Refreshable build)
    (ht : db.events = some t) (hrow : row ∈ t.rows) (hdecodable : row.Decodable rt) :
    repairRow rt build row.id db = (.ok (), db.refresh rt row) := by
  have hfind : t.find? row.id = some row := KeyedTable.find?_eq_some.mpr ⟨hrow, rfl⟩
  have hrec : recomputeRow rt build row db = .ok (db.refresh rt row) :=
    recomputeRow_refresh h hdecodable ht (KeyedTable.has_of_mem hrow)
  simp [repairRow, ht, hfind, hrec, transaction, Except.map]

/-- Repairing different rows one by one is one pass over them. -/
theorem repairAll_settles {t : EventsTable} (h : db.Refreshable build) (ht : db.events = some t)
    (hsub : ∀ row ∈ rows, row ∈ t.rows) (hnodup : (rows.map EventRow.id).Nodup)
    (hdecodable : ∀ row ∈ rows, row.Decodable rt) :
    repairAll rt build (rows.map EventRow.id) db = (.ok (), db.refreshAll rt rows) := by
  induction rows generalizing db t with
  | nil => rfl
  | cons row rows ih =>
    rw [List.map_cons, List.nodup_cons] at hnodup
    have hrow := hsub row List.mem_cons_self
    rw [List.map_cons, repairAll, repairRow_settles h ht hrow (hdecodable row List.mem_cons_self)]
    exact ih (h.refresh rt row) (events_refresh rt row ht)
      (subset_updateKey rt hrow (fun r hr => hsub r (List.mem_cons_of_mem row hr)) hnodup.1)
      hnodup.2 (fun r hr => hdecodable r (List.mem_cons_of_mem row hr))

theorem checkIntegrity_ok (stringOfNumber : Json.Numeral → String) {t : EventsTable}
    (ht : db.events = some t) :
    ∃ reports, checkIntegrity stringOfNumber db = .ok reports ∧
      reports.map IntegrityReport.id =
        (t.rows.filter (fun row => rowProblems stringOfNumber row.readBack ≠ [])).map
          (fun row => readText row.id) := by
  refine ⟨_, by rw [checkIntegrity, ht], ?_⟩
  simp only [List.map_map, List.filter_map, Function.comp_def, readBack_id]

theorem Db.Corrupted.originals (h : db.Corrupted bad) :
    (∀ row ∈ tableRows db.events, ∃ row' ∈ tableRows bad.events, row.SameRaw row') ∧
      ∀ row' ∈ tableRows bad.events, ∃ row ∈ tableRows db.events, row.SameRaw row' := by
  obtain ⟨t, t', ht, ht', hrows⟩ := h.rows
  rw [ht, ht']
  exact mem_of_forall₂ hrows

/-- `node:sqlite` returns the row as it is, and as decoding its XDR again would make it. -/
structure EventRow.Legible (rt : Runtime) (row : EventRow) : Prop where
  stored : row.readBack = row
  settled : (row.settled rt).readBack = row.settled rt

theorem EventRow.Legible.whole_id {row : EventRow} (h : row.Legible rt) : Whole row.id :=
  readText_eq_iff.mp (congrArg EventRow.id h.stored)

theorem EventRow.SameRaw.id_eq {row row' : EventRow} (h : row.SameRaw row') : row'.id = row.id := by
  obtain ⟨d, -, -, rfl⟩ := h
  rfl

theorem EventRow.SameRaw.decodable {row row' : EventRow} (h : row.SameRaw row')
    (hrow : row.Decodable rt) : row'.Decodable rt := by
  obtain ⟨d, htopics, -, rfl⟩ := h
  refine ⟨?_, hrow.2⟩
  have hsame : (row.setDerived d).topicsXdr = row.topicsXdr := by
    simp only [EventRow.topicsXdr, EventRow.setDerived, htopics]
  rw [hsame]
  exact hrow.1

theorem topicsXdr_of_readable {row : EventRow} (h : row.Readable) : row.topicsXdr.isSome = true := by
  obtain ⟨e, he⟩ := h
  cases hx : row.topicsXdr with
  | some xdr => rfl
  | none => simp [rowToEvent, hx] at he

structure Db.Repaired (rt : Runtime) (db bad : Db) (ids : List String) (fin : Db) : Prop where
  /-- A reported event is again what decodes from its XDR, and so what `insertEvents` wrote. -/
  restored : ∀ row ∈ tableRows db.events, row.id ∈ ids → ∃ row' ∈ tableRows fin.events,
    row'.id = row.id ∧
      rowToEvent row' = some { (row.redecoded rt).normalise with indexedAt := row.indexedAt } ∧
      (row.WrittenBy rt.sdk → rowToEvent row' = rowToEvent row)
  others : ∀ row ∈ tableRows bad.events, row.id ∉ ids → row ∈ tableRows fin.events
  indexedAt : (tableRows fin.events).map (fun row => (row.id, row.indexedAt)) =
    (tableRows bad.events).map (fun row => (row.id, row.indexedAt))

theorem Db.Corrupted.refreshable (h : db.Corrupted bad) (hready : db.Ready build) :
    bad.Refreshable build := by
  obtain ⟨t, t', -, ht', -⟩ := h.rows
  have htrigger {name : TriggerName} (hn : name ∈ bad.triggers) :
      build.fts5 = true ∧ bad.eventsFts.isSome = true := by
    rw [h.triggers] at hn
    rw [h.fts]
    exact hready.trigger hn
  exact ⟨by rw [ht']; rfl, by rw [h.addresses, hready.addresses], htrigger, htrigger⟩

theorem sound_settled (rt : Runtime) (row : EventRow) : (row.settled rt).Sound stringOfNumber :=
  sound_setDerived rt row (row.redecoded rt)

theorem EventRow.SameRaw.sound_settled {row row' : EventRow} (h : row.SameRaw row')
    (hrow : row.Legible rt) :
    (row'.settled rt).readBack.Sound stringOfNumber := by
  rw [settled_of_sameRaw h, hrow.settled]
  exact SorobanLens.sound_settled rt row

theorem Db.Corrupted.repair (rt : Runtime) (h : db.Corrupted bad) (hreached : db.Reached)
    (hready : db.Ready build) (hlegible : ∀ row ∈ tableRows db.events, row.Legible rt)
    {reports : List IntegrityReport} (hreports : checkIntegrity stringOfNumber bad = .ok reports)
    (hdates : ∀ row ∈ tableRows db.events, row.id ∈ reports.map IntegrityReport.id →
      (rt.dateGetTime row.indexedAt).isSome = true) :
    ∃ fin, repairAll rt build (reports.map IntegrityReport.id) bad = (.ok (), fin) ∧
      checkIntegrity stringOfNumber fin = .ok [] ∧
        db.Repaired rt bad (reports.map IntegrityReport.id) fin := by
  obtain ⟨t, t', -, ht', -⟩ := h.rows
  have htable : tableRows bad.events = t'.rows := by rw [ht']; rfl
  obtain ⟨reports', hok, hids⟩ := checkIntegrity_ok stringOfNumber ht'
  rw [hreports, Except.ok.injEq] at hok
  subst hok
  have hread : ∀ row ∈ t'.rows, readText row.id = row.id := by
    intro row' hrow'
    obtain ⟨row, hrow, hraw⟩ := h.originals.2 row' (htable ▸ hrow')
    rw [hraw.id_eq]
    exact readText_of_whole (hlegible row hrow).whole_id
  rw [List.map_congr_left (fun row hrow => hread row (List.mem_of_mem_filter hrow))] at hids
  rw [hids] at hdates ⊢
  generalize hbroken : t'.rows.filter
    (fun row => rowProblems stringOfNumber row.readBack ≠ []) = broken at hdates ⊢
  have hsub : ∀ row ∈ broken, row ∈ t'.rows := by
    intro row hrow
    rw [← hbroken] at hrow
    exact List.mem_of_mem_filter hrow
  have hnodup : (broken.map EventRow.id).Nodup := by
    rw [← hbroken]
    exact (List.filter_sublist.map EventRow.id).nodup t'.nodup
  have hdecodable : ∀ row' ∈ broken, row'.Decodable rt := by
    intro row' hrow'
    obtain ⟨row, hrow, hraw⟩ := h.originals.2 row' (htable ▸ hsub row' hrow')
    refine hraw.decodable ⟨topicsXdr_of_readable (hreached.readable row hrow), hdates row hrow ?_⟩
    rw [← hraw.id_eq]
    exact List.mem_map_of_mem hrow'
  obtain ⟨t'', ht'', hrows⟩ := events_refreshAll rt ht' hsub hnodup
  have hfin : tableRows (bad.refreshAll rt broken).events = t'.rows.map
      (fun row => if row.id ∈ broken.map EventRow.id then row.settled rt else row) := by
    rw [ht'', ← hrows]
    rfl
  refine ⟨_, repairAll_settles (h.refreshable hready) ht' hsub hnodup hdecodable, ?_, ?_⟩
  · refine checkIntegrity_of_sound ht'' ?_
    intro row hrow
    rw [hrows] at hrow
    obtain ⟨r, hr, rfl⟩ := List.mem_map.mp hrow
    split
    · obtain ⟨row, hrow, hraw⟩ := h.originals.2 r (htable ▸ hr)
      exact hraw.sound_settled (hlegible row hrow)
    · rename_i hfine
      by_contra hproblem
      refine hfine (List.mem_map_of_mem ?_)
      rw [← hbroken]
      exact List.mem_filter.mpr ⟨hr, decide_eq_true hproblem⟩
  · refine ⟨?_, ?_, ?_⟩
    · intro row hrow hid
      obtain ⟨row', hrow', hraw⟩ := h.originals.1 row hrow
      refine ⟨row.settled rt, ?_, rfl, rowToEvent_settled rt row,
        fun hwritten => (repacked_settled hwritten).rowToEvent⟩
      rw [hfin]
      refine List.mem_map.mpr ⟨row', htable ▸ hrow', ?_⟩
      rw [hraw.id_eq, if_pos hid, settled_of_sameRaw hraw]
    · intro row hrow hid
      rw [hfin]
      exact List.mem_map.mpr ⟨row, htable ▸ hrow, if_neg hid⟩
    · rw [hfin, htable, List.map_map]
      refine List.map_congr_left ?_
      intro row _
      simp only [Function.comp_apply]
      split <;> rfl

end Repair

/-- In service every row passes the check, a second re-decode finds nothing to change, and
what the check reports of a corrupted file can be repaired. -/
theorem integrity_and_repair (rt : Runtime) (build : SqliteBuild)
    (stringOfNumber : Json.Numeral → String) {db : Db} (h : db.InService build)
    (hlegible : ∀ row ∈ tableRows db.events, row.Legible rt) :
    checkIntegrity stringOfNumber db = .ok [] ∧
      (redecode rt build true (redecode rt build true db).2 = redecode rt build true db ∧
        ∀ row ∈ tableRows db.events, row.WrittenBy rt.sdk →
          ∃ row' ∈ tableRows (redecode rt build true db).2.events, row.Repacked row') ∧
      ∀ bad, db.Corrupted bad → ∃ reports, checkIntegrity stringOfNumber bad = .ok reports ∧
        ((∀ row ∈ tableRows db.events, row.id ∈ reports.map IntegrityReport.id →
            (rt.dateGetTime row.indexedAt).isSome = true) →
          ∃ fin, repairAll rt build (reports.map IntegrityReport.id) bad = (.ok (), fin) ∧
            checkIntegrity stringOfNumber fin = .ok [] ∧
              db.Repaired rt bad (reports.map IntegrityReport.id) fin) := by
  obtain ⟨hreached, hready⟩ := h.reached_ready
  obtain ⟨t, ht⟩ := Option.isSome_iff_exists.mp hready.events
  have hwhole : ∀ row ∈ t.rows, row.readBack = row := by
    intro row hrow
    refine (hlegible row ?_).stored
    rw [ht]
    exact hrow
  refine ⟨hreached.checkIntegrity ht hwhole, ⟨redecode_redecode rt build db, ?_⟩, ?_⟩
  · intro row hrow hwritten
    rcases redecode_all_cases rt build ht with ⟨e, he⟩ | ⟨-, -, hok⟩
    · rw [he]
      exact ⟨row, hrow, .refl row⟩
    · obtain ⟨t', ht', hsettled⟩ := settled_of_whole_pass rt ht
      refine ⟨row.settled rt, ?_, repacked_settled hwritten⟩
      rw [ht] at hrow
      rw [hok, ht']
      change row.settled rt ∈ t'.rows
      rw [hsettled]
      exact List.mem_map_of_mem hrow
  · intro bad hbad
    obtain ⟨u, u', -, hu', -⟩ := hbad.rows
    obtain ⟨reports, hreports, -⟩ := checkIntegrity_ok stringOfNumber hu'
    exact ⟨reports, hreports, fun hdates => hbad.repair rt hreached hready hlegible hreports hdates⟩

/-! ### Corrupted topic columns -/

def Db.blankTopics (db : Db) : Db :=
  { db with
    events := db.events.map (fun t =>
      { rows := t.rows.map (fun row => { row with topic0 := none })
        nodup := by
          rw [List.map_map]
          exact t.nodup }) }

theorem corrupted_blankTopics {db : Db} {t : EventsTable} (ht : db.events = some t) :
    db.Corrupted db.blankTopics := by
  refine ⟨rfl, rfl, rfl, t, _, ht, by rw [Db.blankTopics, ht]; rfl, ?_⟩
  refine List.forall₂_map_right_iff.mpr (List.forall₂_same.mpr ?_)
  intro row _
  exact ⟨⟨row.topicsJson, row.topicsXdrJson, row.topicCount, none, row.topic1, row.topic2,
    row.topic3, row.valueType, row.valueJson, row.valueXdr, row.decodeError⟩, rfl, rfl, rfl⟩

theorem inService_exec {db : Db} {build : SqliteBuild} (host : Host) {op : StoreOp}
    (h : db.InService build) (hop : op.KeepsSchema) : (op.exec host db).InService build :=
  Reachable.next h ⟨host, op, hop, rfl⟩

theorem inService_openedDb : openedDb.InService ⟨true⟩ :=
  Reachable.start ⟨reached_openedDb, ready_openedDb⟩

def mintHost : Host where
  rt :=
    { sdk :=
        { fromXDR := fun base64 =>
            if base64 = "AAAADwAAAARtaW50" then .ok (.other "ScValSymbol" base64)
            else .error "XDR Read Error"
          scValToNative := fun _ => .ok (.str "mint") }
      dateGetTime := fun _ => some 0
      toISOString := fun _ => "1970-01-01T00:00:00.000Z"
      gzipLength := fun text => text.utf8ByteSize }
  build := ⟨true⟩
  server := ⟨fun _ => true, fun _ => true⟩

def mintEvent : RawEvent where
  id := "0000000004294967296-0000000000"
  type := .contract
  ledger := 1
  ledgerClosedAt := "1970-01-01T00:00:00Z"
  contractId := "CA"
  topic := ["AAAADwAAAARtaW50"]
  value := "AAAADwAAAARtaW50"
  txHash := "00"
  transactionIndex := 0
  operationIndex := 0
  inSuccessfulContractCall := true

def storedEvent : LensEvent := decodeEvent mintHost.rt.sdk "" mintEvent

def storedDb : Db := (StoreOp.insertEvents (fun _ => "") [mintEvent]).exec mintHost openedDb

theorem legible_storedDb : ∀ row ∈ tableRows storedDb.events, row.Legible mintHost.rt := by
  have hrows : tableRows storedDb.events = [insertParams mintHost.rt storedEvent] := rfl
  intro row hrow
  rw [hrows, List.mem_singleton] at hrow
  subst hrow
  exact ⟨by decide +kernel, by decide +kernel⟩

theorem integrity_and_repair_blanked : ∃ reports fin,
    checkIntegrity (fun _ => "") storedDb.blankTopics = .ok reports ∧
      repairAll mintHost.rt ⟨true⟩ (reports.map IntegrityReport.id) storedDb.blankTopics =
        (.ok (), fin) ∧
      checkIntegrity (fun _ => "") fin = .ok [] ∧
      storedDb.Repaired mintHost.rt storedDb.blankTopics (reports.map IntegrityReport.id) fin := by
  have hservice : storedDb.InService ⟨true⟩ :=
    inService_exec mintHost inService_openedDb ⟨by simp, by simp⟩
  obtain ⟨t, ht⟩ := Option.isSome_iff_exists.mp (hservice.reached_ready.2.events)
  obtain ⟨-, -, hrepair⟩ := integrity_and_repair mintHost.rt ⟨true⟩ (fun _ => "") hservice
    legible_storedDb
  obtain ⟨reports, hreports, hfin⟩ := hrepair _ (corrupted_blankTopics ht)
  obtain ⟨fin, hfin⟩ := hfin (fun _ _ _ => rfl)
  exact ⟨reports, fin, hreports, hfin⟩

def staleEvent : LensEvent := { storedEvent with topics := [⟨"symbol", .str "old"⟩] }

def staleDb : Db := (StoreOp.insertDecoded [staleEvent]).exec mintHost openedDb

theorem repair_of_stale : staleEvent.topics.length = staleEvent.topicsXdr.length ∧
    ∃ bad reports fin, staleDb.Corrupted bad ∧ checkIntegrity (fun _ => "") bad = .ok reports ∧
      repairAll mintHost.rt ⟨true⟩ (reports.map IntegrityReport.id) bad = (.ok (), fin) ∧
      ∃ row ∈ tableRows staleDb.events, row.id ∈ reports.map IntegrityReport.id ∧
        ∃ row' ∈ tableRows fin.events, row'.id = row.id ∧ rowToEvent row' ≠ rowToEvent row := by
  have hservice : staleDb.InService ⟨true⟩ :=
    inService_exec mintHost inService_openedDb ⟨by simp, by simp⟩
  obtain ⟨hreached, hready⟩ := hservice.reached_ready
  obtain ⟨t, ht⟩ := Option.isSome_iff_exists.mp hready.events
  have hbad := corrupted_blankTopics ht
  have hrows : tableRows staleDb.events = [insertParams mintHost.rt staleEvent] := rfl
  have hlegible : ∀ row ∈ tableRows staleDb.events, row.Legible mintHost.rt := by
    intro row hrow
    rw [hrows, List.mem_singleton] at hrow
    subst hrow
    exact ⟨by decide +kernel, by decide +kernel⟩
  obtain ⟨u, u', -, hu', -⟩ := hbad.rows
  obtain ⟨reports, hreports, hids⟩ := checkIntegrity_ok (fun _ => "") hu'
  obtain ⟨fin, hfin, -, hrepaired⟩ := hbad.repair mintHost.rt hreached hready hlegible
    hreports (fun _ _ _ => rfl)
  have hrow : insertParams mintHost.rt staleEvent ∈ tableRows staleDb.events := by simp [hrows]
  have hid : (insertParams mintHost.rt staleEvent).id ∈ reports.map IntegrityReport.id := by
    have hblank : u'.rows = [{ insertParams mintHost.rt staleEvent with topic0 := none }] := by
      have htable : tableRows staleDb.blankTopics.events = u'.rows := by rw [hu']; rfl
      rw [← htable]
      rfl
    rw [hids, hblank]
    refine List.mem_map.mpr ⟨{ insertParams mintHost.rt staleEvent with topic0 := none },
      List.mem_filter.mpr ⟨List.mem_singleton_self _, decide_eq_true ?_⟩, rfl⟩
    intro hsound
    have htopic := EventRow.Sound.topic0 hsound
      (show _ = stringify (topicsToJson staleEvent.topics) from rfl)
    cases htopic
  obtain ⟨row', hrow', hsame, hread, -⟩ := hrepaired.restored _ hrow hid
  refine ⟨rfl, _, reports, fin, hbad, hreports, hfin, _, hrow, hid, row', hrow', hsame, ?_⟩
  rw [hread, rowToEvent_insertParams]
  intro heq
  have htopics := congrArg LensEvent.topics (Option.some.inj heq)
  have hdecoded : ((insertParams mintHost.rt staleEvent).redecoded mintHost.rt).topics =
      [⟨"symbol", .str "mint"⟩] := by
    simp only [EventRow.redecoded, topicsXdr_insertParams, Option.getD_some]
    rfl
  simp only [LensEvent.normalise, hdecoded] at htopics
  simp [staleEvent, DecodedValue.normalise, Json.normalise] at htopics

end SorobanLens
