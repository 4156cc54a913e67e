import SorobanLens.Store.WriteRule
import SorobanLens.Store.Growth
import SorobanLens.Lib.SideTable

/-!
The address index over whole histories of a file: it holds what the stored events
mention, until the migration that creates it runs over events it never saw.
-/

set_option autoImplicit false

namespace SorobanLens

/-! ### What an event mentions -/

/-- An address occurs in the raw XDR a row keeps, at the position the index names. -/
inductive EventRow.MentionsAt (sdk : Sdk) (row : EventRow) (address : String) : String → Prop where
  | topic {topics : List String} {i : Nat} {base64 : String} : row.topicsXdr = some topics →
      topics[i]? = some base64 → MentionsXdr sdk address base64 →
      EventRow.MentionsAt sdk row address ("topic" ++ toString i)
  | value : MentionsXdr sdk address (decompressXdrColumn row.valueXdr) →
      EventRow.MentionsAt sdk row address "value"

def EventRow.Mentions (sdk : Sdk) (row : EventRow) (address : String) : Prop :=
  ∃ position, row.MentionsAt sdk address position

/-- The index rows an event stands for. -/
def EventRow.AddressEntry (sdk : Sdk) (row : EventRow) (r : AddressRow) : Prop :=
  r.eventId = row.id ∧ row.MentionsAt sdk r.address r.position

/-- The index holds each (address, position) of each stored event, and nothing else. -/
def Db.AddressesExact (sdk : Sdk) (db : Db) : Prop :=
  SideTable.Exact (EventRow.AddressEntry sdk) (tableRows db.events) db.indexedAddresses

theorem addressEntry_owner (sdk : Sdk) (row : EventRow) (r : AddressRow)
    (h : row.AddressEntry sdk r) : r.eventId = row.id := h.1

theorem mem_addressRows {sdk : Sdk} {row : EventRow} {e : LensEvent} {r : AddressRow}
    (htopics : row.topicsXdr = some e.topicsXdr)
    (hvalue : decompressXdrColumn row.valueXdr = e.valueXdr) :
    r ∈ addressRows sdk row.id e ↔ row.AddressEntry sdk r := by
  simp only [addressRows, List.mem_append, List.mem_flatMap, List.mem_map, mem_extractAddresses,
    EventRow.AddressEntry]
  constructor
  · intro h
    rcases h with ⟨⟨base64, i⟩, hi, a, ha, rfl⟩ | ⟨a, ha, rfl⟩
    · exact ⟨rfl, .topic htopics (List.mk_mem_zipIdx_iff_getElem?.mp hi) ha⟩
    · exact ⟨rfl, .value (by rwa [hvalue])⟩
  · intro h
    obtain ⟨id, address, position⟩ := r
    obtain ⟨rfl, hat⟩ := h
    cases hat with
    | @topic topics i base64 hread hi ha =>
      rw [htopics] at hread
      cases hread
      exact .inl ⟨(base64, i), List.mk_mem_zipIdx_iff_getElem?.mpr hi, address, ha, rfl⟩
    | value ha =>
      rw [hvalue] at ha
      exact .inr ⟨address, ha, rfl⟩

/-! ### Writes -/

theorem insertAddressRows_references {rs : List AddressRow} {db db' : Db} {a : AddressTable}
    (ha : db.eventAddresses = some a) (h : insertAddressRows rs db = .ok db') :
    ∀ r ∈ rs, r ∈ a.rows ∨ db.hasEvent r.eventId := by
  induction rs generalizing db a with
  | nil => simp
  | cons r rs ih =>
    obtain ⟨mid, hmid, h⟩ := bind_eq_ok.mp h
    have hmiddb := insertAddress_ok ha hmid
    have hhead : r ∈ a.rows ∨ db.hasEvent r.eventId := by
      unfold insertAddress at hmid
      obtain ⟨t, ht, hmid⟩ := bind_eq_ok.mp hmid
      rw [addressTable_ok, ha, Option.some.injEq] at ht
      subst ht
      split at hmid
      · rename_i hhas
        obtain ⟨u, hu, rfl⟩ := KeyedTable.has_iff.mp hhas
        exact .inl hu
      · split at hmid
        · cases hmid
        · rename_i events hevents
          split at hmid
          · rename_i hhas
            exact .inr ⟨events, hevents, hhas⟩
          · cases hmid
    refine List.forall_mem_cons.mpr ⟨hhead, ?_⟩
    intro s hs
    rw [hmiddb] at h
    rcases ih rfl h s hs with hmem | href
    · rcases KeyedTable.mem_insertOrIgnore.mp hmem with hmem | ⟨rfl, -⟩
      · exact .inl hmem
      · exact hhead
    · exact .inr href

theorem refreshAddresses_references {rt : Runtime} {build : SqliteBuild} {id : String}
    {event : LensEvent} {db db' : Db} (h : refreshAddresses rt build id event db = .ok db')
    (hnone : ¬ db.hasEvent id) : addressRows rt.sdk id event = [] := by
  obtain ⟨a, ha, h⟩ := bind_eq_ok.mp h
  obtain ⟨_, -, h⟩ := bind_eq_ok.mp h
  refine List.eq_nil_iff_forall_not_mem.mpr ?_
  intro r hr
  have hid := mem_addressRows_eventId hr
  rcases insertAddressRows_references rfl h r hr with hmem | href
  · have hgone := (KeyedTable.mem_deleteWhere.mp hmem).2
    simp [hid] at hgone
  · rw [hid] at href
    exact hnone href

section Writes

variable {sdk : Sdk} {db db' : Db}

def Db.AddressesKept (sdk : Sdk) (db : Db) : Prop :=
  db.eventAddresses.isSome = true → db.AddressesExact sdk

theorem Db.AddressesKept.congr (h : db.AddressesKept sdk) (he : db'.events = db.events)
    (ha : db'.eventAddresses = db.eventAddresses) : db'.AddressesKept sdk := by
  unfold Db.AddressesKept Db.AddressesExact Db.indexedAddresses
  rw [he, ha]
  exact h

variable {rt : Runtime} {build : SqliteBuild}

theorem addressesKept_insertOne {e : LensEvent} {n : Nat} (hk : db.AddressesKept rt.sdk)
    (h : insertOne rt build e db = .ok (n, db')) : db'.AddressesKept rt.sdk := by
  obtain ⟨t, ht, ⟨-, rfl, -⟩ | ⟨-, -, hid, hins⟩⟩ := insertOne_ok h
  · exact hk
  · obtain ⟨a, ha, ha'⟩ := hins.addresses
    intro _
    have hexact := hk (by rw [ha]; rfl)
    unfold Db.AddressesExact at hexact ⊢
    have hrows : tableRows db'.events = tableRows db.events ++ [insertParams rt e] := by
      rw [hins.events, ht]
      exact KeyedTable.rows_insertOrIgnore_of_not_has hid
    rw [hrows]
    refine hexact.append ?_
    intro r
    rw [indexedAddresses_some ha', indexedAddresses_some ha, KeyedTable.mem_insertAll_id]
    exact or_congr_right (mem_addressRows (topicsXdr_insertParams rt e) (valueXdr_insertParams rt e))

theorem addressesKept_deleteEvents {p : EventRow → Bool} (hk : db.AddressesKept sdk)
    (h : deleteEvents build p db = .ok db') : db'.AddressesKept sdk := by
  obtain ⟨t, ht, hdel⟩ := deleteEvents_ok h
  intro hsome
  rw [hdel.addresses, Option.isSome_map] at hsome
  obtain ⟨a, ha⟩ := Option.isSome_iff_exists.mp hsome
  have hexact := hk hsome
  have ha' := hdel.addresses
  rw [ha] at ha'
  unfold Db.AddressesExact at hexact ⊢
  rw [indexedAddresses_some ha, ht] at hexact
  rw [indexedAddresses_some ha', hdel.events]
  refine SideTable.Exact.delete (addressEntry_owner sdk) hexact t.nodup p ?_
  intro r
  rw [KeyedTable.mem_deleteWhere, decide_eq_false_iff_not]
  exact Iff.rfl

theorem addressesKept_recomputeRow {row : EventRow} (hk : db.AddressesKept rt.sdk)
    (h : recomputeRow rt build row db = .ok db') : db'.AddressesKept rt.sdk := by
  obtain ⟨d, event, mid, hrec, hupd, hrefresh⟩ := recomputeRow_ok h
  obtain ⟨hd, -, -, -⟩ := recompute_spec hrec
  have hforeign := refreshAddresses_references hrefresh
  obtain ⟨a, ha, rfl⟩ := refreshAddresses_ok hrefresh
  obtain ⟨t, ht, hcases⟩ := updateRow_ok hupd
  have hmid : mid.eventAddresses = db.eventAddresses ∧ tableRows mid.events = t.rows.map
      (fun r => if r.id = row.id then r.setDerived d else r) := by
    rcases hcases with ⟨hnone, rfl⟩ | ⟨current, -, hmid, -⟩
    · refine ⟨rfl, ?_⟩
      rw [ht]
      refine (List.map_id _).symm.trans (List.map_congr_left ?_)
      intro r hr
      rw [if_neg (KeyedTable.find?_eq_none.mp hnone r hr)]
      rfl
    · rw [hmid]
      exact ⟨rfl, rfl⟩
  obtain ⟨hsame, hrows⟩ := hmid
  rw [hsame] at ha
  intro _
  have hexact := hk (by rw [ha]; rfl)
  unfold Db.AddressesExact at hexact ⊢
  rw [indexedAddresses_some ha, ht] at hexact
  rw [indexedAddresses_some rfl]
  refine Eq.subst (motive := fun rows => SideTable.Exact _ rows _) hrows.symm ?_
  refine SideTable.Exact.renew (addressEntry_owner rt.sdk) hexact
    (fun r => r ∈ addressRows rt.sdk row.id event) ?_ ?_ ?_
  · intro r
    rw [KeyedTable.mem_insertAll_id, KeyedTable.mem_deleteWhere, decide_eq_false_iff_not]
  · intro r _ hid s
    rw [hd, ← hid]
    exact (mem_addressRows (topicsXdr_setDerived rt r event) (valueXdr_setDerived rt r event)).symm
  · intro habsent s
    rw [hforeign ?_]
    · exact List.not_mem_nil
    · intro hhas
      obtain ⟨u, hu, hid⟩ := hhas
      obtain ⟨r, hr, hrid⟩ := KeyedTable.has_iff.mp hid
      have hmem : r ∈ tableRows mid.events := by
        rw [hu]
        exact hr
      rw [hrows] at hmem
      obtain ⟨r', hr', rfl⟩ := List.mem_map.mp hmem
      rw [if_neg (habsent r' hr')] at hrid
      exact habsent r' hr' hrid

theorem keptByWrites_addresses (host : Host) :
    KeptByWrites host (Db.AddressesKept host.rt.sdk) where
  insertOne _ _ _ _ hk h := addressesKept_insertOne hk h
  deleteEvents _ _ _ hk h := addressesKept_deleteEvents hk h
  recomputeRow _ _ _ hk h := addressesKept_recomputeRow hk h
  rebuild _ _ hk _ _ := hk.congr rfl rfl
  streamState _ _ hk := hk.congr rfl rfl
  contractSpecs _ _ hk := hk.congr rfl rfl

/-! ### Migrations -/

theorem addressesKept_drop {d : Ddl} (hd : d.creates = false) (hk : db.AddressesKept sdk)
    (h : d.exec build db = .ok db') : db'.AddressesKept sdk := by
  cases d with
  | createTable t => cases hd
  | createIndex name t => cases hd
  | createTrigger name => cases hd
  | dropTableIfExists t =>
    simp only [Ddl.exec] at h
    split at h
    · cases h
      exact hk
    · split at h
      · cases h
      · cases h
        cases t with
        | events =>
          intro _
          have hnone : Db.indexedAddresses { db.removeTable .events with
              indexes := db.indexes.filter (fun i => i.2 ≠ .events) } = [] := by
            cases ha : db.eventAddresses <;> simp [Db.indexedAddresses, Db.removeTable, ha]
          unfold Db.AddressesExact
          rw [hnone]
          exact SideTable.exact_nil
        | eventAddresses =>
          intro hsome
          cases hsome
        | streamState => exact hk.congr rfl rfl
        | eventsFts => exact hk.congr rfl rfl
        | contractSpecs => exact hk.congr rfl rfl
  | dropIndexIfExists name =>
    cases h
    exact hk.congr rfl rfl
  | dropTriggerIfExists name =>
    cases h
    exact hk.congr rfl rfl

theorem addressesKept_migrateDown (toVersion : JsNumber) (hk : db.AddressesKept sdk) :
    (migrateDown build toVersion db).2.AddressesKept sdk :=
  migrateDown_induct (fun _ _ _ hd hk h => addressesKept_drop hd hk h)
    (fun _ _ hk => hk.congr rfl rfl) toVersion hk

/-- There is an index already, or no stored event mentions an address. -/
def Db.NothingToBackfill (sdk : Sdk) (db : Db) : Prop :=
  db.eventAddresses = none → ∀ row ∈ tableRows db.events, ∀ address, ¬ row.Mentions sdk address

/-- A migration leaves an exact index just when it had none to fill in. -/
theorem addressesExact_migrate_iff {fts5 : Bool} {version : Nat} (hat : db.AtVersion fts5 version)
    (hk : db.AddressesKept sdk) :
    (migrateSync build db).2.AddressesExact sdk ↔ db.NothingToBackfill sdk := by
  obtain ⟨after, hrun, hskeleton⟩ := hat.migrate build
  have hkeeps := keeps_migrateSync hrun
  have hafter : after.AtVersion (if version < 5 then build.fts5 else fts5) 6 :=
    .of_skeleton (le_refl 6) hskeleton
  have hsome : after.eventAddresses.isSome = true := hafter.baseTables.2.2
  rw [hrun]
  unfold Db.AddressesExact
  rw [hkeeps.events.tableRows]
  rcases hkeeps.eventAddresses with hsame | ⟨hnone, hfresh⟩
  · have hindexed : after.indexedAddresses = db.indexedAddresses := by
      simp [Db.indexedAddresses, hsame]
    rw [hsame] at hsome
    rw [hindexed]
    refine iff_of_true (hk hsome) ?_
    intro hnone
    rw [hnone] at hsome
    cases hsome
  · rw [indexedAddresses_some hfresh, KeyedTable.rows_empty, SideTable.exact_empty_iff]
    constructor
    · intro h _ row hrow address hmentions
      obtain ⟨position, hat⟩ := hmentions
      exact h row hrow ⟨row.id, address, position⟩ ⟨rfl, hat⟩
    · intro h row hrow r hentry
      exact h hnone row hrow r.address ⟨r.position, hentry.2⟩

end Writes

/-! ### Filtering by address -/

def EventQuery.forAddress (query : EventQuery) (address : String) : EventQuery :=
  { address := some address
    limit := query.limit
    cursor := query.cursor
    direction := query.direction
    skipTotal := query.skipTotal
    order := query.order }

open Classical in
noncomputable def Db.mentioning (sdk : Sdk) (address : String) (db : Db) : List EventRow :=
  (tableRows db.events).filter (fun row => row.Mentions sdk address)

theorem buildWhere_forAddress (query : EventQuery) {address : String} (ha : address ≠ "") :
    buildWhere (query.forAddress address) = [.address address] := by
  have hgiven : given (some address) = some address := given_eq_some.mpr ⟨rfl, ha⟩
  have hnone : given none = none := rfl
  simp [buildWhere, conditions, EventQuery.forAddress, topicConditions, hgiven, hnone]

theorem holds_address_iff {tm : TextMatch} {sdk : Sdk} {db : Db} (h : db.AddressesExact sdk)
    {row : EventRow} (hrow : row ∈ tableRows db.events) {address : String}
    (hnodup : ((tableRows db.events).map EventRow.id).Nodup) :
    Condition.holds tm db row (.address address) = true ↔ row.Mentions sdk address := by
  simp only [Condition.holds, List.any_eq_true, Bool.and_eq_true, beq_iff_eq]
  constructor
  · intro hr
    obtain ⟨r, hr, hid, rfl⟩ := hr
    obtain ⟨row', hrow', hid', hat⟩ := (h r).mp hr
    have hsame : row' = row := List.inj_on_of_nodup_map hnodup hrow' hrow (hid'.symm.trans hid)
    exact ⟨r.position, hsame ▸ hat⟩
  · intro hmentions
    obtain ⟨position, hat⟩ := hmentions
    exact ⟨⟨row.id, address, position⟩, (h _).mpr ⟨row, hrow, rfl, hat⟩, rfl, rfl⟩

/-- The index is exact, and a filter by address pages through exactly the events that
mention it. -/
structure Db.AddressIndexed (sdk : Sdk) (db : Db) : Prop where
  exact : db.AddressesExact sdk
  answers : ∀ (rd : Reader) (query : EventQuery) (address : String) (cache : CountCache),
    address ≠ "" → ∃ p, (queryEvents rd (query.forAddress address) db cache).1 = .ok p ∧
      (keysetPage query.resultOrder query.isBackward (given query.cursor)
        (normaliseLimit rd.maxLimit query.limit) (db.mentioning sdk address)).rows.mapM rowToEvent =
          some p.events

theorem Db.AddressesExact.indexed {sdk : Sdk} {db : Db} (h : db.AddressesExact sdk)
    (hread : db.EveryRow EventRow.Readable) (hevents : db.events.isSome = true)
    (haddresses : db.eventAddresses.isSome = true) : db.AddressIndexed sdk := by
  refine ⟨h, ?_⟩
  intro rd query address cache ha
  obtain ⟨t, ht⟩ := Option.isSome_iff_exists.mp hevents
  obtain ⟨a, hat⟩ := Option.isSome_iff_exists.mp haddresses
  have hwhere := buildWhere_forAddress query ha
  have hanswer : CanAnswer rd (query.forAddress address) db := by
    refine ⟨hevents, ?_⟩
    rw [hwhere]
    simp [Condition.prepare, addressTable_ok.mpr hat, Except.map]
  have hmatching : matchingRows rd.text (query.forAddress address) db = db.mentioning sdk address := by
    classical
    have hrows : tableRows db.events = t.rows := by rw [ht]; rfl
    unfold matchingRows Db.mentioning
    rw [ht, hwhere]
    refine List.filter_congr ?_
    intro row hrow
    have hiff := @holds_address_iff rd.text sdk db h row (hrows ▸ hrow) address (hrows ▸ t.nodup)
    rw [Bool.eq_iff_iff, decide_eq_true_iff, ← hiff]
    simp [matchesAll]
  have hpage : ∀ row ∈ (rowPage rd (query.forAddress address) db).rows, row.Readable := by
    intro row hrow
    obtain ⟨t, ht, hmem, -⟩ := mem_matchingRows.mp (mem_rowPage.mp hrow).1
    exact hread.rows ht row hmem
  obtain ⟨events, hrows⟩ := exists_mapM_of_readable hpage
  have hwindow := hrows
  rw [rowPage_eq] at hwindow
  obtain ⟨p, hp, rfl⟩ := queryEvents_of_readable hanswer hwindow cache
  refine ⟨p, hp, ?_⟩
  rw [← hmatching]
  exact hrows

/-! ### Histories -/

/-- A file of some version of the schema, as its own version of the store left it. -/
structure Db.LeftByStore (sdk : Sdk) (db : Db) : Prop where
  atVersion : ∃ fts5 version, db.AtVersion fts5 version
  readable : db.EveryRow EventRow.Readable
  addresses : db.AddressesKept sdk

def SdkStep (sdk : Sdk) (db db' : Db) : Prop :=
  ∃ (host : Host) (op : StoreOp), host.rt.sdk = sdk ∧ db' = op.exec host db

theorem runs_exec {sdk : Sdk} {db : Db} (h : Reachable (Db.LeftByStore sdk) (SdkStep sdk) db)
    (host : Host) (hsdk : host.rt.sdk = sdk) (op : StoreOp) :
    Reachable (Db.LeftByStore sdk) (SdkStep sdk) (op.exec host db) :=
  h.next ⟨host, op, hsdk, rfl⟩

/-- Such a step, where a migration finds no mention that an index it creates would miss. -/
def AddressStep (sdk : Sdk) (db db' : Db) : Prop :=
  ∃ (host : Host) (op : StoreOp), host.rt.sdk = sdk ∧
    (op = .migrate → db.NothingToBackfill sdk) ∧ db' = op.exec host db

theorem Db.LeftByStore.step {sdk : Sdk} {db db' : Db} (h : db.LeftByStore sdk)
    (hstep : AddressStep sdk db db') : db'.LeftByStore sdk := by
  obtain ⟨host, op, rfl, hbackfill, rfl⟩ := hstep
  obtain ⟨fts5, version, hat⟩ := h.atVersion
  refine ⟨hat.exec host op, op.everyRow_exec readable_insertParams
    (fun rt row e _ => readable_setDerived rt row e) host h.readable, ?_⟩
  by_cases hup : op = .migrate
  · subst hup
    intro _
    exact (addressesExact_migrate_iff hat h.addresses).mpr (hbackfill rfl)
  · by_cases hdown : ∃ v, op = .migrateDown v
    · obtain ⟨v, rfl⟩ := hdown
      exact addressesKept_migrateDown v h.addresses
    · exact (keptByWrites_addresses host).exec op hup (by simpa using hdown) h.addresses

theorem leftByStore_of_run {sdk : Sdk} {db : Db}
    (h : Reachable (Db.LeftByStore sdk) (AddressStep sdk) db) : db.LeftByStore sdk :=
  Reachable.invariant (fun _ h => h) (fun _ _ h hstep => h.step hstep) h

theorem addresses_indexed {sdk : Sdk} {db : Db}
    (h : Reachable (Db.LeftByStore sdk) (AddressStep sdk) db) (hcurrent : db.Current) :
    db.AddressIndexed sdk := by
  have hleft := leftByStore_of_run h
  obtain ⟨fts5, version, hat⟩ := hleft.atVersion
  have hlatest := hat.latest hcurrent
  subst hlatest
  obtain ⟨hevents, -, haddresses⟩ := hat.baseTables
  exact (hleft.addresses haddresses).indexed hleft.readable hevents haddresses

/-! ### Down to the third version and up again -/

def zeroContract : String := "CAAAAAAAAAAAAAAAAAAAAAAAAAAAAAAAAAAAAAAAAAAAAAAAAAAAD2KM"

def zeroContractXdr : String := "AAAAEgAAAAEAAAAAAAAAAAAAAAAAAAAAAAAAAAAAAAAAAAAAAAAAAA=="

def addressSdk : Sdk where
  fromXDR base64 :=
    if base64 = zeroContractXdr then .ok (.address zeroContract) else .error "XDR Read Error"
  scValToNative _ := .ok (.str zeroContract)

def addressHost : Host := { smallHost with rt := { smallHost.rt with sdk := addressSdk } }

def transfer : RawEvent := { Postgres.nulEvent with topic := [zeroContractXdr], value := zeroContractXdr }

def transferDb : Db :=
  (StoreOp.insertEvents (fun _ => "") [transfer]).exec addressHost
    (StoreOp.migrate.exec addressHost Db.new)

theorem leftByStore_new (sdk : Sdk) : Db.new.LeftByStore sdk := by
  refine ⟨⟨true, 0, by omega, by decide +kernel⟩, ?_, ?_⟩
  · intro row hrow
    cases hrow
  · intro hsome
    cases hsome

theorem reachable_transferDb :
    Reachable (Db.LeftByStore addressSdk) (AddressStep addressSdk) transferDb := by
  refine Reachable.next (Reachable.next (.start (leftByStore_new addressSdk))
    ⟨addressHost, .migrate, rfl, ?_, rfl⟩) ⟨addressHost, _, rfl, ?_, rfl⟩
  · intro _ _ row hrow
    cases hrow
  · intro hup
    cases hup

theorem current_transferDb : transferDb.Current := by
  unfold Db.Current
  decide +kernel

theorem addresses_indexed_transfer :
    (tableRows transferDb.events).length = 1 ∧ transferDb.AddressIndexed addressSdk :=
  ⟨by decide +kernel, addresses_indexed reachable_transferDb current_transferDb⟩

def olderTransferDb : Db := (StoreOp.migrateDown (.ofNat 3)).exec addressHost transferDb

theorem transfer_not_backfilled : ¬ olderTransferDb.NothingToBackfill addressSdk := by
  intro h
  have hnone : olderTransferDb.eventAddresses.isNone = true := by decide +kernel
  have hrows : tableRows olderTransferDb.events =
      [insertParams addressHost.rt (decodeEvent addressSdk "" transfer)] := by
    have hkept := @migrateDown_spares addressHost.build (.ofNat 3) transferDb (by decide)
    unfold olderTransferDb StoreOp.exec
    rw [hkept.1]
    rfl
  refine h (Option.isNone_iff_eq_none.mp hnone) _ (by rw [hrows]; exact List.mem_singleton_self _)
    zeroContract ⟨"value", .value ?_⟩
  rw [valueXdr_insertParams]
  exact ⟨.address zeroContract, rfl, .here⟩

/-- Migrating up again brings an index that does not know the event. -/
theorem address_index_forgets : ∃ sdk db, Reachable (Db.LeftByStore sdk) (SdkStep sdk) db ∧
    db.Current ∧ ¬ db.AddressIndexed sdk := by
  have hleft : olderTransferDb.LeftByStore addressSdk :=
    (leftByStore_of_run reachable_transferDb).step ⟨addressHost, _, rfl, by simp, rfl⟩
  obtain ⟨fts5, version, hat⟩ := hleft.atVersion
  refine ⟨addressSdk, StoreOp.migrate.exec addressHost olderTransferDb, ?_, ?_, ?_⟩
  · have hopened := runs_exec (.start (leftByStore_new addressSdk)) addressHost rfl .migrate
    have hstored := runs_exec hopened addressHost rfl (.insertEvents (fun _ => "") [transfer])
    have hrolled := runs_exec hstored addressHost rfl (.migrateDown (.ofNat 3))
    exact runs_exec hrolled addressHost rfl .migrate
  · unfold Db.Current
    decide +kernel
  · intro hindexed
    exact transfer_not_backfilled
      ((addressesExact_migrate_iff hat hleft.addresses).mp hindexed.exact)

end SorobanLens
