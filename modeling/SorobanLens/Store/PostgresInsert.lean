import SorobanLens.Store.Postgres

/-!
When `PostgresEventStore.insertEvents` commits: what each event of a batch must
be for its statements to be accepted, and what a batch leaves behind.
-/

set_option autoImplicit false

namespace SorobanLens.Postgres

variable {server : PgServer} {rt : Runtime}

/-- The insert statement takes this event, new or not. -/
def Admitted (rt : Runtime) (e : LensEvent) : Prop :=
  insertBinds rt e = true ∧ e.type.admitted = true

def Storable (server : PgServer) (rt : Runtime) (e : LensEvent) : Prop :=
  server.fitsEvent (insertParams rt e) = true ∧
    ∀ r ∈ addressRows rt.sdk e.id e, addressBinds r = true ∧ server.fitsAddress r = true

def Acceptable (server : PgServer) (rt : Runtime) (es : List LensEvent) (db : PgDb) : Prop :=
  (∀ e ∈ es, Admitted rt e) ∧
    ∀ pre e post, es = pre ++ e :: post → db.events.has e.id = false →
      e.id ∉ pre.map LensEvent.id → Storable server rt e

theorem insertAddress_ok {r : AddressRow} {db db' : PgDb} :
    insertAddress server r db = .ok db' ↔ addressBinds r = true ∧
      ((db.eventAddresses.has r = true ∧ db' = db) ∨
        (db.eventAddresses.has r = false ∧ server.fitsAddress r = true ∧
          ∃ h : db.events.has r.eventId = true, db' = db.addAddress r h)) := by
  unfold insertAddress
  cases hb : addressBinds r with
  | false => simp
  | true =>
    cases hh : db.eventAddresses.has r with
    | true =>
      simp only [Bool.true_eq_false, if_false, if_true, Except.ok.injEq, true_and, false_and,
        or_false]
      exact eq_comm
    | false =>
      cases hf : server.fitsAddress r with
      | false => simp
      | true =>
        by_cases he : db.events.has r.eventId = true
        · simp only [Bool.true_eq_false, Bool.false_eq_true, if_false, dif_pos he, Except.ok.injEq,
            true_and, false_and, false_or, exists_prop_of_true he]
          exact eq_comm
        · simp [he]

theorem insertAddressRows_ok {rs : List AddressRow} {db : PgDb}
    (hstored : ∀ r ∈ rs, db.events.has r.eventId = true) :
    (∃ db', insertAddressRows server rs db = .ok db') ↔ ∀ r ∈ rs, addressBinds r = true ∧
      (db.eventAddresses.has r = true ∨ server.fitsAddress r = true) := by
  induction rs generalizing db with
  | nil => simp [insertAddressRows]
  | cons r rs ih =>
    have hrest : ∀ s ∈ rs, db.events.has s.eventId = true :=
      fun s hs => hstored s (List.mem_cons_of_mem r hs)
    simp only [insertAddressRows, bind_eq_ok, List.forall_mem_cons]
    constructor
    · intro h
      obtain ⟨db', db₁, hr, h⟩ := h
      obtain ⟨hbinds, hcase⟩ := insertAddress_ok.mp hr
      rcases hcase with ⟨hhas, rfl⟩ | ⟨-, hfits, hevent, rfl⟩
      · exact ⟨⟨hbinds, .inl hhas⟩, (ih hrest).mp ⟨db', h⟩⟩
      · refine ⟨⟨hbinds, .inr hfits⟩, ?_⟩
        intro s hs
        obtain ⟨hsb, hsf⟩ := (@ih (db.addAddress r hevent) hrest).mp ⟨db', h⟩ s hs
        refine ⟨hsb, ?_⟩
        rcases hsf with hshas | hsf
        · obtain ⟨u, hu, rfl⟩ := KeyedTable.has_iff.mp hshas
          rcases KeyedTable.mem_insertOrIgnore.mp hu with hu | ⟨rfl, -⟩
          · exact .inl (KeyedTable.has_of_mem hu)
          · exact .inr hfits
        · exact .inr hsf
    · intro h
      obtain ⟨⟨hbinds, hr⟩, hrs⟩ := h
      cases hhas : db.eventAddresses.has r with
      | true =>
        obtain ⟨db', hok⟩ := (ih hrest).mpr hrs
        exact ⟨db', db, insertAddress_ok.mpr ⟨hbinds, .inl ⟨hhas, rfl⟩⟩, hok⟩
      | false =>
        have hevent := hstored r List.mem_cons_self
        have hfits : server.fitsAddress r = true := by simpa [hhas] using hr
        obtain ⟨db', hok⟩ := (@ih (db.addAddress r hevent) hrest).mpr (fun s hs =>
          ⟨(hrs s hs).1, (hrs s hs).2.imp_left KeyedTable.has_insertOrIgnore_of_has⟩)
        exact ⟨db', _, insertAddress_ok.mpr ⟨hbinds, .inr ⟨hhas, hfits, hevent, rfl⟩⟩, hok⟩

theorem insertAddressRows_spec {rs : List AddressRow} {db db' : PgDb}
    (h : insertAddressRows server rs db = .ok db') :
    db'.events = db.events ∧ db'.eventAddresses = db.eventAddresses.insertAll rs := by
  induction rs generalizing db with
  | nil =>
    simp only [insertAddressRows, Except.ok.injEq] at h
    exact ⟨by rw [h], by rw [h]; rfl⟩
  | cons r rs ih =>
    simp only [insertAddressRows, bind_eq_ok] at h
    obtain ⟨db₁, hr, h⟩ := h
    obtain ⟨hevents, haddresses⟩ := ih h
    obtain ⟨-, hcase⟩ := insertAddress_ok.mp hr
    rw [hevents, haddresses, KeyedTable.insertAll_cons]
    rcases hcase with ⟨hhas, rfl⟩ | ⟨-, -, -, rfl⟩
    · exact ⟨rfl, by rw [KeyedTable.insertOrIgnore_of_has hhas]⟩
    · exact ⟨rfl, rfl⟩

theorem insertEvent_ok {e : LensEvent} {db db' : PgDb} {n : Nat} :
    insertEvent server rt e db = .ok (n, db') ↔ Admitted rt e ∧
      ((db.events.has e.id = true ∧ n = 0 ∧ db' = db) ∨
        (db.events.has e.id = false ∧ server.fitsEvent (insertParams rt e) = true ∧ n = 1 ∧
          db' = db.addEvent (insertParams rt e))) := by
  unfold insertEvent Admitted
  cases hb : insertBinds rt e with
  | false => simp
  | true =>
    cases ha : e.type.admitted with
    | false => simp
    | true =>
      cases hh : db.events.has e.id with
      | true =>
        simp only [Bool.true_eq_false, if_false, if_true, Except.ok.injEq, Prod.mk.injEq, true_and,
          false_and, or_false]
        exact and_congr eq_comm eq_comm
      | false =>
        cases hf : server.fitsEvent (insertParams rt e) with
        | false => simp
        | true =>
          simp only [Bool.true_eq_false, Bool.false_eq_true, if_false, Except.ok.injEq,
            Prod.mk.injEq, true_and, false_and, false_or]
          exact and_congr eq_comm eq_comm

structure OneInserted (rt : Runtime) (e : LensEvent) (db db' : PgDb) (n : Nat) : Prop where
  known : db.events.has e.id = true → n = 0 ∧ db' = db
  fresh : db.events.has e.id = false → n = 1 ∧
    db'.events = db.events.insertOrIgnore (insertParams rt e) ∧
    db'.eventAddresses = db.eventAddresses.insertAll (addressRows rt.sdk e.id e)

theorem insertOne_spec {e : LensEvent} {db db' : PgDb} {n : Nat}
    (h : insertOne server rt e db = .ok (n, db')) : OneInserted rt e db db' n := by
  simp only [insertOne, bind_eq_ok] at h
  obtain ⟨⟨k, db₁⟩, hevent, h⟩ := h
  obtain ⟨-, hcase⟩ := insertEvent_ok.mp hevent
  rcases hcase with ⟨hhas, rfl, rfl⟩ | ⟨hhas, -, rfl, rfl⟩
  · simp only [Nat.lt_irrefl, if_false, pure, Except.pure, Except.ok.injEq, Prod.mk.injEq] at h
    obtain ⟨rfl, rfl⟩ := h
    exact ⟨fun _ => ⟨rfl, rfl⟩, fun hno => by simp [hhas] at hno⟩
  · simp only [Nat.zero_lt_one, if_true, bind_eq_ok] at h
    obtain ⟨db₂, hrows, h⟩ := h
    simp only [pure, Except.pure, Except.ok.injEq, Prod.mk.injEq] at h
    obtain ⟨rfl, rfl⟩ := h
    obtain ⟨hevents, haddresses⟩ := insertAddressRows_spec hrows
    exact ⟨fun hyes => by simp [hhas] at hyes, fun _ => ⟨rfl, hevents, haddresses⟩⟩

/-- One event is inserted exactly when it is taken and, if new, storable. -/
theorem insertOne_ok_iff {e : LensEvent} {db : PgDb} :
    (∃ n db', insertOne server rt e db = .ok (n, db')) ↔
      Admitted rt e ∧ (db.events.has e.id = false → Storable server rt e) := by
  have hnone : db.events.has e.id = false → ∀ r ∈ addressRows rt.sdk e.id e,
      db.eventAddresses.has r = false := by
    intro hno r hr
    refine KeyedTable.not_has_iff.mpr (fun s hs heq => ?_)
    have href := db.references s hs
    obtain rfl : s = r := heq
    rw [mem_addressRows_eventId hr, hno] at href
    cases href
  have hstored : ∀ r ∈ addressRows rt.sdk e.id e,
      (db.addEvent (insertParams rt e)).events.has r.eventId = true := by
    intro r hr
    rw [mem_addressRows_eventId hr]
    exact KeyedTable.has_insertOrIgnore_self db.events (insertParams rt e)
  have hrows : (∃ db', insertAddressRows server (addressRows rt.sdk e.id e)
      (db.addEvent (insertParams rt e)) = .ok db') ↔ _ := insertAddressRows_ok hstored
  simp only [insertOne, bind_eq_ok]
  constructor
  · intro h
    obtain ⟨n, db', ⟨k, db₁⟩, hevent, h⟩ := h
    obtain ⟨hadm, hcase⟩ := insertEvent_ok.mp hevent
    refine ⟨hadm, fun hno => ?_⟩
    rcases hcase with ⟨hhas, -⟩ | ⟨-, hfits, rfl, rfl⟩
    · simp [hno] at hhas
    · simp only [Nat.zero_lt_one, if_true, bind_eq_ok] at h
      obtain ⟨db₂, hok, -⟩ := h
      refine ⟨hfits, fun r hr => ?_⟩
      obtain ⟨hb, hf⟩ := hrows.mp ⟨db₂, hok⟩ r hr
      refine ⟨hb, hf.resolve_left ?_⟩
      intro hhas
      have := hnone hno r hr
      simp [PgDb.addEvent, this] at hhas
  · intro h
    obtain ⟨hadm, hstorable⟩ := h
    cases hhas : db.events.has e.id with
    | true => exact ⟨0, db, (0, db), insertEvent_ok.mpr ⟨hadm, .inl ⟨hhas, rfl, rfl⟩⟩, rfl⟩
    | false =>
      obtain ⟨hfits, hall⟩ := hstorable hhas
      obtain ⟨db', hok⟩ := hrows.mpr (fun r hr => ⟨(hall r hr).1, .inr (hall r hr).2⟩)
      refine ⟨1, db', (1, _), insertEvent_ok.mpr ⟨hadm, .inr ⟨hhas, hfits, rfl, rfl⟩⟩, ?_⟩
      simp only [Nat.zero_lt_one, if_true, bind_eq_ok]
      exact ⟨db', hok, rfl⟩

theorem OneInserted.has_iff {e : LensEvent} {db db' : PgDb} {n : Nat}
    (h : OneInserted rt e db db' n) (k : String) :
    db'.events.has k = true ↔ db.events.has k = true ∨ k = e.id := by
  cases hhas : db.events.has e.id with
  | true =>
    obtain ⟨-, rfl⟩ := h.known hhas
    constructor
    · exact .inl
    · intro hk
      rcases hk with hk | rfl
      · exact hk
      · exact hhas
  | false =>
    rw [(h.fresh hhas).2.1, KeyedTable.has_iff, KeyedTable.has_iff]
    constructor
    · intro hk
      obtain ⟨row, hrow, rfl⟩ := hk
      rcases KeyedTable.mem_insertOrIgnore.mp hrow with hrow | ⟨rfl, -⟩
      · exact .inl ⟨row, hrow, rfl⟩
      · exact .inr rfl
    · intro hk
      rcases hk with ⟨row, hrow, rfl⟩ | rfl
      · exact ⟨row, KeyedTable.mem_insertOrIgnore_of_mem hrow, rfl⟩
      · exact ⟨_, KeyedTable.mem_insertOrIgnore.mpr (.inr ⟨rfl, hhas⟩), rfl⟩

theorem acceptable_cons {e : LensEvent} {es : List LensEvent} {db db' : PgDb} {n : Nat}
    (h : OneInserted rt e db db' n) :
    Acceptable server rt (e :: es) db ↔
      (Admitted rt e ∧ (db.events.has e.id = false → Storable server rt e)) ∧
        Acceptable server rt es db' := by
  have hfresh : ∀ k, db'.events.has k = false ↔ db.events.has k = false ∧ k ≠ e.id := by
    intro k
    rw [← Bool.not_eq_true, ← Bool.not_eq_true, h.has_iff, not_or]
  constructor
  · intro hall
    refine ⟨⟨hall.1 e List.mem_cons_self, fun hno => hall.2 [] e es rfl hno (by simp)⟩,
      fun x hx => hall.1 x (List.mem_cons_of_mem e hx), ?_⟩
    intro pre x post hes hno hpre
    obtain ⟨hno, hne⟩ := (hfresh x.id).mp hno
    refine hall.2 (e :: pre) x post (by rw [hes]; rfl) hno ?_
    simpa [hne] using hpre
  · intro hall
    obtain ⟨⟨hadm, hstorable⟩, hrest⟩ := hall
    refine ⟨List.forall_mem_cons.mpr ⟨hadm, hrest.1⟩, ?_⟩
    intro pre x post hes hno hpre
    cases pre with
    | nil =>
      obtain ⟨rfl, -⟩ := List.cons.inj hes
      exact hstorable hno
    | cons y pre =>
      obtain ⟨rfl, htail⟩ := List.cons.inj hes
      simp only [List.map_cons, List.mem_cons, not_or] at hpre
      exact hrest.2 pre x post htail ((hfresh x.id).mpr ⟨hno, hpre.1⟩) hpre.2

theorem insertBatch_ok_iff {es : List LensEvent} {db : PgDb} :
    (∃ n db', insertBatch server rt es db = .ok (n, db')) ↔ Acceptable server rt es db := by
  induction es generalizing db with
  | nil => simp [insertBatch, Acceptable]
  | cons e es ih =>
    simp only [insertBatch, bind_eq_ok]
    constructor
    · intro h
      obtain ⟨n, db', ⟨k, db₁⟩, hone, ⟨m, db₂⟩, hrest, -⟩ := h
      exact (acceptable_cons (insertOne_spec hone)).mpr
        ⟨insertOne_ok_iff.mp ⟨k, db₁, hone⟩, ih.mp ⟨m, db₂, hrest⟩⟩
    · intro h
      have hfirst : Admitted rt e ∧ (db.events.has e.id = false → Storable server rt e) :=
        ⟨h.1 e List.mem_cons_self, fun hno => h.2 [] e es rfl hno (by simp)⟩
      obtain ⟨k, db₁, hone⟩ := insertOne_ok_iff.mpr hfirst
      obtain ⟨m, db₂, hrest⟩ := ih.mpr ((acceptable_cons (insertOne_spec hone)).mp h).2
      exact ⟨k + m, db₂, (k, db₁), hone, (m, db₂), hrest, rfl⟩

theorem has_insertBatch {es : List LensEvent} {db db' : PgDb} {n : Nat}
    (h : insertBatch server rt es db = .ok (n, db')) (k : String) :
    db'.events.has k = true ↔ db.events.has k = true ∨ k ∈ es.map LensEvent.id := by
  induction es generalizing db n with
  | nil =>
    simp only [insertBatch, Except.ok.injEq, Prod.mk.injEq] at h
    simp [h.2]
  | cons e es ih =>
    simp only [insertBatch, bind_eq_ok] at h
    obtain ⟨⟨m, db₁⟩, hone, ⟨l, db₂⟩, hrest, h⟩ := h
    simp only [pure, Except.pure, Except.ok.injEq, Prod.mk.injEq] at h
    obtain ⟨-, rfl⟩ := h
    rw [ih hrest, (insertOne_spec hone).has_iff, List.map_cons, List.mem_cons, or_assoc]

/-! ### Committing a batch -/

def decodeBatch (rt : Runtime) (now : Nat → String) (raws : List RawEvent) : List LensEvent :=
  raws.mapIdx (fun i raw => decodeEvent rt.sdk (now i) raw)

theorem ids_decodeBatch (rt : Runtime) (now : Nat → String) (raws : List RawEvent) :
    (decodeBatch rt now raws).map LensEvent.id = raws.map RawEvent.id := by
  apply List.ext_getElem <;> simp [decodeBatch]

/-- A batch commits with every id stored exactly when each event is taken by the
insert and each new one can be stored. -/
theorem insertEvents_commits_iff (server : PgServer) (rt : Runtime) (now : Nat → String)
    (raws : List RawEvent) (db : PgDb) :
    (∃ n db', insertEvents server rt now raws db = (.ok n, db') ∧
      ∀ raw ∈ raws, db'.events.has raw.id = true) ↔
      Acceptable server rt (decodeBatch rt now raws) db := by
  rw [← insertBatch_ok_iff]
  have hnil : raws = [] ↔ decodeBatch rt now raws = [] := by simp [decodeBatch]
  unfold insertEvents insertDecoded
  rw [show raws.mapIdx (fun i e => decodeEvent rt.sdk (now i) e) = decodeBatch rt now raws from rfl]
  by_cases hempty : raws = []
  · simp [hempty, decodeBatch, insertBatch]
  · rw [if_neg (fun h => hempty (hnil.mpr h))]
    constructor
    · intro h
      obtain ⟨n, db', htx, -⟩ := h
      cases hbatch : insertBatch server rt (decodeBatch rt now raws) db with
      | ok r => exact ⟨r.1, r.2, rfl⟩
      | error e =>
        rw [hbatch] at htx
        cases htx
    · intro h
      obtain ⟨n, db', hbatch⟩ := h
      refine ⟨n, db', by rw [hbatch]; rfl, ?_⟩
      intro raw hraw
      refine (has_insertBatch hbatch raw.id).mpr (.inr ?_)
      rw [ids_decodeBatch]
      exact List.mem_map_of_mem hraw

/-! ### A topic that holds U+0000 -/

/-- The XDR of the one-character string U+0000, and an SDK that keeps it. -/
def nulRuntime : Runtime where
  sdk :=
    { fromXDR := fun base64 =>
        if base64 = "AAAADgAAAAEAAAAA" then .ok (.other "ScValString" base64)
        else .error "XDR Read Error"
      scValToNative := fun _ => .ok (.str "\x00") }
  dateGetTime := fun _ => some 0
  toISOString := fun _ => "1970-01-01T00:00:00.000Z"
  gzipLength := fun text => text.utf8ByteSize

def nulEvent : RawEvent where
  id := "0000000004294967296-0000000000"
  type := .contract
  ledger := 1
  ledgerClosedAt := "1970-01-01T00:00:00Z"
  contractId := "CA"
  topic := ["AAAADgAAAAEAAAAA"]
  value := "AAAADgAAAAEAAAAA"
  txHash := "00"
  transactionIndex := 0
  operationIndex := 0
  inSuccessfulContractCall := true

theorem insertEvents_refuses_nul :
    ¬ ∃ n db', insertEvents ⟨fun _ => true, fun _ => true⟩ nulRuntime
        (fun _ => "1970-01-01T00:00:00.000Z") [nulEvent] PgDb.empty = (.ok n, db') ∧
      ∀ raw ∈ [nulEvent], db'.events.has raw.id = true := by
  have hbinds : insertBinds nulRuntime
      (decodeEvent nulRuntime.sdk "1970-01-01T00:00:00.000Z" nulEvent) = false := by decide +kernel
  intro h
  obtain ⟨n, db', hok, -⟩ := h
  simp [insertEvents, insertDecoded, insertBatch, insertOne, insertEvent, hbinds, tx, bind,
    Except.bind] at hok

end SorobanLens.Postgres
