import SorobanLens.Store.Prune
import SorobanLens.Store.Stability
import SorobanLens.Lib.Transition

/-!
What a prune to a size removes: the file does not shrink while the loop runs, so a
loop that starts goes on until nothing is left.
-/

set_option autoImplicit false

namespace SorobanLens

def Db.eventRows (db : Db) : List EventRow :=
  match db.events with
  | none => []
  | some t => t.rows

theorem eventRows_some {db : Db} {t : EventsTable} (h : db.events = some t) :
    db.eventRows = t.rows := by simp [Db.eventRows, h]

def Chunk (build : SqliteBuild) (chunkLedgers : JsNumber) (db db' : Db) : Prop :=
  ∃ oldest, (db.eventRows.map EventRow.ledger).min? = some oldest ∧
    db.eventRows.filter (below (pruneCutoff oldest chunkLedgers)) ≠ [] ∧
    deleteEvents build (below (pruneCutoff oldest chunkLedgers)) db = .ok db'

/-- Only whole ledgers are gone, and older ones than those that stay. -/
structure OldestFirst (db db' : Db) : Prop where
  kept : db'.eventRows ⊆ db.eventRows
  older : ∀ row ∈ db.eventRows, row ∉ db'.eventRows → ∀ k ∈ db'.eventRows, row.ledger < k.ledger

section Chunks

variable {build : SqliteBuild} {chunkLedgers : JsNumber} {a b c : Db}

theorem OldestFirst.refl (a : Db) : OldestFirst a a :=
  ⟨fun _ h => h, fun _ hrow hno => absurd hrow hno⟩

theorem OldestFirst.trans (h : OldestFirst a b) (g : OldestFirst b c) : OldestFirst a c where
  kept := fun _ hrow => h.kept (g.kept hrow)
  older row hrow hno k hk := by
    by_cases hb : row ∈ b.eventRows
    · exact g.older row hb hno k hk
    · exact h.older row hrow hb k (g.kept hk)

theorem chunk_rightUnique : Relator.RightUnique (Chunk build chunkLedgers) := by
  intro a b c hb hc
  obtain ⟨oldest, hmin, -, hdel⟩ := hb
  obtain ⟨oldest', hmin', -, hdel'⟩ := hc
  rw [hmin, Option.some.injEq] at hmin'
  subst hmin'
  rw [hdel, Except.ok.injEq] at hdel'
  exact hdel'

theorem eventRows_deleteEvents {p : EventRow → Bool} (h : deleteEvents build p a = .ok b) :
    b.eventRows = a.eventRows.filter (fun row => !p row) := by
  obtain ⟨t, ht, hdel⟩ := deleteEvents_ok h
  rw [eventRows_some ht, eventRows_some hdel.events]
  rfl

theorem Chunk.oldestFirst (h : Chunk build chunkLedgers a b) : OldestFirst a b := by
  obtain ⟨oldest, -, -, hdel⟩ := h
  have hrows := eventRows_deleteEvents hdel
  refine ⟨fun row hrow => ?_, fun row hrow hno k hk => ?_⟩
  · rw [hrows] at hrow
    exact (List.mem_filter.mp hrow).1
  · rw [hrows, List.mem_filter] at hno hk
    have hgone : below (pruneCutoff oldest chunkLedgers) row = true := by
      cases hb : below (pruneCutoff oldest chunkLedgers) row with
      | true => rfl
      | false => exact absurd ⟨hrow, by simp [hb]⟩ hno
    have hstays : below (pruneCutoff oldest chunkLedgers) k = false := by simpa using hk.2
    by_contra hle
    have hlater : k.ledger ≤ row.ledger := Nat.le_of_not_lt hle
    simp only [below] at hgone hstays
    rw [JsNumber.lt_of_ofNat_le hlater hgone] at hstays
    cases hstays

theorem oldestFirst_of_chunks (h : Relation.ReflTransGen (Chunk build chunkLedgers) a b) :
    OldestFirst a b := by
  induction h with
  | refl => exact .refl a
  | tail _ hstep ih => exact ih.trans hstep.oldestFirst

theorem Chunk.length_lt (h : Chunk build chunkLedgers a b) :
    b.eventRows.length < a.eventRows.length := by
  obtain ⟨oldest, -, hsome, hdel⟩ := h
  obtain ⟨row, hrow⟩ := List.exists_mem_of_ne_nil _ hsome
  rw [eventRows_deleteEvents hdel]
  refine List.length_filter_lt_length_iff_exists.mpr ⟨row, (List.mem_filter.mp hrow).1, ?_⟩
  simp [(List.mem_filter.mp hrow).2]

theorem length_le_of_chunks (h : Relation.ReflTransGen (Chunk build chunkLedgers) a b) :
    b.eventRows.length ≤ a.eventRows.length := by
  induction h with
  | refl => exact le_refl _
  | tail _ hstep ih => exact le_trans (Nat.le_of_lt hstep.length_lt) ih

theorem deleteEvents_total {t : EventsTable} (h : prepareWrite build .ftsDelete a = .ok t)
    (p : EventRow → Bool) : ∃ b, deleteEvents build p a = .ok b := by
  cases hd : deleteEvents build p a with
  | ok b => exact ⟨b, rfl⟩
  | error e =>
    exfalso
    unfold deleteEvents fireDelete at hd
    simp only [h, bind, Except.bind] at hd
    split at hd
    · rename_i htrigger
      obtain ⟨hbuild, hfts⟩ := (prepareWrite_ok.mp h).2 htrigger
      obtain ⟨rows, hrows⟩ := Option.isSome_iff_exists.mp hfts
      simp only [Db.fts, hbuild, hrows, if_true] at hd
      cases hd
    · cases hd

theorem prepareWrite_of_deleteEvents {p : EventRow → Bool} (h : deleteEvents build p a = .ok b) :
    ∃ t, prepareWrite build .ftsDelete b = .ok t := by
  obtain ⟨t, ht, hdel⟩ := deleteEvents_ok h
  refine ⟨_, prepareWrite_ok.mpr ⟨hdel.events, ?_⟩⟩
  intro htrigger
  rw [hdel.frame.triggers] at htrigger
  have hfts := hdel.fts
  rw [Db.FtsAfter, if_pos htrigger] at hfts
  obtain ⟨hbuild, rows, -, hrows⟩ := hfts
  exact ⟨hbuild, by simp [hrows]⟩

theorem lt_pruneCutoff (oldest : Nat) (chunkLedgers : JsNumber) :
    JsNumber.lt (.ofNat oldest) (pruneCutoff oldest chunkLedgers) = decide (chunkLedgers ≠ .nan) := by
  cases chunkLedgers with
  | nan => rfl
  | posInf => rfl
  | negInf => simp [pruneCutoff, JsNumber.max, JsNumber.lt, JsNumber.add, JsNumber.ofNat]
  | fin q =>
    have hone : (0 : ℚ) < Max.max 1 q := lt_of_lt_of_le one_pos (le_max_left 1 q)
    have hmax : JsNumber.max (.ofNat 1) (.fin q) = .fin (Max.max 1 q) := by
      simpa [JsNumber.ofNat] using JsNumber.max_fin 1 q
    rw [pruneCutoff, hmax]
    show decide ((oldest : ℚ) < oldest + Max.max 1 q) = decide (JsNumber.fin q ≠ .nan)
    simp [hone]

theorem ne_nan_of_chunk (h : Chunk build chunkLedgers a b) : chunkLedgers ≠ .nan := by
  obtain ⟨oldest, -, hsome, -⟩ := h
  obtain ⟨row, hrow⟩ := List.exists_mem_of_ne_nil _ hsome
  intro hnan
  subst hnan
  have hlt := (List.mem_filter.mp hrow).2
  simp [below, pruneCutoff, JsNumber.max, JsNumber.add, JsNumber.ofNat] at hlt

theorem chunk_of_rows {t : EventsTable} (hwrite : prepareWrite build .ftsDelete a = .ok t)
    (hnan : chunkLedgers ≠ .nan) (hrows : a.eventRows ≠ []) : ∃ b, Chunk build chunkLedgers a b := by
  obtain ⟨oldest, hmin⟩ : ∃ oldest, (a.eventRows.map EventRow.ledger).min? = some oldest := by
    refine Option.isSome_iff_exists.mp ?_
    simpa [Option.isSome_iff_ne_none, List.min?_eq_none_iff] using hrows
  obtain ⟨row, hrow, hledger⟩ := List.mem_map.mp (List.min?_mem hmin)
  have hbelow : below (pruneCutoff oldest chunkLedgers) row = true := by
    rw [below, hledger, lt_pruneCutoff]
    simpa using hnan
  obtain ⟨b, hb⟩ := deleteEvents_total hwrite (below (pruneCutoff oldest chunkLedgers))
  exact ⟨b, oldest, hmin, List.ne_nil_of_mem (List.mem_filter.mpr ⟨hrow, hbelow⟩), hb⟩

theorem eventRows_nil_of_last (h : Chunk build chunkLedgers a b)
    (hend : ∀ x, ¬ Chunk build chunkLedgers b x) : b.eventRows = [] := by
  by_contra hrows
  obtain ⟨oldest, _, _, hdel⟩ := id h
  obtain ⟨t, ht⟩ := prepareWrite_of_deleteEvents hdel
  obtain ⟨x, hx⟩ := chunk_of_rows ht (ne_nan_of_chunk h) hrows
  exact hend x hx

theorem no_chunk_of_nil (h : a.eventRows = []) (x : Db) : ¬ Chunk build chunkLedgers a x := by
  intro hchunk
  obtain ⟨oldest, hmin, -⟩ := hchunk
  rw [h] at hmin
  cases hmin

end Chunks

/-! ### The loop -/

/-- A file that stays too large is pruned until no chunk can go. -/
theorem pruneLoop_end {build : SqliteBuild} {disk : Disk} {targetBytes chunkLedgers : JsNumber}
    (hlarge : ∀ k, JsNumber.le (.ofNat (disk.total k)) targetBytes = false) {turns : Nat}
    {p : PruneTotals} {db db' : Db} {r : Except StoreError PruneTotals}
    (hturns : db.eventRows.length < turns)
    (h : pruneLoop build disk targetBytes chunkLedgers turns p db = (r, db')) :
    Relation.ReflTransGen (Chunk build chunkLedgers) db db' ∧
      ∀ x, ¬ Chunk build chunkLedgers db' x := by
  induction turns generalizing p db with
  | zero => omega
  | succ turns ih =>
    simp only [pruneLoop, hlarge, Bool.false_eq_true, if_false] at h
    split at h
    · rename_i hnone
      obtain ⟨-, rfl⟩ := Prod.mk.inj h
      exact ⟨.refl, no_chunk_of_nil (by simp [Db.eventRows, hnone])⟩
    · rename_i t ht
      rw [← eventRows_some ht] at h
      split at h
      · rename_i hmin
        obtain ⟨-, rfl⟩ := Prod.mk.inj h
        refine ⟨.refl, no_chunk_of_nil ?_⟩
        simpa [List.min?_eq_none_iff] using hmin
      · rename_i oldest hmin
        split at h
        · rename_i hnone
          obtain ⟨-, rfl⟩ := Prod.mk.inj h
          refine ⟨.refl, ?_⟩
          intro x hx
          obtain ⟨oldest', hmin', hsome, -⟩ := hx
          rw [hmin, Option.some.injEq] at hmin'
          subst hmin'
          exact hsome hnone
        · rename_i hsome
          split at h
          · rename_i e mid hdel
            obtain ⟨-, rfl⟩ := Prod.mk.inj h
            rcases transaction_cases hdel with ⟨a, ha, -⟩ | ⟨e', -, hbody, rfl⟩
            · cases ha
            · refine ⟨.refl, ?_⟩
              intro x hx
              obtain ⟨oldest', hmin', -, hx⟩ := hx
              rw [hmin, Option.some.injEq] at hmin'
              subst hmin'
              rw [hx] at hbody
              cases hbody
          · rename_i mid hdel
            rcases transaction_cases hdel with ⟨a, -, hbody⟩ | ⟨e, he, -, -⟩
            · obtain ⟨fin, hfin, heq⟩ := map_eq_ok.mp hbody
              cases heq
              have hchunk : Chunk build chunkLedgers db mid := ⟨oldest, hmin, hsome, hfin⟩
              have hshorter := hchunk.length_lt
              obtain ⟨hrun, hend⟩ := ih (by omega) h
              exact ⟨.head hchunk hrun, hend⟩
            · cases he

/-! ### The last chunk -/

/-- The compacted database would be small enough. -/
def Disk.fits (disk : Disk) (targetBytes : JsNumber) (db : Db) : Bool :=
  JsNumber.le (.ofNat (disk.compacted db)) targetBytes

/-- Deleting shrinks neither the file nor its WAL. -/
def Disk.Grows (disk : Disk) : Prop := ∀ k, disk.total 0 ≤ disk.total k

def LastChunkNeeded (build : SqliteBuild) (disk : Disk) (targetBytes chunkLedgers : JsNumber)
    (db db' : Db) : Prop :=
  ∀ mid, Relation.ReflTransGen (Chunk build chunkLedgers) db mid →
    Chunk build chunkLedgers mid db' → disk.fits targetBytes mid = false

/-- The file is small enough at once, or the last chunk of all does not fit alone. -/
def PrunesJustEnough (build : SqliteBuild) (disk : Disk) (targetBytes chunkLedgers : JsNumber)
    (db : Db) : Prop :=
  JsNumber.le (.ofNat (disk.total 0)) targetBytes = true ∨
    ∀ mid last, Relation.ReflTransGen (Chunk build chunkLedgers) db mid →
      Chunk build chunkLedgers mid last → last.eventRows = [] → disk.fits targetBytes mid = false

theorem large_of_grows {disk : Disk} {targetBytes : JsNumber} (hgrows : disk.Grows)
    (h : JsNumber.le (.ofNat (disk.total 0)) targetBytes = false) (k : Nat) :
    JsNumber.le (.ofNat (disk.total k)) targetBytes = false := by
  by_contra hle
  rw [Bool.not_eq_false] at hle
  have hfirst := JsNumber.le_of_ofNat_le (hgrows k) hle
  rw [h] at hfirst
  cases hfirst

theorem pruneToSize_snd (build : SqliteBuild) (disk : Disk) (targetBytes chunkLedgers : JsNumber)
    (db : Db) : (pruneToSize build (some disk) targetBytes chunkLedgers db).2 =
      (pruneLoop build disk targetBytes chunkLedgers (db.eventRows.length + 1) .start db).2 := by
  have hturns : (db.events.map (fun t => t.rows.length)).getD 0 = db.eventRows.length := by
    unfold Db.eventRows
    cases db.events <;> rfl
  simp only [pruneToSize, hturns]
  split
  · rename_i hloop
    rw [hloop]
  · rename_i hloop
    rw [hloop]

theorem pruneToSize_end (build : SqliteBuild) {disk : Disk} (hgrows : disk.Grows)
    (targetBytes chunkLedgers : JsNumber) (db : Db) :
    Relation.ReflTransGen (Chunk build chunkLedgers) db
        (pruneToSize build (some disk) targetBytes chunkLedgers db).2 ∧
      (JsNumber.le (.ofNat (disk.total 0)) targetBytes = true →
        (pruneToSize build (some disk) targetBytes chunkLedgers db).2 = db) ∧
      (JsNumber.le (.ofNat (disk.total 0)) targetBytes = false →
        ∀ x, ¬ Chunk build chunkLedgers (pruneToSize build (some disk) targetBytes chunkLedgers db).2 x) := by
  rw [pruneToSize_snd]
  cases hfirst : JsNumber.le (.ofNat (disk.total 0)) targetBytes with
  | true =>
    have hsame : (pruneLoop build disk targetBytes chunkLedgers (db.eventRows.length + 1)
        .start db).2 = db := by simp [pruneLoop, PruneTotals.start, hfirst]
    rw [hsame]
    exact ⟨.refl, fun _ => rfl, fun hfalse => by cases hfalse⟩
  | false =>
    obtain ⟨hrun, hend⟩ := pruneLoop_end (large_of_grows hgrows hfirst) (Nat.lt_succ_self _)
      (Prod.mk.eta (p := pruneLoop build disk targetBytes chunkLedgers
        (db.eventRows.length + 1) .start db)).symm
    exact ⟨hrun, fun htrue => (by cases htrue), fun _ => hend⟩

/-- A prune to a size removes whole ledgers, oldest first; the last chunk it removes
had to go exactly when none went or the last of all does not fit alone. -/
theorem prunes_just_enough_iff (build : SqliteBuild) (disk : Option Disk)
    (targetBytes chunkLedgers : JsNumber) (db : Db)
    (hgrows : ∀ d, disk = some d → d.Grows) :
    OldestFirst db (pruneToSize build disk targetBytes chunkLedgers db).2 ∧
      ((∀ d, disk = some d → LastChunkNeeded build d targetBytes chunkLedgers db
          (pruneToSize build disk targetBytes chunkLedgers db).2) ↔
        ∀ d, disk = some d → PrunesJustEnough build d targetBytes chunkLedgers db) := by
  cases disk with
  | none => exact ⟨.refl db, ⟨fun _ _ hd => (by cases hd), fun _ _ hd => (by cases hd)⟩⟩
  | some disk =>
    obtain ⟨hrun, hsmall, hlarge⟩ := pruneToSize_end build (hgrows disk rfl) targetBytes chunkLedgers db
    refine ⟨oldestFirst_of_chunks hrun, ?_⟩
    simp only [Option.some.injEq, forall_eq']
    constructor
    · intro hneeded
      by_cases hfirst : JsNumber.le (.ofNat (disk.total 0)) targetBytes = true
      · exact .inl hfirst
      · refine .inr ?_
        intro mid last hmid hlast hnil
        have hend := hlarge (by simpa using hfirst)
        have hsame := end_unique chunk_rightUnique (hmid.tail hlast) hrun (no_chunk_of_nil hnil) hend
        rw [hsame] at hlast
        exact hneeded mid hmid hlast
    · intro henough mid hmid hlast
      have hshorter := hlast.length_lt
      have hbefore := length_le_of_chunks hmid
      rcases hfirst : JsNumber.le (.ofNat (disk.total 0)) targetBytes with _ | _
      · have hnil := eventRows_nil_of_last hlast (hlarge hfirst)
        rcases henough with htrue | hall
        · rw [hfirst] at htrue
          cases htrue
        · exact hall mid _ hmid hlast hnil
      · rw [hsmall hfirst] at hshorter
        omega

/-! ### A file of two ledgers -/

def twoLedgers : Db :=
  (insertDecoded plainRuntime ⟨true⟩ [plainEvent "a", { plainEvent "b" with ledger := 8 }]
    (migrateSync ⟨true⟩ Db.new).2).2

def tenEach (file : Nat) : Disk := ⟨fun _ => file, fun db => 10 * db.eventRows.length⟩

/-- A target that nothing meets empties the store, and rightly. -/
theorem prune_of_no_room : LastChunkNeeded ⟨true⟩ (tenEach 20) (.ofNat 5) (.ofNat 1) twoLedgers
    (pruneToSize ⟨true⟩ (some (tenEach 20)) (.ofNat 5) (.ofNat 1) twoLedgers).2 := by
  refine (prunes_just_enough_iff ⟨true⟩ (some (tenEach 20)) (.ofNat 5) (.ofNat 1) twoLedgers
    ?_).2.mpr ?_ (tenEach 20) rfl
  · intro d hd k
    cases hd
    exact le_refl _
  · intro d hd
    cases hd
    refine .inr ?_
    intro mid last _ hlast _
    have hrows := lt_of_le_of_lt (Nat.zero_le _) hlast.length_lt
    simp only [Disk.fits, tenEach, JsNumber.ofNat_le_ofNat, decide_eq_false_iff_not]
    omega

/-- The newest ledger would fit, and goes all the same. -/
theorem prune_takes_the_newest : ¬ ∀ (build : SqliteBuild) (disk : Disk)
    (targetBytes chunkLedgers : JsNumber) (db : Db), disk.Grows →
    LastChunkNeeded build disk targetBytes chunkLedgers db
      (pruneToSize build (some disk) targetBytes chunkLedgers db).2 := by
  intro hclaim
  have hgrows : (tenEach 20).Grows := fun _ => le_refl _
  obtain ⟨t, ht⟩ : ∃ t, twoLedgers.events = some t := Option.isSome_iff_exists.mp rfl
  have hwrite : prepareWrite ⟨true⟩ .ftsDelete twoLedgers = .ok t :=
    prepareWrite_ok.mpr ⟨ht, fun _ => ⟨rfl, rfl⟩⟩
  have hnan : JsNumber.ofNat 1 ≠ .nan := by decide
  obtain ⟨mid, hfirst⟩ := chunk_of_rows hwrite hnan (by decide)
  have hone : mid.eventRows.length = 1 := by
    obtain ⟨oldest, hmin, -, hdel⟩ := hfirst
    have hseven : (twoLedgers.eventRows.map EventRow.ledger).min? = some 7 := rfl
    rw [hseven, Option.some.injEq] at hmin
    rw [eventRows_deleteEvents hdel, ← hmin]
    decide +kernel
  obtain ⟨_, _, _, hdel⟩ := id hfirst
  obtain ⟨u, hu⟩ := prepareWrite_of_deleteEvents hdel
  obtain ⟨last, hlast⟩ := chunk_of_rows hu hnan
    (List.ne_nil_of_length_pos (by omega))
  have hnil : last.eventRows = [] := by
    have hshorter := hlast.length_lt
    exact List.length_eq_zero_iff.mp (by omega)
  obtain ⟨hrun, -, hlarge⟩ := pruneToSize_end ⟨true⟩ hgrows (.ofNat 15) (.ofNat 1) twoLedgers
  have hend := end_unique chunk_rightUnique (.tail (.single hfirst) hlast) hrun
    (no_chunk_of_nil hnil) (hlarge (by decide +kernel))
  have hneeded := hclaim ⟨true⟩ (tenEach 20) (.ofNat 15) (.ofNat 1) twoLedgers hgrows mid
    (.single hfirst) (hend ▸ hlast)
  simp [Disk.fits, tenEach, hone] at hneeded

end SorobanLens
