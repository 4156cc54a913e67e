import SorobanLens.Store.Aggregates
import SorobanLens.Lib.Ledger
import Mathlib.Data.Finset.Card

/-!
What the stores say they inserted and removed, and how many rows there are after a
history of it. A prune to a size on the server, beside the one on a file.
-/

set_option autoImplicit false

namespace SorobanLens

open Ledger GroupBy

/-- What is left of the rows, and what the loop counted, after some chunks. -/
inductive Chunks (chunkLedgers : JsNumber) (rows : List EventRow) :
    PruneTotals → List EventRow → Prop where
  | start : Chunks chunkLedgers rows .start rows
  | next {p : PruneTotals} {mid : List EventRow} {oldest : Nat} (run : Chunks chunkLedgers rows p mid)
      (hmin : (mid.map EventRow.ledger).min? = some oldest)
      (hsome : mid.filter (below (pruneCutoff oldest chunkLedgers)) ≠ []) :
      Chunks chunkLedgers rows (p.add (mid.filter (below (pruneCutoff oldest chunkLedgers))))
        (mid.filter (fun row => !below (pruneCutoff oldest chunkLedgers) row))

structure PruneAccount (before after : List EventRow) (events ledgers : Nat)
    (highestPrunedLedger : Option Nat) : Prop where
  rows : events + after.length = before.length
  ledgers : ledgers + (keys EventRow.ledger after).length = (keys EventRow.ledger before).length
  none : highestPrunedLedger = none → after = before
  upTo : ∀ top, highestPrunedLedger = some top → (∃ row ∈ before, row.ledger = top) ∧
    after = before.filter (fun row => top < row.ledger)

theorem length_ledgers_split (rows : List EventRow) (cutoff : JsNumber) :
    (keys EventRow.ledger (rows.filter (below cutoff))).length +
        (keys EventRow.ledger (rows.filter (fun row => !below cutoff row))).length =
      (keys EventRow.ledger rows).length := by
  have hbelow : (rows.filter (below cutoff)).map EventRow.ledger =
      (rows.map EventRow.ledger).filter (fun n => JsNumber.lt (.ofNat n) cutoff) := by
    rw [List.filter_map]
    rfl
  have habove : (rows.filter (fun row => !below cutoff row)).map EventRow.ledger =
      (rows.map EventRow.ledger).filter (fun n => !JsNumber.lt (.ofNat n) cutoff) := by
    rw [List.filter_map]
    rfl
  have hsplit := Finset.card_filter_add_card_filter_not
    (s := (rows.map EventRow.ledger).toFinset) (fun n => JsNumber.lt (.ofNat n) cutoff = true)
  simp only [keys, hbelow, habove, ← List.card_toFinset, List.toFinset_filter]
  simpa using hsplit

section Chunks

variable {chunkLedgers : JsNumber} {before after : List EventRow} {p : PruneTotals}

theorem filter_above {rows : List EventRow} {cutoff : JsNumber} {top : Nat}
    (htop : ((rows.filter (below cutoff)).map EventRow.ledger).max? = some top) :
    rows.filter (fun row => !below cutoff row) = rows.filter (fun row => top < row.ledger) := by
  obtain ⟨hmem, hle⟩ := List.max?_eq_some_iff.mp htop
  obtain ⟨last, hlast, hledger⟩ := List.mem_map.mp hmem
  have hgone := (List.mem_filter.mp hlast).2
  refine List.filter_congr ?_
  intro row hrow
  cases hb : below cutoff row with
  | true =>
    have hno := hle row.ledger (List.mem_map_of_mem (List.mem_filter.mpr ⟨hrow, hb⟩))
    simpa using hno
  | false =>
    have habove : top < row.ledger := by
      by_contra hno
      have hbelow := JsNumber.lt_of_ofNat_le (Nat.le_of_not_lt (hledger ▸ hno)) hgone
      rw [below, hbelow] at hb
      cases hb
    simpa using habove

theorem account_of_chunks (h : Chunks chunkLedgers before p after) :
    PruneAccount before after p.events p.ledgers p.highestPrunedLedger := by
  induction h with
  | start =>
    refine ⟨Nat.zero_add _, Nat.zero_add _, fun _ => rfl, ?_⟩
    intro top htop
    cases htop
  | @next p mid oldest _ _ hsome ih =>
    have hlength := List.length_eq_length_filter_add (l := mid) (below (pruneCutoff oldest chunkLedgers))
    have hledgers := length_ledgers_split mid (pruneCutoff oldest chunkLedgers)
    have hrows := ih.rows
    have hkeys := ih.ledgers
    refine ⟨?_, ?_, ?_, ?_⟩
    · simp only [PruneTotals.add]
      omega
    · simp only [PruneTotals.add]
      rw [← hkeys, ← hledgers, keys, keys]
      omega
    · intro hnone
      simp [PruneTotals.add, List.max?_eq_none_iff, hsome] at hnone
    · intro top htop
      have hleft := filter_above htop
      obtain ⟨hmem, -⟩ := List.max?_eq_some_iff.mp htop
      obtain ⟨last, hlast, hledger⟩ := List.mem_map.mp hmem
      have hmid := (List.mem_filter.mp hlast).1
      cases hhigh : p.highestPrunedLedger with
      | none =>
        rw [ih.none hhigh] at hleft hmid
        exact ⟨⟨last, hmid, hledger⟩, ih.none hhigh ▸ hleft⟩
      | some high =>
        obtain ⟨-, hbefore⟩ := ih.upTo high hhigh
        rw [hbefore, List.mem_filter] at hmid
        refine ⟨⟨last, hmid.1, hledger⟩, ?_⟩
        rw [hleft, hbefore, List.filter_filter]
        refine List.filter_congr ?_
        intro row _
        have hhigher : high < top := by simpa [hledger] using hmid.2
        by_cases hrow : top < row.ledger
        · simp [hrow, hhigher.trans hrow]
        · simp [hrow]

end Chunks

section Sqlite

variable {rt : Runtime} {build : SqliteBuild} {db db' : Db}

theorem chunks_pruneLoop {disk : Disk} {targetBytes chunkLedgers : JsNumber} {before : List EventRow}
    {turns : Nat} {p q : PruneTotals} (hp : Chunks chunkLedgers before p (tableRows db.events))
    (h : pruneLoop build disk targetBytes chunkLedgers turns p db = (.ok q, db')) :
    Chunks chunkLedgers before q (tableRows db'.events) := by
  induction turns generalizing p db with
  | zero =>
    cases h
    exact hp
  | succ turns ih =>
    simp only [pruneLoop] at h
    split at h
    · cases h
      exact hp
    · split at h
      · cases h
      · rename_i t ht
        have hrows : tableRows db.events = t.rows := by rw [ht]; rfl
        rw [hrows] at hp
        split at h
        · cases h
          rwa [hrows]
        · rename_i oldest hmin
          split at h
          · cases h
            rwa [hrows]
          · rename_i hsome
            split at h
            · cases h
            · rename_i mid hdel
              rcases transaction_cases hdel with ⟨a, -, hb⟩ | ⟨err, herr, -, -⟩
              · obtain ⟨fin, hdel, heq⟩ := map_eq_ok.mp hb
                cases heq
                obtain ⟨u, hu, hdeleted⟩ := deleteEvents_ok hdel
                rw [ht] at hu
                cases hu
                refine ih ?_ h
                rw [hdeleted.events]
                exact .next hp hmin hsome
              · cases herr

theorem account_pruneToSize {disk : Option Disk} {targetBytes chunkLedgers : JsNumber}
    {r : PruneToSizeResult}
    (h : pruneToSize build disk targetBytes chunkLedgers db = (.ok r, db')) :
    PruneAccount (tableRows db.events) (tableRows db'.events) r.rowsRemoved r.ledgersRemoved
      r.highestPrunedLedger := by
  unfold pruneToSize at h
  split at h
  · cases h
    have hstart : Chunks chunkLedgers (tableRows db.events) .start (tableRows db.events) := .start
    exact account_of_chunks hstart
  · simp only at h
    split at h
    · cases h
    · rename_i p fin hloop
      cases h
      exact account_of_chunks (chunks_pruneLoop .start hloop)

end Sqlite

namespace Postgres

/-! ### The server -/

/-- The loop of a prune to a size, `size` being what each reading of the database's size
gave. A turn removes a row or is the last, as on a file. -/
def pruneLoop (size : Nat → Nat) (targetBytes chunkLedgers : JsNumber) :
    Nat → PruneTotals → PgDb → Except StoreError PruneTotals × PgDb
  | 0, p, db => (.ok p, db)
  | turns + 1, p, db =>
    if JsNumber.le (.ofNat (size p.turns)) targetBytes then (.ok p, db)
    else
      match (db.events.rows.map EventRow.ledger).min? with
      | none => (.ok p, db)
      | some oldest =>
        let cutoff := pruneCutoff oldest chunkLedgers
        if integerParam cutoff = false then (.error badParameter, db)
        else
          let removed := db.events.rows.filter (below cutoff)
          if removed = [] then (.ok p, db)
          else pruneLoop size targetBytes chunkLedgers turns (p.add removed)
            (db.deleteEvents (below cutoff))

def pruneToSize (size : Nat → Nat) (targetBytes : Option JsNumber) (chunkLedgers : JsNumber)
    (db : PgDb) : Except StoreError PruneToSizeResult × PgDb :=
  match targetBytes with
  | none => (.ok ⟨0, 0, none, size 0, true⟩, db)
  | some targetBytes =>
    match pruneLoop size targetBytes chunkLedgers (db.events.rows.length + 1) .start db with
    | (.error e, db) => (.error e, db)
    | (.ok p, db) =>
      let after := size (p.turns + 1)
      (.ok
        { rowsRemoved := p.events
          ledgersRemoved := p.ledgers
          highestPrunedLedger := p.highestPrunedLedger
          sizeBytesAfter := after
          withinTarget := JsNumber.le (.ofNat after) targetBytes }, db)

section Counts

variable {server : PgServer} {rt : Runtime} {db db' : PgDb}

theorem chunks_pruneLoop {size : Nat → Nat} {targetBytes chunkLedgers : JsNumber}
    {before : List EventRow} {turns : Nat} {p q : PruneTotals}
    (hp : Chunks chunkLedgers before p db.events.rows)
    (h : pruneLoop size targetBytes chunkLedgers turns p db = (.ok q, db')) :
    Chunks chunkLedgers before q db'.events.rows := by
  induction turns generalizing p db with
  | zero =>
    cases h
    exact hp
  | succ turns ih =>
    simp only [pruneLoop] at h
    split at h
    · cases h
      exact hp
    · split at h
      · cases h
        exact hp
      · rename_i oldest hmin
        split at h
        · cases h
        · split at h
          · cases h
            exact hp
          · rename_i hsome
            exact ih (.next hp hmin hsome) h

theorem account_pruneToSize {size : Nat → Nat} {targetBytes : Option JsNumber}
    {chunkLedgers : JsNumber} {r : PruneToSizeResult}
    (h : pruneToSize size targetBytes chunkLedgers db = (.ok r, db')) :
    PruneAccount db.events.rows db'.events.rows r.rowsRemoved r.ledgersRemoved
      r.highestPrunedLedger := by
  unfold pruneToSize at h
  split at h
  · cases h
    have hstart : Chunks chunkLedgers db.events.rows .start db.events.rows := .start
    exact account_of_chunks hstart
  · split at h
    · cases h
    · rename_i p fin hloop
      cases h
      exact account_of_chunks (chunks_pruneLoop .start hloop)

end Counts

end Postgres

/-! ### Inserting and importing, into either store -/

namespace Backend

def tables (s : Backend) (db : Postgres.PgDb) : Postgres.PgDb :=
  match s with
  | .sqlite _ => db
  | .postgres db' => db'

end Backend

/-! ### The books -/

def StoreOp.result (host : Host) (db : Db) : StoreOp → Except StoreError Entry
  | .migrate => (SorobanLens.migrateSync host.build db).1.map (fun _ => .zero)
  | .migrateDown toVersion =>
    (SorobanLens.migrateDown host.build toVersion db).1.map (fun _ => .zero)
  | .insertEvents now events => (SorobanLens.insertEvents host.rt host.build now events db).1.map .into
  | .insertDecoded events => (SorobanLens.insertDecoded host.rt host.build events db).1.map .into
  | .importSnapshot file => (Backend.importSnapshot host file (.sqlite db)).1.map .into
  | .saveStreamState state => (SorobanLens.saveStreamState state db).1.map (fun _ => .zero)
  | .saveContractSpec record => (SorobanLens.saveContractSpec record db).1.map (fun _ => .zero)
  | .pruneBefore ledger => (SorobanLens.pruneBefore host.build ledger db).1.map .out
  | .pruneToSize disk targetBytes chunkLedgers =>
    (SorobanLens.pruneToSize host.build disk targetBytes chunkLedgers db).1.map
      (fun r => .out r.rowsRemoved)
  | .redecode all => (SorobanLens.redecode host.rt host.build all db).1.map (fun _ => .zero)
  | .repairRow id => (SorobanLens.repairRow host.rt host.build id db).1.map (fun _ => .zero)
  | .rebuildSearchIndex => (SorobanLens.rebuildSearchIndex host.build db).1.map (fun _ => .zero)

/-- A downgrade drops tables and counts none of their rows. -/
def StoreOp.counted : StoreOp → Prop
  | .migrateDown _ => False
  | _ => True

/-- An import and a prune to a size commit batch by batch. -/
def StoreOp.atomic : StoreOp → Prop
  | .migrateDown _ | .importSnapshot _ | .pruneToSize _ _ _ => False
  | _ => True

namespace Postgres

inductive StoreOp where
  | insertEvents (now : Nat → String) (events : List RawEvent)
  | insertDecoded (events : List LensEvent)
  | importSnapshot (file : List Char)
  | pruneBefore (ledger : JsNumber)
  | pruneToSize (size : Nat → Nat) (targetBytes : Option JsNumber) (chunkLedgers : JsNumber)
  | redecode (all : Bool)
  | repairRow (id : String)

def StoreOp.exec (host : Host) (db : PgDb) : StoreOp → PgDb
  | .insertEvents now events => (Postgres.insertEvents host.server host.rt now events db).2
  | .insertDecoded events => (Postgres.insertDecoded host.server host.rt events db).2
  | .importSnapshot file => (Backend.importSnapshot host file (.postgres db)).2.tables db
  | .pruneBefore ledger => (Postgres.pruneBefore ledger db).2
  | .pruneToSize size targetBytes chunkLedgers =>
    (Postgres.pruneToSize size targetBytes chunkLedgers db).2
  | .redecode all => (Postgres.redecode host.server host.rt all db).2
  | .repairRow id => (Postgres.repairRow host.server host.rt id db).2

def StoreOp.result (host : Host) (db : PgDb) : StoreOp → Except StoreError Entry
  | .insertEvents now events => (Postgres.insertEvents host.server host.rt now events db).1.map .into
  | .insertDecoded events => (Postgres.insertDecoded host.server host.rt events db).1.map .into
  | .importSnapshot file => (Backend.importSnapshot host file (.postgres db)).1.map .into
  | .pruneBefore ledger => (Postgres.pruneBefore ledger db).1.map .out
  | .pruneToSize size targetBytes chunkLedgers =>
    (Postgres.pruneToSize size targetBytes chunkLedgers db).1.map (fun r => .out r.rowsRemoved)
  | .redecode all => (Postgres.redecode host.server host.rt all db).1.map (fun _ => .zero)
  | .repairRow id => (Postgres.repairRow host.server host.rt id db).1.map (fun _ => .zero)

def StoreOp.atomic : StoreOp → Prop
  | .importSnapshot _ | .pruneToSize _ _ _ => False
  | _ => True

end Postgres

namespace Postgres

end Postgres

section Prunes

variable {rt : Runtime} {db : Db} {pg : Postgres.PgDb} {disk : Disk} {size : Nat → Nat}
  {targetBytes chunkLedgers : JsNumber}

theorem ledgers_of_twins {rows rows' : List EventRow} (h : List.Forall₂ (EventRow.Twin rt) rows rows') :
    rows'.map EventRow.ledger = rows.map EventRow.ledger := by
  induction h with
  | nil => rfl
  | cons hrow _ ih => rw [List.map_cons, List.map_cons, hrow.ledger, ih]

def SuitsSizePrune (chunkLedgers : JsNumber) (pg : Postgres.PgDb) : Prop :=
  ∀ row ∈ pg.events.rows, Postgres.integerParam (pruneCutoff row.ledger chunkLedgers) = true

theorem SuitsSizePrune.deleteEvents (h : SuitsSizePrune chunkLedgers pg) (p : EventRow → Bool) :
    SuitsSizePrune chunkLedgers (pg.deleteEvents p) :=
  fun row hrow => h row (List.mem_of_mem_filter hrow)

theorem Agree.chunk (h : Agree rt db pg) {t : EventsTable} (ht : db.events = some t)
    {cutoff : JsNumber} (hparam : Postgres.integerParam cutoff = true)
    (hsome : t.rows.filter (below cutoff) ≠ []) :
    ∃ db', deleteEvents ⟨true⟩ (below cutoff) db = .ok db' ∧
      Agree rt db' (pg.deleteEvents (below cutoff)) := by
  obtain ⟨u, hwrite⟩ := h.ready.prepareWrite .ftsDelete
  obtain ⟨db', hdel⟩ := deleteEvents_total hwrite (below cutoff)
  have hsuits : SuitsPrune cutoff pg := .inl hparam
  have hafter := h.pruneBefore hsuits
  have hsqlite : (SorobanLens.pruneBefore ⟨true⟩ cutoff db).2 = db' := by
    simp [SorobanLens.pruneBefore, ht, hsome, hdel, Except.map, transaction]
  have hpostgres : (Postgres.pruneBefore cutoff pg).2 = pg.deleteEvents (below cutoff) := by
    simp [Postgres.pruneBefore, hparam]
  rw [hsqlite, hpostgres] at hafter
  exact ⟨db', hdel, hafter⟩

theorem Agree.pruneLoop (h : Agree rt db pg) (hsize : ∀ k, size k = disk.total k)
    (hsuits : SuitsSizePrune chunkLedgers pg) (targetBytes : JsNumber) (turns : Nat)
    (p : PruneTotals) :
    ∃ q db' pg', SorobanLens.pruneLoop ⟨true⟩ disk targetBytes chunkLedgers turns p db = (.ok q, db') ∧
      Postgres.pruneLoop size targetBytes chunkLedgers turns p pg = (.ok q, pg') ∧
      Agree rt db' pg' := by
  induction turns generalizing p db pg with
  | zero => exact ⟨p, db, pg, rfl, rfl, h⟩
  | succ turns ih =>
    obtain ⟨t, ht, htwins⟩ := h.events
    simp only [SorobanLens.pruneLoop, Postgres.pruneLoop, hsize, ht]
    split
    · exact ⟨p, db, pg, rfl, rfl, h⟩
    · rw [ledgers_of_twins htwins]
      cases hmin : (t.rows.map EventRow.ledger).min? with
      | none => exact ⟨p, db, pg, rfl, rfl, h⟩
      | some oldest =>
        have hselected : List.Forall₂ (EventRow.Twin rt)
            (t.rows.filter (below (pruneCutoff oldest chunkLedgers)))
            (pg.events.rows.filter (below (pruneCutoff oldest chunkLedgers))) :=
          forall₂_filter htwins (fun row _ row' _ hrow => below_twin hrow _)
        have hparam : Postgres.integerParam (pruneCutoff oldest chunkLedgers) = true := by
          have hmem := List.min?_mem hmin
          rw [← ledgers_of_twins htwins] at hmem
          obtain ⟨row, hrow, rfl⟩ := List.mem_map.mp hmem
          exact hsuits row hrow
        simp only [hparam, Bool.true_eq_false, if_false]
        by_cases hsome : t.rows.filter (below (pruneCutoff oldest chunkLedgers)) = []
        · have hsome' : pg.events.rows.filter (below (pruneCutoff oldest chunkLedgers)) = [] := by
            rw [hsome] at hselected
            exact List.forall₂_nil_left_iff.mp hselected
          rw [if_pos hsome, if_pos hsome']
          exact ⟨p, db, pg, rfl, rfl, h⟩
        · have hsome' : pg.events.rows.filter (below (pruneCutoff oldest chunkLedgers)) ≠ [] := by
            intro hnil
            rw [hnil] at hselected
            exact hsome (List.forall₂_nil_right_iff.mp hselected)
          obtain ⟨mid, hdel, hafter⟩ := h.chunk ht hparam hsome
          have hadd : p.add (pg.events.rows.filter (below (pruneCutoff oldest chunkLedgers))) =
              p.add (t.rows.filter (below (pruneCutoff oldest chunkLedgers))) := by
            simp only [PruneTotals.add, ledgers_of_twins hselected, hselected.length_eq]
          rw [if_neg hsome, if_neg hsome', hdel, hadd]
          exact ih hafter (hsuits.deleteEvents _) _

end Prunes

/-- What either store says it pruned is what is gone: whole ledgers, the oldest. -/
theorem size_prunes_account :
    (∀ {build : SqliteBuild} {disk : Option Disk} {targetBytes chunkLedgers : JsNumber} {db db' : Db}
      {r : PruneToSizeResult},
      pruneToSize build disk targetBytes chunkLedgers db = (.ok r, db') →
        PruneAccount (tableRows db.events) (tableRows db'.events) r.rowsRemoved r.ledgersRemoved
          r.highestPrunedLedger) ∧
    ∀ {size : Nat → Nat} {targetBytes : Option JsNumber} {chunkLedgers : JsNumber}
      {pg pg' : Postgres.PgDb} {r : PruneToSizeResult},
      Postgres.pruneToSize size targetBytes chunkLedgers pg = (.ok r, pg') →
        PruneAccount pg.events.rows pg'.events.rows r.rowsRemoved r.ledgersRemoved
          r.highestPrunedLedger :=
  ⟨account_pruneToSize, Postgres.account_pruneToSize⟩

end SorobanLens
