import SorobanLens.Store.Effects

/-!
`pruneToSize`: whole ledgers are deleted in chunks, oldest first, until the file
measures small enough. What the file measures is a parameter.
-/

set_option autoImplicit false

namespace SorobanLens

structure Disk where
  /-- Measured after so many chunks were deleted. -/
  total : Nat → Nat
  /-- Measured after `VACUUM` and a checkpoint that truncates the WAL. -/
  compacted : Db → Nat

structure PruneTotals where
  turns : Nat
  ledgers : Nat
  events : Nat
  highestPrunedLedger : Option Nat

def PruneTotals.start : PruneTotals := ⟨0, 0, 0, none⟩

def PruneTotals.add (p : PruneTotals) (removed : List EventRow) : PruneTotals where
  turns := p.turns + 1
  ledgers := p.ledgers + (removed.map EventRow.ledger).dedup.length
  events := p.events + removed.length
  highestPrunedLedger := (removed.map EventRow.ledger).max?

/-- Where a chunk ends that starts at the oldest ledger. -/
def pruneCutoff (oldest : Nat) (chunkLedgers : JsNumber) : JsNumber :=
  JsNumber.add (.ofNat oldest) (JsNumber.max (.ofNat 1) chunkLedgers)

/-- The loop; a turn removes a row or is the last, so one turn more than there are
rows is enough. -/
def pruneLoop (build : SqliteBuild) (disk : Disk) (targetBytes chunkLedgers : JsNumber) :
    Nat → PruneTotals → Db → Except StoreError PruneTotals × Db
  | 0, p, db => (.ok p, db)
  | turns + 1, p, db =>
    if JsNumber.le (.ofNat (disk.total p.turns)) targetBytes then (.ok p, db)
    else
      match db.events with
      | none => (.error (.noSuchTable "events"), db)
      | some t =>
        match (t.rows.map EventRow.ledger).min? with
        | none => (.ok p, db)
        | some oldest =>
          let cutoff := pruneCutoff oldest chunkLedgers
          let removed := t.rows.filter (below cutoff)
          if removed = [] then (.ok p, db)
          else
            match transaction db ((deleteEvents build (below cutoff) db).map (fun db => ((), db))) with
            | (.error e, db) => (.error e, db)
            | (.ok (), db) => pruneLoop build disk targetBytes chunkLedgers turns (p.add removed) db

/-- `disk` is `none` for a database in memory. -/
def pruneToSize (build : SqliteBuild) (disk : Option Disk) (targetBytes chunkLedgers : JsNumber)
    (db : Db) : Except StoreError PruneToSizeResult × Db :=
  match disk with
  | none => (.ok ⟨0, 0, none, 0, true⟩, db)
  | some disk =>
    let turns := (db.events.map (fun t => t.rows.length)).getD 0 + 1
    match pruneLoop build disk targetBytes chunkLedgers turns .start db with
    | (.error e, db) => (.error e, db)
    | (.ok p, db) =>
      let after := if 0 < p.events then disk.compacted db else disk.total p.turns
      (.ok
        { rowsRemoved := p.events
          ledgersRemoved := p.ledgers
          highestPrunedLedger := p.highestPrunedLedger
          sizeBytesAfter := after
          withinTarget := JsNumber.le (.ofNat after) targetBytes }, db)

/-- What one deletion respects, a prune to size respects. -/
theorem pruneLoop_induct {build : SqliteBuild} {disk : Disk} {targetBytes chunkLedgers : JsNumber}
    {P : Db → Prop}
    (step : ∀ p db db', P db → deleteEvents build p db = .ok db' → P db')
    {turns : Nat} {p : PruneTotals} {db db' : Db} {r : Except StoreError PruneTotals} (hp : P db)
    (h : pruneLoop build disk targetBytes chunkLedgers turns p db = (r, db')) : P db' := by
  induction turns generalizing p db with
  | zero =>
    obtain ⟨-, rfl⟩ := Prod.mk.inj h
    exact hp
  | succ turns ih =>
    simp only [pruneLoop] at h
    split at h
    · obtain ⟨-, rfl⟩ := Prod.mk.inj h
      exact hp
    · split at h
      · obtain ⟨-, rfl⟩ := Prod.mk.inj h
        exact hp
      · split at h
        · obtain ⟨-, rfl⟩ := Prod.mk.inj h
          exact hp
        · split at h
          · obtain ⟨-, rfl⟩ := Prod.mk.inj h
            exact hp
          · split at h
            · rename_i hdel
              obtain ⟨-, rfl⟩ := Prod.mk.inj h
              rcases transaction_cases hdel with ⟨a, ha, -⟩ | ⟨e, -, -, rfl⟩
              · cases ha
              · exact hp
            · rename_i mid hdel
              rcases transaction_cases hdel with ⟨a, -, hb⟩ | ⟨e, he, -, -⟩
              · obtain ⟨fin, hfin, heq⟩ := map_eq_ok.mp hb
                cases heq
                exact ih (step _ _ _ hp hfin) h
              · cases he

theorem pruneToSize_induct {build : SqliteBuild} {disk : Option Disk}
    {targetBytes chunkLedgers : JsNumber} {P : Db → Prop}
    (step : ∀ p db db', P db → deleteEvents build p db = .ok db' → P db') {db db' : Db}
    {r : Except StoreError PruneToSizeResult} (hp : P db)
    (h : pruneToSize build disk targetBytes chunkLedgers db = (r, db')) : P db' := by
  unfold pruneToSize at h
  split at h
  · obtain ⟨-, rfl⟩ := Prod.mk.inj h
    exact hp
  · simp only at h
    split at h
    all_goals
      rename_i hloop
      obtain ⟨-, rfl⟩ := Prod.mk.inj h
      exact pruneLoop_induct step hp hloop

end SorobanLens
