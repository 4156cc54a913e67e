import SorobanLens.Ingest.Archive
import SorobanLens.Cli.Indexer
import SorobanLens.Store.Stability

/-!
`runIndexer`'s archive backfill: one request for what lies before the node's
retention window, and which of the archive's events it brings in.
-/

set_option autoImplicit false

namespace SorobanLens

inductive BackfillError where
  | archive (message : String)
  | store (error : StoreError)

def archiveEnd (startLedger : Nat) (window : RetentionState) : Nat :=
  min (if startLedger < window.oldestLedger then window.oldestLedger - 1 else 0) window.latestLedger

def backfill (cfg : IndexerConfig) (archive : Option StellarArchiveSource) (window : RetentionState)
    (now : Nat → String) (db : Db) : Except BackfillError Unit × Db :=
  match archive, cfg.startLedger with
  | some archive, some start =>
    if start ≤ archiveEnd start window then
      match archive.getEvents
        { startLedger := start
          endLedger := some (archiveEnd start window)
          filters := buildFilters cfg.contractIds none none
          limit := 10000 } with
      | .error message => (.error (.archive message), db)
      | .ok archived =>
        match insertEvents cfg.rt cfg.build now archived.events db with
        | (.error err, db) => (.error (.store err), db)
        | (.ok _, db) => (.ok (), db)
    else (.ok (), db)
  | _, _ => (.ok (), db)

/-! ### A backfill from an archive of 64 ledgers a file -/

/-- An indexer that starts below the node's window, on an open database, with an
archive whose files hold the events of their ledgers. -/
structure Backfill where
  config : IndexerConfig
  start : Nat
  archive : StellarArchiveSource
  /-- The events of ledgers `64 k` to `64 k + 63`. -/
  files : Nat → List RawEvent
  window : RetentionState
  now : Nat → String
  db : Db
  starts : config.startLedger = some start
  below : start < window.oldestLedger
  size : archive.checkpointSize = 64
  read : ∀ k, archive.readCheckpoint (64 * k + 63) = .ok (files k)
  holds : ∀ k, ∀ e ∈ files k, e.ledger / 64 = k
  ready : db.Ready config.build

namespace Backfill

variable (b : Backfill)

def last : Nat := archiveEnd b.start b.window

def run : Except BackfillError Unit × Db :=
  backfill b.config (some b.archive) b.window b.now b.db

/-- The archive's events that the store should have afterwards. -/
def Owed (e : RawEvent) : Prop :=
  (∃ k, e ∈ b.files k) ∧ b.start ≤ e.ledger ∧ e.ledger < b.window.oldestLedger ∧
    watches b.config.contractIds e = true

/-- How many files, from the one `start` falls in, end before the window. -/
def wholeFiles : Nat := (b.last + 1) / 64 - b.start / 64

/-- The watched events of those files from `start` on, in the order of the files. -/
def reachable : List RawEvent :=
  ((List.range b.wholeFiles).flatMap (fun i => b.files (b.start / 64 + i))).filter
    (fun e => decide (b.start ≤ e.ledger) && watches b.config.contractIds e)

def Complete : Prop := ∃ db, b.run = (.ok (), db) ∧ ∀ e, b.Owed e → db.hasEvent e.id

theorem first_checkpoint : checkpointEnd b.start b.archive.checkpointSize = 64 * (b.start / 64) + 63 := by
  rw [checkpointEnd, b.size]
  omega

theorem ledgers_eq : checkpointLedgers (64 * (b.start / 64) + 63) b.last 64 =
    (List.range b.wholeFiles).map (fun i => 64 * (b.start / 64 + i) + 63) := by
  have hcount : (b.last + 64 - (64 * (b.start / 64) + 63)) / 64 = b.wholeFiles := by
    rw [wholeFiles]
    omega
  rw [checkpointLedgers, hcount]
  refine List.map_congr_left ?_
  intro i _
  omega

theorem within_whole {i : Nat} (hi : i < b.wholeFiles) {e : RawEvent}
    (he : e ∈ b.files (b.start / 64 + i)) : e.ledger ≤ b.last := by
  have hk := b.holds _ e he
  rw [wholeFiles] at hi
  omega

theorem collected : b.archive.collect
    (fun e => !(decide (e.ledger < b.start) || decide (b.last < e.ledger)) &&
      matchesAny e (buildFilters b.config.contractIds none none)) 10000
    (checkpointLedgers (checkpointEnd b.start b.archive.checkpointSize) b.last
      b.archive.checkpointSize) [] = .ok (b.reachable.take 10000) := by
  have hfiles : ∀ l ∈ (List.range b.wholeFiles).map (fun i => 64 * (b.start / 64 + i) + 63),
      b.archive.readCheckpoint l = .ok (b.files (l / 64)) := by
    intro l hl
    obtain ⟨i, -, rfl⟩ := List.mem_map.mp hl
    rw [b.read, show (64 * (b.start / 64 + i) + 63) / 64 = b.start / 64 + i by omega]
  rw [b.first_checkpoint, b.size, b.ledgers_eq,
    b.archive.collect_eq _ (fun l => b.files (l / 64)) _ [] (by simp) hfiles]
  congr 2
  have hflat : ((List.range b.wholeFiles).map (fun i => 64 * (b.start / 64 + i) + 63)).flatMap
      (fun l => b.files (l / 64)) =
        (List.range b.wholeFiles).flatMap (fun i => b.files (b.start / 64 + i)) := by
    rw [List.flatMap_map]
    refine List.flatMap_congr ?_
    intro i _
    rw [show (64 * (b.start / 64 + i) + 63) / 64 = b.start / 64 + i by omega]
  rw [List.nil_append, hflat, reachable]
  refine List.filter_congr ?_
  intro e he
  obtain ⟨i, hi, hin⟩ := List.mem_flatMap.mp he
  have hle := b.within_whole (List.mem_range.mp hi) hin
  rw [matchesAny_buildFilters]
  have hnot : decide (b.last < e.ledger) = false := by
    simp only [decide_eq_false_iff_not]
    omega
  rw [hnot, Bool.or_false]
  by_cases hstart : b.start ≤ e.ledger
  · have hlt : ¬ e.ledger < b.start := by omega
    simp [hstart, hlt]
  · have hlt : e.ledger < b.start := by omega
    simp [hstart, hlt]

theorem answered : ∃ archived, b.archive.getEvents
      { startLedger := b.start
        endLedger := some b.last
        filters := buildFilters b.config.contractIds none none
        limit := 10000 } = .ok archived ∧
    archived.events = (b.reachable.take 10000).mergeSort
      (fun x y => decide (b.archive.localeCompare x.id y.id ≤ 0)) := by
  simp only [StellarArchiveSource.getEvents, Option.getD_some, b.collected]
  exact ⟨_, rfl, rfl⟩

/-- What the backfill leaves: the database as it was, with the first ten thousand
reachable events. -/
theorem run_spec : ∃ db, b.run = (.ok (), db) ∧
    ∀ id, db.hasEvent id ↔ b.db.hasEvent id ∨ id ∈ (b.reachable.take 10000).map RawEvent.id := by
  have hlast : archiveEnd b.start b.window = b.last := rfl
  simp only [run, backfill, b.starts, hlast]
  split
  · rename_i hle
    obtain ⟨archived, hget, hevents⟩ := b.answered
    obtain ⟨n, db, hins, -⟩ := b.ready.insertEvents b.config.rt b.now archived.events
    simp only [hget, hins]
    refine ⟨db, rfl, ?_⟩
    intro id
    rw [hasEvent_insertEvents hins]
    refine or_congr_right ?_
    simp only [hevents, List.mem_mergeSort, List.mem_map]
    constructor
    · intro h
      obtain ⟨e, he, -, hid⟩ := h
      exact ⟨e, he, hid⟩
    · intro h
      obtain ⟨e, he, hid⟩ := h
      refine ⟨e, he, ?_, hid⟩
      have hw := (List.mem_filter.mp (List.mem_of_mem_take he)).2
      simp only [watches, Bool.and_eq_true, beq_iff_eq] at hw
      rw [hw.2.1]
      rfl
  · rename_i hgt
    refine ⟨b.db, rfl, ?_⟩
    intro id
    have hnone : b.wholeFiles = 0 := by
      rw [wholeFiles]
      omega
    simp [reachable, hnone]

/-- The backfill is complete exactly when every event owed and not stored yet is among
the first ten thousand of the whole files. -/
theorem backfill_complete_iff : b.Complete ↔
    ∀ e, b.Owed e → b.db.hasEvent e.id ∨ e.id ∈ (b.reachable.take 10000).map RawEvent.id := by
  obtain ⟨db, hrun, hhas⟩ := b.run_spec
  constructor
  · intro h e he
    obtain ⟨db', hrun', hall⟩ := h
    rw [hrun, Prod.mk.injEq] at hrun'
    obtain ⟨-, rfl⟩ := hrun'
    exact (hhas e.id).mp (hall e he)
  · intro h
    exact ⟨db, hrun, fun e he => (hhas e.id).mpr (h e he)⟩

def ledger70 : RawEvent where
  id := "e"
  type := .contract
  ledger := 70
  ledgerClosedAt := ""
  contractId := "C"
  topic := []
  value := ""
  txHash := ""
  transactionIndex := 0
  operationIndex := 0
  inSuccessfulContractCall := true

def midCheckpoint : Backfill where
  config := ⟨plainRuntime, ⟨true⟩, [], some 1, .ofNat 200, "k", none, true⟩
  start := 1
  archive :=
    { readCheckpoint := fun l => .ok (if l = 127 then [ledger70] else [])
      localeCompare := fun _ _ => 0 }
  files := fun k => if k = 1 then [ledger70] else []
  window := ⟨200, 100⟩
  now := fun _ => ""
  db := plainDb []
  starts := rfl
  below := by decide
  size := rfl
  read := by
    intro k
    by_cases hk : k = 1
    · simp [hk]
    · have hne : ¬ 64 * k + 63 = 127 := by omega
      simp [hk, hne]
  holds := by
    intro k e he
    by_cases hk : k = 1
    · rw [if_pos hk, List.mem_singleton] at he
      rw [he, hk]
      rfl
    · simp [hk] at he
  ready := ⟨rfl, rfl, rfl, fun _ => ⟨rfl, rfl⟩⟩

/-- Ledgers 64 to 99 are in a file that ends at 127, past the last ledger asked for. -/
theorem left_out_mid_checkpoint : ¬ ∀ b : Backfill, b.Complete := by
  intro hclaim
  obtain ⟨db, hrun, hall⟩ := hclaim midCheckpoint
  obtain ⟨db', hrun', hhas⟩ := midCheckpoint.run_spec
  rw [hrun, Prod.mk.injEq] at hrun'
  obtain ⟨-, rfl⟩ := hrun'
  have howed : midCheckpoint.Owed ledger70 :=
    ⟨⟨1, List.mem_singleton.mpr rfl⟩, by decide, by decide, rfl⟩
  rcases (hhas "e").mp (hall ledger70 howed) with hstored | hreached
  · obtain ⟨t, ht, hid⟩ := hstored
    cases ht
    cases hid
  · cases hreached

end Backfill

end SorobanLens
