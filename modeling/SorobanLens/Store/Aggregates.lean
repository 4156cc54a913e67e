import SorobanLens.Store.Agreement
import SorobanLens.Api.Params
import SorobanLens.Lib.GroupBy
import Mathlib.Algebra.Order.BigOperators.Group.List

/-!
The counts a store keeps no table for: events per time bucket, per topic and per
contract, and the statistics of the whole table.
-/

set_option autoImplicit false

namespace SorobanLens

open GroupBy

/-! ### Time buckets -/

inductive TimeBucket where
  | minute
  | hour
  | day
  deriving DecidableEq, Repr

def BUCKET_SECONDS : TimeBucket → Int
  | .minute => 60
  | .hour => 3600
  | .day => 86400

/-- `(t / width) * width`: the division of SQL truncates. -/
def bucketStart (bucket : TimeBucket) (t : Int) : Int :=
  t.tdiv (BUCKET_SECONDS bucket) * BUCKET_SECONDS bucket

def EventRow.bucketStart (bucket : TimeBucket) (row : EventRow) : Int :=
  SorobanLens.bucketStart bucket row.closedAtUnix

structure TimeBucketCount where
  start : Int
  count : Nat
  firstLedger : Nat
  lastLedger : Nat
  deriving DecidableEq, Repr

def timeBucketCount {bucket : TimeBucket} (g : Group (EventRow.bucketStart bucket)) :
    TimeBucketCount where
  start := g.of
  count := g.rows.length
  firstLedger := g.least EventRow.ledger
  lastLedger := g.greatest EventRow.ledger

/-- `GROUP BY start ORDER BY start ASC`. -/
def bucketCounts (bucket : TimeBucket) (rows : List EventRow) : List TimeBucketCount :=
  ((groups (EventRow.bucketStart bucket) rows).map timeBucketCount).insertionSort
    (fun a b => a.start ≤ b.start)

def countByTimeBucket (tm : TextMatch) (build : SqliteBuild) (query : EventQuery)
    (bucket : TimeBucket) (db : Db) : Except StoreError (List TimeBucketCount) :=
  (selectWhere tm build (buildWhere query) db).map (bucketCounts bucket)

/-! ### Contracts and topics -/

def eventRows (db : Db) : Except StoreError (List EventRow) :=
  match db.events with
  | none => .error (.noSuchTable "events")
  | some t => .ok t.rows

def contractSummary (g : Group EventRow.contractId) : ContractSummary where
  contractId := g.of
  eventCount := g.rows.length
  firstLedger := g.least EventRow.ledger
  lastLedger := g.greatest EventRow.ledger
  lastSeenAt := g.greatest EventRow.ledgerClosedAt

def contractSummaries (rows : List EventRow) : List ContractSummary :=
  (groups EventRow.contractId rows).map contractSummary

def ContractSummary.rank (a b : ContractSummary) : Prop := b.lastLedger ≤ a.lastLedger

instance : DecidableRel ContractSummary.rank := fun a b =>
  inferInstanceAs (Decidable (b.lastLedger ≤ a.lastLedger))

/-- Contracts whose last ledgers tie come in the engine's own order. -/
def listContracts (ties : Ties ContractSummary) (max : MaxQueryLimit) (limit : Option JsNumber)
    (db : Db) : Except StoreError (List ContractSummary) :=
  (eventRows db).map (fun rows =>
    top ContractSummary.rank ties (normaliseLimit max (some (limit.getD (.ofNat 100))))
      (contractSummaries rows))

def topicCounts (rows : List EventRow) : List TopicCount :=
  (groups (id : String → String) (rows.filterMap EventRow.topic0)).map (fun g =>
    ⟨g.of, g.rows.length⟩)

def listTopics (ties : Ties TopicCount) (max : MaxQueryLimit) (contractId : String)
    (limit : Option JsNumber) (db : Db) : Except StoreError (List TopicCount) :=
  (eventRows db).map (fun rows =>
    top (fun a b => b.count ≤ a.count) ties (normaliseLimit max (some (limit.getD (.ofNat 50))))
      (topicCounts (rows.filter (fun row => row.contractId = contractId))))

def TopicCount.rank (a b : TopicCount) : Prop :=
  b.count < a.count ∨ (b.count = a.count ∧ a.topic ≤ b.topic)

instance : DecidableRel TopicCount.rank := fun a b =>
  inferInstanceAs (Decidable (b.count < a.count ∨ (b.count = a.count ∧ a.topic ≤ b.topic)))

structure StoreStats where
  eventCount : Nat
  contractCount : Nat
  minLedger : Option Nat
  maxLedger : Option Nat
  schemaVersion : Nat
  sizeBytes : Option Nat
  walSizeBytes : Option Nat
  deriving DecidableEq, Repr

structure FileSizes where
  sizeBytes : Option Nat
  walSizeBytes : Option Nat

def statsOf (sizes : FileSizes) (rows : List EventRow) (schemaVersion : Nat) : StoreStats where
  eventCount := rows.length
  contractCount := (keys EventRow.contractId rows).length
  minLedger := (rows.map EventRow.ledger).min?
  maxLedger := (rows.map EventRow.ledger).max?
  schemaVersion := schemaVersion
  sizeBytes := sizes.sizeBytes
  walSizeBytes := sizes.walSizeBytes

def getStats (sizes : FileSizes) (db : Db) : Except StoreError StoreStats := do
  let rows ← eventRows db
  match db.schemaMigrations with
  | none => .error (.noSuchTable "schema_migrations")
  | some _ => .ok (statsOf sizes rows (db.appliedVersions.foldl Max.max 0))

/-! ### Where a bucket lies -/

theorem bucket_seconds_pos (bucket : TimeBucket) : 0 < BUCKET_SECONDS bucket := by
  cases bucket <;> decide

theorem bucketStart_of_nonneg (bucket : TimeBucket) {t : Int} (h : 0 ≤ t) :
    bucketStart bucket t = t / BUCKET_SECONDS bucket * BUCKET_SECONDS bucket := by
  rw [bucketStart, Int.tdiv_eq_ediv_of_nonneg h]

theorem bucketStart_neg (bucket : TimeBucket) (t : Int) :
    bucketStart bucket (-t) = -bucketStart bucket t := by
  simp only [bucketStart, Int.neg_tdiv, Int.neg_mul]

/-- From the epoch on, a moment is in the bucket that starts last before it. -/
theorem bucketStart_iff {bucket : TimeBucket} {t start : Int} (h : 0 ≤ t)
    (haligned : BUCKET_SECONDS bucket ∣ start) :
    bucketStart bucket t = start ↔ start ≤ t ∧ t < start + BUCKET_SECONDS bucket := by
  rw [bucketStart_of_nonneg bucket h]
  obtain ⟨k, rfl⟩ := haligned
  cases bucket <;> simp only [BUCKET_SECONDS] <;> omega

theorem bucketStart_coarser {fine coarse : TimeBucket}
    (h : BUCKET_SECONDS fine ∣ BUCKET_SECONDS coarse) (t : Int) :
    bucketStart coarse (bucketStart fine t) = bucketStart coarse t := by
  have hnonneg : ∀ t : Int, 0 ≤ t →
      bucketStart coarse (bucketStart fine t) = bucketStart coarse t := by
    intro t ht
    have hdown : 0 ≤ bucketStart fine t := by
      rw [bucketStart_of_nonneg fine ht]
      cases fine <;> simp only [BUCKET_SECONDS] <;> omega
    rw [bucketStart_of_nonneg coarse hdown, bucketStart_of_nonneg coarse ht,
      bucketStart_of_nonneg fine ht]
    cases fine <;> cases coarse <;> simp only [BUCKET_SECONDS] at h ⊢ <;> omega
  rcases Int.le_total 0 t with ht | ht
  · exact hnonneg t ht
  · have hneg := hnonneg (-t) (by omega)
    rwa [bucketStart_neg, bucketStart_neg, bucketStart_neg, neg_inj] at hneg

/-! ### Activity series -/

structure TimeBucketCount.Counts (c : TimeBucketCount) (rows : List EventRow) : Prop where
  met : rows ≠ []
  count : c.count = rows.length
  first_mem : ∃ row ∈ rows, row.ledger = c.firstLedger
  first_le : ∀ row ∈ rows, c.firstLedger ≤ row.ledger
  last_mem : ∃ row ∈ rows, row.ledger = c.lastLedger
  le_last : ∀ row ∈ rows, row.ledger ≤ c.lastLedger

/-- The rows counted by bucket: every row in one, oldest bucket first, none empty. -/
structure ActivitySeries (bucket : TimeBucket) (rows : List EventRow)
    (counts : List TimeBucketCount) : Prop where
  ascending : counts.Pairwise (fun a b => a.start < b.start)
  exact : ∀ c ∈ counts, c.Counts (members (EventRow.bucketStart bucket) c.start rows)
  covers : ∀ row ∈ rows, ∃ c ∈ counts, c.start = row.bucketStart bucket
  total : (counts.map TimeBucketCount.count).sum = rows.length

theorem counts_timeBucketCount {bucket : TimeBucket} (g : Group (EventRow.bucketStart bucket)) :
    (timeBucketCount g).Counts g.rows where
  met := g.met
  count := rfl
  first_mem := g.least_mem EventRow.ledger
  first_le _ hrow := Group.least_le EventRow.ledger hrow
  last_mem := g.greatest_mem EventRow.ledger
  le_last _ hrow := Group.le_greatest EventRow.ledger hrow

theorem perm_bucketCounts (bucket : TimeBucket) (rows : List EventRow) :
    (bucketCounts bucket rows).Perm ((groups (EventRow.bucketStart bucket) rows).map timeBucketCount) :=
  List.perm_insertionSort _ _

theorem mem_bucketCounts {bucket : TimeBucket} {rows : List EventRow} {c : TimeBucketCount} :
    c ∈ bucketCounts bucket rows ↔
      ∃ g ∈ groups (EventRow.bucketStart bucket) rows, timeBucketCount g = c := by
  rw [(perm_bucketCounts bucket rows).mem_iff, List.mem_map]

theorem bucketCounts_series (bucket : TimeBucket) (rows : List EventRow) :
    ActivitySeries bucket rows (bucketCounts bucket rows) where
  ascending := by
    have htotal : Std.Total (fun a b : TimeBucketCount => a.start ≤ b.start) :=
      ⟨fun a b => le_total a.start b.start⟩
    have htrans : IsTrans TimeBucketCount (fun a b => a.start ≤ b.start) :=
      ⟨fun _ _ _ hab hbc => le_trans hab hbc⟩
    have hsorted := List.pairwise_insertionSort (fun a b : TimeBucketCount => a.start ≤ b.start)
      ((groups (EventRow.bucketStart bucket) rows).map timeBucketCount)
    have hstarts : (bucketCounts bucket rows).Pairwise (fun a b => a.start ≠ b.start) := by
      rw [← List.pairwise_map (f := TimeBucketCount.start) (R := fun a b => a ≠ b)]
      have hperm := (perm_bucketCounts bucket rows).map TimeBucketCount.start
      refine hperm.nodup_iff.mpr ?_
      have hkeys : ((groups (EventRow.bucketStart bucket) rows).map timeBucketCount).map
          TimeBucketCount.start = keys (EventRow.bucketStart bucket) rows := by
        rw [List.map_map, ← of_groups]
        rfl
      rw [hkeys]
      exact nodup_keys _ _
    exact (hsorted.and hstarts).imp (fun hab => lt_of_le_of_ne hab.1 hab.2)
  exact := by
    intro c hc
    obtain ⟨g, hg, rfl⟩ := mem_bucketCounts.mp hc
    have hrows := counts_timeBucketCount g
    rwa [rows_of_mem hg] at hrows
  covers := by
    intro row hrow
    obtain ⟨g, hg, hof⟩ := exists_group (EventRow.bucketStart bucket) hrow
    exact ⟨timeBucketCount g, mem_bucketCounts.mpr ⟨g, hg, rfl⟩, hof⟩
  total := by
    have hsum := sum_length_groups (EventRow.bucketStart bucket) rows
    rw [((perm_bucketCounts bucket rows).map TimeBucketCount.count).sum_eq, List.map_map, ← hsum]
    rfl

theorem TimeBucketCount.Counts.unique {a b : TimeBucketCount} {rows : List EventRow}
    (ha : a.Counts rows) (hb : b.Counts rows) (hstart : a.start = b.start) : a = b := by
  have hcount : a.count = b.count := ha.count.trans hb.count.symm
  obtain ⟨x, hx, hfirst⟩ := ha.first_mem
  obtain ⟨y, hy, hfirst'⟩ := hb.first_mem
  obtain ⟨z, hz, hlast⟩ := ha.last_mem
  obtain ⟨w, hw, hlast'⟩ := hb.last_mem
  have hfirsts : a.firstLedger = b.firstLedger := by
    have hle := ha.first_le y hy
    have hge := hb.first_le x hx
    omega
  have hlasts : a.lastLedger = b.lastLedger := by
    have hle := hb.le_last z hz
    have hge := ha.le_last w hw
    omega
  obtain ⟨_, _, _, _⟩ := a
  obtain ⟨_, _, _, _⟩ := b
  simp only at hstart hcount hfirsts hlasts
  rw [hstart, hcount, hfirsts, hlasts]

namespace ActivitySeries

variable {bucket : TimeBucket} {rows : List EventRow} {a b : List TimeBucketCount}

theorem subset (ha : ActivitySeries bucket rows a) (hb : ActivitySeries bucket rows b) : a ⊆ b := by
  intro c hc
  have hcounts := ha.exact c hc
  obtain ⟨row, hrow⟩ := List.exists_mem_of_ne_nil _ hcounts.met
  obtain ⟨hrow, hstart⟩ := mem_members.mp hrow
  obtain ⟨d, hd, hsame⟩ := hb.covers row hrow
  have hstarts : d.start = c.start := hsame.trans hstart
  have hdcounts := hb.exact d hd
  rw [hstarts] at hdcounts
  rwa [hcounts.unique hdcounts hstarts.symm]

/-- The rows leave no choice of a series. -/
theorem unique (ha : ActivitySeries bucket rows a) (hb : ActivitySeries bucket rows b) : a = b := by
  have hnodup : ∀ {l : List TimeBucketCount}, ActivitySeries bucket rows l → l.Nodup :=
    fun hl => hl.ascending.imp (fun hlt heq => absurd (congrArg TimeBucketCount.start heq) hlt.ne)
  have hperm : a.Perm b := (List.perm_ext_iff_of_nodup (hnodup ha) (hnodup hb)).mpr
    (fun c => ⟨fun hc => ha.subset hb hc, fun hc => hb.subset ha hc⟩)
  exact hperm.eq_of_pairwise (fun c d _ _ hcd hdc => absurd hcd hdc.asymm) ha.ascending hb.ascending

theorem eq_bucketCounts (ha : ActivitySeries bucket rows a) : a = bucketCounts bucket rows :=
  ha.unique (bucketCounts_series bucket rows)

def within (coarse : TimeBucket) (start : Int) (a : List TimeBucketCount) : List TimeBucketCount :=
  a.filter (fun c => bucketStart coarse c.start = start)

theorem members_coarser {fine coarse : TimeBucket}
    (h : BUCKET_SECONDS fine ∣ BUCKET_SECONDS coarse) (start : Int) (rows : List EventRow) :
    members (fun row => bucketStart coarse (row.bucketStart fine)) start rows =
      members (EventRow.bucketStart coarse) start rows := by
  refine List.filter_congr ?_
  intro row _
  have hsame : bucketStart coarse (row.bucketStart fine) = row.bucketStart coarse :=
    bucketStart_coarser h row.closedAtUnix
  simp only [hsame]

theorem sum_within {fine coarse : TimeBucket} (h : BUCKET_SECONDS fine ∣ BUCKET_SECONDS coarse)
    (ha : ActivitySeries fine rows a) (start : Int) :
    ((within coarse start a).map TimeBucketCount.count).sum =
      (members (EventRow.bucketStart coarse) start rows).length := by
  have hsum := length_coarse (EventRow.bucketStart fine) (bucketStart coarse) start rows
  rw [members_coarser h] at hsum
  have hperm := ((perm_bucketCounts fine rows).filter
    (fun c => bucketStart coarse c.start = start)).map TimeBucketCount.count
  rw [ha.eq_bucketCounts, within, hperm.sum_eq, List.filter_map, List.map_map, ← hsum]
  rfl

theorem exists_within {fine coarse : TimeBucket} (h : BUCKET_SECONDS fine ∣ BUCKET_SECONDS coarse)
    (ha : ActivitySeries fine rows a) {start : Int} {row : EventRow}
    (hrow : row ∈ members (EventRow.bucketStart coarse) start rows) :
    ∃ f ∈ within coarse start a, f.firstLedger ≤ row.ledger ∧ row.ledger ≤ f.lastLedger := by
  obtain ⟨hmem, hstart⟩ := mem_members.mp hrow
  obtain ⟨f, hf, hfine⟩ := ha.covers row hmem
  have hcounts := ha.exact f hf
  have hin : row ∈ members (EventRow.bucketStart fine) f.start rows :=
    mem_members.mpr ⟨hmem, hfine.symm⟩
  have hcoarse : bucketStart coarse f.start = start := by
    rw [hfine, EventRow.bucketStart, bucketStart_coarser h]
    exact hstart
  refine ⟨f, ?_, hcounts.first_le row hin, hcounts.le_last row hin⟩
  exact List.mem_filter.mpr ⟨hf, by simpa using hcoarse⟩

theorem mem_of_within {fine coarse : TimeBucket} (h : BUCKET_SECONDS fine ∣ BUCKET_SECONDS coarse)
    {start : Int} {f : TimeBucketCount} (hf : f ∈ within coarse start a) {row : EventRow}
    (hrow : row ∈ members (EventRow.bucketStart fine) f.start rows) :
    row ∈ members (EventRow.bucketStart coarse) start rows := by
  obtain ⟨hmem, hfine⟩ := mem_members.mp hrow
  have hcoarse : bucketStart coarse f.start = start := by
    simpa [within] using (List.mem_filter.mp hf).2
  refine mem_members.mpr ⟨hmem, ?_⟩
  rw [← hcoarse, ← hfine, EventRow.bucketStart, EventRow.bucketStart, bucketStart_coarser h]

end ActivitySeries

/-- A wide bucket is what the narrow ones within it add up to. -/
structure RollsUp (coarse : TimeBucket) (a b : List TimeBucketCount) : Prop where
  count : ∀ c ∈ b, c.count =
    ((ActivitySeries.within coarse c.start a).map TimeBucketCount.count).sum
  first_mem : ∀ c ∈ b, ∃ f ∈ ActivitySeries.within coarse c.start a, f.firstLedger = c.firstLedger
  last_mem : ∀ c ∈ b, ∃ f ∈ ActivitySeries.within coarse c.start a, f.lastLedger = c.lastLedger
  bounds : ∀ c ∈ b, ∀ f ∈ ActivitySeries.within coarse c.start a,
    c.firstLedger ≤ f.firstLedger ∧ f.lastLedger ≤ c.lastLedger
  covers : ∀ f ∈ a, ∃ c ∈ b, f ∈ ActivitySeries.within coarse c.start a

theorem rollsUp {fine coarse : TimeBucket} (h : BUCKET_SECONDS fine ∣ BUCKET_SECONDS coarse)
    {rows : List EventRow} {a b : List TimeBucketCount} (ha : ActivitySeries fine rows a)
    (hb : ActivitySeries coarse rows b) : RollsUp coarse a b := by
  have hbounds : ∀ c ∈ b, ∀ f ∈ ActivitySeries.within coarse c.start a,
      c.firstLedger ≤ f.firstLedger ∧ f.lastLedger ≤ c.lastLedger := by
    intro c hc f hf
    have hcounts := hb.exact c hc
    have hfcounts := ha.exact f (List.mem_filter.mp hf).1
    obtain ⟨x, hx, hfirst⟩ := hfcounts.first_mem
    obtain ⟨y, hy, hlast⟩ := hfcounts.last_mem
    rw [← hfirst, ← hlast]
    exact ⟨hcounts.first_le x (ActivitySeries.mem_of_within h hf hx),
      hcounts.le_last y (ActivitySeries.mem_of_within h hf hy)⟩
  refine ⟨?_, ?_, ?_, hbounds, ?_⟩
  · intro c hc
    rw [ha.sum_within h, (hb.exact c hc).count]
  · intro c hc
    obtain ⟨x, hx, hfirst⟩ := (hb.exact c hc).first_mem
    obtain ⟨f, hf, hle, -⟩ := ha.exists_within h hx
    have hge := (hbounds c hc f hf).1
    exact ⟨f, hf, by omega⟩
  · intro c hc
    obtain ⟨x, hx, hlast⟩ := (hb.exact c hc).last_mem
    obtain ⟨f, hf, -, hle⟩ := ha.exists_within h hx
    have hge := (hbounds c hc f hf).2
    exact ⟨f, hf, by omega⟩
  · intro f hf
    obtain ⟨x, hx⟩ := List.exists_mem_of_ne_nil _ (ha.exact f hf).met
    obtain ⟨hx, hstart⟩ := mem_members.mp hx
    obtain ⟨c, hc, hcoarse⟩ := hb.covers x hx
    refine ⟨c, hc, List.mem_filter.mpr ⟨hf, ?_⟩⟩
    rw [hcoarse, ← hstart, EventRow.bucketStart, EventRow.bucketStart, bucketStart_coarser h]
    exact decide_eq_true rfl

/-! ### What the store answers -/

theorem countByTimeBucket_ok {tm : TextMatch} {build : SqliteBuild} {query : EventQuery}
    {bucket : TimeBucket} {db : Db} {counts : List TimeBucketCount} :
    countByTimeBucket tm build query bucket db = .ok counts ↔
      db.events.isSome = true ∧ (∀ c ∈ buildWhere query, c.prepare build db = .ok ()) ∧
        counts = bucketCounts bucket (matchingRows tm query db) := by
  rw [countByTimeBucket, map_eq_ok]
  constructor
  · intro h
    obtain ⟨rows, hrows, rfl⟩ := h
    obtain ⟨hevents, hprep, rfl⟩ := selectWhere_ok.mp hrows
    exact ⟨hevents, hprep, rfl⟩
  · intro h
    obtain ⟨hevents, hprep, rfl⟩ := h
    exact ⟨_, selectWhere_ok.mpr ⟨hevents, hprep, rfl⟩, rfl⟩

/-! ### A series cut in two -/

section Cut

variable {bucket : TimeBucket} {m : Int}

theorem bucketStart_lt (hpos : 0 < m) (haligned : BUCKET_SECONDS bucket ∣ m) (t : Int) :
    bucketStart bucket t < m ↔ t < m := by
  have hwidth := bucket_seconds_pos bucket
  rcases Int.le_total 0 t with ht | ht
  · rw [bucketStart_of_nonneg bucket ht]
    obtain ⟨k, rfl⟩ := haligned
    cases bucket <;> simp only [BUCKET_SECONDS] at hpos ⊢ <;> omega
  · have hback : 0 ≤ -t := by omega
    have hneg := bucketStart_neg bucket (-t)
    rw [Int.neg_neg, bucketStart_of_nonneg bucket hback] at hneg
    have hup : 0 ≤ -t / BUCKET_SECONDS bucket * BUCKET_SECONDS bucket :=
      mul_nonneg (Int.ediv_nonneg hback hwidth.le) hwidth.le
    omega

theorem ActivitySeries.append (hpos : 0 < m) (haligned : BUCKET_SECONDS bucket ∣ m)
    {rows : List EventRow} {a b : List TimeBucketCount}
    (ha : ActivitySeries bucket (rows.filter (fun row => row.closedAtUnix < m)) a)
    (hb : ActivitySeries bucket (rows.filter (fun row => ¬ row.closedAtUnix < m)) b) :
    ActivitySeries bucket rows (a ++ b) := by
  have hcut : ∀ row : EventRow, row.bucketStart bucket < m ↔ row.closedAtUnix < m :=
    fun row => bucketStart_lt hpos haligned row.closedAtUnix
  have hmembers : ∀ (p : EventRow → Bool) (start : Int),
      (∀ row : EventRow, row.bucketStart bucket = start → p row = true) →
      members (EventRow.bucketStart bucket) start (rows.filter p) =
        members (EventRow.bucketStart bucket) start rows := by
    intro p start hp
    rw [members, members, List.filter_filter]
    refine List.filter_congr ?_
    intro row _
    rw [Bool.eq_iff_iff, Bool.and_eq_true, decide_eq_true_eq]
    exact ⟨fun h => h.1, fun h => ⟨h, hp row h⟩⟩
  have hstart : ∀ (p : EventRow → Bool) (l : List TimeBucketCount),
      ActivitySeries bucket (rows.filter p) l → ∀ c ∈ l,
        ∃ row : EventRow, row.bucketStart bucket = c.start ∧ p row = true := by
    intro p l hl c hc
    obtain ⟨row, hrow⟩ := List.exists_mem_of_ne_nil _ (hl.exact c hc).met
    obtain ⟨hrow, hsame⟩ := mem_members.mp hrow
    exact ⟨row, hsame, (List.mem_filter.mp hrow).2⟩
  have hbefore : ∀ c ∈ a, c.start < m := by
    intro c hc
    obtain ⟨row, hsame, hp⟩ := hstart _ a ha c hc
    rw [← hsame, hcut row]
    simpa using hp
  have hafter : ∀ c ∈ b, m ≤ c.start := by
    intro c hc
    obtain ⟨row, hsame, hp⟩ := hstart _ b hb c hc
    have hno : ¬ row.bucketStart bucket < m := by
      rw [hcut row]
      simpa using hp
    omega
  refine ⟨?_, ?_, ?_, ?_⟩
  · refine List.pairwise_append.mpr ⟨ha.ascending, hb.ascending, ?_⟩
    intro c hc d hd
    have hlt := hbefore c hc
    have hle := hafter d hd
    omega
  · intro c hc
    rcases List.mem_append.mp hc with hc | hc
    · have hcounts := ha.exact c hc
      rwa [hmembers] at hcounts
      intro row hsame
      have hlt := hbefore c hc
      rw [← hsame, hcut row] at hlt
      exact decide_eq_true hlt
    · have hcounts := hb.exact c hc
      rwa [hmembers] at hcounts
      intro row hsame
      have hle := hafter c hc
      rw [← hsame, ← Int.not_lt, hcut row] at hle
      exact decide_eq_true hle
  · intro row hrow
    by_cases ht : row.closedAtUnix < m
    · obtain ⟨c, hc, hsame⟩ := ha.covers row (List.mem_filter.mpr ⟨hrow, decide_eq_true ht⟩)
      exact ⟨c, List.mem_append_left b hc, hsame⟩
    · obtain ⟨c, hc, hsame⟩ := hb.covers row (List.mem_filter.mpr ⟨hrow, decide_eq_true ht⟩)
      exact ⟨c, List.mem_append_right a hc, hsame⟩
  · rw [List.map_append, List.sum_append, ha.total, hb.total]
    have hlen := (List.length_eq_length_filter_add (l := rows)
      (fun row => decide (row.closedAtUnix < m)))
    simp only [decide_not]
    exact hlen.symm

theorem matchesAll_times (tm : TextMatch) (db : Db) (query : EventQuery) (row : EventRow) :
    matchesAll tm db (buildWhere query) row =
      (matchesAll tm db (buildWhere { query with fromTime := none, toTime := none }) row &&
        query.fromTime.toList.all (fun n => JsNumber.le n (.fin row.closedAtUnix)) &&
        query.toTime.toList.all (fun n => JsNumber.le (.fin row.closedAtUnix) n)) := by
  simp only [matchesAll, buildWhere, conditions, List.all_append, List.all_map, Function.comp_def,
    Condition.holds, Option.toList_none, List.all_nil, Bool.and_true]
  ac_rfl

theorem le_trans_fin {a b : JsNumber} {c : ℚ} (hab : JsNumber.le a (.fin c) = true)
    (hbc : JsNumber.le (.fin c) b = true) : JsNumber.le a b = true := by
  cases a <;> cases b <;> simp_all [JsNumber.le]
  exact hab.trans hbc

def EventQuery.before (query : EventQuery) (m : Int) : EventQuery :=
  { query with toTime := some (.fin ((m - 1 : Int) : ℚ)) }

def EventQuery.onwards (query : EventQuery) (m : Int) : EventQuery :=
  { query with fromTime := some (.fin (m : ℚ)) }

structure EventQuery.Spans (query : EventQuery) (m : Int) : Prop where
  fromTime : ∀ n, query.fromTime = some n → JsNumber.le n (.fin (m : ℚ)) = true
  toTime : ∀ n, query.toTime = some n → JsNumber.le (.fin ((m - 1 : Int) : ℚ)) n = true

theorem matchingRows_before {query : EventQuery} (h : query.Spans m) (tm : TextMatch) (db : Db) :
    matchingRows tm (query.before m) db =
      (matchingRows tm query db).filter (fun row => row.closedAtUnix < m) := by
  unfold matchingRows
  cases db.events with
  | none => rfl
  | some t =>
    simp only [List.filter_filter]
    refine List.filter_congr ?_
    intro row _
    rw [matchesAll_times tm db query, matchesAll_times tm db (query.before m)]
    have hcut : JsNumber.le (.fin (row.closedAtUnix : ℚ)) (.fin ((m - 1 : Int) : ℚ)) =
        decide (row.closedAtUnix < m) := by
      simp only [JsNumber.le, Int.cast_le, Int.le_sub_one_iff]
    have hto : row.closedAtUnix < m →
        query.toTime.toList.all (fun n => JsNumber.le (.fin row.closedAtUnix) n) = true := by
      intro hlt
      rw [List.all_eq_true]
      intro n hn
      have hle := h.toTime n (Option.mem_toList.mp hn)
      have hrow := hcut.trans (decide_eq_true hlt)
      exact le_trans_fin hrow hle
    simp only [EventQuery.before, Option.toList_some, List.all_cons, List.all_nil, Bool.and_true,
      hcut]
    by_cases hlt : row.closedAtUnix < m
    · simp [hlt, hto hlt]
    · simp [hlt]

theorem matchingRows_onwards {query : EventQuery} (h : query.Spans m) (tm : TextMatch) (db : Db) :
    matchingRows tm (query.onwards m) db =
      (matchingRows tm query db).filter (fun row => ¬ row.closedAtUnix < m) := by
  unfold matchingRows
  cases db.events with
  | none => rfl
  | some t =>
    simp only [List.filter_filter]
    refine List.filter_congr ?_
    intro row _
    rw [matchesAll_times tm db query, matchesAll_times tm db (query.onwards m)]
    have hcut : JsNumber.le (.fin (m : ℚ)) (.fin (row.closedAtUnix : ℚ)) =
        decide (m ≤ row.closedAtUnix) := by
      simp only [JsNumber.le, Int.cast_le]
    have hfrom : m ≤ row.closedAtUnix →
        query.fromTime.toList.all (fun n => JsNumber.le n (.fin row.closedAtUnix)) = true := by
      intro hle
      rw [List.all_eq_true]
      intro n hn
      have hlow := h.fromTime n (Option.mem_toList.mp hn)
      exact le_trans_fin hlow (hcut.trans (decide_eq_true hle))
    simp only [EventQuery.onwards, Option.toList_some, List.all_cons, List.all_nil, Bool.and_true,
      hcut]
    by_cases hlt : row.closedAtUnix < m
    · simp [hlt]
    · have hle : m ≤ row.closedAtUnix := by omega
      simp [hlt, hle, hfrom hle]

end Cut

/-! ### Lists of contracts and topics -/

structure ContractSummary.Sums (c : ContractSummary) (rows : List EventRow) : Prop where
  met : rows ≠ []
  count : c.eventCount = rows.length
  first_mem : ∃ row ∈ rows, row.ledger = c.firstLedger
  first_le : ∀ row ∈ rows, c.firstLedger ≤ row.ledger
  last_mem : ∃ row ∈ rows, row.ledger = c.lastLedger
  le_last : ∀ row ∈ rows, row.ledger ≤ c.lastLedger
  seen_mem : ∃ row ∈ rows, row.ledgerClosedAt = c.lastSeenAt
  le_seen : ∀ row ∈ rows, row.ledgerClosedAt ≤ c.lastSeenAt

theorem sums_contractSummary (g : Group EventRow.contractId) : (contractSummary g).Sums g.rows where
  met := g.met
  count := rfl
  first_mem := g.least_mem EventRow.ledger
  first_le _ hrow := Group.least_le EventRow.ledger hrow
  last_mem := g.greatest_mem EventRow.ledger
  le_last _ hrow := Group.le_greatest EventRow.ledger hrow
  seen_mem := g.greatest_mem EventRow.ledgerClosedAt
  le_seen _ hrow := Group.le_greatest EventRow.ledgerClosedAt hrow

theorem sums_of_mem {rows : List EventRow} {c : ContractSummary} (h : c ∈ contractSummaries rows) :
    c.Sums (members EventRow.contractId c.contractId rows) := by
  obtain ⟨g, hg, rfl⟩ := List.mem_map.mp h
  have hsums := sums_contractSummary g
  rwa [rows_of_mem hg] at hsums

theorem contractIds_summaries (rows : List EventRow) :
    (contractSummaries rows).map ContractSummary.contractId = keys EventRow.contractId rows := by
  rw [contractSummaries, List.map_map, ← of_groups]
  rfl

theorem exists_summary {rows : List EventRow} {row : EventRow} (h : row ∈ rows) :
    ∃ c ∈ contractSummaries rows, c.contractId = row.contractId := by
  obtain ⟨g, hg, hof⟩ := exists_group EventRow.contractId h
  exact ⟨contractSummary g, List.mem_map_of_mem hg, hof⟩

theorem summary_unique {rows : List EventRow} {a b : ContractSummary}
    (ha : a ∈ contractSummaries rows) (hb : b ∈ contractSummaries rows)
    (h : a.contractId = b.contractId) : a = b := by
  have hnodup := nodup_keys EventRow.contractId rows
  rw [← contractIds_summaries] at hnodup
  exact List.inj_on_of_nodup_map hnodup ha hb h

theorem sum_summaries (rows : List EventRow) :
    ((contractSummaries rows).map ContractSummary.eventCount).sum = rows.length := by
  have hsum := sum_length_groups EventRow.contractId rows
  rw [contractSummaries, List.map_map, ← hsum]
  rfl

instance : IsTrans ContractSummary ContractSummary.rank :=
  ⟨fun _ _ _ hab hbc => Nat.le_trans hbc hab⟩

instance : Std.Total ContractSummary.rank := ⟨fun a b => Nat.le_total b.lastLedger a.lastLedger⟩

instance : IsTrans TopicCount TopicCount.rank where
  trans a b c hab hbc := by
    rcases hab with hab | ⟨hab, hab'⟩ <;> rcases hbc with hbc | ⟨hbc, hbc'⟩
    · exact .inl (by omega)
    · exact .inl (by omega)
    · exact .inl (by omega)
    · exact .inr ⟨by omega, hab'.trans hbc'⟩

instance : Std.Total TopicCount.rank where
  total a b := by
    rcases Nat.lt_trichotomy a.count b.count with hlt | heq | hgt
    · exact .inr (.inl hlt)
    · rcases le_total a.topic b.topic with hle | hle
      · exact .inl (.inr ⟨heq.symm, hle⟩)
      · exact .inr (.inr ⟨heq, hle⟩)
    · exact .inl (.inl hgt)

instance : Std.Antisymm TopicCount.rank where
  antisymm a b hab hba := by
    obtain ⟨topic, count⟩ := a
    obtain ⟨topic', count'⟩ := b
    rcases hab with hab | ⟨hab, hle⟩ <;> rcases hba with hba | ⟨hba, hge⟩ <;> simp only at *
    · omega
    · omega
    · omega
    · rw [hab, le_antisymm hle hge]

/-- A list of at most `n` contracts: one summary each, latest first, and what it leaves
out was not active later than what it shows. -/
structure ContractList (rows : List EventRow) (n : Nat) (list : List ContractSummary) : Prop where
  exact : ∀ c ∈ list, c.Sums (members EventRow.contractId c.contractId rows)
  once : (list.map ContractSummary.contractId).Nodup
  ranked : list.Pairwise ContractSummary.rank
  length : list.length = min n (keys EventRow.contractId rows).length
  rest : ∀ row ∈ rows, row.contractId ∉ list.map ContractSummary.contractId →
    ∀ c ∈ list, row.ledger ≤ c.lastLedger

theorem contractList_top (ties : Ties ContractSummary) (n : Nat) (rows : List EventRow) :
    ContractList rows n (top ContractSummary.rank ties n (contractSummaries rows)) where
  exact _ hc := sums_of_mem (mem_of_mem_top hc)
  once := by
    have hnodup := nodup_keys EventRow.contractId rows
    rw [← contractIds_summaries] at hnodup
    obtain ⟨l, hperm, hsub⟩ := top_subperm ContractSummary.rank ties n (contractSummaries rows)
    exact (hperm.map _).nodup_iff.mp ((hsub.map _).nodup hnodup)
  ranked := pairwise_top ties n _
  length := by
    rw [length_top, ← contractIds_summaries, List.length_map]
  rest := by
    intro row hrow hno c hc
    obtain ⟨d, hd, hid⟩ := exists_summary hrow
    have hout : d ∉ top ContractSummary.rank ties n (contractSummaries rows) := by
      intro hin
      exact hno (hid ▸ List.mem_map_of_mem hin)
    have hrank : d.lastLedger ≤ c.lastLedger := le_of_not_mem_top hc hd hout
    exact ((sums_of_mem hd).le_last row (mem_members.mpr ⟨hrow, hid.symm⟩)).trans hrank

theorem eventRows_ok {db : Db} {rows : List EventRow} (h : eventRows db = .ok rows) :
    rows = tableRows db.events := by
  unfold eventRows at h
  split at h
  · cases h
  · rename_i t ht
    cases h
    rw [ht]
    rfl

theorem listContracts_ok {ties : Ties ContractSummary} {max : MaxQueryLimit}
    {limit : Option JsNumber} {db : Db} {list : List ContractSummary}
    (h : listContracts ties max limit db = .ok list) :
    list = top ContractSummary.rank ties (normaliseLimit max (some (limit.getD (.ofNat 100))))
      (contractSummaries (tableRows db.events)) := by
  obtain ⟨rows, hrows, rfl⟩ := map_eq_ok.mp h
  rw [eventRows_ok hrows]

theorem getStats_ok {sizes : FileSizes} {db : Db} {stats : StoreStats}
    (h : getStats sizes db = .ok stats) :
    ∃ version, stats = statsOf sizes (tableRows db.events) version := by
  obtain ⟨rows, hrows, h⟩ := bind_eq_ok.mp h
  split at h
  · cases h
  · cases h
    exact ⟨_, by rw [eventRows_ok hrows]⟩

namespace ContractList

variable {rows : List EventRow} {n : Nat} {list : List ContractSummary}

theorem head_last (h : ContractList rows n list) (hn : 1 ≤ n) :
    list.head?.map ContractSummary.lastLedger = (rows.map EventRow.ledger).max? := by
  have hlen := h.length
  cases list with
  | nil =>
    have hnone : keys EventRow.contractId rows = [] := by
      rw [← List.length_eq_zero_iff]
      simp only [List.length_nil] at hlen
      omega
    have hempty : rows = [] := by
      refine List.eq_nil_iff_forall_not_mem.mpr ?_
      intro row hrow
      have hkey : row.contractId ∈ keys EventRow.contractId rows := mem_keys.mpr ⟨row, hrow, rfl⟩
      rw [hnone] at hkey
      cases hkey
    rw [hempty]
    rfl
  | cons c cs =>
    have hranked := List.pairwise_cons.mp h.ranked
    rw [List.head?_cons, Option.map_some, eq_comm, List.max?_eq_some_iff]
    constructor
    · obtain ⟨row, hrow, hlast⟩ := (h.exact c List.mem_cons_self).last_mem
      rw [← hlast]
      exact List.mem_map_of_mem (mem_members.mp hrow).1
    · intro ledger hledger
      obtain ⟨row, hrow, rfl⟩ := List.mem_map.mp hledger
      by_cases hin : row.contractId ∈ (c :: cs).map ContractSummary.contractId
      · obtain ⟨d, hd, hid⟩ := List.mem_map.mp hin
        have hle := (h.exact d hd).le_last row (mem_members.mpr ⟨hrow, hid.symm⟩)
        rcases List.mem_cons.mp hd with rfl | hd
        · exact hle
        · exact hle.trans (hranked.1 d hd)
      · exact h.rest row hrow hin c List.mem_cons_self

end ContractList

structure ContractsAccount (n : Nat) (list : List ContractSummary) (stats : StoreStats) : Prop where
  latest : list.head?.map ContractSummary.lastLedger = stats.maxLedger
  partly : (list.map ContractSummary.eventCount).sum ≤ stats.eventCount
  wholly : stats.contractCount ≤ n → list.length = stats.contractCount ∧
    (list.map ContractSummary.eventCount).sum = stats.eventCount ∧
    (list.map ContractSummary.firstLedger).min? = stats.minLedger

theorem min_summaries {rows : List EventRow} {list : List ContractSummary}
    (h : list.Perm (contractSummaries rows)) :
    (list.map ContractSummary.firstLedger).min? = (rows.map EventRow.ledger).min? := by
  cases hmin : (rows.map EventRow.ledger).min? with
  | none =>
    have hempty : rows = [] := by simpa using hmin
    have hnil : list = [] := by
      rw [hempty] at h
      exact h.eq_nil
    rw [hnil]
    rfl
  | some lo =>
    obtain ⟨hmem, hle⟩ := List.min?_eq_some_iff.mp hmin
    obtain ⟨row, hrow, hlo⟩ := List.mem_map.mp hmem
    obtain ⟨c, hc, hid⟩ := exists_summary hrow
    have hfirst : ∀ d ∈ list, lo ≤ d.firstLedger := by
      intro d hd
      obtain ⟨x, hx, hxfirst⟩ := (sums_of_mem (h.mem_iff.mp hd)).first_mem
      rw [← hxfirst]
      exact hle _ (List.mem_map_of_mem (mem_members.mp hx).1)
    have hc' := h.mem_iff.mpr hc
    have hown := (sums_of_mem hc).first_le row (mem_members.mpr ⟨hrow, hid.symm⟩)
    have heq : c.firstLedger = lo := by
      have hge := hfirst c hc'
      omega
    refine List.min?_eq_some_iff.mpr ⟨heq ▸ List.mem_map_of_mem hc', ?_⟩
    intro ledger hledger
    obtain ⟨d, hd, rfl⟩ := List.mem_map.mp hledger
    exact hfirst d hd

theorem contracts_account {ties : Ties ContractSummary} {max : MaxQueryLimit}
    {limit : Option JsNumber} {sizes : FileSizes} {db : Db} {list : List ContractSummary}
    {stats : StoreStats} (hlist : listContracts ties max limit db = .ok list)
    (hstats : getStats sizes db = .ok stats) :
    ContractList (tableRows db.events) (normaliseLimit max (some (limit.getD (.ofNat 100)))) list ∧
      ContractsAccount (normaliseLimit max (some (limit.getD (.ofNat 100)))) list stats := by
  obtain ⟨version, rfl⟩ := getStats_ok hstats
  rw [listContracts_ok hlist]
  generalize hn : normaliseLimit max (some (limit.getD (.ofNat 100))) = n
  have hpos : 1 ≤ n := hn ▸ normaliseLimit_pos max _
  have htop := contractList_top ties n (tableRows db.events)
  refine ⟨htop, htop.head_last hpos, ?_, ?_⟩
  · obtain ⟨l, hperm, hsub⟩ := top_subperm ContractSummary.rank ties n
      (contractSummaries (tableRows db.events))
    have hle := (hsub.map ContractSummary.eventCount).sum_le_sum (fun _ _ => Nat.zero_le _)
    rw [sum_summaries, (hperm.map _).sum_eq] at hle
    exact hle
  · intro hfew
    have hall : (contractSummaries (tableRows db.events)).length ≤ n := by
      rw [← List.length_map (f := ContractSummary.contractId), contractIds_summaries]
      exact hfew
    have hperm : (top ContractSummary.rank ties n (contractSummaries (tableRows db.events))).Perm
        (contractSummaries (tableRows db.events)) := top_perm hall
    refine ⟨?_, ?_, min_summaries hperm⟩
    · rw [htop.length]
      exact Nat.min_eq_right hfew
    · rw [(hperm.map _).sum_eq, sum_summaries]
      rfl

theorem contracts_account_two :
    ContractsAccount 100 [⟨"C", 2, 7, 7, ""⟩] ⟨2, 1, some 7, some 7, 6, none, none⟩ := by
  have hlist : listContracts (Ties.met _) ⟨1000, by decide⟩ none (plainDb ["a", "b"]) =
      .ok [⟨"C", 2, 7, 7, ""⟩] := by rfl
  have hstats : getStats ⟨none, none⟩ (plainDb ["a", "b"]) =
      .ok ⟨2, 1, some 7, some 7, 6, none, none⟩ := by rfl
  exact (contracts_account hlist hstats).2

/-! ### The activity a query sees -/

theorem prepare_times (build : SqliteBuild) (db : Db) (query : EventQuery) :
    (∀ c ∈ buildWhere query, c.prepare build db = .ok ()) ↔
      ∀ c ∈ buildWhere { query with fromTime := none, toTime := none },
        c.prepare build db = .ok () := by
  simp only [buildWhere, conditions, List.forall_mem_append, List.forall_mem_map, Option.toList_none,
    List.map_nil, List.not_mem_nil, false_implies, implies_true, Condition.prepare]

theorem activity_exact {rd : Reader} {query : EventQuery} {bucket : TimeBucket} {db : Db}
    {counts : List TimeBucketCount}
    (h : countByTimeBucket rd.text rd.build query bucket db = .ok counts) :
    ActivitySeries bucket (matchingRows rd.text query db) counts ∧
      ((∀ row ∈ matchingRows rd.text query db, 0 ≤ row.closedAtUnix) →
        ∀ c ∈ counts, BUCKET_SECONDS bucket ∣ c.start ∧
          c.count = (matchingRows rd.text query db).countP (fun row =>
            c.start ≤ row.closedAtUnix ∧ row.closedAtUnix < c.start + BUCKET_SECONDS bucket)) ∧
      ∀ q cache p, buildWhere q = buildWhere query → q.skipTotal ≠ some true →
        (queryEvents rd q db cache).1 = .ok p → p.totalIsEstimate = false →
          p.total = (counts.map TimeBucketCount.count).sum := by
  obtain ⟨-, -, rfl⟩ := countByTimeBucket_ok.mp h
  have hseries := bucketCounts_series bucket (matchingRows rd.text query db)
  refine ⟨hseries, ?_, ?_⟩
  · intro hnonneg c hc
    have hcounts := hseries.exact c hc
    obtain ⟨row, hrow⟩ := List.exists_mem_of_ne_nil _ hcounts.met
    have haligned : BUCKET_SECONDS bucket ∣ c.start := by
      rw [← (mem_members.mp hrow).2]
      exact Dvd.intro_left _ rfl
    refine ⟨haligned, ?_⟩
    rw [hcounts.count, members, ← List.countP_eq_length_filter]
    refine List.countP_congr ?_
    intro x hx
    simp only [decide_eq_true_eq]
    exact bucketStart_iff (hnonneg x hx) haligned
  · intro q cache p hwhere hskip hp hexact
    have htotal := total_sqlite hp hexact
    have hrows : matchingRows rd.text q db = matchingRows rd.text query db := by
      simp only [matchingRows, hwhere]
    rw [if_neg hskip, hrows] at htotal
    rw [htotal, hseries.total]

theorem activity_exact_two : ActivitySeries .hour
    (matchingRows plainReader.text {} (plainDb ["a", "b"])) [⟨0, 2, 7, 7⟩] := by
  have h : countByTimeBucket plainReader.text plainReader.build {} .hour (plainDb ["a", "b"]) =
      .ok [⟨0, 2, 7, 7⟩] := by rfl
  exact (activity_exact h).1

theorem activity_rolls_up {tm : TextMatch} {build : SqliteBuild} {query : EventQuery}
    {fine coarse : TimeBucket} {db : Db} {a b : List TimeBucketCount}
    (h : BUCKET_SECONDS fine ∣ BUCKET_SECONDS coarse)
    (ha : countByTimeBucket tm build query fine db = .ok a)
    (hb : countByTimeBucket tm build query coarse db = .ok b) : RollsUp coarse a b := by
  obtain ⟨-, -, rfl⟩ := countByTimeBucket_ok.mp ha
  obtain ⟨-, -, rfl⟩ := countByTimeBucket_ok.mp hb
  exact rollsUp h (bucketCounts_series fine _) (bucketCounts_series coarse _)

theorem activity_rolls_up_two : RollsUp .day [⟨0, 2, 7, 7⟩] [⟨0, 2, 7, 7⟩] := by
  have hfine : countByTimeBucket plainReader.text plainReader.build {} .hour (plainDb ["a", "b"]) =
      .ok [⟨0, 2, 7, 7⟩] := by rfl
  have hcoarse : countByTimeBucket plainReader.text plainReader.build {} .day (plainDb ["a", "b"]) =
      .ok [⟨0, 2, 7, 7⟩] := by rfl
  exact activity_rolls_up (by decide) hfine hcoarse

/-- A window cut where a bucket starts is answered by the two halves, one after the other. -/
theorem activity_cut {tm : TextMatch} {build : SqliteBuild} {query : EventQuery}
    {bucket : TimeBucket} {db : Db} {counts : List TimeBucketCount} {m : Int} (hpos : 0 < m)
    (haligned : BUCKET_SECONDS bucket ∣ m) (hspans : query.Spans m)
    (h : countByTimeBucket tm build query bucket db = .ok counts) :
    ∃ a b, countByTimeBucket tm build (query.before m) bucket db = .ok a ∧
      countByTimeBucket tm build (query.onwards m) bucket db = .ok b ∧ counts = a ++ b := by
  obtain ⟨hevents, hprep, rfl⟩ := countByTimeBucket_ok.mp h
  have hrest := (prepare_times build db query).mp hprep
  refine ⟨_, _, countByTimeBucket_ok.mpr
      ⟨hevents, (prepare_times build db (query.before m)).mpr hrest, rfl⟩,
    countByTimeBucket_ok.mpr
      ⟨hevents, (prepare_times build db (query.onwards m)).mpr hrest, rfl⟩, ?_⟩
  refine ((ActivitySeries.append hpos haligned ?_ ?_).eq_bucketCounts).symm
  · rw [matchingRows_before hspans]
    exact bucketCounts_series bucket _
  · rw [matchingRows_onwards hspans]
    exact bucketCounts_series bucket _

theorem activity_cut_two : ∃ a b,
    countByTimeBucket plainReader.text plainReader.build (EventQuery.before {} 3600) .hour
      (plainDb ["a", "b"]) = .ok a ∧
    countByTimeBucket plainReader.text plainReader.build (EventQuery.onwards {} 3600) .hour
      (plainDb ["a", "b"]) = .ok b ∧ [⟨0, 2, 7, 7⟩] = a ++ b := by
  have h : countByTimeBucket plainReader.text plainReader.build {} .hour (plainDb ["a", "b"]) =
      .ok [⟨0, 2, 7, 7⟩] := by rfl
  have hspans : EventQuery.Spans {} 3600 := ⟨by simp, by simp⟩
  exact activity_cut (by decide) (by decide) hspans h

/-! ### The server's counts -/

namespace Postgres

def countByTimeBucket (rd : PgReader) (query : EventQuery) (bucket : TimeBucket) (db : PgDb) :
    Except StoreError (List TimeBucketCount) :=
  if (buildWhere query).all conditionBinds = false then .error badParameter
  else .ok (bucketCounts bucket (matchingRows rd.text query db))

/-- Ranked by topic too where counts tie, unlike SQLite's. -/
def listTopics (ties : Ties TopicCount) (max : MaxQueryLimit) (contractId : String)
    (limit : Option JsNumber) (db : PgDb) : Except StoreError (List TopicCount) :=
  if textBinds contractId = false then .error badParameter
  else .ok (top TopicCount.rank ties (normaliseLimit max (some (limit.getD (.ofNat 50))))
    (topicCounts (db.events.rows.filter (fun row => row.contractId = contractId))))

/-- The log of a server is no file beside the data. -/
def getStats (sizeBytes : Option Nat) (schemaVersion : Nat) (db : PgDb) : StoreStats :=
  statsOf ⟨sizeBytes, none⟩ db.events.rows schemaVersion

end Postgres

section Twins

variable {rt : Runtime} {rows rows' : List EventRow}

end Twins

end SorobanLens
