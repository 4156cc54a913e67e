import Mathlib.Data.List.Flatten
import SorobanLens.Ingest.RpcClient
import SorobanLens.Lib.WorkerPool

/-!
`getEventsChunked`: one request per filter, made by a pool of workers that share an
index, and the pages merged in one order. What the node answers to a request is a
parameter.
-/

set_option autoImplicit false

namespace SorobanLens

structure GetEventsChunkedArgs where
  filters : List EventFilter
  cursors : Option (List String) := none
  startLedger : Option Nat := none
  endLedger : Option Nat := none
  limit : Option JsNumber := none
  concurrency : Option JsNumber := none

structure ChunkedEventBatch where
  events : List RawEvent
  cursors : List String
  latestLedger : Nat
  oldestLedger : Nat
  deriving DecidableEq, Repr

abbrev AnswerRpc := GetEventsRequest → Except String EventBatch

def getEvents (rpc : AnswerRpc) (args : GetEventsArgs) : Except String EventBatch :=
  match getEventsRequest args with
  | .error message => .error message
  | .ok request => rpc request

/-! ### The order of events -/

def compareRawEvents (a b : RawEvent) : Int :=
  if a.ledger ≠ b.ledger then (a.ledger : Int) - b.ledger
  else if a.transactionIndex ≠ b.transactionIndex then
    (a.transactionIndex : Int) - b.transactionIndex
  else if a.operationIndex ≠ b.operationIndex then (a.operationIndex : Int) - b.operationIndex
  else if utf16 a.id < utf16 b.id then -1
  else if utf16 b.id < utf16 a.id then 1
  else 0

def sortEvents (events : List RawEvent) : List RawEvent :=
  events.mergeSort (fun a b => decide (compareRawEvents a b ≤ 0))

def RawEvent.position (e : RawEvent) : List Nat :=
  e.ledger :: e.transactionIndex :: e.operationIndex :: utf16 e.id

theorem cons_le_cons_iff (x y : Nat) (xs ys : List Nat) :
    x :: xs ≤ y :: ys ↔ x < y ∨ x = y ∧ xs ≤ ys := by
  rw [← not_lt, List.cons_lt_cons_iff, ← not_lt (a := ys)]
  by_cases hxy : x = y
  · simp [hxy]
  · simp only [hxy, Ne.symm hxy, false_and, or_false]
    omega

theorem compareRawEvents_le (a b : RawEvent) :
    compareRawEvents a b ≤ 0 ↔ a.position ≤ b.position := by
  have hid : (utf16 a.id < utf16 b.id ∨ ¬ utf16 b.id < utf16 a.id) ↔ utf16 a.id ≤ utf16 b.id := by
    rw [not_lt]
    exact ⟨fun h => h.elim le_of_lt id, .inr⟩
  simp only [RawEvent.position, cons_le_cons_iff, ← hid]
  unfold compareRawEvents
  split
  · omega
  · split
    · omega
    · split
      · omega
      · split
        · simp_all
        · split <;> simp_all

theorem sorted_sortEvents (events : List RawEvent) :
    (sortEvents events).Pairwise (fun a b => a.position ≤ b.position) := by
  have hsorted : (sortEvents events).Pairwise (fun a b => decide (compareRawEvents a b ≤ 0) = true) := by
    refine List.pairwise_mergeSort ?_ ?_ events
    · intro a b c hab hbc
      simp only [decide_eq_true_eq, compareRawEvents_le] at hab hbc ⊢
      exact le_trans hab hbc
    · intro a b
      simp only [Bool.or_eq_true, decide_eq_true_eq, compareRawEvents_le]
      exact le_total _ _
  exact hsorted.imp (fun h => (compareRawEvents_le _ _).mp (of_decide_eq_true h))

/-! ### Polling all filters -/

def chunkedError (args : GetEventsChunkedArgs) : Option String :=
  if args.filters = [] then some "getEventsChunked needs at least one filter."
  else
    match args.cursors with
    | some cursors =>
      if cursors.length ≠ args.filters.length then some "`cursors` must have one entry per filter."
      else none
    | none => none

def poolSize (args : GetEventsChunkedArgs) : JsNumber :=
  let n := JsNumber.ofNat args.filters.length
  .max (.ofNat 1) (.min (args.concurrency.getD n) n)

/-- What one worker asks for at an index: the cursor kept there, or the range. -/
def chunkArgs (args : GetEventsChunkedArgs) (i : Nat) : GetEventsArgs :=
  let cursor := args.cursors.bind (fun cursors => cursors[i]?)
  { filters := args.filters[i]?.toList
    cursor := if truthy cursor then cursor else none
    startLedger := if truthy cursor then none else args.startLedger
    endLedger := args.endLedger
    limit := args.limit }

def chunkPage (rpc : AnswerRpc) (args : GetEventsChunkedArgs) (i : Nat) : Except String EventBatch :=
  getEvents rpc (chunkArgs args i)

def mergeBatches (results : List EventBatch) : ChunkedEventBatch :=
  { events := sortEvents (results.flatMap EventBatch.events)
    cursors := results.map EventBatch.cursor
    latestLedger := results.foldl (fun l batch => max l batch.latestLedger) 0
    oldestLedger := ((results.map EventBatch.oldestLedger).min?).getD 0 }

abbrev ChunkedRun := WorkerPool EventBatch String

/-- `Array.from({ length: poolSize }, () => worker())`. -/
def ChunkedRun.start (args : GetEventsChunkedArgs) : ChunkedRun :=
  WorkerPool.start args.filters.length (poolSize args).floorNat

def ChunkedRun.Step (rpc : AnswerRpc) (args : GetEventsChunkedArgs) : ChunkedRun → ChunkedRun → Prop :=
  WorkerPool.Step args.filters.length (chunkPage rpc args)

def ChunkedRun.resolved (args : GetEventsChunkedArgs) (s : ChunkedRun) : Option ChunkedEventBatch :=
  if s.inFlight = [] ∧ s.error = none then some (mergeBatches (s.collected args.filters.length))
  else none

def getEventsSequential (rpc : AnswerRpc) (args : GetEventsChunkedArgs) :
    Except String ChunkedEventBatch := do
  let results ← (List.range args.filters.length).mapM (chunkPage rpc args)
  pure (mergeBatches results)

/-! ### The groups of ids -/

theorem flatten_chunks (ids : List String) (k : Nat) :
    ((List.range k).map (fun i => (ids.drop (i * MAX_CONTRACT_IDS_PER_FILTER)).take
      MAX_CONTRACT_IDS_PER_FILTER)).flatten = ids.take (k * MAX_CONTRACT_IDS_PER_FILTER) := by
  induction k with
  | zero => simp
  | succ k ih =>
    rw [List.range_succ, List.map_append, List.flatten_append, ih, Nat.succ_mul, List.take_add]
    simp

theorem flatten_chunkIds (ids : List String) : (chunkIds ids).flatten = ids := by
  rw [chunkIds, flatten_chunks]
  refine List.take_of_length_le ?_
  unfold MAX_CONTRACT_IDS_PER_FILTER
  omega

theorem length_of_mem_chunkIds {ids group : List String} (h : group ∈ chunkIds ids) :
    1 ≤ group.length ∧ group.length ≤ MAX_CONTRACT_IDS_PER_FILTER := by
  obtain ⟨i, hi, rfl⟩ := List.mem_map.mp h
  have hlt := List.mem_range.mp hi
  rw [List.length_take, List.length_drop]
  unfold MAX_CONTRACT_IDS_PER_FILTER at *
  omega

/-- The contract ids of the filters are the ids in order, in groups of one to five; only
without any id is there a filter that names none. -/
structure Partitions (filters : List EventFilter) (ids : List String) : Prop where
  flatten : (filters.filterMap EventFilter.contractIds).flatten = ids
  groups : ∀ group ∈ filters.filterMap EventFilter.contractIds,
    1 ≤ group.length ∧ group.length ≤ MAX_CONTRACT_IDS_PER_FILTER
  grouped : ids ≠ [] → ∀ filter ∈ filters, filter.contractIds.isSome = true

theorem partitions_buildFilters (ids : List String) (topics : Option (List (List String)))
    (eventType : Option EventType) : Partitions (buildFilters ids topics eventType) ids := by
  by_cases hids : ids = []
  · subst hids
    constructor <;> simp [buildFilters]
  · have hgroups : (buildFilters ids topics eventType).filterMap EventFilter.contractIds =
        chunkIds ids := by
      simp [buildFilters, hids, List.filterMap_map]
    constructor
    · rw [hgroups, flatten_chunkIds]
    · rw [hgroups]
      exact fun _ hgroup => length_of_mem_chunkIds hgroup
    · intro _ filter hfilter
      simp only [buildFilters, hids, if_false, List.mem_map] at hfilter
      obtain ⟨group, -, rfl⟩ := hfilter
      rfl

theorem buildFilters_ne_nil (ids : List String) (topics : Option (List (List String)))
    (eventType : Option EventType) : buildFilters ids topics eventType ≠ [] := by
  by_cases hids : ids = []
  · simp [buildFilters, hids]
  · intro hnil
    have hflat := (partitions_buildFilters ids topics eventType).flatten
    rw [hnil] at hflat
    exact hids hflat.symm

/-! ### Every order of completions -/

theorem poolSize_eq {args : GetEventsChunkedArgs}
    (h : ∀ c, args.concurrency = some c → JsNumber.lt (.fin 0) c = true) :
    ∃ q : ℚ, poolSize args = .fin q ∧ 1 ≤ q := by
  have hmin : ∃ q : ℚ, JsNumber.min (args.concurrency.getD (.ofNat args.filters.length))
      (.ofNat args.filters.length) = .fin q := by
    cases hc : args.concurrency with
    | none => exact ⟨args.filters.length, by simp [JsNumber.ofNat, JsNumber.min_fin]⟩
    | some c =>
      have hpos := h c hc
      cases c with
      | fin q => exact ⟨min q args.filters.length, JsNumber.min_fin q _⟩
      | posInf => exact ⟨args.filters.length, rfl⟩
      | nan => simp at hpos
      | negInf => cases hpos
  obtain ⟨q, hq⟩ := hmin
  refine ⟨max 1 q, ?_, le_max_left _ _⟩
  rw [poolSize, hq]
  simpa [JsNumber.ofNat] using JsNumber.max_fin 1 q

theorem workers_pos {args : GetEventsChunkedArgs}
    (h : ∀ c, args.concurrency = some c → JsNumber.lt (.fin 0) c = true) :
    1 ≤ (poolSize args).floorNat := by
  obtain ⟨q, hq, hone⟩ := poolSize_eq h
  rw [hq]
  exact (JsNumber.ofNat_le_fin_iff 1 q (by linarith)).mp (by simpa [JsNumber.ofNat] using hone)

/-- What holds of a run that has come so far, whatever completed first: a filter is asked
for at most once, no more requests are in flight than the pool has workers, the run
ends, and what it resolves with is what polling one filter after the other returns. -/
structure ChunkedRun.Lossless (rpc : AnswerRpc) (args : GetEventsChunkedArgs) (s : ChunkedRun) :
    Prop where
  once : s.issued.Nodup ∧ ∀ i ∈ s.issued, i < args.filters.length
  bounded : JsNumber.le (.ofNat s.inFlight.length) (poolSize args) = true
  ends : ∀ t, ChunkedRun.Step rpc args s t →
    t.remaining args.filters.length + 1 = s.remaining args.filters.length
  goesOn : s.inFlight ≠ [] → ∃ t, ChunkedRun.Step rpc args s t
  resolves : (∀ i < args.filters.length, ∃ page, chunkPage rpc args i = .ok page) →
    s.inFlight = [] → (s.resolved args).isSome = true
  same : ∀ batch, s.resolved args = some batch →
    s.issued = List.range args.filters.length ∧ getEventsSequential rpc args = .ok batch

/-- What polling one filter after the other returns: every page's cursor at its filter's
place, and the events of all pages in order. -/
structure IsUnion (rpc : AnswerRpc) (args : GetEventsChunkedArgs) (batch : ChunkedEventBatch)
    (pages : List EventBatch) : Prop where
  length : pages.length = args.filters.length
  answers : ∀ i page, pages[i]? = some page → chunkPage rpc args i = .ok page
  cursors : batch.cursors = pages.map EventBatch.cursor
  events : batch.events.Perm (pages.flatMap EventBatch.events)
  sorted : batch.events.Pairwise (fun a b => a.position ≤ b.position)

theorem lossless_of_sound {rpc : AnswerRpc} {args : GetEventsChunkedArgs} {s : ChunkedRun}
    (hpos : ∀ c, args.concurrency = some c → JsNumber.lt (.fin 0) c = true)
    (h : s.Sound args.filters.length (poolSize args).floorNat (chunkPage rpc args)) :
    s.Lossless rpc args := by
  have hworkers := workers_pos hpos
  constructor
  case once =>
    rw [h.issued]
    exact ⟨List.nodup_range, fun i hi => by have := List.mem_range.mp hi; omega⟩
  case bounded =>
    obtain ⟨q, hq, hone⟩ := poolSize_eq hpos
    have hbound := h.bounded
    rw [hq] at hbound ⊢
    exact (JsNumber.ofNat_le_fin_iff _ q (by linarith)).mpr hbound
  case ends => exact fun t ht => WorkerPool.remaining_step ht
  case goesOn => exact WorkerPool.exists_step _
  case resolves =>
    intro hok hflight
    rw [ChunkedRun.resolved, if_pos ⟨hflight, h.no_error hok⟩]
    rfl
  case same =>
    intro batch hbatch
    unfold ChunkedRun.resolved at hbatch
    split at hbatch
    · rename_i hdone
      refine ⟨(h.finished hworkers hdone.2 hdone.1).1, ?_⟩
      rw [getEventsSequential, h.collected_eq hworkers hdone.2 hdone.1, ← Option.some.inj hbatch]
      rfl
    · cases hbatch

theorem isUnion_of_sequential {rpc : AnswerRpc} {args : GetEventsChunkedArgs}
    {batch : ChunkedEventBatch} (h : getEventsSequential rpc args = .ok batch) :
    ∃ pages, IsUnion rpc args batch pages := by
  unfold getEventsSequential at h
  cases hpages : (List.range args.filters.length).mapM (chunkPage rpc args) with
  | error e =>
    rw [hpages] at h
    cases h
  | ok pages =>
    rw [hpages] at h
    cases h
    have hanswers := WorkerPool.map_of_mapM hpages
    have hlength : pages.length = args.filters.length := by
      simpa using (congrArg List.length hanswers).symm
    refine ⟨pages, hlength, ?_, rfl, List.mergeSort_perm _ _, sorted_sortEvents _⟩
    intro i page hpage
    have hi : i < args.filters.length := hlength ▸ (List.getElem?_eq_some_iff.mp hpage).1
    have hat := congrArg (fun answers => answers[i]?) hanswers
    simpa only [List.getElem?_map, hpage, List.getElem?_range hi, Option.map_some,
      Option.some.injEq] using hat

theorem chunked_polling_lossless (rpc : AnswerRpc) (ids : List String)
    (topics : Option (List (List String))) (eventType : Option EventType)
    (args : GetEventsChunkedArgs) (hfilters : args.filters = buildFilters ids topics eventType)
    (hcursors : ∀ cursors, args.cursors = some cursors → cursors.length = args.filters.length)
    (hpos : ∀ c, args.concurrency = some c → JsNumber.lt (.fin 0) c = true) :
    Partitions args.filters ids ∧ chunkedError args = none ∧
      (∀ s, Reachable (· = ChunkedRun.start args) (ChunkedRun.Step rpc args) s →
        s.Lossless rpc args) ∧
      ∀ batch, getEventsSequential rpc args = .ok batch → ∃ pages, IsUnion rpc args batch pages := by
  refine ⟨hfilters ▸ partitions_buildFilters ids topics eventType, ?_, ?_,
    fun batch => isUnion_of_sequential⟩
  · have hne : args.filters ≠ [] := hfilters ▸ buildFilters_ne_nil ids topics eventType
    rw [chunkedError, if_neg hne]
    cases hc : args.cursors with
    | none => rfl
    | some cursors => simp [hcursors cursors hc]
  · intro s hs
    have hstep : ∀ a b : ChunkedRun,
        a.Sound args.filters.length (poolSize args).floorNat (chunkPage rpc args) →
        ChunkedRun.Step rpc args a b →
        b.Sound args.filters.length (poolSize args).floorNat (chunkPage rpc args) :=
      fun a b ha hab => ha.step hab
    have hsound := Reachable.invariant (fun a ha => ha ▸ WorkerPool.sound_start _ _ _) hstep hs
    exact lossless_of_sound hpos hsound

def sixContracts : GetEventsChunkedArgs :=
  { filters := buildFilters ["A", "B", "C", "D", "E", "F"] none none
    startLedger := some 1
    concurrency := some (.fin 2) }

def quietRpc : AnswerRpc := fun _ => .ok ⟨[], "0000-1", 5, 1⟩

theorem chunked_polling_lossless_six :
    Partitions sixContracts.filters ["A", "B", "C", "D", "E", "F"] ∧ chunkedError sixContracts = none ∧
      (∀ s, Reachable (· = ChunkedRun.start sixContracts) (ChunkedRun.Step quietRpc sixContracts) s →
        s.Lossless quietRpc sixContracts) ∧
      ∀ batch, getEventsSequential quietRpc sixContracts = .ok batch →
        ∃ pages, IsUnion quietRpc sixContracts batch pages := by
  refine chunked_polling_lossless quietRpc _ none none sixContracts rfl ?_ ?_
  · intro cursors h
    cases h
  · intro c h
    cases h
    decide

end SorobanLens
