import SorobanLens.Ingest.RpcClient
import Mathlib.Data.List.Sort

/-!
`StellarArchiveSource`: events read from the files of an archive, one file for each
checkpoint of so many ledgers.
-/

set_option autoImplicit false

namespace SorobanLens

structure StellarArchiveSource where
  checkpointSize : Nat := 64
  size_pos : 0 < checkpointSize := by decide
  /-- The events in the file of a checkpoint, by the ledger it ends at. -/
  readCheckpoint : Nat → Except String (List RawEvent)
  localeCompare : String → String → Int

structure ArchiveArgs where
  startLedger : Nat
  endLedger : Option Nat := none
  filters : List EventFilter := []
  limit : Nat := 200

def checkpointEnd (ledger size : Nat) : Nat := ledger / size * size + size - 1

/-- `topic.every((x, i) => x === '*' || x === '**' || x === event.topic[i])`. -/
def topicMatches (topic segments : List String) : Bool :=
  topic.zipIdx.all (fun x => x.1 == "*" || (x.1 == "**" || segments[x.2]? == some x.1))

def EventFilter.matches (f : EventFilter) (e : RawEvent) : Bool :=
  f.type == e.type &&
  ((f.contractIds.getD []).isEmpty || (f.contractIds.getD []).contains e.contractId) &&
  ((f.topics.getD []).isEmpty || (f.topics.getD []).any (fun topic => topicMatches topic e.topic))

def matchesAny (e : RawEvent) (filters : List EventFilter) : Bool :=
  filters.isEmpty || filters.any (fun f => f.matches e)

def collectFile (keep : RawEvent → Bool) (limit : Nat) :
    List RawEvent → List RawEvent → List RawEvent
  | [], events => events
  | e :: rest, events =>
    if keep e then
      if limit ≤ (events ++ [e]).length then events ++ [e]
      else collectFile keep limit rest (events ++ [e])
    else collectFile keep limit rest events

def checkpointLedgers (first last size : Nat) : List Nat :=
  (List.range ((last + size - first) / size)).map (fun i => first + i * size)

namespace StellarArchiveSource

def collect (src : StellarArchiveSource) (keep : RawEvent → Bool) (limit : Nat) :
    List Nat → List RawEvent → Except String (List RawEvent)
  | [], events => .ok events
  | ledger :: ledgers, events => do
    let payload ← src.readCheckpoint ledger
    let events := collectFile keep limit payload events
    if limit ≤ events.length then pure events else src.collect keep limit ledgers events

def getEvents (src : StellarArchiveSource) (args : ArchiveArgs) : Except String EventBatch := do
  let last := args.endLedger.getD (args.startLedger + src.checkpointSize - 1)
  let keep := fun e : RawEvent =>
    !(decide (e.ledger < args.startLedger) || decide (last < e.ledger)) && matchesAny e args.filters
  let first := checkpointEnd args.startLedger src.checkpointSize
  let events ← src.collect keep args.limit (checkpointLedgers first last src.checkpointSize) []
  let events := events.mergeSort (fun a b => decide (src.localeCompare a.id b.id ≤ 0))
  let lastLedger := (events.getLast?.map RawEvent.ledger).getD (min last args.startLedger)
  pure
    { events := events
      cursor := "archive:" ++ toString lastLedger
      latestLedger := last
      oldestLedger := args.startLedger }

end StellarArchiveSource

/-! ### Filters -/

theorem mem_chunkIds {ids chunk : List String} (h : chunk ∈ chunkIds ids) :
    chunk ≠ [] ∧ ∀ x ∈ chunk, x ∈ ids := by
  obtain ⟨i, hi, rfl⟩ := List.mem_map.mp h
  rw [List.mem_range, MAX_CONTRACT_IDS_PER_FILTER] at hi
  have hlt : i * 5 < ids.length := by omega
  constructor
  · intro hnil
    have hlen := congrArg List.length hnil
    simp only [MAX_CONTRACT_IDS_PER_FILTER, List.length_take, List.length_drop,
      List.length_nil] at hlen
    omega
  · intro x hx
    exact List.mem_of_mem_drop (List.mem_of_mem_take hx)

theorem exists_chunk {ids : List String} {x : String} (h : x ∈ ids) :
    ∃ chunk ∈ chunkIds ids, x ∈ chunk := by
  obtain ⟨i, hi, rfl⟩ := List.getElem_of_mem h
  refine ⟨_, List.mem_map.mpr ⟨i / 5, ?_, rfl⟩, ?_⟩
  · rw [List.mem_range, MAX_CONTRACT_IDS_PER_FILTER]
    omega
  · rw [List.mem_iff_getElem?, MAX_CONTRACT_IDS_PER_FILTER]
    refine ⟨i % 5, ?_⟩
    rw [List.getElem?_take_of_lt (by omega), List.getElem?_drop]
    rw [show i / 5 * 5 + i % 5 = i by omega, List.getElem?_eq_getElem hi]

/-- What a configured list of contracts watches; an empty one watches them all. -/
def watches (contractIds : List String) (e : RawEvent) : Bool :=
  e.type == .contract && (contractIds.isEmpty || contractIds.contains e.contractId)

theorem matchesAny_buildFilters (contractIds : List String) (e : RawEvent) :
    matchesAny e (buildFilters contractIds none none) = watches contractIds e := by
  have htype : (EventType.contract == e.type) = (e.type == .contract) := BEq.comm
  unfold buildFilters matchesAny watches
  by_cases hids : contractIds = []
  · simp [hids, EventFilter.matches, htype]
  · have hempty : contractIds.isEmpty = false := by simpa using hids
    have hnil : chunkIds contractIds ≠ [] := by
      obtain ⟨x, hx⟩ := List.exists_mem_of_ne_nil contractIds hids
      obtain ⟨chunk, hchunk, -⟩ := exists_chunk hx
      exact List.ne_nil_of_mem hchunk
    have hmapped : ((chunkIds contractIds).map (fun ids : List String =>
        ({ type := EventType.contract, contractIds := some ids, topics := none } : EventFilter))).isEmpty =
          false := by simpa using hnil
    simp only [if_neg hids, Option.getD_none, Option.filter_none, hmapped, hempty, Bool.false_or,
      List.any_map]
    rw [Bool.eq_iff_iff, List.any_eq_true]
    constructor
    · intro h
      obtain ⟨chunk, hchunk, hm⟩ := h
      obtain ⟨hne, hsub⟩ := mem_chunkIds hchunk
      simp only [Function.comp_apply, EventFilter.matches, Option.getD_some, Option.getD_none,
        List.isEmpty_nil, Bool.true_or, Bool.and_true, Bool.and_eq_true, Bool.or_eq_true,
        List.isEmpty_iff, hne, false_or, List.contains_iff_mem, htype] at hm ⊢
      exact ⟨hm.1, hsub _ hm.2⟩
    · intro h
      simp only [Bool.and_eq_true, List.contains_iff_mem] at h
      obtain ⟨chunk, hchunk, hin⟩ := exists_chunk h.2
      refine ⟨chunk, hchunk, ?_⟩
      simp [EventFilter.matches, htype, h.1, hin]

/-! ### What is collected -/

theorem collectFile_eq (keep : RawEvent → Bool) {limit : Nat} (payload : List RawEvent) :
    ∀ events : List RawEvent, events.length < limit →
      collectFile keep limit payload events = (events ++ payload.filter keep).take limit := by
  induction payload with
  | nil =>
    intro events h
    simp [collectFile, List.take_of_length_le (Nat.le_of_lt h)]
  | cons e rest ih =>
    intro events h
    by_cases hk : keep e = true
    · simp only [collectFile, hk, if_true, List.filter_cons_of_pos, List.length_append,
        List.length_singleton]
      split
      · have hfull : (events ++ [e]).length = limit := by simp; omega
        have hsplit : events ++ e :: rest.filter keep = (events ++ [e]) ++ rest.filter keep := by simp
        rw [hsplit, ← hfull, List.take_left]
      · rw [ih (events ++ [e]) (by simp; omega)]
        simp
    · simp only [collectFile, hk, if_false, Bool.false_eq_true, List.filter_cons_of_neg,
        not_false_eq_true]
      exact ih events h

namespace StellarArchiveSource

theorem collect_eq (src : StellarArchiveSource) (keep : RawEvent → Bool) {limit : Nat}
    (files : Nat → List RawEvent) (ledgers : List Nat) :
    ∀ events : List RawEvent, events.length < limit →
      (∀ l ∈ ledgers, src.readCheckpoint l = .ok (files l)) →
      src.collect keep limit ledgers events =
        .ok ((events ++ (ledgers.flatMap files).filter keep).take limit) := by
  induction ledgers with
  | nil =>
    intro events h _
    simp [collect, List.take_of_length_le (Nat.le_of_lt h)]
  | cons l ledgers ih =>
    intro events h hread
    have hfile := collectFile_eq keep (files l) events h
    simp only [collect, hread l List.mem_cons_self, bind, Except.bind, hfile, List.length_take]
    have hflat : events ++ ((l :: ledgers).flatMap files).filter keep =
        (events ++ (files l).filter keep) ++ (ledgers.flatMap files).filter keep := by simp
    rw [hflat]
    split
    · have hle : limit ≤ (events ++ (files l).filter keep).length := by omega
      rw [List.take_append_of_le_length hle]
      rfl
    · have hlt : (events ++ (files l).filter keep).length < limit := by omega
      rw [List.take_of_length_le (Nat.le_of_lt hlt),
        ih _ hlt (fun l' hl' => hread l' (List.mem_cons_of_mem _ hl'))]

end StellarArchiveSource

end SorobanLens
