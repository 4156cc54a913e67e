import SorobanLens.Ingest.RpcClient
import SorobanLens.Lib.Regex

/-!
The poller between two RPC calls: where it starts, what it asks for, what it
makes of a page and what it saves.
-/

set_option autoImplicit false

namespace SorobanLens

structure PollerOptions where
  contractIds : List String
  eventType : Option EventType := none
  startLedger : Option Nat := none
  endLedger : Option Nat := none
  pageSize : Option JsNumber := none
  topics : Option (List (List String)) := none

def PollerOptions.pageSizeOrDefault (o : PollerOptions) : JsNumber := o.pageSize.getD (.ofNat 200)

def PollerOptions.filters (o : PollerOptions) : List EventFilter :=
  buildFilters o.contractIds o.topics o.eventType

def APPROX_LEDGER_SECONDS : Nat := 5

def RECENT_ID_WINDOW_PAGES : Nat := 3

/-! ### Recently seen ids -/

structure RecentIds where
  capacity : JsNumber
  ids : List String

def RecentIds.new (capacity : JsNumber) : RecentIds := ⟨JsNumber.max (.ofNat 1) capacity, []⟩

/-- Records an id; false when it was there already. -/
def RecentIds.add (seen : RecentIds) (id : String) : Bool × RecentIds :=
  if id ∈ seen.ids then (false, seen)
  else
    let ids := seen.ids ++ [id]
    if JsNumber.lt seen.capacity (.ofNat ids.length) then (true, { seen with ids := ids.drop 1 })
    else (true, { seen with ids := ids })

/-- `events.filter((event) => seen.add(event.id))`. -/
def RecentIds.filterFresh : RecentIds → List RawEvent → List RawEvent × RecentIds
  | seen, [] => ([], seen)
  | seen, e :: es =>
    let added := seen.add e.id
    let rest := added.2.filterFresh es
    (if added.1 then e :: rest.1 else rest.1, rest.2)

theorem add_of_mem {seen : RecentIds} {id : String} (h : id ∈ seen.ids) :
    seen.add id = (false, seen) := by
  simp [RecentIds.add, h]

theorem add_of_not_mem (seen : RecentIds) {id : String} (h : id ∉ seen.ids) :
    ∃ k ≤ 1, seen.add id = (true, { seen with ids := (seen.ids ++ [id]).drop k }) := by
  by_cases hc : JsNumber.lt seen.capacity (.ofNat (seen.ids ++ [id]).length) = true
  · exact ⟨1, le_refl 1, by simp only [RecentIds.add, h, hc, if_false, if_true]⟩
  · rw [Bool.not_eq_true] at hc
    exact ⟨0, by omega, by
      simp only [RecentIds.add, h, hc, if_false, List.drop_zero, Bool.false_eq_true]⟩

theorem mem_add {seen : RecentIds} {id x : String} (h : x ∈ (seen.add id).2.ids) :
    x ∈ seen.ids ∨ x = id := by
  by_cases hid : id ∈ seen.ids
  · rw [add_of_mem hid] at h
    exact .inl h
  · obtain ⟨k, -, ha⟩ := add_of_not_mem seen hid
    rw [ha] at h
    simpa using List.mem_of_mem_drop h

theorem add_fst {seen : RecentIds} {id : String} (h : (seen.add id).1 = false) : id ∈ seen.ids := by
  by_cases hid : id ∈ seen.ids
  · exact hid
  · obtain ⟨k, -, ha⟩ := add_of_not_mem seen hid
    rw [ha] at h
    cases h

theorem mem_filterFresh (seen : RecentIds) {es : List RawEvent} {e : RawEvent} (h : e ∈ es) :
    e ∈ (seen.filterFresh es).1 ∨ e.id ∈ seen.ids ∨
      ∃ f ∈ (seen.filterFresh es).1, f.id = e.id := by
  induction es generalizing seen with
  | nil => simp at h
  | cons d ds ih =>
    simp only [RecentIds.filterFresh]
    rcases List.mem_cons.mp h with rfl | he
    · cases hd : (seen.add e.id).1 with
      | true => simp
      | false => exact .inr (.inl (add_fst hd))
    · rcases ih (seen.add d.id).2 he with hf | hs | ⟨f, hf, hid⟩
      · refine .inl ?_
        split <;> simp [hf]
      · rcases mem_add hs with hs | hs
        · exact .inr (.inl hs)
        · cases hd : (seen.add d.id).1 with
          | true => exact .inr (.inr ⟨d, by simp, hs.symm⟩)
          | false => exact .inr (.inl (hs ▸ add_fst hd))
      · refine .inr (.inr ⟨f, ?_, hid⟩)
        split <;> simp [hf]

theorem filterFresh_subset {seen : RecentIds} {es : List RawEvent} {e : RawEvent}
    (h : e ∈ (seen.filterFresh es).1) : e ∈ es := by
  induction es generalizing seen with
  | nil => simp [RecentIds.filterFresh] at h
  | cons d ds ih =>
    simp only [RecentIds.filterFresh] at h
    split at h
    · rcases List.mem_cons.mp h with rfl | h
      · exact List.mem_cons_self
      · exact List.mem_cons_of_mem d (ih h)
    · exact List.mem_cons_of_mem d (ih h)

theorem mem_seen_filterFresh {seen : RecentIds} {es : List RawEvent} {x : String}
    (h : x ∈ (seen.filterFresh es).2.ids) :
    x ∈ seen.ids ∨ ∃ f ∈ (seen.filterFresh es).1, f.id = x := by
  induction es generalizing seen with
  | nil => exact .inl h
  | cons d ds ih =>
    simp only [RecentIds.filterFresh] at h ⊢
    rcases ih h with hs | ⟨f, hf, hid⟩
    · rcases mem_add hs with hs | rfl
      · exact .inl hs
      · cases hd : (seen.add d.id).1 with
        | true => exact .inr ⟨d, by simp, rfl⟩
        | false => exact .inl (add_fst hd)
    · refine .inr ⟨f, ?_, hid⟩
      split <;> simp [hf]

theorem filterFresh_new {seen : RecentIds} {es : List RawEvent} (hn : (es.map RawEvent.id).Nodup)
    (hs : ∀ e ∈ es, e.id ∉ seen.ids) : (seen.filterFresh es).1 = es := by
  induction es generalizing seen with
  | nil => rfl
  | cons d ds ih =>
    have hd : d.id ∉ seen.ids := hs d List.mem_cons_self
    obtain ⟨k, -, ha⟩ := add_of_not_mem seen hd
    have hn' := List.nodup_cons.mp hn
    have hrest : ((seen.add d.id).2.filterFresh ds).1 = ds := by
      refine ih hn'.2 ?_
      intro e he hmem
      rcases mem_add hmem with hseen | heq
      · exact hs e (List.mem_cons_of_mem d he) hseen
      · exact hn'.1 (heq ▸ List.mem_map_of_mem he)
    simp only [RecentIds.filterFresh, hrest]
    simp [ha]

/-! ### Errors -/

structure RpcError where
  /-- `instanceof RetryExhaustedError`. -/
  exhausted : Bool
  /-- `error.code`, when it is a number. -/
  code : Option JsNumber
  message : String

def JSONRPC_INVALID_REQUEST : JsNumber := .fin (-32600)

open Regex in
/-- `/\b(cursor|start\s*_?ledger)\b/i`. -/
def aboutPosition : Regex :=
  concat [.boundary, oneOf [literal "cursor",
    concat [literal "start", .star .space, optional (.char '_'), literal "ledger"]], .boundary]

open Regex in
def outOfRange : List Regex :=
  [ concat [.boundary, literal "must be ",
      oneOf (["between", "within", "greater", "newer", "at least"].map literal), .boundary]
  , concat [.boundary, optional (oneOf [literal "is ", literal "was "]),
      oneOf (["before", "older than", "outside"].map literal), .boundary, .star .any, .boundary,
      literal "oldest", .boundary]
  , concat [.boundary, literal "ledger range", .boundary]
  , concat [.boundary, literal "out", optional (literal "side"), literal " of range", .boundary]
  , concat [.boundary, literal "no longer ",
      oneOf (["available", "retained", "in the retention window"].map literal), .boundary] ]

def isCursorOutOfRange (error : RpcError) : Bool :=
  if error.code.any (fun c => c ≠ JSONRPC_INVALID_REQUEST) then false
  else aboutPosition.test error.message && outOfRange.any (fun r => r.test error.message)

/-! ### Positions -/

structure CursorState where
  cursor : String
  ledger : Nat
  updatedAt : String
  retention : Option RetentionState

structure StreamLocals where
  seen : RecentIds
  cursor : Option String
  startLedger : Option Nat
  positionResolved : Bool

def initialLocals (o : PollerOptions) : StreamLocals where
  seen := .new (JsNumber.mul o.pageSizeOrDefault (.ofNat RECENT_ID_WINDOW_PAGES))
  cursor := none
  startLedger := none
  positionResolved := false

/-- `#resolveStart`: a stored cursor wins, otherwise a start ledger clamped into
the node's window. -/
def resolveStart (o : PollerOptions) (saved : Option CursorState) (window : RetentionState)
    (l : StreamLocals) : StreamLocals :=
  match saved with
  | some s => { l with cursor := some s.cursor, startLedger := none, positionResolved := true }
  | none =>
    let requested := o.startLedger.getD window.oldestLedger
    { l with
      cursor := none
      startLedger := some (min (max requested window.oldestLedger) window.latestLedger)
      positionResolved := true }

/-- The arguments of the next `getEvents`; `savedLedger` is what the cursor store
holds then. -/
def getEventsArgs (o : PollerOptions) (l : StreamLocals) (savedLedger : Option Nat) :
    GetEventsArgs :=
  if truthy l.cursor then
    { filters := o.filters
      limit := some o.pageSizeOrDefault
      endLedger := o.endLedger
      cursor := l.cursor
      fallbackLedger := l.startLedger.or savedLedger }
  else
    { filters := o.filters
      limit := some o.pageSizeOrDefault
      endLedger := o.endLedger
      startLedger := l.startLedger }

def restartAt (oldestLedger : Nat) (l : StreamLocals) : StreamLocals :=
  { l with cursor := none, startLedger := some oldestLedger }

/-! ### One page -/

structure PollerProgress where
  cursor : String
  ledger : Nat
  latestLedger : Nat
  caughtUp : Bool
  reachedEndLedger : Bool
  lagLedgers : Nat
  lagSeconds : Nat
  deriving DecidableEq, Repr

structure Turn where
  fresh : List RawEvent
  seen : RecentIds
  progress : PollerProgress
  /-- The ledger saved with the page's cursor. -/
  savedLedger : Nat

def lastLedger (batch : EventBatch) : Nat :=
  match batch.events.getLast? with
  | some e => e.ledger
  | none => 0

def turn (o : PollerOptions) (seen : RecentIds) (batch : EventBatch) : Turn :=
  let caughtUp := JsNumber.lt (.ofNat batch.events.length) o.pageSizeOrDefault
  let filtered := seen.filterFresh batch.events
  let last := lastLedger batch
  { fresh := filtered.1
    seen := filtered.2
    progress :=
      { cursor := batch.cursor
        ledger := last
        latestLedger := batch.latestLedger
        caughtUp := caughtUp
        reachedEndLedger := o.endLedger.isSome && caughtUp
        lagLedgers := batch.latestLedger - last
        lagSeconds := (batch.latestLedger - last) * APPROX_LEDGER_SECONDS }
    savedLedger := if last = 0 then batch.latestLedger else last }

/-- A page's events are yielded with it or had been yielded before, and so is all
that is remembered then. -/
theorem mem_yielded_of_turn (o : PollerOptions) {seen : RecentIds} {yielded : List String}
    (batch : EventBatch) (hseen : ∀ x ∈ seen.ids, x ∈ yielded) :
    (∀ e ∈ batch.events, e.id ∈ yielded ++ (turn o seen batch).fresh.map RawEvent.id) ∧
    ∀ x ∈ (turn o seen batch).seen.ids,
      x ∈ yielded ++ (turn o seen batch).fresh.map RawEvent.id := by
  constructor
  · intro e he
    rcases mem_filterFresh seen he with hf | hs | ⟨f, hf, hid⟩
    · exact List.mem_append_right _ (List.mem_map_of_mem hf)
    · exact List.mem_append_left _ (hseen _ hs)
    · rw [← hid]
      exact List.mem_append_right _ (List.mem_map_of_mem hf)
  · intro x hx
    rcases mem_seen_filterFresh hx with hs | ⟨f, hf, rfl⟩
    · exact List.mem_append_left _ (hseen _ hs)
    · exact List.mem_append_right _ (List.mem_map_of_mem hf)

def cursorState (batch : EventBatch) (t : Turn) (now : String) : CursorState where
  cursor := batch.cursor
  ledger := t.savedLedger
  updatedAt := now
  retention := some ⟨batch.latestLedger, batch.oldestLedger⟩

def advance (l : StreamLocals) (batch : EventBatch) (t : Turn) : StreamLocals :=
  { l with seen := t.seen, cursor := some batch.cursor, startLedger := none }

def nextPage (o : PollerOptions) (savedLedger : Option Nat) (rpc : GetEventsRequest → EventBatch)
    (l : StreamLocals) : Except String (EventBatch × Turn) :=
  (getEventsRequest (getEventsArgs o l savedLedger)).map
    (fun req => (rpc req, turn o l.seen (rpc req)))

theorem filters_getEventsRequest {o : PollerOptions} {l : StreamLocals} {saved : Option Nat}
    {req : GetEventsRequest} (h : getEventsRequest (getEventsArgs o l saved) = .ok req) :
    req.filters = o.filters := by
  have hf : (getEventsArgs o l saved).filters = o.filters := by
    unfold getEventsArgs
    split <;> rfl
  unfold getEventsRequest at h
  split at h <;> first | (cases h; exact hf) | cases h

/-- A stream that has a position asks from it by cursor, and only by cursor. -/
theorem getEventsRequest_ofCursor {o : PollerOptions} {l : StreamLocals} {saved : Option Nat}
    {c : String} (hc : l.cursor = some c) (hne : c ≠ "") :
    getEventsRequest (getEventsArgs o l saved) =
      .ok (.ofCursor o.filters c (clampLimit (some o.pageSizeOrDefault))) := by
  have ht : truthy (some c) = true := by simp [truthy, hne]
  simp only [getEventsArgs, hc, ht, if_true, getEventsRequest]

theorem getEventsRequest_ofRange {o : PollerOptions} {l : StreamLocals} {saved : Option Nat}
    {ledger : Nat} (hc : l.cursor = none) (hl : l.startLedger = some ledger) :
    getEventsRequest (getEventsArgs o l saved) =
      .ok (.ofRange o.filters ledger o.endLedger (clampLimit (some o.pageSizeOrDefault))) := by
  simp [getEventsArgs, hc, truthy, hl, getEventsRequest]

example : isCursorOutOfRange
    ⟨true, none, "start ledger is before the oldest ledger retained by this node"⟩ = true := by
  decide +kernel

end SorobanLens
