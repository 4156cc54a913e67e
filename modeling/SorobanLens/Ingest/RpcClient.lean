import SorobanLens.Store.Types

/-!
Requests for pages of events, and how the RPC client builds them.
-/

set_option autoImplicit false

namespace SorobanLens

structure EventFilter where
  type : EventType
  contractIds : Option (List String)
  topics : Option (List (List String))
  deriving DecidableEq, Repr

structure EventBatch where
  events : List RawEvent
  cursor : String
  latestLedger : Nat
  oldestLedger : Nat
  deriving DecidableEq, Repr

structure RetentionState where
  latestLedger : Nat
  oldestLedger : Nat
  deriving DecidableEq, Repr

structure GetEventsArgs where
  filters : List EventFilter
  startLedger : Option Nat := none
  endLedger : Option Nat := none
  cursor : Option String := none
  limit : Option JsNumber := none
  fallbackLedger : Option Nat := none

/-- What goes over the wire: a cursor or a range of ledgers, never both. -/
inductive GetEventsRequest where
  | ofCursor (filters : List EventFilter) (cursor : String) (limit : JsNumber)
  | ofRange (filters : List EventFilter) (startLedger : Nat) (endLedger : Option Nat)
      (limit : JsNumber)

def GetEventsRequest.filters : GetEventsRequest → List EventFilter
  | .ofCursor filters _ _ | .ofRange filters _ _ _ => filters

def GetEventsRequest.limit : GetEventsRequest → JsNumber
  | .ofCursor _ _ limit | .ofRange _ _ _ limit => limit

def GetEventsRequest.endLedger : GetEventsRequest → Option Nat
  | .ofCursor _ _ _ => none
  | .ofRange _ _ endLedger _ => endLedger

def MAX_PAGE_SIZE : Nat := 10000

def MAX_CONTRACT_IDS_PER_FILTER : Nat := 5

/-- A string that is there and not empty. -/
def truthy (s : Option String) : Bool := s.any (fun t => t != "")

def clampLimit (limit : Option JsNumber) : JsNumber :=
  JsNumber.min (limit.getD (.ofNat 200)) (.ofNat MAX_PAGE_SIZE)

theorem clampLimit_cases {pageSize : JsNumber} (h : 1 ≤ (clampLimit (some pageSize)).floorNat) :
    pageSize = .ofNat (clampLimit (some pageSize)).floorNat ∨
      JsNumber.lt (.ofNat (clampLimit (some pageSize)).floorNat) pageSize = true := by
  simp only [clampLimit, Option.getD_some, JsNumber.min] at h ⊢
  split at h
  · simp [JsNumber.floorNat] at h
  · rename_i hnan
    simp only [hnan, if_false]
    split at h
    · rename_i hlt
      simp only [hlt, if_true, JsNumber.floorNat_ofNat]
      exact .inr trivial
    · rename_i hlt
      simp only [hlt]
      exact JsNumber.floorNat_cases h

/-- The request `LensRpcClient.getEvents` sends, or the error it throws first. -/
def getEventsRequest (args : GetEventsArgs) : Except String GetEventsRequest :=
  match args.cursor, args.startLedger with
  | some "", some l => .ok (.ofRange args.filters l args.endLedger (clampLimit args.limit))
  | none, some l => .ok (.ofRange args.filters l args.endLedger (clampLimit args.limit))
  | some "", none | none, none =>
    .error "getEvents needs either a `cursor` or a `startLedger`."
  | some c, none => .ok (.ofCursor args.filters c (clampLimit args.limit))
  | some _, some _ =>
    .error "getEvents accepts either `cursor` or `startLedger`, never both (RPC rejects the mix)."

def chunkIds (ids : List String) : List (List String) :=
  (List.range ((ids.length + 4) / MAX_CONTRACT_IDS_PER_FILTER)).map (fun i =>
    (ids.drop (i * MAX_CONTRACT_IDS_PER_FILTER)).take MAX_CONTRACT_IDS_PER_FILTER)

def buildFilters (contractIds : List String) (topics : Option (List (List String)))
    (eventType : Option EventType) : List EventFilter :=
  let base : EventFilter :=
    { type := eventType.getD .contract
      contractIds := none
      topics := topics.filter (fun t => !t.isEmpty) }
  if contractIds = [] then [base]
  else (chunkIds contractIds).map (fun ids => { base with contractIds := some ids })

end SorobanLens
