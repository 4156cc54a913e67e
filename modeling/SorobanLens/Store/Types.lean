import SorobanLens.Lib.Json
import SorobanLens.Lib.JsNumber

/-!
The records that cross the storage boundary: raw events as the RPC reports them,
decoded events as the store keeps them, and the queries it answers.
-/

set_option autoImplicit false

namespace SorobanLens

/-- The event classes the RPC serves; the events table admits the first two. -/
inductive EventType where
  | contract
  | system
  | diagnostic
  deriving DecidableEq, Repr

/-- Decoded payloads in plain JSON. The only numbers are 32-bit integers: wider
ones are decimal strings by then. -/
abbrev JsonValue := Json Int

def utf16 (text : String) : List Nat :=
  text.toList.flatMap (fun c =>
    if c.toNat ≤ 0xFFFF then [c.toNat]
    else [0xD800 + (c.toNat - 0x10000) / 1024, 0xDC00 + (c.toNat - 0x10000) % 1024])

structure RawEvent where
  id : String
  type : EventType
  ledger : Nat
  ledgerClosedAt : String
  contractId : String
  topic : List String
  value : String
  txHash : String
  transactionIndex : Nat
  operationIndex : Nat
  inSuccessfulContractCall : Bool
  deriving DecidableEq, Repr

structure DecodedValue where
  type : String
  value : JsonValue

structure LensEvent where
  id : String
  contractId : String
  type : EventType
  ledger : Nat
  ledgerClosedAt : String
  txHash : String
  transactionIndex : Nat
  operationIndex : Nat
  inSuccessfulContractCall : Bool
  topics : List DecodedValue
  topicsXdr : List String
  value : DecodedValue
  valueXdr : String
  decodeError : Option String
  indexedAt : String

structure StreamState where
  key : String
  cursor : String
  ledger : Nat
  updatedAt : String
  deriving DecidableEq, Repr

inductive Order where
  | asc
  | desc
  deriving DecidableEq, Repr

inductive Direction where
  | forward
  | backward
  deriving DecidableEq, Repr

/-- Filter for `queryEvents`. All fields are ANDed. -/
structure EventQuery where
  contractId : Option String := none
  topics : Option (List (Option String)) := none
  fromLedger : Option JsNumber := none
  toLedger : Option JsNumber := none
  fromTime : Option JsNumber := none
  toTime : Option JsNumber := none
  txHash : Option String := none
  address : Option String := none
  search : Option String := none
  transactionIndex : Option JsNumber := none
  operationIndex : Option JsNumber := none
  successfulOnly : Option Bool := none
  limit : Option JsNumber := none
  cursor : Option String := none
  direction : Option Direction := none
  skipTotal : Option Bool := none
  order : Option Order := none
  deriving DecidableEq

structure EventPage where
  events : List LensEvent
  nextCursor : Option String
  prevCursor : Option String
  total : Nat
  totalIsEstimate : Bool

structure ContractSummary where
  contractId : String
  eventCount : Nat
  firstLedger : Nat
  lastLedger : Nat
  lastSeenAt : String
  deriving DecidableEq, Repr

structure TopicCount where
  topic : String
  count : Nat
  deriving DecidableEq, Repr

structure PruneToSizeResult where
  rowsRemoved : Nat
  ledgersRemoved : Nat
  highestPrunedLedger : Option Nat
  sizeBytesAfter : Nat
  withinTarget : Bool
  deriving DecidableEq, Repr

/-! ### Limits -/

def DEFAULT_QUERY_LIMIT : Nat := 50

/-- A ceiling on `limit`: never zero. -/
structure MaxQueryLimit where
  val : Nat
  pos : 1 ≤ val
  deriving DecidableEq

def normaliseLimit (max : MaxQueryLimit) : Option JsNumber → Nat
  | some (.fin q) => Min.min (Max.max (JsNumber.truncate q) 1).toNat max.val
  | _ => DEFAULT_QUERY_LIMIT

theorem normaliseLimit_pos (max : MaxQueryLimit) (limit : Option JsNumber) :
    1 ≤ normaliseLimit max limit := by
  have h := max.pos
  unfold normaliseLimit
  split
  · omega
  · decide

end SorobanLens
