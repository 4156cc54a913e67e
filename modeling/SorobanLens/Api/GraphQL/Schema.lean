import SorobanLens.Api.GraphQL.Document
import SorobanLens.Store.Schema

/-!
The fixed GraphQL schema: the types, what each field returns and costs, and how
its resolver reads the store.
-/

set_option autoImplicit false

namespace SorobanLens.GraphQL

open SorobanLens

/-! ### Types -/

inductive ObjectType where
  | query
  | eventPage
  | event
  | decodedValue
  | contract
  | topic
  deriving DecidableEq, Repr

def ObjectType.text : ObjectType → String
  | .query => "Query"
  | .eventPage => "EventPage"
  | .event => "Event"
  | .decodedValue => "DecodedValue"
  | .contract => "Contract"
  | .topic => "Topic"

inductive BaseType where
  | scalar
  | object (t : ObjectType)
  deriving DecidableEq, Repr

structure TypeRef where
  base : BaseType
  list : Bool := false
  nonNull : Bool := false
  itemNonNull : Bool := false
  deriving DecidableEq, Repr

/-- How many items a list field is assumed to return: a number, its own `limit`,
or the page size of the page around it. -/
inductive Size where
  | fixed (n : Nat)
  | limit
  | parent
  deriving DecidableEq, Repr

structure FieldDef where
  type : TypeRef
  args : List (String × ArgDef) := []
  size : Option Size := none
  paged : Bool := false
  deriving DecidableEq, Repr

def PAGE_ARGS : List (String × ArgDef) :=
  [ ("topics", ⟨.strings, false⟩)
  , ("fromLedger", ⟨.int, false⟩)
  , ("toLedger", ⟨.int, false⟩)
  , ("fromTime", ⟨.int, false⟩)
  , ("toTime", ⟨.int, false⟩)
  , ("txHash", ⟨.string, false⟩)
  , ("address", ⟨.string, false⟩)
  , ("search", ⟨.string, false⟩)
  , ("successfulOnly", ⟨.boolean, false⟩)
  , ("limit", ⟨.int, false⟩)
  , ("cursor", ⟨.string, false⟩)
  , ("order", ⟨.order, false⟩) ]

def scalarField : FieldDef := { type := { base := .scalar } }

def requiredScalar : FieldDef := { type := { base := .scalar, nonNull := true } }

def listOf (t : ObjectType) : TypeRef := ⟨.object t, true, true, true⟩

def schema : ObjectType → List (String × FieldDef)
  | .query =>
    [ ("events",
        { type := { base := .object .eventPage, nonNull := true }
          paged := true
          args := ("contractId", ⟨.string, false⟩) :: PAGE_ARGS })
    , ("event", { type := { base := .object .event }, args := [("id", ⟨.string, true⟩)] })
    , ("contracts",
        { type := listOf .contract, size := some .limit, args := [("limit", ⟨.int, false⟩)] })
    , ("contract", { type := { base := .object .contract }, args := [("id", ⟨.string, true⟩)] })
    , ("topics",
        { type := listOf .topic
          size := some .limit
          args := [("contractId", ⟨.string, true⟩), ("limit", ⟨.int, false⟩)] }) ]
  | .eventPage =>
    [ ("events", { type := listOf .event, size := some .parent })
    , ("nextCursor", scalarField)
    , ("total", requiredScalar) ]
  | .event =>
    [ ("id", requiredScalar)
    , ("contractId", requiredScalar)
    , ("type", requiredScalar)
    , ("ledger", requiredScalar)
    , ("ledgerClosedAt", requiredScalar)
    , ("txHash", requiredScalar)
    , ("transactionIndex", requiredScalar)
    , ("operationIndex", requiredScalar)
    , ("inSuccessfulContractCall", requiredScalar)
    , ("topics", { type := listOf .decodedValue, size := some (.fixed 8) })
    , ("value", { type := { base := .object .decodedValue, nonNull := true } })
    , ("decodeError", scalarField)
    , ("indexedAt", requiredScalar)
    , ("contract", { type := { base := .object .contract } }) ]
  | .decodedValue => [("type", requiredScalar), ("value", scalarField)]
  | .contract =>
    [ ("contractId", requiredScalar)
    , ("eventCount", requiredScalar)
    , ("firstLedger", requiredScalar)
    , ("lastLedger", requiredScalar)
    , ("lastSeenAt", requiredScalar)
    , ("topics", { type := listOf .topic, size := some .limit, args := [("limit", ⟨.int, false⟩)] })
    , ("events",
        { type := { base := .object .eventPage, nonNull := true }, paged := true, args := PAGE_ARGS }) ]
  | .topic => [("topic", requiredScalar), ("count", requiredScalar)]

def fieldDef (t : ObjectType) (name : String) : Option FieldDef := (schema t).lookup name

/-! ### What resolvers read -/

/-- The store as the endpoint uses it. -/
structure Store where
  queryEvents : EventQuery → Except StoreError EventPage
  getEvent : String → Except StoreError (Option LensEvent)
  listContracts : Option JsNumber → Except StoreError (List ContractSummary)
  listTopics : String → Option JsNumber → Except StoreError (List TopicCount)

inductive Source where
  | root
  | page (p : EventPage)
  | event (e : LensEvent)
  | decoded (v : DecodedValue)
  | contract (c : ContractSummary)
  | topic (t : TopicCount)

inductive Raw where
  | null
  | scalar (v : JsonValue)
  | object (s : Source)
  | list (items : List Source)

inductive PathStep where
  | key (name : String)
  | index (i : Nat)
  deriving DecidableEq, Repr

inductive Failure where
  | api (e : ApiError)
  | request (e : RequestError)
  | field (message : String) (path : List PathStep)
  | internal
  deriving DecidableEq, Repr

def nullable (s : Option String) : Raw :=
  match s with
  | none => .null
  | some t => .scalar (.str t)

def Source.read : Source → String → Raw
  | .page p, "events" => .list (p.events.map .event)
  | .page p, "nextCursor" => nullable p.nextCursor
  | .page p, "total" => .scalar (.num p.total)
  | .event e, "id" => .scalar (.str e.id)
  | .event e, "contractId" => .scalar (.str e.contractId)
  | .event e, "type" => .scalar (.str (eventTypeText e.type))
  | .event e, "ledger" => .scalar (.num e.ledger)
  | .event e, "ledgerClosedAt" => .scalar (.str e.ledgerClosedAt)
  | .event e, "txHash" => .scalar (.str e.txHash)
  | .event e, "transactionIndex" => .scalar (.num e.transactionIndex)
  | .event e, "operationIndex" => .scalar (.num e.operationIndex)
  | .event e, "inSuccessfulContractCall" => .scalar (.bool e.inSuccessfulContractCall)
  | .event e, "topics" => .list (e.topics.map .decoded)
  | .event e, "value" => .object (.decoded e.value)
  | .event e, "decodeError" => nullable e.decodeError
  | .event e, "indexedAt" => .scalar (.str e.indexedAt)
  | .decoded v, "type" => .scalar (.str v.type)
  | .decoded v, "value" => .scalar v.value
  | .contract c, "contractId" => .scalar (.str c.contractId)
  | .contract c, "eventCount" => .scalar (.num c.eventCount)
  | .contract c, "firstLedger" => .scalar (.num c.firstLedger)
  | .contract c, "lastLedger" => .scalar (.num c.lastLedger)
  | .contract c, "lastSeenAt" => .scalar (.str c.lastSeenAt)
  | .topic t, "topic" => .scalar (.str t.topic)
  | .topic t, "count" => .scalar (.num t.count)
  | _, _ => .null
where
  eventTypeText : EventType → String
    | .contract => "contract"
    | .system => "system"
    | .diagnostic => "diagnostic"

structure Context where
  store : Store
  max : MaxQueryLimit
  dateParse : String → Option Int

def fromStore {α : Type} (r : Except StoreError α) : Except Failure α :=
  r.mapError (fun _ => .internal)

def Context.contracts (ctx : Context) : Except Failure (List ContractSummary) :=
  fromStore (ctx.store.listContracts (some (.ofNat ctx.max.val)))

/-- A summary by id, from a map built of the list: the last of an id counts. -/
def contractById (list : List ContractSummary) (id : String) : Raw :=
  match list.reverse.find? (fun c => c.contractId == id) with
  | some c => .object (.contract c)
  | none => .null

def boundedLimit (max : MaxQueryLimit) : JsValue → Except ApiError (Option JsNumber)
  | .number limit =>
    if JsNumber.lt limit (.ofNat 1) || JsNumber.lt (.ofNat max.val) limit then
      .error (.badRequest ("\"limit\" must be between 1 and " ++ toString max.val ++ ", got " ++
        JsNumber.integerText limit ++ ".") "limit")
    else .ok (some limit)
  | _ => .ok none

def argText : JsValue → String
  | .string s => s
  | .number n => JsNumber.integerText n
  | .boolean true => "true"
  | .boolean false => "false"
  | _ => ""

/-- The parameters an argument stands for; a null topic is a wildcard. -/
def argParams : String × JsValue → Params
  | (_, .undefined) | (_, .null) => []
  | ("topics", .array topics) =>
    topics.map (fun t =>
      match t with
      | .string s => ("topic", s)
      | _ => ("topic", "*"))
  | (name, value) => [(name, argText value)]

def eventQueryFromArgs (ctx : Context) (args : Args) (contractId : Option String) :
    Except ApiError EventQuery :=
  (parseEventQuery ctx.dateParse ctx.max (args.flatMap argParams)).map (fun q =>
    if truthyText contractId then { q with contractId := contractId } else q)
where
  truthyText (s : Option String) : Bool := s.any (fun t => t != "")

def apiFailure {α : Type} (r : Except ApiError α) : Except Failure α := r.mapError .api

def queryPage (ctx : Context) (args : Args) (contractId : Option String) : Except Failure Raw := do
  let q ← apiFailure (eventQueryFromArgs ctx args contractId)
  let page ← fromStore (ctx.store.queryEvents q)
  pure (.object (.page page))

def topicList (ctx : Context) (contractId : String) (args : Args) : Except Failure Raw := do
  let limit ← apiFailure (boundedLimit ctx.max (args.get "limit"))
  let topics ← fromStore (ctx.store.listTopics contractId limit)
  pure (.list (topics.map .topic))

def stringArg (args : Args) (name : String) : String :=
  match args.get name with
  | .string s => s
  | _ => ""

def contractFilter (args : Args) : Except Failure (Option String) :=
  match args.get "contractId" with
  | .string s => (apiFailure (assertContractId s)).map some
  | _ => .ok none

def resolve (ctx : Context) (t : ObjectType) (name : String) (source : Source) (args : Args) :
    Except Failure Raw :=
  match t, name, source with
  | .query, "events", _ => do
    let id ← contractFilter args
    queryPage ctx (args.filter (fun a => a.1 ≠ "contractId")) id
  | .query, "event", _ =>
    (fromStore (ctx.store.getEvent (stringArg args "id"))).map (fun e =>
      match e with
      | some e => .object (.event e)
      | none => .null)
  | .query, "contracts", _ => do
    let limit ← apiFailure (boundedLimit ctx.max (args.get "limit"))
    let contracts ← fromStore (ctx.store.listContracts limit)
    pure (.list (contracts.map .contract))
  | .query, "contract", _ => do
    let list ← ctx.contracts
    let id ← apiFailure (assertContractId (stringArg args "id"))
    pure (contractById list id)
  | .query, "topics", _ => do
    let id ← apiFailure (assertContractId (stringArg args "contractId"))
    topicList ctx id args
  | .event, "contract", .event e => ctx.contracts.map (fun list => contractById list e.contractId)
  | .contract, "topics", .contract c => topicList ctx c.contractId args
  | .contract, "events", .contract c => queryPage ctx args (some c.contractId)
  | _, _, _ => .ok (source.read name)

end SorobanLens.GraphQL
