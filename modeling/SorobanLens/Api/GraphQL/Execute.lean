import SorobanLens.Api.GraphQL.Schema

/-!
From a parsed document to a response: the analysis that estimates its cost, and
the execution that counts the fields it completes.
-/

set_option autoImplicit false

namespace SorobanLens.GraphQL

open SorobanLens
open Json (OBJECT_PROTOTYPE)

structure Limits where
  maxDepth : Nat
  maxComplexity : Nat
  deriving DecidableEq, Repr

def DEFAULT_GRAPHQL_MAX_DEPTH : Nat := 8

def DEFAULT_GRAPHQL_MAX_COMPLEXITY : Nat := 5000

/-! ### Static analysis -/

def ownLimit (max : MaxQueryLimit) (args : Args) : Int :=
  match args.get "limit" with
  | .number (.fin q) => min q.num max.val
  | _ => DEFAULT_QUERY_LIMIT

def multiplier (def_ : FieldDef) (own pageSize : Int) : Int :=
  if def_.type.list then
    match def_.size with
    | some .limit => own
    | some .parent => pageSize
    | some (.fixed n) => n
    | none => DEFAULT_QUERY_LIMIT
  else 1

def childPageSize (def_ : FieldDef) (own pageSize : Int) : Int :=
  if def_.paged then own else pageSize

def fieldLabel (t : ObjectType) (name : String) : String := t.text ++ "." ++ name

/-- What `def.type.name` throws of a function of `Object.prototype`. It is no refusal of
the endpoint's own: it leaves `executeGraphQL`, and the server answers 500. -/
def typeError : RequestError :=
  ⟨.internalError, "Cannot read properties of undefined (reading 'name')"⟩

/-- The cost of one field, or `none` for `__typename`; `below` walks its children. -/
def fieldCost (max : MaxQueryLimit) (vars : Variables)
    (below : ObjectType → List SelectionNode → Int → Except RequestError Int)
    (t : ObjectType) (pageSize : Int) (c : CollectedField) : Except RequestError (Option Int) :=
  if c.name = "__typename" then .ok none
  else if c.name.toList.take 2 = ['_', '_'] then
    .error (invalid "Introspection is not supported by this endpoint.")
  else
    match fieldDef t c.name with
    | none =>
      if c.name ∈ OBJECT_PROTOTYPE then do
        let _ ← resolveArgs (fieldLabel t c.name) [] c.args vars
        .error typeError
      else
        .error (invalid ("Cannot query field \"" ++ c.name ++ "\" on type \"" ++ t.text ++ "\"."))
    | some def_ => do
      let args ← resolveArgs (fieldLabel t c.name) def_.args c.args vars
      match def_.type.base with
      | .scalar =>
        if c.selections.isEmpty then pure (some 1)
        else .error (invalid ("Field \"" ++ fieldLabel t c.name ++
          "\" is a scalar and cannot have a selection."))
      | .object o =>
        if c.selections.isEmpty then
          .error (invalid ("Field \"" ++ fieldLabel t c.name ++
            "\" must have a selection of subfields."))
        else do
          let own := ownLimit max args
          let children ← below o c.selections (childPageSize def_ own pageSize)
          pure (some (1 + multiplier def_ own pageSize * children))

/-- Add a field's cost to the total. Only a field with a cost is held to the limit. -/
def addCost (limits : Limits) (total : Int) : Option Int → Except RequestError Int
  | none => .ok (total + 1)
  | some cost =>
    if limits.maxComplexity < total + cost then
      .error ⟨.queryTooComplex, "Query complexity exceeds the maximum of " ++
        toString limits.maxComplexity ++
        ". Request fewer fields, or lower the \"limit\" of nested lists."⟩
    else .ok (total + cost)

def addFields (limits : Limits) (cost : CollectedField → Except RequestError (Option Int)) :
    List CollectedField → Int → Except RequestError Int
  | [], total => .ok total
  | c :: cs, total => do
    let fieldCost ← cost c
    let total ← addCost limits total fieldCost
    addFields limits cost cs total

/-- The estimated cost of a selection set; the number is the depth left. -/
def walk (doc : DocumentNode) (vars : Variables) (limits : Limits) (max : MaxQueryLimit) :
    Nat → ObjectType → List SelectionNode → Int → Except RequestError Int
  | 0, _, _, _ => .error ⟨.queryTooDeep, "Query depth exceeds the maximum of " ++
      toString limits.maxDepth ++ "."⟩
  | depth + 1, t, selections, pageSize => do
    let fields ← collectFields doc t.text vars selections
    addFields limits (fieldCost max vars (walk doc vars limits max depth) t pageSize) fields 0

def analyse (doc : DocumentNode) (operation : OperationNode) (vars : Variables) (limits : Limits)
    (max : MaxQueryLimit) : Except RequestError Int :=
  walk doc vars limits max limits.maxDepth .query operation.selections DEFAULT_QUERY_LIMIT

/-! ### Execution -/

structure ResponseError where
  message : String
  path : List PathStep
  code : ErrorCode
  deriving DecidableEq, Repr

/-- What became of a piece of a query. A field that fails does not stop the others,
so the errors and the number of completed fields add up either way. -/
structure Outcome (α : Type) where
  result : Except Failure α
  errors : List ResponseError
  fields : Nat

def Outcome.failed {α : Type} (f : Failure) : Outcome α := ⟨.error f, [], 0⟩

def Outcome.returned {α : Type} (a : α) : Outcome α := ⟨.ok a, [], 0⟩

/-- `Promise.all`: of several failures, the first counts. -/
def Outcome.all {α : Type} : List (Outcome α) → Outcome (List α)
  | [] => .returned []
  | o :: os =>
    let rest := Outcome.all os
    ⟨do
      let a ← o.result
      let as ← rest.result
      pure (a :: as), o.errors ++ rest.errors, o.fields + rest.fields⟩

def pathText (path : List PathStep) : String :=
  ".".intercalate (path.map (fun s =>
    match s with
    | .key name => name
    | .index i => toString i))

def toResponseError (f : Failure) (path : List PathStep) : ResponseError :=
  match f with
  | .api e => ⟨e.message, path, .badUserInput⟩
  | .request e => ⟨e.message, path, e.code⟩
  | .field message at_ => ⟨message, at_, .internalError⟩
  | .internal => ⟨"Internal error.", path, .internalError⟩

abbrev Executor :=
  ObjectType → List SelectionNode → Source → List PathStep → Outcome (List (String × JsonValue))

def completeObject (exec : Executor) (base : BaseType) (selections : List SelectionNode)
    (path : List PathStep) (s : Source) : Outcome JsonValue :=
  match base with
  | .scalar => .failed .internal
  | .object o =>
    let r := exec o selections s path
    ⟨r.result.map .obj, r.errors, r.fields⟩

def completeValue (exec : Executor) (type : TypeRef) (value : Raw) (selections : List SelectionNode)
    (path : List PathStep) : Outcome JsonValue :=
  match value with
  | .null | .scalar .null =>
    if type.nonNull then
      .failed (.field ("Cannot return null for non-nullable field \"" ++ pathText path ++ "\".") path)
    else .returned .null
  | .list items =>
    if type.list then
      let r := Outcome.all (items.mapIdx (fun i s =>
        completeObject exec type.base selections (path ++ [.index i]) s))
      ⟨r.result.map .arr, r.errors, r.fields⟩
    else .failed .internal
  | .scalar v =>
    if type.list then .failed (.field ("Expected a list for \"" ++ pathText path ++ "\".") path)
    else .returned v
  | .object s =>
    if type.list then .failed (.field ("Expected a list for \"" ++ pathText path ++ "\".") path)
    else completeObject exec type.base selections path s

/-- A field that failed is null, with an entry in `errors`, or poisons its parent. -/
def settle (type : TypeRef) (path : List PathStep) (o : Outcome JsonValue) : Outcome JsonValue :=
  match o.result with
  | .ok v => ⟨.ok v, o.errors, o.fields + 1⟩
  | .error f =>
    if type.nonNull then ⟨.error f, o.errors, o.fields + 1⟩
    else ⟨.ok .null, o.errors ++ [toResponseError f path], o.fields + 1⟩

def executeField (ctx : Context) (vars : Variables) (exec : Executor) (t : ObjectType)
    (source : Source) (path : List PathStep) (c : CollectedField) : Outcome JsonValue :=
  if c.name = "__typename" then ⟨.ok (.str t.text), [], 1⟩
  else
    match fieldDef t c.name with
    | none => ⟨.error .internal, [], 1⟩
    | some def_ =>
      let fieldPath := path ++ [.key c.responseKey]
      settle def_.type fieldPath
        (match (resolveArgs (fieldLabel t c.name) def_.args c.args vars).mapError .request with
        | .error f => .failed f
        | .ok args =>
          match resolve ctx t c.name source args with
          | .error f => .failed f
          | .ok raw => completeValue exec def_.type raw c.selections fieldPath)

def executeSelection (ctx : Context) (doc : DocumentNode) (vars : Variables) : Nat → Executor
  | 0, _, _, _, _ => .failed .internal
  | depth + 1, t, selections, source, path =>
    match collectFields doc t.text vars selections with
    | .error e => .failed (.request e)
    | .ok fields =>
      let r := Outcome.all (fields.map
        (executeField ctx vars (executeSelection ctx doc vars depth) t source path))
      ⟨r.result.map (fun values => (fields.map CollectedField.responseKey).zip values),
        r.errors, r.fields⟩

/-! ### A request -/

def chooseOperation (doc : DocumentNode) (operationName : Option String) :
    Except RequestError OperationNode :=
  match operationName.filter (fun n => n != "") with
  | some name =>
    match doc.operations.find? (fun op => op.name == some name) with
    | some op => .ok op
    | none => .error (invalid ("Unknown operation \"" ++ name ++ "\"."))
  | none =>
    match doc.operations with
    | [op] => .ok op
    | _ => .error (invalid "The document has several operations; pass \"operationName\".")

def OperationType.text : OperationType → String
  | .query => "query"
  | .mutation => "mutation"
  | .subscription => "subscription"

def assertQuery (op : OperationNode) : Except RequestError Unit :=
  if op.operation = .query then .ok ()
  else .error (invalid ("This endpoint is read-only: " ++ op.operation.text ++ "s are not supported."))

def coerceDefinitions (given : Variables) :
    List VariableDefinition → Variables → Except RequestError Variables
  | [], vars => .ok vars
  | d :: ds, vars =>
    let vars : Variables :=
      if given.has d.name then (d.name, given.read d.name) :: vars
      else
        match d.defaultValue with
        | some node => (d.name, valueOf [] node) :: vars
        | none => vars
    match vars.read d.name, d.nonNull with
    | .undefined, true | .null, true =>
      .error ⟨.badUserInput, "Variable \"$" ++ d.name ++ "\" of type \"" ++ d.type ++ "\" is required."⟩
    | _, _ => coerceDefinitions given ds vars

def coerceVariables (op : OperationNode) (provided : JsValue) : Except RequestError Variables :=
  match provided with
  | .undefined | .null => coerceDefinitions [] op.variables []
  | .object given => coerceDefinitions given op.variables []
  | _ => .error ⟨.badUserInput, "\"variables\" must be a JSON object."⟩

structure Request where
  document : DocumentNode
  operationName : Option String
  provided : JsValue

/-- Everything that can be rejected is rejected here, before the store is touched. -/
def prepare (limits : Limits) (max : MaxQueryLimit) (r : Request) :
    Except RequestError (OperationNode × Variables) := do
  let op ← chooseOperation r.document r.operationName
  assertQuery op
  let vars ← coerceVariables op r.provided
  let _ ← analyse r.document op vars limits max
  pure (op, vars)

structure Response where
  status : Nat
  data : Option JsonValue
  errors : List ResponseError

def badRequest (e : RequestError) : Response := ⟨400, none, [⟨e.message, [], e.code⟩]⟩

def thrown : Response := ⟨500, none, []⟩

def executeRequest (limits : Limits) (ctx : Context) (r : Request) : Response :=
  match prepare limits ctx.max r with
  | .error e => if e.code = .internalError then thrown else badRequest e
  | .ok (op, vars) =>
    let o := executeSelection ctx r.document vars limits.maxDepth .query op.selections .root []
    match o.result with
    | .ok fields => ⟨200, some (.obj fields), o.errors⟩
    | .error f => ⟨200, some .null, o.errors ++ [toResponseError f []]⟩

end SorobanLens.GraphQL
