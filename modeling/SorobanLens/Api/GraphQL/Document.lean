import SorobanLens.Api.Params
import SorobanLens.Lib.JsonPath

/-!
GraphQL documents after parsing: values and variables, arguments, directives,
and the fields a selection set collects once fragments are spread.
-/

set_option autoImplicit false

namespace SorobanLens.GraphQL

open SorobanLens
open Json (OBJECT_PROTOTYPE)

inductive ErrorCode where
  | parseFailed
  | validationFailed
  | badUserInput
  | queryTooDeep
  | queryTooComplex
  | queryTooLarge
  | internalError
  deriving DecidableEq, Repr

structure RequestError where
  code : ErrorCode
  message : String
  deriving DecidableEq, Repr

def invalid (message : String) : RequestError := ⟨.validationFailed, message⟩

/-! ### Values -/

inductive JsValue where
  | undefined
  | null
  | boolean (b : Bool)
  | number (n : JsNumber)
  | string (s : String)
  | array (items : List JsValue)
  | object (fields : List (String × JsValue))
  /-- What a plain object has of `Object.prototype`: a function, or that object itself. -/
  | inherited

inductive ValueNode where
  | «variable» (name : String)
  | int (value : JsNumber)
  | float (value : JsNumber)
  | string (value : String)
  | boolean (value : Bool)
  | enum (value : String)
  | null
  | list (items : List ValueNode)
  | object (fields : List (String × ValueNode))

/-- The properties of a plain object, the last one set first. A property named
`__proto__` is not set apart. -/
abbrev Variables := List (String × JsValue)

def Variables.read (vars : Variables) (name : String) : JsValue :=
  (vars.lookup name).getD (if name ∈ OBJECT_PROTOTYPE then .inherited else .undefined)

/-- `name in vars` -/
def Variables.has (vars : Variables) (name : String) : Bool :=
  (vars.lookup name).isSome || OBJECT_PROTOTYPE.contains name

mutual
def valueOf (vars : Variables) : ValueNode → JsValue
  | .variable name => vars.read name
  | .int value | .float value => .number value
  | .string value | .enum value => .string value
  | .boolean value => .boolean value
  | .null => .null
  | .list items => .array (valueOfItems vars items)
  | .object fields => .object (valueOfFields vars fields)

def valueOfItems (vars : Variables) : List ValueNode → List JsValue
  | [] => []
  | v :: vs => valueOf vars v :: valueOfItems vars vs

def valueOfFields (vars : Variables) : List (String × ValueNode) → List (String × JsValue)
  | [] => []
  | (k, v) :: fs => (k, valueOf vars v) :: valueOfFields vars fs
end

/-! ### Arguments -/

inductive ArgType where
  | string
  | int
  | boolean
  | strings
  | order
  deriving DecidableEq, Repr

structure ArgDef where
  type : ArgType
  required : Bool := false
  deriving DecidableEq, Repr

abbrev Args := List (String × JsValue)

def Args.get (args : Args) (name : String) : JsValue := (args.lookup name).getD .undefined

def isNullableString : JsValue → Bool
  | .null | .string _ => true
  | _ => false

def coerceArg (field name : String) (def_ : ArgDef) (raw : JsValue) : Except RequestError JsValue :=
  let bad (expected : String) : Except RequestError JsValue :=
    .error ⟨.badUserInput, "Argument \"" ++ name ++ "\" of \"" ++ field ++ "\" must be " ++ expected ++ "."⟩
  match def_.type, raw with
  | _, .null => if def_.required then bad "non-null" else .ok .null
  | .string, .string s => .ok (.string s)
  | .string, _ => bad "a String"
  | .int, .number n => if n.isInteger then .ok (.number n) else bad "an Int"
  | .int, _ => bad "an Int"
  | .boolean, .boolean b => .ok (.boolean b)
  | .boolean, _ => bad "a Boolean"
  | .order, .string s => if s = "asc" ∨ s = "desc" then .ok (.string s) else bad "\"asc\" or \"desc\""
  | .order, _ => bad "\"asc\" or \"desc\""
  | .strings, .array items =>
    if items.all isNullableString then .ok (.array items) else bad "a list of Strings"
  | .strings, v => if isNullableString v then .ok (.array [v]) else bad "a list of Strings"

def resolveDeclared (field : String) (given : List (String × ValueNode)) (vars : Variables) :
    List (String × ArgDef) → Except RequestError Args
  | [] => .ok []
  | (name, argDef) :: rest =>
    match ((given.lookup name).map (valueOf vars)).getD .undefined with
    | .undefined =>
      if argDef.required then
        .error ⟨.badUserInput, "Argument \"" ++ name ++ "\" of \"" ++ field ++ "\" is required."⟩
      else resolveDeclared field given vars rest
    | raw => do
      let value ← coerceArg field name argDef raw
      let args ← resolveDeclared field given vars rest
      pure ((name, value) :: args)

def resolveArgs (field : String) (declared : List (String × ArgDef))
    (given : List (String × ValueNode)) (vars : Variables) : Except RequestError Args :=
  match given.find? (fun g => !declared.any (fun d => d.1 == g.1)) with
  | some g => .error (invalid ("Unknown argument \"" ++ g.1 ++ "\" on field \"" ++ field ++ "\"."))
  | none => resolveDeclared field given vars declared

/-! ### Selections -/

structure DirectiveNode where
  name : String
  args : List (String × ValueNode)

inductive SelectionNode where
  | field («alias» : Option String) (name : String) (args : List (String × ValueNode))
      (directives : List DirectiveNode) (selections : List SelectionNode)
  | spread (name : String) (directives : List DirectiveNode)
  | inline (typeCondition : Option String) (directives : List DirectiveNode)
      (selections : List SelectionNode)

def SelectionNode.directives : SelectionNode → List DirectiveNode
  | .field _ _ _ directives _ | .spread _ directives | .inline _ directives _ => directives

structure FragmentNode where
  name : String
  typeCondition : String
  selections : List SelectionNode

inductive OperationType where
  | query
  | mutation
  | subscription
  deriving DecidableEq, Repr

structure VariableDefinition where
  name : String
  type : String
  nonNull : Bool
  defaultValue : Option ValueNode

structure OperationNode where
  operation : OperationType
  name : Option String
  «variables» : List VariableDefinition
  selections : List SelectionNode

structure DocumentNode where
  operations : List OperationNode
  fragments : List FragmentNode

def DocumentNode.fragment (doc : DocumentNode) (name : String) : Option FragmentNode :=
  doc.fragments.find? (fun f => f.name == name)

/-- `@skip` and `@include`: whether a selection stays. -/
def included (vars : Variables) : List DirectiveNode → Except RequestError Bool
  | [] => .ok true
  | d :: ds =>
    if d.name ≠ "skip" ∧ d.name ≠ "include" then
      .error (invalid ("Unknown directive \"@" ++ d.name ++ "\"."))
    else
      match ((d.args.lookup "if").map (valueOf vars)).getD .undefined with
      | .boolean value =>
        if d.name = "skip" ∧ value = true then .ok false
        else if d.name = "include" ∧ value = false then .ok false
        else included vars ds
      | _ => .error (invalid ("Directive \"@" ++ d.name ++ "\" requires a Boolean \"if\" argument."))

/-- One response key: the first field of that key, and the sub-selections of all
its occurrences. -/
structure CollectedField where
  responseKey : String
  name : String
  args : List (String × ValueNode)
  selections : List SelectionNode

def addField (responseKey name : String) (args : List (String × ValueNode))
    (selections : List SelectionNode) : List CollectedField → Except RequestError (List CollectedField)
  | [] => .ok [⟨responseKey, name, args, selections⟩]
  | c :: cs =>
    if c.responseKey = responseKey then
      if c.name = name then .ok ({ c with selections := c.selections ++ selections } :: cs)
      else .error (invalid ("Fields \"" ++ responseKey ++ "\" conflict: \"" ++ c.name ++ "\" and \"" ++
        name ++ "\"."))
    else (addField responseKey name args selections cs).map (fun rest => c :: rest)

abbrev Spreader := String → List CollectedField → Except RequestError (List CollectedField)

mutual
def collectOne (typeName : String) (vars : Variables) (spread : Spreader) :
    SelectionNode → List CollectedField → Except RequestError (List CollectedField)
  | .field key name args directives selections, into => do
    match ← included vars directives with
    | false => pure into
    | true => addField (key.getD name) name args selections into
  | .spread name directives, into => do
    match ← included vars directives with
    | false => pure into
    | true => spread name into
  | .inline typeCondition directives selections, into => do
    match ← included vars directives with
    | false => pure into
    | true =>
      if typeCondition.any (fun t => t ≠ typeName) then pure into
      else collectAll typeName vars spread selections into

def collectAll (typeName : String) (vars : Variables) (spread : Spreader) :
    List SelectionNode → List CollectedField → Except RequestError (List CollectedField)
  | [], into => .ok into
  | s :: ss, into => do
    let into ← collectOne typeName vars spread s into
    collectAll typeName vars spread ss into
end

/-- Spread a fragment, unless it is being spread already. The number counts the
fragments not being spread: with none left, every fragment would spread itself. -/
def spreadFragment (doc : DocumentNode) (typeName : String) (vars : Variables) :
    Nat → List String → Spreader
  | left, visiting, name, into =>
    match doc.fragment name with
    | none => .error (invalid ("Unknown fragment \"" ++ name ++ "\"."))
    | some fragment =>
      if name ∈ visiting then
        .error (invalid ("Fragment \"" ++ name ++ "\" spreads itself."))
      else if fragment.typeCondition ≠ typeName then .ok into
      else
        match left with
        | 0 => .error (invalid ("Fragment \"" ++ name ++ "\" spreads itself."))
        | left + 1 =>
          collectAll typeName vars (spreadFragment doc typeName vars left (name :: visiting))
            fragment.selections into

def collectFields (doc : DocumentNode) (typeName : String) (vars : Variables)
    (selections : List SelectionNode) : Except RequestError (List CollectedField) :=
  collectAll typeName vars (spreadFragment doc typeName vars doc.fragments.length []) selections []

end SorobanLens.GraphQL
