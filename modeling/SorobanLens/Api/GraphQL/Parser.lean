import SorobanLens.Api.GraphQL.Lexer
import SorobanLens.Lib.JsonPath

/-!
The recursive-descent parser: tokens into a document. Nesting is bounded by the
levels left, so that every function recurses on these; `number` is JavaScript's
`Number` of a literal.
-/

set_option autoImplicit false

namespace SorobanLens.GraphQL

open TokenParser
open Json (OBJECT_PROTOTYPE)

/-- Parser nesting limit, before depth analysis exists. -/
def MAX_PARSE_NESTING : Nat := 64

abbrev Reader := Parser Token RequestError

def tokenAt (ts : List Token) : Token := ts.headD ⟨.eof, 0⟩

def isPunct (value : String) (ts : List Token) : Bool := (tokenAt ts).kind = .punct value

def isName (value : String) (ts : List Token) : Bool := (tokenAt ts).kind = .name value

def isEof (ts : List Token) : Bool := (tokenAt ts).kind = .eof

def advance : Reader Unit := fun ts => .ok ((), ts.tail)

def failHere {α : Type} (message : String) : Reader α :=
  fun ts => .error (parseError message (tokenAt ts).pos)

def failWith {α : Type} (e : RequestError) : Reader α := fun _ => .error e

def expectPunct (value : String) : Reader Unit :=
  ifNext (isPunct value) advance (failHere ("expected \"" ++ value ++ "\""))

def expectName : Reader String := fun ts =>
  match (tokenAt ts).kind with
  | .name value => .ok (value, ts.tail)
  | _ => failHere "expected a name" ts

def tooDeep : RequestError :=
  ⟨.queryTooDeep, "The document nests deeper than " ++ toString MAX_PARSE_NESTING ++ " levels."⟩

/-! ### Values -/

/-- `fields[name] = value` on an object literal: `__proto__` sets no field. -/
def setField (fields : List (String × ValueNode)) (name : String) (value : ValueNode) :
    List (String × ValueNode) :=
  if name = "__proto__" then fields
  else if fields.any (fun f => f.1 == name) then
    fields.map (fun f => if f.1 = name then (name, value) else f)
  else fields ++ [(name, value)]

def nameValue (value : String) : ValueNode :=
  if value = "true" then .boolean true
  else if value = "false" then .boolean false
  else if value = "null" then .null
  else .enum value

def listStep (value : Reader ValueNode) (items : List ValueNode) : Reader (List ValueNode) :=
  ifNext isEof (failHere "unterminated list") ((fun v => items ++ [v]) <$> value)

def objectStep (value : Reader ValueNode) (fields : List (String × ValueNode)) :
    Reader (List (String × ValueNode)) :=
  ifNext isEof (failHere "unterminated object") do
    let name ← expectName
    expectPunct ":"
    let v ← value
    pure (setField fields name v)

def literal (number : String → JsNumber) : Reader ValueNode := fun ts =>
  match (tokenAt ts).kind with
  | .punct value => failHere ("unexpected \"" ++ value ++ "\"") ts
  | .int value => .ok (.int (number value), ts.tail)
  | .float value => .ok (.float (number value), ts.tail)
  | .string value => .ok (.string (String.ofList (Json.joinUnits value)), ts.tail)
  | .name value => .ok (nameValue value, ts.tail)
  | .eof => failHere "expected a value" ts

def variableReference (isConst : Bool) : Reader ValueNode :=
  if isConst then failHere "a default value cannot reference a variable"
  else do
    advance
    let name ← expectName
    pure (.variable name)

def listItems (value : Reader ValueNode) : Reader ValueNode := do
  let items ← repeatWhile stuck (fun ts => !isPunct "]" ts) (listStep value) []
  advance
  pure (.list items)

def objectFields (value : Reader ValueNode) : Reader ValueNode := do
  let fields ← repeatWhile stuck (fun ts => !isPunct "\x7d" ts) (objectStep value) []
  advance
  pure (.object fields)

def valueWith (number : String → JsNumber) (isConst : Bool) (list object : Reader ValueNode) :
    Reader ValueNode :=
  ifNext (isPunct "$") (variableReference isConst)
    (ifNext (isPunct "[") (do advance; list)
      (ifNext (isPunct "\x7b") (do advance; object) (literal number)))

def parseValue (number : String → JsNumber) : Nat → Bool → Reader ValueNode
  | 0, isConst => valueWith number isConst (failWith tooDeep) (failWith tooDeep)
  | left + 1, isConst =>
    valueWith number isConst (listItems (parseValue number left isConst))
      (objectFields (parseValue number left isConst))

/-! ### Arguments and directives -/

/-- One argument; `name in args` also sees what an object inherits. -/
def argumentStep (value : Reader ValueNode) (args : List (String × ValueNode)) :
    Reader (List (String × ValueNode)) := do
  let name ← expectName
  expectPunct ":"
  if args.any (fun a => a.1 == name) ∨ name ∈ OBJECT_PROTOTYPE then
    failHere ("argument \"" ++ name ++ "\" is given more than once")
  else do
    let v ← value
    pure (args ++ [(name, v)])

def parseArguments (value : Reader ValueNode) : Reader (List (String × ValueNode)) := do
  expectPunct "("
  let args ← repeatWhile stuck (fun ts => !isPunct ")" ts) (argumentStep value) []
  expectPunct ")"
  pure args

def optionalArguments (value : Reader ValueNode) : Reader (List (String × ValueNode)) :=
  ifNext (isPunct "(") (parseArguments value) (pure [])

def directiveStep (value : Reader ValueNode) (directives : List DirectiveNode) :
    Reader (List DirectiveNode) := do
  advance
  let name ← expectName
  let args ← optionalArguments value
  pure (directives ++ [⟨name, args⟩])

def parseDirectives (value : Reader ValueNode) : Reader (List DirectiveNode) :=
  repeatWhile stuck (isPunct "@") (directiveStep value) []

/-! ### Selections -/

def typeCondition : Reader (Option String) :=
  ifNext (isName "on") (do
    advance
    let name ← expectName
    pure (some name)) (pure none)

def inlineFragment (value : Reader ValueNode) (set : Reader (List SelectionNode)) :
    Reader SelectionNode := do
  let condition ← typeCondition
  let directives ← parseDirectives value
  let selections ← set
  pure (.inline condition directives selections)

def fragmentSpread (value : Reader ValueNode) : Reader SelectionNode := do
  let name ← expectName
  let directives ← parseDirectives value
  pure (.spread name directives)

/-- The next token is a name, but not `on`. -/
def isFragmentName (ts : List Token) : Bool :=
  match (tokenAt ts).kind with
  | .name value => value ≠ "on"
  | _ => false

def aliasedName : Reader (Option String × String) := do
  let first ← expectName
  ifNext (isPunct ":") (do
    advance
    let name ← expectName
    pure (some first, name)) (pure (none, first))

def fieldSelection (value : Reader ValueNode) (set : Reader (List SelectionNode)) :
    Reader SelectionNode := do
  let name ← aliasedName
  let args ← optionalArguments value
  let directives ← parseDirectives value
  let selections ← ifNext (isPunct "\x7b") set (pure [])
  pure (.field name.1 name.2 args directives selections)

def parseSelection (value : Reader ValueNode) (set : Reader (List SelectionNode)) :
    Reader SelectionNode :=
  ifNext (isPunct "...")
    (do
      advance
      ifNext isFragmentName (fragmentSpread value) (inlineFragment value set))
    (fieldSelection value set)

def selectionStep (selection : Reader SelectionNode) (selections : List SelectionNode) :
    Reader (List SelectionNode) :=
  ifNext isEof (failHere "unexpected end of document, expected \"\x7d\"")
    ((fun s => selections ++ [s]) <$> selection)

def setItems (selection : Reader SelectionNode) : Reader (List SelectionNode) := do
  let selections ← repeatWhile stuck (fun ts => !isPunct "\x7d" ts) (selectionStep selection) []
  advance
  if selections.isEmpty then failHere "a selection set must not be empty" else pure selections

def parseSelectionSet (number : String → JsNumber) : Nat → Reader (List SelectionNode)
  | 0 => do
    expectPunct "\x7b"
    failWith tooDeep
  | left + 1 => do
    expectPunct "\x7b"
    setItems (parseSelection (parseValue number left false) (parseSelectionSet number left))

/-! ### Types and variables -/

def typeWith (list : Reader String) : Reader (String × Bool) := do
  let text ← ifNext (isPunct "[") (do advance; list) expectName
  ifNext (isPunct "!") (do
    advance
    pure (text ++ "!", true)) (pure (text, false))

def listType (type : Reader (String × Bool)) : Reader String := do
  let inner ← type
  expectPunct "]"
  pure ("[" ++ inner.1 ++ "]")

def parseType : Nat → Reader (String × Bool)
  | 0 => typeWith (failWith tooDeep)
  | left + 1 => typeWith (listType (parseType left))

def defaultValue (number : String → JsNumber) : Reader (Option ValueNode) :=
  ifNext (isPunct "=") (do
    advance
    let v ← parseValue number MAX_PARSE_NESTING true
    pure (some v)) (pure none)

def variableStep (number : String → JsNumber) (defs : List VariableDefinition) :
    Reader (List VariableDefinition) := do
  expectPunct "$"
  let name ← expectName
  expectPunct ":"
  let type ← parseType MAX_PARSE_NESTING
  let default ← defaultValue number
  let _ ← parseDirectives (parseValue number MAX_PARSE_NESTING false)
  pure (defs ++ [⟨name, type.1, type.2, default⟩])

def parseVariableDefinitions (number : String → JsNumber) : Reader (List VariableDefinition) := do
  expectPunct "("
  let defs ← repeatWhile stuck (fun ts => !isPunct ")" ts) (variableStep number) []
  expectPunct ")"
  pure defs

/-! ### Documents -/

def addOperation (doc : DocumentNode) (op : OperationNode) : DocumentNode :=
  { doc with operations := doc.operations ++ [op] }

def addFragment (doc : DocumentNode) (fragment : FragmentNode) : DocumentNode :=
  { doc with fragments := doc.fragments ++ [fragment] }

def shorthandQuery (number : String → JsNumber) (doc : DocumentNode) : Reader DocumentNode := do
  let selections ← parseSelectionSet number MAX_PARSE_NESTING
  pure (addOperation doc ⟨.query, none, [], selections⟩)

def fragmentDefinition (number : String → JsNumber) (doc : DocumentNode) : Reader DocumentNode := do
  advance
  let name ← expectName
  if name = "on" then failHere "\"on\" is not a valid fragment name"
  else do
    let on ← expectName
    if on ≠ "on" then failHere "expected \"on\""
    else do
      let condition ← expectName
      let _ ← parseDirectives (parseValue number MAX_PARSE_NESTING false)
      if doc.fragments.any (fun f => f.name == name) then
        failWith (invalid ("Fragment \"" ++ name ++ "\" is defined more than once."))
      else do
        let selections ← parseSelectionSet number MAX_PARSE_NESTING
        pure (addFragment doc ⟨name, condition, selections⟩)

def isAnyName (ts : List Token) : Bool :=
  match (tokenAt ts).kind with
  | .name _ => true
  | _ => false

def operationDefinition (number : String → JsNumber) (type : OperationType) (doc : DocumentNode) :
    Reader DocumentNode := do
  advance
  let name ← ifNext isAnyName (some <$> expectName) (pure none)
  let vars ← ifNext (isPunct "(") (parseVariableDefinitions number) (pure [])
  let _ ← parseDirectives (parseValue number MAX_PARSE_NESTING false)
  let selections ← parseSelectionSet number MAX_PARSE_NESTING
  pure (addOperation doc ⟨type, name, vars, selections⟩)

def definitionStep (number : String → JsNumber) (doc : DocumentNode) : Reader DocumentNode :=
  ifNext (isPunct "\x7b") (shorthandQuery number doc)
    (ifNext (isName "fragment") (fragmentDefinition number doc)
      (ifNext (isName "query") (operationDefinition number .query doc)
        (ifNext (isName "mutation") (operationDefinition number .mutation doc)
          (ifNext (isName "subscription") (operationDefinition number .subscription doc)
            (failHere "expected an operation or a fragment")))))

def documentTokens (number : String → JsNumber) : Reader DocumentNode := do
  let doc ← repeatWhile stuck (fun ts => !isEof ts) (definitionStep number) ⟨[], []⟩
  if doc.operations.isEmpty then failWith ⟨.parseFailed, "The document contains no operation."⟩
  else pure doc

def parseDocument (number : String → JsNumber) (source : List Nat) : Except RequestError DocumentNode :=
  match tokenize source with
  | .error e => .error e
  | .ok tokens =>
    match documentTokens number tokens with
    | .error e => .error e
    | .ok (doc, _) => .ok doc

end SorobanLens.GraphQL
