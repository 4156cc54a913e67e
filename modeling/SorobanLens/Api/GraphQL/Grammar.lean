import SorobanLens.Api.GraphQL.Execute
import SorobanLens.Api.GraphQL.Parser

/-!
The grammar of documents: which tokens stand for which values, selections and
definitions. The parser reads exactly these. The numbers are the levels of nesting
that are left.
-/

set_option autoImplicit false

namespace SorobanLens.GraphQL

open TokenParser
open Json (OBJECT_PROTOTYPE)

variable (number : String → JsNumber)

def named {α : Type} (f : String × List TokenKind × α) : List TokenKind :=
  .name f.1 :: .punct ":" :: f.2.1

inductive LiteralTokens : List TokenKind → ValueNode → Prop where
  | int (text : String) : LiteralTokens [.int text] (.int (number text))
  | float (text : String) : LiteralTokens [.float text] (.float (number text))
  | string (units : List Nat) :
      LiteralTokens [.string units] (.string (String.ofList (Json.joinUnits units)))
  | name (text : String) : LiteralTokens [.name text] (nameValue text)

inductive ValueTokens : Nat → Bool → List TokenKind → ValueNode → Prop where
  | reference {left : Nat} (name : String) :
      ValueTokens left false [.punct "$", .name name] (.variable name)
  | literal {left : Nat} {isConst : Bool} {ks : List TokenKind} {v : ValueNode} :
      LiteralTokens number ks v → ValueTokens left isConst ks v
  | list {left : Nat} {isConst : Bool} {items : List (List TokenKind × ValueNode)} :
      (∀ i ∈ items, ValueTokens left isConst i.1 i.2) →
      ValueTokens (left + 1) isConst (.punct "[" :: (items.flatMap Prod.fst ++ [.punct "]"]))
        (.list (items.map Prod.snd))
  | object {left : Nat} {isConst : Bool} {fields : List (String × List TokenKind × ValueNode)} :
      (∀ f ∈ fields, ValueTokens left isConst f.2.1 f.2.2) →
      ValueTokens (left + 1) isConst (.punct "\x7b" :: (fields.flatMap named ++ [.punct "\x7d"]))
        (.object (fields.foldl (fun o f => setField o f.1 f.2.2) []))

/-- Arguments in parentheses: no name twice, and none that every object inherits. -/
inductive ArgumentTokens (left : Nat) : List TokenKind → List (String × ValueNode) → Prop where
  | absent : ArgumentTokens left [] []
  | present {args : List (String × List TokenKind × ValueNode)} :
      (∀ a ∈ args, ValueTokens number left false a.2.1 a.2.2) → (args.map Prod.fst).Nodup →
      (∀ a ∈ args, a.1 ∉ OBJECT_PROTOTYPE) →
      ArgumentTokens left (.punct "(" :: (args.flatMap named ++ [.punct ")"]))
        (args.map (fun a => (a.1, a.2.2)))

inductive DirectiveTokens (left : Nat) : List TokenKind → DirectiveNode → Prop where
  | mk {name : String} {ks : List TokenKind} {args : List (String × ValueNode)} :
      ArgumentTokens number left ks args →
      DirectiveTokens left (.punct "@" :: .name name :: ks) ⟨name, args⟩

def DirectivesTokens (left : Nat) (ks : List TokenKind) (directives : List DirectiveNode) : Prop :=
  ∃ items : List (List TokenKind × DirectiveNode), (∀ i ∈ items, DirectiveTokens number left i.1 i.2) ∧
    ks = items.flatMap Prod.fst ∧ directives = items.map Prod.snd

inductive ConditionTokens : List TokenKind → Option String → Prop where
  | absent : ConditionTokens [] none
  | present (type : String) : ConditionTokens [.name "on", .name type] (some type)

inductive FieldNameTokens : List TokenKind → Option String × String → Prop where
  | plain (name : String) : FieldNameTokens [.name name] (none, name)
  | aliased (key name : String) : FieldNameTokens [.name key, .punct ":", .name name] (some key, name)

mutual
inductive SelectionTokens : Nat → List TokenKind → SelectionNode → Prop where
  | leaf {left : Nat} {kn ka kd : List TokenKind} {name : Option String × String}
      {args : List (String × ValueNode)} {directives : List DirectiveNode} :
      FieldNameTokens kn name → ArgumentTokens number left ka args →
      DirectivesTokens number left kd directives →
      SelectionTokens left (kn ++ (ka ++ kd)) (.field name.1 name.2 args directives [])
  | node {left : Nat} {kn ka kd ks : List TokenKind} {name : Option String × String}
      {args : List (String × ValueNode)} {directives : List DirectiveNode}
      {selections : List SelectionNode} :
      FieldNameTokens kn name → ArgumentTokens number left ka args →
      DirectivesTokens number left kd directives → SetTokens left ks selections →
      SelectionTokens left (kn ++ (ka ++ (kd ++ ks))) (.field name.1 name.2 args directives selections)
  | spread {left : Nat} {name : String} {kd : List TokenKind} {directives : List DirectiveNode} :
      name ≠ "on" → DirectivesTokens number left kd directives →
      SelectionTokens left (.punct "..." :: .name name :: kd) (.spread name directives)
  | inline {left : Nat} {kc kd ks : List TokenKind} {condition : Option String}
      {directives : List DirectiveNode} {selections : List SelectionNode} :
      ConditionTokens kc condition → DirectivesTokens number left kd directives →
      SetTokens left ks selections →
      SelectionTokens left (.punct "..." :: (kc ++ (kd ++ ks))) (.inline condition directives selections)

inductive SetTokens : Nat → List TokenKind → List SelectionNode → Prop where
  | mk {left : Nat} {items : List (List TokenKind × SelectionNode)} : items ≠ [] →
      (∀ i ∈ items, SelectionTokens left i.1 i.2) →
      SetTokens (left + 1) (.punct "\x7b" :: (items.flatMap Prod.fst ++ [.punct "\x7d"]))
        (items.map Prod.snd)
end

inductive TypeTokens : Nat → List TokenKind → String × Bool → Prop where
  | name {left : Nat} (name : String) : TypeTokens left [.name name] (name, false)
  | list {left : Nat} {ks : List TokenKind} {type : String × Bool} : TypeTokens left ks type →
      TypeTokens (left + 1) (.punct "[" :: (ks ++ [.punct "]"])) ("[" ++ type.1 ++ "]", false)
  | nonNull {left : Nat} {ks : List TokenKind} {text : String} : TypeTokens left ks (text, false) →
      TypeTokens left (ks ++ [.punct "!"]) (text ++ "!", true)

inductive DefaultTokens : List TokenKind → Option ValueNode → Prop where
  | absent : DefaultTokens [] none
  | present {ks : List TokenKind} {v : ValueNode} : ValueTokens number MAX_PARSE_NESTING true ks v →
      DefaultTokens (.punct "=" :: ks) (some v)

/-- A variable; its directives leave no trace. -/
inductive VariableTokens : List TokenKind → VariableDefinition → Prop where
  | mk {name : String} {kt kv kd : List TokenKind} {type : String × Bool} {default : Option ValueNode}
      {directives : List DirectiveNode} :
      TypeTokens MAX_PARSE_NESTING kt type → DefaultTokens number kv default →
      DirectivesTokens number MAX_PARSE_NESTING kd directives →
      VariableTokens (.punct "$" :: .name name :: .punct ":" :: (kt ++ (kv ++ kd)))
        ⟨name, type.1, type.2, default⟩

inductive VariablesTokens : List TokenKind → List VariableDefinition → Prop where
  | absent : VariablesTokens [] []
  | present {items : List (List TokenKind × VariableDefinition)} :
      (∀ i ∈ items, VariableTokens number i.1 i.2) →
      VariablesTokens (.punct "(" :: (items.flatMap Prod.fst ++ [.punct ")"])) (items.map Prod.snd)

inductive Definition where
  | operation (op : OperationNode)
  | fragment (f : FragmentNode)

inductive OperationNameTokens : List TokenKind → Option String → Prop where
  | absent : OperationNameTokens [] none
  | present (name : String) : OperationNameTokens [.name name] (some name)

inductive DefinitionTokens : List TokenKind → Definition → Prop where
  | shorthand {ks : List TokenKind} {selections : List SelectionNode} :
      SetTokens number MAX_PARSE_NESTING ks selections →
      DefinitionTokens ks (.operation ⟨.query, none, [], selections⟩)
  | operation (type : OperationType) {kn kv kd ks : List TokenKind} {name : Option String}
      {vars : List VariableDefinition} {directives : List DirectiveNode}
      {selections : List SelectionNode} :
      OperationNameTokens kn name → VariablesTokens number kv vars →
      DirectivesTokens number MAX_PARSE_NESTING kd directives →
      SetTokens number MAX_PARSE_NESTING ks selections →
      DefinitionTokens (.name type.text :: (kn ++ (kv ++ (kd ++ ks))))
        (.operation ⟨type, name, vars, selections⟩)
  | fragment {name condition : String} {kd ks : List TokenKind} {directives : List DirectiveNode}
      {selections : List SelectionNode} : name ≠ "on" →
      DirectivesTokens number MAX_PARSE_NESTING kd directives →
      SetTokens number MAX_PARSE_NESTING ks selections →
      DefinitionTokens (.name "fragment" :: .name name :: .name "on" :: .name condition :: (kd ++ ks))
        (.fragment ⟨name, condition, selections⟩)

def Definition.operation? : Definition → Option OperationNode
  | .operation op => some op
  | .fragment _ => none

def Definition.fragment? : Definition → Option FragmentNode
  | .operation _ => none
  | .fragment f => some f

inductive DocumentTokens : List TokenKind → DocumentNode → Prop where
  | mk {items : List (List TokenKind × Definition)} :
      (∀ i ∈ items, DefinitionTokens number i.1 i.2) →
      (items.filterMap (fun i => i.2.operation?)) ≠ [] →
      ((items.filterMap (fun i => i.2.fragment?)).map FragmentNode.name).Nodup →
      DocumentTokens (items.flatMap Prod.fst)
        ⟨items.filterMap (fun i => i.2.operation?), items.filterMap (fun i => i.2.fragment?)⟩

end SorobanLens.GraphQL
