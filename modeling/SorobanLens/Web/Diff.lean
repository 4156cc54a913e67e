import SorobanLens.Lib.JsonPath

/-!
The structural diff the web app shows of two events. A property read on an
object also finds what `Object.prototype` has, so the right side of a
comparison can be something that is no JSON value.
-/

set_option autoImplicit false

namespace SorobanLens.Web

variable {ν : Type}

open Json (OBJECT_PROTOTYPE)

inductive JsValue (ν : Type) where
  | json (v : Json ν)
  /-- `Object.prototype` itself, which is what `obj.__proto__` reads. -/
  | prototype
  /-- A function of `Object.prototype`. -/
  | method (name : String)

def JsValue.keys : JsValue ν → List String
  | .json (.obj fields) => fields.map Prod.fst
  | _ => []

def JsValue.isPlainObject : JsValue ν → Bool
  | .json (.obj _) => true
  | .prototype => true
  | _ => false

def inherited (key : String) : JsValue ν := if key = "__proto__" then .prototype else .method key

/-- `obj[key]` where `key in obj`. -/
def JsValue.read : JsValue ν → String → Option (JsValue ν)
  | .json (.obj fields), key =>
    match fields.lookup key with
    | some v => some (.json v)
    | none => if key ∈ OBJECT_PROTOTYPE then some (inherited key) else none
  | .prototype, key =>
    if key = "__proto__" then some (.json .null)
    else if key ∈ OBJECT_PROTOTYPE then some (.method key) else none
  | _, _ => none

/-- `===` on scalars. Arrays and objects of two events are never one reference. -/
def strictEqual [DecidableEq ν] : Json ν → JsValue ν → Bool
  | .null, .json .null => true
  | .bool a, .json (.bool b) => a = b
  | .num a, .json (.num b) => a = b
  | .str a, .json (.str b) => a = b
  | _, _ => false

mutual
/-- The left side is always read off an own key, so it is a JSON value. -/
def deepEqual [DecidableEq ν] : Json ν → JsValue ν → Bool
  | .arr items, .json (.arr others) => items.length = others.length && everyItem items others
  | .obj fields, right =>
    right.isPlainObject && fields.length = right.keys.length && everyField fields right
  | left, right => strictEqual left right

def everyItem [DecidableEq ν] : List (Json ν) → List (Json ν) → Bool
  | item :: items, other :: others => deepEqual item (.json other) && everyItem items others
  | _, _ => true

def everyField [DecidableEq ν] : List (String × Json ν) → JsValue ν → Bool
  | [], _ => true
  | (key, v) :: fields, right =>
    (match right.read key with
      | some w => deepEqual v w
      | none => false) && everyField fields right
end

inductive DiffStatus where
  | same
  | changed
  | added
  | removed
  deriving DecidableEq, Repr

/-- A node with a payload, or one with children; no node has both. -/
inductive DiffNode (ν : Type) where
  | leaf (path : String) (status : DiffStatus) (left right : Option (JsValue ν))
  | branch (path : String) (status : DiffStatus) (children : List (DiffNode ν))

def DiffNode.path : DiffNode ν → String
  | .leaf path _ _ _ => path
  | .branch path _ _ => path

def DiffNode.status : DiffNode ν → DiffStatus
  | .leaf _ status _ _ => status
  | .branch _ status _ => status

def removedNode (path : String) (left : Json ν) : DiffNode ν :=
  .leaf path .removed (some (.json left)) none

def addedNode (path : String) (right : Json ν) : DiffNode ν :=
  .leaf path .added none (some (.json right))

def itemPath (path : String) (i : Nat) : String := path ++ "[" ++ toString i ++ "]"

def keyPath (path key : String) : String := path ++ "." ++ key

def addedItems (path : String) : Nat → List (Json ν) → List (DiffNode ν)
  | _, [] => []
  | i, other :: others => addedNode (itemPath path i) other :: addedItems path (i + 1) others

/-- The right side's keys that are not `in` the left side. -/
def addedFields (path : String) (left : List (String × Json ν)) :
    JsValue ν → List (DiffNode ν)
  | .json (.obj others) =>
    (others.filter (fun f => ((JsValue.json (.obj left)).read f.1).isNone)).map
      (fun f => addedNode (keyPath path f.1) f.2)
  | _ => []

mutual
def diffValues [DecidableEq ν] (left : Json ν) (right : JsValue ν) (path : String) : DiffNode ν :=
  if deepEqual left right then .leaf path .same (some (.json left)) (some right)
  else
    match left, right with
    | .arr items, .json (.arr others) => .branch path .changed (diffItems items others path 0)
    | .obj fields, right =>
      if right.isPlainObject then
        .branch path .changed (diffFields fields right path ++ addedFields path fields right)
      else .leaf path .changed (some (.json (.obj fields))) (some right)
    | left, right => .leaf path .changed (some (.json left)) (some right)

def diffItems [DecidableEq ν] : List (Json ν) → List (Json ν) → String → Nat → List (DiffNode ν)
  | [], others, path, i => addedItems path i others
  | item :: items, [], path, i =>
    removedNode (itemPath path i) item :: diffItems items [] path (i + 1)
  | item :: items, other :: others, path, i =>
    diffValues item (.json other) (itemPath path i) :: diffItems items others path (i + 1)

def diffFields [DecidableEq ν] :
    List (String × Json ν) → JsValue ν → String → List (DiffNode ν)
  | [], _, _ => []
  | (key, v) :: fields, right, path =>
    (match right.read key with
      | none => removedNode (keyPath path key) v
      | some w => diffValues v w (keyPath path key)) :: diffFields fields right path
end

/-! ### Events -/

structure DecodedValue (ν : Type) where
  type : String
  value : Json.Parsed ν

structure TypedField (ν : Type) where
  name : String
  type : String
  value : Json.Parsed ν

structure TypedEvent (ν : Type) where
  name : String
  fields : List (TypedField ν)

structure LensEvent (ν : Type) where
  topics : List (DecodedValue ν)
  value : DecodedValue ν
  typed : Option (TypedEvent ν)

structure EventDiff (ν : Type) where
  topics : List (DiffNode ν)
  value : DiffNode ν
  typedFields : Option (List (DiffNode ν))

def DecodedValue.json (decoded : DecodedValue ν) : Json ν :=
  .obj [("type", .str decoded.type), ("value", decoded.value.1)]

def topicPath (i : Nat) : String := "topic[" ++ toString i ++ "]"

def diffTopic [DecidableEq ν] (path : String) :
    Option (DecodedValue ν) → Option (DecodedValue ν) → DiffNode ν
  | none, r => .leaf path .added none (r.map (fun r => .json r.json))
  | some l, none => .leaf path .removed (some (.json l.json)) none
  | some l, some r =>
    if l.type = r.type then diffValues l.value.1 (.json r.value.1) path
    else .leaf path .changed (some (.json l.json)) (some (.json r.json))

def diffTopics [DecidableEq ν] (left right : List (DecodedValue ν)) : List (DiffNode ν) :=
  (List.range (max left.length right.length)).map (fun i => diffTopic (topicPath i) left[i]? right[i]?)

/-- `new Map(fields.map((f) => [f.name, f])).get(name)`: of two fields with one
name the later is kept. -/
def fieldNamed (fields : List (TypedField ν)) (name : String) : Option (TypedField ν) :=
  fields.reverse.find? (fun f => f.name = name)

def fieldPath (name : String) : String := "field." ++ name

def diffField [DecidableEq ν] (field : TypedField ν) (other : Option (TypedField ν)) : DiffNode ν :=
  match other with
  | none => removedNode (fieldPath field.name) field.value.1
  | some other =>
    if other.type = field.type then
      diffValues field.value.1 (.json other.value.1) (fieldPath field.name)
    else
      .leaf (fieldPath field.name) .changed (some (.json field.value.1)) (some (.json other.value.1))

def diffNames (left right : TypedEvent ν) : List (DiffNode ν) :=
  if left.name = right.name then []
  else [.leaf "event" .changed (some (.json (.str left.name))) (some (.json (.str right.name)))]

def diffTypedFields [DecidableEq ν] (left right : TypedEvent ν) : List (DiffNode ν) :=
  diffNames left right ++
    left.fields.map (fun field => diffField field (fieldNamed right.fields field.name)) ++
    (right.fields.filter (fun field => left.fields.all (fun f => f.name ≠ field.name))).map
      (fun field => addedNode (fieldPath field.name) field.value.1)

def diffEvents [DecidableEq ν] (left right : LensEvent ν) : EventDiff ν where
  topics := diffTopics left.topics right.topics
  value := diffValues left.value.value.1 (.json right.value.value.1) "value"
  typedFields :=
    match left.typed, right.typed with
    | some l, some r => some (diffTypedFields l r)
    | _, _ => none

end SorobanLens.Web
