import SorobanLens.Web.DiffTree

/-!
The comparison of two events: when every node says "same" of what is the same
in type and value and of nothing else.
-/

set_option autoImplicit false

namespace SorobanLens.Web

open Json (Same)

variable {ν : Type}

def SameDecoded (left right : DecodedValue ν) : Prop :=
  left.type = right.type ∧ Same left.value.1 right.value.1

structure TopicsExact (left right : List (DecodedValue ν)) (nodes : List (DiffNode ν)) : Prop where
  length : nodes.length = max left.length right.length
  same : ∀ (i : Nat) node, nodes[i]? = some node → (node.status = .same ↔
    ∃ l r, left[i]? = some l ∧ right[i]? = some r ∧ SameDecoded l r)
  trees : ∀ (i : Nat) node l r, nodes[i]? = some node → left[i]? = some l → right[i]? = some r →
    l.type = r.type → Determines l.value.1 r.value.1 node

structure FieldExact (field : TypedField ν) (other : Option (TypedField ν)) (node : DiffNode ν) :
    Prop where
  same : node.status = .same ↔
    ∃ g, other = some g ∧ field.type = g.type ∧ Same field.value.1 g.value.1
  trees : ∀ g, other = some g → field.type = g.type → Determines field.value.1 g.value.1 node

def nameNodes (left right : TypedEvent ν) : Nat := if left.name = right.name then 0 else 1

structure TypedExact (left right : TypedEvent ν) (nodes : List (DiffNode ν)) : Prop where
  names : ∀ node ∈ nodes.take (nameNodes left right), node.status = .changed
  fields : ∀ (i : Nat) field, left.fields[i]? = some field →
    ∃ node, nodes[nameNodes left right + i]? = some node ∧
      FieldExact field (fieldNamed right.fields field.name) node
  added : nodes.drop (nameNodes left right + left.fields.length) =
    (right.fields.filter (fun field => left.fields.all (fun f => f.name ≠ field.name))).map
      (fun field => addedNode (fieldPath field.name) field.value.1)

structure EventsExact (left right : LensEvent ν) (diff : EventDiff ν) : Prop where
  topics : TopicsExact left.topics right.topics diff.topics
  value : diff.value.status = .same ↔ SameDecoded left.value right.value
  valueTree : Determines left.value.value.1 right.value.value.1 diff.value
  typed : ∀ l r, left.typed = some l → right.typed = some r →
    ∃ nodes, diff.typedFields = some nodes ∧ TypedExact l r nodes

/-- Every two values compared are aligned, and the events' values, where they are
the same, are of one type. -/
structure Comparable (left right : LensEvent ν) : Prop where
  topics : ∀ (i : Nat) l r, left.topics[i]? = some l → right.topics[i]? = some r → l.type = r.type →
    Aligned l.value.1 r.value.1
  value : Aligned left.value.value.1 right.value.value.1
  types : Same left.value.value.1 right.value.value.1 → left.value.type = right.value.type
  fields : ∀ l r, left.typed = some l → right.typed = some r → ∀ field ∈ l.fields, ∀ g,
    fieldNamed r.fields field.name = some g → field.type = g.type →
      Aligned field.value.1 g.value.1

variable [DecidableEq ν]

theorem getElem_diffTopics {left right : List (DecodedValue ν)} {i : Nat} {node : DiffNode ν}
    (h : (diffTopics left right)[i]? = some node) :
    i < max left.length right.length ∧ node = diffTopic (topicPath i) left[i]? right[i]? := by
  have hi : i < max left.length right.length := by
    simpa [diffTopics] using (List.getElem?_eq_some_iff.mp h).1
  rw [diffTopics, List.getElem?_map, List.getElem?_range hi] at h
  exact ⟨hi, (Option.some.inj h).symm⟩

theorem topics_pair {left right : List (DecodedValue ν)} {i : Nat} {l r : DecodedValue ν}
    (hl : left[i]? = some l) (hr : right[i]? = some r) (htype : l.type = r.type) :
    (diffTopics left right)[i]? = some (diffValues l.value.1 (.json r.value.1) (topicPath i)) := by
  have hi : i < max left.length right.length :=
    lt_max_of_lt_left (List.getElem?_eq_some_iff.mp hl).1
  rw [diffTopics, List.getElem?_map, List.getElem?_range hi, Option.map_some, hl, hr, diffTopic,
    if_pos htype]

theorem topicsExact {left right : List (DecodedValue ν)}
    (h : ∀ (i : Nat) l r, left[i]? = some l → right[i]? = some r → l.type = r.type →
      Aligned l.value.1 r.value.1) : TopicsExact left right (diffTopics left right) := by
  have htree : ∀ (i : Nat) l r, left[i]? = some l → right[i]? = some r → l.type = r.type →
      Determines l.value.1 r.value.1 (diffValues l.value.1 (.json r.value.1) (topicPath i)) :=
    fun i l r hl hr htype => (determines_iff_aligned l.value r.value _).mpr (h i l r hl hr htype)
  constructor
  case length => simp [diffTopics]
  case same =>
    intro i node hnode
    obtain ⟨hi, rfl⟩ := getElem_diffTopics hnode
    cases hl : left[i]? with
    | none => simp [diffTopic, DiffNode.status]
    | some l =>
      cases hr : right[i]? with
      | none => simp [diffTopic, DiffNode.status]
      | some r =>
        by_cases htype : l.type = r.type
        · simp [diffTopic, htype, (htree i l r hl hr htype).status_iff, SameDecoded]
        · simp [diffTopic, htype, DiffNode.status, SameDecoded]
  case trees =>
    intro i node l r hnode hl hr htype
    obtain rfl := Option.some.inj (hnode.symm.trans (topics_pair hl hr htype))
    exact htree i l r hl hr htype

theorem fieldExact {field : TypedField ν} {other : Option (TypedField ν)}
    (h : ∀ g, other = some g → field.type = g.type → Aligned field.value.1 g.value.1) :
    FieldExact field other (diffField field other) := by
  cases other with
  | none => exact ⟨by simp [diffField, removedNode, DiffNode.status], nofun⟩
  | some g =>
    by_cases htype : field.type = g.type
    · have htree := (determines_iff_aligned field.value g.value (fieldPath field.name)).mpr
        (h g rfl htype)
      rw [diffField, if_pos htype.symm]
      refine ⟨?_, ?_⟩
      · simp [htree.status_iff, htype]
      · intro g' hg' _
        cases hg'
        exact htree
    · rw [diffField, if_neg (Ne.symm htype)]
      refine ⟨by simp [DiffNode.status, htype], ?_⟩
      intro g' hg' htype'
      cases hg'
      exact absurd htype' htype

theorem diffField_pair {field g : TypedField ν} (h : field.type = g.type) :
    diffField field (some g) =
      diffValues field.value.1 (.json g.value.1) (fieldPath field.name) := by
  rw [diffField, if_pos h.symm]

omit [DecidableEq ν] in
theorem length_diffNames (left right : TypedEvent ν) :
    (diffNames left right).length = nameNodes left right := by
  unfold diffNames nameNodes
  split <;> rfl

theorem getElem_diffTypedFields {left right : TypedEvent ν} {i : Nat} {field : TypedField ν}
    (h : left.fields[i]? = some field) :
    (diffTypedFields left right)[nameNodes left right + i]? =
      some (diffField field (fieldNamed right.fields field.name)) := by
  have hi : i < left.fields.length := (List.getElem?_eq_some_iff.mp h).1
  rw [diffTypedFields, List.append_assoc, ← length_diffNames,
    List.getElem?_append_right (Nat.le_add_right _ _), Nat.add_sub_cancel_left,
    List.getElem?_append_left (by simpa using hi), List.getElem?_map, h]
  rfl

theorem typedExact {left right : TypedEvent ν}
    (h : ∀ field ∈ left.fields, ∀ g, fieldNamed right.fields field.name = some g →
      field.type = g.type → Aligned field.value.1 g.value.1) :
    TypedExact left right (diffTypedFields left right) := by
  constructor
  case names =>
    intro node hnode
    rw [diffTypedFields, List.append_assoc, ← length_diffNames, List.take_left, diffNames] at hnode
    split at hnode
    · cases hnode
    · obtain rfl := List.mem_singleton.mp hnode
      rfl
  case fields =>
    intro i field hfield
    exact ⟨_, getElem_diffTypedFields hfield, fieldExact (h field (List.mem_of_getElem? hfield))⟩
  case added =>
    have hlength : nameNodes left right + left.fields.length = (diffNames left right ++
        left.fields.map (fun field => diffField field (fieldNamed right.fields field.name))).length := by
      rw [List.length_append, length_diffNames, List.length_map]
    rw [diffTypedFields, hlength, List.drop_left]

/-- The diff of two events is exact just when its values are comparable, and a tree
determines its two values just when they are aligned. -/
theorem diff_exact :
    (∀ left right : LensEvent ν,
      EventsExact left right (diffEvents left right) ↔ Comparable left right) ∧
    ∀ (left right : Json.Parsed ν) (path : String),
      Determines left.1 right.1 (diffValues left.1 (.json right.1) path) ↔
        Aligned left.1 right.1 := by
  refine ⟨?_, determines_iff_aligned⟩
  intro left right
  constructor
  · intro h
    have hvalue := (determines_iff_aligned left.value.value right.value.value "value").mp h.valueTree
    constructor
    case topics =>
      intro i l r hl hr htype
      have htree := h.topics.trees i _ l r (topics_pair hl hr htype) hl hr htype
      exact (determines_iff_aligned l.value r.value _).mp htree
    case value => exact hvalue
    case types =>
      intro hsame
      exact (h.value.mp (h.valueTree.status_iff.mpr hsame)).1
    case fields =>
      intro l r hl hr field hfield g hg htype
      obtain ⟨nodes, hnodes, hexact⟩ := h.typed l r hl hr
      obtain rfl : diffTypedFields l r = nodes := by simpa [diffEvents, hl, hr] using hnodes
      obtain ⟨i, hi⟩ := List.mem_iff_getElem?.mp hfield
      obtain ⟨node, hnode, hfieldExact⟩ := hexact.fields i field hi
      obtain rfl := Option.some.inj ((getElem_diffTypedFields hi).symm.trans hnode)
      have htree := hfieldExact.trees g hg htype
      rw [hg, diffField_pair htype] at htree
      exact (determines_iff_aligned field.value g.value _).mp htree
  · intro h
    have hvalue := (determines_iff_aligned left.value.value right.value.value "value").mpr h.value
    constructor
    case topics => exact topicsExact h.topics
    case value =>
      rw [show (diffEvents left right).value =
        diffValues left.value.value.1 (.json right.value.value.1) "value" from rfl, hvalue.status_iff]
      exact ⟨fun hsame => ⟨h.types hsame, hsame⟩, fun hsame => hsame.2⟩
    case valueTree => exact hvalue
    case typed =>
      intro l r hl hr
      exact ⟨diffTypedFields l r, by simp [diffEvents, hl, hr], typedExact (h.fields l r hl hr)⟩

/-! ### Where it goes wrong -/

def five : Json.Parsed Int := ⟨.num 5, rfl⟩

def fiveAs (type : String) : LensEvent Int where
  topics := []
  value := ⟨type, five⟩
  typed := none

def noMember : Json.Parsed Int := ⟨.obj [], rfl⟩

def ownConstructor : Json.Parsed Int := ⟨.obj [("constructor", .num 5)], rfl⟩

/-- Two types of one number are "same", and a key that only the left side has is not
removed where every object inherits one of that name. -/
theorem type_and_name_lost :
    ¬ EventsExact (fiveAs "u32") (fiveAs "i32") (diffEvents (fiveAs "u32") (fiveAs "i32")) ∧
    ¬ Determines ownConstructor.1 noMember.1
      (diffValues ownConstructor.1 (.json noMember.1) "value") := by
  constructor
  · intro h
    have htype := (h.value.mp (by decide)).1
    simp [fiveAs] at htype
  · intro h
    have haligned := (determines_iff_aligned ownConstructor noMember "value").mp h
    have hname := (haligned.1 "constructor" (by decide)).mp (by decide)
    simp at hname

end SorobanLens.Web
