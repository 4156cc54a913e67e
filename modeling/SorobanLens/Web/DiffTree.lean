import SorobanLens.Web.Diff

/-!
When a diff tree says what the two values are: what each node shows is what
stands at its place on either side, nothing that one side lacks is left out,
and the right value comes out of the left one and the tree. The tree of
`diffValues` does so exactly where no member of `Object.prototype` is a key of
one side only.
-/

set_option autoImplicit false

namespace SorobanLens.Web

open Json (Step Same Canonical OBJECT_PROTOTYPE)

variable {ν : Type}

/-! ### Reading a tree -/

def stepPath (path : String) : Step → String
  | .key name => keyPath path name
  | .index i => itemPath path i

def DiffNode.child : DiffNode ν → Step → Option (DiffNode ν)
  | .branch path _ children, s => children.find? (fun node => node.path = stepPath path s)
  | .leaf .., _ => none

def DiffNode.at : DiffNode ν → List Step → Option (DiffNode ν)
  | node, [] => some node
  | node, s :: p => (node.child s).bind (fun child => child.at p)

/-- The key of a child: its path without the parent's and the dot. -/
def DiffNode.keyUnder (path : String) (node : DiffNode ν) : String :=
  String.ofList (node.path.toList.drop (path.toList.length + 1))

def DiffNode.rightJson : DiffNode ν → Option (Json ν)
  | .leaf _ _ _ (some (.json v)) => some v
  | _ => none

mutual
/-- The right value out of the left one: what is the same is taken over, what
changed or was added is shown by the tree. -/
def DiffNode.replay : DiffNode ν → Json ν → Option (Json ν)
  | .leaf path status l r, left =>
    if status = .same then some left else (DiffNode.leaf path status l r).rightJson
  | .branch _ _ children, .arr items => (replayItems children items).map .arr
  | .branch path _ children, .obj fields => (replayFields path children fields).map .obj
  | .branch .., _ => none

def DiffNode.replayItems : List (DiffNode ν) → List (Json ν) → Option (List (Json ν))
  | [], _ => some []
  | node :: nodes, items =>
    if node.status = .removed then replayItems nodes items.tail
    else if node.status = .added then
      node.rightJson.bind (fun v => (replayItems nodes items).map (v :: ·))
    else
      (items.head?.bind node.replay).bind (fun v => (replayItems nodes items.tail).map (v :: ·))

def DiffNode.replayFields (path : String) :
    List (DiffNode ν) → List (String × Json ν) → Option (List (String × Json ν))
  | [], _ => some []
  | node :: nodes, fields =>
    if node.status = .removed then replayFields path nodes fields
    else
      (if node.status = .added then node.rightJson
        else (fields.lookup (node.keyUnder path)).bind node.replay).bind
        (fun v => (replayFields path nodes fields).map ((node.keyUnder path, v) :: ·))
end

/-- What a node says of what stands at its place on the left and on the right. -/
inductive Shows : Option (Json ν) → Option (Json ν) → DiffNode ν → Prop where
  | removed {path : String} {a : Json ν} : Shows (some a) none (removedNode path a)
  | added {path : String} {b : Json ν} : Shows none (some b) (addedNode path b)
  | same {path : String} {a b : Json ν} (h : Same a b) :
    Shows (some a) (some b) (.leaf path .same (some (.json a)) (some (.json b)))
  | changed {path : String} {a b : Json ν} (h : a.label ≠ b.label) :
    Shows (some a) (some b) (.leaf path .changed (some (.json a)) (some (.json b)))
  | inner {path : String} {children : List (DiffNode ν)} {a b : Json ν} (h : ¬ Same a b)
    (hkind : a.label = b.label) : Shows (some a) (some b) (.branch path .changed children)

/-- Both sides have a value of one kind at `p`, and one of the two alone goes on by `s`. -/
def OneSided (left right : Json ν) (p : List Step) (s : Step) : Prop :=
  ∃ a b, left.get p = some a ∧ right.get p = some b ∧ a.label = b.label ∧
    (a.child s).isSome ≠ (b.child s).isSome

structure Determines (left right : Json ν) (tree : DiffNode ν) : Prop where
  shows : ∀ p node, tree.at p = some node → Shows (left.get p) (right.get p) node
  covers : ∀ p s, OneSided left right p s → (tree.at (p ++ [s])).isSome = true
  replays : ∃ v, tree.replay left = some v ∧ Same v right

mutual
/-- Wherever both values have an object, a name of `Object.prototype` is a key of
both or of neither. -/
def Aligned : Json ν → Json ν → Prop
  | .arr items, .arr others => AlignedItems items others
  | .obj fields, .obj others =>
    (∀ name ∈ OBJECT_PROTOTYPE, name ∈ fields.map Prod.fst ↔ name ∈ others.map Prod.fst) ∧
      AlignedFields fields others
  | _, _ => True

def AlignedItems : List (Json ν) → List (Json ν) → Prop
  | item :: items, other :: others => Aligned item other ∧ AlignedItems items others
  | _, _ => True

def AlignedFields : List (String × Json ν) → List (String × Json ν) → Prop
  | [], _ => True
  | (key, v) :: fields, others =>
    (∀ w, others.lookup key = some w → Aligned v w) ∧ AlignedFields fields others
end

/-! ### What the comparison sees -/

theorem read_own {fields : List (String × Json ν)} {key : String} {w : Json ν}
    (h : fields.lookup key = some w) : (JsValue.json (.obj fields)).read key = some (.json w) := by
  simp [JsValue.read, h]

theorem read_inherited {fields : List (String × Json ν)} {key : String}
    (h : fields.lookup key = none) (hname : key ∈ OBJECT_PROTOTYPE) :
    (JsValue.json (.obj fields)).read key = some (inherited key) := by
  simp [JsValue.read, h, hname]

theorem read_missing {fields : List (String × Json ν)} {key : String}
    (h : fields.lookup key = none) (hname : key ∉ OBJECT_PROTOTYPE) :
    (JsValue.json (.obj fields)).read key = none := by
  simp [JsValue.read, h, hname]

theorem isNone_read {fields : List (String × Json ν)} {key : String} :
    ((JsValue.json (.obj fields)).read key).isNone = true ↔
      fields.lookup key = none ∧ key ∉ OBJECT_PROTOTYPE := by
  cases h : fields.lookup key with
  | some w => simp [read_own h]
  | none =>
    by_cases hname : key ∈ OBJECT_PROTOTYPE
    · simp [read_inherited h hname, hname]
    · simp [read_missing h hname, hname]

theorem read_of_aligned {fields others : List (String × Json ν)}
    (h : ∀ name ∈ OBJECT_PROTOTYPE, name ∈ fields.map Prod.fst ↔ name ∈ others.map Prod.fst)
    {key : String} (hkey : key ∈ fields.map Prod.fst) :
    (JsValue.json (.obj others)).read key = (others.lookup key).map .json := by
  cases hw : others.lookup key with
  | some w => rw [read_own hw]; rfl
  | none =>
    have hnot : key ∉ others.map Prod.fst := by simp [← Json.lookup_isSome_iff_mem, hw]
    exact read_missing hw (fun hname => hnot ((h key hname).mp hkey))

theorem alignedItems_iff {items others : List (Json ν)} :
    AlignedItems items others ↔
      ∀ (i : Nat) a b, items[i]? = some a → others[i]? = some b → Aligned a b := by
  induction items generalizing others with
  | nil => simp [AlignedItems]
  | cons item items ih =>
    cases others with
    | nil => simp [AlignedItems]
    | cons other others =>
      rw [AlignedItems, ih]
      constructor
      · intro h i a b ha hb
        cases i with
        | zero => simp_all
        | succ i => exact h.2 i a b (by simpa using ha) (by simpa using hb)
      · intro h
        exact ⟨h 0 item other rfl rfl, fun i a b ha hb => h (i + 1) a b (by simpa using ha) (by simpa using hb)⟩

theorem alignedFields_iff {fields others : List (String × Json ν)} :
    AlignedFields fields others ↔
      ∀ f ∈ fields, ∀ w, others.lookup f.1 = some w → Aligned f.2 w := by
  induction fields with
  | nil => simp [AlignedFields]
  | cons f fields ih => simp [AlignedFields, ih]

theorem Aligned.child {left right a b : Json ν} (h : Aligned left right) {s : Step}
    (ha : left.child s = some a) (hb : right.child s = some b) : Aligned a b := by
  cases s with
  | index i =>
    cases left <;> cases right <;> simp only [Json.child, reduceCtorEq] at ha hb
    rw [Aligned] at h
    exact alignedItems_iff.mp h i a b ha hb
  | key name =>
    cases left <;> cases right <;> simp only [Json.child, reduceCtorEq] at ha hb
    rw [Aligned] at h
    exact alignedFields_iff.mp h.2 _ (Json.mem_of_lookup ha) b hb

theorem canonical_child {v w : Json ν} (h : Canonical v) {s : Step} (hw : v.child s = some w) :
    Canonical w := by
  cases s with
  | index i =>
    cases v <;> simp only [Json.child, reduceCtorEq] at hw
    exact h.item (List.mem_of_getElem? hw)
  | key name =>
    cases v <;> simp only [Json.child, reduceCtorEq] at hw
    exact h.field (Json.mem_of_lookup hw)

theorem length_eq_of_names {fields others : List (String × Json ν)}
    (hfields : (fields.map Prod.fst).Nodup) (hothers : (others.map Prod.fst).Nodup)
    (h : ∀ name, name ∈ fields.map Prod.fst ↔ name ∈ others.map Prod.fst) :
    fields.length = others.length := by
  have hperm := (List.perm_ext_iff_of_nodup hfields hothers).mpr h
  simpa using hperm.length_eq

theorem names_of_same {fields others : List (String × Json ν)}
    (h : Same (.obj fields) (.obj others)) (name : String) :
    name ∈ fields.map Prod.fst ↔ name ∈ others.map Prod.fst := by
  have hname := Json.same_obj_iff.mp h name
  rw [← Json.lookup_isSome_iff_mem, ← Json.lookup_isSome_iff_mem]
  generalize fields.lookup name = a, others.lookup name = b at hname
  cases hname <;> simp

theorem aligned_of_same {left right : Json ν} (hleft : Canonical left) (h : Same left right) :
    Aligned left right := by
  induction left using Json.induction_mem generalizing right with
  | null | bool | num | str => cases right <;> trivial
  | arr items ih =>
    cases right with
    | arr others =>
      rw [Aligned, alignedItems_iff]
      intro i a b ha hb
      have hsame := (Json.same_iff.mp h).2 (.index i)
      simp only [Json.child, ha, hb] at hsame
      have hmem := List.mem_of_getElem? ha
      cases hsame with
      | some hab => exact ih a hmem (hleft.item hmem) hab
    | null | bool | num | str | obj => trivial
  | obj fields ih =>
    cases right with
    | obj others =>
      have hkeys := Json.same_obj_iff.mp h
      rw [Aligned, alignedFields_iff]
      constructor
      · intro name _
        exact names_of_same h name
      · intro f hf w hw
        have hname := hkeys f.1
        rw [(Json.lookup_eq_some_iff_mem hleft.nodup).mpr hf, hw] at hname
        cases hname with
        | some hsame => exact ih f hf (hleft.field hf) hsame
    | null | bool | num | str | arr => trivial

variable [DecidableEq ν]

theorem everyItem_iff {items others : List (Json ν)} (h : items.length = others.length) :
    everyItem items others = true ↔
      List.Forall₂ (fun a b => deepEqual a (.json b) = true) items others := by
  induction items generalizing others with
  | nil =>
    cases others with
    | nil => simp [everyItem]
    | cons other others => simp at h
  | cons item items ih =>
    cases others with
    | nil => simp at h
    | cons other others => simp [everyItem, ih (by simpa using h)]

theorem everyField_iff {fields : List (String × Json ν)} {right : JsValue ν} :
    everyField fields right = true ↔
      ∀ f ∈ fields, ∃ w, right.read f.1 = some w ∧ deepEqual f.2 w = true := by
  induction fields with
  | nil => simp [everyField]
  | cons f fields ih =>
    obtain ⟨key, v⟩ := f
    rw [everyField, Bool.and_eq_true, ih, List.forall_mem_cons]
    refine and_congr ?_ Iff.rfl
    cases right.read key with
    | none => simp
    | some w => simp

theorem deepEqual_arr {items others : List (Json ν)} :
    deepEqual (.arr items) (.json (.arr others)) = true ↔
      List.Forall₂ (fun a b => deepEqual a (.json b) = true) items others := by
  rw [deepEqual, Bool.and_eq_true, decide_eq_true_eq]
  constructor
  · intro ⟨hlength, h⟩
    exact (everyItem_iff hlength).mp h
  · intro h
    exact ⟨h.length_eq, (everyItem_iff h.length_eq).mpr h⟩

theorem deepEqual_obj {fields others : List (String × Json ν)} :
    deepEqual (.obj fields) (.json (.obj others)) = true ↔ fields.length = others.length ∧
      ∀ f ∈ fields, ∃ w, (JsValue.json (.obj others)).read f.1 = some w ∧ deepEqual f.2 w = true := by
  simp [deepEqual, JsValue.isPlainObject, JsValue.keys, everyField_iff]

theorem deepEqual_of_same {left right : Json ν} (hleft : Canonical left) (hright : Canonical right)
    (h : Same left right) : deepEqual left (.json right) = true := by
  induction left using Json.induction_mem generalizing right with
  | null | bool | num | str =>
    have hlabel := h.label_eq
    cases right <;> simp_all [Json.label, deepEqual, strictEqual]
  | arr items ih =>
    have hlabel := h.label_eq
    cases right with
    | arr others =>
      refine deepEqual_arr.mpr ?_
      have hsame := Json.same_arr_iff.mp h
      refine List.forall₂_iff_get.mpr ⟨hsame.length_eq, ?_⟩
      intro i hi hi'
      exact ih _ (List.get_mem _ _) (hleft.item (List.get_mem _ _)) (hright.item (List.get_mem _ _))
        (hsame.get hi hi')
    | null | bool | num | str | obj => cases hlabel
  | obj fields ih =>
    have hlabel := h.label_eq
    cases right with
    | obj others =>
      refine deepEqual_obj.mpr ⟨length_eq_of_names hleft.nodup hright.nodup (names_of_same h), ?_⟩
      intro f hf
      have hname := Json.same_obj_iff.mp h f.1
      rw [(Json.lookup_eq_some_iff_mem hleft.nodup).mpr hf] at hname
      generalize hw : others.lookup f.1 = b at hname
      cases hname with
      | some hsame =>
        exact ⟨_, read_own hw, ih f hf (hleft.field hf) (hright.field (Json.mem_of_lookup hw)) hsame⟩
    | null | bool | num | str | arr => cases hlabel

theorem same_of_deepEqual {left right : Json ν} (hleft : Canonical left) (hright : Canonical right)
    (h : Aligned left right) (heq : deepEqual left (.json right) = true) : Same left right := by
  induction left using Json.induction_mem generalizing right with
  | null | bool | num | str =>
    cases right <;> simp [deepEqual, strictEqual] at heq
    all_goals first | exact Same.refl _ | (subst heq; exact Same.refl _)
  | arr items ih =>
    cases right with
    | arr others =>
      rw [Aligned, alignedItems_iff] at h
      have hall := deepEqual_arr.mp heq
      refine Json.same_arr_iff.mpr (List.forall₂_iff_get.mpr ⟨hall.length_eq, ?_⟩)
      intro i hi hi'
      exact ih _ (List.get_mem _ _) (hleft.item (List.get_mem _ _)) (hright.item (List.get_mem _ _))
        (h i _ _ (List.getElem?_eq_getElem hi) (List.getElem?_eq_getElem hi')) (hall.get hi hi')
    | null | bool | num | str | obj => simp [deepEqual, strictEqual] at heq
  | obj fields ih =>
    cases right with
    | obj others =>
      rw [Aligned, alignedFields_iff] at h
      obtain ⟨hlength, hall⟩ := deepEqual_obj.mp heq
      have hown : ∀ f ∈ fields, ∃ w, others.lookup f.1 = some w ∧ Same f.2 w := by
        intro f hf
        obtain ⟨w, hw, hequal⟩ := hall f hf
        rw [read_of_aligned h.1 (List.mem_map_of_mem hf), Option.map_eq_some_iff] at hw
        obtain ⟨b, hb, rfl⟩ := hw
        exact ⟨b, hb, ih f hf (hleft.field hf) (hright.field (Json.mem_of_lookup hb)) (h.2 f hf b hb) hequal⟩
      -- As many distinct keys, all of them found on the right: no key is left over there.
      have hsub : (fields.map Prod.fst) ⊆ others.map Prod.fst := by
        intro key hkey
        obtain ⟨f, hf, rfl⟩ := List.mem_map.mp hkey
        obtain ⟨w, hw, -⟩ := hown f hf
        exact Json.lookup_isSome_iff_mem.mp (by simp [hw])
      have hback : (others.map Prod.fst) ⊆ fields.map Prod.fst :=
        (List.subperm_of_subset hleft.nodup hsub).perm_of_length_le (by simp [hlength]) |>.symm.subset
      refine Json.same_obj_iff.mpr ?_
      intro key
      cases ha : fields.lookup key with
      | some a =>
        obtain ⟨w, hw, hsame⟩ := hown _ (Json.mem_of_lookup ha)
        rw [hw]
        exact .some hsame
      | none =>
        have hnot : key ∉ fields.map Prod.fst := by simp [← Json.lookup_isSome_iff_mem, ha]
        have hnone : others.lookup key = none := by
          cases hb : others.lookup key with
          | none => rfl
          | some b => exact absurd (hback (Json.lookup_isSome_iff_mem.mp (by simp [hb]))) hnot
        rw [hnone]
        exact .none
    | null | bool | num | str | arr => simp [deepEqual, JsValue.isPlainObject] at heq

/-! ### The shape of a tree -/

theorem path_diffValues (left : Json ν) (right : JsValue ν) (path : String) :
    (diffValues left right path).path = path := by
  unfold diffValues
  split
  · rfl
  · split <;> first | rfl | (split <;> rfl)

theorem status_diffValues (left : Json ν) (right : JsValue ν) (path : String) :
    (diffValues left right path).status = if deepEqual left right then .same else .changed := by
  unfold diffValues
  by_cases h : deepEqual left right = true
  · simp [h, DiffNode.status]
  · simp only [h, if_false, Bool.false_eq_true]
    split <;> first | rfl | (split <;> rfl)

omit [DecidableEq ν] in
theorem itemPath_inj {path : String} {i j : Nat} : itemPath path i = itemPath path j ↔ i = j := by
  constructor
  · intro h
    have htext : Nat.toDigits 10 i = Nat.toDigits 10 j := by
      simpa [itemPath, ← String.toList_inj, ToString.toString, Nat.repr] using h
    have hvalue := congrArg (fun text => Nat.ofDigitChars 10 text 0) htext
    simpa using hvalue
  · intro h
    rw [h]

omit [DecidableEq ν] in
theorem keyPath_inj {path k k' : String} : keyPath path k = keyPath path k' ↔ k = k' := by
  simp [keyPath, ← String.toList_inj]

omit [DecidableEq ν] in
theorem itemPath_ne_keyPath (path : String) (i : Nat) (key : String) :
    itemPath path i ≠ keyPath path key := by
  intro h
  have htext : '[' :: ((toString i).toList ++ [']']) = '.' :: key.toList := by
    simp [itemPath, keyPath, ← String.toList_inj] at h
  cases htext

omit [DecidableEq ν] in
theorem keyUnder_keyPath {path key : String} {node : DiffNode ν} (h : node.path = keyPath path key) :
    node.keyUnder path = key := by
  have hlength : path.toList.length + 1 = (path.toList ++ ['.']).length := by simp
  have htext : node.path.toList = (path.toList ++ ['.']) ++ key.toList := by simp [h, keyPath]
  rw [DiffNode.keyUnder, htext, hlength, List.drop_left, String.ofList_toList]

def nodeAt (path : String) : Option (Json ν) → Option (Json ν) → Option (DiffNode ν)
  | some a, some b => some (diffValues a (.json b) path)
  | some a, none => some (removedNode path a)
  | none, some b => some (addedNode path b)
  | none, none => none

theorem path_nodeAt {path : String} {a b : Option (Json ν)} {node : DiffNode ν}
    (h : nodeAt path a b = some node) : node.path = path := by
  cases a <;> cases b <;> simp only [nodeAt, Option.some.injEq, reduceCtorEq] at h <;> subst h
  · rfl
  · rfl
  · exact path_diffValues _ _ _

theorem diffItems_cons (items others : List (Json ν)) (path : String) (i : Nat)
    (h : items ≠ [] ∨ others ≠ []) :
    ∃ node, nodeAt (itemPath path i) items.head? others.head? = some node ∧
      diffItems items others path i = node :: diffItems items.tail others.tail path (i + 1) := by
  cases items with
  | nil =>
    cases others with
    | nil => simp at h
    | cons other others => exact ⟨_, rfl, by simp [diffItems, addedItems]⟩
  | cons item items =>
    cases others with
    | nil => exact ⟨_, rfl, by simp [diffItems]⟩
    | cons other others => exact ⟨_, rfl, by simp [diffItems]⟩

theorem find_diffItems (items others : List (Json ν)) (path : String) (i j : Nat) :
    (diffItems items others path i).find? (fun node => node.path = itemPath path (i + j)) =
      nodeAt (itemPath path (i + j)) items[j]? others[j]? := by
  induction j generalizing items others i with
  | zero =>
    by_cases h : items ≠ [] ∨ others ≠ []
    · obtain ⟨node, hnode, hcons⟩ := diffItems_cons items others path i h
      rw [hcons, List.find?_cons_of_pos (by simp [path_nodeAt hnode])]
      simpa [List.head?_eq_getElem?] using hnode.symm
    · push Not at h
      simp [h.1, h.2, diffItems, addedItems, nodeAt]
  | succ j ih =>
    by_cases h : items ≠ [] ∨ others ≠ []
    · obtain ⟨node, hnode, hcons⟩ := diffItems_cons items others path i h
      have hother : ¬ node.path = itemPath path (i + (j + 1)) := by
        rw [path_nodeAt hnode, itemPath_inj]
        omega
      rw [hcons, List.find?_cons_of_neg (by simpa using hother), show i + (j + 1) = i + 1 + j by omega, ih]
      simp
    · push Not at h
      simp [h.1, h.2, diffItems, addedItems, nodeAt]

theorem path_of_mem_diffItems {items others : List (Json ν)} {path : String} {i : Nat}
    {node : DiffNode ν} (h : node ∈ diffItems items others path i) : ∃ j, node.path = itemPath path j := by
  induction items generalizing others i with
  | nil =>
    rw [diffItems] at h
    induction others generalizing i with
    | nil => simp [addedItems] at h
    | cons other others ih =>
      rw [addedItems] at h
      obtain rfl | h := List.mem_cons.mp h
      · exact ⟨i, rfl⟩
      · exact ih h
  | cons item items ih =>
    obtain ⟨first, hfirst, hcons⟩ := diffItems_cons (item :: items) others path i (.inl (by simp))
    rw [hcons] at h
    obtain rfl | h := List.mem_cons.mp h
    · exact ⟨i, path_nodeAt hfirst⟩
    · exact ih h

def fieldNode (path key : String) (v : Json ν) : Option (JsValue ν) → DiffNode ν
  | none => removedNode (keyPath path key) v
  | some w => diffValues v w (keyPath path key)

theorem path_fieldNode (path key : String) (v : Json ν) (w : Option (JsValue ν)) :
    (fieldNode path key v w).path = keyPath path key := by
  cases w with
  | none => rfl
  | some w => exact path_diffValues _ _ _

theorem diffFields_cons (key : String) (v : Json ν) (fields : List (String × Json ν))
    (right : JsValue ν) (path : String) : diffFields ((key, v) :: fields) right path =
      fieldNode path key v (right.read key) :: diffFields fields right path := by
  rw [diffFields]
  cases right.read key <;> rfl

theorem find_diffFields (fields : List (String × Json ν)) (right : JsValue ν) (path key : String) :
    (diffFields fields right path).find? (fun node => node.path = keyPath path key) =
      (fields.lookup key).map (fun v => fieldNode path key v (right.read key)) := by
  induction fields with
  | nil => simp [diffFields]
  | cons f fields ih =>
    obtain ⟨k, v⟩ := f
    rw [diffFields_cons]
    by_cases hk : key = k
    · subst hk
      rw [List.find?_cons_of_pos (by simp [path_fieldNode])]
      simp
    · have hne : ¬ keyPath path k = keyPath path key := fun h => hk (keyPath_inj.mp h).symm
      rw [List.find?_cons_of_neg (by simpa [path_fieldNode] using hne), ih, List.lookup_cons]
      simp [show (key == k) = false by simpa using hk]

omit [DecidableEq ν] in
theorem find_addedFields (fields others : List (String × Json ν)) (path key : String) :
    (addedFields path fields (.json (.obj others))).find? (fun node => node.path = keyPath path key) =
      if ((JsValue.json (.obj fields)).read key).isNone then
        (others.lookup key).map (addedNode (keyPath path key))
      else none := by
  rw [addedFields]
  induction others with
  | nil => simp
  | cons f others ih =>
    obtain ⟨k, w⟩ := f
    by_cases hk : key = k
    · subst hk
      by_cases hin : ((JsValue.json (.obj fields)).read key).isNone = true
      · simp [hin, addedNode, DiffNode.path]
      · simp only [hin, Bool.false_eq_true, if_false] at ih ⊢
        rw [List.filter_cons_of_neg (by simpa using hin)]
        exact ih
    · have hne : ¬ keyPath path k = keyPath path key := fun h => hk (keyPath_inj.mp h).symm
      have hlookup : ((k, w) :: others).lookup key = others.lookup key := by
        rw [List.lookup_cons, show (key == k) = false by simpa using hk]
      rw [hlookup, ← ih, List.filter_cons]
      split
      · rw [List.map_cons, List.find?_cons_of_neg (by simp [addedNode, DiffNode.path, hne])]
      · rfl

theorem find_fields {fields others : List (String × Json ν)} (path : String)
    (h : Aligned (.obj fields) (.obj others)) (key : String) :
    (diffFields fields (.json (.obj others)) path ++
        addedFields path fields (.json (.obj others))).find? (fun node => node.path = keyPath path key) =
      nodeAt (keyPath path key) (fields.lookup key) (others.lookup key) := by
  rw [Aligned] at h
  rw [List.find?_append, find_diffFields, find_addedFields]
  cases ha : fields.lookup key with
  | some a =>
    have hmem : key ∈ fields.map Prod.fst := Json.lookup_isSome_iff_mem.mp (by simp [ha])
    rw [read_of_aligned h.1 hmem]
    cases others.lookup key <;> rfl
  | none =>
    cases hb : others.lookup key with
    | none => simp [nodeAt]
    | some b =>
      have hmem : key ∈ others.map Prod.fst := Json.lookup_isSome_iff_mem.mp (by simp [hb])
      have hnone : ((JsValue.json (.obj fields)).read key).isNone = true := by
        refine isNone_read.mpr ⟨ha, ?_⟩
        intro hname
        have hback := Json.lookup_isSome_iff_mem.mpr ((h.1 key hname).mpr hmem)
        simp [ha] at hback
      simp [hnone, nodeAt]

theorem diffValues_of_same {left right : Json ν} (hleft : Canonical left) (hright : Canonical right)
    (h : Same left right) (path : String) :
    diffValues left (.json right) path = .leaf path .same (some (.json left)) (some (.json right)) := by
  unfold diffValues
  rw [if_pos (deepEqual_of_same hleft hright h)]

theorem diffValues_of_label {left right : Json ν} (h : left.label ≠ right.label) (path : String) :
    diffValues left (.json right) path = .leaf path .changed (some (.json left)) (some (.json right)) := by
  cases left <;> cases right <;>
    simp_all [Json.label, diffValues, deepEqual, strictEqual, JsValue.isPlainObject]

theorem path_of_mem_diffFields {fields : List (String × Json ν)} {right : JsValue ν} {path : String}
    {node : DiffNode ν} (h : node ∈ diffFields fields right path) :
    ∃ key, node.path = keyPath path key := by
  induction fields with
  | nil => simp [diffFields] at h
  | cons f fields ih =>
    rw [diffFields_cons] at h
    obtain rfl | h := List.mem_cons.mp h
    · exact ⟨f.1, path_fieldNode _ _ _ _⟩
    · exact ih h

omit [DecidableEq ν] in
theorem path_of_mem_addedFields {fields others : List (String × Json ν)} {path : String}
    {node : DiffNode ν} (h : node ∈ addedFields path fields (.json (.obj others))) :
    ∃ key, node.path = keyPath path key := by
  rw [addedFields] at h
  obtain ⟨f, -, rfl⟩ := List.mem_map.mp h
  exact ⟨f.1, rfl⟩

theorem diffValues_arr {items others : List (Json ν)}
    (h : deepEqual (.arr items) (.json (.arr others)) = false) (path : String) :
    diffValues (.arr items) (.json (.arr others)) path =
      .branch path .changed (diffItems items others path 0) := by
  unfold diffValues
  simp [h]

theorem diffValues_obj {fields others : List (String × Json ν)}
    (h : deepEqual (.obj fields) (.json (.obj others)) = false) (path : String) :
    diffValues (.obj fields) (.json (.obj others)) path =
      .branch path .changed (diffFields fields (.json (.obj others)) path ++
        addedFields path fields (.json (.obj others))) := by
  unfold diffValues
  simp [h, JsValue.isPlainObject]

theorem child_items (items others : List (Json ν)) (path : String) (s : Step) :
    (DiffNode.branch path .changed (diffItems items others path 0)).child s =
      nodeAt (stepPath path s) ((Json.arr items).child s) ((Json.arr others).child s) := by
  rw [DiffNode.child]
  cases s with
  | index i =>
    have hfind := find_diffItems items others path 0 i
    rw [Nat.zero_add] at hfind
    exact hfind
  | key name =>
    refine List.find?_eq_none.mpr ?_
    intro node hnode
    obtain ⟨j, hj⟩ := path_of_mem_diffItems hnode
    simpa [hj, stepPath] using itemPath_ne_keyPath path j name

theorem child_fields {fields others : List (String × Json ν)}
    (h : Aligned (.obj fields) (.obj others)) (path : String) (s : Step) :
    (DiffNode.branch path .changed (diffFields fields (.json (.obj others)) path ++
        addedFields path fields (.json (.obj others)))).child s =
      nodeAt (stepPath path s) ((Json.obj fields).child s) ((Json.obj others).child s) := by
  rw [DiffNode.child]
  cases s with
  | key name => exact find_fields path h name
  | index i =>
    refine List.find?_eq_none.mpr ?_
    intro node hnode
    obtain ⟨key, hkey⟩ := (List.mem_append.mp hnode).elim path_of_mem_diffFields path_of_mem_addedFields
    simpa [hkey, stepPath] using (itemPath_ne_keyPath path i key).symm

/-- Two containers of one kind that differ: a node with a child for every place of either. -/
theorem child_diffValues {left right : Json ν} (hleft : Canonical left) (hright : Canonical right)
    (h : Aligned left right) (hne : ¬ Same left right) (hlabel : left.label = right.label)
    (path : String) :
    ∃ children, diffValues left (.json right) path = .branch path .changed children ∧
      ∀ s, (DiffNode.branch path .changed children).child s =
        nodeAt (stepPath path s) (left.child s) (right.child s) := by
  have hequal : deepEqual left (.json right) = false :=
    Bool.eq_false_iff.mpr (fun heq => hne (same_of_deepEqual hleft hright h heq))
  cases left <;> cases right <;> simp only [Json.label, reduceCtorEq, Json.Label.bool.injEq,
    Json.Label.num.injEq, Json.Label.str.injEq] at hlabel
  case arr.arr items others => exact ⟨_, diffValues_arr hequal path, child_items items others path⟩
  case obj.obj fields others => exact ⟨_, diffValues_obj hequal path, child_fields h path⟩
  all_goals exact absurd (by subst_vars; exact Same.refl _) hne

/-! ### What the tree of an aligned pair says -/

theorem shows_diffValues {left right : Json ν} (hleft : Canonical left) (hright : Canonical right)
    (h : Aligned left right) (path : String) :
    Shows (some left) (some right) (diffValues left (.json right) path) := by
  by_cases hsame : Same left right
  · rw [diffValues_of_same hleft hright hsame]
    exact .same hsame
  · by_cases hlabel : left.label = right.label
    · obtain ⟨children, htree, -⟩ := child_diffValues hleft hright h hsame hlabel path
      rw [htree]
      exact .inner hsame hlabel
    · rw [diffValues_of_label hlabel]
      exact .changed hlabel

omit [DecidableEq ν] in
theorem at_leaf {path : String} {status : DiffStatus} {l r : Option (JsValue ν)} {p : List Step}
    {node : DiffNode ν} (h : (DiffNode.leaf path status l r).at p = some node) :
    p = [] ∧ node = .leaf path status l r := by
  cases p with
  | nil => exact ⟨rfl, (Option.some.inj h).symm⟩
  | cons s p => simp [DiffNode.at, DiffNode.child] at h

theorem shows_of_aligned {left right : Json ν} (hleft : Canonical left) (hright : Canonical right)
    (h : Aligned left right) (path : String) (p : List Step) (node : DiffNode ν)
    (hnode : (diffValues left (.json right) path).at p = some node) :
    Shows (left.get p) (right.get p) node := by
  induction p generalizing left right path with
  | nil =>
    obtain rfl := Option.some.inj hnode
    exact shows_diffValues hleft hright h path
  | cons s p ih =>
    by_cases hsame : Same left right
    · rw [diffValues_of_same hleft hright hsame] at hnode
      cases (at_leaf hnode).1
    by_cases hlabel : left.label = right.label
    · obtain ⟨children, htree, hchild⟩ := child_diffValues hleft hright h hsame hlabel path
      rw [htree, DiffNode.at, hchild] at hnode
      rw [Json.get_cons, Json.get_cons]
      cases ha : left.child s with
      | some a =>
        cases hb : right.child s with
        | some b =>
          rw [ha, hb] at hnode
          exact ih (canonical_child hleft ha) (canonical_child hright hb) (h.child ha hb) _ hnode
        | none =>
          rw [ha, hb] at hnode
          obtain ⟨rfl, rfl⟩ := at_leaf hnode
          exact .removed
      | none =>
        cases hb : right.child s with
        | some b =>
          rw [ha, hb] at hnode
          obtain ⟨rfl, rfl⟩ := at_leaf hnode
          exact .added
        | none =>
          rw [ha, hb] at hnode
          cases hnode
    · rw [diffValues_of_label hlabel] at hnode
      cases (at_leaf hnode).1

omit [DecidableEq ν] in
theorem not_oneSided_of_same {left right : Json ν} (h : Same left right) (p : List Step) (s : Step) :
    ¬ OneSided left right p s := by
  intro ⟨a, b, ha, hb, _, hne⟩
  have hplace := h.get p
  rw [ha, hb] at hplace
  cases hplace with
  | some hsame =>
    have hchild := (Json.same_iff.mp hsame).2 s
    generalize a.child s = x, b.child s = y at hchild hne
    cases hchild <;> simp at hne

theorem covers_of_aligned {left right : Json ν} (hleft : Canonical left) (hright : Canonical right)
    (h : Aligned left right) (path : String) (p : List Step) (s : Step)
    (hone : OneSided left right p s) :
    ((diffValues left (.json right) path).at (p ++ [s])).isSome = true := by
  induction p generalizing left right path with
  | nil =>
    have hsame : ¬ Same left right := fun hsame => not_oneSided_of_same hsame [] s hone
    obtain ⟨a, b, ha, hb, hkind, hne⟩ := hone
    obtain rfl := Option.some.inj ha
    obtain rfl := Option.some.inj hb
    obtain ⟨children, htree, hchild⟩ := child_diffValues hleft hright h hsame hkind path
    rw [htree, List.nil_append, DiffNode.at, hchild]
    cases hl : left.child s <;> cases hr : right.child s <;> simp_all [nodeAt, DiffNode.at]
  | cons t p ih =>
    have hsame : ¬ Same left right := fun hsame => not_oneSided_of_same hsame (t :: p) s hone
    obtain ⟨a, b, ha, hb, hkind, hne⟩ := hone
    obtain ⟨x, hx, hxa⟩ := Option.bind_eq_some_iff.mp ha
    obtain ⟨y, hy, hyb⟩ := Option.bind_eq_some_iff.mp hb
    obtain ⟨children, htree, hchild⟩ :=
      child_diffValues hleft hright h hsame (Json.label_eq_of_child hx hy) path
    rw [htree, List.cons_append, DiffNode.at, hchild, hx, hy]
    exact ih (canonical_child hleft hx) (canonical_child hright hy) (h.child hx hy) _
      ⟨a, b, hxa, hyb, hkind, hne⟩

/-! ### Replaying the tree -/

theorem replayItems_diffValues (left : Json ν) (right : JsValue ν) (path : String)
    (nodes : List (DiffNode ν)) (items : List (Json ν)) :
    DiffNode.replayItems (diffValues left right path :: nodes) (left :: items) =
      ((diffValues left right path).replay left).bind
        (fun v => (DiffNode.replayItems nodes items).map (v :: ·)) := by
  rw [DiffNode.replayItems, status_diffValues]
  cases deepEqual left right <;> rfl

theorem replayFields_diffValues (left : Json ν) (right : JsValue ν) (path key : String)
    (nodes : List (DiffNode ν)) {fields : List (String × Json ν)} (h : fields.lookup key = some left) :
    DiffNode.replayFields path (diffValues left right (keyPath path key) :: nodes) fields =
      ((diffValues left right (keyPath path key)).replay left).bind
        (fun v => (DiffNode.replayFields path nodes fields).map ((key, v) :: ·)) := by
  rw [DiffNode.replayFields, keyUnder_keyPath (path_diffValues _ _ _), h, status_diffValues]
  cases deepEqual left right <;> rfl

omit [DecidableEq ν] in
theorem replayItems_added (path : String) (i : Nat) (others items : List (Json ν)) :
    DiffNode.replayItems (addedItems path i others) items = some others := by
  induction others generalizing i with
  | nil => simp [addedItems, DiffNode.replayItems]
  | cons other others ih =>
    simp [addedItems, DiffNode.replayItems, addedNode, DiffNode.status, DiffNode.rightJson, ih]

omit [DecidableEq ν] in
theorem replayFields_added (path : String) (others fields : List (String × Json ν)) :
    DiffNode.replayFields path (others.map (fun f => addedNode (keyPath path f.1) f.2)) fields =
      some others := by
  induction others with
  | nil => simp [DiffNode.replayFields]
  | cons f others ih =>
    rw [List.map_cons, DiffNode.replayFields, keyUnder_keyPath (by rfl), ih]
    rfl

omit [DecidableEq ν] in
theorem replayFields_append (path : String) (nodes more : List (DiffNode ν))
    (fields : List (String × Json ν)) :
    DiffNode.replayFields path (nodes ++ more) fields =
      (DiffNode.replayFields path nodes fields).bind
        (fun vs => (DiffNode.replayFields path more fields).map (vs ++ ·)) := by
  induction nodes with
  | nil => simp [DiffNode.replayFields]
  | cons node nodes ih =>
    rw [List.cons_append, DiffNode.replayFields, DiffNode.replayFields, ih]
    split
    · rfl
    · simp only [Option.map_bind, Option.bind_assoc, Option.bind_map, Option.map_map, Function.comp_def,
        List.cons_append]

theorem replayItems_of_forall {items others : List (Json ν)} (path : String) (i : Nat)
    (h : ∀ (j : Nat) a b, items[j]? = some a → others[j]? = some b → ∀ path,
      ∃ v, (diffValues a (.json b) path).replay a = some v ∧ Same v b) :
    ∃ vs, DiffNode.replayItems (diffItems items others path i) items = some vs ∧
      List.Forall₂ Same vs others := by
  induction items generalizing others i with
  | nil =>
    refine ⟨others, ?_, List.forall₂_same.mpr (fun v _ => Same.refl v)⟩
    rw [diffItems, replayItems_added]
  | cons item items ih =>
    cases others with
    | nil =>
      obtain ⟨vs, hvs, hsame⟩ := @ih [] (i + 1) (by simp)
      refine ⟨vs, ?_, hsame⟩
      rw [diffItems, DiffNode.replayItems, if_pos (by rfl)]
      exact hvs
    | cons other others =>
      obtain ⟨vs, hvs, hrest⟩ := ih (i + 1) (fun j a b ha hb => h (j + 1) a b (by simpa using ha) (by simpa using hb))
      obtain ⟨v, hv, hsame⟩ := h 0 item other rfl rfl (itemPath path i)
      refine ⟨v :: vs, ?_, .cons hsame hrest⟩
      rw [diffItems, replayItems_diffValues, hv, hvs]
      rfl

theorem forall_of_replayItems {items others vs : List (Json ν)} {path : String} {i : Nat}
    (hvs : DiffNode.replayItems (diffItems items others path i) items = some vs)
    (hsame : List.Forall₂ Same vs others) {j : Nat} {a b : Json ν} (ha : items[j]? = some a)
    (hb : others[j]? = some b) :
    ∃ p v, (diffValues a (.json b) p).replay a = some v ∧ Same v b := by
  induction items generalizing others vs i j with
  | nil => simp at ha
  | cons item items ih =>
    cases others with
    | nil => simp at hb
    | cons other others =>
      rw [diffItems, replayItems_diffValues, Option.bind_eq_some_iff] at hvs
      obtain ⟨v, hv, hmap⟩ := hvs
      obtain ⟨rest, hrest, rfl⟩ := Option.map_eq_some_iff.mp hmap
      cases hsame with
      | cons hhead htail =>
        cases j with
        | zero =>
          obtain rfl := Option.some.inj ha
          obtain rfl := Option.some.inj hb
          exact ⟨_, v, hv, hhead⟩
        | succ j => exact ih hrest htail (by simpa using ha) (by simpa using hb)

theorem replayFields_of_forall {sub fields others : List (String × Json ν)} (path : String)
    (hsub : ∀ f ∈ sub, fields.lookup f.1 = some f.2)
    (hread : ∀ f ∈ sub, (JsValue.json (.obj others)).read f.1 = (others.lookup f.1).map .json)
    (h : ∀ f ∈ sub, ∀ w, others.lookup f.1 = some w → ∀ path,
      ∃ v, (diffValues f.2 (.json w) path).replay f.2 = some v ∧ Same v w) :
    ∃ vs, DiffNode.replayFields path (diffFields sub (.json (.obj others)) path) fields = some vs ∧
      ∀ key, Option.Rel Same (vs.lookup key)
        (if key ∈ sub.map Prod.fst then others.lookup key else none) := by
  induction sub with
  | nil => exact ⟨[], by simp [diffFields, DiffNode.replayFields], fun key => by simp⟩
  | cons f sub ih =>
    obtain ⟨k, a⟩ := f
    obtain ⟨hfield, hsub⟩ := List.forall_mem_cons.mp hsub
    obtain ⟨hown, hread⟩ := List.forall_mem_cons.mp hread
    obtain ⟨hhead, h⟩ := List.forall_mem_cons.mp h
    obtain ⟨vs, hvs, hlookup⟩ := ih hsub hread h
    rw [diffFields_cons, hown]
    cases hw : others.lookup k with
    | none =>
      refine ⟨vs, ?_, ?_⟩
      · rw [Option.map_none, fieldNode, DiffNode.replayFields, if_pos (by rfl)]
        exact hvs
      · intro key
        by_cases hkey : key = k
        · subst hkey
          simpa [hw] using hlookup key
        · simp only [List.map_cons, List.mem_cons, hkey, false_or]
          exact hlookup key
    | some w =>
      obtain ⟨v, hv, hsame⟩ := hhead w hw (keyPath path k)
      refine ⟨(k, v) :: vs, ?_, ?_⟩
      · rw [Option.map_some, fieldNode, replayFields_diffValues _ _ _ _ _ hfield, hv, hvs]
        rfl
      · intro key
        by_cases hkey : key = k
        · subst hkey
          simpa [hw] using hsame
        · simp only [List.map_cons, List.mem_cons, hkey, false_or, List.lookup_cons,
            show (key == k) = false by simpa using hkey]
          exact hlookup key

omit [DecidableEq ν] in
theorem lookup_filter {α : Type} (keep : String → Bool) (fields : List (String × α)) (key : String) :
    (fields.filter (fun f => keep f.1)).lookup key = if keep key then fields.lookup key else none := by
  induction fields with
  | nil => simp
  | cons f fields ih =>
    obtain ⟨k, a⟩ := f
    by_cases hkey : key = k
    · subst hkey
      by_cases hkeep : keep key = true
      · simp [hkeep]
      · rw [if_neg hkeep] at ih ⊢
        rw [List.filter_cons_of_neg (by simpa using hkeep), ih]
    · have hne : (key == k) = false := by simpa using hkey
      rw [List.filter_cons, List.lookup_cons, hne]
      split
      · rw [List.lookup_cons, hne]
        exact ih
      · exact ih

omit [DecidableEq ν] in
theorem lookup_added (fields others : List (String × Json ν)) (key : String) :
    (others.filter (fun f => ((JsValue.json (.obj fields)).read f.1).isNone)).lookup key =
      if ((JsValue.json (.obj fields)).read key).isNone then others.lookup key else none :=
  lookup_filter (fun name => ((JsValue.json (.obj fields)).read name).isNone) others key

omit [DecidableEq ν] in
theorem same_with_added {fields others vs : List (String × Json ν)}
    (h : ∀ name ∈ OBJECT_PROTOTYPE, name ∈ fields.map Prod.fst ↔ name ∈ others.map Prod.fst)
    (hvs : ∀ key, Option.Rel Same (vs.lookup key)
      (if key ∈ fields.map Prod.fst then others.lookup key else none)) :
    Same (.obj (vs ++ others.filter (fun f => ((JsValue.json (.obj fields)).read f.1).isNone)))
      (.obj others) := by
  refine Json.same_obj_iff.mpr ?_
  intro key
  have hkey := hvs key
  rw [List.lookup_append, lookup_added]
  by_cases hmem : key ∈ fields.map Prod.fst
  · rw [if_pos hmem] at hkey
    generalize vs.lookup key = a, others.lookup key = b at hkey
    cases hkey with
    | none => simp
    | some hsame => exact .some hsame
  · rw [if_neg hmem] at hkey
    have hnone : vs.lookup key = none := by
      generalize vs.lookup key = a at hkey
      cases hkey
      rfl
    have hleft : fields.lookup key = none := by
      cases ha : fields.lookup key with
      | none => rfl
      | some a => exact absurd (Json.lookup_isSome_iff_mem.mp (by simp [ha])) hmem
    rw [hnone, Option.none_or]
    split
    · cases others.lookup key with
      | none => exact .none
      | some b => exact .some (Same.refl b)
    · rename_i hread
      have hname : key ∈ OBJECT_PROTOTYPE := by
        by_contra hname
        exact hread (isNone_read.mpr ⟨hleft, hname⟩)
      have hnot : key ∉ others.map Prod.fst := fun hright => hmem ((h key hname).mpr hright)
      cases hb : others.lookup key with
      | none => exact .none
      | some b => exact absurd (Json.lookup_isSome_iff_mem.mp (by simp [hb])) hnot

theorem replays_leaf {left right : Json ν} (hleft : Canonical left) (hright : Canonical right)
    (h : Same left right ∨ left.label ≠ right.label) (path : String) :
    ∃ v, (diffValues left (.json right) path).replay left = some v ∧ Same v right := by
  obtain hsame | hlabel := h
  · rw [diffValues_of_same hleft hright hsame]
    exact ⟨left, by simp [DiffNode.replay], hsame⟩
  · rw [diffValues_of_label hlabel]
    exact ⟨right, by simp [DiffNode.replay, DiffNode.rightJson], Same.refl right⟩

theorem container_of_not_leaf {left right : Json ν} (hleft : Canonical left)
    (hright : Canonical right) (h : Aligned left right)
    (hleaf : ¬ (Same left right ∨ left.label ≠ right.label)) :
    left.label = right.label ∧ deepEqual left (.json right) = false := by
  push Not at hleaf
  exact ⟨hleaf.2, Bool.eq_false_iff.mpr
    (fun heq => hleaf.1 (same_of_deepEqual hleft hright h heq))⟩

theorem replays_of_aligned {left right : Json ν} (hleft : Canonical left) (hright : Canonical right)
    (h : Aligned left right) (path : String) :
    ∃ v, (diffValues left (.json right) path).replay left = some v ∧ Same v right := by
  induction left using Json.induction_mem generalizing right path with
  | null | bool | num | str =>
    refine replays_leaf hleft hright (or_iff_not_imp_right.mpr ?_) path
    intro hlabel
    exact Json.same_of_scalar (not_not.mp hlabel) (by simp [Json.label]) (by simp [Json.label])
  | arr items ih =>
    by_cases hleaf : Same (.arr items) right ∨ (Json.arr items).label ≠ right.label
    · exact replays_leaf hleft hright hleaf path
    obtain ⟨hlabel, hequal⟩ := container_of_not_leaf hleft hright h hleaf
    cases right with
    | arr others =>
      rw [Aligned, alignedItems_iff] at h
      have hreplay : ∃ vs, DiffNode.replayItems (diffItems items others path 0) items = some vs ∧
          List.Forall₂ Same vs others :=
        replayItems_of_forall path 0 (fun j a b ha hb path =>
          ih a (List.mem_of_getElem? ha) (hleft.item (List.mem_of_getElem? ha))
            (hright.item (List.mem_of_getElem? hb)) (h j a b ha hb) path)
      obtain ⟨vs, hvs, hall⟩ := hreplay
      rw [diffValues_arr hequal, DiffNode.replay, hvs]
      exact ⟨.arr vs, rfl, Json.same_arr_iff.mpr hall⟩
    | null | bool | num | str | obj => cases hlabel
  | obj fields ih =>
    by_cases hleaf : Same (.obj fields) right ∨ (Json.obj fields).label ≠ right.label
    · exact replays_leaf hleft hright hleaf path
    obtain ⟨hlabel, hequal⟩ := container_of_not_leaf hleft hright h hleaf
    cases right with
    | obj others =>
      rw [Aligned, alignedFields_iff] at h
      have hreplay : ∃ vs, DiffNode.replayFields path
          (diffFields fields (.json (.obj others)) path) fields = some vs ∧
          ∀ key, Option.Rel Same (vs.lookup key)
            (if key ∈ fields.map Prod.fst then others.lookup key else none) :=
        replayFields_of_forall path
          (fun f hf => (Json.lookup_eq_some_iff_mem hleft.nodup).mpr hf)
          (fun f hf => read_of_aligned h.1 (List.mem_map_of_mem hf))
          (fun f hf w hw path => ih f hf (hleft.field hf) (hright.field (Json.mem_of_lookup hw))
            (h.2 f hf w hw) path)
      obtain ⟨vs, hvs, hall⟩ := hreplay
      rw [diffValues_obj hequal, DiffNode.replay, replayFields_append, hvs, addedFields, Option.bind_some,
        replayFields_added]
      exact ⟨_, rfl, same_with_added h.1 hall⟩
    | null | bool | num | str | arr => cases hlabel

theorem names_of_replayFields {sub fields vs : List (String × Json ν)} {right : JsValue ν}
    {path : String} (hsub : ∀ f ∈ sub, fields.lookup f.1 = some f.2)
    (hvs : DiffNode.replayFields path (diffFields sub right path) fields = some vs) :
    (vs.map Prod.fst) ⊆ sub.map Prod.fst := by
  induction sub generalizing vs with
  | nil =>
    rw [diffFields, DiffNode.replayFields] at hvs
    obtain rfl := Option.some.inj hvs
    simp
  | cons f sub ih =>
    obtain ⟨hfield, hsub⟩ := List.forall_mem_cons.mp hsub
    rw [diffFields_cons] at hvs
    cases hread : right.read f.1 with
    | none =>
      rw [hread, fieldNode, DiffNode.replayFields, if_pos (by rfl)] at hvs
      exact fun key hkey => List.mem_cons_of_mem _ (ih hsub hvs hkey)
    | some w =>
      rw [hread, fieldNode, replayFields_diffValues _ _ _ _ _ hfield, Option.bind_eq_some_iff] at hvs
      obtain ⟨v, -, hmap⟩ := hvs
      obtain ⟨rest, hrest, rfl⟩ := Option.map_eq_some_iff.mp hmap
      exact List.cons_subset_cons _ (ih hsub hrest)

/-- A key that both sides seem to have is replayed, also where the right side only inherits it. -/
theorem lookup_of_replayFields {sub fields vs : List (String × Json ν)} {right : JsValue ν}
    {path : String} (hnodup : (sub.map Prod.fst).Nodup)
    (hsub : ∀ f ∈ sub, fields.lookup f.1 = some f.2)
    (hvs : DiffNode.replayFields path (diffFields sub right path) fields = some vs)
    {f : String × Json ν} (hf : f ∈ sub) {w : JsValue ν} (hw : right.read f.1 = some w) :
    ∃ v, (diffValues f.2 w (keyPath path f.1)).replay f.2 = some v ∧ vs.lookup f.1 = some v := by
  induction sub generalizing vs with
  | nil => cases hf
  | cons g sub ih =>
    obtain ⟨hfield, hsub⟩ := List.forall_mem_cons.mp hsub
    obtain ⟨hfresh, hnodup⟩ := List.nodup_cons.mp hnodup
    rw [diffFields_cons] at hvs
    cases hread : right.read g.1 with
    | none =>
      rw [hread, fieldNode, DiffNode.replayFields, if_pos (by rfl)] at hvs
      obtain rfl | hf := List.mem_cons.mp hf
      · cases hread.symm.trans hw
      · exact ih hnodup hsub hvs hf
    | some u =>
      rw [hread, fieldNode, replayFields_diffValues _ _ _ _ _ hfield, Option.bind_eq_some_iff] at hvs
      obtain ⟨v, hv, hmap⟩ := hvs
      obtain ⟨rest, hrest, rfl⟩ := Option.map_eq_some_iff.mp hmap
      obtain rfl | hf := List.mem_cons.mp hf
      · obtain rfl := Option.some.inj (hread.symm.trans hw)
        exact ⟨v, hv, by simp⟩
      · obtain ⟨x, hx, hlookup⟩ := ih hnodup hsub hrest hf
        have hne : (f.1 == g.1) = false := by
          simp only [beq_eq_false_iff_ne]
          exact fun heq => hfresh (heq ▸ List.mem_map_of_mem hf)
        exact ⟨x, hx, by rw [List.lookup_cons, hne]; exact hlookup⟩

theorem names_of_replay {fields others vs : List (String × Json ν)} {path : String}
    (hnodup : (fields.map Prod.fst).Nodup)
    (hvs : DiffNode.replayFields path (diffFields fields (.json (.obj others)) path) fields = some vs)
    (hsame : Same (.obj (vs ++ others.filter
      (fun f => ((JsValue.json (.obj fields)).read f.1).isNone))) (.obj others)) :
    ∀ name ∈ OBJECT_PROTOTYPE, name ∈ fields.map Prod.fst ↔ name ∈ others.map Prod.fst := by
  have hsub : ∀ f ∈ fields, fields.lookup f.1 = some f.2 :=
    fun f hf => (Json.lookup_eq_some_iff_mem hnodup).mpr hf
  intro name hname
  rw [← names_of_same hsame name, List.map_append, List.mem_append]
  constructor
  · intro hmem
    obtain ⟨f, hf, rfl⟩ := List.mem_map.mp hmem
    have hread : ∃ w, (JsValue.json (.obj others)).read f.1 = some w := by
      cases hw : others.lookup f.1 with
      | some w => exact ⟨_, read_own hw⟩
      | none => exact ⟨_, read_inherited hw hname⟩
    obtain ⟨w, hw⟩ := hread
    obtain ⟨v, -, hv⟩ := lookup_of_replayFields hnodup hsub hvs hf hw
    exact .inl (Json.lookup_isSome_iff_mem.mp (by simp [hv]))
  · intro hmem
    obtain hmem | hmem := hmem
    · exact names_of_replayFields hsub hvs hmem
    · obtain ⟨f, hf, rfl⟩ := List.mem_map.mp hmem
      have hnone := isNone_read.mp (List.mem_filter.mp hf).2
      exact absurd hname hnone.2

theorem aligned_of_replays {left right v : Json ν} (hleft : Canonical left) (hright : Canonical right)
    {path : String} (hv : (diffValues left (.json right) path).replay left = some v)
    (hsame : Same v right) : Aligned left right := by
  induction left using Json.induction_mem generalizing right v path with
  | null | bool | num | str => cases right <;> trivial
  | arr items ih =>
    cases right with
    | null | bool | num | str | obj => trivial
    | arr others =>
      by_cases hequal : deepEqual (.arr items) (.json (.arr others)) = true
      · have htree : v = .arr items := by
          unfold diffValues at hv
          simpa [hequal, DiffNode.replay, eq_comm] using hv
        exact aligned_of_same hleft (htree ▸ hsame)
      · rw [diffValues_arr (Bool.eq_false_iff.mpr hequal), DiffNode.replay] at hv
        obtain ⟨vs, hvs, rfl⟩ := Option.map_eq_some_iff.mp hv
        rw [Aligned, alignedItems_iff]
        intro i a b ha hb
        obtain ⟨p, x, hx, hab⟩ := forall_of_replayItems hvs (Json.same_arr_iff.mp hsame) ha hb
        exact ih a (List.mem_of_getElem? ha) (hleft.item (List.mem_of_getElem? ha))
          (hright.item (List.mem_of_getElem? hb)) hx hab
  | obj fields ih =>
    cases right with
    | null | bool | num | str | arr => trivial
    | obj others =>
      by_cases hequal : deepEqual (.obj fields) (.json (.obj others)) = true
      · have htree : v = .obj fields := by
          unfold diffValues at hv
          simpa [hequal, DiffNode.replay, eq_comm] using hv
        exact aligned_of_same hleft (htree ▸ hsame)
      · rw [diffValues_obj (Bool.eq_false_iff.mpr hequal), DiffNode.replay, replayFields_append] at hv
        obtain ⟨ms, hms, rfl⟩ := Option.map_eq_some_iff.mp hv
        obtain ⟨vs, hvs, hadded⟩ := Option.bind_eq_some_iff.mp hms
        rw [addedFields, replayFields_added] at hadded
        obtain rfl := Option.some.inj hadded
        rw [Aligned, alignedFields_iff]
        refine ⟨names_of_replay hleft.nodup hvs hsame, ?_⟩
        intro f hf w hw
        obtain ⟨x, hx, hlookup⟩ := lookup_of_replayFields hleft.nodup
          (fun f hf => (Json.lookup_eq_some_iff_mem hleft.nodup).mpr hf) hvs hf (read_own hw)
        have hname := Json.same_obj_iff.mp hsame f.1
        rw [List.lookup_append, hlookup, hw] at hname
        cases hname with
        | some hsame =>
          exact ih f hf (hleft.field hf) (hright.field (Json.mem_of_lookup hw)) hx hsame

theorem determines_iff_aligned (left right : Json.Parsed ν) (path : String) :
    Determines left.1 right.1 (diffValues left.1 (.json right.1) path) ↔ Aligned left.1 right.1 := by
  constructor
  · intro h
    obtain ⟨v, hv, hsame⟩ := h.replays
    exact aligned_of_replays left.2 right.2 hv hsame
  · intro h
    exact {
      shows := shows_of_aligned left.2 right.2 h path
      covers := covers_of_aligned left.2 right.2 h path
      replays := replays_of_aligned left.2 right.2 h path }

omit [DecidableEq ν] in
theorem Determines.status_iff {left right : Json ν} {tree : DiffNode ν}
    (h : Determines left right tree) : tree.status = .same ↔ Same left right := by
  have hroot := h.shows [] tree rfl
  simp only [Json.get_nil] at hroot
  cases hroot with
  | same hsame => exact ⟨fun _ => hsame, fun _ => rfl⟩
  | changed hlabel => exact ⟨nofun, fun hsame => absurd hsame.label_eq hlabel⟩
  | inner hne => exact ⟨nofun, fun hsame => absurd hsame hne⟩

end SorobanLens.Web
