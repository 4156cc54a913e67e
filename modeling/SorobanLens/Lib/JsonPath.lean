import SorobanLens.Lib.JsonRead

/-!
Places inside a JSON value, and when two values are the same: what stands at
every place is of one kind and, for a scalar, the same. The order of an
object's members does not count.
-/

set_option autoImplicit false

namespace Json

variable {ν : Type}

/-- What `JSON.parse` gives: at every depth the keys are distinct and stand in
the order they enumerate. -/
abbrev Parsed (ν : Type) := {v : Json ν // Canonical v}

mutual
theorem induction_mem {motive : Json ν → Prop} (null : motive .null) (bool : ∀ b, motive (.bool b))
    (num : ∀ n, motive (.num n)) (str : ∀ s, motive (.str s))
    (arr : ∀ items, (∀ v ∈ items, motive v) → motive (.arr items))
    (obj : ∀ fields, (∀ f ∈ fields, motive f.2) → motive (.obj fields)) (v : Json ν) : motive v := by
  match v with
  | .null => exact null
  | .bool b => exact bool b
  | .num n => exact num n
  | .str s => exact str s
  | .arr items => exact arr items (induction_items null bool num str arr obj items)
  | .obj fields => exact obj fields (induction_fields null bool num str arr obj fields)

theorem induction_items {motive : Json ν → Prop} (null : motive .null) (bool : ∀ b, motive (.bool b))
    (num : ∀ n, motive (.num n)) (str : ∀ s, motive (.str s))
    (arr : ∀ items, (∀ v ∈ items, motive v) → motive (.arr items))
    (obj : ∀ fields, (∀ f ∈ fields, motive f.2) → motive (.obj fields)) (items : List (Json ν)) :
    ∀ v ∈ items, motive v := by
  match items with
  | [] => simp
  | v :: items =>
    exact List.forall_mem_cons.mpr ⟨induction_mem null bool num str arr obj v,
      induction_items null bool num str arr obj items⟩

theorem induction_fields {motive : Json ν → Prop} (null : motive .null) (bool : ∀ b, motive (.bool b))
    (num : ∀ n, motive (.num n)) (str : ∀ s, motive (.str s))
    (arr : ∀ items, (∀ v ∈ items, motive v) → motive (.arr items))
    (obj : ∀ fields, (∀ f ∈ fields, motive f.2) → motive (.obj fields))
    (fields : List (String × Json ν)) : ∀ f ∈ fields, motive f.2 := by
  match fields with
  | [] => simp
  | (_, v) :: fields =>
    exact List.forall_mem_cons.mpr ⟨induction_mem null bool num str arr obj v,
      induction_fields null bool num str arr obj fields⟩
end

/-! ### Members by name -/

def OBJECT_PROTOTYPE : List String :=
  ["constructor", "__defineGetter__", "__defineSetter__", "hasOwnProperty", "__lookupGetter__",
    "__lookupSetter__", "isPrototypeOf", "propertyIsEnumerable", "toString", "valueOf", "__proto__",
    "toLocaleString"]

theorem lookup_eq_some_iff_mem {α : Type} {fields : List (String × α)}
    (h : (fields.map Prod.fst).Nodup) {key : String} {a : α} :
    fields.lookup key = some a ↔ (key, a) ∈ fields := by
  induction fields with
  | nil => simp
  | cons f fields ih =>
    obtain ⟨k, b⟩ := f
    obtain ⟨hk, hrest⟩ := List.nodup_cons.mp h
    by_cases heq : key = k
    · subst heq
      have hnot : (key, a) ∉ fields := fun hmem => hk (List.mem_map.mpr ⟨_, hmem, rfl⟩)
      simp [hnot, eq_comm]
    · have hne : (key == k) = false := by simpa using heq
      simp [List.lookup_cons, hne, heq, ih hrest]

theorem lookup_isSome_iff_mem {α : Type} {fields : List (String × α)} {key : String} :
    (fields.lookup key).isSome = true ↔ key ∈ fields.map Prod.fst := by
  rw [List.lookup_isSome_iff, List.mem_map]
  constructor
  · intro ⟨f, hf, hkey⟩
    exact ⟨f, hf, (beq_iff_eq.mp hkey).symm⟩
  · intro ⟨f, hf, hkey⟩
    exact ⟨f, hf, beq_iff_eq.mpr hkey.symm⟩

theorem mem_of_lookup {α : Type} {fields : List (String × α)} {key : String} {a : α}
    (h : fields.lookup key = some a) : (key, a) ∈ fields := by
  obtain ⟨xs, ys, rfl, -⟩ := List.lookup_eq_some_iff.mp h
  simp

theorem Canonical.nodup {fs : List (String × Json ν)} (h : Canonical (.obj fs)) :
    (fs.map Prod.fst).Nodup := by
  have hfields : (object fs).map (fun f => (f.1, f.2.normalise)) = fs := by
    unfold Canonical at h
    rwa [normalise, Json.obj.injEq, normaliseFields_eq, object_map] at h
  have hkeys : fs.map Prod.fst = (object fs).map Prod.fst := by
    conv_lhs => rw [← hfields]
    rw [List.map_map]
    rfl
  rw [hkeys]
  exact nodup_object fs

/-! ### Places -/

inductive Step where
  | key (name : String)
  | index (i : Nat)
  deriving DecidableEq, Repr

def child : Json ν → Step → Option (Json ν)
  | .arr items, .index i => items[i]?
  | .obj fields, .key name => fields.lookup name
  | _, _ => none

def get : Json ν → List Step → Option (Json ν)
  | v, [] => some v
  | v, s :: p => (v.child s).bind (fun w => w.get p)

@[simp] theorem get_nil (v : Json ν) : v.get [] = some v := rfl

@[simp] theorem get_cons (v : Json ν) (s : Step) (p : List Step) :
    v.get (s :: p) = (v.child s).bind (fun w => w.get p) := rfl

inductive Label (ν : Type) where
  | null
  | bool (b : Bool)
  | num (n : ν)
  | str (s : String)
  | arr
  | obj
  deriving DecidableEq

def label : Json ν → Label ν
  | .null => .null
  | .bool b => .bool b
  | .num n => .num n
  | .str s => .str s
  | .arr _ => .arr
  | .obj _ => .obj

/-! ### Sameness -/

def Same (v w : Json ν) : Prop := ∀ p, (v.get p).map label = (w.get p).map label

theorem Same.refl (v : Json ν) : Same v v := fun _ => rfl

theorem Same.symm {v w : Json ν} (h : Same v w) : Same w v := fun p => (h p).symm

theorem Same.trans {u v w : Json ν} (h : Same u v) (h' : Same v w) : Same u w :=
  fun p => (h p).trans (h' p)

theorem Same.label_eq {v w : Json ν} (h : Same v w) : v.label = w.label := by
  simpa using h []

theorem same_of_scalar {v w : Json ν} (h : v.label = w.label) (harr : v.label ≠ .arr)
    (hobj : v.label ≠ .obj) : Same v w := by
  cases v <;> cases w <;> simp_all [label, Same.refl]

theorem same_iff {v w : Json ν} :
    Same v w ↔ v.label = w.label ∧ ∀ s, Option.Rel Same (v.child s) (w.child s) := by
  constructor
  · intro h
    refine ⟨h.label_eq, ?_⟩
    intro s
    have hget : ∀ p, ((v.child s).bind (fun w => w.get p)).map label =
        ((w.child s).bind (fun w => w.get p)).map label := fun p => h (s :: p)
    cases hv : v.child s with
    | none =>
      cases hw : w.child s with
      | none => exact .none
      | some b => simpa [hv, hw] using hget []
    | some a =>
      cases hw : w.child s with
      | none => simpa [hv, hw] using hget []
      | some b => exact .some (fun p => by simpa [hv, hw] using hget p)
  · intro ⟨hlabel, hchild⟩ p
    cases p with
    | nil => simp [hlabel]
    | cons s p =>
      have hat := hchild s
      rw [get_cons, get_cons]
      generalize v.child s = a, w.child s = b at hat
      cases hat with
      | none => rfl
      | some hsame => exact hsame p

theorem Same.get {v w : Json ν} (h : Same v w) (p : List Step) :
    Option.Rel Same (v.get p) (w.get p) := by
  induction p generalizing v w with
  | nil => exact .some h
  | cons s p ih =>
    have hchild := (same_iff.mp h).2 s
    rw [get_cons, get_cons]
    generalize v.child s = a, w.child s = b at hchild
    cases hchild with
    | none => exact .none
    | some hsame => exact ih hsame

theorem label_eq_of_child {v w a b : Json ν} {s : Step} (ha : v.child s = some a)
    (hb : w.child s = some b) : v.label = w.label := by
  cases s <;> cases v <;> cases w <;> simp_all [child, label]

theorem same_obj_iff {fs gs : List (String × Json ν)} :
    Same (.obj fs) (.obj gs) ↔ ∀ key, Option.Rel Same (fs.lookup key) (gs.lookup key) := by
  rw [same_iff]
  constructor
  · intro h key
    exact h.2 (.key key)
  · intro h
    refine ⟨rfl, ?_⟩
    intro s
    cases s with
    | key name => exact h name
    | index i => exact .none

theorem same_arr_iff {vs ws : List (Json ν)} :
    Same (.arr vs) (.arr ws) ↔ List.Forall₂ Same vs ws := by
  constructor
  · intro h
    have hindex : ∀ i : Nat, Option.Rel Same vs[i]? ws[i]? := fun i => (same_iff.mp h).2 (.index i)
    clear h
    induction vs generalizing ws with
    | nil =>
      cases ws with
      | nil => exact .nil
      | cons w ws => cases hindex 0
    | cons v vs ih =>
      cases ws with
      | nil => cases hindex 0
      | cons w ws =>
        cases hindex 0 with
        | some hsame => exact .cons hsame (ih (fun i => hindex (i + 1)))
  · intro h
    refine same_iff.mpr ⟨rfl, ?_⟩
    intro s
    cases s with
    | key name => exact .none
    | index i =>
      show Option.Rel Same vs[i]? ws[i]?
      induction h generalizing i with
      | nil => exact .none
      | cons hsame _ ih =>
        cases i with
        | zero => simpa using hsame
        | succ i => simpa using ih i

end Json
