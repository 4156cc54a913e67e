import SorobanLens.Lib.JsonNumeral
import SorobanLens.Lib.JsonRead
import SorobanLens.Store.Decode

/-!
What the walk from natives to JSON keeps. The result is JSON that survives its own
text whatever the value; entries are lost where two keys of a Map have one text and
where a key is `__proto__`.
-/

set_option autoImplicit false

namespace SorobanLens

variable {ν : Type} (num : NumberText ν)

/-- The only numbers JSON has, up to `===`: `-0` is written as `0`. -/
abbrev FiniteNumber := {n : ν // num.isFinite n = true}

/-! ### What a value is converted to -/

mutual
/-- Nothing of a value is lost: scalars have their JSON form, arrays their length and
order, objects and Maps one property for every entry, under its key's text. -/
def Keeps : Native ν → Json ν → Prop
  | .null, r | .undefined, r => r = .null
  | .bool b, r => r = .bool b
  | .number n, r => r = if num.isFinite n then .num n else .str (num.text n)
  | .bigint n, r => r = .str (intString n)
  | .str s, r => r = .str s
  | .bytes bs, r => r = .str (hexOfBytes bs)
  | .array items, r => ∃ rs, r = .arr rs ∧ KeepsItems items rs
  | .mapOf entries, r => ∃ out, r = .obj out ∧ out.length = entries.length ∧ KeepsEntries entries out
  | .object fields, r => ∃ out, r = .obj out ∧ out.length = fields.length ∧ KeepsFields fields out

def KeepsItems : List (Native ν) → List (Json ν) → Prop
  | [], rs => rs = []
  | v :: rest, rs => ∃ r rs', rs = r :: rs' ∧ Keeps v r ∧ KeepsItems rest rs'

def KeepsEntries : List (Native ν × Native ν) → List (String × Json ν) → Prop
  | [], _ => True
  | (k, v) :: rest, out => (∃ r, (keyText num k, r) ∈ out ∧ Keeps v r) ∧ KeepsEntries rest out

def KeepsFields : List (String × Native ν) → List (String × Json ν) → Prop
  | [], _ => True
  | (k, v) :: rest, out => (∃ r, (k, r) ∈ out ∧ Keeps v r) ∧ KeepsFields rest out
end

def PlainKeys (keys : List String) : Prop := keys.Nodup ∧ "__proto__" ∉ keys

mutual
/-- At every depth, no key is `__proto__` and no two keys of a Map have one text. -/
def Clean : Native ν → Prop
  | .array items => CleanItems items
  | .mapOf entries => PlainKeys (entries.map (fun e => keyText num e.1)) ∧ CleanEntries entries
  | .object fields => PlainKeys (fields.map Prod.fst) ∧ CleanFields fields
  | _ => True

def CleanItems : List (Native ν) → Prop
  | [] => True
  | v :: rest => Clean v ∧ CleanItems rest

def CleanEntries : List (Native ν × Native ν) → Prop
  | [] => True
  | (_, v) :: rest => Clean v ∧ CleanEntries rest

def CleanFields : List (String × Native ν) → Prop
  | [] => True
  | (_, v) :: rest => Clean v ∧ CleanFields rest
end

/-! ### The properties a walk assigns -/

def ownOnly {μ : Type} (ps : List (String × Json μ)) : List (String × Json μ) :=
  ps.filter (fun p => p.1 ≠ "__proto__")

theorem foldl_assign (ps out : List (String × Json ν)) :
    ps.foldl (fun acc p => assign acc p.1 p.2) out =
      (ownOnly ps).foldl (fun acc p => Json.defineProperty acc p.1 p.2) out := by
  induction ps generalizing out with
  | nil => rfl
  | cons p ps ih =>
    rw [List.foldl_cons, ih]
    by_cases hp : p.1 = "__proto__" <;> simp [ownOnly, assign, hp]

def entryPairs (entries : List (Native ν × Native ν)) : List (String × Json ν) :=
  entries.map (fun e => (keyText num e.1, toJsonSafe num e.2))

def fieldPairs (fields : List (String × Native ν)) : List (String × Json ν) :=
  fields.map (fun f => (f.1, toJsonSafe num f.2))

theorem toJsonEntries_eq (entries : List (Native ν × Native ν)) :
    toJsonEntries num entries [] = Json.object (ownOnly (entryPairs num entries)) := by
  have hfold : ∀ out, toJsonEntries num entries out =
      (entryPairs num entries).foldl (fun acc p => assign acc p.1 p.2) out := by
    induction entries with
    | nil => intro out; simp [toJsonEntries, entryPairs]
    | cons e entries ih => intro out; simp [toJsonEntries, entryPairs, ih]
  rw [hfold, foldl_assign]
  rfl

theorem toJsonFields_eq (fields : List (String × Native ν)) :
    toJsonFields num fields [] = Json.object (ownOnly (fieldPairs num fields)) := by
  have hfold : ∀ out, toJsonFields num fields out =
      (fieldPairs num fields).foldl (fun acc p => assign acc p.1 p.2) out := by
    induction fields with
    | nil => intro out; simp [toJsonFields, fieldPairs]
    | cons f fields ih => intro out; simp [toJsonFields, fieldPairs, ih]
  rw [hfold, foldl_assign]
  rfl

theorem toJsonItems_eq (items : List (Native ν)) :
    toJsonItems num items = items.map (toJsonSafe num) := by
  induction items with
  | nil => simp [toJsonItems]
  | cons v items ih => simp [toJsonItems, ih]

theorem perm_of_plainKeys {ps : List (String × Json ν)} (h : PlainKeys (ps.map Prod.fst)) :
    (Json.object (ownOnly ps)).Perm ps := by
  have hall : ownOnly ps = ps := by
    refine List.filter_eq_self.mpr (fun p hp => ?_)
    have hne : p.1 ≠ "__proto__" := fun heq => h.2 (heq ▸ List.mem_map_of_mem hp)
    simp [hne]
  rw [hall]
  exact Json.perm_object h.1

theorem plainKeys_of_length {ps : List (String × Json ν)}
    (h : (Json.object (ownOnly ps)).length = ps.length) : PlainKeys (ps.map Prod.fst) := by
  have hsub : (Json.object (ownOnly ps)).map Prod.fst ⊆ ps.map Prod.fst := by
    intro key hkey
    obtain ⟨p, hp, rfl⟩ := List.mem_map.mp (Json.fst_mem_object hkey)
    exact List.mem_map_of_mem (List.mem_of_mem_filter hp)
  have hperm : ((Json.object (ownOnly ps)).map Prod.fst).Perm (ps.map Prod.fst) :=
    (List.subperm_of_subset (Json.nodup_object _) hsub).perm_of_length_le (by simp [h])
  constructor
  · exact hperm.nodup_iff.mp (Json.nodup_object _)
  · intro hproto
    have hmem := Json.fst_mem_object (hperm.mem_iff.mpr hproto)
    obtain ⟨p, hp, heq⟩ := List.mem_map.mp hmem
    have hne := (List.mem_filter.mp hp).2
    simp [heq] at hne

theorem value_of_plainKeys {ps : List (String × Json ν)} (h : PlainKeys (ps.map Prod.fst))
    {p : String × Json ν} (hp : p ∈ ps) (r : Json ν) :
    (p.1, r) ∈ Json.object (ownOnly ps) ↔ r = p.2 := by
  rw [(perm_of_plainKeys h).mem_iff]
  constructor
  · intro hr
    have hsame := List.inj_on_of_nodup_map h.1 hr hp rfl
    exact congrArg Prod.snd hsame
  · intro heq
    rw [heq]
    exact hp

/-! ### Exactly the clean values lose nothing -/

mutual
theorem keeps_iff_clean (v : Native ν) : Keeps num v (toJsonSafe num v) ↔ Clean num v := by
  match v with
  | .null | .undefined | .bool _ | .number _ | .bigint _ | .str _ | .bytes _ =>
    simp [Keeps, Clean, toJsonSafe]
  | .array items =>
    simp only [Keeps, Clean, toJsonSafe, Json.arr.injEq, exists_eq_left']
    exact keepsItems_iff_clean items
  | .mapOf entries =>
    simp only [Keeps, Clean, toJsonSafe, Json.obj.injEq, exists_eq_left', toJsonEntries_eq]
    have hkeys : (entryPairs num entries).map Prod.fst = entries.map (fun e => keyText num e.1) := by
      simp [entryPairs]
    have hlen : (entryPairs num entries).length = entries.length := by simp [entryPairs]
    rw [← hkeys, ← hlen]
    have hvalues (hplain : PlainKeys ((entryPairs num entries).map Prod.fst)) :=
      keepsEntries_iff_clean entries (Json.object (ownOnly (entryPairs num entries)))
        (fun e he r => value_of_plainKeys hplain
          (List.mem_map_of_mem (f := fun e => (keyText num e.1, toJsonSafe num e.2)) he) r)
    constructor
    · intro ⟨hlength, hkept⟩
      have hplain := plainKeys_of_length hlength
      exact ⟨hplain, (hvalues hplain).mp hkept⟩
    · intro ⟨hplain, hclean⟩
      exact ⟨(perm_of_plainKeys hplain).length_eq, (hvalues hplain).mpr hclean⟩
  | .object fields =>
    simp only [Keeps, Clean, toJsonSafe, Json.obj.injEq, exists_eq_left', toJsonFields_eq]
    have hkeys : (fieldPairs num fields).map Prod.fst = fields.map Prod.fst := by
      simp [fieldPairs]
    have hlen : (fieldPairs num fields).length = fields.length := by simp [fieldPairs]
    rw [← hkeys, ← hlen]
    have hvalues (hplain : PlainKeys ((fieldPairs num fields).map Prod.fst)) :=
      keepsFields_iff_clean fields (Json.object (ownOnly (fieldPairs num fields)))
        (fun f hf r => value_of_plainKeys hplain
          (List.mem_map_of_mem (f := fun f => (f.1, toJsonSafe num f.2)) hf) r)
    constructor
    · intro ⟨hlength, hkept⟩
      have hplain := plainKeys_of_length hlength
      exact ⟨hplain, (hvalues hplain).mp hkept⟩
    · intro ⟨hplain, hclean⟩
      exact ⟨(perm_of_plainKeys hplain).length_eq, (hvalues hplain).mpr hclean⟩

theorem keepsItems_iff_clean (items : List (Native ν)) :
    KeepsItems num items (toJsonItems num items) ↔ CleanItems num items := by
  match items with
  | [] => simp [KeepsItems, CleanItems, toJsonItems]
  | v :: rest =>
    simp only [KeepsItems, CleanItems, toJsonItems, List.cons.injEq]
    rw [← keeps_iff_clean v, ← keepsItems_iff_clean rest]
    constructor
    · intro ⟨r, rs, ⟨hr, hrs⟩, hkeep, hrest⟩
      exact ⟨hr ▸ hkeep, hrs ▸ hrest⟩
    · intro ⟨hkeep, hrest⟩
      exact ⟨_, _, ⟨rfl, rfl⟩, hkeep, hrest⟩

theorem keepsEntries_iff_clean (entries : List (Native ν × Native ν)) (out : List (String × Json ν))
    (hout : ∀ e ∈ entries, ∀ r, (keyText num e.1, r) ∈ out ↔ r = toJsonSafe num e.2) :
    KeepsEntries num entries out ↔ CleanEntries num entries := by
  match entries with
  | [] => simp [KeepsEntries, CleanEntries]
  | (k, v) :: rest =>
    obtain ⟨hhead, htail⟩ := List.forall_mem_cons.mp hout
    simp only [KeepsEntries, CleanEntries, hhead, exists_eq_left]
    rw [keeps_iff_clean v, keepsEntries_iff_clean rest out htail]

theorem keepsFields_iff_clean (fields : List (String × Native ν)) (out : List (String × Json ν))
    (hout : ∀ f ∈ fields, ∀ r, (f.1, r) ∈ out ↔ r = toJsonSafe num f.2) :
    KeepsFields num fields out ↔ CleanFields num fields := by
  match fields with
  | [] => simp [KeepsFields, CleanFields]
  | (k, v) :: rest =>
    obtain ⟨hhead, htail⟩ := List.forall_mem_cons.mp hout
    simp only [KeepsFields, CleanFields, hhead, exists_eq_left]
    rw [keeps_iff_clean v, keepsFields_iff_clean rest out htail]
end

/-! ### The result is JSON -/

def IsJson (r : Json ν) : Prop :=
  ∃ j : Json (FiniteNumber num), r = j.mapNum Subtype.val ∧ Json.Canonical j

theorem isJson_object {ps : List (String × Json ν)} (h : ∀ p ∈ ps, IsJson num p.2) :
    IsJson num (.obj (Json.object (ownOnly ps))) := by
  have hall : ∃ js : List (String × Json (FiniteNumber num)),
      ownOnly ps = js.map (fun j => (j.1, j.2.mapNum Subtype.val)) ∧
        ∀ j ∈ js, Json.Canonical j.2 := by
    have hown : ∀ p ∈ ownOnly ps, IsJson num p.2 := fun p hp => h p (List.mem_of_mem_filter hp)
    clear h
    generalize ownOnly ps = qs at hown
    induction qs with
    | nil => exact ⟨[], by simp⟩
    | cons p qs ih =>
      obtain ⟨hp, hqs⟩ := List.forall_mem_cons.mp hown
      obtain ⟨j, hj, hcanon⟩ := hp
      obtain ⟨js, hjs, hcanons⟩ := ih hqs
      refine ⟨(p.1, j) :: js, ?_, List.forall_mem_cons.mpr ⟨hcanon, hcanons⟩⟩
      rw [List.map_cons, hjs, ← hj]
  obtain ⟨js, hjs, hcanon⟩ := hall
  refine ⟨.obj (Json.object js), ?_, Json.canonical_object hcanon⟩
  rw [hjs, Json.object_map, Json.mapNum, Json.mapFields_eq]

theorem isJson_arr {vs : List (Json ν)} (h : ∀ v ∈ vs, IsJson num v) : IsJson num (.arr vs) := by
  have hall : ∃ js : List (Json (FiniteNumber num)),
      vs = js.map (Json.mapNum Subtype.val) ∧ ∀ j ∈ js, Json.Canonical j := by
    induction vs with
    | nil => exact ⟨[], by simp⟩
    | cons v vs ih =>
      obtain ⟨hv, hvs⟩ := List.forall_mem_cons.mp h
      obtain ⟨j, rfl, hcanon⟩ := hv
      obtain ⟨js, rfl, hcanons⟩ := ih hvs
      exact ⟨j :: js, by simp, List.forall_mem_cons.mpr ⟨hcanon, hcanons⟩⟩
  obtain ⟨js, rfl, hcanon⟩ := hall
  exact ⟨.arr js, by rw [Json.mapNum, Json.mapItems_eq], Json.canonical_arr hcanon⟩

mutual
theorem isJson_toJsonSafe (v : Native ν) : IsJson num (toJsonSafe num v) := by
  match v with
  | .null | .undefined => exact ⟨.null, by simp [toJsonSafe, Json.mapNum], rfl⟩
  | .bool b => exact ⟨.bool b, by simp [toJsonSafe, Json.mapNum], rfl⟩
  | .bigint n => exact ⟨.str (intString n), by simp [toJsonSafe, Json.mapNum], rfl⟩
  | .str s => exact ⟨.str s, by simp [toJsonSafe, Json.mapNum], rfl⟩
  | .bytes bs => exact ⟨.str (hexOfBytes bs), by simp [toJsonSafe, Json.mapNum], rfl⟩
  | .number n =>
    cases hn : num.isFinite n with
    | true => exact ⟨.num ⟨n, hn⟩, by simp [toJsonSafe, Json.mapNum, hn], rfl⟩
    | false => exact ⟨.str (num.text n), by simp [toJsonSafe, Json.mapNum, hn], rfl⟩
  | .array items =>
    rw [toJsonSafe]
    refine isJson_arr num ?_
    rw [toJsonItems_eq, List.forall_mem_map]
    exact isJson_items items
  | .mapOf entries =>
    rw [toJsonSafe, toJsonEntries_eq]
    refine isJson_object num ?_
    rw [entryPairs, List.forall_mem_map]
    exact isJson_entries entries
  | .object fields =>
    rw [toJsonSafe, toJsonFields_eq]
    refine isJson_object num ?_
    rw [fieldPairs, List.forall_mem_map]
    exact isJson_fields fields

theorem isJson_items (items : List (Native ν)) : ∀ v ∈ items, IsJson num (toJsonSafe num v) := by
  match items with
  | [] => simp
  | v :: rest => exact List.forall_mem_cons.mpr ⟨isJson_toJsonSafe v, isJson_items rest⟩

theorem isJson_entries (entries : List (Native ν × Native ν)) :
    ∀ e ∈ entries, IsJson num (toJsonSafe num e.2) := by
  match entries with
  | [] => simp
  | (k, v) :: rest => exact List.forall_mem_cons.mpr ⟨isJson_toJsonSafe v, isJson_entries rest⟩

theorem isJson_fields (fields : List (String × Native ν)) :
    ∀ f ∈ fields, IsJson num (toJsonSafe num f.2) := by
  match fields with
  | [] => simp
  | (k, v) :: rest => exact List.forall_mem_cons.mpr ⟨isJson_toJsonSafe v, isJson_fields rest⟩
end

/-- The result is JSON, it survives `JSON.parse(JSON.stringify(r))`, and it keeps
everything of the value. -/
def LosesNothing (fmt : Json.NumFormat (FiniteNumber num)) (v : Native ν) : Prop :=
  (∃ r, toJsonSafe num v = r.mapNum Subtype.val ∧ Json.parse fmt (Json.stringify fmt r) = some r) ∧
    Keeps num v (toJsonSafe num v)

theorem toJsonSafe_loses_nothing (fmt : Json.NumFormat (FiniteNumber num)) (v : Native ν) :
    LosesNothing num fmt v ↔ Clean num v := by
  obtain ⟨j, hj, hcanon⟩ := isJson_toJsonSafe num v
  have hround := Json.parse_stringify_canonical fmt hcanon
  rw [← keeps_iff_clean num v]
  exact ⟨fun h => h.2, fun h => ⟨⟨j, hj, hround⟩, h⟩⟩

/-- A key that a contract may choose. -/
theorem proto_key_lost :
    ¬ LosesNothing intText (Json.intFormat.restrict _) (.object [("__proto__", .str "a")]) := by
  intro h
  have hkept := (keeps_iff_clean intText (.object [("__proto__", .str "a")])).mp h.2
  simp [Clean, PlainKeys] at hkept

end SorobanLens
