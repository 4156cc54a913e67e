import SorobanLens.Lib.Json
import SorobanLens.Lib.Keyset
import Mathlib.Data.String.Basic

/-!
JSON values as a binary store keeps them: every object holds each key once,
shorter keys first, whatever order it was written in.
-/

set_option autoImplicit false

namespace Json

/-- The order of keys in a stored object: by length in bytes, then bytewise. -/
def KeyBefore (a b : String) : Prop :=
  a.utf8ByteSize < b.utf8ByteSize ∨ (a.utf8ByteSize = b.utf8ByteSize ∧ a < b)

instance : DecidableRel KeyBefore := fun a b =>
  inferInstanceAs (Decidable (a.utf8ByteSize < b.utf8ByteSize ∨
    (a.utf8ByteSize = b.utf8ByteSize ∧ a < b)))

instance : IsStrictTotalOrder String KeyBefore where
  irrefl a h := h.elim (fun h => absurd h (lt_irrefl _)) (fun h => absurd h.2 (lt_irrefl _))
  trans a b c hab hbc := by
    rcases hab with hab | ⟨hab, hlt⟩
    · rcases hbc with hbc | ⟨hbc, -⟩
      · exact .inl (hab.trans hbc)
      · exact .inl (hbc ▸ hab)
    · rcases hbc with hbc | ⟨hbc, hlt'⟩
      · exact .inl (hab ▸ hbc)
      · exact .inr ⟨hab.trans hbc, hlt.trans hlt'⟩
  trichotomous a b hab hba := by
    unfold KeyBefore at hab hba
    rcases lt_trichotomy a.utf8ByteSize b.utf8ByteSize with hsize | hsize | hsize
    · exact absurd (.inl hsize) hab
    · rcases lt_trichotomy a b with hlt | heq | hlt
      · exact absurd (.inr ⟨hsize, hlt⟩) hab
      · exact heq
      · exact absurd (.inr ⟨hsize.symm, hlt⟩) hba
    · exact absurd (.inl hsize) hba

variable {ν : Type}

mutual
def jsonb : Json ν → Json ν
  | .arr vs => .arr (jsonbItems vs)
  | .obj fs => .obj (Keyset.arrange Prod.fst KeyBefore (object (jsonbFields fs)))
  | v => v

def jsonbItems : List (Json ν) → List (Json ν)
  | [] => []
  | v :: vs => jsonb v :: jsonbItems vs

def jsonbFields : List (String × Json ν) → List (String × Json ν)
  | [] => []
  | (k, v) :: fs => (k, jsonb v) :: jsonbFields fs
end

/-- `column::text`. -/
def jsonbText (fmt : NumFormat ν) (v : Json ν) : String :=
  String.ofList (renderSpaced fmt [' '] (jsonb v))

theorem parse_jsonbText (fmt : NumFormat ν) (v : Json ν) :
    parse fmt (jsonbText fmt v) = some (normalise (jsonb v)) :=
  parse_renderSpaced fmt (by simp [isSpace]) (jsonb v)

mutual
def texts : Json ν → List String
  | .str s => [s]
  | .arr vs => itemTexts vs
  | .obj fs => fieldTexts fs
  | _ => []

def itemTexts : List (Json ν) → List String
  | [] => []
  | v :: vs => texts v ++ itemTexts vs

def fieldTexts : List (String × Json ν) → List String
  | [] => []
  | (k, v) :: fs => k :: (texts v ++ fieldTexts fs)
end

/-! ### The properties of an object -/

theorem normaliseFields_eq (fs : List (String × Json ν)) :
    normaliseFields fs = fs.map (fun f => (f.1, f.2.normalise)) := by
  induction fs with
  | nil => rfl
  | cons f fs ih => simp [normaliseFields, ih]

theorem jsonbFields_eq (fs : List (String × Json ν)) :
    jsonbFields fs = fs.map (fun f => (f.1, f.2.jsonb)) := by
  induction fs with
  | nil => rfl
  | cons f fs ih => simp [jsonbFields, ih]

theorem mem_placeProperty {key : String} {value : Json ν} {fs : List (String × Json ν)}
    {f : String × Json ν} : f ∈ placeProperty key value fs ↔ f = (key, value) ∨ f ∈ fs := by
  induction fs with
  | nil => simp [placeProperty]
  | cons g fs ih =>
    obtain ⟨k, v⟩ := g
    unfold placeProperty
    split
    · simp
    · split <;> simp [ih]; tauto
    · simp [ih]; tauto

theorem perm_placeProperty (key : String) (value : Json ν) (fs : List (String × Json ν)) :
    (placeProperty key value fs).Perm ((key, value) :: fs) := by
  induction fs with
  | nil => exact .refl _
  | cons g fs ih =>
    obtain ⟨k, v⟩ := g
    have hswap := (ih.cons (k, v)).trans (List.Perm.swap _ _ _)
    unfold placeProperty
    split
    · exact .refl _
    · split
      · exact .refl _
      · exact hswap
    · exact hswap

theorem map_defineProperty {μ : Type} (g : Json ν → Json μ) (fs : List (String × Json ν))
    (k : String) (v : Json ν) : defineProperty (fs.map (fun f => (f.1, g f.2))) k (g v) =
      (defineProperty fs k v).map (fun f => (f.1, g f.2)) := by
  have hplace : ∀ fs : List (String × Json ν),
      placeProperty k (g v) (fs.map (fun f => (f.1, g f.2))) =
        (placeProperty k v fs).map (fun f => (f.1, g f.2)) := by
    intro fs
    induction fs with
    | nil => rfl
    | cons f fs ih =>
      simp only [List.map_cons, placeProperty, ih]
      split
      · simp
      · split <;> simp
      · simp
  have hany : (fs.map (fun f => (f.1, g f.2))).any (fun f => decide (f.1 = k)) =
      fs.any (fun f => decide (f.1 = k)) := by
    rw [List.any_map]
    rfl
  unfold defineProperty
  rw [hplace, hany]
  split
  · rw [List.map_map, List.map_map]
    refine List.map_congr_left (fun f _ => ?_)
    simp only [Function.comp]
    split <;> rfl
  · rfl

theorem object_map {μ : Type} (g : Json ν → Json μ) (fs : List (String × Json ν)) :
    object (fs.map (fun f => (f.1, g f.2))) = (object fs).map (fun f => (f.1, g f.2)) := by
  have hfold : ∀ acc : List (String × Json ν),
      (fs.map (fun f => (f.1, g f.2))).foldl (fun acc f => defineProperty acc f.1 f.2)
        (acc.map (fun f => (f.1, g f.2))) =
      (fs.foldl (fun acc f => defineProperty acc f.1 f.2) acc).map (fun f => (f.1, g f.2)) := by
    induction fs with
    | nil => intro acc; rfl
    | cons f fs ih =>
      intro acc
      simp only [List.map_cons, List.foldl_cons]
      rw [map_defineProperty, ih]
  exact hfold []

theorem fst_mem_defineProperty {fs : List (String × Json ν)} {k key : String} {v : Json ν}
    (h : key ∈ (defineProperty fs k v).map Prod.fst) : key = k ∨ key ∈ fs.map Prod.fst := by
  obtain ⟨f, hf, rfl⟩ := List.mem_map.mp h
  unfold defineProperty at hf
  split at hf
  · obtain ⟨g, hg, rfl⟩ := List.mem_map.mp hf
    split
    · exact .inl rfl
    · exact .inr (List.mem_map_of_mem hg)
  · have hplaced := mem_placeProperty.mp hf
    cases hplaced with
    | inl heq => exact .inl (by rw [heq])
    | inr hmem => exact .inr (List.mem_map_of_mem hmem)

theorem fst_mem_object {fs : List (String × Json ν)} {key : String}
    (h : key ∈ (object fs).map Prod.fst) : key ∈ fs.map Prod.fst := by
  induction fs using List.reverseRecOn with
  | nil => exact h
  | append_singleton fs f ih =>
    rw [object, List.foldl_append] at h
    have hlast := fst_mem_defineProperty h
    simp only [List.map_append, List.mem_append]
    cases hlast with
    | inl heq => exact .inr (by simp [heq])
    | inr hmem => exact .inl (ih hmem)

theorem nodup_defineProperty {fs : List (String × Json ν)} (h : (fs.map Prod.fst).Nodup)
    (k : String) (v : Json ν) : ((defineProperty fs k v).map Prod.fst).Nodup := by
  unfold defineProperty
  split
  · have hkeys : (fs.map (fun f => if f.1 = k then (k, v) else f)).map Prod.fst =
        fs.map Prod.fst := by
      rw [List.map_map]
      refine List.map_congr_left (fun f _ => ?_)
      by_cases hf : f.1 = k <;> simp [hf]
    rw [hkeys]
    exact h
  · rename_i hany
    rw [((perm_placeProperty k v fs).map Prod.fst).nodup_iff, List.map_cons, List.nodup_cons]
    refine ⟨?_, h⟩
    intro hk
    obtain ⟨f, hf, hfk⟩ := List.mem_map.mp hk
    exact hany (List.any_eq_true.mpr ⟨f, hf, decide_eq_true hfk⟩)

theorem nodup_object (fs : List (String × Json ν)) : ((object fs).map Prod.fst).Nodup := by
  have hfold : ∀ acc : List (String × Json ν), (acc.map Prod.fst).Nodup →
      ((fs.foldl (fun acc f => defineProperty acc f.1 f.2) acc).map Prod.fst).Nodup := by
    induction fs with
    | nil => intro acc h; exact h
    | cons f fs ih => intro acc h; exact ih _ (nodup_defineProperty h f.1 f.2)
  exact hfold [] (by simp)

theorem perm_object {fs : List (String × Json ν)} (h : (fs.map Prod.fst).Nodup) :
    (object fs).Perm fs := by
  induction fs using List.reverseRecOn with
  | nil => exact .refl _
  | append_singleton fs f ih =>
    rw [List.map_append, List.nodup_append] at h
    have hfs := ih h.1
    have hnew : ¬ (object fs).any (fun g => decide (g.1 = f.1)) = true := by
      intro hany
      obtain ⟨g, hg, hk⟩ := List.any_eq_true.mp hany
      exact h.2.2 g.1 (List.mem_map_of_mem (hfs.mem_iff.mp hg)) f.1 (by simp) (of_decide_eq_true hk)
    have hobj : object (fs ++ [f]) = placeProperty f.1 f.2 (object fs) := by
      simp only [object, List.foldl_append, List.foldl_cons, List.foldl_nil]
      exact if_neg hnew
    rw [hobj]
    exact (perm_placeProperty _ _ _).trans ((hfs.cons f).trans (List.perm_append_singleton f fs).symm)

/-! ### Storing a value that was read -/

theorem arrange_perm {fs gs : List (String × Json ν)} (h : fs.Perm gs)
    (hn : (gs.map Prod.fst).Nodup) :
    Keyset.arrange Prod.fst KeyBefore fs = Keyset.arrange Prod.fst KeyBefore gs := by
  have hfs : (fs.map Prod.fst).Nodup := (h.map Prod.fst).nodup_iff.mpr hn
  apply Keyset.Ascending.eq_of_mem (Keyset.ascending_arrange hfs) (Keyset.ascending_arrange hn)
  intro f
  rw [Keyset.mem_arrange, Keyset.mem_arrange, h.mem_iff]

theorem jsonbFields_object (fs : List (String × Json ν)) :
    jsonbFields (object fs) = object (jsonbFields fs) := by
  rw [jsonbFields_eq, jsonbFields_eq, object_map]

theorem perm_arrange (fs : List (String × Json ν)) :
    (Keyset.arrange Prod.fst KeyBefore fs).Perm fs := List.perm_insertionSort _ fs

mutual
/-- How an engine enumerates a value does not show in what is kept of it. -/
theorem jsonb_normalise (v : Json ν) : jsonb (normalise v) = jsonb v := by
  match v with
  | .null | .bool b | .num n | .str s => rfl
  | .arr vs => simp only [normalise, jsonb, jsonbItems_normalise vs]
  | .obj fs =>
    simp only [normalise, jsonb, jsonbFields_object, jsonbFields_normalise fs]
    rw [arrange_perm (perm_object (nodup_object _)) (nodup_object _)]

theorem jsonbItems_normalise (vs : List (Json ν)) :
    jsonbItems (normaliseItems vs) = jsonbItems vs := by
  match vs with
  | [] => rfl
  | v :: vs => simp only [normaliseItems, jsonbItems, jsonb_normalise v, jsonbItems_normalise vs]

theorem jsonbFields_normalise (fs : List (String × Json ν)) :
    jsonbFields (normaliseFields fs) = jsonbFields fs := by
  match fs with
  | [] => rfl
  | (k, v) :: fs =>
    simp only [normaliseFields, jsonbFields, jsonb_normalise v, jsonbFields_normalise fs]
end

mutual
theorem jsonb_jsonb (v : Json ν) : jsonb (jsonb v) = jsonb v := by
  match v with
  | .null | .bool b | .num n | .str s => rfl
  | .arr vs => simp only [jsonb, jsonbItems_jsonbItems vs]
  | .obj fs =>
    have hstored : (jsonbFields (Keyset.arrange Prod.fst KeyBefore (object (jsonbFields fs)))).Perm
        (object (jsonbFields fs)) := by
      have hperm := (perm_arrange (object (jsonbFields fs))).map (fun f => (f.1, f.2.jsonb))
      rw [← jsonbFields_eq, ← jsonbFields_eq, jsonbFields_object, jsonbFields_jsonbFields fs] at hperm
      exact hperm
    have hkeys := (hstored.map Prod.fst).nodup_iff.mpr (nodup_object (jsonbFields fs))
    simp only [jsonb]
    rw [arrange_perm ((perm_object hkeys).trans hstored) (nodup_object _)]

theorem jsonbItems_jsonbItems (vs : List (Json ν)) :
    jsonbItems (jsonbItems vs) = jsonbItems vs := by
  match vs with
  | [] => rfl
  | v :: vs => simp only [jsonbItems, jsonb_jsonb v, jsonbItems_jsonbItems vs]

theorem jsonbFields_jsonbFields (fs : List (String × Json ν)) :
    jsonbFields (jsonbFields fs) = jsonbFields fs := by
  match fs with
  | [] => rfl
  | (k, v) :: fs => simp only [jsonbFields, jsonb_jsonb v, jsonbFields_jsonbFields fs]
end

end Json
