import SorobanLens.Lib.Jsonb

/-!
What the JSON reader does with any text, not only one that was written: it holds
objects in enumeration order, and it takes no proper beginning of an object's
text. Then which characters a written text is made of.
-/

set_option autoImplicit false

namespace Json

variable {ν : Type}

/-! ### The order of properties -/

/-- Array indices ascend in front of all other keys. -/
def InOrder (a b : String) : Prop :=
  match arrayIndex a, arrayIndex b with
  | some i, some j => i ≤ j
  | none, some _ => False
  | _, none => True

theorem InOrder.trans {a b c : String} (hab : InOrder a b) (hbc : InOrder b c) : InOrder a c := by
  unfold InOrder at *
  grind

def Ordered (fs : List (String × Json ν)) : Prop := fs.Pairwise (fun f g => InOrder f.1 g.1)

theorem Ordered.placeProperty {fs : List (String × Json ν)} (h : Ordered fs) (key : String)
    (value : Json ν) : Ordered (placeProperty key value fs) := by
  induction fs with
  | nil => exact List.pairwise_singleton _ _
  | cons g fs ih =>
    obtain ⟨k, v⟩ := g
    obtain ⟨hhead, htail⟩ := List.pairwise_cons.mp h
    have hfirst : InOrder key k → Ordered ((key, value) :: (k, v) :: fs) := by
      intro hk
      refine List.pairwise_cons.mpr ⟨?_, h⟩
      intro f hf
      rcases List.mem_cons.mp hf with rfl | hf
      · exact hk
      · exact hk.trans (hhead f hf)
    have hlater : InOrder k key → Ordered ((k, v) :: Json.placeProperty key value fs) := by
      intro hk
      refine List.pairwise_cons.mpr ⟨?_, ih htail⟩
      intro f hf
      rcases mem_placeProperty.mp hf with rfl | hf
      · exact hk
      · exact hhead f hf
    unfold Json.placeProperty
    split
    · rename_i hi hn
      exact hfirst (by simp [InOrder, hi, hn])
    · rename_i i j hi hj
      split
      · exact hfirst (by simp only [InOrder, hi, hj]; omega)
      · exact hlater (by simp only [InOrder, hi, hj]; omega)
    · rename_i hn
      exact hlater (by simp [InOrder, hn])

theorem Ordered.defineProperty {fs : List (String × Json ν)} (h : Ordered fs) (key : String)
    (value : Json ν) : Ordered (defineProperty fs key value) := by
  unfold Json.defineProperty
  split
  · refine List.pairwise_map.mpr (h.imp ?_)
    intro f g hfg
    by_cases hf : f.1 = key <;> by_cases hg : g.1 = key <;> simp_all
  · exact h.placeProperty key value

theorem ordered_object (fs : List (String × Json ν)) : Ordered (object fs) := by
  have hfold : ∀ acc : List (String × Json ν), Ordered acc →
      Ordered (fs.foldl (fun acc f => Json.defineProperty acc f.1 f.2) acc) := by
    induction fs with
    | nil => intro acc h; exact h
    | cons f fs ih => intro acc h; exact ih _ (h.defineProperty f.1 f.2)
  exact hfold [] List.Pairwise.nil

theorem placeProperty_last {fs : List (String × Json ν)} {f : String × Json ν}
    (h : ∀ g ∈ fs, InOrder g.1 f.1) : Json.placeProperty f.1 f.2 fs = fs ++ [f] := by
  induction fs with
  | nil => rfl
  | cons g fs ih =>
    obtain ⟨hg, hfs⟩ := List.forall_mem_cons.mp h
    unfold InOrder at hg
    unfold Json.placeProperty
    split
    · rename_i hi hn
      simp [hi, hn] at hg
    · rename_i hi hj
      simp only [hi, hj] at hg
      simp [Nat.not_lt.mpr hg, ih hfs]
    · simp [ih hfs]

theorem object_of_ordered {fs : List (String × Json ν)} (h : Ordered fs)
    (hn : (fs.map Prod.fst).Nodup) : object fs = fs := by
  induction fs using List.reverseRecOn with
  | nil => rfl
  | append_singleton fs f ih =>
    obtain ⟨hfs, -, hlast⟩ := List.pairwise_append.mp h
    rw [List.map_append, List.nodup_append] at hn
    have hnew : ¬ fs.any (fun g => decide (g.1 = f.1)) = true := by
      intro hany
      obtain ⟨g, hg, hk⟩ := List.any_eq_true.mp hany
      exact hn.2.2 g.1 (List.mem_map_of_mem hg) f.1 (by simp) (of_decide_eq_true hk)
    have hobj : object (fs ++ [f]) = Json.defineProperty (object fs) f.1 f.2 := by
      simp [object, List.foldl_append]
    rw [hobj, ih hfs hn.1, Json.defineProperty, if_neg hnew]
    exact placeProperty_last (fun g hg => hlast g hg f (by simp))

theorem object_of_names {fs : List (String × Json ν)} (h : ∀ f ∈ fs, arrayIndex f.1 = none)
    (hn : (fs.map Prod.fst).Nodup) : object fs = fs := by
  refine object_of_ordered (List.pairwise_of_forall_mem_list ?_) hn
  intro f _ g hg
  simp [InOrder, h g hg]

theorem object_object (fs : List (String × Json ν)) : object (object fs) = object fs :=
  object_of_ordered (ordered_object fs) (nodup_object fs)

/-! ### What is read is as an engine holds it -/

theorem normaliseFields_object (fs : List (String × Json ν)) :
    normaliseFields (object fs) = object (normaliseFields fs) := by
  rw [normaliseFields_eq, normaliseFields_eq, object_map]

mutual
theorem normalise_normalise (v : Json ν) : normalise (normalise v) = normalise v := by
  match v with
  | .null | .bool b | .num n | .str s => rfl
  | .arr vs => simp only [normalise, normaliseItems_normaliseItems vs]
  | .obj fs =>
    simp only [normalise, normaliseFields_object, normaliseFields_normaliseFields fs, object_object]

theorem normaliseItems_normaliseItems (vs : List (Json ν)) :
    normaliseItems (normaliseItems vs) = normaliseItems vs := by
  match vs with
  | [] => rfl
  | v :: vs => simp only [normaliseItems, normalise_normalise v, normaliseItems_normaliseItems vs]

theorem normaliseFields_normaliseFields (fs : List (String × Json ν)) :
    normaliseFields (normaliseFields fs) = normaliseFields fs := by
  match fs with
  | [] => rfl
  | (k, v) :: fs =>
    simp only [normaliseFields, normalise_normalise v, normaliseFields_normaliseFields fs]
end

theorem Canonical.item {vs : List (Json ν)} (h : Canonical (.arr vs)) {v : Json ν} (hv : v ∈ vs) :
    Canonical v := by
  have hitems : normaliseItems vs = vs := by
    unfold Canonical at h
    simpa only [normalise, Json.arr.injEq] using h
  clear h
  induction vs with
  | nil => simp at hv
  | cons x xs ih =>
    simp only [normaliseItems, List.cons.injEq] at hitems
    rcases List.mem_cons.mp hv with rfl | hv
    · exact hitems.1
    · exact ih hv hitems.2

theorem Canonical.field {fs : List (String × Json ν)} (h : Canonical (.obj fs)) {k : String}
    {v : Json ν} (hv : (k, v) ∈ fs) : Canonical v := by
  have hfields : (object fs).map (fun f => (f.1, f.2.normalise)) = fs := by
    unfold Canonical at h
    rwa [normalise, Json.obj.injEq, normaliseFields_eq, object_map] at h
  rw [← hfields] at hv
  obtain ⟨f, -, heq⟩ := List.mem_map.mp hv
  rw [← (Prod.mk.inj heq).2]
  exact normalise_normalise f.2

theorem canonical_arr {vs : List (Json ν)} (h : ∀ v ∈ vs, Canonical v) : Canonical (.arr vs) := by
  have hitems : normaliseItems vs = vs := by
    induction vs with
    | nil => rfl
    | cons v vs ih =>
      obtain ⟨hv, hvs⟩ := List.forall_mem_cons.mp h
      rw [normaliseItems, show normalise v = v from hv, ih hvs]
  unfold Canonical
  rw [normalise, hitems]

theorem canonical_object {fs : List (String × Json ν)} (h : ∀ f ∈ fs, Canonical f.2) :
    Canonical (.obj (object fs)) := by
  have hfields : normaliseFields fs = fs := by
    rw [normaliseFields_eq]
    conv_rhs => rw [← List.map_id fs]
    refine List.map_congr_left (fun f hf => ?_)
    rw [show f.2.normalise = f.2 from h f hf]
    rfl
  unfold Canonical
  rw [normalise, normaliseFields_object, hfields, object_object]

mutual
theorem parseValue_canonical {fmt : NumFormat ν} {fuel : Nat} {cs rest : List Char} {v : Json ν}
    (h : parseValue fmt fuel cs = some (v, rest)) : Canonical v := by
  match fuel, h with
  | fuel + 1, h =>
    unfold parseValue at h
    split at h
    case h_1 | h_2 | h_3 =>
      simp only [Option.some.injEq, Prod.mk.injEq] at h
      rw [← h.1]
      rfl
    case h_4 | h_7 =>
      simp only [Option.bind_eq_bind, Option.bind_eq_some_iff, Option.some.injEq, Prod.mk.injEq] at h
      obtain ⟨-, -, rfl, -⟩ := h
      rfl
    case h_5 =>
      split at h
      · simp only [Option.some.injEq, Prod.mk.injEq] at h
        rw [← h.1]
        rfl
      · simp only [Option.bind_eq_bind, Option.bind_eq_some_iff, Option.some.injEq,
          Prod.mk.injEq] at h
        obtain ⟨_, hx, _, hxs, rfl, -⟩ := h
        have hv : normalise _ = _ := parseValue_canonical hx
        simp only [Canonical, normalise, normaliseItems, hv, parseItems_canonical hxs]
    case h_6 =>
      split at h
      · simp only [Option.some.injEq, Prod.mk.injEq] at h
        rw [← h.1]
        rfl
      · simp only [Option.bind_eq_bind, Option.bind_eq_some_iff, Option.some.injEq,
          Prod.mk.injEq] at h
        obtain ⟨_, hx, _, hxs, rfl, -⟩ := h
        simp only [Canonical, normalise, normaliseFields_object, normaliseFields,
          parseField_canonical hx, parseFields_canonical hxs, object_object]
termination_by fuel

theorem parseItems_canonical {fmt : NumFormat ν} {fuel : Nat} {cs rest : List Char}
    {vs : List (Json ν)} (h : parseItems fmt fuel cs = some (vs, rest)) :
    normaliseItems vs = vs := by
  match fuel, h with
  | fuel + 1, h =>
    unfold parseItems at h
    split at h
    case h_1 =>
      simp only [Option.some.injEq, Prod.mk.injEq] at h
      rw [← h.1]
      rfl
    case h_2 =>
      simp only [Option.bind_eq_bind, Option.bind_eq_some_iff, Option.some.injEq, Prod.mk.injEq] at h
      obtain ⟨_, hx, _, hxs, rfl, -⟩ := h
      have hv : normalise _ = _ := parseValue_canonical hx
      rw [normaliseItems, hv, parseItems_canonical hxs]
    case h_3 => cases h
termination_by fuel

theorem parseField_canonical {fmt : NumFormat ν} {fuel : Nat} {cs rest : List Char}
    {f : String × Json ν} (h : parseField fmt fuel cs = some (f, rest)) :
    normalise f.2 = f.2 := by
  match fuel, h with
  | fuel + 1, h =>
    unfold parseField at h
    split at h
    case h_1 =>
      simp only [Option.bind_eq_bind, Option.bind_eq_some_iff] at h
      obtain ⟨_, -, h⟩ := h
      split at h
      · simp only [Option.bind_eq_some_iff, Option.some.injEq, Prod.mk.injEq] at h
        obtain ⟨_, hx, rfl, -⟩ := h
        exact parseValue_canonical hx
      · cases h
    case h_2 => cases h
termination_by fuel

theorem parseFields_canonical {fmt : NumFormat ν} {fuel : Nat} {cs rest : List Char}
    {fs : List (String × Json ν)} (h : parseFields fmt fuel cs = some (fs, rest)) :
    normaliseFields fs = fs := by
  match fuel, h with
  | fuel + 1, h =>
    unfold parseFields at h
    split at h
    case h_1 =>
      simp only [Option.some.injEq, Prod.mk.injEq] at h
      rw [← h.1]
      rfl
    case h_2 =>
      simp only [Option.bind_eq_bind, Option.bind_eq_some_iff, Option.some.injEq, Prod.mk.injEq] at h
      obtain ⟨⟨⟨k, v⟩, _⟩, hx, _, hxs, rfl, -⟩ := h
      have hv : normalise v = v := parseField_canonical hx
      simp only [normaliseFields, hv, parseFields_canonical hxs]
    case h_3 => cases h
termination_by fuel
end

theorem parse_canonical {fmt : NumFormat ν} {s : String} {v : Json ν} (h : parse fmt s = some v) :
    Canonical v := by
  simp only [parse, Option.bind_eq_bind, Option.bind_eq_some_iff] at h
  obtain ⟨⟨w, rest⟩, hw, h⟩ := h
  split at h
  · simp only [Option.some.injEq] at h
    exact h ▸ parseValue_canonical hw
  · cases h

/-! ### Integers -/

theorem readNat_eq (cs : List Char) : readNat cs =
    if cs.takeWhile Char.isDigit = [] then none
    else some (Nat.ofDigitChars 10 (cs.takeWhile Char.isDigit) 0, cs.dropWhile Char.isDigit) := by
  unfold readNat
  rw [List.span_eq_takeWhile_dropWhile]
  cases cs.takeWhile Char.isDigit <;> simp

theorem readNat_extend {cs rest : List Char} {n : Nat} (h : readNat cs = some (n, rest))
    (hrest : rest ≠ []) (more : List Char) : readNat (cs ++ more) = some (n, rest ++ more) := by
  rw [readNat_eq] at h ⊢
  by_cases hnil : cs.takeWhile Char.isDigit = []
  · simp [hnil] at h
  · simp only [hnil, if_false, Option.some.injEq, Prod.mk.injEq] at h
    obtain ⟨hn, hd⟩ := h
    have hdrop : (cs ++ more).dropWhile Char.isDigit = rest ++ more := by
      rw [List.dropWhile_append, hd]
      simp [hrest]
    have htake : (cs ++ more).takeWhile Char.isDigit = cs.takeWhile Char.isDigit := by
      have hsplit := List.takeWhile_append_dropWhile (p := Char.isDigit) (l := cs ++ more)
      have hcs := List.takeWhile_append_dropWhile (p := Char.isDigit) (l := cs)
      rw [hd] at hcs
      rw [hdrop] at hsplit
      nth_rewrite 2 [← hcs] at hsplit
      rw [List.append_assoc] at hsplit
      exact List.append_cancel_right hsplit
    simp [htake, hdrop, hnil, hn]

theorem head_readNat {cs rest : List Char} {n : Nat} (h : readNat cs = some (n, rest)) :
    ∃ c ds, cs = c :: ds ∧ c.isDigit = true := by
  rw [readNat_eq] at h
  cases cs with
  | nil => simp at h
  | cons c ds =>
    cases hc : c.isDigit with
    | true => exact ⟨c, ds, rfl, hc⟩
    | false => simp [hc] at h

/-- A number is read up to what cannot continue it, so text beyond that changes nothing. -/
structure NumFormat.Incremental (fmt : NumFormat ν) : Prop where
  head : ∀ {cs n rest}, fmt.read cs = some (n, rest) → ∃ c ds, cs = c :: ds ∧
    (c = '-' ∨ c.isDigit = true)
  extend : ∀ {cs n rest}, fmt.read cs = some (n, rest) → rest ≠ [] →
    ∀ more, fmt.read (cs ++ more) = some (n, rest ++ more)

theorem readInt_minus (cs : List Char) :
    readInt ('-' :: cs) = (readNat cs).map (fun r => (-(r.1 : Int), r.2)) := rfl

theorem readInt_digit {c : Char} (h : c ≠ '-') (cs : List Char) :
    readInt (c :: cs) = (readNat (c :: cs)).map (fun r => ((r.1 : Int), r.2)) := by
  unfold readInt
  split
  · rename_i heq
    exact absurd (List.cons.inj heq).1 h
  · rfl

theorem incremental_intFormat : intFormat.Incremental where
  head := by
    intro cs n rest h
    cases cs with
    | nil => cases h
    | cons c cs =>
      refine ⟨c, cs, rfl, ?_⟩
      by_cases hc : c = '-'
      · exact .inl hc
      · simp only [intFormat, readInt_digit hc, Option.map_eq_some_iff] at h
        obtain ⟨r, hr, -⟩ := h
        obtain ⟨d, ds, heq, hd⟩ := head_readNat hr
        rw [(List.cons.inj heq).1]
        exact .inr hd
  extend := by
    intro cs n rest h hrest more
    cases cs with
    | nil => cases h
    | cons c cs =>
      by_cases hc : c = '-'
      · subst hc
        simp only [intFormat, readInt_minus, List.cons_append, Option.map_eq_some_iff, Prod.mk.injEq] at h ⊢
        obtain ⟨⟨k, rest'⟩, hr, hk, rfl⟩ := h
        exact ⟨_, readNat_extend hr hrest more, hk, rfl⟩
      · simp only [intFormat, readInt_digit hc, List.cons_append, Option.map_eq_some_iff,
          Prod.mk.injEq] at h ⊢
        obtain ⟨⟨k, rest'⟩, hr, hk, rfl⟩ := h
        exact ⟨_, readNat_extend hr hrest more, hk, rfl⟩

/-! ### Text beyond the end of a value -/

theorem skipSpace_extend {cs ds : List Char} {c : Char} (h : skipSpace cs = c :: ds)
    (more : List Char) : skipSpace (cs ++ more) = c :: (ds ++ more) := by
  unfold skipSpace at h ⊢
  rw [List.dropWhile_append, h]
  rfl

theorem readUnits_extend {cs rest : List Char} {us : List Nat} (h : readUnits cs = some (us, rest))
    (more : List Char) : readUnits (cs ++ more) = some (us, rest ++ more) := by
  fun_induction readUnits cs generalizing us rest with
  | case1 => cases h
  | case2 cs =>
    obtain ⟨rfl, rfl⟩ : [] = us ∧ cs = rest := by simpa using h
    rfl
  | case3 a b c d cs ih =>
    simp only [Option.bind_eq_some_iff, pushUnit, Option.map_eq_some_iff] at h
    obtain ⟨n, hn, ⟨us', rest'⟩, hr, h⟩ := h
    obtain ⟨rfl, rfl⟩ : n :: us' = us ∧ rest' = rest := by simpa using h
    simp [readUnits, hn, ih hr, pushUnit]
  | case4 c cs hu ih =>
    simp only [Option.bind_eq_some_iff, pushUnit, Option.map_eq_some_iff] at h
    obtain ⟨d, hd, ⟨us', rest'⟩, hr, h⟩ := h
    obtain ⟨rfl, rfl⟩ : d.toNat :: us' = us ∧ rest' = rest := by simpa using h
    have hc : c ≠ 'u' := by
      intro heq
      rw [heq, show unescape 'u' = none from rfl] at hd
      cases hd
    simp [readUnits, hd, ih hr, pushUnit, hc]
  | case5 c cs hbad => cases h
  | case6 c cs hq hu he hok ih =>
    simp only [pushUnit, Option.map_eq_some_iff] at h
    obtain ⟨⟨us', rest'⟩, hr, h⟩ := h
    obtain ⟨rfl, rfl⟩ : c.toNat :: us' = us ∧ rest' = rest := by simpa using h
    simp only [not_or] at hok
    rw [List.cons_append, readUnits.eq_5]
    · simp [hok.1, hok.2, ih hr, pushUnit]
    · exact hq
    · intro _ _ _ _ _ hc
      exact absurd hc hok.2
    · intro _ _ hc
      exact absurd hc hok.2

theorem readString_extend {cs rest : List Char} {s : String} (h : readString cs = some (s, rest))
    (more : List Char) : readString (cs ++ more) = some (s, rest ++ more) := by
  simp only [readString, Option.bind_eq_bind, Option.bind_eq_some_iff] at h
  obtain ⟨⟨us, rest'⟩, hr, h⟩ := h
  obtain ⟨rfl, rfl⟩ : String.ofList (joinUnits us) = s ∧ rest' = rest := by simpa using h
  simp [readString, readUnits_extend hr]

theorem rest_of_parseItems {fmt : NumFormat ν} {fuel : Nat} {cs rest : List Char}
    {vs : List (Json ν)} (h : parseItems fmt fuel cs = some (vs, rest)) : cs ≠ [] := by
  intro hnil
  rw [hnil] at h
  cases fuel <;> simp [parseItems, skipSpace] at h

theorem rest_of_parseFields {fmt : NumFormat ν} {fuel : Nat} {cs rest : List Char}
    {fs : List (String × Json ν)} (h : parseFields fmt fuel cs = some (fs, rest)) : cs ≠ [] := by
  intro hnil
  rw [hnil] at h
  cases fuel <;> simp [parseFields, skipSpace] at h

theorem NumFormat.Incremental.parseValue_nil {fmt : NumFormat ν} (hfmt : fmt.Incremental)
    (fuel : Nat) : parseValue fmt fuel [] = none := by
  have hread : fmt.read [] = none := by
    cases h : fmt.read [] with
    | none => rfl
    | some r =>
      obtain ⟨c, ds, hnil, -⟩ := hfmt.head h
      cases hnil
  cases fuel <;> simp [parseValue, skipSpace, hread]

theorem parseField_nil (fmt : NumFormat ν) (fuel : Nat) : parseField fmt fuel [] = none := by
  cases fuel <;> simp [parseField, skipSpace]

section Extend

variable {fmt : NumFormat ν}

mutual
theorem parseValue_extend (hfmt : fmt.Incremental) {fuel fuel' : Nat} {cs rest : List Char} {v : Json ν}
    (h : parseValue fmt fuel cs = some (v, rest))
    (hend : rest ≠ [] ∨ ∃ ds, skipSpace cs = '{' :: ds) (hf : fuel ≤ fuel') (more : List Char) :
    parseValue fmt fuel' (cs ++ more) = some (v, rest ++ more) := by
  match fuel, fuel', h with
  | fuel + 1, fuel' + 1, h =>
    have hf' : fuel ≤ fuel' := by omega
    unfold parseValue at h
    split at h
    case h_1 heq | h_2 heq | h_3 heq =>
      simp only [Option.some.injEq, Prod.mk.injEq] at h
      obtain ⟨rfl, rfl⟩ := h
      simp [parseValue, skipSpace_extend heq]
    case h_4 heq =>
      simp only [Option.bind_eq_bind, Option.bind_eq_some_iff, Option.some.injEq, Prod.mk.injEq] at h
      obtain ⟨⟨s, rest'⟩, hs, rfl, rfl⟩ := h
      simp [parseValue, skipSpace_extend heq, readString_extend hs]
    case h_5 tail heq =>
      split at h
      · rename_i heq'
        simp only [Option.some.injEq, Prod.mk.injEq] at h
        obtain ⟨rfl, rfl⟩ := h
        simp [parseValue, skipSpace_extend heq, skipSpace_extend heq']
      · rename_i hbracket
        simp only [Option.bind_eq_bind, Option.bind_eq_some_iff, Option.some.injEq,
          Prod.mk.injEq] at h
        obtain ⟨⟨x, rest₁⟩, hx, ⟨xs, rest₂⟩, hxs, rfl, rfl⟩ := h
        have h1 := parseValue_extend hfmt hx (.inl (rest_of_parseItems hxs)) hf' more
        have h2 := parseItems_extend hfmt hxs hf' more
        cases hs : skipSpace tail with
        | nil => simp [hs, hfmt.parseValue_nil] at hx
        | cons d ds =>
          rw [hs, List.cons_append] at h1
          have hd : d ≠ ']' := fun hd => hbracket ds (hd ▸ hs)
          simp only [parseValue, skipSpace_extend heq, skipSpace_extend hs]
          simp [hd, h1, h2]
    case h_6 tail heq =>
      split at h
      · rename_i heq'
        simp only [Option.some.injEq, Prod.mk.injEq] at h
        obtain ⟨rfl, rfl⟩ := h
        simp [parseValue, skipSpace_extend heq, skipSpace_extend heq']
      · rename_i hbrace
        simp only [Option.bind_eq_bind, Option.bind_eq_some_iff, Option.some.injEq,
          Prod.mk.injEq] at h
        obtain ⟨⟨f, rest₁⟩, hx, ⟨fs, rest₂⟩, hxs, rfl, rfl⟩ := h
        have h1 := parseField_extend hfmt hx (rest_of_parseFields hxs) hf' more
        have h2 := parseFields_extend hfmt hxs hf' more
        cases hs : skipSpace tail with
        | nil => simp [hs, parseField_nil] at hx
        | cons d ds =>
          rw [hs, List.cons_append] at h1
          have hd : d ≠ '}' := fun hd => hbrace ds (hd ▸ hs)
          simp only [parseValue, skipSpace_extend heq, skipSpace_extend hs]
          simp [hd, h1, h2]
    case h_7 =>
      simp only [Option.bind_eq_bind, Option.bind_eq_some_iff, Option.some.injEq, Prod.mk.injEq] at h
      obtain ⟨⟨n, rest'⟩, hn, rfl, rfl⟩ := h
      obtain ⟨c, ds, hcs, hc⟩ := hfmt.head hn
      have hrest : rest' ≠ [] := by
        rcases hend with hend | ⟨ds', hbrace⟩
        · exact hend
        · rw [hcs] at hbrace
          obtain ⟨rfl, -⟩ := List.cons.inj hbrace
          exact absurd hc (by decide)
      rw [parseValue_read fmt fuel' (skipSpace_extend hcs more) hc, ← List.cons_append, ← hcs,
        hfmt.extend hn hrest]
      rfl
termination_by fuel

theorem parseItems_extend (hfmt : fmt.Incremental) {fuel fuel' : Nat} {cs rest : List Char} {vs : List (Json ν)}
    (h : parseItems fmt fuel cs = some (vs, rest)) (hf : fuel ≤ fuel') (more : List Char) :
    parseItems fmt fuel' (cs ++ more) = some (vs, rest ++ more) := by
  match fuel, fuel', h with
  | fuel + 1, fuel' + 1, h =>
    have hf' : fuel ≤ fuel' := by omega
    unfold parseItems at h
    split at h
    case h_1 heq =>
      simp only [Option.some.injEq, Prod.mk.injEq] at h
      obtain ⟨rfl, rfl⟩ := h
      simp [parseItems, skipSpace_extend heq]
    case h_2 heq =>
      simp only [Option.bind_eq_bind, Option.bind_eq_some_iff, Option.some.injEq, Prod.mk.injEq] at h
      obtain ⟨⟨x, rest₁⟩, hx, ⟨xs, rest₂⟩, hxs, rfl, rfl⟩ := h
      have h1 := parseValue_extend hfmt hx (.inl (rest_of_parseItems hxs)) hf' more
      have h2 := parseItems_extend hfmt hxs hf' more
      simp [parseItems, skipSpace_extend heq, h1, h2]
    case h_3 => cases h
termination_by fuel

theorem parseField_extend (hfmt : fmt.Incremental) {fuel fuel' : Nat} {cs rest : List Char} {f : String × Json ν}
    (h : parseField fmt fuel cs = some (f, rest)) (hend : rest ≠ []) (hf : fuel ≤ fuel')
    (more : List Char) : parseField fmt fuel' (cs ++ more) = some (f, rest ++ more) := by
  match fuel, fuel', h with
  | fuel + 1, fuel' + 1, h =>
    have hf' : fuel ≤ fuel' := by omega
    unfold parseField at h
    split at h
    case h_1 heq =>
      simp only [Option.bind_eq_bind, Option.bind_eq_some_iff] at h
      obtain ⟨⟨k, rest₁⟩, hk, h⟩ := h
      split at h
      · rename_i hcolon
        simp only [Option.bind_eq_some_iff, Option.some.injEq, Prod.mk.injEq] at h
        obtain ⟨⟨x, rest₂⟩, hx, rfl, rfl⟩ := h
        have h1 := parseValue_extend hfmt hx (.inl hend) hf' more
        simp [parseField, skipSpace_extend heq, readString_extend hk, skipSpace_extend hcolon, h1]
      · cases h
    case h_2 => cases h
termination_by fuel

theorem parseFields_extend (hfmt : fmt.Incremental) {fuel fuel' : Nat} {cs rest : List Char} {fs : List (String × Json ν)}
    (h : parseFields fmt fuel cs = some (fs, rest)) (hf : fuel ≤ fuel') (more : List Char) :
    parseFields fmt fuel' (cs ++ more) = some (fs, rest ++ more) := by
  match fuel, fuel', h with
  | fuel + 1, fuel' + 1, h =>
    have hf' : fuel ≤ fuel' := by omega
    unfold parseFields at h
    split at h
    case h_1 heq =>
      simp only [Option.some.injEq, Prod.mk.injEq] at h
      obtain ⟨rfl, rfl⟩ := h
      simp [parseFields, skipSpace_extend heq]
    case h_2 heq =>
      simp only [Option.bind_eq_bind, Option.bind_eq_some_iff, Option.some.injEq, Prod.mk.injEq] at h
      obtain ⟨⟨f, rest₁⟩, hx, ⟨fs', rest₂⟩, hxs, rfl, rfl⟩ := h
      have h1 := parseField_extend hfmt hx (rest_of_parseFields hxs) hf' more
      have h2 := parseFields_extend hfmt hxs hf' more
      simp [parseFields, skipSpace_extend heq, h1, h2]
    case h_3 => cases h
termination_by fuel
end

/-- What an object's text begins with is no JSON text until the object is closed. -/
theorem parse_eq_none_of_extend (hfmt : fmt.Incremental) {text more : List Char} {v : Json ν}
    (h : parse fmt (String.ofList (text ++ more)) = some v) (hmore : skipSpace more ≠ [])
    (hobj : ∃ ds, skipSpace text = '{' :: ds) : parse fmt (String.ofList text) = none := by
  simp only [parse, String.toList_ofList, Option.bind_eq_bind] at h ⊢
  cases ht : parseValue fmt (2 * text.length + 2) text with
  | none => rfl
  | some r =>
    obtain ⟨w, rest⟩ := r
    have hlen : 2 * text.length + 2 ≤ 2 * (text ++ more).length + 2 := by
      rw [List.length_append]
      omega
    rw [parseValue_extend hfmt ht (.inr hobj) hlen more] at h
    by_cases hrest : skipSpace rest = []
    · have hspace : ∀ c ∈ rest, isSpace c = true := List.dropWhile_eq_nil_iff.mp hrest
      simp [skipSpace_append hspace, hmore] at h
    · simp [hrest]

end Extend

/-! ### The characters of a text -/

def punctuation : List Char :=
  ['[', ']', '{', '}', ',', ':', '"', 'n', 'u', 'l', 't', 'r', 'e', 'f', 'a', 's']

theorem mem_quote {c : Char} (hc : c ∉ punctuation) (s : String) :
    c ∈ quote s ↔ c ∈ s.toList.flatMap escapeChar := by
  have hq : c ≠ '"' := fun h => hc (h ▸ by decide)
  simp [quote, hq]

section Characters

variable {fmt : NumFormat ν} {c : Char}

mutual
theorem mem_render (hnum : ∀ n, c ∉ fmt.print n) (hc : c ∉ punctuation) (v : Json ν) :
    c ∈ render fmt v ↔ ∃ s ∈ texts v, c ∈ s.toList.flatMap escapeChar := by
  have hmarks := hc
  simp only [punctuation, List.mem_cons, List.not_mem_nil, or_false, not_or] at hmarks
  match v with
  | .null => simp [render, texts, hmarks]
  | .bool true => simp [render, texts, hmarks]
  | .bool false => simp [render, texts, hmarks]
  | .num n => simp [render, texts, hnum n]
  | .str s => simp [render, texts, mem_quote hc]
  | .arr [] => simp [render, texts, itemTexts, hmarks]
  | .arr (v :: vs) =>
    simp only [render, texts, itemTexts, List.mem_cons, List.mem_append, hmarks, false_or,
      mem_render hnum hc v, mem_renderItems hnum hc vs, or_and_right, exists_or]
  | .obj [] => simp [render, texts, fieldTexts, hmarks]
  | .obj ((k, v) :: fs) =>
    simp only [render, texts, fieldTexts, List.mem_cons, List.mem_append, hmarks, false_or,
      mem_quote hc, mem_render hnum hc v, mem_renderFields hnum hc fs, or_and_right, exists_or,
      exists_eq_left]

theorem mem_renderItems (hnum : ∀ n, c ∉ fmt.print n) (hc : c ∉ punctuation) (vs : List (Json ν)) :
    c ∈ renderItems fmt vs ↔ ∃ s ∈ itemTexts vs, c ∈ s.toList.flatMap escapeChar := by
  have hmarks := hc
  simp only [punctuation, List.mem_cons, List.not_mem_nil, or_false, not_or] at hmarks
  match vs with
  | [] => simp [renderItems, itemTexts, hmarks]
  | v :: vs =>
    simp only [renderItems, itemTexts, List.mem_cons, List.mem_append, hmarks, false_or,
      mem_render hnum hc v, mem_renderItems hnum hc vs, or_and_right, exists_or]

theorem mem_renderFields (hnum : ∀ n, c ∉ fmt.print n) (hc : c ∉ punctuation)
    (fs : List (String × Json ν)) :
    c ∈ renderFields fmt fs ↔ ∃ s ∈ fieldTexts fs, c ∈ s.toList.flatMap escapeChar := by
  have hmarks := hc
  simp only [punctuation, List.mem_cons, List.not_mem_nil, or_false, not_or] at hmarks
  match fs with
  | [] => simp [renderFields, fieldTexts, hmarks]
  | (k, v) :: fs =>
    simp only [renderFields, fieldTexts, List.mem_cons, List.mem_append, hmarks, false_or,
      mem_quote hc, mem_render hnum hc v, mem_renderFields hnum hc fs, or_and_right, exists_or,
      exists_eq_left]
end

end Characters

theorem ascii_hexDigit : ∀ n < 16, 32 ≤ (hexDigit n).toNat ∧ (hexDigit n).toNat < 128 := by
  decide

theorem mem_escapeChar {c d : Char} (h : c ∈ escapeChar d) :
    (32 ≤ c.toNat ∧ c.toNat < 128) ∨ (c = d ∧ 32 ≤ d.toNat) := by
  unfold escapeChar at h
  split_ifs at h with _ _ _ _ _ _ _ hlow
  iterate 7
    · simp only [List.mem_cons, List.not_mem_nil, or_false] at h
      rcases h with rfl | rfl
      · exact .inl (by decide)
      · exact .inl (by decide)
  · have h1 := ascii_hexDigit (d.toNat / 16) (by omega)
    have h2 := ascii_hexDigit (d.toNat % 16) (by omega)
    simp only [List.mem_cons, List.not_mem_nil, or_false] at h
    left
    rcases h with rfl | rfl | rfl | rfl | rfl | rfl
    · decide
    · decide
    · decide
    · decide
    · exact h1
    · exact h2
  · rw [List.mem_singleton] at h
    exact .inr ⟨h, by omega⟩

theorem mem_escapeChar_self {c : Char} (h : 128 ≤ c.toNat) : c ∈ escapeChar c := by
  have hne : ∀ d : Char, d.toNat < 128 → c ≠ d := by
    intro d hd heq
    rw [heq] at h
    omega
  simp only [escapeChar, hne '"' (by decide), hne '\\' (by decide), hne '\x08' (by decide),
    hne '\x0c' (by decide), hne '\n' (by decide), hne '\r' (by decide), hne '\t' (by decide),
    if_false]
  rw [if_neg (by omega)]
  exact List.mem_singleton.mpr rfl

end Json
