import SorobanLens.Lib.Json

/-!
`JSON.stringify` with an indent: every item and property on a line of its own.
The reader reads through it.
-/

set_option autoImplicit false

namespace Json

variable {ν : Type}

/-- One level deeper: `pad` is the line break and the indentation of the level. -/
def deeper (pad : List Char) : List Char := pad ++ [' ', ' ']

mutual
def renderIndented (fmt : NumFormat ν) (pad : List Char) : Json ν → List Char
  | .null => ['n', 'u', 'l', 'l']
  | .bool true => ['t', 'r', 'u', 'e']
  | .bool false => ['f', 'a', 'l', 's', 'e']
  | .num n => fmt.print n
  | .str s => quote s
  | .arr [] => ['[', ']']
  | .arr (v :: vs) =>
    '[' :: (deeper pad ++ (renderIndented fmt (deeper pad) v ++ indentedItems fmt pad vs))
  | .obj [] => ['{', '}']
  | .obj ((k, v) :: fs) =>
    '{' :: (deeper pad ++ (quote k ++ ':' :: ' ' ::
      (renderIndented fmt (deeper pad) v ++ indentedFields fmt pad fs)))

def indentedItems (fmt : NumFormat ν) (pad : List Char) : List (Json ν) → List Char
  | [] => pad ++ [']']
  | v :: vs => ',' :: (deeper pad ++ (renderIndented fmt (deeper pad) v ++ indentedItems fmt pad vs))

def indentedFields (fmt : NumFormat ν) (pad : List Char) : List (String × Json ν) → List Char
  | [] => pad ++ ['}']
  | (k, v) :: fs =>
    ',' :: (deeper pad ++ (quote k ++ ':' :: ' ' ::
      (renderIndented fmt (deeper pad) v ++ indentedFields fmt pad fs)))
end

/-- `JSON.stringify(v, null, 2)`. -/
def stringifyIndented (fmt : NumFormat ν) (v : Json ν) : String :=
  String.ofList (renderIndented fmt ['\n'] v)

def Pad (pad : List Char) : Prop := pad.head? = some '\n' ∧ ∀ c ∈ pad, isSpace c = true

theorem Pad.deeper {pad : List Char} (h : Pad pad) : Pad (Json.deeper pad) := by
  refine ⟨?_, ?_⟩
  · simp [Json.deeper, h.1]
  · intro c hc
    rcases List.mem_append.mp hc with hp | hs
    · exact h.2 c hp
    · simp only [List.mem_cons, List.not_mem_nil, or_false, or_self] at hs
      rw [hs]
      decide

theorem Pad.stops {pad : List Char} (h : Pad pad) (rest : List Char) : Stops (pad ++ rest) := by
  intro c hc
  have hline : c = '\n' := by simpa [h.1] using hc.symm
  rw [hline]
  decide

theorem stops_cons {c : Char} (hd : c.isDigit = false) (hdot : c ≠ '.') (he : c ≠ 'e') (hE : c ≠ 'E')
    (rest : List Char) : Stops (c :: rest) := by
  intro d hd'
  have hc : c = d := by simpa using hd'
  rw [← hc]
  exact ⟨hd, hdot, he, hE⟩

theorem stops_indentedItems (fmt : NumFormat ν) {pad : List Char} (h : Pad pad) (vs : List (Json ν))
    (rest : List Char) : Stops (indentedItems fmt pad vs ++ rest) := by
  cases vs with
  | nil =>
    simp only [indentedItems, List.append_assoc]
    exact h.stops _
  | cons v vs =>
    simp only [indentedItems, List.cons_append]
    exact stops_cons (by decide) (by decide) (by decide) (by decide) _

theorem stops_indentedFields (fmt : NumFormat ν) {pad : List Char} (h : Pad pad)
    (fs : List (String × Json ν)) (rest : List Char) :
    Stops (indentedFields fmt pad fs ++ rest) := by
  cases fs with
  | nil =>
    simp only [indentedFields, List.append_assoc]
    exact h.stops _
  | cons f fs =>
    obtain ⟨k, v⟩ := f
    simp only [indentedFields, List.cons_append]
    exact stops_cons (by decide) (by decide) (by decide) (by decide) _

theorem head_renderIndented (fmt : NumFormat ν) (pad : List Char) (v : Json ν) :
    ∃ c cs, renderIndented fmt pad v = c :: cs ∧ isSpace c = false ∧ c ≠ ']' := by
  cases v with
  | arr vs => cases vs <;> exact ⟨'[', _, by rw [renderIndented], by decide, by decide⟩
  | obj fs => cases fs <;> exact ⟨'{', _, by rw [renderIndented], by decide, by decide⟩
  | null => exact ⟨'n', _, rfl, by decide, by decide⟩
  | bool b => cases b <;> exact ⟨_, _, rfl, by decide, by decide⟩
  | str s => exact ⟨'"', _, rfl, by decide, by decide⟩
  | num n =>
    obtain ⟨c, cs, hc, hspace, hb⟩ := head_renderSpaced fmt [] (.num n)
    rw [renderSpaced] at hc
    exact ⟨c, cs, by rw [renderIndented, hc], hspace, hb⟩

section Reading

variable (fmt : NumFormat ν)

mutual
theorem parseValue_indented {pad : List Char} (hpad : Pad pad) (v : Json ν) (fuel : Nat)
    (rest : List Char) (hf : (renderIndented fmt pad v).length ≤ fuel) (hs : Stops rest) :
    parseValue fmt fuel (renderIndented fmt pad v ++ rest) = some (normalise v, rest) := by
  obtain ⟨fuel, rfl⟩ : ∃ f, fuel = f + 1 := by
    obtain ⟨c, cs, hc, -⟩ := head_renderIndented fmt pad v
    rw [hc] at hf
    exact ⟨fuel - 1, by simp at hf; omega⟩
  match v with
  | .null => rfl
  | .bool true => rfl
  | .bool false => rfl
  | .num n => exact parseValue_num fmt n fuel hs
  | .str s =>
    have hq := readString_quote s rest
    simp [renderIndented, quote, parseValue, skipSpace, isSpace, hq, normalise]
  | .arr [] => rfl
  | .arr (v :: vs) =>
    obtain ⟨c, cs, hc, hspace, hb⟩ := head_renderIndented fmt (deeper pad) v
    simp only [renderIndented, List.length_cons, List.length_append] at hf
    have h1 := parseValue_indented hpad.deeper v fuel (indentedItems fmt pad vs ++ rest) (by omega)
      (stops_indentedItems fmt hpad vs rest)
    have h2 := parseItems_indented hpad vs fuel rest (by omega)
    simp only [hc, List.cons_append] at h1
    simp only [renderIndented, hc, List.cons_append, List.append_assoc, parseValue,
      skipSpace_cons _ (show isSpace '[' = false by decide), skipSpace_append hpad.deeper.2,
      skipSpace_cons _ hspace]
    split
    · rename_i heq
      injection heq with h
      exact absurd h hb
    · simp [h1, h2, normalise, normaliseItems]
  | .obj [] => rfl
  | .obj ((k, v) :: fs) =>
    simp only [renderIndented, List.length_cons, List.length_append] at hf
    have h1 := parseField_indented hpad.deeper k v fuel (indentedFields fmt pad fs ++ rest) (by omega)
      (stops_indentedFields fmt hpad fs rest)
    have h2 := parseFields_indented hpad fs fuel rest (by omega)
    simp only [quote, List.cons_append, List.append_assoc, List.nil_append] at h1
    simp only [renderIndented, quote, List.cons_append, List.append_assoc, List.nil_append,
      parseValue, skipSpace_cons _ (show isSpace '{' = false by decide),
      skipSpace_append hpad.deeper.2, skipSpace_cons _ (show isSpace '"' = false by decide)]
    simp [h1, h2, normalise, normaliseFields]
termination_by fuel

theorem parseItems_indented {pad : List Char} (hpad : Pad pad) (vs : List (Json ν))
    (fuel : Nat) (rest : List Char) (hf : (indentedItems fmt pad vs).length ≤ fuel) :
    parseItems fmt fuel (indentedItems fmt pad vs ++ rest) = some (normaliseItems vs, rest) := by
  match vs with
  | [] =>
    obtain ⟨fuel, rfl⟩ : ∃ f, fuel = f + 1 := ⟨fuel - 1, by simp [indentedItems] at hf; omega⟩
    simp only [indentedItems, List.append_assoc, List.cons_append, List.nil_append, parseItems,
      skipSpace_append hpad.2, skipSpace_cons _ (show isSpace ']' = false by decide), normaliseItems]
  | v :: vs =>
    simp only [indentedItems, List.length_cons, List.length_append] at hf
    obtain ⟨fuel, rfl⟩ : ∃ f, fuel = f + 1 := ⟨fuel - 1, by omega⟩
    have h1 := parseValue_indented hpad.deeper v fuel (indentedItems fmt pad vs ++ rest) (by omega)
      (stops_indentedItems fmt hpad vs rest)
    have h2 := parseItems_indented hpad vs fuel rest (by omega)
    simp only [indentedItems, List.cons_append, List.append_assoc, parseItems,
      skipSpace_cons _ (show isSpace ',' = false by decide), parseValue_append fmt hpad.deeper.2]
    simp [h1, h2, normaliseItems]
termination_by fuel

theorem parseField_indented {pad : List Char} (hpad : Pad pad) (k : String) (v : Json ν)
    (fuel : Nat) (rest : List Char) (hf : (renderIndented fmt pad v).length + 1 ≤ fuel)
    (hs : Stops rest) :
    parseField fmt fuel (quote k ++ ':' :: ' ' :: (renderIndented fmt pad v ++ rest)) =
      some ((k, normalise v), rest) := by
  obtain ⟨fuel, rfl⟩ : ∃ f, fuel = f + 1 := ⟨fuel - 1, by omega⟩
  have h1 := parseValue_indented hpad v fuel rest (by omega) hs
  have hq := readString_quote k (':' :: ' ' :: (renderIndented fmt pad v ++ rest))
  have hspace := parseValue_append fmt (show ∀ c ∈ [' '], isSpace c = true by simp [isSpace]) fuel
    (renderIndented fmt pad v ++ rest)
  simp only [List.cons_append, List.nil_append] at hspace
  simp [quote, parseField, skipSpace, isSpace, hq, hspace, h1]
termination_by fuel

theorem parseFields_indented {pad : List Char} (hpad : Pad pad) (fs : List (String × Json ν))
    (fuel : Nat) (rest : List Char) (hf : (indentedFields fmt pad fs).length ≤ fuel) :
    parseFields fmt fuel (indentedFields fmt pad fs ++ rest) = some (normaliseFields fs, rest) := by
  match fs with
  | [] =>
    obtain ⟨fuel, rfl⟩ : ∃ f, fuel = f + 1 := ⟨fuel - 1, by simp [indentedFields] at hf; omega⟩
    simp only [indentedFields, List.append_assoc, List.cons_append, List.nil_append, parseFields,
      skipSpace_append hpad.2, skipSpace_cons _ (show isSpace '}' = false by decide), normaliseFields]
  | (k, v) :: fs =>
    simp only [indentedFields, List.length_cons, List.length_append] at hf
    obtain ⟨fuel, rfl⟩ : ∃ f, fuel = f + 1 := ⟨fuel - 1, by omega⟩
    have h1 := parseField_indented hpad.deeper k v fuel (indentedFields fmt pad fs ++ rest) (by omega)
      (stops_indentedFields fmt hpad fs rest)
    have h2 := parseFields_indented hpad fs fuel rest (by omega)
    simp only [indentedFields, List.cons_append, List.append_assoc, parseFields,
      skipSpace_cons _ (show isSpace ',' = false by decide), parseField_append fmt hpad.deeper.2]
    simp [h1, h2, normaliseFields]
termination_by fuel
end

theorem parse_stringifyIndented (v : Json ν) :
    parse fmt (stringifyIndented fmt v ++ "\n") = some (normalise v) := by
  have hpad : Pad ['\n'] := ⟨rfl, by simp [isSpace]⟩
  have hstop : Stops ['\n'] := stops_cons (by decide) (by decide) (by decide) (by decide) []
  have h := parseValue_indented fmt hpad v
    (2 * (renderIndented fmt ['\n'] v ++ ['\n']).length + 2) ['\n'] (by simp; omega) hstop
  unfold parse stringifyIndented
  rw [String.toList_append, String.toList_ofList]
  change (parseValue fmt (2 * (renderIndented fmt ['\n'] v ++ ['\n']).length + 2)
    (renderIndented fmt ['\n'] v ++ ['\n'])).bind _ = _
  rw [h]
  rfl

end Reading

end Json
