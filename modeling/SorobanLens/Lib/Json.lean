import Mathlib.Data.List.TakeDrop

/-!
JSON values, `JSON.stringify` and `JSON.parse` over lists of characters. The
numbers are a parameter: a format prints one and reads it back when what
follows cannot continue it. The reader is total by a fuel that any text pays
for with its own length.
-/

set_option autoImplicit false

/-- An object is its own enumerable properties, in the order they enumerate. -/
inductive Json (ν : Type) where
  | null
  | bool (b : Bool)
  | num (n : ν)
  | str (s : String)
  | arr (items : List (Json ν))
  | obj (fields : List (String × Json ν))

namespace Json

/-! ### Properties of a plain object -/

/-- A property key that enumerates as an array index: canonical decimal digits
below 2 ^ 32 - 1. -/
def arrayIndex (key : String) : Option Nat :=
  let n := Nat.ofDigitChars 10 key.toList 0
  if key = n.repr ∧ n < 4294967295 then some n else none

/-- Where a new property goes: array indices ascend in front of all other keys. -/
def placeProperty {ν : Type} (key : String) (value : Json ν) :
    List (String × Json ν) → List (String × Json ν)
  | [] => [(key, value)]
  | (k, v) :: rest =>
    match arrayIndex key, arrayIndex k with
    | some _, none => (key, value) :: (k, v) :: rest
    | some i, some j =>
      if i < j then (key, value) :: (k, v) :: rest else (k, v) :: placeProperty key value rest
    | none, _ => (k, v) :: placeProperty key value rest

def defineProperty {ν : Type} (fields : List (String × Json ν)) (key : String) (value : Json ν) :
    List (String × Json ν) :=
  if fields.any (fun f => decide (f.1 = key)) then
    fields.map (fun f => if f.1 = key then (key, value) else f)
  else placeProperty key value fields

def object {ν : Type} (fields : List (String × Json ν)) : List (String × Json ν) :=
  fields.foldl (fun acc f => defineProperty acc f.1 f.2) []

/-! ### Numbers -/

def Stops (rest : List Char) : Prop :=
  ∀ c, rest.head? = some c → c.isDigit = false ∧ c ≠ '.' ∧ c ≠ 'e' ∧ c ≠ 'E'

def NoDigit (rest : List Char) : Prop := ∀ c, rest.head? = some c → c.isDigit = false

theorem Stops.noDigit {rest : List Char} (h : Stops rest) : NoDigit rest := fun c hc => (h c hc).1

structure NumFormat (ν : Type) where
  print : ν → List Char
  read : List Char → Option (ν × List Char)
  head_print : ∀ n, ∃ c cs, print n = c :: cs ∧ (c = '-' ∨ c.isDigit = true)
  read_print : ∀ n rest, Stops rest → read (print n ++ rest) = some (n, rest)

def readNat (cs : List Char) : Option (Nat × List Char) :=
  match cs.span Char.isDigit with
  | ([], _) => none
  | (d :: ds, rest) => some (Nat.ofDigitChars 10 (d :: ds) 0, rest)

def readInt : List Char → Option (Int × List Char)
  | '-' :: cs => (readNat cs).map (fun r => (-(r.1 : Int), r.2))
  | cs => (readNat cs).map (fun r => ((r.1 : Int), r.2))

def printInt : Int → List Char
  | .ofNat n => Nat.toDigits 10 n
  | .negSucc n => '-' :: Nat.toDigits 10 (n + 1)

theorem isDigit_toDigits {n : Nat} {c : Char} (h : c ∈ Nat.toDigits 10 n) : c.isDigit = true :=
  Nat.isDigit_of_mem_toDigits (by decide) (by decide) h

theorem readNat_toDigits (n : Nat) {rest : List Char} (h : NoDigit rest) :
    readNat (Nat.toDigits 10 n ++ rest) = some (n, rest) := by
  have hs : (Nat.toDigits 10 n ++ rest).span Char.isDigit = (Nat.toDigits 10 n, rest) := by
    rw [List.span_eq_takeWhile_dropWhile]
    have hd : ∀ c ∈ Nat.toDigits 10 n, c.isDigit = true := fun c hc => isDigit_toDigits hc
    rw [List.takeWhile_append_of_pos hd, List.dropWhile_append_of_pos hd]
    cases rest with
    | nil => simp
    | cons c cs =>
      simp [h c rfl]
  cases hd : Nat.toDigits 10 n with
  | nil => exact absurd hd Nat.toDigits_ne_nil
  | cons d ds =>
    have hv : Nat.ofDigitChars 10 (d :: ds) 0 = n := by
      rw [← hd]
      exact Nat.ofDigitChars_ten_toDigits
    rw [hd] at hs
    simp only [readNat, hs, hv]

theorem head_printInt (n : Int) : ∃ c cs, printInt n = c :: cs ∧ (c = '-' ∨ c.isDigit = true) := by
  cases n with
  | ofNat n =>
    cases hd : Nat.toDigits 10 n with
    | nil => exact absurd hd Nat.toDigits_ne_nil
    | cons d ds => exact ⟨d, ds, hd, .inr (isDigit_toDigits (n := n) (by simp [hd]))⟩
  | negSucc n => exact ⟨'-', _, rfl, .inl rfl⟩

theorem readInt_printInt (n : Int) {rest : List Char} (h : NoDigit rest) :
    readInt (printInt n ++ rest) = some (n, rest) := by
  cases n with
  | ofNat n =>
    have hr := readNat_toDigits n h
    cases hd : Nat.toDigits 10 n with
    | nil => exact absurd hd Nat.toDigits_ne_nil
    | cons d ds =>
      have hdig : d.isDigit = true := isDigit_toDigits (n := n) (by simp [hd])
      have hne : d ≠ '-' := by rintro rfl; exact absurd hdig (by decide)
      rw [hd] at hr
      simp only [printInt, hd, List.cons_append] at hr ⊢
      unfold readInt
      split
      · rename_i heq
        simp only [List.cons.injEq] at heq
        exact absurd heq.1 hne
      · simp [hr]
  | negSucc n =>
    simp [printInt, readInt, readNat_toDigits (n + 1) h]
    omega

/-- Integers in decimal: the only JSON numbers a decoder of 32-bit integers emits. -/
def intFormat : NumFormat Int where
  print := printInt
  read := readInt
  head_print := head_printInt
  read_print := fun n _ h => readInt_printInt n h.noDigit

/-! ### Writing -/

def hexDigit (n : Nat) : Char := if n < 10 then Char.ofNat (48 + n) else Char.ofNat (87 + n)

def escapeChar (c : Char) : List Char :=
  if c = '"' then ['\\', '"']
  else if c = '\\' then ['\\', '\\']
  else if c = '\x08' then ['\\', 'b']
  else if c = '\x0c' then ['\\', 'f']
  else if c = '\n' then ['\\', 'n']
  else if c = '\r' then ['\\', 'r']
  else if c = '\t' then ['\\', 't']
  else if c.toNat < 32 then
    ['\\', 'u', '0', '0', hexDigit (c.toNat / 16), hexDigit (c.toNat % 16)]
  else [c]

def quote (s : String) : List Char := '"' :: (s.toList.flatMap escapeChar ++ ['"'])

mutual
def render {ν : Type} (fmt : NumFormat ν) : Json ν → List Char
  | .null => ['n', 'u', 'l', 'l']
  | .bool true => ['t', 'r', 'u', 'e']
  | .bool false => ['f', 'a', 'l', 's', 'e']
  | .num n => fmt.print n
  | .str s => quote s
  | .arr [] => ['[', ']']
  | .arr (v :: vs) => '[' :: (render fmt v ++ renderItems fmt vs)
  | .obj [] => ['{', '}']
  | .obj ((k, v) :: fs) => '{' :: (quote k ++ ':' :: (render fmt v ++ renderFields fmt fs))

def renderItems {ν : Type} (fmt : NumFormat ν) : List (Json ν) → List Char
  | [] => [']']
  | v :: vs => ',' :: (render fmt v ++ renderItems fmt vs)

def renderFields {ν : Type} (fmt : NumFormat ν) : List (String × Json ν) → List Char
  | [] => ['}']
  | (k, v) :: fs => ',' :: (quote k ++ ':' :: (render fmt v ++ renderFields fmt fs))
end

def stringify {ν : Type} (fmt : NumFormat ν) (v : Json ν) : String := String.ofList (render fmt v)

mutual
def renderSpaced {ν : Type} (fmt : NumFormat ν) (sp : List Char) : Json ν → List Char
  | .null => ['n', 'u', 'l', 'l']
  | .bool true => ['t', 'r', 'u', 'e']
  | .bool false => ['f', 'a', 'l', 's', 'e']
  | .num n => fmt.print n
  | .str s => quote s
  | .arr [] => ['[', ']']
  | .arr (v :: vs) => '[' :: (renderSpaced fmt sp v ++ spacedItems fmt sp vs)
  | .obj [] => ['{', '}']
  | .obj ((k, v) :: fs) =>
    '{' :: (quote k ++ ':' :: (sp ++ (renderSpaced fmt sp v ++ spacedFields fmt sp fs)))

def spacedItems {ν : Type} (fmt : NumFormat ν) (sp : List Char) : List (Json ν) → List Char
  | [] => [']']
  | v :: vs => ',' :: (sp ++ (renderSpaced fmt sp v ++ spacedItems fmt sp vs))

def spacedFields {ν : Type} (fmt : NumFormat ν) (sp : List Char) :
    List (String × Json ν) → List Char
  | [] => ['}']
  | (k, v) :: fs =>
    ',' :: (sp ++ (quote k ++ ':' :: (sp ++ (renderSpaced fmt sp v ++ spacedFields fmt sp fs))))
end

mutual
theorem renderSpaced_nil {ν : Type} (fmt : NumFormat ν) (v : Json ν) :
    renderSpaced fmt [] v = render fmt v := by
  match v with
  | .null | .num n | .str s | .arr [] | .obj [] => simp [renderSpaced, render]
  | .bool b => cases b <;> simp [renderSpaced, render]
  | .arr (v :: vs) => simp [renderSpaced, render, renderSpaced_nil fmt v, spacedItems_nil fmt vs]
  | .obj ((k, v) :: fs) =>
    simp [renderSpaced, render, renderSpaced_nil fmt v, spacedFields_nil fmt fs]

theorem spacedItems_nil {ν : Type} (fmt : NumFormat ν) (vs : List (Json ν)) :
    spacedItems fmt [] vs = renderItems fmt vs := by
  match vs with
  | [] => simp [spacedItems, renderItems]
  | v :: vs => simp [spacedItems, renderItems, renderSpaced_nil fmt v, spacedItems_nil fmt vs]

theorem spacedFields_nil {ν : Type} (fmt : NumFormat ν) (fs : List (String × Json ν)) :
    spacedFields fmt [] fs = renderFields fmt fs := by
  match fs with
  | [] => simp [spacedFields, renderFields]
  | (k, v) :: fs => simp [spacedFields, renderFields, renderSpaced_nil fmt v, spacedFields_nil fmt fs]
end

/-! ### Reading -/

def isSpace (c : Char) : Bool := c = ' ' || c = '\t' || c = '\n' || c = '\r'

def skipSpace (cs : List Char) : List Char := cs.dropWhile isSpace

def hexValue (c : Char) : Option Nat :=
  if '0' ≤ c ∧ c ≤ '9' then some (c.toNat - 48)
  else if 'a' ≤ c ∧ c ≤ 'f' then some (c.toNat - 87)
  else if 'A' ≤ c ∧ c ≤ 'F' then some (c.toNat - 55)
  else none

def hex4 (a b c d : Char) : Option Nat := do
  let a ← hexValue a
  let b ← hexValue b
  let c ← hexValue c
  let d ← hexValue d
  some (((a * 16 + b) * 16 + c) * 16 + d)

/-- One UTF-16 unit as a character; a lone surrogate is not a Unicode scalar. -/
def unitChar (n : Nat) : Char :=
  if 0xD800 ≤ n ∧ n < 0xE000 then '\ufffd' else Char.ofNat n

def joinUnits : List Nat → List Char
  | [] => []
  | [n] => [unitChar n]
  | hi :: lo :: rest =>
    if 0xD800 ≤ hi ∧ hi < 0xDC00 ∧ 0xDC00 ≤ lo ∧ lo < 0xE000 then
      Char.ofNat (0x10000 + (hi - 0xD800) * 1024 + (lo - 0xDC00)) :: joinUnits rest
    else unitChar hi :: joinUnits (lo :: rest)

def unescape : Char → Option Char
  | '"' => some '"'
  | '\\' => some '\\'
  | '/' => some '/'
  | 'b' => some '\x08'
  | 'f' => some '\x0c'
  | 'n' => some '\n'
  | 'r' => some '\r'
  | 't' => some '\t'
  | _ => none

def pushUnit (n : Nat) (r : Option (List Nat × List Char)) : Option (List Nat × List Char) :=
  r.map (fun r => (n :: r.1, r.2))

def readUnits : List Char → Option (List Nat × List Char)
  | [] => none
  | '"' :: cs => some ([], cs)
  | '\\' :: 'u' :: a :: b :: c :: d :: cs =>
    (hex4 a b c d).bind (fun n => pushUnit n (readUnits cs))
  | '\\' :: c :: cs => (unescape c).bind (fun c => pushUnit c.toNat (readUnits cs))
  | c :: cs => if c.toNat < 32 ∨ c = '\\' then none else pushUnit c.toNat (readUnits cs)

def readString (cs : List Char) : Option (String × List Char) := do
  let (us, rest) ← readUnits cs
  some (String.ofList (joinUnits us), rest)

mutual
def parseValue {ν : Type} (fmt : NumFormat ν) : Nat → List Char → Option (Json ν × List Char)
  | 0, _ => none
  | fuel + 1, cs =>
    match skipSpace cs with
    | 'n' :: 'u' :: 'l' :: 'l' :: rest => some (.null, rest)
    | 't' :: 'r' :: 'u' :: 'e' :: rest => some (.bool true, rest)
    | 'f' :: 'a' :: 'l' :: 's' :: 'e' :: rest => some (.bool false, rest)
    | '"' :: rest => do
      let (s, rest) ← readString rest
      some (.str s, rest)
    | '[' :: rest =>
      match skipSpace rest with
      | ']' :: rest => some (.arr [], rest)
      | rest => do
        let (v, rest) ← parseValue fmt fuel rest
        let (vs, rest) ← parseItems fmt fuel rest
        some (.arr (v :: vs), rest)
    | '{' :: rest =>
      match skipSpace rest with
      | '}' :: rest => some (.obj [], rest)
      | rest => do
        let (f, rest) ← parseField fmt fuel rest
        let (fs, rest) ← parseFields fmt fuel rest
        some (.obj (object (f :: fs)), rest)
    | rest => do
      let (n, rest) ← fmt.read rest
      some (.num n, rest)

def parseItems {ν : Type} (fmt : NumFormat ν) :
    Nat → List Char → Option (List (Json ν) × List Char)
  | 0, _ => none
  | fuel + 1, cs =>
    match skipSpace cs with
    | ']' :: rest => some ([], rest)
    | ',' :: rest => do
      let (v, rest) ← parseValue fmt fuel rest
      let (vs, rest) ← parseItems fmt fuel rest
      some (v :: vs, rest)
    | _ => none

def parseField {ν : Type} (fmt : NumFormat ν) :
    Nat → List Char → Option ((String × Json ν) × List Char)
  | 0, _ => none
  | fuel + 1, cs =>
    match skipSpace cs with
    | '"' :: rest => do
      let (k, rest) ← readString rest
      match skipSpace rest with
      | ':' :: rest => do
        let (v, rest) ← parseValue fmt fuel rest
        some ((k, v), rest)
      | _ => none
    | _ => none

def parseFields {ν : Type} (fmt : NumFormat ν) :
    Nat → List Char → Option (List (String × Json ν) × List Char)
  | 0, _ => none
  | fuel + 1, cs =>
    match skipSpace cs with
    | '}' :: rest => some ([], rest)
    | ',' :: rest => do
      let (f, rest) ← parseField fmt fuel rest
      let (fs, rest) ← parseFields fmt fuel rest
      some (f :: fs, rest)
    | _ => none
end

/-- `JSON.parse`, with `none` for the `SyntaxError`. -/
def parse {ν : Type} (fmt : NumFormat ν) (s : String) : Option (Json ν) := do
  let (v, rest) ← parseValue fmt (2 * s.toList.length + 2) s.toList
  if skipSpace rest = [] then some v else none

/-! ### Reading back what was written -/

mutual
/-- The value as an engine holds it: every object with its properties once each,
in enumeration order. -/
def normalise {ν : Type} : Json ν → Json ν
  | .arr vs => .arr (normaliseItems vs)
  | .obj fs => .obj (object (normaliseFields fs))
  | v => v

def normaliseItems {ν : Type} : List (Json ν) → List (Json ν)
  | [] => []
  | v :: vs => normalise v :: normaliseItems vs

def normaliseFields {ν : Type} : List (String × Json ν) → List (String × Json ν)
  | [] => []
  | (k, v) :: fs => (k, normalise v) :: normaliseFields fs
end

def Canonical {ν : Type} (v : Json ν) : Prop := normalise v = v

theorem not_surrogate (c : Char) : ¬ (0xD800 ≤ c.toNat ∧ c.toNat < 0xE000) := by
  have hc : c.toNat < 0xD800 ∨ (0xDFFF < c.toNat ∧ c.toNat < 0x110000) := c.valid
  omega

theorem unitChar_toNat (c : Char) : unitChar c.toNat = c := by
  simp only [unitChar, not_surrogate c, if_false]
  exact Char.ofNat_toNat c

theorem joinUnits_toNat (cs : List Char) : joinUnits (cs.map Char.toNat) = cs := by
  induction cs with
  | nil => rfl
  | cons c cs ih =>
    cases cs with
    | nil => simp [joinUnits, unitChar_toNat]
    | cons d cs =>
      have hc := not_surrogate c
      have hn : ¬ (0xD800 ≤ c.toNat ∧ c.toNat < 0xDC00 ∧ 0xDC00 ≤ d.toNat ∧ d.toNat < 0xE000) := by
        omega
      simp only [List.map_cons] at ih ⊢
      rw [joinUnits, if_neg hn, ih, unitChar_toNat]

theorem hex4_hexDigit : ∀ n < 32, hex4 '0' '0' (hexDigit (n / 16)) (hexDigit (n % 16)) = some n := by
  decide

theorem readUnits_escapeChar (c : Char) (rest : List Char) :
    readUnits (escapeChar c ++ rest) = pushUnit c.toNat (readUnits rest) := by
  unfold escapeChar
  by_cases h : c = '"'
  · subst h; rfl
  by_cases h1 : c = '\\'
  · subst h1; rfl
  by_cases h2 : c = '\x08'
  · subst h2; rfl
  by_cases h3 : c = '\x0c'
  · subst h3; rfl
  by_cases h4 : c = '\n'
  · subst h4; rfl
  by_cases h5 : c = '\r'
  · subst h5; rfl
  by_cases h6 : c = '\t'
  · subst h6; rfl
  by_cases h7 : c.toNat < 32
  · simp only [h, h1, h2, h3, h4, h5, h6, h7, if_true, if_false, List.cons_append,
      List.nil_append, readUnits, hex4_hexDigit _ h7, Option.bind_some]
  · simp only [h, h1, h2, h3, h4, h5, h6, h7, if_false, List.cons_append, List.nil_append]
    rw [readUnits.eq_5]
    · simp [h1, h7]
    · exact h
    · intro a b d e cs hc
      exact absurd hc h1
    · intro d cs hc
      exact absurd hc h1

theorem readUnits_quote (cs rest : List Char) :
    readUnits (cs.flatMap escapeChar ++ '"' :: rest) = some (cs.map Char.toNat, rest) := by
  induction cs with
  | nil => rfl
  | cons c cs ih =>
    simp only [List.flatMap_cons, List.append_assoc, readUnits_escapeChar, ih, pushUnit,
      Option.map_some, List.map_cons]

theorem readString_quote (s : String) (rest : List Char) :
    readString (s.toList.flatMap escapeChar ++ '"' :: rest) = some (s, rest) := by
  simp [readString, readUnits_quote, joinUnits_toNat]

theorem skipSpace_cons {c : Char} (cs : List Char) (h : isSpace c = false) :
    skipSpace (c :: cs) = c :: cs := by
  simp [skipSpace, h]

theorem head_renderSpaced {ν : Type} (fmt : NumFormat ν) (sp : List Char) (v : Json ν) :
    ∃ c cs, renderSpaced fmt sp v = c :: cs ∧ isSpace c = false ∧ c ≠ ']' := by
  cases v with
  | null => exact ⟨'n', _, rfl, by decide, by decide⟩
  | bool b => cases b <;> exact ⟨_, _, rfl, by decide, by decide⟩
  | num n =>
    obtain ⟨c, cs, hp, hc⟩ := fmt.head_print n
    refine ⟨c, cs, by rw [renderSpaced, hp], ?_, ?_⟩
    · rcases hc with rfl | hc
      · decide
      · simp only [isSpace, Bool.or_eq_false_iff, decide_eq_false_iff_not]
        refine ⟨⟨⟨?_, ?_⟩, ?_⟩, ?_⟩ <;> (rintro rfl; exact absurd hc (by decide))
    · rcases hc with rfl | hc
      · decide
      · rintro rfl
        exact absurd hc (by decide)
  | str s => exact ⟨'"', _, rfl, by decide, by decide⟩
  | arr vs => cases vs <;> exact ⟨'[', _, by rw [renderSpaced], by decide, by decide⟩
  | obj fs => cases fs <;> exact ⟨'{', _, by rw [renderSpaced], by decide, by decide⟩

theorem stops_spacedItems {ν : Type} (fmt : NumFormat ν) (sp : List Char) (vs : List (Json ν))
    (rest : List Char) : Stops (spacedItems fmt sp vs ++ rest) := by
  intro c hc
  cases vs <;> simp [spacedItems] at hc <;> subst hc <;> decide

theorem stops_spacedFields {ν : Type} (fmt : NumFormat ν) (sp : List Char)
    (fs : List (String × Json ν)) (rest : List Char) : Stops (spacedFields fmt sp fs ++ rest) := by
  intro c hc
  rcases fs with _ | ⟨⟨k, v⟩, fs⟩ <;> simp [spacedFields] at hc <;> subst hc <;> decide

theorem stops_nil : Stops [] := by
  intro c hc
  simp at hc

theorem parseValue_read {ν : Type} (fmt : NumFormat ν) (fuel : Nat) {cs ds : List Char} {c : Char}
    (h : skipSpace cs = c :: ds) (hc : c = '-' ∨ c.isDigit = true) :
    parseValue fmt (fuel + 1) cs = (fmt.read (c :: ds)).map (fun r => (.num r.1, r.2)) := by
  have hne : ∀ d : Char, d ≠ '-' → d.isDigit = false → c ≠ d := by
    intro d h1 h2 heq
    rw [heq] at hc
    rcases hc with hc | hc
    · exact h1 hc
    · rw [h2] at hc
      cases hc
  have hn := hne 'n' (by decide) (by decide)
  have ht := hne 't' (by decide) (by decide)
  have hf := hne 'f' (by decide) (by decide)
  have hq := hne '"' (by decide) (by decide)
  have ha := hne '[' (by decide) (by decide)
  have ho := hne '{' (by decide) (by decide)
  unfold parseValue
  rw [h]
  split
  case h_7 =>
    cases fmt.read (c :: ds) <;> rfl
  all_goals rename_i heq; injection heq; contradiction

theorem parseValue_num {ν : Type} (fmt : NumFormat ν) (n : ν) (fuel : Nat) {rest : List Char}
    (h : Stops rest) : parseValue fmt (fuel + 1) (fmt.print n ++ rest) = some (.num n, rest) := by
  obtain ⟨c, cs, hp, hc⟩ := fmt.head_print n
  have hr := fmt.read_print n rest h
  have hsp : isSpace c = false := by
    obtain ⟨d, ds, hd, hs, -⟩ := head_renderSpaced fmt [] (.num n)
    rw [renderSpaced, hp] at hd
    rw [(List.cons.inj hd).1]
    exact hs
  rw [hp, List.cons_append] at hr ⊢
  rw [parseValue_read fmt fuel (skipSpace_cons _ hsp) hc, hr]
  rfl

theorem skipSpace_append {sp : List Char} (h : ∀ c ∈ sp, isSpace c = true) (cs : List Char) :
    skipSpace (sp ++ cs) = skipSpace cs := List.dropWhile_append_of_pos h

theorem parseValue_append {ν : Type} (fmt : NumFormat ν) {sp : List Char}
    (h : ∀ c ∈ sp, isSpace c = true) (fuel : Nat) (cs : List Char) :
    parseValue fmt fuel (sp ++ cs) = parseValue fmt fuel cs := by
  cases fuel with
  | zero => rfl
  | succ fuel => simp only [parseValue, skipSpace_append h]

theorem parseField_append {ν : Type} (fmt : NumFormat ν) {sp : List Char}
    (h : ∀ c ∈ sp, isSpace c = true) (fuel : Nat) (cs : List Char) :
    parseField fmt fuel (sp ++ cs) = parseField fmt fuel cs := by
  cases fuel with
  | zero => rfl
  | succ fuel => simp only [parseField, skipSpace_append h]

section Spaced

variable {ν : Type} (fmt : NumFormat ν) {sp : List Char}

mutual
theorem parseValue_spaced (hsp : ∀ c ∈ sp, isSpace c = true) (v : Json ν) (fuel : Nat)
    (rest : List Char) (hf : (renderSpaced fmt sp v).length ≤ fuel) (hs : Stops rest) :
    parseValue fmt fuel (renderSpaced fmt sp v ++ rest) = some (normalise v, rest) := by
  obtain ⟨fuel, rfl⟩ : ∃ f, fuel = f + 1 := by
    obtain ⟨c, cs, hc, -⟩ := head_renderSpaced fmt sp v
    rw [hc] at hf
    exact ⟨fuel - 1, by simp at hf; omega⟩
  match v with
  | .null => rfl
  | .bool true => rfl
  | .bool false => rfl
  | .num n => exact parseValue_num fmt n fuel hs
  | .str s =>
    have hq := readString_quote s rest
    simp [renderSpaced, quote, parseValue, skipSpace, isSpace, hq, normalise]
  | .arr [] => rfl
  | .arr (v :: vs) =>
    obtain ⟨c, cs, hc, hspace, hb⟩ := head_renderSpaced fmt sp v
    simp only [renderSpaced, List.length_cons, List.length_append] at hf
    have h1 := parseValue_spaced hsp v fuel (spacedItems fmt sp vs ++ rest) (by omega)
      (stops_spacedItems fmt sp vs rest)
    have h2 := parseItems_spaced hsp vs fuel rest (by omega)
    simp only [hc, List.cons_append] at h1
    simp only [renderSpaced, hc, List.cons_append, List.append_assoc, parseValue,
      skipSpace_cons _ (show isSpace '[' = false by decide), skipSpace_cons _ hspace]
    split
    · rename_i heq
      injection heq with h
      exact absurd h hb
    · simp [h1, h2, normalise, normaliseItems]
  | .obj [] => rfl
  | .obj ((k, v) :: fs) =>
    simp only [renderSpaced, List.length_cons, List.length_append] at hf
    have h1 := parseField_spaced hsp k v fuel (spacedFields fmt sp fs ++ rest) (by omega)
      (stops_spacedFields fmt sp fs rest)
    have h2 := parseFields_spaced hsp fs fuel rest (by omega)
    simp only [quote, List.cons_append, List.append_assoc, List.nil_append] at h1
    simp only [renderSpaced, quote, List.cons_append, List.append_assoc, parseValue,
      skipSpace_cons _ (show isSpace '{' = false by decide),
      skipSpace_cons _ (show isSpace '"' = false by decide)]
    simp [h1, h2, normalise, normaliseFields]
termination_by fuel

theorem parseItems_spaced (hsp : ∀ c ∈ sp, isSpace c = true) (vs : List (Json ν))
    (fuel : Nat) (rest : List Char) (hf : (spacedItems fmt sp vs).length ≤ fuel) :
    parseItems fmt fuel (spacedItems fmt sp vs ++ rest) = some (normaliseItems vs, rest) := by
  match vs with
  | [] =>
    obtain ⟨fuel, rfl⟩ : ∃ f, fuel = f + 1 := ⟨fuel - 1, by simp [spacedItems] at hf; omega⟩
    rfl
  | v :: vs =>
    simp only [spacedItems, List.length_cons, List.length_append] at hf
    obtain ⟨fuel, rfl⟩ : ∃ f, fuel = f + 1 := ⟨fuel - 1, by omega⟩
    have h1 := parseValue_spaced hsp v fuel (spacedItems fmt sp vs ++ rest) (by omega)
      (stops_spacedItems fmt sp vs rest)
    have h2 := parseItems_spaced hsp vs fuel rest (by omega)
    simp only [spacedItems, List.cons_append, List.append_assoc, parseItems,
      skipSpace_cons _ (show isSpace ',' = false by decide), parseValue_append fmt hsp]
    simp [h1, h2, normaliseItems]
termination_by fuel

theorem parseField_spaced (hsp : ∀ c ∈ sp, isSpace c = true) (k : String) (v : Json ν)
    (fuel : Nat) (rest : List Char) (hf : (renderSpaced fmt sp v).length + 1 ≤ fuel) (hs : Stops rest) :
    parseField fmt fuel (quote k ++ ':' :: (sp ++ (renderSpaced fmt sp v ++ rest))) =
      some ((k, normalise v), rest) := by
  obtain ⟨fuel, rfl⟩ : ∃ f, fuel = f + 1 := ⟨fuel - 1, by omega⟩
  have h1 := parseValue_spaced hsp v fuel rest (by omega) hs
  have hq := readString_quote k (':' :: (sp ++ (renderSpaced fmt sp v ++ rest)))
  simp [quote, parseField, skipSpace, isSpace, hq, parseValue_append fmt hsp, h1]
termination_by fuel

theorem parseFields_spaced (hsp : ∀ c ∈ sp, isSpace c = true) (fs : List (String × Json ν))
    (fuel : Nat) (rest : List Char) (hf : (spacedFields fmt sp fs).length ≤ fuel) :
    parseFields fmt fuel (spacedFields fmt sp fs ++ rest) = some (normaliseFields fs, rest) := by
  match fs with
  | [] =>
    obtain ⟨fuel, rfl⟩ : ∃ f, fuel = f + 1 := ⟨fuel - 1, by simp [spacedFields] at hf; omega⟩
    rfl
  | (k, v) :: fs =>
    simp only [spacedFields, List.length_cons, List.length_append] at hf
    obtain ⟨fuel, rfl⟩ : ∃ f, fuel = f + 1 := ⟨fuel - 1, by omega⟩
    have h1 := parseField_spaced hsp k v fuel (spacedFields fmt sp fs ++ rest) (by omega)
      (stops_spacedFields fmt sp fs rest)
    have h2 := parseFields_spaced hsp fs fuel rest (by omega)
    simp only [spacedFields, List.cons_append, List.append_assoc, parseFields,
      skipSpace_cons _ (show isSpace ',' = false by decide), parseField_append fmt hsp]
    simp [h1, h2, normaliseFields]
termination_by fuel
end

theorem parse_renderSpaced (hsp : ∀ c ∈ sp, isSpace c = true) (v : Json ν) :
    parse fmt (String.ofList (renderSpaced fmt sp v)) = some (normalise v) := by
  have h := parseValue_spaced fmt hsp v (2 * (renderSpaced fmt sp v).length + 2) [] (by omega)
    stops_nil
  rw [List.append_nil] at h
  unfold parse
  rw [String.toList_ofList, h]
  rfl

end Spaced

/-- `JSON.parse` undoes `JSON.stringify`. -/
theorem parse_stringify {ν : Type} (fmt : NumFormat ν) (v : Json ν) :
    parse fmt (stringify fmt v) = some (normalise v) := by
  have h := parse_renderSpaced fmt (show ∀ c ∈ ([] : List Char), isSpace c = true by simp) v
  rwa [renderSpaced_nil] at h

theorem parse_stringify_canonical {ν : Type} (fmt : NumFormat ν) {v : Json ν} (h : Canonical v) :
    parse fmt (stringify fmt v) = some v := by
  rw [parse_stringify, h]

theorem stringify_inj {ν : Type} (fmt : NumFormat ν) {v w : Json ν} (hv : Canonical v)
    (hw : Canonical w) (h : stringify fmt v = stringify fmt w) : v = w := by
  have hread := parse_stringify_canonical fmt hv
  rw [h, parse_stringify_canonical fmt hw] at hread
  exact (Option.some.inj hread).symm

end Json
