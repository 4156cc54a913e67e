import SorobanLens.Lib.Json
import Mathlib.Data.Rat.Lemmas

/-!
JSON numbers by their literals: what the grammar of numbers accepts, kept as it is
written, for readers of text that no one here wrote.
-/

set_option autoImplicit false

namespace Json

def leadingDigits (cs : List Char) : List Char := cs.takeWhile Char.isDigit

def afterDigits (cs : List Char) : List Char := cs.dropWhile Char.isDigit

def readWhole (cs : List Char) : Option (List Char × List Char) :=
  match leadingDigits cs with
  | [] => none
  | '0' :: _ :: _ => none
  | ds => some (ds, afterDigits cs)

def readFrac (cs : List Char) : Option (List Char × List Char) :=
  match cs with
  | '.' :: rest =>
    if leadingDigits rest = [] then none else some ('.' :: leadingDigits rest, afterDigits rest)
  | _ => some ([], cs)

def readSign : List Char → List Char × List Char
  | '+' :: rest => (['+'], rest)
  | '-' :: rest => (['-'], rest)
  | rest => ([], rest)

def readExp (cs : List Char) : Option (List Char × List Char) :=
  match cs with
  | [] => some ([], [])
  | c :: rest =>
    if c = 'e' ∨ c = 'E' then
      if leadingDigits (readSign rest).2 = [] then none
      else some (c :: (readSign rest).1 ++ leadingDigits (readSign rest).2,
        afterDigits (readSign rest).2)
    else some ([], c :: rest)

def readMinus : List Char → List Char × List Char
  | '-' :: rest => (['-'], rest)
  | rest => ([], rest)

def readLiteral (cs : List Char) : Option (List Char × List Char) := do
  let (whole, cs₁) ← readWhole (readMinus cs).2
  let (frac, cs₂) ← readFrac cs₁
  let (exp, rest) ← readExp cs₂
  pure ((readMinus cs).1 ++ whole ++ frac ++ exp, rest)

structure Numeral where
  text : List Char
  spells : readLiteral text = some (text, [])

/-! ### A literal is read where it ends -/

theorem isDigit_leadingDigits (cs : List Char) : ∀ c ∈ leadingDigits cs, c.isDigit = true := by
  induction cs with
  | nil => simp [leadingDigits]
  | cons d ds ih =>
    unfold leadingDigits at ih ⊢
    cases hd : d.isDigit with
    | true => simp_all
    | false => simp [hd]

def NoSign (rest : List Char) : Prop := ∀ c, rest.head? = some c → c ≠ '+' ∧ c ≠ '-'

theorem noSign_of_isDigit {d : Char} (hd : d.isDigit = true) (ds : List Char) : NoSign (d :: ds) := by
  intro c hc
  cases hc
  constructor <;> intro heq <;> subst heq <;> exact absurd hd (by decide)

theorem noSign_of_digits {cs : List Char} (h : leadingDigits cs ≠ []) (more : List Char) :
    NoSign (leadingDigits cs ++ more) := by
  cases hds : leadingDigits cs with
  | nil => exact absurd hds h
  | cons d ds =>
    exact noSign_of_isDigit (isDigit_leadingDigits cs d (by simp [hds])) (ds ++ more)

theorem noDigit_cons {c : Char} (h : c.isDigit = false) (cs : List Char) : NoDigit (c :: cs) := by
  intro d hd
  cases hd
  exact h

theorem digits_append {ds rest : List Char} (hds : ∀ c ∈ ds, c.isDigit = true) (hrest : NoDigit rest) :
    leadingDigits (ds ++ rest) = ds ∧ afterDigits (ds ++ rest) = rest := by
  unfold leadingDigits afterDigits
  rw [List.takeWhile_append_of_pos hds, List.dropWhile_append_of_pos hds]
  cases rest with
  | nil => simp
  | cons c rest => simp [hrest c rfl]

theorem readWhole_append {cs rest whole more : List Char} (h : readWhole cs = some (whole, rest))
    (hmore : NoDigit more) : readWhole (whole ++ more) = some (whole, more) ∧
      ∃ d ds, whole = d :: ds ∧ d.isDigit = true := by
  unfold readWhole at h
  split at h
  · cases h
  · cases h
  · rename_i hne hzero
    obtain ⟨rfl, -⟩ := Prod.mk.inj (Option.some.inj h)
    have hdigits := isDigit_leadingDigits cs
    obtain ⟨hlead, hafter⟩ := digits_append hdigits hmore
    constructor
    · unfold readWhole
      rw [hlead, hafter]
      split
      · rename_i hnil
        exact absurd hnil hne
      · rename_i hz
        exact absurd hz (hzero _ _)
      · rfl
    · cases hds : leadingDigits cs with
      | nil => exact absurd hds hne
      | cons d ds => exact ⟨d, ds, rfl, hdigits d (by simp [hds])⟩

theorem readFrac_append {cs rest frac more : List Char} (h : readFrac cs = some (frac, rest))
    (hmore : NoDigit more) (hdot : more.head? ≠ some '.') :
    readFrac (frac ++ more) = some (frac, more) ∧ (frac = [] ∨ frac.head? = some '.') := by
  unfold readFrac at h
  split at h
  · split at h
    · cases h
    · rename_i ds hne
      obtain ⟨rfl, -⟩ := Prod.mk.inj (Option.some.inj h)
      obtain ⟨hlead, hafter⟩ := digits_append (isDigit_leadingDigits ds) hmore
      exact ⟨by simp [readFrac, hlead, hafter, hne], .inr rfl⟩
  · obtain ⟨rfl, -⟩ := Prod.mk.inj (Option.some.inj h)
    refine ⟨?_, .inl rfl⟩
    cases more with
    | nil => rfl
    | cons c more =>
      unfold readFrac
      split
      · rename_i heq
        cases heq
        exact absurd rfl hdot
      · rfl

theorem readSign_append (cs : List Char) {ds : List Char} (h : NoSign ds) :
    readSign ((readSign cs).1 ++ ds) = ((readSign cs).1, ds) := by
  have hnone : readSign ds = ([], ds) := by
    unfold readSign
    split
    · exact absurd rfl (h '+' rfl).1
    · exact absurd rfl (h '-' rfl).2
    · rfl
  have hcases : (readSign cs).1 = [] ∨ (readSign cs).1 = ['+'] ∨ (readSign cs).1 = ['-'] := by
    unfold readSign
    split <;> simp
  rcases hcases with hc | hc | hc <;> rw [hc]
  · exact hnone
  · rfl
  · rfl

theorem readExp_append {cs rest exp more : List Char} (h : readExp cs = some (exp, rest))
    (hmore : Stops more) : readExp (exp ++ more) = some (exp, more) ∧
      (exp = [] ∨ exp.head? = some 'e' ∨ exp.head? = some 'E') := by
  have hnone : readExp ([] ++ more) = some ([], more) := by
    cases more with
    | nil => rfl
    | cons c more =>
      have hc := hmore c rfl
      simp [readExp, hc.2.2.1, hc.2.2.2]
  unfold readExp at h
  split at h
  · obtain ⟨rfl, -⟩ := Prod.mk.inj (Option.some.inj h)
    exact ⟨hnone, .inl rfl⟩
  · split at h
    · rename_i c ds he
      split at h
      · cases h
      · rename_i hne
        obtain ⟨rfl, -⟩ := Prod.mk.inj (Option.some.inj h)
        obtain ⟨hlead, hafter⟩ := digits_append (isDigit_leadingDigits (readSign ds).2)
          hmore.noDigit
        have hsign := readSign_append ds (noSign_of_digits hne more)
        refine ⟨?_, .inr (by simpa using he)⟩
        simp only [List.cons_append, List.append_assoc, readExp, he, if_true, hsign, hlead, hafter,
          hne, if_false]
    · obtain ⟨rfl, -⟩ := Prod.mk.inj (Option.some.inj h)
      exact ⟨hnone, .inl rfl⟩

theorem readMinus_append {cs ds : List Char} (h : NoSign ds) :
    readMinus ((readMinus cs).1 ++ ds) = ((readMinus cs).1, ds) := by
  have hnone : readMinus ds = ([], ds) := by
    unfold readMinus
    split
    · exact absurd rfl (h '-' rfl).2
    · rfl
  have hcases : (readMinus cs).1 = [] ∨ (readMinus cs).1 = ['-'] := by
    unfold readMinus
    split <;> simp
  rcases hcases with hc | hc <;> rw [hc]
  · exact hnone
  · rfl

theorem readLiteral_append {cs rest text more : List Char}
    (h : readLiteral cs = some (text, rest)) (hmore : Stops more) :
    readLiteral (text ++ more) = some (text, more) := by
  unfold readLiteral at h
  simp only [Option.bind_eq_bind, Option.bind_eq_some_iff, Prod.exists, Option.pure_def,
    Option.some.injEq, Prod.mk.injEq] at h
  obtain ⟨whole, cs₁, hwhole, frac, cs₂, hfrac, exp, cs₃, hexp, rfl, -⟩ := h
  obtain ⟨hexp', hexpHead⟩ := readExp_append hexp hmore
  have hafterExp : NoDigit (exp ++ more) ∧ (exp ++ more).head? ≠ some '.' := by
    cases exp with
    | nil => exact ⟨hmore.noDigit, fun hdot => (hmore _ hdot).2.1 rfl⟩
    | cons e es =>
      have he : e = 'e' ∨ e = 'E' := by simpa using hexpHead
      cases he with
      | inl he => subst he; exact ⟨noDigit_cons (by decide) _, by simp⟩
      | inr he => subst he; exact ⟨noDigit_cons (by decide) _, by simp⟩
  obtain ⟨hfrac', hfracHead⟩ := readFrac_append hfrac hafterExp.1 hafterExp.2
  have hafterFrac : NoDigit (frac ++ (exp ++ more)) := by
    cases frac with
    | nil => exact hafterExp.1
    | cons f fs =>
      have hf : f = '.' := by simpa using hfracHead
      subst hf
      exact noDigit_cons (by decide) _
  obtain ⟨hwhole', d, ds, hds, hd⟩ := readWhole_append hwhole hafterFrac
  have hsign : NoSign (whole ++ (frac ++ (exp ++ more))) := by
    rw [hds]
    exact noSign_of_isDigit hd _
  unfold readLiteral
  simp only [List.append_assoc, readMinus_append hsign, hwhole', hfrac', hexp',
    Option.bind_eq_bind, Option.bind_some, Option.pure_def]

theorem spells_of_readLiteral {cs rest text : List Char} (h : readLiteral cs = some (text, rest)) :
    readLiteral text = some (text, []) := by
  have hself := readLiteral_append h stops_nil
  rwa [List.append_nil] at hself

def readNumeral (cs : List Char) : Option (Numeral × List Char) :=
  match h : readLiteral cs with
  | none => none
  | some (text, rest) => some (⟨text, spells_of_readLiteral h⟩, rest)

theorem readNumeral_eq_some {cs rest : List Char} {n : Numeral}
    (h : readLiteral cs = some (n.text, rest)) : readNumeral cs = some (n, rest) := by
  unfold readNumeral
  split
  · rename_i hnone
    rw [hnone] at h
    cases h
  · rename_i text rest' hsome
    rw [hsome] at h
    cases h
    rfl

theorem head_numeral (n : Numeral) : ∃ c cs, n.text = c :: cs ∧ (c = '-' ∨ c.isDigit = true) := by
  have h := n.spells
  unfold readLiteral at h
  simp only [Option.bind_eq_bind, Option.bind_eq_some_iff, Prod.exists, Option.pure_def,
    Option.some.injEq, Prod.mk.injEq] at h
  obtain ⟨whole, cs₁, hwhole, frac, cs₂, -, exp, cs₃, -, htext, -⟩ := h
  obtain ⟨-, d, ds, rfl, hd⟩ := readWhole_append hwhole stops_nil.noDigit
  rw [← htext]
  unfold readMinus
  split
  · exact ⟨'-', _, rfl, .inl rfl⟩
  · exact ⟨d, _, rfl, .inr hd⟩

def numeralFormat : NumFormat Numeral where
  print := Numeral.text
  read := readNumeral
  head_print := head_numeral
  read_print := fun n _ h => readNumeral_eq_some (readLiteral_append n.spells h)

/-! ### Integers -/

theorem head_toDigits {n : Nat} (h : n ≠ 0) :
    ∃ d ds, Nat.toDigits 10 n = d :: ds ∧ d.isDigit = true ∧ d ≠ '0' := by
  induction n using Nat.strongRecOn with
  | ind n ih =>
    by_cases hlt : n < 10
    · rw [Nat.toDigits_of_lt_base hlt]
      have hdigit : ∀ m < 10, m ≠ 0 → m.digitChar.isDigit = true ∧ m.digitChar ≠ '0' := by decide
      exact ⟨n.digitChar, [], rfl, hdigit n hlt h⟩
    · obtain ⟨d, ds, hds, hd⟩ := ih (n / 10) (by omega) (by omega)
      rw [Nat.toDigits_of_base_le (by decide) (by omega), hds]
      exact ⟨d, _, rfl, hd⟩

theorem readWhole_toDigits (n : Nat) : readWhole (Nat.toDigits 10 n) = some (Nat.toDigits 10 n, []) := by
  have hdigits : ∀ c ∈ Nat.toDigits 10 n, c.isDigit = true := fun c hc => isDigit_toDigits hc
  obtain ⟨hlead, hafter⟩ := digits_append hdigits stops_nil.noDigit
  rw [List.append_nil] at hlead hafter
  unfold readWhole
  rw [hlead, hafter]
  split
  · rename_i hnil
    exact absurd hnil Nat.toDigits_ne_nil
  · rename_i c cs hzero
    have hn : n ≠ 0 := by
      intro hn
      subst hn
      cases hzero
    obtain ⟨d, ds, hds, -, hd⟩ := head_toDigits hn
    rw [hzero] at hds
    cases hds
    exact absurd rfl hd
  · rfl

theorem readLiteral_printInt (n : Int) : readLiteral (printInt n) = some (printInt n, []) := by
  unfold readLiteral
  cases n with
  | ofNat n =>
    have hminus : readMinus (Nat.toDigits 10 n) = ([], Nat.toDigits 10 n) := by
      unfold readMinus
      split
      · rename_i rest heq
        have hdash : '-' ∈ Nat.toDigits 10 n := by simp [heq]
        exact absurd (isDigit_toDigits hdash) (by decide)
      · rfl
    simp [hminus, readWhole_toDigits, readFrac, readExp, printInt]
  | negSucc n => simp [printInt, readMinus, readWhole_toDigits, readFrac, readExp]

def Numeral.ofInt (n : Int) : Numeral := ⟨printInt n, readLiteral_printInt n⟩

/-- The integer a literal without fraction and exponent spells. -/
def Numeral.integer? (n : Numeral) : Option Int :=
  match readInt n.text with
  | some (k, []) => some k
  | _ => none

@[simp] theorem integer?_ofInt (n : Int) : (Numeral.ofInt n).integer? = some n := by
  have h := intFormat.read_print n [] stops_nil
  rw [List.append_nil] at h
  have hread : readInt (printInt n) = some (n, []) := h
  simp [Numeral.integer?, Numeral.ofInt, hread]

/-- Every rational has a text here: an integer its digits, and what is no integer one that no
literal spells. -/
def rationalFormat : NumFormat ℚ where
  print q := printInt q.num ++ (if q.den = 1 then [] else '.' :: 'e' :: Nat.toDigits 10 q.den)
  read cs := do
    let (n, rest) ← readInt cs
    match rest with
    | '.' :: 'e' :: more => do
      let (d, rest) ← readNat more
      some ((n : ℚ) / d, rest)
    | _ => some ((n : ℚ), rest)
  head_print := by
    intro q
    obtain ⟨c, cs, hprint, hc⟩ := head_printInt q.num
    exact ⟨c, _, by rw [hprint, List.cons_append], hc⟩
  read_print := by
    intro q rest h
    by_cases hden : q.den = 1
    · rw [if_pos hden, List.append_nil, readInt_printInt q.num h.noDigit]
      have hq : ((q.num : ℤ) : ℚ) = q := Rat.coe_int_num_of_den_eq_one hden
      dsimp only [Option.bind_eq_bind, Option.bind_some]
      split
      · exact absurd rfl (h '.' rfl).2.1
      · rw [hq]
    · rw [if_neg hden, List.append_assoc, readInt_printInt q.num]
      · simp [readNat_toDigits q.den h.noDigit, Rat.num_div_den]
      · intro c hc
        cases hc
        rfl

def NumFormat.restrict {ν : Type} (fmt : NumFormat ν) (p : ν → Bool) :
    NumFormat {n : ν // p n = true} where
  print n := fmt.print n.val
  read cs := do
    let (n, rest) ← fmt.read cs
    if h : p n = true then some (⟨n, h⟩, rest) else none
  head_print n := fmt.head_print n.val
  read_print := by
    intro n rest h
    simp [fmt.read_print n.val rest h, n.property]

/-! ### Changing the numbers -/

mutual
def mapNum {ν μ : Type} (f : ν → μ) : Json ν → Json μ
  | .null => .null
  | .bool b => .bool b
  | .num n => .num (f n)
  | .str s => .str s
  | .arr vs => .arr (mapItems f vs)
  | .obj fs => .obj (mapFields f fs)

def mapItems {ν μ : Type} (f : ν → μ) : List (Json ν) → List (Json μ)
  | [] => []
  | v :: vs => mapNum f v :: mapItems f vs

def mapFields {ν μ : Type} (f : ν → μ) : List (String × Json ν) → List (String × Json μ)
  | [] => []
  | (k, v) :: fs => (k, mapNum f v) :: mapFields f fs
end

theorem mapItems_eq {ν μ : Type} (f : ν → μ) (vs : List (Json ν)) :
    mapItems f vs = vs.map (mapNum f) := by
  induction vs with
  | nil => rfl
  | cons v vs ih => simp [mapItems, ih]

theorem mapFields_eq {ν μ : Type} (f : ν → μ) (fs : List (String × Json ν)) :
    mapFields f fs = fs.map (fun g => (g.1, mapNum f g.2)) := by
  induction fs with
  | nil => rfl
  | cons g fs ih => simp [mapFields, ih]

section MapNum

variable {ν μ : Type} {fmt : NumFormat ν} {fmt' : NumFormat μ} {f : ν → μ}

mutual
theorem render_mapNum (hf : ∀ n, fmt'.print (f n) = fmt.print n) (v : Json ν) :
    render fmt' (mapNum f v) = render fmt v := by
  match v with
  | .null | .str s | .arr [] | .obj [] => simp [mapNum, mapItems, mapFields, render]
  | .num n => simp [mapNum, render, hf]
  | .bool b => cases b <;> simp [mapNum, render]
  | .arr (v :: vs) => simp [mapNum, mapItems, render, render_mapNum hf v, render_mapItems hf vs]
  | .obj ((k, v) :: fs) => simp [mapNum, mapFields, render, render_mapNum hf v, render_mapFields hf fs]

theorem render_mapItems (hf : ∀ n, fmt'.print (f n) = fmt.print n) (vs : List (Json ν)) :
    renderItems fmt' (mapItems f vs) = renderItems fmt vs := by
  match vs with
  | [] => simp [mapItems, renderItems]
  | v :: vs => simp [mapItems, renderItems, render_mapNum hf v, render_mapItems hf vs]

theorem render_mapFields (hf : ∀ n, fmt'.print (f n) = fmt.print n)
    (fs : List (String × Json ν)) :
    renderFields fmt' (mapFields f fs) = renderFields fmt fs := by
  match fs with
  | [] => simp [mapFields, renderFields]
  | (k, v) :: fs => simp [mapFields, renderFields, render_mapNum hf v, render_mapFields hf fs]
end

/-- A text one format wrote, read by another that writes the same numbers. -/
theorem parse_stringify_mapNum (hf : ∀ n, fmt'.print (f n) = fmt.print n) (v : Json ν) :
    parse fmt' (stringify fmt v) = some (normalise (mapNum f v)) := by
  rw [← parse_stringify fmt', stringify, stringify, render_mapNum hf]

end MapNum

end Json
