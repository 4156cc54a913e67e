import Mathlib.Data.List.TakeDrop
import Mathlib.Data.List.TakeWhile
import Mathlib.Tactic.Common

/-!
Comma-separated values: rows as RFC 4180 writes them, and a reader of such files.
Every character but the four special ones may stand in a field without quotes. A file
ends after its last record, with or without a line break.
-/

set_option autoImplicit false

namespace Csv

def isSpecial (c : Char) : Bool := c = '"' || c = ',' || c = '\r' || c = '\n'

/-! ### Writing -/

def double (text : List Char) : List Char := text.flatMap (fun c => if c = '"' then ['"', '"'] else [c])

def quoted (text : List Char) : List Char := '"' :: (double text ++ ['"'])

/-- A field, quoted where it needs it, or by choice. -/
def Cell (text cell : List Char) : Prop := cell = quoted text ∨ (cell = text ∧ text.any isSpecial = false)

def row (cells : List (List Char)) : List Char := [','].intercalate cells ++ ['\r', '\n']

/-! ### Reading -/

def readQuoted : List Char → Option (List Char × List Char)
  | '"' :: '"' :: cs => (readQuoted cs).map (fun r => ('"' :: r.1, r.2))
  | '"' :: cs => some ([], cs)
  | c :: cs => (readQuoted cs).map (fun r => (c :: r.1, r.2))
  | [] => none

def readField : List Char → Option (List Char × List Char)
  | '"' :: cs => readQuoted cs
  | cs => some (cs.takeWhile (fun c => !isSpecial c), cs.dropWhile (fun c => !isSpecial c))

/-- The fields up to the end of a line, and what follows it. The fuel is spent on fields. -/
def readRecord : Nat → List Char → Option (List (List Char) × List Char)
  | 0, _ => none
  | fuel + 1, cs =>
    match readField cs with
    | none => none
    | some (field, ',' :: rest) => (readRecord fuel rest).map (fun r => (field :: r.1, r.2))
    | some (field, '\r' :: '\n' :: rest) => some ([field], rest)
    | some (field, []) => some ([field], [])
    | some _ => none

def readRecords : Nat → List Char → Option (List (List (List Char)))
  | _, [] => some []
  | 0, _ :: _ => none
  | fuel + 1, c :: cs =>
    match readRecord (c :: cs).length (c :: cs) with
    | none => none
    | some (record, rest) => (readRecords fuel rest).map (record :: ·)

def parse (text : List Char) : Option (List (List (List Char))) := readRecords text.length text

/-! ### A row reads back -/

theorem readQuoted_double (text : List Char) {rest : List Char} (h : rest.head? ≠ some '"') :
    readQuoted (double text ++ '"' :: rest) = some (text, rest) := by
  induction text with
  | nil =>
    cases rest with
    | nil => rfl
    | cons c rest =>
      have hc : c ≠ '"' := fun heq => h (by rw [heq]; rfl)
      simp [double, readQuoted, hc]
  | cons c text ih =>
    by_cases hc : c = '"'
    · subst hc
      simp only [double, List.flatMap_cons, if_true, List.cons_append, List.nil_append] at ih ⊢
      rw [readQuoted, ih]
      rfl
    · simp only [double, List.flatMap_cons, hc, if_false, List.cons_append, List.nil_append] at ih ⊢
      rw [readQuoted, ih]
      · rfl
      all_goals simp [hc]

def Ends (rest : List Char) : Prop := ∀ c, rest.head? = some c → c = ',' ∨ c = '\r' ∨ c = '\n'

theorem readField_cell {text cell rest : List Char} (h : Cell text cell) (hrest : Ends rest) :
    readField (cell ++ rest) = some (text, rest) := by
  obtain rfl | ⟨rfl, hplain⟩ := h
  · have hne : rest.head? ≠ some '"' := by
      intro hq
      have hc := hrest _ hq
      exact absurd hc (by decide)
    simp only [quoted, List.cons_append, List.append_assoc, List.nil_append, readField]
    exact readQuoted_double text hne
  · have hall : ∀ c ∈ cell, (!isSpecial c) = true := by
      intro c hc
      simpa using List.any_eq_false.mp hplain c hc
    have hstop : rest.takeWhile (fun c => !isSpecial c) = [] ∧
        rest.dropWhile (fun c => !isSpecial c) = rest := by
      cases rest with
      | nil => simp
      | cons c rest =>
        have hc : isSpecial c = true := by
          obtain rfl | rfl | rfl := hrest c rfl <;> rfl
        simp [hc]
    unfold readField
    split
    · rename_i cs heq
      cases cell with
      | nil =>
        have hq := hrest '"' (by rw [show rest = '"' :: cs from heq]; rfl)
        exact absurd hq (by decide)
      | cons c cell =>
        have hq := hall c List.mem_cons_self
        rw [(List.cons.inj heq).1] at hq
        exact absurd hq (by decide)
    · rw [List.takeWhile_append_of_pos hall, List.dropWhile_append_of_pos hall, hstop.1, hstop.2,
        List.append_nil]

theorem ends_comma (rest : List Char) : Ends (',' :: rest) := by
  intro c hc
  exact .inl (Option.some.inj hc).symm

theorem ends_line (rest : List Char) : Ends ('\r' :: '\n' :: rest) := by
  intro c hc
  exact .inr (.inl (Option.some.inj hc).symm)

theorem row_cons_cons (a b : List Char) (cells : List (List Char)) :
    row (a :: b :: cells) = a ++ ',' :: row (b :: cells) := by
  simp [row, List.intercalate]

theorem length_le_row (cells : List (List Char)) : cells.length + 1 ≤ (row cells).length := by
  induction cells with
  | nil => simp [row]
  | cons a cells ih =>
    cases cells with
    | nil => simp [row, List.intercalate]
    | cons b cells =>
      rw [row_cons_cons, List.length_append, List.length_cons]
      simp only [List.length_cons] at ih ⊢
      omega

theorem readRecord_row {texts cells : List (List Char)} (h : List.Forall₂ Cell texts cells)
    (hne : cells ≠ []) {fuel : Nat} (hfuel : cells.length ≤ fuel) (rest : List Char) :
    readRecord fuel (row cells ++ rest) = some (texts, rest) := by
  induction h generalizing fuel with
  | nil => exact absurd rfl hne
  | @cons text cell texts cells hcell hcells ih =>
    obtain ⟨fuel, rfl⟩ : ∃ more, fuel = more + 1 := ⟨fuel - 1, by simp at hfuel; omega⟩
    cases hcells with
    | nil =>
      have hread := readField_cell hcell (ends_line rest)
      simp only [row, List.intercalate, List.intersperse, List.flatten_cons, List.flatten_nil,
        List.append_nil, List.append_assoc, List.cons_append, List.nil_append]
      rw [readRecord, hread]
      rfl
    | @cons text' cell' texts cells hcell' hcells =>
      have hread := readField_cell hcell (ends_comma (row (cell' :: cells) ++ rest))
      have hmore : readRecord fuel (row (cell' :: cells) ++ rest) = some (text' :: texts, rest) :=
        ih (by simp) (by simpa using hfuel)
      rw [row_cons_cons, List.append_assoc, List.cons_append, readRecord, hread]
      simp only [hmore, Option.map_some]

theorem row_ne_nil (cells : List (List Char)) : row cells ≠ [] := by
  simp [row]

theorem parse_rows {records rows : List (List (List Char))}
    (h : List.Forall₂ (List.Forall₂ Cell) records rows) (hne : ∀ cells ∈ rows, cells ≠ []) :
    parse (rows.flatMap row) = some records := by
  have hread : ∀ fuel, rows.length ≤ fuel → readRecords fuel (rows.flatMap row) = some records := by
    induction h with
    | nil => intro fuel _; cases fuel <;> rfl
    | @cons texts cells records rows hcells hrows ih =>
      intro fuel hfuel
      obtain ⟨hcellsne, hrowsne⟩ := List.forall_mem_cons.mp hne
      obtain ⟨fuel, rfl⟩ : ∃ more, fuel = more + 1 := ⟨fuel - 1, by simp at hfuel; omega⟩
      obtain ⟨c, cs, hc⟩ := List.exists_cons_of_ne_nil (row_ne_nil cells)
      have hlen : cells.length ≤ (row cells ++ rows.flatMap row).length := by
        have hrow := length_le_row cells
        rw [List.length_append]
        omega
      have hrecord := readRecord_row hcells hcellsne hlen (rows.flatMap row)
      rw [hc, List.cons_append] at hrecord
      rw [List.flatMap_cons, hc, List.cons_append, readRecords, hrecord]
      simp only [ih hrowsne fuel (by simpa using hfuel), Option.map_some]
  refine hread _ ?_
  clear hread h hne
  induction rows with
  | nil => simp
  | cons cells rows ih =>
    have hrow := length_le_row cells
    rw [List.flatMap_cons, List.length_append, List.length_cons]
    omega

end Csv
