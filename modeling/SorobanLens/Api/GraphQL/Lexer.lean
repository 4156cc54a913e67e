import SorobanLens.Api.GraphQL.Document
import SorobanLens.Lib.TokenParser

/-!
The lexer: UTF-16 units into tokens, each with the offset where it starts.
-/

set_option autoImplicit false

namespace SorobanLens.GraphQL

open TokenParser

inductive TokenKind where
  | punct (value : String)
  | name (value : String)
  | int (value : String)
  | float (value : String)
  | string (value : List Nat)
  | eof
  deriving DecidableEq, Repr

structure Token where
  kind : TokenKind
  pos : Nat
  deriving DecidableEq, Repr

def parseError (message : String) (pos : Nat) : RequestError :=
  ⟨.parseFailed, "Syntax error at position " ++ toString pos ++ ": " ++ message⟩

/-- A loop of the front end that ran out of rounds. -/
def stuck : RequestError := ⟨.internalError, "Internal error."⟩

/-! ### Units -/

/-- Whitespace, commas and the byte order mark. -/
def isIgnored (u : Nat) : Bool :=
  u = 0x20 ∨ u = 0x09 ∨ u = 0x0A ∨ u = 0x0D ∨ u = 0x2C ∨ u = 0xFEFF

def isLineEnd (u : Nat) : Bool := u = 0x0A ∨ u = 0x0D

def isDigit (u : Nat) : Bool := 0x30 ≤ u ∧ u ≤ 0x39

def isNameStart (u : Nat) : Bool :=
  (0x41 ≤ u ∧ u ≤ 0x5A) ∨ (0x61 ≤ u ∧ u ≤ 0x7A) ∨ u = 0x5F

def isNamePart (u : Nat) : Bool := isDigit u || isNameStart u

/-- The units of `!$&()[]`, of the braces and of `:=@|`. -/
def PUNCTUATION : List Nat :=
  [0x21, 0x24, 0x26, 0x28, 0x29, 0x5B, 0x5D, 0x7B, 0x7D, 0x3A, 0x3D, 0x40, 0x7C]

def unitsText (us : List Nat) : String := String.ofList (us.map Char.ofNat)

def stringifyUnit (u : Nat) : String :=
  if 0xD800 ≤ u ∧ u < 0xE000 then
    "\"\\u" ++ String.ofList [Json.hexDigit (u / 4096), Json.hexDigit (u / 256 % 16),
      Json.hexDigit (u / 16 % 16), Json.hexDigit (u % 16)] ++ "\""
  else String.ofList (Json.quote (String.singleton (Char.ofNat u)))

/-! ### Numbers -/

def digits (message : String) (start : Nat) : Parser Nat RequestError (List Nat) := fun us =>
  if us.takeWhile isDigit = [] then .error (parseError message start)
  else .ok (us.takeWhile isDigit, us.dropWhile isDigit)

def oneOf (cs : List Nat) : Parser Nat RequestError (List Nat)
  | [] => .ok ([], [])
  | u :: us => if u ∈ cs then .ok ([u], us) else .ok ([], u :: us)

def fraction (start : Nat) : Parser Nat RequestError (List Nat) := do
  let dot ← oneOf [0x2E]
  if dot = [] then pure []
  else do
    let ds ← digits "expected digits after \".\"" start
    pure (dot ++ ds)

def exponent (start : Nat) : Parser Nat RequestError (List Nat) := do
  let mark ← oneOf [0x65, 0x45]
  if mark = [] then pure []
  else do
    let sign ← oneOf [0x2B, 0x2D]
    let ds ← digits "expected digits in the exponent" start
    pure (mark ++ sign ++ ds)

def numberToken (start : Nat) : Parser Nat RequestError TokenKind := do
  let minus ← oneOf [0x2D]
  let whole ← digits "expected a digit after \"-\"" start
  let frac ← fraction start
  let exp ← exponent start
  if frac = [] ∧ exp = [] then pure (.int (unitsText (minus ++ whole)))
  else pure (.float (unitsText (minus ++ whole ++ frac ++ exp)))

/-! ### Strings -/

def SIMPLE_ESCAPES : List (Nat × Nat) :=
  [(0x22, 0x22), (0x5C, 0x5C), (0x2F, 0x2F), (0x62, 0x08), (0x66, 0x0C), (0x6E, 0x0A), (0x72, 0x0D),
    (0x74, 0x09)]

def hexUnit (u : Nat) : Option Nat :=
  if isDigit u then some (u - 48)
  else if 0x61 ≤ u ∧ u ≤ 0x66 then some (u - 87)
  else if 0x41 ≤ u ∧ u ≤ 0x46 then some (u - 55)
  else none

def unicodeUnit : List Nat → Option Nat
  | [a, b, c, d] => do
    let a ← hexUnit a
    let b ← hexUnit b
    let c ← hexUnit c
    let d ← hexUnit d
    some (((a * 16 + b) * 16 + c) * 16 + d)
  | _ => none

def inString : List Nat → Bool
  | [] => false
  | u :: _ => u ≠ 0x22 && !isLineEnd u

def stringStep : Nat × List Nat → Parser Nat RequestError (Nat × List Nat)
  | (i, value), [] => .ok ((i, value), [])
  | (i, value), u :: us =>
    if u = 0x5C then
      match us with
      | [] => .error (parseError "invalid escape sequence" i)
      | next :: more =>
        match SIMPLE_ESCAPES.lookup next with
        | some v => .ok ((i + 2, value ++ [v]), more)
        | none =>
          if next = 0x75 then
            match unicodeUnit (more.take 4) with
            | some v => .ok ((i + 6, value ++ [v]), more.drop 4)
            | none => .error (parseError "invalid unicode escape" i)
          else .error (parseError "invalid escape sequence" i)
    else .ok ((i + 1, value ++ [u]), us)

def closeString (start : Nat) : Parser Nat RequestError Unit
  | [] => .error (parseError "unterminated string" start)
  | u :: us => if u = 0x22 then .ok ((), us) else .error (parseError "unterminated string" start)

def stringToken (start : Nat) : Parser Nat RequestError TokenKind := do
  let r ← repeatWhile stuck inString stringStep (start + 1, [])
  closeString start
  pure (.string r.2)

/-! ### Tokens -/

def lexeme (i : Nat) : Parser Nat RequestError (Option TokenKind)
  | [] => .ok (none, [])
  | ch :: us =>
    if isIgnored ch then .ok (none, us)
    else if ch = 0x23 then .ok (none, (ch :: us).dropWhile (fun u => !isLineEnd u))
    else if (ch :: us).take 3 = [0x2E, 0x2E, 0x2E] then .ok (some (.punct "..."), (ch :: us).drop 3)
    else if ch ∈ PUNCTUATION then .ok (some (.punct (unitsText [ch])), us)
    else if isNameStart ch then
      .ok (some (.name (unitsText ((ch :: us).takeWhile isNamePart))), (ch :: us).dropWhile isNamePart)
    else if ch = 0x2D ∨ isDigit ch then (some <$> numberToken i) (ch :: us)
    else if ch = 0x22 then (some <$> stringToken i) us
    else .error (parseError ("unexpected character " ++ stringifyUnit ch) i)

def lexStep (s : Nat × List Token) : Parser Nat RequestError (Nat × List Token) := fun us =>
  match lexeme s.1 us with
  | .error e => .error e
  | .ok (kind, rest) =>
    .ok ((s.1 + (us.length - rest.length), s.2 ++ (kind.map (fun k => (⟨k, s.1⟩ : Token))).toList), rest)

def tokenize (source : List Nat) : Except RequestError (List Token) :=
  match repeatWhile stuck (fun us => !us.isEmpty) lexStep (0, []) source with
  | .error e => .error e
  | .ok (s, _) => .ok (s.2 ++ [⟨.eof, source.length⟩])

end SorobanLens.GraphQL
