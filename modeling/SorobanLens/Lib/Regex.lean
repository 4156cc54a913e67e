/-!
The part of JavaScript's regular expressions that needs no captures: a matcher
that lists every way to match at a position, and the search over positions. All
letters match in either case.
-/

set_option autoImplicit false

inductive Regex where
  | empty
  | char (c : Char)
  /-- `.` -/
  | any
  /-- `\s` -/
  | space
  /-- `\b` -/
  | boundary
  | seq (r s : Regex)
  | alt (r s : Regex)
  | star (r : Regex)

namespace Regex

/-- A position in a text: the character before it and the characters after. -/
structure Pos where
  before : Option Char
  after : List Char

def isWord (c : Char) : Bool := c.isAlphanum || c == '_'

/-- Exactly one side of the position is a word character. -/
def Pos.atBoundary (p : Pos) : Bool :=
  (p.before.any isWord) != (p.after.head?.any isWord)

def isLineEnd (c : Char) : Bool := c == '\n' || c == '\r' || c == '\u2028' || c == '\u2029'

def isSpace (c : Char) : Bool :=
  c.isWhitespace || c == '\x0b' || c == '\x0c' || c == '\u00a0' || c == '\ufeff' || isLineEnd c

/-- Every position a match from here can end at. -/
def matchesAt : Regex → Pos → List Pos
  | .empty, p => [p]
  | .char c, ⟨_, d :: ds⟩ => if c.toLower = d.toLower then [⟨some d, ds⟩] else []
  | .char _, ⟨_, []⟩ => []
  | .any, ⟨_, d :: ds⟩ => if isLineEnd d then [] else [⟨some d, ds⟩]
  | .any, ⟨_, []⟩ => []
  | .space, ⟨_, d :: ds⟩ => if isSpace d then [⟨some d, ds⟩] else []
  | .space, ⟨_, []⟩ => []
  | .boundary, p => if p.atBoundary then [p] else []
  | .seq r s, p => (matchesAt r p).flatMap (matchesAt s)
  | .alt r s, p => matchesAt r p ++ matchesAt s p
  | .star r, p => repeatAt (matchesAt r) p.after.length p
where
  /-- A turn that consumes nothing ends the repetition. -/
  repeatAt (step : Pos → List Pos) : Nat → Pos → List Pos
    | 0, p => [p]
    | n + 1, p =>
      p :: (step p).flatMap (fun q =>
        if q.after.length < p.after.length then repeatAt step n q else [])

def testFrom (r : Regex) : Option Char → List Char → Bool
  | before, [] => !(matchesAt r ⟨before, []⟩).isEmpty
  | before, c :: cs => !(matchesAt r ⟨before, c :: cs⟩).isEmpty || testFrom r (some c) cs

def test (r : Regex) (text : String) : Bool := testFrom r none text.toList

/-! ### Patterns -/

def literal (text : String) : Regex := text.toList.foldr (fun c r => .seq (.char c) r) .empty

def optional (r : Regex) : Regex := .alt r .empty

def oneOf : List Regex → Regex
  | [] => .empty
  | [r] => r
  | r :: rs => .alt r (oneOf rs)

def concat (rs : List Regex) : Regex := rs.foldr .seq .empty

end Regex
