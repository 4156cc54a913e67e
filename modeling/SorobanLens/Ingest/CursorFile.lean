import SorobanLens.Ingest.Poller
import SorobanLens.Lib.JsonIndent
import SorobanLens.Lib.JsonRead
import SorobanLens.Lib.KeyedTable

/-!
`FileCursorStore`: a file per key in one directory, written by a temp file and a
rename. File names are told apart by every character.
-/

set_option autoImplicit false

namespace SorobanLens

structure CursorFile where
  name : String
  text : String
  deriving DecidableEq

abbrev Directory := KeyedTable CursorFile.name

inductive CursorError where
  /-- The file does not hold JSON. -/
  | unparsable
  /-- A property of `null` was read. -/
  | nullParsed
  /-- `process.kill` takes no such number. -/
  | invalidPid
  /-- `ENAMETOOLONG`. -/
  | nameTooLong
  deriving DecidableEq, Repr

/-! ### File names -/

/-- `[A-Za-z0-9._-]`. -/
def isKeyChar (c : Char) : Bool := c.isAlphanum || c == '.' || c == '_' || c == '-'

def sanitiseChar (c : Char) : List Char :=
  if isKeyChar c then [c] else if c.toNat < 65536 then ['_'] else ['_', '_']

def sanitiseKey (key : String) : String := String.ofList (key.toList.flatMap sanitiseChar)

def cursorFileName (key : String) : String := sanitiseKey key ++ ".cursor.json"

def NAME_MAX : Nat := 255

def nameFits (name : String) : Bool := name.utf8ByteSize ≤ NAME_MAX

def chunkCursorKey (baseKey : String) (chunkIndex totalChunks : Nat) : String :=
  if totalChunks ≤ 1 then baseKey
  else baseKey ++ "#chunk-" ++ toString chunkIndex ++ "-of-" ++ toString totalChunks

/-- What a temp file's name is made unique by: the process, the clock and
`Math.random()` in base 36. -/
structure TempStamp where
  pid : Nat
  now : Nat
  random : List Char
  base36 : ∀ c ∈ random, c.isDigit = true ∨ c.isLower = true

def TempStamp.text (stamp : TempStamp) : List Char :=
  Nat.toDigits 10 stamp.pid ++ '.' :: (Nat.toDigits 10 stamp.now ++ '.' :: stamp.random)

def tempFileName (key : String) (stamp : TempStamp) : String :=
  cursorFileName key ++ String.ofList ('.' :: (stamp.text ++ ['.', 't', 'm', 'p']))

/-! ### Orphaned temp files -/

/-- `/^.+\.cursor\.json\.(\d+)\.tmp$/`, read from the end. -/
def orphanPid (name : String) : Option Nat :=
  match name.toList.reverse with
  | 'p' :: 'm' :: 't' :: '.' :: cs =>
    let digits := (cs.takeWhile Char.isDigit).reverse
    match cs.dropWhile Char.isDigit with
    | '.' :: 'n' :: 'o' :: 's' :: 'j' :: '.' :: 'r' :: 'o' :: 's' :: 'r' :: 'u' :: 'c' :: '.' :: front =>
      if digits ≠ [] ∧ front ≠ [] ∧ front.all (fun c => !Regex.isLineEnd c) then
        some (Nat.ofDigitChars 10 digits 0)
      else none
    | _ => none
  | _ => none

def isProcessAlive (alive : Nat → Bool) (pid : Nat) : Except CursorError Bool :=
  if pid < 2147483648 then .ok (alive pid) else .error .invalidPid

def Number.MAX_SAFE_INTEGER : Nat := 9007199254740991

def isOrphan (alive : Nat → Bool) (name : String) : Except CursorError Bool :=
  match orphanPid name with
  | none => .ok false
  | some pid =>
    if pid ≤ Number.MAX_SAFE_INTEGER ∧ 0 < pid then (isProcessAlive alive pid).map (fun b => !b)
    else .ok true

/-- Every file is looked at, also where another one fails the whole. -/
def removeOrphanedTemps (alive : Nat → Bool) (dir : Directory) :
    Except CursorError Unit × Directory :=
  (dir.rows.forM (fun f => (isOrphan alive f.name).map (fun _ => ())),
    dir.deleteWhere (fun f => (isOrphan alive f.name).toOption.getD false))

/-! ### What a file holds -/

def retentionToJson (r : RetentionState) : JsonValue :=
  .obj [("latestLedger", .num r.latestLedger), ("oldestLedger", .num r.oldestLedger)]

def cursorToJson (state : CursorState) : JsonValue :=
  .obj ([("cursor", .str state.cursor), ("ledger", .num state.ledger),
    ("updatedAt", .str state.updatedAt)] ++
    (state.retention.map (fun r => [("retention", retentionToJson r)])).getD [])

def cursorText (state : CursorState) : String :=
  Json.stringifyIndented Json.intFormat (cursorToJson state) ++ "\n"

/-- A state as `load` returns it: of a file nobody checked, `updatedAt` may be
anything. -/
structure LoadedCursor where
  cursor : String
  ledger : Int
  updatedAt : JsonValue
  retention : Option RetentionState

def CursorState.loaded (state : CursorState) : LoadedCursor :=
  ⟨state.cursor, state.ledger, .str state.updatedAt, state.retention⟩

def isLedger : Option JsonValue → Option Nat
  | some (.num n) => if 0 < n then some n.toNat else none
  | _ => none

def parseRetention : Option JsonValue → Option RetentionState
  | some (.obj fields) =>
    match isLedger (fields.lookup "latestLedger"), isLedger (fields.lookup "oldestLedger") with
    | some latestLedger, some oldestLedger =>
      if latestLedger < oldestLedger then none else some ⟨latestLedger, oldestLedger⟩
    | _, _ => none
  | _ => none

def cursorOfJson : JsonValue → Except CursorError (Option LoadedCursor)
  | .null => .error .nullParsed
  | .obj fields =>
    match fields.lookup "cursor" with
    | some (.str cursor) =>
      if cursor = "" then .ok none
      else
        .ok (some
          { cursor := cursor
            ledger := match fields.lookup "ledger" with
              | some (.num n) => n
              | _ => 0
            updatedAt := match fields.lookup "updatedAt" with
              | none | some .null => .str "1970-01-01T00:00:00.000Z"
              | some v => v
            retention := parseRetention (fields.lookup "retention") })
    | _ => .ok none
  | _ => .ok none

def readCursor (text : String) : Except CursorError (Option LoadedCursor) :=
  match Json.parse Json.intFormat text with
  | none => .error .unparsable
  | some v => cursorOfJson v

/-! ### The store -/

/-- The directory, and what became of the clean-up that every call awaits. The
states that were last saved under each key are kept beside them. -/
structure FileCursorStore where
  dir : Directory
  cleanup : Except CursorError Unit
  saved : String → Option CursorState

namespace FileCursorStore

def new (alive : Nat → Bool) (dir : Directory) (saved : String → Option CursorState) :
    FileCursorStore :=
  ⟨(removeOrphanedTemps alive dir).2, (removeOrphanedTemps alive dir).1, saved⟩

def load (s : FileCursorStore) (key : String) : Except CursorError (Option LoadedCursor) :=
  match s.cleanup with
  | .error e => .error e
  | .ok () =>
    if nameFits (cursorFileName key) then
      match s.dir.find? (cursorFileName key) with
      | none => .ok none
      | some f => readCursor f.text
    else .error .nameTooLong

def writeTemp (s : FileCursorStore) (key : String) (stamp : TempStamp) (text : String) : Directory :=
  match s.cleanup with
  | .error _ => s.dir
  | .ok () =>
    if nameFits (tempFileName key stamp) then s.dir.upsert ⟨tempFileName key stamp, text⟩ else s.dir

/-- The temp file's name is the longer one, so the rename does not fail. -/
def save (s : FileCursorStore) (key : String) (state : CursorState) (stamp : TempStamp) :
    FileCursorStore :=
  match s.cleanup with
  | .error _ => s
  | .ok () =>
    if nameFits (tempFileName key stamp) then
      { s with
        dir := ((s.writeTemp key stamp (cursorText state)).deleteWhere
          (fun f => f.name == tempFileName key stamp)).upsert ⟨cursorFileName key, cursorText state⟩
        saved := Function.update s.saved key (some state) }
    else s

def clear (s : FileCursorStore) (key : String) : FileCursorStore :=
  match s.cleanup with
  | .error _ => s
  | .ok () =>
    if nameFits (cursorFileName key) then
      { s with
        dir := s.dir.deleteWhere (fun f => f.name == cursorFileName key)
        saved := Function.update s.saved key none }
    else s

end FileCursorStore

/-- One call, or what ends a process: a restart, or a crash that leaves so much of
the temp file. -/
inductive CursorCall where
  | load (key : String)
  | save (key : String) (state : CursorState) (stamp : TempStamp)
  | clear (key : String)
  | restart (alive : Nat → Bool)
  | crash (key : String) (stamp : TempStamp) (written : String) (alive : Nat → Bool)

def FileCursorStore.perform (s : FileCursorStore) : CursorCall → FileCursorStore
  | .load _ => s
  | .save key state stamp => s.save key state stamp
  | .clear key => s.clear key
  | .restart alive => new alive s.dir s.saved
  | .crash key stamp written alive => new alive (s.writeTemp key stamp written) s.saved

def CursorCall.key : CursorCall → Option String
  | .load key | .save key _ _ | .clear key | .crash key _ _ _ => some key
  | .restart _ => none

end SorobanLens
