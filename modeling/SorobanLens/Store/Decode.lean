import SorobanLens.Store.Types

/-!
From base64 XDR to JSON-safe values. The SDK's two readers are parameters; the
walk over what they return is the program's own.
-/

set_option autoImplicit false

namespace SorobanLens

/-- The arms of an XDR value that the address walk tells apart. An address arm
carries its strkey text. -/
inductive ScVal where
  | address (text : String)
  | vec (items : List ScVal)
  | map (entries : List (ScVal × ScVal))
  | other (constructorName payload : String)

def ScVal.constructorName : ScVal → String
  | .address _ => "ScValAddress"
  | .vec _ => "ScValVec"
  | .map _ => "ScValMap"
  | .other name _ => name

inductive Native (ν : Type) where
  | null
  | undefined
  | bool (b : Bool)
  | number (n : ν)
  | bigint (n : Int)
  | str (s : String)
  | bytes (bs : List UInt8)
  | array (items : List (Native ν))
  | mapOf (entries : List (Native ν × Native ν))
  | object (fields : List (String × Native ν))

/-- `@stellar/stellar-sdk` as the decoder uses it; an error is its message. -/
structure Sdk where
  fromXDR : String → Except String ScVal
  scValToNative : ScVal → Except String (Native Int)

structure NumberText (ν : Type) where
  isFinite : ν → Bool
  text : ν → String

def intString (n : Int) : String := String.ofList (Json.printInt n)

def intText : NumberText Int := ⟨fun _ => true, intString⟩

/-- `ScValSymbol` -> `symbol`, `ScValI128` -> `i128`. -/
def scValTypeName (scv : ScVal) : String :=
  match scv.constructorName.toList with
  | 'S' :: 'c' :: 'V' :: 'a' :: 'l' :: c :: arm => String.ofList (c.toLower :: arm)
  | _ => "unknown"

def hexOfBytes (bs : List UInt8) : String :=
  String.ofList (bs.flatMap (fun b => [Json.hexDigit (b.toNat / 16), Json.hexDigit (b.toNat % 16)]))

mutual
/-- `String(k)`. -/
def keyText {ν : Type} (num : NumberText ν) : Native ν → String
  | .null => "null"
  | .undefined => "undefined"
  | .bool true => "true"
  | .bool false => "false"
  | .number n => num.text n
  | .bigint n => intString n
  | .str s => s
  | .bytes bs => ",".intercalate (bs.map (fun b => intString b.toNat))
  | .array items => ",".intercalate (keyTexts num items)
  | .mapOf _ => "[object Map]"
  | .object _ => "[object Object]"

/-- `Array.prototype.join` leaves `null` and `undefined` blank. -/
def keyTexts {ν : Type} (num : NumberText ν) : List (Native ν) → List String
  | [] => []
  | .null :: rest => "" :: keyTexts num rest
  | .undefined :: rest => "" :: keyTexts num rest
  | v :: rest => keyText num v :: keyTexts num rest
end

/-- `out[k] = v` on an object literal: `__proto__` is a setter there, so it adds
no own property. -/
def assign {ν : Type} (out : List (String × Json ν)) (k : String) (v : Json ν) :
    List (String × Json ν) :=
  if k = "__proto__" then out else Json.defineProperty out k v

mutual
def toJsonSafe {ν : Type} (num : NumberText ν) : Native ν → Json ν
  | .null | .undefined => .null
  | .bigint n => .str (intString n)
  | .str s => .str s
  | .bool b => .bool b
  | .number n => if num.isFinite n then .num n else .str (num.text n)
  | .bytes bs => .str (hexOfBytes bs)
  | .array items => .arr (toJsonItems num items)
  | .mapOf entries => .obj (toJsonEntries num entries [])
  | .object fields => .obj (toJsonFields num fields [])

def toJsonItems {ν : Type} (num : NumberText ν) : List (Native ν) → List (Json ν)
  | [] => []
  | v :: rest => toJsonSafe num v :: toJsonItems num rest

def toJsonEntries {ν : Type} (num : NumberText ν) :
    List (Native ν × Native ν) → List (String × Json ν) → List (String × Json ν)
  | [], out => out
  | (k, v) :: rest, out => toJsonEntries num rest (assign out (keyText num k) (toJsonSafe num v))

def toJsonFields {ν : Type} (num : NumberText ν) :
    List (String × Native ν) → List (String × Json ν) → List (String × Json ν)
  | [], out => out
  | (k, v) :: rest, out => toJsonFields num rest (assign out k (toJsonSafe num v))
end

def decodeScVal (sdk : Sdk) (base64 : String) : Except String DecodedValue := do
  let scv ← sdk.fromXDR base64
  let native ← sdk.scValToNative scv
  pure ⟨scValTypeName scv, toJsonSafe intText native⟩

def decodeTopics (sdk : Sdk) : Nat → List String → List DecodedValue × List String
  | _, [] => ([], [])
  | i, t :: ts =>
    let rest := decodeTopics sdk (i + 1) ts
    match decodeScVal sdk t with
    | .ok v => (v :: rest.1, rest.2)
    | .error e =>
      (⟨"undecodable", .str t⟩ :: rest.1, ("topic[" ++ toString i ++ "]: " ++ e) :: rest.2)

/-- Never fails: what does not decode keeps its XDR and sets `decodeError`. -/
def decodeEvent (sdk : Sdk) (now : String) (raw : RawEvent) : LensEvent :=
  let topics := decodeTopics sdk 0 raw.topic
  let value : DecodedValue × List String :=
    match decodeScVal sdk raw.value with
    | .ok v => (v, [])
    | .error e => (⟨"undecodable", .str raw.value⟩, ["value: " ++ e])
  let errors := topics.2 ++ value.2
  { id := raw.id
    contractId := raw.contractId
    type := raw.type
    ledger := raw.ledger
    ledgerClosedAt := raw.ledgerClosedAt
    txHash := raw.txHash
    transactionIndex := raw.transactionIndex
    operationIndex := raw.operationIndex
    inSuccessfulContractCall := raw.inSuccessfulContractCall
    topics := topics.1
    topicsXdr := raw.topic
    value := value.1
    valueXdr := raw.value
    decodeError := if errors = [] then none else some ("; ".intercalate errors)
    indexedAt := now }

@[simp] theorem decodeEvent_id (sdk : Sdk) (now : String) (raw : RawEvent) :
    (decodeEvent sdk now raw).id = raw.id := rfl

@[simp] theorem decodeEvent_type (sdk : Sdk) (now : String) (raw : RawEvent) :
    (decodeEvent sdk now raw).type = raw.type := rfl

@[simp] theorem decodeEvent_topicsXdr (sdk : Sdk) (now : String) (raw : RawEvent) :
    (decodeEvent sdk now raw).topicsXdr = raw.topic := rfl

@[simp] theorem decodeEvent_valueXdr (sdk : Sdk) (now : String) (raw : RawEvent) :
    (decodeEvent sdk now raw).valueXdr = raw.value := rfl

def topicKey : Option DecodedValue → Option String
  | none => none
  | some topic =>
    match topic.value with
    | .str s => some s
    | .num n => some (intString n)
    | .bool b => some (if b then "true" else "false")
    | _ => none

/-! ### Addresses inside a value -/

mutual
def walkForAddresses : ScVal → List String → List String
  | .address a, out => if a ∈ out then out else out ++ [a]
  | .vec items, out => walkItems items out
  | .map entries, out => walkEntries entries out
  | .other _ _, out => out

def walkItems : List ScVal → List String → List String
  | [], out => out
  | v :: rest, out => walkItems rest (walkForAddresses v out)

def walkEntries : List (ScVal × ScVal) → List String → List String
  | [], out => out
  | (k, v) :: rest, out => walkEntries rest (walkForAddresses v (walkForAddresses k out))
end

/-- Every address anywhere inside a value; malformed XDR has none. -/
def extractAddresses (sdk : Sdk) (base64 : String) : List String :=
  match sdk.fromXDR base64 with
  | .ok scv => walkForAddresses scv []
  | .error _ => []

/-- An address occurs in a value: as an element, a key or an entry's value, at
any depth. -/
inductive Mentions (a : String) : ScVal → Prop where
  | here : Mentions a (.address a)
  | item {items : List ScVal} {v : ScVal} : v ∈ items → Mentions a v → Mentions a (.vec items)
  | key {entries : List (ScVal × ScVal)} {k v : ScVal} :
      (k, v) ∈ entries → Mentions a k → Mentions a (.map entries)
  | val {entries : List (ScVal × ScVal)} {k v : ScVal} :
      (k, v) ∈ entries → Mentions a v → Mentions a (.map entries)

def MentionsXdr (sdk : Sdk) (a base64 : String) : Prop :=
  ∃ scv, sdk.fromXDR base64 = .ok scv ∧ Mentions a scv

theorem mentions_vec {a : String} {items : List ScVal} :
    Mentions a (.vec items) ↔ ∃ v ∈ items, Mentions a v := by
  constructor
  · intro h
    cases h with
    | item hv hm => exact ⟨_, hv, hm⟩
  · rintro ⟨v, hv, hm⟩
    exact .item hv hm

theorem mentions_map {a : String} {entries : List (ScVal × ScVal)} :
    Mentions a (.map entries) ↔ ∃ e ∈ entries, Mentions a e.1 ∨ Mentions a e.2 := by
  constructor
  · intro h
    cases h with
    | key he hm => exact ⟨_, he, .inl hm⟩
    | val he hm => exact ⟨_, he, .inr hm⟩
  · rintro ⟨⟨k, v⟩, he, hm | hm⟩
    · exact .key he hm
    · exact .val he hm

mutual
theorem mem_walkForAddresses (a : String) (scv : ScVal) (out : List String) :
    a ∈ walkForAddresses scv out ↔ a ∈ out ∨ Mentions a scv := by
  match scv with
  | .address b =>
    have hm : Mentions a (.address b) ↔ a = b :=
      ⟨fun h => by cases h; rfl, fun h => h ▸ .here⟩
    simp only [walkForAddresses, hm]
    split
    · rename_i hb
      exact ⟨.inl, fun h => h.elim id (fun he => he ▸ hb)⟩
    · simp
  | .vec items => rw [walkForAddresses, mem_walkItems, mentions_vec]
  | .map entries => rw [walkForAddresses, mem_walkEntries, mentions_map]
  | .other n p =>
    simp only [walkForAddresses]
    exact ⟨.inl, fun h => h.elim id (fun hm => by cases hm)⟩

theorem mem_walkItems (a : String) (items : List ScVal) (out : List String) :
    a ∈ walkItems items out ↔ a ∈ out ∨ ∃ v ∈ items, Mentions a v := by
  match items with
  | [] => simp [walkItems]
  | v :: rest =>
    rw [walkItems, mem_walkItems, mem_walkForAddresses]
    simp [or_assoc]

theorem mem_walkEntries (a : String) (entries : List (ScVal × ScVal)) (out : List String) :
    a ∈ walkEntries entries out ↔ a ∈ out ∨ ∃ e ∈ entries, Mentions a e.1 ∨ Mentions a e.2 := by
  match entries with
  | [] => simp [walkEntries]
  | (k, v) :: rest =>
    rw [walkEntries, mem_walkEntries, mem_walkForAddresses, mem_walkForAddresses]
    simp [or_assoc]
end

theorem mem_extractAddresses (sdk : Sdk) (a base64 : String) :
    a ∈ extractAddresses sdk base64 ↔ MentionsXdr sdk a base64 := by
  unfold extractAddresses MentionsXdr
  cases h : sdk.fromXDR base64 with
  | ok scv => simp [mem_walkForAddresses]
  | error e => simp

end SorobanLens
