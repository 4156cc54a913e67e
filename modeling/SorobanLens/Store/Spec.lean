import SorobanLens.Store.Operations
import SorobanLens.Lib.JsonPath

/-!
Spec-aware decoding. The SDK finds the declaration an event matches and returns
its name and values, not which declaration it was; the decoder looks for one
with that name that declares every returned key. When that one describes the
returned fields as the matched one does is the result of this module.
-/

set_option autoImplicit false

namespace SorobanLens

open Json (OBJECT_PROTOTYPE)

/-! ### Specs -/

inductive SpecTypeDef where
  | val
  | bool
  | void
  | error
  | u32
  | i32
  | u64
  | i64
  | timepoint
  | duration
  | u128
  | i128
  | u256
  | i256
  | bytes
  | string
  | symbol
  | address
  | muxedAddress
  | option (valueType : SpecTypeDef)
  | result (okType errorType : SpecTypeDef)
  | vec (elementType : SpecTypeDef)
  | map (keyType valueType : SpecTypeDef)
  | tuple (valueTypes : List SpecTypeDef)
  | bytesN (n : Nat)
  | udt (name : String)

mutual
def typeName : SpecTypeDef → String
  | .option valueType => "Option<" ++ typeName valueType ++ ">"
  | .result okType errorType => "Result<" ++ typeName okType ++ ", " ++ typeName errorType ++ ">"
  | .vec elementType => "Vec<" ++ typeName elementType ++ ">"
  | .map keyType valueType => "Map<" ++ typeName keyType ++ ", " ++ typeName valueType ++ ">"
  | .tuple valueTypes => "(" ++ ", ".intercalate (typeNames valueTypes) ++ ")"
  | .bytesN n => "BytesN<" ++ toString n ++ ">"
  | .udt name => name
  | .address => "Address"
  | .muxedAddress => "MuxedAddress"
  | .string => "String"
  | .symbol => "Symbol"
  | .bytes => "Bytes"
  | .timepoint => "Timepoint"
  | .duration => "Duration"
  | .error => "Error"
  | .val => "Val"
  | .void => "()"
  | .bool => "bool"
  | .u32 => "u32"
  | .i32 => "i32"
  | .u64 => "u64"
  | .i64 => "i64"
  | .u128 => "u128"
  | .i128 => "i128"
  | .u256 => "u256"
  | .i256 => "i256"

def typeNames : List SpecTypeDef → List String
  | [] => []
  | t :: ts => typeName t :: typeNames ts
end

inductive ParamLocation where
  | topic
  | data
  deriving DecidableEq, Repr

structure EventParam where
  name : String
  type : SpecTypeDef
  location : ParamLocation

inductive DataFormat where
  | single
  | vec
  | map
  deriving DecidableEq, Repr

structure SpecEvent where
  name : String
  prefixTopics : List String
  params : List EventParam
  dataFormat : DataFormat

/-! ### The built-in spec -/

def assetEvent (name : String) (params : List EventParam) (format : DataFormat) : SpecEvent :=
  ⟨name, [name], params, format⟩

/-- The legacy four-topic shapes stand before the current three-topic ones. -/
def STELLAR_ASSET_SPEC_ENTRIES : List SpecEvent :=
  let address (name : String) : EventParam := ⟨name, .address, .topic⟩
  let asset : EventParam := ⟨"sep0011_asset", .string, .topic⟩
  let amount : EventParam := ⟨"amount", .i128, .data⟩
  let muxedId : EventParam := ⟨"to_muxed_id", .option .u64, .data⟩
  [assetEvent "transfer" [address "from", address "to", asset, amount] .single,
    assetEvent "transfer" [address "from", address "to", asset, amount, muxedId] .map,
    assetEvent "approve" [address "from", address "spender", asset, amount,
      ⟨"expiration_ledger", .u32, .data⟩] .vec,
    assetEvent "mint" [address "admin", address "to", asset, amount] .single,
    assetEvent "mint" [address "to", asset, amount] .single,
    assetEvent "mint" [address "to", asset, amount, muxedId] .map,
    assetEvent "clawback" [address "admin", address "from", asset, amount] .single,
    assetEvent "clawback" [address "from", asset, amount] .single,
    assetEvent "burn" [address "from", asset, amount] .single,
    assetEvent "set_admin" [address "admin", asset, ⟨"new_admin", .address, .data⟩] .single,
    assetEvent "set_admin" [asset, ⟨"new_admin", .address, .data⟩] .single,
    assetEvent "set_authorized" [address "admin", address "id", asset, ⟨"authorize", .bool, .data⟩]
      .single,
    assetEvent "set_authorized" [address "id", asset, ⟨"authorize", .bool, .data⟩] .single,
    assetEvent "fee" [address "from", amount] .single]

/-! ### The decoder -/

structure ParsedEvent where
  name : String
  data : List (String × Native Int)

def ParsedEvent.keys (parsed : ParsedEvent) : List String := parsed.data.map Prod.fst

/-- `contract.Spec` of the SDK over its spec entries; an error is its message. -/
structure SpecSdk (ε : Type) where
  fromXDR : String → Except String ε
  eventV0 : SpecEvent → ε
  events : List ε → List SpecEvent
  parseEvent : List ε → List String → String → Except String (Option ParsedEvent)

structure TypedField where
  name : String
  type : String
  location : ParamLocation
  value : JsonValue

structure TypedEvent where
  name : String
  source : SpecSource
  fields : List TypedField

structure ContractTypedDecoder (ε : Type) where
  source : SpecSource
  entries : List ε

variable {ε : Type}

/-- No decoder where the record has no usable spec; an error where an entry is no XDR. -/
def ContractTypedDecoder.fromRecord (sdk : SpecSdk ε) (record : ContractSpecRecord) :
    Except String (Option (ContractTypedDecoder ε)) :=
  match record.source with
  | .stellarAsset => .ok (some ⟨.stellarAsset, STELLAR_ASSET_SPEC_ENTRIES.map sdk.eventV0⟩)
  | .none => .ok none
  | .wasm =>
    if record.entriesXdr = [] then .ok none
    else (record.entriesXdr.mapM sdk.fromXDR).map (fun entries => some ⟨.wasm, entries⟩)

/-- `name in data`: a plain object also has what `Object.prototype` has. -/
def inData (data : List (String × Native Int)) (name : String) : Bool :=
  (data.lookup name).isSome || OBJECT_PROTOTYPE.contains name

/-- `toJsonSafe(data[name])`: an inherited function is null, `Object.prototype` has no entries. -/
def dataValue (data : List (String × Native Int)) (name : String) : JsonValue :=
  match data.lookup name with
  | some v => toJsonSafe intText v
  | none => if name = "__proto__" then .obj [] else .null

/-- The declarations a returned event could have come from. -/
def SpecEvent.declares (name : String) (keys : List String) (e : SpecEvent) : Bool :=
  e.name = name && keys.all (fun k => e.params.any (fun p => p.name = k))

def typedField (data : List (String × Native Int)) (param : EventParam) : TypedField :=
  ⟨param.name, typeName param.type, param.location, dataValue data param.name⟩

def ContractTypedDecoder.decode (sdk : SpecSdk ε) (decoder : ContractTypedDecoder ε)
    (topicsXdr : List String) (valueXdr : String) : Option TypedEvent :=
  if sdk.events decoder.entries = [] then none
  else
    match sdk.parseEvent decoder.entries topicsXdr valueXdr with
    | .error _ => none
    | .ok none => none
    | .ok (some parsed) =>
      let declared := (sdk.events decoder.entries).find? (SpecEvent.declares parsed.name parsed.keys)
      let params := (declared.map SpecEvent.params).getD []
      some ⟨parsed.name, decoder.source,
        (params.filter (fun param => inData parsed.data param.name)).map (typedField parsed.data)⟩

/-! ### Which declaration the fields describe -/

/-- What the decoder relies on: `parseEvent` returns the name of the first declaration
that matches, and values for parameters of it. -/
structure SpecSdk.ParsesFirst (sdk : SpecSdk ε)
    (matched : List ε → List String → String → SpecEvent → Bool) : Prop where
  first : ∀ entries topicsXdr valueXdr parsed,
    sdk.parseEvent entries topicsXdr valueXdr = .ok (some parsed) →
      ∃ d, (sdk.events entries).find? (matched entries topicsXdr valueXdr) = some d ∧
        parsed.name = d.name ∧ ∀ key ∈ parsed.keys, ∃ p ∈ d.params, p.name = key

def Describes (d : SpecEvent) (parsed : ParsedEvent) (typed : Option TypedEvent) : Prop :=
  ∃ view, typed = some view ∧ view.fields =
    (d.params.filter (fun p => parsed.keys.contains p.name)).map (typedField parsed.data)

def SpecEvent.labels (keys : List String) (e : SpecEvent) : List (String × String × ParamLocation) :=
  (e.params.filter (fun p => keys.contains p.name)).map (fun p => (p.name, typeName p.type, p.location))

/-- The first declaration of `d`'s name that declares every returned key labels them as `d`
does, and no other parameter of it is named like a member of `Object.prototype`. -/
def LabelledAlike (events : List SpecEvent) (d : SpecEvent) (keys : List String) : Prop :=
  ∀ e, events.find? (SpecEvent.declares d.name keys) = some e →
    e.labels keys = d.labels keys ∧ ∀ p ∈ e.params, p.name ∈ OBJECT_PROTOTYPE → p.name ∈ keys

theorem inData_eq (data : List (String × Native Int)) (name : String) :
    inData data name = ((data.map Prod.fst).contains name || OBJECT_PROTOTYPE.contains name) := by
  have hown : (data.lookup name).isSome = (data.map Prod.fst).contains name := by
    rw [Bool.eq_iff_iff, Json.lookup_isSome_iff_mem, List.contains_iff_mem]
  rw [inData, hown]

def fieldOf (data : List (String × Native Int)) (label : String × String × ParamLocation) :
    TypedField :=
  ⟨label.1, label.2.1, label.2.2, dataValue data label.1⟩

def TypedField.label (field : TypedField) : String × String × ParamLocation :=
  (field.name, field.type, field.location)

theorem map_typedField (data : List (String × Native Int)) (keys : List String) (e : SpecEvent) :
    (e.params.filter (fun p => keys.contains p.name)).map (typedField data) =
      (e.labels keys).map (fieldOf data) := by
  rw [SpecEvent.labels, List.map_map]
  rfl

theorem map_label (data : List (String × Native Int)) (params : List EventParam) :
    (params.map (typedField data)).map TypedField.label =
      params.map (fun p => (p.name, typeName p.type, p.location)) := by
  rw [List.map_map]
  rfl

theorem filter_inData {parsed : ParsedEvent} {e : SpecEvent}
    (h : ∀ p ∈ e.params, p.name ∈ OBJECT_PROTOTYPE → p.name ∈ parsed.keys) :
    e.params.filter (fun p => inData parsed.data p.name) =
      e.params.filter (fun p => parsed.keys.contains p.name) := by
  refine List.filter_congr ?_
  intro p hp
  rw [inData_eq, Bool.eq_iff_iff]
  simp only [Bool.or_eq_true, List.contains_iff_mem]
  exact ⟨fun hin => hin.elim id (h p hp), .inl⟩

/-- A declaration yields the fields of `d` just when it labels the keys alike and
inherits no other. -/
theorem fields_eq_iff (parsed : ParsedEvent) (e d : SpecEvent) :
    (e.params.filter (fun p => inData parsed.data p.name)).map (typedField parsed.data) =
        (d.params.filter (fun p => parsed.keys.contains p.name)).map (typedField parsed.data) ↔
      e.labels parsed.keys = d.labels parsed.keys ∧
        ∀ p ∈ e.params, p.name ∈ OBJECT_PROTOTYPE → p.name ∈ parsed.keys := by
  constructor
  · intro h
    have hown : ∀ p ∈ e.params, p.name ∈ OBJECT_PROTOTYPE → p.name ∈ parsed.keys := by
      intro p hp hname
      have hmem : typedField parsed.data p ∈
          (e.params.filter (fun p => inData parsed.data p.name)).map (typedField parsed.data) := by
        refine List.mem_map_of_mem (List.mem_filter.mpr ⟨hp, ?_⟩)
        simp [inData_eq, hname]
      rw [h] at hmem
      obtain ⟨q, hq, heq⟩ := List.mem_map.mp hmem
      have hnames : q.name = p.name := congrArg TypedField.name heq
      rw [← hnames]
      simpa using (List.mem_filter.mp hq).2
    rw [filter_inData hown] at h
    have hlabels := congrArg (List.map TypedField.label) h
    rw [map_label, map_label] at hlabels
    exact ⟨hlabels, hown⟩
  · intro ⟨hlabels, hown⟩
    rw [filter_inData hown, map_typedField, map_typedField, hlabels]

theorem decode_eq (sdk : SpecSdk ε) (decoder : ContractTypedDecoder ε) {topicsXdr : List String}
    {valueXdr : String} {parsed : ParsedEvent}
    (hparsed : sdk.parseEvent decoder.entries topicsXdr valueXdr = .ok (some parsed))
    {e : SpecEvent}
    (he : (sdk.events decoder.entries).find? (SpecEvent.declares parsed.name parsed.keys) = some e) :
    decoder.decode sdk topicsXdr valueXdr = some ⟨parsed.name, decoder.source,
      (e.params.filter (fun p => inData parsed.data p.name)).map (typedField parsed.data)⟩ := by
  have hne : sdk.events decoder.entries ≠ [] :=
    List.ne_nil_of_mem (List.mem_of_find?_eq_some he)
  simp [ContractTypedDecoder.decode, hne, hparsed, he]

theorem exists_declares {events : List SpecEvent} {d : SpecEvent} (hd : d ∈ events) {keys : List String}
    (hkeys : ∀ key ∈ keys, ∃ p ∈ d.params, p.name = key) :
    ∃ e, events.find? (SpecEvent.declares d.name keys) = some e := by
  refine Option.isSome_iff_exists.mp (List.find?_isSome.mpr ⟨d, hd, ?_⟩)
  simpa [SpecEvent.declares] using hkeys

/-- The view is built from the first declaration that could have matched. -/
theorem describes_iff_first {sdk : SpecSdk ε} (decoder : ContractTypedDecoder ε)
    {topicsXdr : List String} {valueXdr : String} {parsed : ParsedEvent}
    (hparsed : sdk.parseEvent decoder.entries topicsXdr valueXdr = .ok (some parsed)) {e : SpecEvent}
    (he : (sdk.events decoder.entries).find? (SpecEvent.declares parsed.name parsed.keys) = some e)
    (d : SpecEvent) :
    Describes d parsed (decoder.decode sdk topicsXdr valueXdr) ↔
      e.labels parsed.keys = d.labels parsed.keys ∧
        ∀ p ∈ e.params, p.name ∈ OBJECT_PROTOTYPE → p.name ∈ parsed.keys := by
  rw [decode_eq sdk decoder hparsed he, ← fields_eq_iff]
  constructor
  · intro ⟨view, hview, hfields⟩
    obtain rfl := Option.some.inj hview
    exact hfields
  · intro h
    exact ⟨_, rfl, h⟩

/-- The typed view describes the declaration that matched just when the first one of its
name that declares every returned key labels them alike. -/
theorem decode_describes {sdk : SpecSdk ε} {matched : List ε → List String → String → SpecEvent → Bool}
    (hsdk : sdk.ParsesFirst matched) (decoder : ContractTypedDecoder ε) (topicsXdr : List String)
    (valueXdr : String) {parsed : ParsedEvent} {d : SpecEvent}
    (hparsed : sdk.parseEvent decoder.entries topicsXdr valueXdr = .ok (some parsed))
    (hmatched : (sdk.events decoder.entries).find? (matched decoder.entries topicsXdr valueXdr) = some d) :
    Describes d parsed (decoder.decode sdk topicsXdr valueXdr) ↔
      LabelledAlike (sdk.events decoder.entries) d parsed.keys := by
  obtain ⟨d', hd', hname, hkeys⟩ := hsdk.first _ _ _ _ hparsed
  obtain rfl := Option.some.inj (hmatched.symm.trans hd')
  obtain ⟨e, he⟩ := exists_declares (List.mem_of_find?_eq_some hmatched) hkeys
  rw [describes_iff_first decoder hparsed (hname ▸ he)]
  constructor
  · intro h e' he'
    obtain rfl := Option.some.inj (he.symm.trans he')
    exact h
  · intro h
    exact h e he

/-! ### An event of a spec with two declarations of one name -/

/-- A reader for three XDR texts: the symbol `transfer`, an address and the `i64` 5. -/
def pocketXdr : String → Option (SpecTypeDef × Native Int)
  | "AAAADwAAAAh0cmFuc2Zlcg==" => some (.symbol, .str "transfer")
  | "AAAAEgAAAAEAAAAAAAAAAAAAAAAAAAAAAAAAAAAAAAAAAAAAAAAAAA==" =>
    some (.address, .str "CAAAAAAAAAAAAAAAAAAAAAAAAAAAAAAAAAAAAAAAAAAAAAAAAAAABSC4")
  | "AAAABgAAAAAAAAAF" => some (.i64, .bigint 5)
  | _ => none

def pocketSymbol (xdr : String) : Option String :=
  match pocketXdr xdr with
  | some (.symbol, .str text) => some text
  | _ => none

def pocketNumeric : SpecTypeDef → Bool
  | .u32 | .i32 | .u64 | .i64 | .u128 | .i128 | .u256 | .i256 => true
  | _ => false

/-- Any integer is a value of any integer type. -/
def pocketAccepts (param : EventParam) (xdr : String) : Bool :=
  (pocketXdr xdr).any (fun value =>
    (pocketNumeric param.type && pocketNumeric value.1) ||
      typeName param.type = typeName value.1)

def SpecEvent.paramsIn (e : SpecEvent) (location : ParamLocation) : List EventParam :=
  e.params.filter (fun p => p.location = location)

def pocketArguments (topicsXdr : List String) (valueXdr : String) (e : SpecEvent) :
    List (EventParam × String) :=
  (e.paramsIn .topic).zip (topicsXdr.drop e.prefixTopics.length) ++
    (e.paramsIn .data).zip [valueXdr]

def pocketMatch (topicsXdr : List String) (valueXdr : String) (e : SpecEvent) : Bool :=
  (topicsXdr.take e.prefixTopics.length).map pocketSymbol = e.prefixTopics.map some &&
    e.prefixTopics.length + (e.paramsIn .topic).length ≤ topicsXdr.length &&
    e.dataFormat = .single && (e.paramsIn .data).length = 1 &&
    (pocketArguments topicsXdr valueXdr e).all (fun argument =>
      pocketAccepts argument.1 argument.2)

def pocketSdk : SpecSdk SpecEvent where
  fromXDR := fun _ => .error "not XDR"
  eventV0 := id
  events := id
  parseEvent := fun entries topicsXdr valueXdr =>
    .ok ((entries.find? (pocketMatch topicsXdr valueXdr)).map (fun e =>
      ⟨e.name, (pocketArguments topicsXdr valueXdr e).filterMap (fun argument =>
        (pocketXdr argument.2).map (fun value => (argument.1.name, value.2)))⟩))

theorem mem_params_of_argument {topicsXdr : List String} {valueXdr : String} {e : SpecEvent}
    {argument : EventParam × String} (h : argument ∈ pocketArguments topicsXdr valueXdr e) :
    argument.1 ∈ e.params := by
  rcases List.mem_append.mp h with htopic | hdata
  · exact List.mem_of_mem_filter (List.of_mem_zip htopic).1
  · exact List.mem_of_mem_filter (List.of_mem_zip hdata).1

theorem pocketSdk_parsesFirst :
    pocketSdk.ParsesFirst (fun _ topicsXdr valueXdr => pocketMatch topicsXdr valueXdr) where
  first := by
    intro entries topicsXdr valueXdr parsed h
    simp only [pocketSdk, Except.ok.injEq, Option.map_eq_some_iff] at h
    obtain ⟨e, he, rfl⟩ := h
    refine ⟨e, he, rfl, ?_⟩
    intro key hkey
    obtain ⟨f, hf, rfl⟩ := List.mem_map.mp hkey
    obtain ⟨argument, hargument, hread⟩ := List.mem_filterMap.mp hf
    obtain ⟨value, -, rfl⟩ := Option.map_eq_some_iff.mp hread
    exact ⟨argument.1, mem_params_of_argument hargument, rfl⟩

def transferFrom : SpecEvent :=
  ⟨"transfer", ["transfer"], [⟨"from", .address, .topic⟩, ⟨"amount", .i128, .data⟩], .single⟩

def transferWhole : SpecEvent :=
  ⟨"transfer", ["transfer"], [⟨"amount", .address, .data⟩], .single⟩

def wholeTransferred : ParsedEvent :=
  ⟨"transfer", [("amount", .str "CAAAAAAAAAAAAAAAAAAAAAAAAAAAAAAAAAAAAAAAAAAAAAAAAAAABSC4")]⟩

theorem decode_describes_first :
    Describes transferWhole wholeTransferred
      ((⟨.wasm, [transferWhole, transferFrom]⟩ : ContractTypedDecoder SpecEvent).decode pocketSdk
        ["AAAADwAAAAh0cmFuc2Zlcg=="]
        "AAAAEgAAAAEAAAAAAAAAAAAAAAAAAAAAAAAAAAAAAAAAAAAAAAAAAA==") := by
  refine (decode_describes pocketSdk_parsesFirst ⟨.wasm, [transferWhole, transferFrom]⟩
    ["AAAADwAAAAh0cmFuc2Zlcg=="] "AAAAEgAAAAEAAAAAAAAAAAAAAAAAAAAAAAAAAAAAAAAAAAAAAAAAAA=="
    rfl rfl).mpr ?_
  intro e he
  have hfirst : [transferWhole, transferFrom].find?
      (SpecEvent.declares "transfer" ["amount"]) = some transferWhole := rfl
  obtain rfl := Option.some.inj (hfirst.symm.trans he)
  exact ⟨rfl, by decide⟩

/-- The matched declaration has an `Address`, the view says `i128`. -/
theorem first_declaration_shown :
    pocketSdk.parseEvent [transferFrom, transferWhole] ["AAAADwAAAAh0cmFuc2Zlcg=="]
        "AAAAEgAAAAEAAAAAAAAAAAAAAAAAAAAAAAAAAAAAAAAAAAAAAAAAAA==" =
          .ok (some wholeTransferred) ∧
      [transferFrom, transferWhole].find? (pocketMatch ["AAAADwAAAAh0cmFuc2Zlcg=="]
        "AAAAEgAAAAEAAAAAAAAAAAAAAAAAAAAAAAAAAAAAAAAAAAAAAAAAAA==") = some transferWhole ∧
      ¬ Describes transferWhole wholeTransferred
        ((⟨.wasm, [transferFrom, transferWhole]⟩ : ContractTypedDecoder SpecEvent).decode pocketSdk
          ["AAAADwAAAAh0cmFuc2Zlcg=="]
          "AAAAEgAAAAEAAAAAAAAAAAAAAAAAAAAAAAAAAAAAAAAAAAAAAAAAAA==") := by
  refine ⟨rfl, rfl, ?_⟩
  intro h
  have hfirst : [transferFrom, transferWhole].find?
      (SpecEvent.declares "transfer" ["amount"]) = some transferFrom := rfl
  have hlabels := ((describes_iff_first ⟨.wasm, [transferFrom, transferWhole]⟩ rfl hfirst
    transferWhole).mp h).1
  exact absurd hlabels (by decide)

/-! ### The built-in spec -/

theorem labels_of_shared {e d : SpecEvent} {keys : List String}
    (h : e.labels (d.params.map EventParam.name) = d.labels (e.params.map EventParam.name))
    (he : ∀ key ∈ keys, key ∈ e.params.map EventParam.name)
    (hd : ∀ key ∈ keys, key ∈ d.params.map EventParam.name) : e.labels keys = d.labels keys := by
  have hnarrow : ∀ (a : SpecEvent) (more : List String), (∀ key ∈ keys, key ∈ more) →
      (a.labels more).filter (fun label => keys.contains label.1) = a.labels keys := by
    intro a more hmore
    rw [SpecEvent.labels, SpecEvent.labels, List.filter_map, List.filter_filter]
    refine congrArg (List.map _) (List.filter_congr ?_)
    intro p _
    simpa using hmore p.name
  rw [← hnarrow e _ hd, ← hnarrow d _ he, h]

theorem shared_labels_alike : ∀ d ∈ STELLAR_ASSET_SPEC_ENTRIES, ∀ e ∈ STELLAR_ASSET_SPEC_ENTRIES,
    e.name = d.name →
      e.labels (d.params.map EventParam.name) = d.labels (e.params.map EventParam.name) ∧
        ∀ p ∈ e.params, p.name ∉ OBJECT_PROTOTYPE := by
  decide

theorem asset_labelledAlike {d : SpecEvent} (hd : d ∈ STELLAR_ASSET_SPEC_ENTRIES) {keys : List String}
    (hkeys : ∀ key ∈ keys, ∃ p ∈ d.params, p.name = key) :
    LabelledAlike STELLAR_ASSET_SPEC_ENTRIES d keys := by
  intro e he
  have hdeclares := List.find?_some he
  simp only [SpecEvent.declares, Bool.and_eq_true, decide_eq_true_eq, List.all_eq_true,
    List.any_eq_true] at hdeclares
  obtain ⟨hname, hall⟩ := hdeclares
  obtain ⟨hlabels, hplain⟩ := shared_labels_alike d hd e (List.mem_of_find?_eq_some he) hname
  refine ⟨labels_of_shared hlabels ?_ ?_, fun p hp hmember => absurd hmember (hplain p hp)⟩
  · intro key hkey
    obtain ⟨p, hp, rfl⟩ := hall key hkey
    exact List.mem_map_of_mem hp
  · intro key hkey
    obtain ⟨p, hp, rfl⟩ := hkeys key hkey
    exact List.mem_map_of_mem hp

/-- No event of a Stellar Asset Contract is mislabelled. -/
theorem asset_describes {sdk : SpecSdk ε} {matched : List ε → List String → String → SpecEvent → Bool}
    (hsdk : sdk.ParsesFirst matched)
    (hevents : sdk.events (STELLAR_ASSET_SPEC_ENTRIES.map sdk.eventV0) = STELLAR_ASSET_SPEC_ENTRIES)
    {record : ContractSpecRecord} (hsource : record.source = .stellarAsset)
    {decoder : ContractTypedDecoder ε}
    (hdecoder : ContractTypedDecoder.fromRecord sdk record = .ok (some decoder))
    {topicsXdr : List String} {valueXdr : String} {parsed : ParsedEvent} {d : SpecEvent}
    (hparsed : sdk.parseEvent decoder.entries topicsXdr valueXdr = .ok (some parsed))
    (hmatched : (sdk.events decoder.entries).find? (matched decoder.entries topicsXdr valueXdr) = some d) :
    Describes d parsed (decoder.decode sdk topicsXdr valueXdr) := by
  obtain ⟨d', hd', hname, hkeys⟩ := hsdk.first _ _ _ _ hparsed
  obtain rfl := Option.some.inj (hmatched.symm.trans hd')
  have hdeclared : sdk.events decoder.entries = STELLAR_ASSET_SPEC_ENTRIES := by
    rw [ContractTypedDecoder.fromRecord, hsource] at hdecoder
    obtain rfl : (⟨.stellarAsset, STELLAR_ASSET_SPEC_ENTRIES.map sdk.eventV0⟩ :
      ContractTypedDecoder ε) = decoder := by simpa using hdecoder
    exact hevents
  have hmem : d ∈ STELLAR_ASSET_SPEC_ENTRIES := hdeclared ▸ List.mem_of_find?_eq_some hmatched
  obtain ⟨e, he⟩ := exists_declares hmem hkeys
  rw [describes_iff_first decoder hparsed (hdeclared ▸ hname ▸ he)]
  exact asset_labelledAlike hmem hkeys e he

end SorobanLens
