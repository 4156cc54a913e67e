import SorobanLens.Store.Types
import SorobanLens.Lib.JsNumeral
import SorobanLens.Lib.Outcome

/-!
Query-string parameters as an `EventQuery`. What does not parse, or is out of
range, is an error that names the parameter.
-/

set_option autoImplicit false

namespace SorobanLens

structure ApiError where
  status : Nat
  code : String
  message : String
  parameter : Option String
  deriving DecidableEq, Repr

def ApiError.badRequest (message parameter : String) : ApiError :=
  ⟨400, "invalid_parameter", message, some parameter⟩

def ApiError.notFound (message : String) : ApiError := ⟨404, "not_found", message, none⟩

abbrev Params := List (String × String)

def Params.get (params : Params) (name : String) : Option String := params.lookup name

def Params.getAll (params : Params) (name : String) : List String :=
  (params.filter (fun p => p.1 = name)).map Prod.snd

/-! ### Formats -/

def isBase32 (c : Char) : Bool := ('A' ≤ c ∧ c ≤ 'Z') ∨ ('2' ≤ c ∧ c ≤ '7')

/-- A StrKey: one of these initials and 55 characters of the alphabet. -/
def isStrKey (initials : List Char) (text : String) : Bool :=
  match text.toList with
  | [] => false
  | c :: cs => initials.contains c && (cs.length == 55 && cs.all isBase32)

def isContractId (text : String) : Bool := isStrKey ['C'] text

def isAddress (text : String) : Bool := isStrKey ['G', 'C'] text

def isTxHash (text : String) : Bool :=
  text.toList.length == 64 &&
    text.toList.all (fun c => c.isDigit || ('a' ≤ c && c ≤ 'f') || ('A' ≤ c && c ≤ 'F'))

def assertContractId (value : String) : Except ApiError String :=
  if isContractId value then .ok value
  else .error (.badRequest ("\"" ++ value ++
    "\" is not a contract id. Expected a StrKey starting with C, 56 characters long.") "contractId")

/-! ### One parameter -/

def intParam (params : Params) (name : String) : Except ApiError (Option JsNumber) :=
  match params.get name with
  | none | some "" => .ok none
  | some raw =>
    if (JsNumber.ofText raw).isInteger then .ok (some (JsNumber.ofText raw))
    else .error (.badRequest ("\"" ++ name ++ "\" must be an integer, got \"" ++ raw ++ "\".") name)

def boolParam (params : Params) (name : String) : Except ApiError (Option Bool) :=
  match params.get name with
  | none | some "" => .ok none
  | some "true" | some "1" => .ok (some true)
  | some "false" | some "0" => .ok (some false)
  | some raw =>
    .error (.badRequest ("\"" ++ name ++ "\" must be true or false, got \"" ++ raw ++ "\".") name)

def trimText (text : String) : String := String.ofList (JsNumber.trimChars text.toList)

/-- `/^-?\d+$/`. -/
def isAllDigits (text : String) : Bool :=
  match text.toList with
  | '-' :: ds => ds ≠ [] && ds.all Char.isDigit
  | ds => ds ≠ [] && ds.all Char.isDigit

/-- Epoch seconds; `dateParse` is `Date.parse`, in milliseconds. -/
def timeParam (dateParse : String → Option Int) (params : Params) (name : String) :
    Except ApiError (Option JsNumber) :=
  match params.get name with
  | none => .ok none
  | some raw =>
    let value := trimText raw
    if value = "" then .ok none
    else if isAllDigits value then .ok (some (JsNumber.ofText value))
    else
      match dateParse value with
      | some ms => .ok (some (.fin (ms.fdiv 1000)))
      | none => .error (.badRequest ("\"" ++ name ++
          "\" must be an ISO-8601 timestamp or epoch seconds, got \"" ++ value ++ "\".") name)

def checkedParam (params : Params) (name : String) (ok : String → Bool) (message : String) :
    Except ApiError (Option String) :=
  match params.get name with
  | none => .ok none
  | some value => if ok value then .ok (some value) else .error (.badRequest message name)

def choiceParam {α : Type} (params : Params) (name first second : String) (a b : α) :
    Except ApiError (Option α) :=
  match params.get name with
  | none => .ok none
  | some value =>
    if value = first then .ok (some a)
    else if value = second then .ok (some b)
    else .error (.badRequest ("\"" ++ name ++ "\" must be \"" ++ first ++ "\" or \"" ++ second ++
      "\", got \"" ++ value ++ "\".") name)

def limitParam (max : MaxQueryLimit) (params : Params) : Except ApiError (Option JsNumber) := do
  match ← intParam params "limit" with
  | none => pure none
  | some limit =>
    if JsNumber.lt limit (.ofNat 1) || JsNumber.lt (.ofNat max.val) limit then
      .error (.badRequest ("\"limit\" must be between 1 and " ++ toString max.val ++ ", got " ++
        JsNumber.integerText limit ++ ".") "limit")
    else pure (some limit)

def assertOrdered (lower upper : Option JsNumber) (message : JsNumber → JsNumber → String)
    (parameter : String) : Except ApiError Unit :=
  match lower, upper with
  | some a, some b =>
    if JsNumber.lt b a then .error (.badRequest (message a b) parameter) else .ok ()
  | _, _ => .ok ()

def indexParam (params : Params) (name : String) : Except ApiError (Option JsNumber) := do
  match ← intParam params name with
  | none => pure none
  | some index =>
    if JsNumber.lt index (.ofNat 0) then
      .error (.badRequest ("\"" ++ name ++ "\" must not be negative, got " ++
        JsNumber.integerText index ++ ".") name)
    else pure (some index)

def parseTopics (params : Params) : Except ApiError (Option (List (Option String))) :=
  let topics := params.getAll "topic"
  if topics = [] then .ok none
  else if 4 < topics.length then
    .error (.badRequest ("At most 4 \"topic\" parameters are supported, because only the first four " ++
      "topic positions are indexed. Events may carry more topics than that; " ++
      "filter on the prefix and narrow client-side.") "topic")
  else .ok (some (topics.map (fun t => if t = "*" ∨ t = "" then none else some t)))

/-! ### The query -/

def parseEventQuery (dateParse : String → Option Int) (max : MaxQueryLimit) (params : Params) :
    Except ApiError EventQuery := do
  let limit ← limitParam max params
  let order ← choiceParam params "order" "asc" "desc" Order.asc Order.desc
  let direction ← choiceParam params "direction" "forward" "backward" Direction.forward
    Direction.backward
  let fromLedger ← intParam params "fromLedger"
  let toLedger ← intParam params "toLedger"
  assertOrdered fromLedger toLedger (fun a b => "\"fromLedger\" (" ++ JsNumber.integerText a ++
    ") must not be greater than \"toLedger\" (" ++ JsNumber.integerText b ++ ").") "fromLedger"
  let fromTime ← timeParam dateParse params "fromTime"
  let toTime ← timeParam dateParse params "toTime"
  assertOrdered fromTime toTime (fun _ _ => "\"fromTime\" must not be after \"toTime\".") "fromTime"
  let txHash ← checkedParam params "txHash" isTxHash "\"txHash\" must be a 64-character hex string."
  let address ← checkedParam params "address" isAddress
    "\"address\" must be a StrKey: 'G' or 'C' followed by 55 characters (A-Z, 2-7)."
  let transactionIndex ← indexParam params "transactionIndex"
  let operationIndex ← indexParam params "operationIndex"
  let successfulOnly ← boolParam params "successfulOnly"
  let topics ← parseTopics params
  pure
    { limit := limit
      order := order
      direction := direction
      fromLedger := fromLedger
      toLedger := toLedger
      fromTime := fromTime
      toTime := toTime
      txHash := txHash
      address := address
      search := (params.get "search").filter (fun s => s != "")
      transactionIndex := transactionIndex
      operationIndex := operationIndex
      cursor := (params.get "cursor").filter (fun c => c != "")
      successfulOnly := successfulOnly
      topics := topics }

/-! ### Lists in one parameter -/

def MAX_BATCH_IDS : Nat := 100

/-- `raw.split(',')`, trimmed, without the empty pieces. -/
def commaList (raw : String) : List String :=
  ((raw.toList.splitOn ',').map (fun piece => trimText (String.ofList piece))).filter (· != "")

def parseIds (params : Params) : Except ApiError (Option (List String)) :=
  match params.get "ids" with
  | none => .ok none
  | some raw =>
    let ids := commaList raw
    if ids = [] then
      .error (.badRequest "\"ids\" was empty. Omit it to query without a batch." "ids")
    else if MAX_BATCH_IDS < ids.length then
      .error (.badRequest ("At most " ++ toString MAX_BATCH_IDS ++ " \"ids\" per request, got " ++
        toString ids.length ++ ".") "ids")
    else if ids.dedup.length ≠ ids.length then
      .error (.badRequest "\"ids\" contained duplicates." "ids")
    else .ok (some ids)

def EVENT_FIELDS : List String :=
  ["id", "contractId", "type", "ledger", "ledgerClosedAt", "txHash", "transactionIndex",
    "operationIndex", "inSuccessfulContractCall", "topics", "topicsXdr", "value", "valueXdr",
    "decodeError", "indexedAt", "typed"]

def parseFields (params : Params) : Except ApiError (Option (List String)) :=
  match params.get "fields" with
  | none => .ok none
  | some raw =>
    let fields := commaList raw
    if fields = [] then
      .error (.badRequest "\"fields\" was empty. Omit it to return every field." "fields")
    else
      let unknown := fields.filter (· ∉ EVENT_FIELDS)
      if unknown ≠ [] then
        .error (.badRequest ("Unknown \"fields\": " ++ ", ".intercalate unknown ++
          ". Valid fields: " ++ ", ".intercalate EVENT_FIELDS ++ ".") "fields")
      else .ok (some fields)

/-! ### What an accepted query holds -/

theorem intParam_ok {params : Params} {name : String} {x : JsNumber}
    (h : intParam params name = .ok (some x)) :
    ∃ raw, params.get name = some raw ∧ raw ≠ "" ∧ x = JsNumber.ofText raw ∧ x.isInteger = true := by
  unfold intParam at h
  split at h
  · cases h
  · cases h
  · rename_i raw hne hraw
    split at h
    · rename_i hint
      cases h
      exact ⟨raw, hraw, hne, rfl, hint⟩
    · cases h

theorem limitParam_ok {max : MaxQueryLimit} {params : Params} {x : JsNumber}
    (h : limitParam max params = .ok (some x)) :
    ∃ n, x = .ofNat n ∧ 1 ≤ n ∧ n ≤ max.val := by
  obtain ⟨limit, hl, h⟩ := bind_eq_ok.mp h
  cases limit with
  | none => cases h
  | some limit =>
    obtain ⟨raw, -, -, -, hint⟩ := intParam_ok hl
    simp only at h
    split at h
    · cases h
    · rename_i hrange
      cases h
      rw [Bool.or_eq_true, not_or] at hrange
      cases x with
      | fin q =>
        have hlo : ¬ q < 1 := by simpa [JsNumber.ofNat] using hrange.1
        have hhi : ¬ (max.val : ℚ) < q := by simpa [JsNumber.ofNat] using hrange.2
        have hden : q.den = 1 := by simpa [JsNumber.isInteger] using hint
        have hq : (q.num : ℚ) = q := (Rat.den_eq_one_iff q).mp hden
        have hlo' : (1 : ℤ) ≤ q.num := by
          rw [← hq] at hlo
          exact_mod_cast not_lt.mp hlo
        have hhi' : q.num ≤ (max.val : ℤ) := by
          rw [← hq] at hhi
          exact_mod_cast not_lt.mp hhi
        have hnat : ((q.num.toNat : Nat) : ℤ) = q.num := Int.toNat_of_nonneg (by omega)
        refine ⟨q.num.toNat, ?_, by omega, by omega⟩
        have hcast : ((q.num.toNat : Nat) : ℚ) = q := by
          rw [← hq]
          exact_mod_cast congrArg (Int.cast : ℤ → ℚ) hnat
        simp [JsNumber.ofNat, hcast]
      | nan => cases hint
      | posInf => cases hint
      | negInf => cases hint

theorem parseEventQuery_ok {dateParse : String → Option Int} {max : MaxQueryLimit} {params : Params}
    {q : EventQuery} (h : parseEventQuery dateParse max params = .ok q) :
    limitParam max params = .ok q.limit ∧ q.cursor ≠ some "" := by
  obtain ⟨limit, hl, h⟩ := bind_eq_ok.mp h
  iterate 14
    obtain ⟨_, -, h⟩ := bind_eq_ok.mp h
  cases h
  refine ⟨hl, ?_⟩
  simp

end SorobanLens
