import SorobanLens.Store.Spec
import SorobanLens.Lib.Regex
import Mathlib.Data.Finset.Basic

/-!
Looking contract specs up while the indexer runs: one lookup, the queue of them
as a chain of promises, and what the queue keeps to over every interleaving of
calls, answers and time.
-/

set_option autoImplicit false

namespace SorobanLens

/-! ### One lookup -/

structure SpecRpcError where
  code : Option Int
  message : String

def SpecRpcError.isNotFound (e : SpecRpcError) : Bool :=
  e.code = some 404 || (Regex.alt (.literal "not found") (.literal "could not obtain")).test e.message

structure SpecReader (ε : Type) where
  sdk : SpecSdk ε
  sha256 : List UInt8 → String
  specEntriesFromWasm : List UInt8 → Except String (List String)

variable {ε : Type}

def recordFromWasm (rd : SpecReader ε) (contractId : String) (wasm : List UInt8) (now : String) :
    Except String ContractSpecRecord :=
  match rd.specEntriesFromWasm wasm with
  | .error message =>
    .ok ⟨contractId, .none, some (rd.sha256 wasm), [], 0,
      some ("no readable contract spec in Wasm: " ++ message), now⟩
  | .ok entriesXdr =>
    (ContractTypedDecoder.fromRecord rd.sdk ⟨contractId, .wasm, none, entriesXdr, 0, none, ""⟩).map
      (fun decoder =>
        ⟨contractId, .wasm, some (rd.sha256 wasm), entriesXdr,
          (decoder.map (fun d => (rd.sdk.events d.entries).length)).getD 0, none, now⟩)

structure SpecAnswers where
  executable : Except SpecRpcError String
  wasm : Except SpecRpcError (List UInt8)

/-- A record for every definite outcome; an error where the network failed. -/
def lookupContractSpec (rd : SpecReader ε) (contractId : String) (answers : SpecAnswers)
    (now : String) : Except String ContractSpecRecord :=
  match answers.executable with
  | .error e =>
    if e.isNotFound then
      .ok ⟨contractId, .none, none, [], 0, some ("contract instance not found: " ++ e.message), now⟩
    else .error e.message
  | .ok executable =>
    if executable = "contractExecutableStellarAsset" then
      .ok ⟨contractId, .stellarAsset, none, [], STELLAR_ASSET_SPEC_ENTRIES.length, none, now⟩
    else
      match answers.wasm with
      | .error e =>
        if e.isNotFound then
          .ok ⟨contractId, .none, none, [], 0, some ("contract Wasm not found: " ++ e.message), now⟩
        else .error e.message
      | .ok wasm => recordFromWasm rd contractId wasm now

theorem contractId_recordFromWasm {rd : SpecReader ε} {contractId : String} {wasm : List UInt8}
    {now : String} {record : ContractSpecRecord}
    (h : recordFromWasm rd contractId wasm now = .ok record) : record.contractId = contractId := by
  unfold recordFromWasm at h
  split at h
  · cases h
    rfl
  · generalize ContractTypedDecoder.fromRecord rd.sdk _ = decoder at h
    cases decoder with
    | error message => cases h
    | ok decoder =>
      cases h
      rfl

theorem contractId_lookupContractSpec {rd : SpecReader ε} {contractId : String}
    {answers : SpecAnswers} {now : String} {record : ContractSpecRecord}
    (h : lookupContractSpec rd contractId answers now = .ok record) :
    record.contractId = contractId := by
  unfold lookupContractSpec at h
  split at h
  · split at h
    · cases h
      rfl
    · cases h
  · split at h
    · cases h
      rfl
    · split at h
      · split at h
        · cases h
          rfl
        · cases h
      · exact contractId_recordFromWasm h

/-! ### The queue -/

inductive FetchEnd where
  /-- The fetcher was stopped before its turn. -/
  | dropped
  /-- The stored record was answer enough. -/
  | answered
  | readFailed
  | lookupFailed
  | saved (record : ContractSpecRecord)
  | saveFailed

inductive FetchState where
  | waiting
  | reading
  | looking
  | saving (record : ContractSpecRecord)
  | done (how : FetchEnd)

structure FetchJob where
  id : String
  state : FetchState

structure FetchOptions (ε : Type) where
  rd : SpecReader ε
  /-- `Date.parse`, in milliseconds. -/
  dateParse : String → Option Int
  retryNoneAfterMs : JsNumber

structure SpecFetcher where
  attempted : Finset String
  jobs : List FetchJob
  stopped : Bool
  stored : String → Option ContractSpecRecord
  now : Int

inductive FetchStep where
  | start
  | read
  | readFailed
  | lookedUp (answers : SpecAnswers) (now : String)
  | saved
  | saveFailed

inductive FetchEvent where
  | enqueue (contractIds : List String)
  | job (i : Nat) (e : FetchStep)
  | stop
  | wait (ms : Nat)

/-- `Date.now() - Date.parse(fetchedAt) < retryNoneAfterMs`; no comparison holds of a date
that does not parse. -/
def FetchOptions.fresh (o : FetchOptions ε) (now : Int) (record : ContractSpecRecord) : Bool :=
  match o.dateParse record.fetchedAt with
  | some t => JsNumber.lt (.fin (now - t : Int)) o.retryNoneAfterMs
  | none => false

/-- The stored record makes a lookup unnecessary. -/
def FetchOptions.answers (o : FetchOptions ε) (now : Int) (existing : Option ContractSpecRecord) :
    Bool :=
  match existing with
  | none => false
  | some record => record.source ≠ .none || o.fresh now record

def FetchState.isDone : FetchState → Bool
  | .done _ => true
  | _ => false

/-- The attempt is forgotten. -/
def FetchState.failed : FetchState → Bool
  | .done .readFailed | .done .lookupFailed | .done .saveFailed => true
  | _ => false

/-- The promise before has settled. -/
def SpecFetcher.mayStart (f : SpecFetcher) (i : Nat) : Bool :=
  i = 0 || (f.jobs[i - 1]?).any (fun job => job.state.isDone)

def SpecFetcher.fetchOne (o : FetchOptions ε) (f : SpecFetcher) (i : Nat) (job : FetchJob) :
    FetchStep → Option FetchState
  | .start =>
    match job.state with
    | .waiting =>
      if f.mayStart i then some (if f.stopped then .done .dropped else .reading) else none
    | _ => none
  | .read =>
    match job.state with
    | .reading =>
      some (if o.answers f.now (f.stored job.id) then .done .answered else .looking)
    | _ => none
  | .readFailed =>
    match job.state with
    | .reading => some (.done .readFailed)
    | _ => none
  | .lookedUp answers now =>
    match job.state with
    | .looking =>
      some (match lookupContractSpec o.rd job.id answers now with
        | .ok record => .saving record
        | .error _ => .done .lookupFailed)
    | _ => none
  | .saved =>
    match job.state with
    | .saving record => some (.done (.saved record))
    | _ => none
  | .saveFailed =>
    match job.state with
    | .saving _ => some (.done .saveFailed)
    | _ => none

def SpecFetcher.save (f : SpecFetcher) : FetchState → String → Option ContractSpecRecord
  | .done (.saved record) => Function.update f.stored record.contractId (some record)
  | _ => f.stored

def SpecFetcher.settle (f : SpecFetcher) (i : Nat) (id : String) (state : FetchState) : SpecFetcher :=
  { f with
    jobs := f.jobs.set i ⟨id, state⟩
    attempted := if state.failed then f.attempted.erase id else f.attempted
    stored := f.save state }

def SpecFetcher.enqueueOne (f : SpecFetcher) (id : String) : SpecFetcher :=
  if id ∈ f.attempted then f
  else { f with attempted := insert id f.attempted, jobs := f.jobs ++ [⟨id, .waiting⟩] }

def SpecFetcher.enqueue (f : SpecFetcher) (contractIds : List String) : SpecFetcher :=
  contractIds.foldl SpecFetcher.enqueueOne f

def SpecFetcher.step (o : FetchOptions ε) (f : SpecFetcher) : FetchEvent → Option SpecFetcher
  | .enqueue contractIds => some (f.enqueue contractIds)
  | .job i e => (f.jobs[i]?).bind (fun job => (f.fetchOne o i job e).map (f.settle i job.id))
  | .stop => some { f with stopped := true }
  | .wait ms => some { f with now := f.now + ms }

def SpecFetcher.exec (o : FetchOptions ε) (f : SpecFetcher) : List FetchEvent → Option SpecFetcher
  | [] => some f
  | e :: es => (f.step o e).bind (fun g => g.exec o es)

def SpecFetcher.new (stored : String → Option ContractSpecRecord) (now : Int) : SpecFetcher :=
  ⟨∅, [], false, stored, now⟩

end SorobanLens
