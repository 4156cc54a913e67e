import SorobanLens.Ingest.Poller

/-!
`FailoverRpcClient`: an ordered pool of providers, one of them in use, and the
stream that asks through it. Providers and the clock answer tick by tick.
-/

set_option autoImplicit false

namespace SorobanLens

/-- What provider `i` answers at a tick, and what the clock reads then. -/
structure Providers where
  getEvents : (tick i : Nat) → GetEventsRequest → Except RpcError EventBatch
  health : (tick i : Nat) → Except RpcError RetentionState
  dateNow : (tick : Nat) → Int
  isoNow : (tick : Nat) → String

structure RpcPoolOptions where
  rpcUrls : List String
  failureThreshold : Option JsNumber := none
  recoveryCheckMs : Option JsNumber := none

structure FailoverRpcClient where
  urls : List String
  threshold : JsNumber
  recoveryMs : JsNumber
  active : Nat
  errors : Nat
  lastRecoveryCheck : Int
  /-- How often a provider was called or the clock was read. -/
  ticks : Nat

def plainError (message : String) : RpcError := ⟨false, none, message⟩

namespace FailoverRpcClient

/-- The constructor; providers are told apart by URL. -/
def new (options : RpcPoolOptions) : Except String FailoverRpcClient :=
  if options.rpcUrls = [] then .error "at least one RPC URL is required"
  else .ok
    { urls := options.rpcUrls.eraseDups
      threshold := JsNumber.max (.ofNat 1) (options.failureThreshold.getD (.ofNat 3))
      recoveryMs := JsNumber.max (.ofNat 0) (options.recoveryCheckMs.getD (.ofNat 10000))
      active := 0
      errors := 0
      lastRecoveryCheck := 0
      ticks := 0 }

variable (w : Providers)

def providerUrl (p : FailoverRpcClient) : String := p.urls.getD p.active ""

def tryRecoverPrimary (p : FailoverRpcClient) : FailoverRpcClient :=
  if p.active = 0 then p
  else
    let due := w.dateNow p.ticks - p.lastRecoveryCheck
    if JsNumber.lt (.fin due) p.recoveryMs then { p with ticks := p.ticks + 1 }
    else
      let p := { p with lastRecoveryCheck := w.dateNow (p.ticks + 1), ticks := p.ticks + 3 }
      match w.health (p.ticks - 1) 0 with
      | .ok _ => { p with active := 0, errors := 0 }
      | .error _ => p

/-- `#request((client) => client.retention())`, once recovery has been tried. -/
def retentionOfActive (p : FailoverRpcClient) : Except RpcError RetentionState × FailoverRpcClient :=
  match w.health p.ticks p.active with
  | .ok window => (.ok window, { p with errors := 0, ticks := p.ticks + 1 })
  | .error e =>
    let errors := p.errors + 1
    let switch := JsNumber.le p.threshold (.ofNat errors) && decide (1 < p.urls.length)
    (.error e,
      { p with
        errors := errors
        active := if switch then (p.active + 1) % p.urls.length else p.active
        ticks := p.ticks + 1 })

def retention (p : FailoverRpcClient) : Except RpcError RetentionState × FailoverRpcClient :=
  (p.tryRecoverPrimary w).retentionOfActive w

def clientGetEvents (tick i : Nat) (args : GetEventsArgs) : Except RpcError EventBatch :=
  match getEventsRequest args with
  | .error message => .error (plainError message)
  | .ok request => w.getEvents tick i request

/-- Whether one more error is passed on as it is. -/
def keepsProvider (p : FailoverRpcClient) : Bool :=
  JsNumber.lt (.ofNat (p.errors + 1)) p.threshold || decide (p.urls.length = 1)

/-- The replacement is asked by cursor, then from the last committed ledger. -/
def getEventsOfNext (p : FailoverRpcClient) (args : GetEventsArgs) (old : String)
    (firstError : RpcError) : Except RpcError EventBatch × FailoverRpcClient :=
  let failed : RpcError := plainError ("RPC provider " ++ old ++ " failed over to " ++
    p.providerUrl ++ "; retrying: " ++ firstError.message)
  if truthy args.cursor then
    match clientGetEvents w p.ticks p.active args with
    | .ok batch => (.ok batch, { p with ticks := p.ticks + 1 })
    | .error _ =>
      match args.fallbackLedger with
      | some ledger =>
        (clientGetEvents w (p.ticks + 1) p.active
          { args with cursor := none, startLedger := some ledger }, { p with ticks := p.ticks + 2 })
      | none =>
        (.error failed,
          { p with lastRecoveryCheck := w.dateNow (p.ticks + 1), ticks := p.ticks + 2 })
  else
    (.error failed, { p with lastRecoveryCheck := w.dateNow p.ticks, ticks := p.ticks + 1 })

def getEventsOfActive (p : FailoverRpcClient) (args : GetEventsArgs) :
    Except RpcError EventBatch × FailoverRpcClient :=
  match clientGetEvents w p.ticks p.active args with
  | .ok batch => (.ok batch, { p with errors := 0, ticks := p.ticks + 1 })
  | .error firstError =>
    if p.keepsProvider then
      (.error firstError, { p with errors := p.errors + 1, ticks := p.ticks + 1 })
    else
      getEventsOfNext w
        { p with active := (p.active + 1) % p.urls.length, errors := 0, ticks := p.ticks + 1 }
        args p.providerUrl firstError

def getEvents (p : FailoverRpcClient) (args : GetEventsArgs) :
    Except RpcError EventBatch × FailoverRpcClient :=
  (p.tryRecoverPrimary w).getEventsOfActive w args

end FailoverRpcClient

/-! ### `EventPoller.stream()` over a pool -/

/-- Where the generator stands between two awaits. -/
inductive StreamPhase where
  | polling (l : StreamLocals)
  /-- In `getEvents`, after the primary was probed. -/
  | asking (l : StreamLocals)
  /-- In the `catch`, for a cursor that fell out of the window. -/
  | outOfRange (l : StreamLocals)
  | askingRetention (l : StreamLocals)
  | threw (error : RpcError)
  | ended

def StreamPhase.hasThrown : StreamPhase → Bool
  | .threw _ => true
  | _ => false

def StreamPhase.hasEnded : StreamPhase → Bool
  | .ended => true
  | _ => false

structure PooledStream where
  pool : FailoverRpcClient
  /-- What the cursor store holds under the stream's key. -/
  saved : Option CursorState
  phase : StreamPhase

namespace PooledStream

def start (o : PollerOptions) (pool : FailoverRpcClient) (saved : Option CursorState) :
    PooledStream := ⟨pool, saved, .polling (initialLocals o)⟩

def caught (l : StreamLocals) (e : RpcError) : StreamPhase :=
  if truthy l.cursor && isCursorOutOfRange e then .outOfRange l
  else if e.exhausted then .polling l
  else .threw e

/-- `#resolveStart`, which reads the window whether or not a cursor is stored. -/
def resolve (w : Providers) (o : PollerOptions) (s : PooledStream) (l : StreamLocals) :
    PooledStream :=
  let r := s.pool.retention w
  match s.saved, r.1 with
  | some _, .error _ =>
    -- the window is only compared with the cursor: not knowing it is logged
    { s with pool := r.2, phase := .polling (resolveStart o s.saved ⟨0, 0⟩ l) }
  | _, .ok window => { s with pool := r.2, phase := .polling (resolveStart o s.saved window l) }
  | none, .error e => { s with pool := r.2, phase := caught l e }

def receive (o : PollerOptions) (now : String) (s : PooledStream) (l : StreamLocals)
    (batch : EventBatch) : PooledStream :=
  let t := turn o l.seen batch
  { s with
    saved := some (cursorState batch t now)
    phase := if t.progress.reachedEndLedger then .ended else .polling (advance l batch t) }

def next (w : Providers) (o : PollerOptions) (s : PooledStream) : PooledStream :=
  match s.phase with
  | .polling l =>
    if l.positionResolved then { s with pool := s.pool.tryRecoverPrimary w, phase := .asking l }
    else s.resolve w o l
  | .asking l =>
    let r := s.pool.getEventsOfActive w (getEventsArgs o l (s.saved.map CursorState.ledger))
    match r.1 with
    | .ok batch => { s with pool := r.2 }.receive o (w.isoNow s.pool.ticks) l batch
    | .error e => { s with pool := r.2, phase := caught l e }
  | .outOfRange l => { s with pool := s.pool.tryRecoverPrimary w, phase := .askingRetention l }
  | .askingRetention l =>
    let r := s.pool.retentionOfActive w
    match r.1 with
    | .ok window =>
      { pool := r.2, saved := none, phase := .polling (restartAt window.oldestLedger l) }
    | .error e => { s with pool := r.2, phase := .threw e }
  | .threw _ | .ended => s

def after (w : Providers) (o : PollerOptions) (s : PooledStream) (n : Nat) : PooledStream :=
  (next w o)^[n] s

end PooledStream

end SorobanLens
