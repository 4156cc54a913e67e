import SorobanLens.Lib.PathPattern
import SorobanLens.Lib.JsNumeral
import SorobanLens.Api.Params
import SorobanLens.Api.RateLimit
import SorobanLens.Store.Schema
import Mathlib.Data.List.DropRight

/-!
What a request meets before its handler: the limiter, the API key and the table of routes.
-/

set_option autoImplicit false

namespace SorobanLens

open PathPattern

/-! ### Routes -/

inductive RouteMethod where
  | get
  | post
  | delete
  deriving DecidableEq, Repr

def RouteMethod.text : RouteMethod → String
  | .get => "GET"
  | .post => "POST"
  | .delete => "DELETE"

structure Route where
  method : RouteMethod
  pattern : Pattern
  /-- Serves without reading event rows. -/
  exemptFromSchemaCheck : Bool := false
  /-- Skips the rate limiter and the API-key check. -/
  isPublic : Bool := false
  deriving DecidableEq

def routes : List Route :=
  [ { method := .get, pattern := [.lit "health"], exemptFromSchemaCheck := true, isPublic := true },
    { method := .get, pattern := [.lit "stats"] },
    { method := .get, pattern := [.lit "status"] },
    { method := .get, pattern := [.lit "contracts"] },
    { method := .get, pattern := [.lit "contracts", .param, .lit "events"] },
    { method := .get, pattern := [.lit "contracts", .param, .lit "activity"] },
    { method := .get, pattern := [.lit "contracts", .param, .lit "stats"] },
    { method := .get, pattern := [.lit "contracts", .param, .lit "spec"] },
    { method := .get, pattern := [.lit "contracts", .param, .lit "topics"] },
    { method := .get, pattern := [.lit "events"] },
    { method := .get, pattern := [.lit "events", .lit "stream"] },
    { method := .get, pattern := [.lit "events", .param] },
    { method := .get, pattern := [.lit "graphql"] },
    { method := .post, pattern := [.lit "graphql"] },
    { method := .post, pattern := [.lit "webhooks"] },
    { method := .get, pattern := [.lit "webhooks"] },
    { method := .get, pattern := [.lit "webhooks", .param] },
    { method := .delete, pattern := [.lit "webhooks", .param] },
    { method := .get, pattern := [.lit "webhooks", .param, .lit "dead-letters"] },
    { method := .get, pattern := [.lit "openapi.json"], exemptFromSchemaCheck := true,
      isPublic := true },
    { method := .get, pattern := [.lit "docs"], exemptFromSchemaCheck := true, isPublic := true } ]

def candidates (path : String) : List (Route × List String) :=
  routes.filterMap (fun r => (exec r.pattern path).map (fun vs => (r, vs)))

def isPublicPath (path : String) : Bool :=
  !(candidates path).isEmpty && (candidates path).all (fun c => c.1.isPublic)

/-! ### Errors -/

def MIGRATION_RETRY_AFTER_SECONDS : Int := 5

structure HttpError where
  error : ApiError
  allow : Option String := none
  retryAfterSeconds : Option Int := none
  wwwAuthenticate : Option String := none
  deriving DecidableEq

namespace HttpError

def unauthorized (message : String) : HttpError where
  error := ⟨401, "unauthorized", message, none⟩
  wwwAuthenticate := some "Bearer realm=\"soroban-lens\""

def tooManyRequests (message : String) (retryAfterSeconds : Int) : HttpError where
  error := ⟨429, "rate_limited", message, none⟩
  retryAfterSeconds := some retryAfterSeconds

def unavailable (message : String) (retryAfterSeconds : Int) : HttpError where
  error := ⟨503, "unavailable", message, none⟩
  retryAfterSeconds := some retryAfterSeconds

def noRoute (method path : String) : HttpError where
  error := .notFound ("No route for " ++ method ++ " " ++ path ++ ". See GET /openapi.json.")

/-- The methods an `Allow` header lists; HEAD rides along with GET. -/
def allowedMethods (methods : List RouteMethod) : List String :=
  methods.flatMap (fun m => if m = .get then ["GET", "HEAD"] else [m.text])

def methodNotAllowed (path : String) (methods : List RouteMethod) : HttpError where
  error := ⟨405, "method_not_allowed", path ++ " accepts " ++
    ", ".intercalate (methods.map RouteMethod.text) ++ " only.", none⟩
  allow := some (", ".intercalate (allowedMethods methods))

end HttpError

/-- The route of a request: `sent` is its method, `method` the one it is served as. -/
def dispatch (sent method path : String) : Except HttpError (Route × List String) :=
  if candidates path = [] then .error (.noRoute sent path)
  else
    match (candidates path).find? (fun c => c.1.method.text = method) with
    | some c => .ok c
    | none =>
      .error (.methodNotAllowed path ((candidates path).map (fun c => c.1.method)).eraseDups)

/-! ### Callers -/

abbrev HeaderField := List String

structure Caller where
  /-- `X-Forwarded-For`. -/
  forwardedFor : HeaderField
  /-- `X-API-Key`. -/
  apiKey : HeaderField
  authorization : Option String
  remoteAddress : Option String

structure HttpRequest (ρ : Type) where
  method : String
  pathname : String
  caller : Caller
  /-- What `Date.now` reads when the limiter is asked. -/
  now : ℚ
  rest : ρ

structure ServerOptions where
  apiKeys : List String
  trustProxy : Bool
  sha256 : String → String

def Caller.clientKey (c : Caller) (trustProxy : Bool) : String :=
  let forwarded := c.forwardedFor.head?.map (fun h =>
    trimText (String.ofList (h.toList.takeWhile (fun x => x ≠ ','))))
  match if trustProxy then forwarded.filter (fun t => t ≠ "") else none with
  | some first => first
  | none => c.remoteAddress.getD "unknown"

/-- What `.` does not match. -/
def isLineBreak (c : Char) : Bool :=
  c == '\n' || c == '\r' || c == Char.ofNat 0x2028 || c == Char.ofNat 0x2029

/-- `/^Bearer\s+(.+)$/i`, on a trimmed text. -/
def bearerToken (text : String) : Option String :=
  let token := (text.toList.drop 6).dropWhile JsNumber.isWhite
  if (text.toList.take 6).map Char.toLower = "bearer".toList ∧
      ((text.toList.drop 6).head?.any JsNumber.isWhite) = true ∧
      token ≠ [] ∧ token.all (fun c => !isLineBreak c) = true
  then some (trimText (String.ofList token)) else none

def Caller.presentedKey (c : Caller) : Option String :=
  match (c.apiKey.head?.map trimText).filter (fun t => t ≠ "") with
  | some direct => some direct
  | none => (c.authorization.map trimText).bind bearerToken

def ServerOptions.keys (o : ServerOptions) : List String :=
  (o.apiKeys.map trimText).filter (fun k => k ≠ "")

def ServerOptions.isAuthorized (o : ServerOptions) (c : Caller) : Bool :=
  o.keys.isEmpty ||
    match c.presentedKey with
    | none => false
    | some presented => presented ≠ "" &&
        o.keys.any (fun known => o.sha256 known = o.sha256 presented)

/-! ### The server -/

/-- What is behind the gate; `W` is the state of the store, the webhooks and the streams. -/
structure Handlers (ρ β W : Type) where
  /-- `getStats().schemaVersion`. -/
  schemaVersion : W → Nat
  handler : Route → List String → HttpRequest ρ → W → β × W

def newLimiter (rateLimit : Option (JsNumber × Option JsNumber)) :
    Except RateLimitError (Option TokenBucketLimiter) :=
  match rateLimit with
  | none => .ok none
  | some (requestsPerSecond, burst) => (TokenBucketLimiter.new requestsPerSecond burst).map some

structure ServerState (W : Type) where
  limiter : Option TokenBucketLimiter
  world : W

inductive HttpReply (β : Type) where
  /-- 204, to OPTIONS. -/
  | preflight
  | failed (e : HttpError)
  | handled (b : β)

variable {ρ β W : Type}

/-- `pathname.replace(/\/+$/, '') || '/'`. -/
def requestPath (pathname : String) : String :=
  let kept := String.ofList (pathname.toList.rdropWhile (fun c => c = '/'))
  if kept = "" then "/" else kept

def HttpRequest.path (req : HttpRequest ρ) : String := requestPath req.pathname

def HttpRequest.call (req : HttpRequest ρ) (o : ServerOptions) : RateLimitCall :=
  ⟨req.now, req.caller.clientKey o.trustProxy⟩

/-- Whether a request has to pass the limiter and the key check. -/
def HttpRequest.isGated (req : HttpRequest ρ) : Bool :=
  req.method ≠ "OPTIONS" && !isPublicPath req.path

def rateLimited (retryAfterSeconds : Int) : HttpError :=
  .tooManyRequests ("Rate limit exceeded. Retry in " ++ toString retryAfterSeconds ++ "s.")
    retryAfterSeconds

def unauthorised (c : Caller) : HttpError :=
  .unauthorized (if c.presentedKey.any (fun k => k ≠ "") then "The API key is not valid."
    else "This instance requires an API key: send X-API-Key or Authorization: Bearer <key>.")

def authorise (o : ServerOptions) (c : Caller) : Except HttpError Unit :=
  if o.isAuthorized c then .ok () else .error (unauthorised c)

def afterLimiter (o : ServerOptions) (c : Caller) : RateLimitDecision → Except HttpError Unit
  | .allowed => authorise o c
  | .refused r => .error (rateLimited r)

/-- The limiter comes first: it is what stops the guessing of keys. -/
def gate (o : ServerOptions) (req : HttpRequest ρ) (limiter : Option TokenBucketLimiter) :
    Except HttpError Unit × Option TokenBucketLimiter :=
  match limiter with
  | none => (authorise o req.caller, none)
  | some l => (afterLimiter o req.caller (l.take (req.call o)).1, some (l.take (req.call o)).2)

/-- `assertSchemaCurrent`: no rows are served from a schema the code does not expect. -/
def Handlers.schemaCheck (h : Handlers ρ β W) (w : W) : Except HttpError Unit :=
  if h.schemaVersion w = LATEST_SCHEMA_VERSION then .ok ()
  else .error (.unavailable ("The database is at schema v" ++ toString (h.schemaVersion w) ++
    ", expected v" ++ toString LATEST_SCHEMA_VERSION ++
    ". A migration is pending; see GET /health.") MIGRATION_RETRY_AFTER_SECONDS)

def serve (h : Handlers ρ β W) (req : HttpRequest ρ) (w : W) : HttpReply β × W :=
  match dispatch req.method (if req.method = "HEAD" then "GET" else req.method) req.path with
  | .error e => (.failed e, w)
  | .ok (route, params) =>
    match if route.exemptFromSchemaCheck then .ok () else h.schemaCheck w with
    | .error e => (.failed e, w)
    | .ok () => (.handled (h.handler route params req w).1, (h.handler route params req w).2)

def handle (o : ServerOptions) (h : Handlers ρ β W) (req : HttpRequest ρ) (s : ServerState W) :
    HttpReply β × ServerState W :=
  if req.method = "OPTIONS" then (.preflight, s)
  else if isPublicPath req.path then
    ((serve h req s.world).1, { s with world := (serve h req s.world).2 })
  else
    match (gate o req s.limiter).1 with
    | .error e => (.failed e, ⟨(gate o req s.limiter).2, s.world⟩)
    | .ok () => ((serve h req s.world).1, ⟨(gate o req s.limiter).2, (serve h req s.world).2⟩)

def serveAll (o : ServerOptions) (h : Handlers ρ β W) :
    ServerState W → List (HttpRequest ρ) → List (HttpRequest ρ × HttpReply β) × ServerState W
  | s, [] => ([], s)
  | s, req :: reqs =>
    ((req, (handle o h req s).1) :: (serveAll o h (handle o h req s).2 reqs).1,
      (serveAll o h (handle o h req s).2 reqs).2)

/-! ### Where a path leads -/

section Dispatch

variable {path sent method : String} {r s : Route} {vs : List String}

def streamRoute : Route := { method := .get, pattern := [.lit "events", .lit "stream"] }

theorem plain_routes : ∀ r ∈ routes, Plain r.pattern := by
  intro r hr
  have hall : ∀ r ∈ routes, r.pattern.all Segment.isPlain = true := by decide
  exact plain_of_all (hall r hr)

theorem mem_candidates :
    (r, vs) ∈ candidates path ↔ r ∈ routes ∧ exec r.pattern path = some vs := by
  simp [candidates]

theorem mem_candidates_iff :
    (r, vs) ∈ candidates path ↔ r ∈ routes ∧ Fits r.pattern vs ∧ path = spell r.pattern vs := by
  rw [mem_candidates]
  constructor
  · rintro ⟨hr, hexec⟩
    exact ⟨hr, (exec_eq_some (plain_routes r hr)).mp hexec⟩
  · rintro ⟨hr, hspells⟩
    exact ⟨hr, (exec_eq_some (plain_routes r hr)).mpr hspells⟩

theorem RouteMethod.text_inj {m n : RouteMethod} (h : m.text = n.text) : m = n := by
  cases m <;> cases n <;> first | rfl | exact absurd h (by decide)

theorem routes_apart : ∀ r ∈ routes, ∀ s ∈ routes, r.method = s.method →
    Compatible r.pattern s.pattern = true → r = s ∨ r = streamRoute ∨ s = streamRoute := by
  decide

theorem spell_streamRoute : spell streamRoute.pattern [] = "/events/stream" := by decide

theorem eq_of_streamRoute (h : (streamRoute, vs) ∈ candidates path) : path = "/events/stream" := by
  obtain ⟨hr, hexec⟩ := mem_candidates.mp h
  obtain ⟨-, hpath⟩ := (exec_literal (plain_routes _ hr) (by decide)).mp hexec
  exact hpath.trans spell_streamRoute

theorem find_stream (hpath : path = "/events/stream") {c : Route × List String}
    (h : (candidates path).find? (fun c => c.1.method.text = method) = some c) :
    c.1 = streamRoute := by
  subst hpath
  have hall : candidates "/events/stream" =
      [(streamRoute, []),
        ({ method := .get, pattern := [.lit "events", .param] }, ["stream"])] := by
    decide
  rw [hall] at h
  by_cases hget : "GET" = method
  · simp [streamRoute, RouteMethod.text, hget] at h
    rw [← h]
    rfl
  · simp [streamRoute, RouteMethod.text, hget] at h

/-- On a path a method has one route, but for `/events/stream`, which has two. -/
theorem candidate_unique {c d : Route × List String} (hc : c ∈ candidates path)
    (hd : d ∈ candidates path) (hmethod : c.1.method = d.1.method) :
    c = d ∨ path = "/events/stream" := by
  obtain ⟨r, vs⟩ := c
  obtain ⟨s, ws⟩ := d
  obtain ⟨hr, hrexec⟩ := mem_candidates.mp hc
  obtain ⟨hs, hsexec⟩ := mem_candidates.mp hd
  rcases routes_apart r hr s hs hmethod (compatible_of_exec hrexec hsexec) with rfl | rfl | rfl
  · left
    rw [Option.some.inj (hrexec.symm.trans hsexec)]
  · exact .inr (eq_of_streamRoute hc)
  · exact .inr (eq_of_streamRoute hd)

theorem dispatch_eq_ok {c : Route × List String} :
    dispatch sent method path = .ok c ↔
      (candidates path).find? (fun c => c.1.method.text = method) = some c := by
  unfold dispatch
  split
  · rename_i hnone
    simp [hnone]
  · cases hfind : (candidates path).find? (fun c => c.1.method.text = method) with
    | none => simp
    | some d => simp

theorem exists_found {c : Route × List String} (hc : c ∈ candidates path) :
    ∃ d, (candidates path).find? (fun d => d.1.method.text = c.1.method.text) = some d := by
  rw [← Option.isSome_iff_exists, List.find?_isSome]
  exact ⟨c, hc, by simp⟩

structure DispatchExact (path : String) : Prop where
  served : ∀ sent method r vs, dispatch sent method path = .ok (r, vs) ↔
    r ∈ routes ∧ r.method.text = method ∧ Fits r.pattern vs ∧ path = spell r.pattern vs ∧
      (path = "/events/stream" → r = streamRoute)
  refused : ∀ sent method e, dispatch sent method path = .error e →
    (e = .noRoute sent path ∧ ∀ other, dispatch sent other path = .error e) ∨
      ∃ methods : List RouteMethod, e = .methodNotAllowed path methods ∧ methods ≠ [] ∧
        methods.Nodup ∧ ∀ m, m ∈ methods ↔ ∃ c, dispatch sent m.text path = .ok c
  isPublic : isPublicPath path = true ↔ path ∈ ["/health", "/openapi.json", "/docs"]

theorem served_iff : dispatch sent method path = .ok (r, vs) ↔
    r ∈ routes ∧ r.method.text = method ∧ Fits r.pattern vs ∧ path = spell r.pattern vs ∧
      (path = "/events/stream" → r = streamRoute) := by
  rw [dispatch_eq_ok]
  constructor
  · intro hfind
    have hmethod : r.method.text = method := by simpa using List.find?_some hfind
    obtain ⟨hr, hfits, hpath⟩ := mem_candidates_iff.mp (List.mem_of_find?_eq_some hfind)
    exact ⟨hr, hmethod, hfits, hpath, fun hstream => find_stream hstream hfind⟩
  · rintro ⟨hr, rfl, hfits, hpath, hstream⟩
    have hmem : (r, vs) ∈ candidates path := mem_candidates_iff.mpr ⟨hr, hfits, hpath⟩
    obtain ⟨d, hfind⟩ := exists_found hmem
    have hd := List.mem_of_find?_eq_some hfind
    have hmethod : d.1.method = r.method :=
      RouteMethod.text_inj (by simpa using List.find?_some hfind)
    rcases candidate_unique hd hmem hmethod with rfl | hpath'
    · exact hfind
    · -- both routes of this path serve GET, and the first in the table is taken
      have hsame : d.1 = r := (find_stream hpath' hfind).trans (hstream hpath').symm
      have hexec := (mem_candidates.mp hmem).2
      have hexec' := (mem_candidates.mp hd).2
      rw [hsame, hexec] at hexec'
      rw [hfind, ← hsame, Option.some.inj hexec']

theorem nodup_eraseDups {α : Type} [DecidableEq α] (xs : List α) : xs.eraseDups.Nodup := by
  induction hn : xs.length using Nat.strong_induction_on generalizing xs with
  | h n ih =>
    cases xs with
    | nil => simp
    | cons x xs =>
      have hshorter : (xs.filter (fun y => !y == x)).length < n := by
        have hle := List.length_filter_le (fun y => !y == x) xs
        simp only [List.length_cons] at hn
        omega
      rw [List.eraseDups_cons, List.nodup_cons]
      exact ⟨by simp [List.mem_eraseDups], ih _ hshorter _ rfl⟩

theorem refused_spec {e : HttpError} (h : dispatch sent method path = .error e) :
    (e = .noRoute sent path ∧ ∀ other, dispatch sent other path = .error e) ∨
      ∃ methods : List RouteMethod, e = .methodNotAllowed path methods ∧ methods ≠ [] ∧
        methods.Nodup ∧ ∀ m, m ∈ methods ↔ ∃ c, dispatch sent m.text path = .ok c := by
  by_cases hnone : candidates path = []
  · left
    have hall : ∀ other, dispatch sent other path = .error (.noRoute sent path) :=
      fun other => if_pos hnone
    have he : HttpError.noRoute sent path = e := Except.error.inj ((hall method).symm.trans h)
    exact ⟨he.symm, fun other => (hall other).trans (by rw [he])⟩
  · right
    refine ⟨((candidates path).map (fun c => c.1.method)).eraseDups, ?_, ?_, ?_, ?_⟩
    · unfold dispatch at h
      rw [if_neg hnone] at h
      split at h
      · cases h
      · exact (Except.error.inj h).symm
    · intro hnil
      obtain ⟨c, hc⟩ := List.exists_mem_of_ne_nil _ hnone
      have hmem : c.1.method ∈ ((candidates path).map (fun c => c.1.method)).eraseDups :=
        List.mem_eraseDups.mpr (List.mem_map_of_mem hc)
      rw [hnil] at hmem
      cases hmem
    · exact nodup_eraseDups _
    · intro m
      rw [List.mem_eraseDups, List.mem_map]
      constructor
      · rintro ⟨c, hc, rfl⟩
        obtain ⟨d, hfind⟩ := exists_found hc
        exact ⟨d, dispatch_eq_ok.mpr hfind⟩
      · rintro ⟨c, hc⟩
        have hfind := dispatch_eq_ok.mp hc
        exact ⟨c, List.mem_of_find?_eq_some hfind,
          RouteMethod.text_inj (by simpa using List.find?_some hfind)⟩

theorem isPublicPath_iff :
    isPublicPath path = true ↔ path ∈ ["/health", "/openapi.json", "/docs"] := by
  constructor
  · intro h
    simp only [isPublicPath, Bool.and_eq_true, Bool.not_eq_true', List.isEmpty_eq_false_iff,
      List.all_eq_true] at h
    obtain ⟨hne, hall⟩ := h
    obtain ⟨⟨r, vs⟩, hc⟩ := List.exists_mem_of_ne_nil _ hne
    obtain ⟨hr, hexec⟩ := mem_candidates.mp hc
    have hliteral : ∀ r ∈ routes, r.isPublic = true → r.pattern.count .param = 0 ∧
        spell r.pattern [] ∈ ["/health", "/openapi.json", "/docs"] := by decide
    obtain ⟨hcount, hspell⟩ := hliteral r hr (hall _ hc)
    obtain ⟨-, hpath⟩ := (exec_literal (plain_routes r hr) hcount).mp hexec
    rw [hpath]
    exact hspell
  · have hall : ∀ p ∈ ["/health", "/openapi.json", "/docs"], isPublicPath p = true := by decide
    exact hall path

/-- Every path is served by the one route it spells, and a 405 lists the methods that are. -/
theorem dispatch_exact (path : String) : DispatchExact path where
  served := fun _ _ _ _ => served_iff
  refused := fun _ _ _ h => refused_spec h
  isPublic := isPublicPath_iff

end Dispatch

/-! ### Strangers -/

def HttpRequest.isFrom (req : HttpRequest ρ) (o : ServerOptions) (addresses : String → Bool) :
    Bool := req.isGated && addresses (req.call o).key

/-- Two limiters whose buckets differ for some addresses only. -/
inductive SameLimiter (addresses : String → Bool) (now : ℚ) :
    Option TokenBucketLimiter → Option TokenBucketLimiter → Prop where
  | off : SameLimiter addresses now none none
  | on {l l' : TokenBucketLimiter} {i i' : IdealLimiter} (rate : l.rate = l'.rate)
      (left : Simulates l i now) (right : Simulates l' i' now)
      (same : ∀ key, addresses key = false → i key = i' key) :
      SameLimiter addresses now (some l) (some l')

section Strangers

variable {o : ServerOptions} {h : Handlers ρ β W} {addresses : String → Bool} {now : ℚ}
  {req : HttpRequest ρ} {reqs : List (HttpRequest ρ)} {a b : Option TokenBucketLimiter}

theorem SameLimiter.gate (hsame : SameLimiter addresses now a b) (hnow : now ≤ req.now)
    (hkey : addresses (req.call o).key = false) :
    (gate o req a).1 = (gate o req b).1 ∧
      SameLimiter addresses req.now (gate o req a).2 (gate o req b).2 := by
  cases hsame with
  | off => exact ⟨rfl, .off⟩
  | @on l l' i i' rate left right same =>
    obtain ⟨hverdict, hsim, hrate⟩ := followsIdeal_take l i (req.call o) (left.later hnow)
    obtain ⟨hverdict', hsim', hrate'⟩ := followsIdeal_take l' i' (req.call o) (right.later hnow)
    have hbucket : bucketTake l.rate (req.call o) (i (req.call o).key) =
        bucketTake l'.rate (req.call o) (i' (req.call o).key) := by
      rw [rate, same _ hkey]
    refine ⟨?_, .on (hrate.trans (rate.trans hrate'.symm)) hsim hsim' ?_⟩
    · simp only [SorobanLens.gate, hverdict, hverdict', IdealLimiter.take, hbucket]
    · intro key hapart
      simp only [IdealLimiter.take]
      by_cases hown : key = (req.call o).key
      · rw [hown, Function.update_self, Function.update_self, hbucket]
      · rw [Function.update_of_ne hown, Function.update_of_ne hown, same key hapart]

theorem SameLimiter.gate_left (hsame : SameLimiter addresses now a b) (hnow : now ≤ req.now)
    (hkey : addresses (req.call o).key = true) :
    SameLimiter addresses req.now (SorobanLens.gate o req a).2 b := by
  cases hsame with
  | off => exact .off
  | @on l l' i i' rate left right same =>
    obtain ⟨-, hsim, hrate⟩ := followsIdeal_take l i (req.call o) (left.later hnow)
    refine .on (hrate.trans rate) hsim (right.later hnow) ?_
    intro key hapart
    have hother : key ≠ (req.call o).key := by
      rintro rfl
      rw [hkey] at hapart
      cases hapart
    simp only [IdealLimiter.take]
    rw [Function.update_of_ne hother, same key hapart]

theorem SameLimiter.later (hsame : SameLimiter addresses now a b) (hnow : now ≤ req.now) :
    SameLimiter addresses req.now a b := by
  cases hsame with
  | off => exact .off
  | on rate left right same => exact .on rate (left.later hnow) (right.later hnow) same

/-- What a caller without a valid key may be told: nothing of the path or of the store. -/
inductive GateRefusal (c : Caller) : HttpError → Prop where
  | limited (r : Int) : GateRefusal c (rateLimited r)
  | unauthorised : GateRefusal c (unauthorised c)

theorem gate_unauthorised (hkey : o.isAuthorized req.caller = false) :
    ∃ e, (gate o req a).1 = .error e ∧ GateRefusal req.caller e := by
  have hrefused : authorise o req.caller = .error (unauthorised req.caller) := by
    simp [authorise, hkey]
  cases a with
  | none => exact ⟨_, hrefused, .unauthorised⟩
  | some l =>
    simp only [gate]
    cases (l.take (req.call o)).1 with
    | allowed => exact ⟨_, hrefused, .unauthorised⟩
    | refused r => exact ⟨_, rfl, .limited r⟩

theorem isGated_iff :
    req.isGated = true ↔ req.method ≠ "OPTIONS" ∧ isPublicPath req.path = false := by
  simp [HttpRequest.isGated]

theorem handle_gated (hgated : req.isGated = true) (s : ServerState W) :
    handle o h req s =
      match (gate o req s.limiter).1 with
      | .error e => (.failed e, ⟨(gate o req s.limiter).2, s.world⟩)
      | .ok () =>
        ((serve h req s.world).1, ⟨(gate o req s.limiter).2, (serve h req s.world).2⟩) := by
  obtain ⟨hmethod, hpublic⟩ := isGated_iff.mp hgated
  simp [handle, hmethod, hpublic]

theorem handle_open (hopen : req.isGated = false) (l l' : Option TokenBucketLimiter) (w : W) :
    (handle o h req ⟨l, w⟩).1 = (handle o h req ⟨l', w⟩).1 ∧
      (handle o h req ⟨l, w⟩).2.world = (handle o h req ⟨l', w⟩).2.world ∧
      (handle o h req ⟨l, w⟩).2.limiter = l := by
  by_cases hmethod : req.method = "OPTIONS"
  · simp [handle, hmethod]
  · have hpublic : isPublicPath req.path = true := by
      simpa [HttpRequest.isGated, hmethod] using hopen
    simp [handle, hmethod, hpublic]

theorem handle_stranger (hgated : req.isGated = true)
    (hkey : o.isAuthorized req.caller = false) (s : ServerState W) :
    (∃ e, (handle o h req s).1 = .failed e ∧ GateRefusal req.caller e) ∧
      (handle o h req s).2 = ⟨(gate o req s.limiter).2, s.world⟩ := by
  obtain ⟨e, he, hrefusal⟩ := gate_unauthorised (o := o) (a := s.limiter) hkey
  rw [handle_gated hgated, he]
  exact ⟨⟨e, rfl, hrefusal⟩, rfl⟩

/-- Anyone else is answered alike by two servers whose limiters differ for strangers only. -/
theorem handle_other {w : W} (hsame : SameLimiter addresses now a b) (hnow : now ≤ req.now)
    (hother : req.isFrom o addresses = false) :
    (handle o h req ⟨a, w⟩).1 = (handle o h req ⟨b, w⟩).1 ∧
      (handle o h req ⟨a, w⟩).2.world = (handle o h req ⟨b, w⟩).2.world ∧
      SameLimiter addresses req.now (handle o h req ⟨a, w⟩).2.limiter
        (handle o h req ⟨b, w⟩).2.limiter := by
  cases hgated : req.isGated with
  | false =>
    obtain ⟨hreply, hworld, hleft⟩ := handle_open (o := o) (h := h) hgated a b w
    obtain ⟨-, -, hright⟩ := handle_open (o := o) (h := h) hgated b a w
    rw [hleft, hright]
    exact ⟨hreply, hworld, hsame.later hnow⟩
  | true =>
    have hkey : addresses (req.call o).key = false := by
      simpa [HttpRequest.isFrom, hgated] using hother
    obtain ⟨hverdict, hnext⟩ := hsame.gate hnow hkey
    rw [handle_gated hgated, handle_gated hgated]
    simp only [hverdict]
    cases (SorobanLens.gate o req b).1 with
    | error e => exact ⟨rfl, rfl, hnext⟩
    | ok u => exact ⟨rfl, rfl, hnext⟩

/-- The run without the strangers' requests, and what the strangers were told. -/
structure StrangersIgnored (o : ServerOptions) (h : Handlers ρ β W) (addresses : String → Bool)
    (s s' : ServerState W) (reqs : List (HttpRequest ρ)) : Prop where
  replies : (serveAll o h s reqs).1.filter (fun x => !x.1.isFrom o addresses) =
    (serveAll o h s' (reqs.filter (fun r => !r.isFrom o addresses))).1
  world : (serveAll o h s reqs).2.world =
    (serveAll o h s' (reqs.filter (fun r => !r.isFrom o addresses))).2.world
  refused : ∀ x ∈ (serveAll o h s reqs).1, x.1.isFrom o addresses = true →
    ∃ e, x.2 = .failed e ∧ GateRefusal x.1.caller e

/-- By induction over the run: the worlds stay equal, the limiters differ for strangers only. -/
theorem strangersIgnored_of_same {s s' : ServerState W} (hworld : s.world = s'.world)
    (hsame : SameLimiter addresses now s.limiter s'.limiter)
    (hclock : reqs.Pairwise (fun p q => p.now ≤ q.now)) (hfrom : ∀ r ∈ reqs, now ≤ r.now)
    (hkeys : ∀ r ∈ reqs, r.isFrom o addresses = true → o.isAuthorized r.caller = false) :
    StrangersIgnored o h addresses s s' reqs := by
  induction reqs generalizing s s' now with
  | nil => exact ⟨rfl, hworld, by simp [serveAll]⟩
  | cons req reqs ih =>
    obtain ⟨hhead, htail⟩ := List.pairwise_cons.mp hclock
    have hnow := hfrom req List.mem_cons_self
    have hkeysTail : ∀ r ∈ reqs, r.isFrom o addresses = true → o.isAuthorized r.caller = false :=
      fun r hr => hkeys r (List.mem_cons_of_mem _ hr)
    cases hreq : req.isFrom o addresses with
    | true =>
      have hboth : req.isGated = true ∧ addresses (req.call o).key = true := by
        simpa [HttpRequest.isFrom] using hreq
      obtain ⟨htold, hstate⟩ := handle_stranger (h := h) hboth.1
        (hkeys req List.mem_cons_self hreq) s
      have hrest : StrangersIgnored o h addresses (handle o h req s).2 s' reqs := by
        refine ih ?_ ?_ htail hhead hkeysTail
        · rw [hstate]
          exact hworld
        · rw [hstate]
          exact hsame.gate_left hnow hboth.2
      refine ⟨?_, ?_, ?_⟩
      · simpa [serveAll, hreq] using hrest.replies
      · simpa [serveAll, hreq] using hrest.world
      · intro x hx hfrom'
        rcases List.mem_cons.mp hx with rfl | hx
        · exact htold
        · exact hrest.refused x hx hfrom'
    | false =>
      obtain ⟨l, w⟩ := s
      obtain ⟨l', w'⟩ := s'
      obtain rfl : w = w' := hworld
      obtain ⟨hreply, hworld', hnext⟩ := handle_other (h := h) (w := w) hsame hnow hreq
      have hrest := ih hworld' hnext htail hhead hkeysTail
      refine ⟨?_, ?_, ?_⟩
      · simpa [serveAll, hreq, hreply] using hrest.replies
      · simpa [serveAll, hreq] using hrest.world
      · intro x hx hfrom'
        rcases List.mem_cons.mp hx with rfl | hx
        · rw [hreq] at hfrom'
          cases hfrom'
        · exact hrest.refused x hx hfrom'

theorem sameLimiter_new {rateLimit : Option (JsNumber × Option JsNumber)}
    {limiter : Option TokenBucketLimiter} (hnew : newLimiter rateLimit = .ok limiter) (start : ℚ) :
    SameLimiter addresses start limiter limiter := by
  cases rateLimit with
  | none =>
    cases hnew
    exact .off
  | some options =>
    obtain ⟨rps, burst⟩ := options
    simp only [newLimiter] at hnew
    cases hl : TokenBucketLimiter.new rps burst with
    | error e =>
      rw [hl] at hnew
      cases hnew
    | ok l =>
      rw [hl] at hnew
      cases hnew
      exact .on rfl (simulates_new hl start) (simulates_new hl start) (fun _ _ => rfl)

/-- Callers that never show a valid key leave no trace: whatever they ask for, in any order
between the others' requests, the others and the store go on as if they had not asked. -/
theorem strangers_leave_no_trace {rateLimit : Option (JsNumber × Option JsNumber)}
    {limiter : Option TokenBucketLimiter} (hnew : newLimiter rateLimit = .ok limiter)
    (hclock : reqs.Pairwise (fun p q => p.now ≤ q.now))
    (hkeys : ∀ r ∈ reqs, r.isFrom o addresses = true → o.isAuthorized r.caller = false) (w : W) :
    StrangersIgnored o h addresses ⟨limiter, w⟩ ⟨limiter, w⟩ reqs := by
  cases reqs with
  | nil => exact ⟨rfl, rfl, by simp [serveAll]⟩
  | cons req reqs =>
    refine strangersIgnored_of_same rfl (sameLimiter_new hnew req.now) hclock ?_ hkeys
    intro r hr
    rcases List.mem_cons.mp hr with rfl | hr
    · exact le_refl _
    · exact (List.pairwise_cons.mp hclock).1 r hr

def lockedOptions : ServerOptions where
  apiKeys := ["secret"]
  trustProxy := false
  sha256 := id

def eventsWith (address key : String) : HttpRequest Unit where
  method := "GET"
  pathname := "/events"
  caller := ⟨[], [key], none, some address⟩
  now := 0
  rest := ()

def countingHandlers : Handlers Unit Nat Nat where
  schemaVersion := fun _ => LATEST_SCHEMA_VERSION
  handler := fun _ _ _ n => (n, n + 1)

/-- With one request in a second for each address, a stranger's second one is turned away
by the limiter and the first by the key check. -/
theorem strangers_leave_no_trace_counting : ∃ l,
    newLimiter (some (.fin 1, none)) = .ok (some l) ∧
      StrangersIgnored lockedOptions countingHandlers (fun address => address == "9.9.9.9")
        ⟨some l, 0⟩ ⟨some l, 0⟩
        [eventsWith "9.9.9.9" "guess", eventsWith "1.1.1.1" "secret",
          eventsWith "9.9.9.9" "other"] := by
  have hnew : ∃ l, newLimiter (some (.fin 1, none)) = .ok (some l) := by
    simp [newLimiter, TokenBucketLimiter.new, Except.map]
  obtain ⟨l, hl⟩ := hnew
  exact ⟨l, hl, strangers_leave_no_trace hl (by simp [eventsWith]) (by decide) 0⟩

/-! ### Guesses -/

def HttpReply.isLimited : HttpReply β → Bool
  | .failed e => e.error.status = 429
  | .preflight | .handled _ => false

/-- A request of an address in a window that got as far as the key check. -/
def KeyChecked (o : ServerOptions) (address : String) (s t : ℚ)
    (x : HttpRequest ρ × HttpReply β) : Prop :=
  x.1.isGated = true ∧ (x.1.call o).key = address ∧ x.2.isLimited = false ∧
    s ≤ x.1.now ∧ x.1.now ≤ t

instance (o : ServerOptions) (address : String) (s t : ℚ) :
    DecidablePred (@KeyChecked ρ β o address s t) :=
  fun _ => inferInstanceAs (Decidable (_ ∧ _ ∧ _ ∧ _ ∧ _))

theorem ServerState.eta {s : ServerState W} {l : Option TokenBucketLimiter} (hl : s.limiter = l) :
    s = ⟨l, s.world⟩ := by
  rw [← hl]

theorem limiter_handle_gated (hgated : req.isGated = true) (l : TokenBucketLimiter) (w : W) :
    (handle o h req ⟨some l, w⟩).2.limiter = some (l.take (req.call o)).2 := by
  rw [handle_gated hgated]
  cases (SorobanLens.gate o req (some l)).1 <;> rfl

theorem allowed_of_handle {l : TokenBucketLimiter} {w : W} (hgated : req.isGated = true)
    (hreply : (handle o h req ⟨some l, w⟩).1.isLimited = false) :
    (l.take (req.call o)).1 = .allowed := by
  cases hverdict : (l.take (req.call o)).1 with
  | allowed => rfl
  | refused r =>
    rw [handle_gated hgated] at hreply
    simp [SorobanLens.gate, hverdict, afterLimiter, HttpReply.isLimited, rateLimited,
      HttpError.tooManyRequests] at hreply

theorem countP_keyChecked (address : String) (s t : ℚ) (l : TokenBucketLimiter) (w : W) :
    (serveAll o h ⟨some l, w⟩ reqs).1.countP (fun x => decide (KeyChecked o address s t x)) ≤
      (verdicts TokenBucketLimiter.take l
        ((reqs.filter (fun r => r.isGated)).map (fun r => r.call o))).countP
          (fun v => decide (v.1.key = address ∧ v.2 = .allowed ∧ s ≤ v.1.now ∧ v.1.now ≤ t)) := by
  induction reqs generalizing l w with
  | nil => simp [serveAll]
  | cons req reqs ih =>
    cases hgated : req.isGated with
    | false =>
      obtain ⟨-, -, hlimiter⟩ := handle_open (o := o) (h := h) hgated (some l) none w
      have hstate : (handle o h req ⟨some l, w⟩).2 =
          ⟨some l, (handle o h req ⟨some l, w⟩).2.world⟩ :=
        ServerState.eta hlimiter
      have hrest := ih l (handle o h req ⟨some l, w⟩).2.world
      rw [← hstate] at hrest
      simp only [serveAll, List.filter_cons, hgated]
      rw [List.countP_cons_of_neg (by simp [KeyChecked, hgated])]
      exact hrest
    | true =>
      have hstate : (handle o h req ⟨some l, w⟩).2 =
          ⟨some (l.take (req.call o)).2, (handle o h req ⟨some l, w⟩).2.world⟩ :=
        ServerState.eta (limiter_handle_gated hgated l w)
      have hrest := ih (l.take (req.call o)).2 (handle o h req ⟨some l, w⟩).2.world
      rw [← hstate] at hrest
      simp only [serveAll, List.filter_cons, hgated, if_true, List.map_cons, verdicts,
        List.countP_cons]
      refine Nat.add_le_add hrest ?_
      by_cases hchecked : KeyChecked o address s t (req, (handle o h req ⟨some l, w⟩).1)
      · have hallowed := allowed_of_handle hgated hchecked.2.2.1
        have hcounted : (req.call o).key = address ∧ (l.take (req.call o)).1 = .allowed ∧
            s ≤ (req.call o).now ∧ (req.call o).now ≤ t :=
          ⟨hchecked.2.1, hallowed, hchecked.2.2.2⟩
        simp [hchecked, hcounted]
      · simp [hchecked]

/-- Whatever a run of requests asks for, an address has no more keys checked in a window than
its bucket holds and gains in it. -/
theorem key_checks_paced {rps : JsNumber} {burst : Option JsNumber} {l : TokenBucketLimiter}
    (hnew : TokenBucketLimiter.new rps burst = .ok l)
    (hclock : reqs.Pairwise (fun p q => p.now ≤ q.now)) (address : String) {s t : ℚ} (hst : s ≤ t)
    (w : W) :
    ((serveAll o h ⟨some l, w⟩ reqs).1.countP (fun x => decide (KeyChecked o address s t x)) : ℚ) ≤
      l.capacity + l.rate * ((t - s) / 1000) := by
  have hcalls : ((reqs.filter (fun r => r.isGated)).map (fun r => r.call o)).Pairwise
      (fun c d => c.now ≤ d.now) := by
    rw [List.pairwise_map]
    exact hclock.filter _
  have hwindow := window_of_new hnew hcalls address hst
  exact le_trans (Nat.cast_le.mpr (countP_keyChecked address s t l w)) hwindow

theorem key_checks_paced_once : ∃ l, TokenBucketLimiter.new (.fin 1) none = .ok l ∧
    ((serveAll lockedOptions countingHandlers ⟨some l, 0⟩
      [eventsWith "9.9.9.9" "guess", eventsWith "9.9.9.9" "other"]).1.countP
        (fun x => decide (KeyChecked lockedOptions "9.9.9.9" 0 1000 x)) : ℚ) ≤
      l.capacity + l.rate * ((1000 - 0) / 1000) := by
  have hnew : ∃ l, TokenBucketLimiter.new (.fin 1) none = .ok l := by
    simp [TokenBucketLimiter.new]
  obtain ⟨l, hl⟩ := hnew
  exact ⟨l, hl, key_checks_paced hl (by simp [eventsWith]) "9.9.9.9" (by norm_num) 0⟩

end Strangers

end SorobanLens
