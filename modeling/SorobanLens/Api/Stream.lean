import SorobanLens.Store.Stability
import SorobanLens.Lib.Transition
import SorobanLens.Api.Params

/-!
`EventStreamHub`: Server-Sent-Event streams over one id each. One timer asks for the
newest stored id and drains the streams behind it; a stream is also drained once
when it opens. A step is what runs between two awaits.
-/

set_option autoImplicit false

namespace SorobanLens

structure StreamOptions where
  maxStreams : Nat := 1000
  batchSize : JsNumber := .ofNat 100
  maxLimit : MaxQueryLimit
  dateParse : String → Option Int

/-- `getLatestEventId`. Ids are compared by code point; those the network gives are
ASCII, which JavaScript and both databases order alike. -/
def EventStore.latest {σ : Type} (E : EventStore σ) (s : σ) : Option String := (E.stored s).max?

def getLatestEventId (db : Db) : Except StoreError (Option String) :=
  match db.events with
  | none => .error (.noSuchTable "events")
  | some t => .ok (t.rows.map EventRow.id).max?

def utf16Length (text : String) : Nat := (text.toList.map (fun c => if 0xFFFF < c.toNat then 2 else 1)).sum

/-- The header, or the parameter for a client that cannot set headers. -/
def lastEventId (header : Option String) (params : Params) : Option String :=
  let value := trimText ((header.or (params.get "lastEventId")).getD "")
  if value ≠ "" ∧ utf16Length value ≤ 200 then some value else none

def streamQuery (o : StreamOptions) (params : Params) : Except ApiError EventQuery := do
  let filter ← parseEventQuery o.dateParse o.maxLimit params
  match given (params.get "contractId") with
  | none => pure filter
  | some contractId => do
    let id ← assertContractId contractId
    pure { filter with contractId := some id }

/-- Where a running `#drain` stands. -/
inductive DrainPoint where
  | looping
  /-- `await this.#store.queryEvents(…)`. -/
  | querying (query : EventQuery)
  /-- `await this.#annotate(page.events)`, which keeps the events and their order. -/
  | annotating (page : EventPage)

structure Drain where
  latest : String
  /-- `#poll` waits for this one. -/
  polled : Bool
  point : DrainPoint

structure Subscriber where
  query : EventQuery
  start : String
  lastId : String
  drain : Option Drain
  /-- `res.destroyed || res.writableEnded`. -/
  ended : Bool
  needDrain : Bool
  written : List String

inductive Polling where
  | idle
  /-- `await this.#store.getLatestEventId()`. -/
  | reading
  | read (latest : String)
  | walking (latest : String) (todo : List Nat)
  /-- `await this.#drain(subscriber, latest)`. -/
  | awaiting (latest : String) (todo : List Nat)

/-- A `subscribe` call that has read where to start. -/
structure Opening where
  query : EventQuery
  start : String

/-- The store and the hub. A subscriber is known by its place in `subs`, where a
closed one stays for whoever still holds it; `members` is `#subscribers`. -/
structure EventStreamHub (σ : Type) where
  store : σ
  subs : List Subscriber
  members : List Nat
  opening : List Opening
  /-- `subscribe` calls at their last await, by subscriber. -/
  catching : List Nat
  /-- Those answered, with the newest id. -/
  caught : List (Nat × String)
  poll : Polling

namespace EventStreamHub

variable {σ : Type}

def Initial (s : EventStreamHub σ) : Prop :=
  s.subs = [] ∧ s.members = [] ∧ s.opening = [] ∧ s.catching = [] ∧ s.caught = [] ∧ s.poll = .idle

def updateSub (s : EventStreamHub σ) (i : Nat) (f : Subscriber → Subscriber) : EventStreamHub σ :=
  { s with subs := s.subs.modify i f }

def join (s : EventStreamHub σ) (query : EventQuery) (start : String) : EventStreamHub σ :=
  { s with
    subs := s.subs ++ [⟨query, start, start, none, false, false, []⟩]
    members := s.members ++ [s.subs.length]
    catching := s.subs.length :: s.catching }

/-- `if (subscriber.draining) return; subscriber.draining = true`. -/
def startDrain (s : EventStreamHub σ) (i : Nat) (sub : Subscriber) (latest : String)
    (polled : Bool) : EventStreamHub σ :=
  if sub.drain.isSome then s
  else s.updateSub i (fun sub => { sub with drain := some ⟨latest, polled, .looping⟩ })

def setPoint (s : EventStreamHub σ) (i : Nat) (d : Drain) (p : DrainPoint) : EventStreamHub σ :=
  s.updateSub i (fun sub => { sub with drain := some { d with point := p } })

/-- `finally { subscriber.draining = false }`, and whoever awaited it goes on. -/
def finish (s : EventStreamHub σ) (i : Nat) (d : Drain) : EventStreamHub σ :=
  let s := s.updateSub i (fun sub => { sub with drain := none })
  match d.polled, s.poll with
  | true, .awaiting latest todo => { s with poll := .walking latest todo }
  | _, _ => s

def drainQuery (o : StreamOptions) (sub : Subscriber) : EventQuery :=
  { sub.query with
    order := some .asc
    direction := some .forward
    limit := some o.batchSize
    skipTotal := some true
    cursor := if sub.lastId = "" then sub.query.cursor else some sub.lastId }

def loop (s : EventStreamHub σ) (o : StreamOptions) (i : Nat) (sub : Subscriber) (d : Drain) :
    EventStreamHub σ :=
  if sub.ended || sub.needDrain then s.finish i d
  else s.setPoint i d (.querying (drainQuery o sub))

/-- The events of a page go out in one turn, and the last one moves the position. -/
def write (s : EventStreamHub σ) (i : Nat) (d : Drain) (page : EventPage) : EventStreamHub σ :=
  let ids := page.events.map LensEvent.id
  let s := s.updateSub i (fun sub =>
    { sub with written := sub.written ++ ids, lastId := ids.getLast?.getD sub.lastId })
  match given page.nextCursor with
  | some _ => s.setPoint i d .looping
  | none =>
    (s.updateSub i (fun sub =>
      if sub.lastId < d.latest then { sub with lastId := d.latest } else sub)).finish i d

def walk (s : EventStreamHub σ) (latest : String) (i : Nat) (todo : List Nat) (sub : Subscriber) :
    EventStreamHub σ :=
  if sub.lastId < latest ∧ sub.drain.isSome = false then
    { s.startDrain i sub latest true with poll := .awaiting latest todo }
  else { s with poll := .walking latest todo }

/-- The ids stored by a batch all exceed those stored before. -/
def Exceeds (E : EventStore σ) (s t : σ) : Prop :=
  ∀ id ∈ E.stored t, id ∉ E.stored s → ∀ x ∈ E.stored s, x < id

/-- One turn of the event loop, or a batch written by the indexer. -/
inductive Step (E : EventStore σ) (o : StreamOptions) :
    EventStreamHub σ → EventStreamHub σ → Prop where
  | insert {s : EventStreamHub σ} {t : σ} : E.Inserted s.store t → Exceeds E s.store t →
      Step E o s { s with store := t }
  /-- `subscribe` with a `Last-Event-ID`. -/
  | resume {s : EventStreamHub σ} {params : Params} {header : Option String} {query : EventQuery}
      {after : String} : streamQuery o params = .ok query →
      lastEventId header params = some after → s.members.length < o.maxStreams →
      Step E o s (s.join query after)
  /-- Without one it starts at the present. -/
  | subscribe {s : EventStreamHub σ} {params : Params} {header : Option String}
      {query : EventQuery} : streamQuery o params = .ok query → lastEventId header params = none →
      s.members.length < o.maxStreams →
      Step E o s { s with opening := ⟨query, (E.latest s.store).getD ""⟩ :: s.opening }
  | opened {s : EventStreamHub σ} {r : Opening} {before after : List Opening} :
      s.opening = before ++ r :: after →
      Step E o s ({ s with opening := before ++ after }.join r.query r.start)
  /-- A `HEAD` request ends here. -/
  | dismissed {s : EventStreamHub σ} {r : Opening} {before after : List Opening} :
      s.opening = before ++ r :: after → Step E o s { s with opening := before ++ after }
  | catchUp {s : EventStreamHub σ} {i : Nat} {latest : String} {before after : List Nat} :
      s.catching = before ++ i :: after → E.latest s.store = some latest →
      Step E o s { s with catching := before ++ after, caught := (i, latest) :: s.caught }
  /-- There is nothing to catch up with, or the query failed. -/
  | caughtNone {s : EventStreamHub σ} {i : Nat} {before after : List Nat} :
      s.catching = before ++ i :: after → Step E o s { s with catching := before ++ after }
  | caughtUp {s : EventStreamHub σ} {i : Nat} {latest : String} {sub : Subscriber}
      {before after : List (Nat × String)} : s.caught = before ++ (i, latest) :: after →
      s.subs[i]? = some sub →
      Step E o s ({ s with caught := before ++ after }.startDrain i sub latest false)
  /-- The timer runs while there are subscribers; `if (this.#polling) return`. -/
  | tick {s : EventStreamHub σ} : s.members ≠ [] → s.poll = .idle →
      Step E o s { s with poll := .reading }
  | readLatest {s : EventStreamHub σ} {latest : String} : s.poll = .reading →
      E.latest s.store = some latest → Step E o s { s with poll := .read latest }
  | readNone {s : EventStreamHub σ} : s.poll = .reading → Step E o s { s with poll := .idle }
  /-- `[...this.#subscribers]`. -/
  | polled {s : EventStreamHub σ} {latest : String} : s.poll = .read latest →
      Step E o s { s with poll := .walking latest s.members }
  | walk {s : EventStreamHub σ} {latest : String} {i : Nat} {todo : List Nat} {sub : Subscriber} :
      s.poll = .walking latest (i :: todo) → s.subs[i]? = some sub →
      Step E o s (s.walk latest i todo sub)
  | walked {s : EventStreamHub σ} {latest : String} : s.poll = .walking latest [] →
      Step E o s { s with poll := .idle }
  | loop {s : EventStreamHub σ} {i : Nat} {sub : Subscriber} {d : Drain} :
      s.subs[i]? = some sub → sub.drain = some d → d.point = .looping →
      Step E o s (s.loop o i sub d)
  | page {s : EventStreamHub σ} {i : Nat} {sub : Subscriber} {d : Drain} {query : EventQuery}
      {page : EventPage} : s.subs[i]? = some sub → sub.drain = some d → d.point = .querying query →
      E.queryEvents query s.store page → Step E o s (s.setPoint i d (.annotating page))
  | write {s : EventStreamHub σ} {i : Nat} {sub : Subscriber} {d : Drain} {page : EventPage} :
      s.subs[i]? = some sub → sub.drain = some d → d.point = .annotating page →
      Step E o s (s.write i d page)
  /-- The query, or the annotation, failed. -/
  | failed {s : EventStreamHub σ} {i : Nat} {sub : Subscriber} {d : Drain} :
      s.subs[i]? = some sub → sub.drain = some d → d.point ≠ .looping → Step E o s (s.finish i d)
  /-- The socket's buffer fills up or drains. -/
  | buffer {s : EventStreamHub σ} (i : Nat) (full : Bool) :
      Step E o s (s.updateSub i (fun sub => { sub with needDrain := full }))
  | disconnect {s : EventStreamHub σ} (i : Nat) :
      Step E o s (s.updateSub i (fun sub => { sub with ended := true }))
  | closed {s : EventStreamHub σ} {i : Nat} {sub : Subscriber} : s.subs[i]? = some sub →
      sub.ended = true → Step E o s { s with members := s.members.filter (fun j => j != i) }
  | closeAll {s : EventStreamHub σ} :
      Step E o s { s with
        subs := s.subs.mapIdx (fun i sub => { sub with ended := sub.ended || s.members.contains i })
        members := [] }

end EventStreamHub

end SorobanLens
