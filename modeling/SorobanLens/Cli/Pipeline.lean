import SorobanLens.Ingest.Node
import SorobanLens.Store.Effects
import SorobanLens.Lib.Transition

/-!
The poller writing into the store, with the cursor kept in the same database. A
step is what happens between two awaits; the process may die between any two.
-/

set_option autoImplicit false

namespace SorobanLens

/-! ### `StoreBackedCursors` -/

/-- An empty cursor is the tombstone `clear` leaves behind. -/
def loadCursor (key : String) (db : Db) : Except StoreError (Option CursorState) :=
  (loadStreamState key db).map (fun state =>
    match state with
    | none => none
    | some st => if st.cursor = "" then none else some ⟨st.cursor, st.ledger, st.updatedAt, none⟩)

def saveCursor (key : String) (state : CursorState) (db : Db) : Except StoreError Unit × Db :=
  saveStreamState ⟨key, state.cursor, state.ledger, state.updatedAt⟩ db

def clearCursor (key now : String) (db : Db) : Except StoreError Unit × Db :=
  saveStreamState ⟨key, "", 0, now⟩ db

theorem loadCursor_congr {key : String} {db db' : Db} (h : db'.streamState = db.streamState) :
    loadCursor key db' = loadCursor key db := by
  simp [loadCursor, loadStreamState_congr h]

theorem loadCursor_some {key : String} {db : Db} {st : CursorState} :
    loadCursor key db = .ok (some st) ↔
      ∃ state, loadStreamState key db = .ok (some state) ∧ state.cursor ≠ "" ∧
        st = ⟨state.cursor, state.ledger, state.updatedAt, none⟩ := by
  simp only [loadCursor, map_eq_ok]
  constructor
  · rintro ⟨state, hl, hs⟩
    cases state with
    | none => cases hs
    | some state =>
      simp only at hs
      split at hs
      · cases hs
      · rename_i hne
        cases hs
        exact ⟨state, hl, hne, rfl⟩
  · rintro ⟨state, hl, hne, rfl⟩
    exact ⟨some state, hl, by simp [hne]⟩

theorem saveCursor_ok {key : String} {state : CursorState} {db db' : Db}
    (h : saveCursor key state db = (.ok (), db')) :
    db'.events = db.events ∧
      ∀ st, loadCursor key db' = .ok (some st) → st.cursor = state.cursor := by
  obtain ⟨he, hl⟩ := saveStreamState_ok h
  refine ⟨he, ?_⟩
  intro st hst
  obtain ⟨state', hl', -, rfl⟩ := loadCursor_some.mp hst
  rw [hl] at hl'
  cases hl'
  rfl

theorem clearCursor_ok {key now : String} {db db' : Db}
    (h : clearCursor key now db = (.ok (), db')) :
    db'.events = db.events ∧ loadCursor key db' = .ok none := by
  obtain ⟨he, hl⟩ := saveStreamState_ok h
  exact ⟨he, by simp [loadCursor, hl, Except.map]⟩

/-! ### The system -/

structure PipelineConfig where
  rt : Runtime
  build : SqliteBuild
  node : Node
  options : PollerOptions
  key : String

/-- Where the process stands. A page in hand comes with the places it covers. -/
inductive Phase where
  /-- No process: not started, ended, or dead. -/
  | stopped
  | polling (l : StreamLocals)
  /-- Suspended at the yield; the consumer holds the batch. -/
  | yielded (l : StreamLocals) (batch : EventBatch) (p q : Nat)
  /-- Back from the yield, or with nothing to yield; about to save. -/
  | resumed (l : StreamLocals) (batch : EventBatch) (p q : Nat)

structure Pipeline where
  history : List RawEvent
  db : Db
  phase : Phase
  /-- Where the walk behind the stream's position began. -/
  origin : Nat
  /-- Where the walk behind the saved cursor began. -/
  savedOrigin : Nat
  /-- The places of the history some stream has moved past. -/
  passed : Nat → Prop

inductive Pipeline.Step (cfg : PipelineConfig) : Pipeline → Pipeline → Prop where
  | emit {s : Pipeline} (e : RawEvent) (he : e.type.admitted = true) :
      Step cfg s { s with history := s.history ++ [e] }
  | start {s : Pipeline} {db' : Db} (hp : s.phase = .stopped)
      (hm : migrateSync cfg.build s.db = (.ok (), db')) :
      Step cfg s { s with db := db', phase := .polling (initialLocals cfg.options) }
  | resolve {s : Pipeline} {l : StreamLocals} {saved : Option CursorState}
      (window : RetentionState) (hp : s.phase = .polling l) (hr : l.positionResolved = false)
      (hl : loadCursor cfg.key s.db = .ok saved) :
      Step cfg s { s with
        phase := .polling (resolveStart cfg.options saved window l)
        origin := s.savedOrigin }
  /-- `getEvents` succeeds; a page with nothing fresh is not yielded. -/
  | page {s : Pipeline} {l : StreamLocals} {req : GetEventsRequest} {q : Nat}
      (batch : EventBatch) (savedLedger : Option Nat) (hp : s.phase = .polling l)
      (hr : l.positionResolved = true)
      (hreq : getEventsRequest (getEventsArgs cfg.options l savedLedger) = .ok req)
      (hs : cfg.node.Serves s.history req batch q) :
      Step cfg s { s with
        phase :=
          if (turn cfg.options l.seen batch).fresh = [] then
            .resumed l batch (cfg.node.start s.history req) q
          else .yielded l batch (cfg.node.start s.history req) q
        origin := if truthy l.cursor then s.origin else cfg.node.start s.history req }
  /-- `getEvents` or `getHealth` gives up; the loop sleeps and tries again. -/
  | exhausted {s : Pipeline} {l : StreamLocals} (err : RpcError) (hp : s.phase = .polling l)
      (hx : err.exhausted = true) (hc : (truthy l.cursor && isCursorOutOfRange err) = false) :
      Step cfg s s
  /-- The position is gone; the saved cursor is cleared and the walk starts over. -/
  | outOfRange {s : Pipeline} {l : StreamLocals} {db' : Db} (err : RpcError)
      (window : RetentionState) (now : String) (hp : s.phase = .polling l)
      (hr : l.positionResolved = true)
      (hc : (truthy l.cursor && isCursorOutOfRange err) = true)
      (hd : clearCursor cfg.key now s.db = (.ok (), db')) :
      Step cfg s { s with db := db', phase := .polling (restartAt window.oldestLedger l) }
  | insert {s : Pipeline} {l : StreamLocals} {batch : EventBatch} {p q n : Nat} {db' : Db}
      (now : Nat → String) (hp : s.phase = .yielded l batch p q)
      (hi : insertEvents cfg.rt cfg.build now (turn cfg.options l.seen batch).fresh s.db =
        (.ok n, db')) :
      Step cfg s { s with db := db', phase := .resumed l batch p q }
  | insertFails {s : Pipeline} {l : StreamLocals} {batch : EventBatch} {p q : Nat} {db' : Db}
      {err : StoreError} (now : Nat → String) (hp : s.phase = .yielded l batch p q)
      (hi : insertEvents cfg.rt cfg.build now (turn cfg.options l.seen batch).fresh s.db =
        (.error err, db')) :
      Step cfg s { s with db := db', phase := .stopped }
  | save {s : Pipeline} {l : StreamLocals} {batch : EventBatch} {p q : Nat} {db' : Db}
      (now : String) (hp : s.phase = .resumed l batch p q)
      (hd : saveCursor cfg.key (cursorState batch (turn cfg.options l.seen batch) now) s.db =
        (.ok (), db')) :
      Step cfg s { s with
        db := db'
        phase :=
          if (turn cfg.options l.seen batch).progress.reachedEndLedger then .stopped
          else .polling (advance l batch (turn cfg.options l.seen batch))
        savedOrigin := s.origin
        passed := fun i => s.passed i ∨ (p ≤ i ∧ i < q) }
  | stop {s : Pipeline} : Step cfg s { s with phase := .stopped }

/-- A store no stream has run on under this key, or one whose saved cursor stands
inside the history with nothing promised about what lies before it. -/
structure Pipeline.Initial (cfg : PipelineConfig) (s : Pipeline) : Prop where
  history : ∀ e ∈ s.history, e.type.admitted = true
  phase : s.phase = .stopped
  saved : ∀ st, loadCursor cfg.key s.db = .ok (some st) →
    cfg.node.position st.cursor ≤ s.history.length ∧ cfg.node.position st.cursor ≤ s.savedOrigin
  passed : ∀ i, ¬ s.passed i

end SorobanLens
