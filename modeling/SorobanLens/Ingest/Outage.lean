import SorobanLens.Ingest.RpcPool
import Mathlib.Logic.Function.Iterate

/-!
Which provider outages a stream over a failover pool lives through: the two
failures that end it, and that it lives through every other one.
-/

set_option autoImplicit false

namespace SorobanLens

/-- Providers that fail only by running out of retries, and whose pages carry a
cursor to ask on from. -/
structure Providers.Exhausting (w : Providers) : Prop where
  getEvents : ∀ t i req e, w.getEvents t i req = .error e → e.exhausted = true
  health : ∀ t i e, w.health t i = .error e → e.exhausted = true
  cursor : ∀ t i req batch, w.getEvents t i req = .ok batch → batch.cursor ≠ ""

namespace PooledStream

variable {w : Providers} {o : PollerOptions} {s : PooledStream} {l : StreamLocals}

def Positioned (saved : Option CursorState) (l : StreamLocals) : Prop :=
  (∃ c, l.cursor = some c ∧ c ≠ "" ∧ saved.isSome = true ∧ l.startLedger = none) ∨
    (l.cursor = none ∧ l.startLedger.isSome = true)

def Placed (saved : Option CursorState) : StreamPhase → Prop
  | .polling l => if l.positionResolved then Positioned saved l else l.cursor = none
  | .asking l => l.positionResolved = true ∧ Positioned saved l
  | .outOfRange l | .askingRetention l => l.positionResolved = true
  | .threw _ | .ended => True

/-- What holds between any two awaits of the stream. -/
structure Sound (s : PooledStream) : Prop where
  saved : ∀ st, s.saved = some st → st.cursor ≠ ""
  placed : Placed s.saved s.phase

/-- The two failures the stream does not live through: of a page asked for by
ledger, when the pool moves to another provider because of it, and of the window
asked for after a cursor fell out of it. -/
def Spared (w : Providers) (o : PollerOptions) (s : PooledStream) : Prop :=
  match s.phase with
  | .asking l => truthy l.cursor = false → s.pool.keepsProvider = false →
      ∀ e, FailoverRpcClient.clientGetEvents w s.pool.ticks s.pool.active
        (getEventsArgs o l (s.saved.map CursorState.ledger)) ≠ .error e
  | .askingRetention _ => ∀ e, w.health s.pool.ticks s.pool.active ≠ .error e
  | _ => True

instance {ε α : Type} (x : Except ε α) : Decidable (∀ e, x ≠ .error e) :=
  match x with
  | .ok _ => isTrue (fun _ h => nomatch h)
  | .error e => isFalse (fun h => h e rfl)

instance (w : Providers) (o : PollerOptions) : DecidablePred (Spared w o)
  | ⟨pool, saved, .asking l⟩ => inferInstanceAs (Decidable (truthy l.cursor = false →
      pool.keepsProvider = false → ∀ e, FailoverRpcClient.clientGetEvents w pool.ticks pool.active
        (getEventsArgs o l (saved.map CursorState.ledger)) ≠ .error e))
  | ⟨pool, _, .askingRetention _⟩ =>
    inferInstanceAs (Decidable (∀ e, w.health pool.ticks pool.active ≠ .error e))
  | ⟨_, _, .polling _⟩ | ⟨_, _, .outOfRange _⟩ | ⟨_, _, .threw _⟩ | ⟨_, _, .ended⟩ => isTrue trivial

/-! ### Errors of the pool -/

theorem exhausted_clientGetEvents (hw : w.Exhausting) {t i : Nat} {args : GetEventsArgs}
    {req : GetEventsRequest} (hreq : getEventsRequest args = .ok req) {e : RpcError}
    (h : FailoverRpcClient.clientGetEvents w t i args = .error e) : e.exhausted = true := by
  unfold FailoverRpcClient.clientGetEvents at h
  rw [hreq] at h
  exact hw.getEvents t i req e h

theorem cursor_clientGetEvents (hw : w.Exhausting) {t i : Nat} {args : GetEventsArgs}
    {batch : EventBatch} (h : FailoverRpcClient.clientGetEvents w t i args = .ok batch) :
    batch.cursor ≠ "" := by
  unfold FailoverRpcClient.clientGetEvents at h
  split at h
  · cases h
  · exact hw.cursor _ _ _ _ h

theorem cursor_getEventsOfActive (hw : w.Exhausting) {p p' : FailoverRpcClient}
    {args : GetEventsArgs} {batch : EventBatch}
    (h : p.getEventsOfActive w args = (.ok batch, p')) : batch.cursor ≠ "" := by
  unfold FailoverRpcClient.getEventsOfActive at h
  split at h
  · rename_i hok
    cases h
    exact cursor_clientGetEvents hw hok
  · split at h
    · cases h
    · unfold FailoverRpcClient.getEventsOfNext at h
      simp only at h
      split at h
      · split at h
        · rename_i hok
          cases h
          exact cursor_clientGetEvents hw hok
        · split at h
          · obtain ⟨hok, -⟩ := Prod.mk.inj h
            exact cursor_clientGetEvents hw hok
          · cases h
      · cases h

/-- With a cursor in hand, and a ledger saved with it, every failure of a page is
one the stream knows. -/
theorem exhausted_of_cursor (hw : w.Exhausting) {p p' : FailoverRpcClient}
    {saved : Option CursorState} {c : String} (hc : l.cursor = some c) (hne : c ≠ "")
    (hsaved : saved.isSome = true) {e : RpcError}
    (h : p.getEventsOfActive w (getEventsArgs o l (saved.map CursorState.ledger)) = (.error e, p')) :
    e.exhausted = true := by
  have hreq : getEventsRequest (getEventsArgs o l (saved.map CursorState.ledger)) = .ok _ :=
    getEventsRequest_ofCursor hc hne
  have htruthy : truthy l.cursor = true := by simp [hc, truthy, hne]
  obtain ⟨st, rfl⟩ := Option.isSome_iff_exists.mp hsaved
  obtain ⟨ledger, hledger⟩ : ∃ ledger,
      (getEventsArgs o l (some st.ledger)).fallbackLedger = some ledger := by
    simp only [getEventsArgs, htruthy, if_true]
    cases l.startLedger <;> simp
  have hcursor : truthy (getEventsArgs o l (some st.ledger)).cursor = true := by
    simp only [getEventsArgs, htruthy, if_true]
  simp only [Option.map_some] at h hreq
  unfold FailoverRpcClient.getEventsOfActive at h
  split at h
  · cases h
  · rename_i hfirst
    split at h
    · cases h
      exact exhausted_clientGetEvents hw hreq hfirst
    · simp only [FailoverRpcClient.getEventsOfNext, hcursor, if_true, hledger] at h
      split at h
      · cases h
      · obtain ⟨hlast, -⟩ := Prod.mk.inj h
        exact exhausted_clientGetEvents hw (by rfl) hlast

theorem error_of_ledger (hw : w.Exhausting) {p : FailoverRpcClient}
    {saved : Option Nat} (hc : l.cursor = none) (hl : l.startLedger.isSome = true)
    {e : RpcError}
    (h : FailoverRpcClient.clientGetEvents w p.ticks p.active (getEventsArgs o l saved) = .error e) :
    ∃ e', (p.getEventsOfActive w (getEventsArgs o l saved)).1 = .error e' ∧
      e'.exhausted = p.keepsProvider := by
  obtain ⟨ledger, hledger⟩ := Option.isSome_iff_exists.mp hl
  have hreq : getEventsRequest (getEventsArgs o l saved) = .ok _ :=
    getEventsRequest_ofRange hc hledger
  have hcursor : truthy (getEventsArgs o l saved).cursor = false := by
    simp [getEventsArgs, hc, truthy]
  simp only [FailoverRpcClient.getEventsOfActive, h]
  cases hkeep : p.keepsProvider with
  | true => exact ⟨e, by simp, exhausted_clientGetEvents hw hreq h⟩
  | false =>
    simp only [Bool.false_eq_true, if_false, FailoverRpcClient.getEventsOfNext, hcursor]
    exact ⟨_, rfl, rfl⟩

theorem ok_of_client_ok {p : FailoverRpcClient} {args : GetEventsArgs} {batch : EventBatch}
    (h : FailoverRpcClient.clientGetEvents w p.ticks p.active args = .ok batch) :
    (p.getEventsOfActive w args).1 = .ok batch := by
  simp only [FailoverRpcClient.getEventsOfActive, h]

/-! ### Steps -/

theorem hasThrown_caught (e : RpcError) (hc : l.cursor = none) :
    (caught l e).hasThrown = !e.exhausted := by
  unfold caught
  simp only [hc, truthy, Option.any_none, Bool.false_and, Bool.false_eq_true, if_false]
  cases e.exhausted <;> rfl

theorem hasThrown_caught_of_exhausted {e : RpcError} (h : e.exhausted = true) :
    (caught l e).hasThrown = false := by
  unfold caught
  split <;> rfl

theorem placed_caught {saved : Option CursorState} (e : RpcError) (h : Placed saved (.polling l))
    (hl : truthy l.cursor = true → l.positionResolved = true) : Placed saved (caught l e) := by
  unfold caught
  split
  · rename_i hout
    exact hl (Bool.and_eq_true_iff.mp hout).1
  · split
    · exact h
    · trivial

theorem Sound.resolve (hsaved : ∀ st, s.saved = some st → st.cursor ≠ "") (hc : l.cursor = none)
    (hl : l.positionResolved = false) : (s.resolve w o l).Sound := by
  cases hst : s.saved with
  | none =>
    cases hr : (s.pool.retention w).1 with
    | ok window =>
      have hnext : s.resolve w o l =
          ⟨(s.pool.retention w).2, none, .polling (resolveStart o none window l)⟩ := by
        simp only [PooledStream.resolve, hst, hr]
      rw [hnext]
      exact ⟨by simp, .inr ⟨rfl, rfl⟩⟩
    | error e =>
      have hnext : s.resolve w o l = ⟨(s.pool.retention w).2, none, caught l e⟩ := by
        simp only [PooledStream.resolve, hst, hr]
      rw [hnext]
      refine ⟨by simp, placed_caught e ?_ (by simp [hc, truthy])⟩
      simp [Placed, hl, hc]
  | some st =>
    obtain ⟨window, hnext⟩ : ∃ window, s.resolve w o l =
        ⟨(s.pool.retention w).2, some st, .polling (resolveStart o (some st) window l)⟩ := by
      cases hr : (s.pool.retention w).1 with
      | ok window => exact ⟨window, by simp only [PooledStream.resolve, hst, hr]⟩
      | error e => exact ⟨⟨0, 0⟩, by simp only [PooledStream.resolve, hst, hr]⟩
    rw [hnext]
    rw [hst] at hsaved
    exact ⟨hsaved, .inl ⟨st.cursor, rfl, hsaved st rfl, rfl, rfl⟩⟩

theorem Sound.receive {now : String} {batch : EventBatch} (hl : l.positionResolved = true)
    (hcursor : batch.cursor ≠ "") : (s.receive o now l batch).Sound := by
  constructor
  · intro st hst
    obtain rfl := Option.some.inj hst
    exact hcursor
  · unfold PooledStream.receive
    simp only
    split
    · trivial
    · simp only [Placed, advance, hl, if_true]
      exact .inl ⟨batch.cursor, rfl, hcursor, rfl, rfl⟩

theorem Sound.next (hw : w.Exhausting) (h : s.Sound) : (s.next w o).Sound := by
  have hplaced := h.placed
  unfold PooledStream.next
  split
  · rename_i l hphase
    rw [hphase] at hplaced
    split
    · rename_i hl
      simp only [Placed, hl, if_true] at hplaced
      exact ⟨h.saved, hl, hplaced⟩
    · rename_i hl
      simp only [Placed, hl] at hplaced
      exact Sound.resolve h.saved hplaced (Bool.not_eq_true _ ▸ hl)
  · rename_i l hphase
    rw [hphase] at hplaced
    obtain ⟨hl, hpos⟩ := hplaced
    simp only
    split
    · rename_i batch hok
      exact Sound.receive hl (cursor_getEventsOfActive hw (Prod.ext hok rfl))
    · rename_i e _
      refine ⟨h.saved, placed_caught e ?_ (fun _ => hl)⟩
      simpa only [Placed, hl, if_true] using hpos
  · rename_i l hphase
    rw [hphase] at hplaced
    exact ⟨h.saved, hplaced⟩
  · rename_i l hphase
    rw [hphase] at hplaced
    have hl : l.positionResolved = true := hplaced
    simp only
    split
    · refine ⟨by simp, ?_⟩
      simp only [Placed, restartAt, hl, if_true]
      exact .inr ⟨rfl, rfl⟩
    · exact ⟨h.saved, trivial⟩
  · exact h
  · exact h

theorem hasThrown_resolve (hw : w.Exhausting) : (s.resolve w o l).phase.hasThrown = false := by
  cases hst : s.saved with
  | some st => cases hr : (s.pool.retention w).1 <;> simp only [PooledStream.resolve, hst, hr] <;> rfl
  | none =>
    cases hr : (s.pool.retention w).1 with
    | ok window =>
      simp only [PooledStream.resolve, hst, hr]
      rfl
    | error e =>
      simp only [PooledStream.resolve, hst, hr]
      refine hasThrown_caught_of_exhausted ?_
      unfold FailoverRpcClient.retention FailoverRpcClient.retentionOfActive at hr
      split at hr
      · cases hr
      · rename_i herr
        cases hr
        exact hw.health _ _ _ herr

theorem hasThrown_receive {now : String} {batch : EventBatch} :
    (s.receive o now l batch).phase.hasThrown = false := by
  unfold PooledStream.receive
  simp only
  split <;> rfl

/-- Asking for a page throws exactly in the first of the two failures. -/
theorem asking_hasThrown_iff (hw : w.Exhausting) (hphase : s.phase = .asking l)
    (hpos : Positioned s.saved l) : (s.next w o).phase.hasThrown = false ↔ Spared w o s := by
  have hspared : Spared w o s ↔ (truthy l.cursor = false → s.pool.keepsProvider = false →
      ∀ e, FailoverRpcClient.clientGetEvents w s.pool.ticks s.pool.active
        (getEventsArgs o l (s.saved.map CursorState.ledger)) ≠ .error e) := by
    simp only [Spared, hphase]
  rw [hspared]
  cases hr : (s.pool.getEventsOfActive w
      (getEventsArgs o l (s.saved.map CursorState.ledger))).1 with
  | ok batch =>
    have hnext : (s.next w o).phase.hasThrown = false := by
      simp only [PooledStream.next, hphase, hr]
      exact hasThrown_receive
    refine iff_of_true hnext ?_
    intro hc _ e he
    rcases hpos with ⟨c, hc', hne, -⟩ | ⟨hc', hl⟩
    · simp [hc', truthy, hne] at hc
    · obtain ⟨e', he', -⟩ := error_of_ledger hw hc' hl he
      rw [hr] at he'
      cases he'
  | error e =>
    have hnext : (s.next w o).phase = caught l e := by
      simp only [PooledStream.next, hphase, hr]
    rw [hnext]
    rcases hpos with ⟨c, hc, hne, hsaved, -⟩ | ⟨hc, hl⟩
    · have hexh := exhausted_of_cursor hw hc hne hsaved (Prod.ext hr rfl)
      refine iff_of_true (hasThrown_caught_of_exhausted hexh) ?_
      intro htruthy
      simp [hc, truthy, hne] at htruthy
    · have hcursor : truthy l.cursor = false := by simp [hc, truthy]
      obtain ⟨e₀, he₀⟩ : ∃ e₀, FailoverRpcClient.clientGetEvents w s.pool.ticks s.pool.active
          (getEventsArgs o l (s.saved.map CursorState.ledger)) = .error e₀ := by
        cases hclient : FailoverRpcClient.clientGetEvents w s.pool.ticks s.pool.active
            (getEventsArgs o l (s.saved.map CursorState.ledger)) with
        | error e₀ => exact ⟨e₀, rfl⟩
        | ok batch =>
          rw [ok_of_client_ok hclient] at hr
          cases hr
      obtain ⟨e', he', hkeep⟩ := error_of_ledger hw hc hl he₀
      obtain rfl : e' = e := by
        rw [hr] at he'
        exact (Except.error.inj he').symm
      rw [hasThrown_caught e' hc, hkeep]
      cases s.pool.keepsProvider with
      | true => simp
      | false => simpa [hcursor] using ⟨e₀, he₀⟩

/-- The next step throws exactly when it is not spared. -/
theorem next_hasThrown_iff (hw : w.Exhausting) (h : s.Sound) (hs : s.phase.hasThrown = false) :
    (s.next w o).phase.hasThrown = false ↔ Spared w o s := by
  cases hphase : s.phase with
  | polling l =>
    refine iff_of_true ?_ (by simp only [Spared, hphase])
    simp only [PooledStream.next, hphase]
    split
    · rfl
    · exact hasThrown_resolve hw
  | asking l =>
    have hplaced := h.placed
    rw [hphase] at hplaced
    exact asking_hasThrown_iff hw hphase hplaced.2
  | outOfRange l =>
    refine iff_of_true ?_ (by simp only [Spared, hphase])
    simp only [PooledStream.next, hphase]
    rfl
  | askingRetention l =>
    simp only [Spared, hphase, PooledStream.next, FailoverRpcClient.retentionOfActive]
    cases w.health s.pool.ticks s.pool.active with
    | ok window => simp [StreamPhase.hasThrown]
    | error e => simp [StreamPhase.hasThrown]
  | threw e =>
    rw [hphase] at hs
    cases hs
  | ended =>
    refine iff_of_true ?_ (by simp only [Spared, hphase])
    simp only [PooledStream.next, hphase]
    rfl

/-! ### Runs -/

theorem sound_start (o : PollerOptions) (pool : FailoverRpcClient) {saved : Option CursorState}
    (h : ∀ st, saved = some st → st.cursor ≠ "") : (start o pool saved).Sound :=
  ⟨h, rfl⟩

theorem Sound.after (hw : w.Exhausting) (h : s.Sound) (n : Nat) : (s.after w o n).Sound := by
  induction n with
  | zero => exact h
  | succ n ih =>
    rw [PooledStream.after, Function.iterate_succ_apply']
    exact ih.next hw

/-- A stream over a pool, whatever its URLs, threshold and state, never throws
exactly when every step of it is spared. -/
theorem never_throws_iff (pool : FailoverRpcClient) (hw : w.Exhausting)
    {saved : Option CursorState} (hsaved : ∀ st, saved = some st → st.cursor ≠ "") :
    (∀ n, ((start o pool saved).after w o n).phase.hasThrown = false) ↔
      ∀ n, Spared w o ((start o pool saved).after w o n) := by
  have hsound := fun n => (sound_start o pool hsaved).after (o := o) hw n
  have hsucc : ∀ n, (start o pool saved).after w o (n + 1) =
      ((start o pool saved).after w o n).next w o :=
    fun n => Function.iterate_succ_apply' _ _ _
  constructor
  · intro h n
    have hnext := h (n + 1)
    rw [hsucc] at hnext
    exact (next_hasThrown_iff hw (hsound n) (h n)).mp hnext
  · intro h n
    induction n with
    | zero => rfl
    | succ n ih =>
      rw [hsucc]
      exact (next_hasThrown_iff hw (hsound n) ih).mpr (h n)

def failingPages : Providers where
  getEvents _ _ _ := .error ⟨true, none, "Gave up after 5 attempt(s): fetch failed"⟩
  health _ _ := .ok ⟨10, 1⟩
  dateNow _ := 1700000000000
  isoNow _ := "2023-11-14T22:13:20.000Z"

theorem exhausting_failingPages : failingPages.Exhausting where
  getEvents := by
    intro t i req e h
    cases h
    rfl
  health := by
    intro t i e h
    cases h
  cursor := by
    intro t i req batch h
    cases h

def twoProviders : FailoverRpcClient where
  urls := ["https://a.example", "https://b.example"]
  threshold := .ofNat 3
  recoveryMs := .ofNat 10000
  active := 0
  errors := 0
  lastRecoveryCheck := 0
  ticks := 0

def firstWithoutCursors : Providers where
  getEvents _ i req :=
    match i, req with
    | 0, .ofRange .. => .ok
      ⟨[⟨"a", .contract, 5, "1970-01-01T00:00:00Z", "C", [], "", "00", 0, 0, true⟩], "c", 10, 1⟩
    | 0, .ofCursor .. => .error ⟨true, none, "Gave up after 5 attempt(s): fetch failed"⟩
    | _, _ => .ok ⟨[], "d", 10, 1⟩
  health _ _ := .ok ⟨10, 1⟩
  dateNow _ := 1700000000000
  isoNow _ := "2023-11-14T22:13:20.000Z"

theorem exhausting_firstWithoutCursors : firstWithoutCursors.Exhausting where
  getEvents := by
    intro t i req e h
    simp only [firstWithoutCursors] at h
    split at h
    · cases h
    · cases h
      rfl
    · cases h
  health := by
    intro t i e h
    cases h
  cursor := by
    intro t i req batch h
    simp only [firstWithoutCursors] at h
    split at h
    · cases h
      decide
    · cases h
    · cases h
      decide

def eventByEvent : PollerOptions :=
  { contractIds := [], endLedger := some 10, pageSize := some (.ofNat 1) }

theorem after_of_hasEnded {m n : Nat} (h : (s.after w o m).phase.hasEnded = true) (hle : m ≤ n) :
    s.after w o n = s.after w o m := by
  obtain ⟨k, rfl⟩ := Nat.exists_eq_add_of_le' hle
  have hfixed : (s.after w o m).next w o = s.after w o m := by
    unfold PooledStream.next
    cases hphase : (s.after w o m).phase with
    | ended | threw e => rfl
    | polling l | asking l | outOfRange l | askingRetention l =>
      rw [hphase] at h
      cases h
  rw [PooledStream.after, Function.iterate_add_apply]
  exact Function.iterate_fixed hfixed k

/-- The provider in use fails three pages asked for by cursor: the pool moves to the other
and the stream ends well. -/
theorem never_throws_iff_two_providers :
    ((start eventByEvent twoProviders none).after firstWithoutCursors eventByEvent 9).pool.active =
        1 ∧
      ∀ n, ((start eventByEvent twoProviders none).after firstWithoutCursors eventByEvent
        n).phase.hasThrown = false := by
  refine ⟨by decide +kernel, ?_⟩
  refine (never_throws_iff twoProviders exhausting_firstWithoutCursors (by simp)).mpr ?_
  have hrun : ∀ n < 10, Spared firstWithoutCursors eventByEvent
      ((start eventByEvent twoProviders none).after firstWithoutCursors eventByEvent n) := by
    decide +kernel
  intro n
  by_cases hn : n < 10
  · exact hrun n hn
  · rw [after_of_hasEnded (m := 9) (by decide +kernel) (by omega)]
    exact hrun 9 (by omega)

/-- The third failure before any page ends the stream. -/
theorem throws_before_first_page :
    FailoverRpcClient.new { rpcUrls := ["https://a.example", "https://b.example"] } =
        .ok twoProviders ∧ failingPages.Exhausting ∧
      ((start { contractIds := [] } twoProviders none).after failingPages
        { contractIds := [] } 7).phase.hasThrown = true := by
  refine ⟨?_, exhausting_failingPages, ?_⟩
  · have hurls : ["https://a.example", "https://b.example"].eraseDups =
        ["https://a.example", "https://b.example"] := by decide +kernel
    have hthreshold : JsNumber.max (.ofNat 1) (.ofNat 3) = .ofNat 3 := by decide +kernel
    have hrecovery : JsNumber.max (.ofNat 0) (.ofNat 10000) = .ofNat 10000 := by decide +kernel
    simp [FailoverRpcClient.new, hurls, hthreshold, hrecovery, twoProviders]
  · decide +kernel

end PooledStream

end SorobanLens
