import SorobanLens.Ingest.CursorFile
import SorobanLens.Ingest.SavedLedger

/-!
The key a poller keeps its position under by default, and two pollers run one
after the other over one cursor store: what the position the first left behind
makes the second pass over.
-/

set_option autoImplicit false

namespace SorobanLens

/-! ### Keys -/

/-- `host` is the host `new URL(url)` finds, if it takes the text at all. -/
def safeHost (host : String → Option String) (url : String) : String :=
  match host url with
  | some name => String.ofList (name.toList.flatMap sanitiseChar)
  | none => "rpc"

/-- FNV-1a over UTF-16 units, 32 bits. -/
def fnv1a (units : List Nat) : Nat :=
  units.foldl (fun h c => (h ^^^ c) * 0x01000193 % 2 ^ 32) 0x811c9dc5

def shortHash (input : String) : String :=
  String.ofList (List.leftpad 8 '0' (Nat.toDigits 16 (fnv1a (utf16 input))))

def joinedIds (contractIds : List String) : String :=
  let ids := ",".intercalate (contractIds.mergeSort (fun a b => !decide (utf16 b < utf16 a)))
  if ids = "" then "all-contracts" else ids

def defaultCursorKey (host : String → Option String) (rpcUrl : String)
    (contractIds : List String) : String :=
  safeHost host rpcUrl ++ "-" ++ shortHash (joinedIds contractIds)

def hexDigit (c : Char) : Nat := if c.isDigit then c.toNat - 48 else c.toNat - 87

def hexValue (cs : List Char) : Nat := cs.foldl (fun v c => 16 * v + hexDigit c) 0

theorem hexDigit_digitChar {d : Nat} (h : d < 16) : hexDigit d.digitChar = d := by
  have hall : ∀ d < 16, hexDigit (Nat.digitChar d) = d := by decide
  exact hall d h

theorem hexValue_append (cs : List Char) (c : Char) :
    hexValue (cs ++ [c]) = 16 * hexValue cs + hexDigit c := by
  simp [hexValue]

theorem hexValue_toDigits (n : Nat) : hexValue (Nat.toDigits 16 n) = n := by
  induction n using Nat.strongRecOn with
  | ind n ih =>
    by_cases h : n < 16
    · rw [Nat.toDigits_of_lt_base h]
      simp [hexValue, hexDigit_digitChar h]
    · have htail := ih (n / 16) (by omega)
      have hlast := hexDigit_digitChar (Nat.mod_lt n (by omega : 0 < 16))
      rw [Nat.toDigits_of_base_le (by omega) (by omega), hexValue_append, htail, hlast]
      omega

theorem hexValue_leftpad (k : Nat) (cs : List Char) :
    hexValue (List.leftpad k '0' cs) = hexValue cs := by
  unfold List.leftpad
  induction k - cs.length with
  | zero => rfl
  | succ m ih =>
    rw [List.replicate_succ, List.cons_append]
    exact ih

theorem shortHash_eq_iff (a b : String) :
    shortHash a = shortHash b ↔ fnv1a (utf16 a) = fnv1a (utf16 b) := by
  constructor
  · intro h
    have hlist := congrArg (fun s : String => hexValue s.toList) h
    simpa only [shortHash, String.toList_ofList, hexValue_leftpad, hexValue_toDigits] using hlist
  · intro h
    rw [shortHash, shortHash, h]

/-- Two sets of contracts share a key on one node exactly when their hashes collide. -/
theorem defaultCursorKey_eq_iff (host : String → Option String) (rpcUrl : String)
    (ids ids' : List String) :
    defaultCursorKey host rpcUrl ids = defaultCursorKey host rpcUrl ids' ↔
      fnv1a (utf16 (joinedIds ids)) = fnv1a (utf16 (joinedIds ids')) := by
  rw [← shortHash_eq_iff]
  constructor
  · intro h
    have hlist := congrArg String.toList h
    simp only [defaultCursorKey, String.toList_append] at hlist
    exact String.toList_inj.mp (List.append_cancel_left hlist)
  · intro h
    rw [defaultCursorKey, defaultCursorKey, h]

namespace CursorKey

/-! ### Two pollers over one store -/

inductive Phase where
  | stopped
  | polling (l : StreamLocals)
  /-- The page was yielded, as far as it was fresh; its cursor is not saved yet. -/
  | holding (l : StreamLocals) (batch : EventBatch) (q : Nat)

/-- The node's history, the cursor store and the one poller that runs on them. -/
structure System where
  history : List RawEvent
  cursors : String → Option CursorState
  phase : Phase
  /-- The ids of every event this poller yielded. -/
  yielded : List String
  /-- Where the ledgers this poller was asked for begin, as far as the node still
  holds them. -/
  lowest : Nat

def put (cursors : String → Option CursorState) (key : String) (state : Option CursorState) :
    String → Option CursorState := fun k => if k = key then state else cursors k

def startOf (o : PollerOptions) (window : RetentionState) : Nat :=
  min (max (o.startLedger.getD window.oldestLedger) window.oldestLedger) window.latestLedger

inductive Step (node : Node) (key : String) (o : PollerOptions) : System → System → Prop where
  | close {s : System} (events : List RawEvent) :
      Step node key o s { s with history := s.history ++ events }
  | resolve {s : System} {l : StreamLocals} (window : RetentionState) (hp : s.phase = .polling l)
      (hr : l.positionResolved = false) :
      Step node key o s { s with
        phase := .polling (resolveStart o (s.cursors key) window l)
        lowest := startOf o window }
  | page {s : System} {l : StreamLocals} {req : GetEventsRequest} {q : Nat} (batch : EventBatch)
      (hp : s.phase = .polling l) (hr : l.positionResolved = true)
      (hreq : getEventsRequest (getEventsArgs o l ((s.cursors key).map CursorState.ledger)) = .ok req)
      (hs : node.Covers s.history req batch q) :
      Step node key o s { s with
        phase := .holding l batch q
        yielded := s.yielded ++ (turn o l.seen batch).fresh.map RawEvent.id }
  /-- What lies below the window is the node's loss. -/
  | outOfRange {s : System} {l : StreamLocals} (err : RpcError) (window : RetentionState)
      (hp : s.phase = .polling l) (hr : l.positionResolved = true)
      (hc : (truthy l.cursor && isCursorOutOfRange err) = true) :
      Step node key o s { s with
        cursors := put s.cursors key none
        phase := .polling (restartAt window.oldestLedger l)
        lowest := max s.lowest window.oldestLedger }
  | save {s : System} {l : StreamLocals} {batch : EventBatch} {q : Nat} (now : String)
      (hp : s.phase = .holding l batch q) :
      Step node key o s { s with
        cursors := put s.cursors key (some (cursorState batch (turn o l.seen batch) now))
        phase :=
          if (turn o l.seen batch).progress.reachedEndLedger then .stopped
          else .polling (advance l batch (turn o l.seen batch)) }
  | stop {s : System} : Step node key o s { s with phase := .stopped }

/-- Another poller takes over the store: it has yielded nothing, and resolves where
it starts while the node keeps `window`. -/
def System.restart (s : System) (key : String) (o : PollerOptions) (window : RetentionState) :
    System :=
  { s with
    phase := .polling (resolveStart o (s.cursors key) window (initialLocals o))
    yielded := []
    lowest := startOf o window }

def Wanted (node : Node) (o : PollerOptions) (lowest : Nat) (e : RawEvent) : Prop :=
  node.selects o.filters e = true ∧ lowest ≤ e.ledger ∧ ∀ l, o.endLedger = some l → e.ledger ≤ l

/-- The place in the history a poller will not go back behind. -/
def System.place (node : Node) (key : String) (s : System) : Nat :=
  match s.phase with
  | .stopped => ((s.cursors key).map (fun st => node.position st.cursor)).getD 0
  | .polling l =>
    match l.cursor with
    | some cursor => node.position cursor
    | none => ledgerIndex s.history (l.startLedger.getD 0)
  | .holding _ _ q => q

/-- Every wanted event behind the poller was yielded. -/
def NothingSkipped (node : Node) (key : String) (o : PollerOptions) (s : System) : Prop :=
  ∀ i e, i < s.place node key → s.history[i]? = some e → Wanted node o s.lowest e →
    e.id ∈ s.yielded

/-! ### What the first leaves behind -/

def Within (node : Node) (history : List RawEvent) (cursor : String) : Prop :=
  cursor ≠ "" ∧ node.position cursor ≤ history.length

theorem Within.append {node : Node} {history : List RawEvent} {cursor : String}
    (h : Within node history cursor) (events : List RawEvent) :
    Within node (history ++ events) cursor := by
  have hle := h.2
  refine ⟨h.1, ?_⟩
  rw [List.length_append]
  omega

structure Fresh (key : String) (o : PollerOptions) (s : System) : Prop where
  phase : s.phase = .polling (initialLocals o)
  saved : s.cursors key = none

structure Left (node : Node) (own key : String) (s : System) : Prop where
  saved : ∀ st, s.cursors key = some st → own = key ∧ Within node s.history st.cursor
  held : ∀ l batch q, s.phase = .holding l batch q → Within node s.history batch.cursor

theorem Left.of_fresh {node : Node} {own key : String} {o : PollerOptions} {s : System}
    (h : Fresh key o s) : Left node own key s where
  saved := by
    intro st hst
    rw [h.saved] at hst
    cases hst
  held := by
    intro l batch q hp
    rw [h.phase] at hp
    cases hp

theorem Left.step {node : Node} {own key : String} {o : PollerOptions} {s t : System}
    (h : Left node own key s) (hstep : Step node own o s t) : Left node own key t := by
  cases hstep with
  | close events =>
    refine ⟨?_, ?_⟩
    · intro st hst
      obtain ⟨heq, hin⟩ := h.saved st hst
      exact ⟨heq, hin.append events⟩
    · intro l batch q hp
      exact (h.held l batch q hp).append events
  | resolve window hp hr => exact ⟨h.saved, by simp⟩
  | @page l req q batch hp hr hreq hs =>
    refine ⟨h.saved, ?_⟩
    intro l' batch' q' hp'
    cases hp'
    exact ⟨hs.cursor_ne, by rw [hs.cursor]; exact hs.le_length⟩
  | outOfRange err window hp hr hc =>
    refine ⟨?_, by simp⟩
    intro st hst
    simp only [put] at hst
    split at hst
    · cases hst
    · exact h.saved st hst
  | @save l batch q now hp =>
    refine ⟨?_, ?_⟩
    · intro st hst
      simp only [put] at hst
      split at hst
      · rename_i heq
        cases hst
        exact ⟨heq.symm, h.held l batch q hp⟩
      · exact h.saved st hst
    · intro l' batch' q' hp'
      simp only at hp'
      split at hp' <;> cases hp'
  | stop => exact ⟨h.saved, by simp⟩

/-! ### What the second keeps -/

/-- Every wanted event before place `p` was yielded, and none will come there. -/
structure Passed (node : Node) (o : PollerOptions) (history : List RawEvent)
    (yielded : List String) (lowest p : Nat) : Prop where
  le_length : p ≤ history.length
  behind : ∀ i e, i < p → history[i]? = some e → Wanted node o lowest e → e.id ∈ yielded

def PhaseInv (node : Node) (o : PollerOptions) (s : System) : Phase → Prop
  | .stopped => True
  | .polling l =>
    (∀ x ∈ l.seen.ids, x ∈ s.yielded) ∧ l.positionResolved = true ∧
      ((∃ cursor, l.cursor = some cursor ∧ cursor ≠ "" ∧ l.startLedger = none ∧
          Passed node o s.history s.yielded s.lowest (node.position cursor)) ∨
        ∃ ledger, l.cursor = none ∧ l.startLedger = some ledger ∧ ledger ≤ s.lowest)
  | .holding l batch q =>
    (∀ x ∈ (turn o l.seen batch).seen.ids, x ∈ s.yielded) ∧ l.positionResolved = true ∧
      batch.cursor ≠ "" ∧ node.position batch.cursor = q ∧
        Passed node o s.history s.yielded s.lowest q

structure Inv (node : Node) (key : String) (o : PollerOptions) (s : System) : Prop where
  saved : ∀ st, s.cursors key = some st → st.cursor ≠ "" ∧
    Passed node o s.history s.yielded s.lowest (node.position st.cursor)
  phase : PhaseInv node o s s.phase

section Passed

variable {node : Node} {o : PollerOptions} {history : List RawEvent} {yielded : List String}
  {lowest p : Nat}

theorem Passed.close (h : Passed node o history yielded lowest p) (events : List RawEvent) :
    Passed node o (history ++ events) yielded lowest p where
  le_length := by
    have hle := h.le_length
    rw [List.length_append]
    omega
  behind := by
    intro i e hi he hw
    have hle := h.le_length
    rw [List.getElem?_append_left (by omega)] at he
    exact h.behind i e hi he hw

theorem Passed.more (h : Passed node o history yielded lowest p) (fresh : List String) :
    Passed node o history (yielded ++ fresh) lowest p where
  le_length := h.le_length
  behind := by
    intro i e hi he hw
    exact List.mem_append_left _ (h.behind i e hi he hw)

end Passed

/-- The second begins behind everything wanted when nothing wanted lies before the
position it finds. -/
theorem Inv.of_restart {node : Node} {key : String} {o : PollerOptions} {s : System}
    (window : RetentionState) (hin : ∀ st, s.cursors key = some st → Within node s.history st.cursor)
    (hnone : ∀ st, s.cursors key = some st → ∀ e ∈ s.history.take (node.position st.cursor),
      ¬ Wanted node o (startOf o window) e) : Inv node key o (s.restart key o window) := by
  have hsaved : ∀ st, s.cursors key = some st → st.cursor ≠ "" ∧
      Passed node o s.history [] (startOf o window) (node.position st.cursor) := by
    intro st hst
    obtain ⟨hne, hle⟩ := hin st hst
    refine ⟨hne, hle, ?_⟩
    intro i e hi he hw
    have hmem : e ∈ s.history.take (node.position st.cursor) := by
      refine List.mem_iff_getElem?.mpr ⟨i, ?_⟩
      rw [List.getElem?_take_of_lt hi]
      exact he
    exact absurd hw (hnone st hst e hmem)
  refine ⟨hsaved, ?_⟩
  show PhaseInv node o (s.restart key o window)
    (.polling (resolveStart o (s.cursors key) window (initialLocals o)))
  cases hs : s.cursors key with
  | none => exact ⟨by simp [resolveStart, initialLocals, RecentIds.new], rfl,
      .inr ⟨_, rfl, rfl, le_refl _⟩⟩
  | some st =>
    obtain ⟨hne, hpassed⟩ := hsaved st hs
    exact ⟨by simp [resolveStart, initialLocals, RecentIds.new], rfl,
      .inl ⟨_, rfl, hne, rfl, hpassed⟩⟩

theorem passed_start {node : Node} {o : PollerOptions} {s : System} {l : StreamLocals}
    {req : GetEventsRequest} {saved : Option Nat} (h : PhaseInv node o s (.polling l))
    (hreq : getEventsRequest (getEventsArgs o l saved) = .ok req) :
    ∀ i e, i < node.start s.history req → s.history[i]? = some e → Wanted node o s.lowest e →
      e.id ∈ s.yielded := by
  intro i e hi he hw
  obtain ⟨-, -, ⟨cursor, hc, hne, -, hpassed⟩ | ⟨ledger, hc, hl, hle⟩⟩ := h
  · rw [getEventsRequest_ofCursor hc hne] at hreq
    cases hreq
    exact hpassed.behind i e hi he hw
  · rw [getEventsRequest_ofRange hc hl] at hreq
    cases hreq
    have hplace := SavedLedger.ledgerIndex_le_of_ledger_le he (le_trans hle hw.2.1)
    simp only [Node.start] at hi
    omega

theorem Inv.page {node : Node} {key : String} {o : PollerOptions} {s : System}
    (h : Inv node key o s) {l : StreamLocals} {req : GetEventsRequest} {q : Nat}
    {batch : EventBatch} {saved : Option Nat} (hp : s.phase = .polling l)
    (hr : l.positionResolved = true)
    (hreq : getEventsRequest (getEventsArgs o l saved) = .ok req)
    (hs : node.Covers s.history req batch q) :
    Inv node key o { s with
      phase := .holding l batch q
      yielded := s.yielded ++ (turn o l.seen batch).fresh.map RawEvent.id } := by
  have hphase := h.phase
  rw [hp] at hphase
  have hbehind := passed_start hphase hreq
  obtain ⟨hevents, hseen⟩ := mem_yielded_of_turn o batch hphase.1
  refine ⟨?_, hseen, hr, hs.cursor_ne, hs.cursor, hs.le_length, ?_⟩
  · intro st hst
    obtain ⟨hne, hpassed⟩ := h.saved st hst
    exact ⟨hne, hpassed.more _⟩
  · intro i e hi he hw
    by_cases hstart : i < node.start s.history req
    · exact List.mem_append_left _ (hbehind i e hstart he hw)
    · refine hevents e ?_
      rw [hs.events, filters_getEventsRequest hreq]
      exact List.mem_filter.mpr ⟨mem_stretch_of_getElem? (by omega) hi he, hw.1⟩

theorem Inv.step {node : Node} {key : String} {o : PollerOptions} {s t : System}
    (h : Inv node key o s) (hstep : Step node key o s t) : Inv node key o t := by
  have hphase := h.phase
  cases hstep with
  | close events =>
    refine ⟨?_, ?_⟩
    · intro st hst
      obtain ⟨hne, hpassed⟩ := h.saved st hst
      exact ⟨hne, hpassed.close events⟩
    · show PhaseInv node o { s with history := s.history ++ events } s.phase
      cases hp : s.phase with
      | stopped => trivial
      | polling l =>
        rw [hp] at hphase
        obtain ⟨hseen, hr, ⟨cursor, hc, hne, hl, hpassed⟩ | hrange⟩ := hphase
        · exact ⟨hseen, hr, .inl ⟨cursor, hc, hne, hl, hpassed.close events⟩⟩
        · exact ⟨hseen, hr, .inr hrange⟩
      | holding l batch q =>
        rw [hp] at hphase
        obtain ⟨hseen, hr, hne, hq, hpassed⟩ := hphase
        exact ⟨hseen, hr, hne, hq, hpassed.close events⟩
  | resolve window hp hr =>
    rw [hp] at hphase
    rw [hphase.2.1] at hr
    cases hr
  | page batch hp hr hreq hs => exact h.page hp hr hreq hs
  | outOfRange err window hp hr hc =>
    rw [hp] at hphase
    refine ⟨by simp [put], hphase.1, hphase.2.1, .inr ⟨_, rfl, rfl, le_max_right _ _⟩⟩
  | @save l batch q now hp =>
    rw [hp] at hphase
    obtain ⟨hseen, hr, hne, rfl, hpassed⟩ := hphase
    refine ⟨?_, ?_⟩
    · intro st hst
      simp only [put, if_pos] at hst
      cases hst
      exact ⟨hne, hpassed⟩
    · simp only
      split
      · trivial
      · exact ⟨hseen, hr, .inl ⟨_, rfl, hne, rfl, hpassed⟩⟩
  | stop => exact ⟨h.saved, trivial⟩

theorem Inv.nothingSkipped {node : Node} {key : String} {o : PollerOptions} {s : System}
    (h : Inv node key o s) : NothingSkipped node key o s := by
  intro i e hi he hw
  have hphase := h.phase
  cases hp : s.phase with
  | stopped =>
    simp only [System.place, hp] at hi
    cases hs : s.cursors key with
    | none => simp [hs] at hi
    | some st =>
      rw [hs] at hi
      exact (h.saved st hs).2.behind i e hi he hw
  | polling l =>
    rw [hp] at hphase
    simp only [System.place, hp] at hi
    obtain ⟨-, -, ⟨cursor, hc, -, -, hpassed⟩ | ⟨ledger, hc, hl, hle⟩⟩ := hphase
    · rw [hc] at hi
      exact hpassed.behind i e hi he hw
    · rw [hc, hl] at hi
      have hplace := SavedLedger.ledgerIndex_le_of_ledger_le he (le_trans hle hw.2.1)
      simp only [Option.getD_some] at hi
      omega
  | holding l batch q =>
    rw [hp] at hphase
    simp only [System.place, hp] at hi
    exact hphase.2.2.2.2.behind i e hi he hw

/-- One poller runs from a store with nothing under the second's key; then the
second runs over the same store, each under its default key. In no state that the
second reaches has it passed over a wanted event, exactly when the two keys are of
different hashes, or nothing wanted lies before the position the first left. -/
theorem nothing_skipped_iff (host : String → Option String) (rpcUrl : String) (node : Node)
    (first second : PollerOptions) (window : RetentionState) {s₀ s : System}
    (h₀ : Fresh (defaultCursorKey host rpcUrl second.contractIds) first s₀)
    (hrun : Relation.ReflTransGen
      (Step node (defaultCursorKey host rpcUrl first.contractIds) first) s₀ s) :
    (∀ t, Relation.ReflTransGen
        (Step node (defaultCursorKey host rpcUrl second.contractIds) second)
        (s.restart (defaultCursorKey host rpcUrl second.contractIds) second window) t →
      NothingSkipped node (defaultCursorKey host rpcUrl second.contractIds) second t) ↔
    (fnv1a (utf16 (joinedIds first.contractIds)) ≠ fnv1a (utf16 (joinedIds second.contractIds)) ∨
      ∀ st, s.cursors (defaultCursorKey host rpcUrl second.contractIds) = some st →
        ∀ e ∈ s.history.take (node.position st.cursor),
          ¬ Wanted node second (startOf second window) e) := by
  have hstep : ∀ a b, Left node (defaultCursorKey host rpcUrl first.contractIds)
      (defaultCursorKey host rpcUrl second.contractIds) a →
      Step node (defaultCursorKey host rpcUrl first.contractIds) first a b →
      Left node (defaultCursorKey host rpcUrl first.contractIds)
        (defaultCursorKey host rpcUrl second.contractIds) b := fun _ _ h hab => h.step hab
  have hleft := invariant_of_run hstep (Left.of_fresh h₀) hrun
  constructor
  · intro h
    refine .inr ?_
    intro st hst e he hw
    have hbegin := h _ .refl
    obtain ⟨i, hi⟩ := List.mem_iff_getElem?.mp he
    have hlt : i < node.position st.cursor := by
      by_contra hge
      rw [List.getElem?_take_eq_none (by omega)] at hi
      cases hi
    rw [List.getElem?_take_of_lt hlt] at hi
    have hin := hbegin i e (by simpa [System.place, System.restart, resolveStart, hst] using hlt) hi hw
    simp [System.restart] at hin
  · intro h t ht
    have hnone : ∀ st, s.cursors (defaultCursorKey host rpcUrl second.contractIds) = some st →
        ∀ e ∈ s.history.take (node.position st.cursor),
          ¬ Wanted node second (startOf second window) e := by
      rcases h with hne | hnone
      · intro st hst
        have hkey := (hleft.saved st hst).1
        exact absurd ((defaultCursorKey_eq_iff host rpcUrl _ _).mp hkey) hne
      · exact hnone
    have hstep₂ : ∀ a b, Inv node (defaultCursorKey host rpcUrl second.contractIds) second a →
        Step node (defaultCursorKey host rpcUrl second.contractIds) second a b →
        Inv node (defaultCursorKey host rpcUrl second.contractIds) second b :=
      fun _ _ hinv hab => hinv.step hab
    have hinit := Inv.of_restart window (fun st hst => (hleft.saved st hst).2) hnone
    exact (invariant_of_run hstep₂ hinit ht).nothingSkipped

/-! ### Two streams of one store -/

def segmentsMatch (segments topic : List String) : Bool :=
  decide (segments.length = topic.length) &&
    (segments.zip topic).all (fun p => p.1 == "*" || p.1 == p.2)

def filterSelects (e : RawEvent) (f : EventFilter) : Bool :=
  decide (f.type = e.type) && f.contractIds.all (fun ids => ids.contains e.contractId) &&
    f.topics.all (fun topics => topics.any (fun segments => segmentsMatch segments e.topic))

/-- Selects by type, contract and topics; a cursor of `n + 1` characters stands for
place `n`. -/
def filteringNode : Node := ⟨fun filters e => filters.any (filterSelects e), fun c => c.length - 1⟩

def oneHost : String → Option String := fun _ => some "soroban-testnet.stellar.org"

def everything : PollerOptions := { contractIds := [] }

def burnsOnly : PollerOptions := { contractIds := [], topics := some [["burn"]] }

def oneContract : PollerOptions :=
  { contractIds := ["CDLZFC3SYJYDZT7K67VZ75HPJVIEUVNIXF47ZG2FB2RMQQVU2HHGCYSC"] }

def mint : RawEvent := { SavedLedger.plainEvent "a" 5 with topic := ["mint"] }

def burn : RawEvent := { SavedLedger.plainEvent "b" 5 with topic := ["burn"] }

def begun (o : PollerOptions) : System where
  history := [mint, burn]
  cursors := fun _ => none
  phase := .polling (initialLocals o)
  yielded := []
  lowest := 0

def burnOfOne : RawEvent :=
  { burn with contractId := "CDLZFC3SYJYDZT7K67VZ75HPJVIEUVNIXF47ZG2FB2RMQQVU2HHGCYSC" }

/-- A poller of one contract saves a place past the mint of another; a poller of every
contract does not find it. -/
theorem nothing_skipped_other_contract : ∃ s st,
    Relation.ReflTransGen
        (Step filteringNode (defaultCursorKey oneHost "https://soroban-testnet.stellar.org"
          oneContract.contractIds) oneContract)
        { begun oneContract with history := [mint, burnOfOne] } s ∧
      s.yielded = ["b"] ∧
      s.cursors (defaultCursorKey oneHost "https://soroban-testnet.stellar.org"
        oneContract.contractIds) = some st ∧
      mint ∈ s.history.take (filteringNode.position st.cursor) ∧
      Wanted filteringNode everything (startOf everything ⟨10, 1⟩) mint ∧
      ∀ t, Relation.ReflTransGen
          (Step filteringNode (defaultCursorKey oneHost "https://soroban-testnet.stellar.org"
            everything.contractIds) everything)
          (s.restart (defaultCursorKey oneHost "https://soroban-testnet.stellar.org"
            everything.contractIds) everything ⟨10, 1⟩) t →
        NothingSkipped filteringNode (defaultCursorKey oneHost "https://soroban-testnet.stellar.org"
          everything.contractIds) everything t := by
  have hne : fnv1a (utf16 (joinedIds oneContract.contractIds)) ≠
      fnv1a (utf16 (joinedIds everything.contractIds)) := by
    simp only [joinedIds, oneContract, everything, List.mergeSort_nil, List.mergeSort_singleton]
    decide +kernel
  have hfresh : Fresh (defaultCursorKey oneHost "https://soroban-testnet.stellar.org"
      everything.contractIds) oneContract
      { begun oneContract with history := [mint, burnOfOne] } := ⟨rfl, rfl⟩
  have hcovers : filteringNode.Covers [mint, burnOfOne]
      (.ofRange oneContract.filters 1 none (clampLimit (some (.ofNat 200))))
      ⟨[burnOfOne], placeCursor 2, 10, 1⟩ 2 :=
    ⟨by decide, by decide, by decide, placeCursor_ne 2, position_placeCursor 2⟩
  have hresolved : Relation.ReflTransGen
      (Step filteringNode (defaultCursorKey oneHost "https://soroban-testnet.stellar.org"
        oneContract.contractIds) oneContract)
      { begun oneContract with history := [mint, burnOfOne] } _ :=
    .tail .refl (.resolve ⟨10, 1⟩ rfl rfl)
  have hpage := hresolved.tail (.page ⟨[burnOfOne], placeCursor 2, 10, 1⟩ rfl rfl rfl hcovers)
  have hsaved := hpage.tail (.save "1970-01-01T00:00:00.000Z" rfl)
  refine ⟨_, _, hsaved, ?_, if_pos rfl, ?_, ?_, ?_⟩
  · decide +kernel
  · show mint ∈ [mint, burnOfOne].take (filteringNode.position (placeCursor 2))
    rw [show filteringNode.position (placeCursor 2) = 2 from position_placeCursor 2]
    decide
  · exact ⟨by decide, by decide, by simp [everything]⟩
  · exact (nothing_skipped_iff oneHost "https://soroban-testnet.stellar.org" filteringNode
      oneContract everything ⟨10, 1⟩ hfresh hsaved).mpr (.inl hne)

/-- What a poller for one topic saved, a poller for every topic resumes from. -/
theorem other_topics_skipped : ∃ key s t,
    key = defaultCursorKey oneHost "https://soroban-testnet.stellar.org" burnsOnly.contractIds ∧
      key = defaultCursorKey oneHost "https://soroban-testnet.stellar.org" everything.contractIds ∧
      Relation.ReflTransGen (Step filteringNode key burnsOnly) (begun burnsOnly) s ∧
      Relation.ReflTransGen (Step filteringNode key everything)
        (s.restart key everything ⟨10, 1⟩) t ∧
      filteringNode.selects burnsOnly.filters mint = false ∧
      t.history[0]? = some mint ∧ Wanted filteringNode everything t.lowest mint ∧
      t.yielded = [] ∧ ¬ NothingSkipped filteringNode key everything t := by
  generalize hkey : defaultCursorKey oneHost "https://soroban-testnet.stellar.org" [] = key
  have hcovers : filteringNode.Covers [mint, burn]
      (.ofRange burnsOnly.filters 1 none (clampLimit (some (.ofNat 200))))
      ⟨[burn], placeCursor 2, 10, 1⟩ 2 :=
    ⟨by decide, by decide, by decide, placeCursor_ne 2, position_placeCursor 2⟩
  have hwanted : Wanted filteringNode everything 1 mint :=
    ⟨by decide, by decide, by simp [everything]⟩
  have hresolved : Relation.ReflTransGen (Step filteringNode key burnsOnly) (begun burnsOnly) _ :=
    .tail .refl (.resolve ⟨10, 1⟩ rfl rfl)
  have hpage := hresolved.tail (.page ⟨[burn], placeCursor 2, 10, 1⟩ rfl rfl rfl hcovers)
  have hsaved := hpage.tail (.save "1970-01-01T00:00:00.000Z" rfl)
  have hcaughtUp : filteringNode.Covers [mint, burn]
      (.ofCursor everything.filters (placeCursor 2) (clampLimit (some (.ofNat 200))))
      ⟨[], placeCursor 2, 10, 1⟩ 2 :=
    ⟨by decide, by decide, by decide, placeCursor_ne 2, position_placeCursor 2⟩
  refine ⟨key, _, _, hkey.symm, hkey.symm, hsaved,
    .tail .refl (.page ⟨[], placeCursor 2, 10, 1⟩ rfl ?_ (getEventsRequest_ofCursor ?_
      (placeCursor_ne 2)) hcaughtUp), by decide, rfl, hwanted, rfl, ?_⟩
  · simp [resolveStart, put]
  · simp [resolveStart, put, cursorState]
  · intro h
    cases h 0 mint Nat.zero_lt_two rfl hwanted

end CursorKey

end SorobanLens
