import SorobanLens.Ingest.Node

/-!
A bounded run: `endLedger` set, nothing saved. Only the first request carries
the bound, so the run is exact when the range ends inside that page, or when
nothing lies behind the range by the time the page that ends it is asked for.
-/

set_option autoImplicit false

namespace SorobanLens

/-! ### The generator over an answering node -/

inductive Ending where
  | returned
  | threw (message : String)
  /-- Still going after the pages counted. -/
  | running
  deriving DecidableEq, Repr

def yielded (t : Turn) : List (List RawEvent) := if t.fresh = [] then [] else [t.fresh]

/-- The batches `stream()` yields in its next passes, for a consumer that always
comes back; `rpc k` answers call number `k`. -/
def runStream (o : PollerOptions) (rpc : Nat → GetEventsRequest → EventBatch) :
    Nat → Nat → StreamLocals → List (List RawEvent) × Ending
  | 0, _, _ => ([], .running)
  | passes + 1, k, l =>
    match nextPage o none (rpc k) l with
    | .error message => ([], .threw message)
    | .ok (batch, t) =>
      if t.progress.reachedEndLedger then (yielded t, .returned)
      else
        let rest := runStream o rpc passes (k + 1) (advance l batch t)
        (yielded t ++ rest.1, rest.2)

theorem flatten_yielded (t : Turn) : (yielded t).flatten = t.fresh := by
  unfold yielded
  split
  · rename_i h
    simp [h]
  · simp

/-! ### The setting of a bounded run -/

/-- A poller with an end ledger, and a node that serves it as documented while
its history grows at the tip. -/
structure BoundedSetting where
  contractIds : List String
  topics : Option (List (List String))
  eventType : Option EventType
  firstLedger : Nat
  lastLedger : Nat
  pageSize : Nat
  window : RetentionState
  node : Node
  /-- The history when call number `k` is answered. -/
  history : Nat → List RawEvent
  rpc : Nat → GetEventsRequest → EventBatch
  first_le : firstLedger ≤ lastLedger
  oldest_le : window.oldestLedger ≤ firstLedger
  le_latest : lastLedger ≤ window.latestLedger
  page_pos : 1 ≤ pageSize
  page_le : pageSize ≤ MAX_PAGE_SIZE
  sorted : ∀ k, (history k).Pairwise (fun a b => a.ledger ≤ b.ledger)
  distinct : ∀ k, ((history k).map RawEvent.id).Nodup
  grows : ∀ k, ∃ more, history (k + 1) = history k ++ more ∧
    ∀ e ∈ more, window.latestLedger < e.ledger
  serves : ∀ k req, node.start (history k) req ≤ (history k).length →
    ∃ q, node.Serves (history k) req (rpc k req) q

namespace BoundedSetting

variable (b : BoundedSetting)

def options : PollerOptions where
  contractIds := b.contractIds
  eventType := b.eventType
  startLedger := some b.firstLedger
  endLedger := some b.lastLedger
  pageSize := some (.ofNat b.pageSize)
  topics := b.topics

def selects (e : RawEvent) : Bool := b.node.selects b.options.filters e

def inRange : List RawEvent :=
  (b.history 0).filter
    (fun e => b.selects e && (decide (b.firstLedger ≤ e.ledger) && decide (e.ledger ≤ b.lastLedger)))

def beyond (k : Nat) : List RawEvent :=
  (b.history k).filter (fun e => b.selects e && decide (b.lastLedger < e.ledger))

def start : StreamLocals := resolveStart b.options none b.window (initialLocals b.options)

def run (passes : Nat) : List (List RawEvent) × Ending := runStream b.options b.rpc passes 0 b.start

/-- The run ends, and its batches together are the matching events of the range. -/
def Exact : Prop := ∃ passes ys, b.run passes = (ys, .returned) ∧ ys.flatten = b.inRange

theorem request_limit :
    (clampLimit (some b.options.pageSizeOrDefault)).floorNat = b.pageSize := by
  have h := b.page_le
  simp [clampLimit, PollerOptions.pageSizeOrDefault, options, h]

theorem reachedEnd (seen : RecentIds) (batch : EventBatch) :
    (turn b.options seen batch).progress.reachedEndLedger = decide (batch.events.length < b.pageSize) := by
  simp [turn, options, PollerOptions.pageSizeOrDefault]

theorem beyond_succ (k : Nat) {more : List RawEvent} (h : b.history (k + 1) = b.history k ++ more)
    (hm : ∀ e ∈ more, b.window.latestLedger < e.ledger) :
    b.beyond (k + 1) = b.beyond k ++ more.filter b.selects := by
  rw [beyond, h, List.filter_append, beyond]
  congr 1
  refine List.filter_congr ?_
  intro e he
  have h1 := hm e he
  have h2 := b.le_latest
  have h3 : b.lastLedger < e.ledger := by omega
  simp [h3]

/-- Where the stream stands before call `k`, with `xs` of the range still to come. -/
def At (k : Nat) (l : StreamLocals) (xs : List RawEvent) : Prop :=
  ∃ c, l.cursor = some c ∧ c ≠ "" ∧ b.node.position c ≤ (b.history k).length ∧
    ((b.history k).drop (b.node.position c)).filter b.selects = xs ++ b.beyond k ∧
    SeenBefore (b.history k) (b.node.position c) l.seen

theorem page_spec {k q : Nat} {l : StreamLocals} {req : GetEventsRequest}
    (hs : b.node.Serves (b.history k) req (b.rpc k req) q)
    (hseen : SeenBefore (b.history k) (b.node.start (b.history k) req) l.seen) :
    (turn b.options l.seen (b.rpc k req)).fresh = (b.rpc k req).events ∧
      ∀ xs, ((b.history k).drop q).filter b.selects = xs ++ b.beyond k →
        b.At (k + 1) (advance l (b.rpc k req) (turn b.options l.seen (b.rpc k req))) xs := by
  obtain ⟨more, hgrow, hmore⟩ := b.grows k
  obtain ⟨hfresh, hseen'⟩ := hs.fresh (b.distinct k) hseen
  refine ⟨hfresh, ?_⟩
  intro xs hxs
  have hpos : b.node.position (b.rpc k req).cursor = q := hs.cursor
  have hlen := hs.le_length
  refine ⟨(b.rpc k req).cursor, rfl, hs.cursor_ne, ?_, ?_, ?_⟩
  · rw [hpos, hgrow, List.length_append]
    omega
  · rw [hpos, hgrow, List.drop_append_of_le_length hlen, List.filter_append, hxs,
      b.beyond_succ k hgrow hmore, List.append_assoc]
  · rw [hpos, hgrow]
    exact hseen'.append hlen

theorem pass_spec {k : Nat} {l : StreamLocals} {xs : List RawEvent} (h : b.At k l xs) :
    ∃ batch t, nextPage b.options none (b.rpc k) l = .ok (batch, t) ∧
      t.fresh = (xs ++ b.beyond k).take b.pageSize ∧
      t.progress.reachedEndLedger = decide ((xs ++ b.beyond k).length < b.pageSize) ∧
      (b.pageSize ≤ xs.length → b.At (k + 1) (advance l batch t) (xs.drop b.pageSize)) := by
  obtain ⟨c, hc, hne, hle, hrest, hseen⟩ := h
  have hreq : getEventsRequest (getEventsArgs b.options l none) = _ :=
    getEventsRequest_ofCursor hc hne
  generalize hr : GetEventsRequest.ofCursor b.options.filters c
    (clampLimit (some b.options.pageSizeOrDefault)) = req at hreq
  have hlim : req.limit.floorNat = b.pageSize := by
    rw [← hr]
    exact b.request_limit
  have hstart : b.node.start (b.history k) req = b.node.position c := by rw [← hr]; rfl
  obtain ⟨q, hs⟩ := b.serves k req (by rw [hstart]; exact hle)
  obtain ⟨hev, hafter⟩ := hs.take_all (by rw [← hr]; rfl)
  rw [hstart, show b.node.selects req.filters = b.selects by rw [← hr]; rfl, hlim, hrest]
    at hev hafter
  obtain ⟨hfresh, hat⟩ := b.page_spec hs (by rw [hstart]; exact hseen)
  refine ⟨b.rpc k req, turn b.options l.seen (b.rpc k req), ?_, ?_, ?_, ?_⟩
  · simp [nextPage, hreq, Except.map]
  · rw [hfresh, hev]
  · rw [b.reachedEnd, hev, List.length_take]
    congr 1
    simp only [eq_iff_iff]
    omega
  · intro hfull
    refine hat _ ?_
    rw [hafter, List.drop_append_of_le_length hfull]

theorem start_eq : b.start = { initialLocals b.options with
    cursor := none, startLedger := some b.firstLedger, positionResolved := true } := by
  have h1 := b.oldest_le
  have h2 := b.le_latest
  have h3 := b.first_le
  have hc : min (max b.firstLedger b.window.oldestLedger) b.window.latestLedger = b.firstLedger := by
    omega
  simp [start, resolveStart, options, hc]

theorem range_split :
    ((b.history 0).drop (ledgerIndex (b.history 0) b.firstLedger)).filter b.selects =
      b.inRange ++ b.beyond 0 := by
  rw [drop_ledgerIndex (b.sorted 0), List.filter_filter,
    filter_split_ledger (b.sorted 0) _ b.lastLedger, inRange, beyond]
  congr 1
  · refine List.filter_congr ?_
    intro e _
    rw [Bool.and_assoc]
  · refine List.filter_congr ?_
    intro e _
    have h := b.first_le
    by_cases hl : b.lastLedger < e.ledger
    · have hf : b.firstLedger ≤ e.ledger := by omega
      simp [hl, hf]
    · simp [hl]

theorem first_pass_spec :
    ∃ batch t, nextPage b.options none (b.rpc 0) b.start = .ok (batch, t) ∧
      t.fresh = b.inRange.take b.pageSize ∧
      t.progress.reachedEndLedger = decide (b.inRange.length < b.pageSize) ∧
      b.At 1 (advance b.start batch t) (b.inRange.drop b.pageSize) := by
  have hreq : getEventsRequest (getEventsArgs b.options b.start none) = _ :=
    getEventsRequest_ofRange (by rw [start_eq]) (by rw [start_eq])
  generalize hr : GetEventsRequest.ofRange b.options.filters b.firstLedger b.options.endLedger
    (clampLimit (some b.options.pageSizeOrDefault)) = req at hreq
  have hlim : req.limit.floorNat = b.pageSize := by
    rw [← hr]
    exact b.request_limit
  have hend : req.endLedger = some b.lastLedger := by rw [← hr]; rfl
  have hstart : b.node.start (b.history 0) req = ledgerIndex (b.history 0) b.firstLedger := by
    rw [← hr]; rfl
  obtain ⟨q, hs⟩ := b.serves 0 req (by rw [hstart]; exact ledgerIndex_le _ _)
  have hsplit : ((b.history 0).drop (b.node.start (b.history 0) req)).filter
      (b.node.selects req.filters) = b.inRange ++ b.beyond 0 := by
    rw [hstart, ← b.range_split, ← hr]
    rfl
  obtain ⟨hev, hafter⟩ := hs.take hsplit
    (by
      intro e he l hl
      rw [hend] at hl
      cases hl
      simp [inRange] at he
      omega)
    (by
      intro e he hin
      have := hin b.lastLedger hend
      simp [beyond] at he
      omega)
  rw [hlim] at hev hafter
  have hseen : SeenBefore (b.history 0) (b.node.start (b.history 0) req) b.start.seen := by
    intro x hx
    rw [start_eq] at hx
    simp [initialLocals, RecentIds.new] at hx
  obtain ⟨hfresh, hat⟩ := b.page_spec hs hseen
  refine ⟨b.rpc 0 req, turn b.options b.start.seen (b.rpc 0 req), ?_, ?_, ?_, ?_⟩
  · simp [nextPage, hreq, Except.map]
  · rw [hfresh, hev]
  · rw [b.reachedEnd, hev, List.length_take]
    congr 1
    simp only [eq_iff_iff]
    omega
  · refine hat _ ?_
    rw [← hafter, ← hr]
    rfl

def ExactFrom (k : Nat) (l : StreamLocals) (xs : List RawEvent) : Prop :=
  ∃ passes ys, runStream b.options b.rpc passes k l = (ys, .returned) ∧ ys.flatten = xs

theorem exact_of_full {k : Nat} {l : StreamLocals} {batch : EventBatch} {t : Turn}
    {xs : List RawEvent} (hn : nextPage b.options none (b.rpc k) l = .ok (batch, t))
    (hf : t.fresh = xs.take b.pageSize) (hr : t.progress.reachedEndLedger = false) :
    b.ExactFrom k l xs ↔ b.ExactFrom (k + 1) (advance l batch t) (xs.drop b.pageSize) := by
  constructor
  · rintro ⟨passes, ys, hrun, hys⟩
    cases passes with
    | zero => cases hrun
    | succ passes =>
      simp only [runStream, hn, hr, Bool.false_eq_true, if_false, Prod.mk.injEq] at hrun
      refine ⟨passes, _, Prod.ext rfl hrun.2, ?_⟩
      rw [← hrun.1, List.flatten_append, flatten_yielded, hf] at hys
      have hcut := List.take_append_drop b.pageSize xs
      exact List.append_cancel_left (hys.trans hcut.symm)
  · rintro ⟨passes, ys, hrun, hys⟩
    refine ⟨passes + 1, yielded t ++ ys, ?_, ?_⟩
    · simp [runStream, hn, hr, hrun]
    · rw [List.flatten_append, flatten_yielded, hf, hys, List.take_append_drop]

theorem exact_of_last {k : Nat} {l : StreamLocals} {batch : EventBatch} {t : Turn}
    {xs : List RawEvent} (hn : nextPage b.options none (b.rpc k) l = .ok (batch, t))
    (hr : t.progress.reachedEndLedger = true) : b.ExactFrom k l xs ↔ t.fresh = xs := by
  constructor
  · rintro ⟨passes, ys, hrun, hys⟩
    cases passes with
    | zero => cases hrun
    | succ passes =>
      simp only [runStream, hn, hr, if_true, Prod.mk.injEq, and_true] at hrun
      rw [← hys, ← hrun, flatten_yielded]
  · intro hf
    exact ⟨1, yielded t, by simp [runStream, hn, hr], by rw [flatten_yielded, hf]⟩

theorem not_exact_of_extra {k : Nat} {l : StreamLocals} {batch : EventBatch} {t : Turn}
    {xs : List RawEvent} (hn : nextPage b.options none (b.rpc k) l = .ok (batch, t))
    (hlong : xs.length < t.fresh.length) : ¬ b.ExactFrom k l xs := by
  rintro ⟨passes, ys, hrun, hys⟩
  have hle : t.fresh.length ≤ ys.flatten.length := by
    cases passes with
    | zero => cases hrun
    | succ passes =>
      simp only [runStream, hn] at hrun
      split at hrun
      · obtain ⟨hys', -⟩ := Prod.mk.inj hrun
        rw [← hys', flatten_yielded]
      · obtain ⟨hys', -⟩ := Prod.mk.inj hrun
        rw [← hys', List.flatten_append, flatten_yielded, List.length_append]
        omega
  rw [hys] at hle
  omega

/-- From a saved place the run is exact if and only if nothing behind the range
is visible to the call that reaches its end. -/
theorem exactFrom_iff {k : Nat} {l : StreamLocals} {xs : List RawEvent} (h : b.At k l xs) :
    b.ExactFrom k l xs ↔ b.beyond (k + xs.length / b.pageSize) = [] := by
  induction hn : xs.length using Nat.strong_induction_on generalizing k l xs with
  | _ n ih =>
    subst hn
    obtain ⟨batch, t, hpage, hfresh, hend, hnext⟩ := b.pass_spec h
    have hpos := b.page_pos
    by_cases hfull : b.pageSize ≤ xs.length
    · have hr : t.progress.reachedEndLedger = false := by
        rw [hend, List.length_append]
        simp only [decide_eq_false_iff_not]
        omega
      rw [List.take_append_of_le_length hfull] at hfresh
      rw [b.exact_of_full hpage hfresh hr]
      have hlen : (xs.drop b.pageSize).length = xs.length - b.pageSize := List.length_drop
      rw [ih (xs.drop b.pageSize).length (by omega) (hnext hfull) rfl, hlen,
        Nat.div_eq_sub_div hpos hfull]
      have hk : k + 1 + (xs.length - b.pageSize) / b.pageSize =
          k + ((xs.length - b.pageSize) / b.pageSize + 1) := by omega
      rw [hk]
    · have hdiv : xs.length / b.pageSize = 0 := Nat.div_eq_of_lt (by omega)
      rw [hdiv, Nat.add_zero]
      cases hb : b.beyond k with
      | nil =>
        rw [hb, List.append_nil] at hfresh hend
        have hr : t.progress.reachedEndLedger = true := by
          rw [hend]
          simp only [decide_eq_true_eq]
          omega
        rw [b.exact_of_last hpage hr, hfresh, List.take_of_length_le (by omega)]
        simp
      | cons e es =>
        have hlong : xs.length < t.fresh.length := by
          rw [hfresh, hb, List.length_take, List.length_append, List.length_cons]
          omega
        simpa using b.not_exact_of_extra hpage hlong

theorem exact_iff_beyond : b.Exact ↔
    (b.inRange.length < b.pageSize ∨ b.beyond (b.inRange.length / b.pageSize) = []) := by
  obtain ⟨batch, t, hpage, hfresh, hend, hat⟩ := b.first_pass_spec
  have hexact : b.Exact ↔ b.ExactFrom 0 b.start b.inRange := Iff.rfl
  rw [hexact]
  by_cases hshort : b.inRange.length < b.pageSize
  · rw [b.exact_of_last hpage (by rw [hend]; simpa using hshort), hfresh,
      List.take_of_length_le (by omega)]
    simp [hshort]
  · have hpos := b.page_pos
    have hr : t.progress.reachedEndLedger = false := by
      rw [hend]
      simpa using hshort
    rw [b.exact_of_full hpage hfresh hr, b.exactFrom_iff hat]
    have hlen : (b.inRange.drop b.pageSize).length = b.inRange.length - b.pageSize :=
      List.length_drop
    have hk : 1 + (b.inRange.length - b.pageSize) / b.pageSize = b.inRange.length / b.pageSize := by
      rw [Nat.div_eq_sub_div hpos (by omega : b.pageSize ≤ b.inRange.length)]
      omega
    rw [hlen, hk]
    simp [hshort]

end BoundedSetting

/-- A bounded run yields the range and nothing else exactly when its last page is
the first one, or nothing behind the range is there when the last page is asked for. -/
theorem bounded_run_exact_iff (b : BoundedSetting) : b.Exact ↔
    (b.inRange.length < b.pageSize ∨ b.beyond (b.inRange.length / b.pageSize) = []) :=
  b.exact_iff_beyond

def rangeEvent (id : String) (ledger : Nat) : RawEvent :=
  ⟨id, .contract, ledger, "1970-01-01T00:00:00Z", "C", [], "", "", 0, 0, true⟩

def pastTheRange : BoundedSetting where
  contractIds := []
  topics := none
  eventType := none
  firstLedger := 5
  lastLedger := 5
  pageSize := 1
  window := ⟨9, 1⟩
  node := referenceNode
  history := fun _ => [rangeEvent "a" 5, rangeEvent "b" 9]
  rpc := fun _ => referenceRpc [rangeEvent "a" 5, rangeEvent "b" 9]
  first_le := by decide
  oldest_le := by decide
  le_latest := by decide
  page_pos := by decide
  page_le := by decide
  sorted := by
    intro k
    simp [rangeEvent]
  distinct := by
    intro k
    simp [rangeEvent]
  grows := fun _ => ⟨[], by simp, by simp⟩
  serves := by
    intro k req hle
    exact ⟨_, referenceRpc_serves (by simp [rangeEvent]) hle⟩

theorem bounded_run_past_the_range : ¬ pastTheRange.Exact := by
  rw [BoundedSetting.exact_iff_beyond]
  have hin : pastTheRange.inRange = [rangeEvent "a" 5] := by decide
  have hbeyond : pastTheRange.beyond 1 = [rangeEvent "b" 9] := by decide
  rw [hin]
  change ¬ (1 < 1 ∨ pastTheRange.beyond 1 = [])
  rw [hbeyond]
  simp

end SorobanLens
