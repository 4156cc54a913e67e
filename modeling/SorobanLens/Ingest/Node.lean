import SorobanLens.Ingest.Poller
import Mathlib.Data.List.TakeWhile

/-!
The RPC node as the poller relies on it: a history of events in id order, opaque
cursors that stand for places in it, and pages cut from it.
-/

set_option autoImplicit false

namespace SorobanLens

/-- Which events a node's filters select, and how many events of the history lie
before the place a cursor stands for. -/
structure Node where
  selects : List EventFilter → RawEvent → Bool
  position : String → Nat

def ledgerIndex (history : List RawEvent) (ledger : Nat) : Nat :=
  (history.takeWhile (fun e => decide (e.ledger < ledger))).length

theorem ledgerIndex_le (history : List RawEvent) (ledger : Nat) :
    ledgerIndex history ledger ≤ history.length :=
  (List.takeWhile_prefix _).length_le

theorem drop_ledgerIndex {history : List RawEvent}
    (hs : history.Pairwise (fun a b => a.ledger ≤ b.ledger)) (ledger : Nat) :
    history.drop (ledgerIndex history ledger) =
      history.filter (fun e => decide (ledger ≤ e.ledger)) := by
  induction history with
  | nil => rfl
  | cons e es ih =>
    have hs' := List.pairwise_cons.mp hs
    by_cases h : e.ledger < ledger
    · have hn : ¬ ledger ≤ e.ledger := by omega
      have htail := ih hs'.2
      simp only [ledgerIndex] at htail ⊢
      simp [h, hn, htail]
    · have hle : ledger ≤ e.ledger := by omega
      have hall : ∀ x ∈ es, decide (ledger ≤ x.ledger) = true := by
        intro x hx
        have := hs'.1 x hx
        simp only [decide_eq_true_eq]
        omega
      simp [ledgerIndex, h, hle, List.filter_eq_self.mpr hall]

theorem filter_split_ledger {events : List RawEvent}
    (hs : events.Pairwise (fun a b => a.ledger ≤ b.ledger)) (p : RawEvent → Bool) (ledger : Nat) :
    events.filter p = events.filter (fun e => p e && decide (e.ledger ≤ ledger)) ++
      events.filter (fun e => p e && decide (ledger < e.ledger)) := by
  induction events with
  | nil => rfl
  | cons e es ih =>
    have hs' := List.pairwise_cons.mp hs
    have htail := ih hs'.2
    by_cases h : e.ledger ≤ ledger
    · have hn : ¬ ledger < e.ledger := by omega
      cases hp : p e <;> simp [hp, h, hn, htail]
    · have hlt : ledger < e.ledger := by omega
      have hnone : es.filter (fun x => p x && decide (x.ledger ≤ ledger)) = [] := by
        refine List.filter_eq_nil_iff.mpr ?_
        intro x hx
        have := hs'.1 x hx
        have hx' : ¬ x.ledger ≤ ledger := by omega
        simp [hx']
      rw [hnone, List.nil_append] at htail
      cases hp : p e <;> simp [hp, h, hlt, htail, hnone]

/-- The place a request asks from. -/
def Node.start (node : Node) (history : List RawEvent) : GetEventsRequest → Nat
  | .ofCursor _ cursor _ => node.position cursor
  | .ofRange _ startLedger _ _ => ledgerIndex history startLedger

def stretch (history : List RawEvent) (p q : Nat) : List RawEvent := (history.take q).drop p

theorem mem_stretch_of_getElem? {history : List RawEvent} {p q i : Nat} {e : RawEvent}
    (hp : p ≤ i) (hq : i < q) (h : history[i]? = some e) : e ∈ stretch history p q := by
  refine List.mem_iff_getElem?.mpr ⟨i - p, ?_⟩
  rw [stretch, List.getElem?_drop, List.getElem?_take_of_lt (by omega)]
  rwa [show p + (i - p) = i by omega]

theorem mem_of_mem_stretch {history : List RawEvent} {p q : Nat} {e : RawEvent}
    (h : e ∈ stretch history p q) : e ∈ history := List.mem_of_mem_take (List.mem_of_mem_drop h)

/-- A page covers the history from where it was asked up to place `q`, which is
where its cursor stands: it holds the selected events of that stretch, no more
than the limit, and fewer only when no selected event is left in range. -/
structure Node.Serves (node : Node) (history : List RawEvent) (req : GetEventsRequest)
    (batch : EventBatch) (q : Nat) : Prop where
  start_le : node.start history req ≤ q
  le_length : q ≤ history.length
  events : batch.events =
    (stretch history (node.start history req) q).filter (node.selects req.filters)
  in_range : ∀ e ∈ stretch history (node.start history req) q, ∀ l, req.endLedger = some l →
    e.ledger ≤ l
  limit : batch.events.length ≤ req.limit.floorNat
  full : batch.events.length < req.limit.floorNat →
    ∀ e ∈ history.drop q, node.selects req.filters e = true →
      ∃ l, req.endLedger = some l ∧ l < e.ledger
  cursor_ne : batch.cursor ≠ ""
  cursor : node.position batch.cursor = q

theorem drop_eq_stretch_append {history : List RawEvent} {p q : Nat} (hpq : p ≤ q)
    (hq : q ≤ history.length) : history.drop p = stretch history p q ++ history.drop q := by
  have h := congrArg (List.drop p) (List.take_append_drop q history).symm
  rw [List.drop_append_of_le_length (by simp; omega)] at h
  exact h

def GetEventsRequest.InRange (req : GetEventsRequest) (e : RawEvent) : Prop :=
  ∀ l, req.endLedger = some l → e.ledger ≤ l

/-- A page is the first `limit` events still to come in range; the rest follows
from its cursor. -/
theorem Node.Serves.take {node : Node} {history : List RawEvent} {req : GetEventsRequest}
    {batch : EventBatch} {q : Nat} (h : node.Serves history req batch q)
    {xs ys : List RawEvent}
    (hsplit : (history.drop (node.start history req)).filter (node.selects req.filters) = xs ++ ys)
    (hxs : ∀ e ∈ xs, req.InRange e) (hys : ∀ e ∈ ys, ¬ req.InRange e) :
    batch.events = xs.take req.limit.floorNat ∧
      (history.drop q).filter (node.selects req.filters) = xs.drop req.limit.floorNat ++ ys := by
  have hrest : batch.events ++ (history.drop q).filter (node.selects req.filters) = xs ++ ys := by
    rw [h.events, ← List.filter_append, ← drop_eq_stretch_append h.start_le h.le_length, hsplit]
  have hin : ∀ e ∈ batch.events, req.InRange e := by
    intro e he
    rw [h.events] at he
    exact fun l hl => h.in_range e (List.mem_of_mem_filter he) l hl
  obtain ⟨zs, hx, hy⟩ : ∃ zs, xs = batch.events ++ zs ∧
      (history.drop q).filter (node.selects req.filters) = zs ++ ys := by
    rcases List.append_eq_append_iff.mp hrest with ⟨zs, hx, hy⟩ | ⟨zs, hb, hy⟩
    · exact ⟨zs, hx, hy⟩
    · cases zs with
      | nil => exact ⟨[], by simpa using hb.symm, by simpa using hy.symm⟩
      | cons z zs =>
        have hz : z ∈ batch.events := by simp [hb]
        exact absurd (hin z hz) (hys z (by simp [hy]))
  have hlim := h.limit
  by_cases hfull : batch.events.length = req.limit.floorNat
  · rw [hx, ← hfull]
    simp [hy]
  · have hzs : zs = [] := by
      cases zs with
      | nil => rfl
      | cons z zs =>
        have hz : z ∈ (history.drop q).filter (node.selects req.filters) := by simp [hy]
        obtain ⟨hzd, hzs⟩ := List.mem_filter.mp hz
        obtain ⟨l, hl, hlt⟩ := h.full (by omega) z hzd hzs
        have hle := hxs z (by simp [hx]) l hl
        omega
    subst hzs
    rw [hx, hy]
    simp only [List.append_nil, List.nil_append]
    refine ⟨?_, ?_⟩
    · rw [List.take_of_length_le (by omega)]
    · rw [List.drop_of_length_le (by omega), List.nil_append]

theorem Node.Serves.take_all {node : Node} {history : List RawEvent} {req : GetEventsRequest}
    {batch : EventBatch} {q : Nat} (h : node.Serves history req batch q)
    (hend : req.endLedger = none) :
    batch.events = ((history.drop (node.start history req)).filter
        (node.selects req.filters)).take req.limit.floorNat ∧
      (history.drop q).filter (node.selects req.filters) =
        ((history.drop (node.start history req)).filter
          (node.selects req.filters)).drop req.limit.floorNat := by
  have hsplit : (history.drop (node.start history req)).filter (node.selects req.filters) =
      (history.drop (node.start history req)).filter (node.selects req.filters) ++ [] :=
    (List.append_nil _).symm
  have hin : ∀ e : RawEvent, req.InRange e := by
    intro e l hl
    rw [hend] at hl
    cases hl
  have ht := h.take hsplit (fun e _ => hin e) (by simp)
  simpa using ht

/-- The ids remembered all lie before place `p`. -/
def SeenBefore (history : List RawEvent) (p : Nat) (seen : RecentIds) : Prop :=
  ∀ x ∈ seen.ids, x ∈ (history.take p).map RawEvent.id

theorem SeenBefore.not_seen {history : List RawEvent} {p : Nat} {seen : RecentIds}
    (h : SeenBefore history p seen) (hd : (history.map RawEvent.id).Nodup) :
    ∀ e ∈ history.drop p, e.id ∉ seen.ids := by
  intro e he hid
  rw [← List.take_append_drop p history, List.map_append] at hd
  exact (List.nodup_append.mp hd).2.2 e.id (h e.id hid) e.id (List.mem_map_of_mem he) rfl

theorem SeenBefore.append {history more : List RawEvent} {p : Nat} {seen : RecentIds}
    (h : SeenBefore history p seen) (hp : p ≤ history.length) :
    SeenBefore (history ++ more) p seen := by
  intro x hx
  rw [List.take_append_of_le_length hp]
  exact h x hx

theorem Node.Serves.fresh {node : Node} {history : List RawEvent} {req : GetEventsRequest}
    {batch : EventBatch} {q : Nat} {seen : RecentIds} (hs : node.Serves history req batch q)
    (hd : (history.map RawEvent.id).Nodup)
    (hseen : SeenBefore history (node.start history req) seen) :
    (seen.filterFresh batch.events).1 = batch.events ∧
      SeenBefore history q (seen.filterFresh batch.events).2 := by
  have hsub : ∀ e ∈ batch.events, e ∈ stretch history (node.start history req) q := by
    intro e he
    rw [hs.events] at he
    exact List.mem_of_mem_filter he
  have hfresh : (seen.filterFresh batch.events).1 = batch.events := by
    refine filterFresh_new ?_ ?_
    · rw [hs.events]
      refine hd.sublist (List.Sublist.map _ ?_)
      exact (List.filter_sublist).trans ((List.drop_sublist _ _).trans (List.take_sublist _ _))
    · intro e he
      have hdrop : e ∈ history.drop (node.start history req) := by
        rw [drop_eq_stretch_append hs.start_le hs.le_length]
        exact List.mem_append_left _ (hsub e he)
      exact hseen.not_seen hd e hdrop
  refine ⟨hfresh, ?_⟩
  intro x hx
  rcases mem_seen_filterFresh hx with hold | ⟨f, hf, rfl⟩
  · obtain ⟨e, he, rfl⟩ := List.mem_map.mp (hseen x hold)
    exact List.mem_map_of_mem ((List.take_subset_take_left _ hs.start_le) he)
  · exact List.mem_map_of_mem (List.mem_of_mem_drop (hsub f (filterFresh_subset hf)))

/-! ### A node that serves like this -/

/-- Selects everything; a cursor of `n + 1` characters stands for place `n`. -/
def referenceNode : Node := ⟨fun _ _ => true, fun c => c.length - 1⟩

def placeCursor (q : Nat) : String := String.ofList (List.replicate (q + 1) 'c')

theorem position_placeCursor (q : Nat) : referenceNode.position (placeCursor q) = q := by
  simp [referenceNode, placeCursor]

theorem placeCursor_ne (q : Nat) : placeCursor q ≠ "" := by
  intro h
  have hl := congrArg String.length h
  simp [placeCursor] at hl

def GetEventsRequest.inRangeBool (req : GetEventsRequest) (e : RawEvent) : Bool :=
  match req.endLedger with
  | none => true
  | some l => decide (e.ledger ≤ l)

def referencePage (history : List RawEvent) (req : GetEventsRequest) : List RawEvent :=
  ((history.drop (referenceNode.start history req)).takeWhile req.inRangeBool).take
    req.limit.floorNat

def referenceRpc (history : List RawEvent) (req : GetEventsRequest) : EventBatch where
  events := referencePage history req
  cursor := placeCursor (referenceNode.start history req + (referencePage history req).length)
  latestLedger := 100
  oldestLedger := 1

theorem stretch_length_eq_take (history : List RawEvent) (p n : Nat) :
    stretch history p (p + n) = (history.drop p).take n := by
  rw [stretch, List.drop_take]
  congr 1
  omega

theorem dropWhile_out_of_range {req : GetEventsRequest} {events : List RawEvent}
    (hs : events.Pairwise (fun a b => a.ledger ≤ b.ledger)) {e : RawEvent}
    (he : e ∈ events.dropWhile req.inRangeBool) : ∃ l, req.endLedger = some l ∧ l < e.ledger := by
  cases hl : req.endLedger with
  | none =>
    have hall : ∀ x ∈ events, req.inRangeBool x = true := by
      intro x _
      simp [GetEventsRequest.inRangeBool, hl]
    rw [List.dropWhile_eq_nil_iff.mpr hall] at he
    simp at he
  | some l =>
    refine ⟨l, rfl, ?_⟩
    cases hd : events.dropWhile req.inRangeBool with
    | nil =>
      rw [hd] at he
      simp at he
    | cons d ds =>
      have hfail : req.inRangeBool d = false := by
        have hne : events.dropWhile req.inRangeBool ≠ [] := by simp [hd]
        have h := List.head_dropWhile_not req.inRangeBool hne
        simpa [hd] using h
      have hdl : l < d.ledger := by
        simpa [GetEventsRequest.inRangeBool, hl] using hfail
      have hsub : (d :: ds).Pairwise (fun a b => a.ledger ≤ b.ledger) := by
        rw [← hd]
        exact hs.sublist (List.dropWhile_sublist _)
      rw [hd] at he
      rcases List.mem_cons.mp he with rfl | he
      · exact hdl
      · have hle := (List.pairwise_cons.mp hsub).1 e he
        omega

theorem referenceRpc_serves {history : List RawEvent} {req : GetEventsRequest}
    (hs : history.Pairwise (fun a b => a.ledger ≤ b.ledger))
    (hle : referenceNode.start history req ≤ history.length) :
    referenceNode.Serves history req (referenceRpc history req)
      (referenceNode.start history req + (referencePage history req).length) := by
  have hlen : (referencePage history req).length ≤
      (history.drop (referenceNode.start history req)).length := by
    have h1 := (List.takeWhile_prefix req.inRangeBool
      (l := history.drop (referenceNode.start history req))).length_le
    simp only [referencePage, List.length_take]
    omega
  have hpage : referencePage history req =
      stretch history (referenceNode.start history req)
        (referenceNode.start history req + (referencePage history req).length) := by
    rw [stretch_length_eq_take]
    refine List.prefix_iff_eq_take.mp ?_
    exact (List.take_prefix _ _).trans (List.takeWhile_prefix _)
  refine ⟨by omega, ?_, ?_, ?_, ?_, ?_, placeCursor_ne _, position_placeCursor _⟩
  · rw [List.length_drop] at hlen
    omega
  · rw [← hpage]
    simp [referenceRpc, referenceNode]
  · intro e he l hl
    rw [← hpage] at he
    have hr := List.mem_takeWhile_imp (List.mem_of_mem_take he)
    simpa [GetEventsRequest.inRangeBool, hl] using hr
  · simp [referenceRpc, referencePage]
  · intro hlt e he _
    have hshort : (referencePage history req).length =
        ((history.drop (referenceNode.start history req)).takeWhile req.inRangeBool).length := by
      simp only [referenceRpc, referencePage, List.length_take] at hlt ⊢
      omega
    have hd : history.drop (referenceNode.start history req + (referencePage history req).length) =
        (history.drop (referenceNode.start history req)).dropWhile req.inRangeBool := by
      rw [← List.drop_drop, hshort]
      have hsplit := List.takeWhile_append_dropWhile (p := req.inRangeBool)
        (l := history.drop (referenceNode.start history req))
      exact (congrArg (List.drop _) hsplit.symm).trans List.drop_left
    rw [hd] at he
    exact dropWhile_out_of_range (hs.sublist (List.drop_sublist _ _)) he

end SorobanLens
