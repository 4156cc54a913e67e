import SorobanLens.Lib.KeyedTable
import Mathlib.Algebra.BigOperators.Group.List.Basic
import Mathlib.Data.List.Induction

/-!
The event counter of the ingest metrics: a bounded number of contract labels and
one label that the rest share, over every sequence of calls.
-/

set_option autoImplicit false

namespace SorobanLens

def MAX_CONTRACT_LABELS : Nat := 50

def OTHER_CONTRACT : String := "other"

structure EventCount (N : Type) where
  label : String
  count : N

abbrev EventCounts (N : Type) := KeyedTable (EventCount.label (N := N))

structure IngestCall (N : Type) where
  count : N
  contractId : Option String

def IngestCall.contract {N : Type} (call : IngestCall N) : String :=
  call.contractId.getD OTHER_CONTRACT

namespace EventCounts

variable {N : Type}

def named (events : EventCounts N) : Nat :=
  events.rows.length - if events.has OTHER_CONTRACT then 1 else 0

def labelFor (events : EventCounts N) (contract : String) : String :=
  if events.has contract = false ∧ contract ≠ OTHER_CONTRACT ∧ MAX_CONTRACT_LABELS ≤ events.named then
    OTHER_CONTRACT
  else contract

/-- Where a contract's events are counted in the end. -/
def home (events : EventCounts N) (contract : String) : String :=
  if events.has contract then contract else OTHER_CONTRACT

theorem labelFor_cases (events : EventCounts N) (contract : String) :
    (events.labelFor contract = OTHER_CONTRACT ∧ events.has contract = false ∧
        contract ≠ OTHER_CONTRACT ∧ MAX_CONTRACT_LABELS ≤ events.named) ∨
      (events.labelFor contract = contract ∧ (events.has contract = true ∨
        contract = OTHER_CONTRACT ∨ events.named < MAX_CONTRACT_LABELS)) := by
  unfold labelFor
  split
  · rename_i h
    exact .inl ⟨rfl, h⟩
  · rename_i h
    refine .inr ⟨rfl, ?_⟩
    cases hh : events.has contract with
    | true => exact .inl rfl
    | false =>
      by_cases ho : contract = OTHER_CONTRACT
      · exact .inr (.inl ho)
      · refine .inr (.inr ?_)
        by_contra hge
        exact h ⟨hh, ho, by omega⟩

theorem length_named (events : EventCounts N) :
    (events.rows.filter (fun r => decide (r.label ≠ OTHER_CONTRACT))).length = events.named := by
  have hsplit : events.rows.length =
      (events.rows.filter (fun r => decide (r.label = OTHER_CONTRACT))).length +
        (events.rows.filter (fun r => decide (r.label ≠ OTHER_CONTRACT))).length := by
    simpa using List.length_eq_length_filter_add (l := events.rows)
      (fun r => decide (r.label = OTHER_CONTRACT))
  unfold named
  cases h : events.has OTHER_CONTRACT with
  | true =>
    have hone := KeyedTable.count_key h
    simp only [if_true]
    omega
  | false =>
    have hnone : events.rows.filter (fun r => decide (r.label = OTHER_CONTRACT)) = [] := by
      refine List.filter_eq_nil_iff.mpr ?_
      intro r hr
      simpa using KeyedTable.not_has_iff.mp h r hr
    rw [hnone] at hsplit
    simp only [List.length_nil, Nat.zero_add] at hsplit
    simp only [Bool.false_eq_true, if_false, Nat.sub_zero]
    exact hsplit.symm

variable [AddCommMonoid N]

def countOf (events : EventCounts N) (label : String) : N :=
  ((events.find? label).map EventCount.count).getD 0

def eventsIngested (events : EventCounts N) (call : IngestCall N) : EventCounts N :=
  let label := events.labelFor call.contract
  events.upsert ⟨label, events.countOf label + call.count⟩

def ingested (calls : List (IngestCall N)) : EventCounts N :=
  calls.foldl eventsIngested KeyedTable.empty

theorem ingested_append_singleton (calls : List (IngestCall N)) (call : IngestCall N) :
    ingested (calls ++ [call]) = (ingested calls).eventsIngested call := by
  simp [ingested]

theorem has_eventsIngested {events : EventCounts N} {call : IngestCall N} {label : String} :
    (events.eventsIngested call).has label = true ↔
      label = events.labelFor call.contract ∨ events.has label = true :=
  KeyedTable.has_upsert

theorem countOf_eventsIngested (events : EventCounts N) (call : IngestCall N) (label : String) :
    (events.eventsIngested call).countOf label =
      events.countOf label + if label = events.labelFor call.contract then call.count else 0 := by
  by_cases h : label = events.labelFor call.contract
  · have hfound := KeyedTable.find?_upsert_self events
      ⟨events.labelFor call.contract, events.countOf (events.labelFor call.contract) + call.count⟩
    rw [h, if_pos rfl, countOf, eventsIngested]
    simp only at hfound ⊢
    rw [hfound]
    rfl
  · have hfound := KeyedTable.find?_upsert_of_ne (t := events) (k := label)
      (r := ⟨events.labelFor call.contract, events.countOf (events.labelFor call.contract) + call.count⟩) h
    rw [if_neg h, add_zero, countOf, eventsIngested, hfound, countOf]

theorem named_eventsIngested (events : EventCounts N) (call : IngestCall N) :
    (events.eventsIngested call).named = events.named +
      if events.has (events.labelFor call.contract) = false ∧
        events.labelFor call.contract ≠ OTHER_CONTRACT then 1 else 0 := by
  have hlen : (events.eventsIngested call).rows.length =
      events.rows.length + if events.has (events.labelFor call.contract) then 0 else 1 :=
    KeyedTable.length_upsert events _
  have hpos : events.has OTHER_CONTRACT = true → 1 ≤ events.rows.length := by
    intro h
    obtain ⟨r, hr, -⟩ := KeyedTable.has_iff.mp h
    exact List.length_pos_of_mem hr
  unfold named
  rw [hlen]
  by_cases hl : events.labelFor call.contract = OTHER_CONTRACT
  · have hnow : (events.eventsIngested call).has OTHER_CONTRACT = true :=
      has_eventsIngested.mpr (.inl hl.symm)
    rw [hl, hnow]
    cases h : events.has OTHER_CONTRACT with
    | true => simp
    | false => simp
  · have hsame : (events.eventsIngested call).has OTHER_CONTRACT = events.has OTHER_CONTRACT := by
      rw [Bool.eq_iff_iff, has_eventsIngested]
      simp [Ne.symm hl]
    rw [hsame]
    cases h : events.has OTHER_CONTRACT with
    | true =>
      have hone := hpos h
      cases hnew : events.has (events.labelFor call.contract) with
      | true => simp
      | false =>
        simp only [hl, if_true, if_false, Bool.false_eq_true, ne_eq, not_false_eq_true, and_self]
        omega
    | false => cases hnew : events.has (events.labelFor call.contract) <;> simp [hl]

theorem sum_replace {rows : List (EventCount N)} {label : String} {x : N} (n : N)
    (hd : (rows.map EventCount.label).Nodup) (hmem : ⟨label, x⟩ ∈ rows) :
    ((rows.map (fun r => if r.label = label then ⟨label, x + n⟩ else r)).map
      EventCount.count).sum = (rows.map EventCount.count).sum + n := by
  induction rows with
  | nil => simp at hmem
  | cons r rs ih =>
    obtain ⟨hr, hd⟩ := List.nodup_cons.mp hd
    rcases List.mem_cons.mp hmem with rfl | hmem
    · have hrest : rs.map (fun r => if r.label = label then ⟨label, x + n⟩ else r) = rs := by
        refine (List.map_congr_left ?_).trans (List.map_id rs)
        intro r hmem
        have hne : r.label ≠ label := by
          intro h
          exact hr (List.mem_map.mpr ⟨r, hmem, h⟩)
        rw [if_neg hne]
        rfl
      simp [hrest, add_right_comm]
    · have hne : r.label ≠ label := by
        intro h
        rw [h] at hr
        exact hr (List.mem_map_of_mem (f := EventCount.label) hmem)
      simp only [List.map_cons, if_neg hne, List.sum_cons, ih hd hmem, add_assoc]

theorem sum_eventsIngested (events : EventCounts N) (call : IngestCall N) :
    ((events.eventsIngested call).rows.map EventCount.count).sum =
      (events.rows.map EventCount.count).sum + call.count := by
  unfold eventsIngested KeyedTable.upsert
  simp only
  split
  · rename_i h
    obtain ⟨r, hr, hl⟩ := KeyedTable.has_iff.mp h
    have hfound : events.find? (events.labelFor call.contract) = some r :=
      KeyedTable.find?_eq_some.mpr ⟨hr, hl⟩
    have hrow : ⟨events.labelFor call.contract, r.count⟩ ∈ events.rows := by
      rw [← hl]
      exact hr
    simp only [countOf, hfound, Option.map_some, Option.getD_some]
    exact sum_replace call.count events.nodup hrow
  · rename_i h
    rw [Bool.not_eq_true] at h
    have hnone : events.find? (events.labelFor call.contract) = none :=
      KeyedTable.find?_eq_none.mpr (KeyedTable.not_has_iff.mp h)
    rw [KeyedTable.rows_insertOrIgnore_of_not_has h]
    simp [countOf, hnone]

/-! ### Runs -/

/-- What a run has settled: the labels are few, and a contract without one found
them full when it came. -/
structure Settled (calls : List (IngestCall N)) (events : EventCounts N) : Prop where
  few : events.named ≤ MAX_CONTRACT_LABELS
  full : ∀ call ∈ calls, events.has call.contract = false → MAX_CONTRACT_LABELS ≤ events.named
  counted : ∀ label, events.countOf label =
    ((calls.filter (fun call => decide (events.home call.contract = label))).map
      IngestCall.count).sum

theorem Settled.home_eq {calls : List (IngestCall N)} {events : EventCounts N}
    (h : Settled calls events) (call : IngestCall N) {earlier : IngestCall N} (he : earlier ∈ calls) :
    (events.eventsIngested call).home earlier.contract = events.home earlier.contract := by
  unfold home
  cases hh : events.has earlier.contract with
  | true => rw [has_eventsIngested.mpr (.inr hh)]
  | false =>
    have hfull := h.full earlier he hh
    by_cases hl : earlier.contract = events.labelFor call.contract
    · have hother : earlier.contract = OTHER_CONTRACT := by
        rcases labelFor_cases events call.contract with ⟨hother, -⟩ | ⟨hown, hhas | ho | hlt⟩
        · rw [hl, hother]
        · rw [hl, hown, hhas] at hh
          cases hh
        · rw [hl, hown, ho]
        · omega
      simp [hother]
    · have hnot : (events.eventsIngested call).has earlier.contract = false := by
        rw [Bool.eq_false_iff, ne_eq, has_eventsIngested]
        simp [hl, hh]
      rw [hnot]

theorem home_eventsIngested (events : EventCounts N) (call : IngestCall N) :
    (events.eventsIngested call).home call.contract = events.labelFor call.contract := by
  unfold home
  rcases labelFor_cases events call.contract with ⟨hother, hnew, hne, -⟩ | ⟨hown, -⟩
  · have hnot : (events.eventsIngested call).has call.contract = false := by
      rw [Bool.eq_false_iff, ne_eq, has_eventsIngested]
      simp [hother, hne, hnew]
    rw [hnot, hother]
    rfl
  · rw [has_eventsIngested.mpr (.inl hown.symm), hown]
    rfl

theorem Settled.step {calls : List (IngestCall N)} {events : EventCounts N}
    (h : Settled calls events) (call : IngestCall N) :
    Settled (calls ++ [call]) (events.eventsIngested call) where
  few := by
    have hfew := h.few
    rw [named_eventsIngested]
    split
    · rename_i hnew
      rcases labelFor_cases events call.contract with ⟨hother, -⟩ | ⟨hown, hhas | ho | hlt⟩
      · exact absurd hother hnew.2
      · rw [hown, hhas] at hnew
        cases hnew.1
      · exact absurd (hown.trans ho) hnew.2
      · omega
    · omega
  full := by
    intro other hmem hnot
    have hle : events.named ≤ (events.eventsIngested call).named := by
      rw [named_eventsIngested]
      omega
    rw [Bool.eq_false_iff, ne_eq, has_eventsIngested, not_or, Bool.not_eq_true] at hnot
    rcases List.mem_append.mp hmem with hmem | hmem
    · exact Nat.le_trans (h.full other hmem hnot.2) hle
    · rw [List.mem_singleton.mp hmem] at hnot
      rcases labelFor_cases events call.contract with ⟨-, -, -, hfull⟩ | ⟨hown, -⟩
      · exact Nat.le_trans hfull hle
      · exact absurd hown.symm hnot.1
  counted := by
    intro label
    have hsame : calls.filter
        (fun earlier => decide ((events.eventsIngested call).home earlier.contract = label)) =
        calls.filter (fun earlier => decide (events.home earlier.contract = label)) := by
      refine List.filter_congr ?_
      intro earlier he
      rw [h.home_eq call he]
    rw [countOf_eventsIngested, h.counted, List.filter_append, List.map_append, List.sum_append, hsame]
    congr 1
    by_cases hl : label = events.labelFor call.contract
    · simp [home_eventsIngested, hl]
    · simp [home_eventsIngested, hl, Ne.symm hl]

theorem settled_ingested (calls : List (IngestCall N)) : Settled calls (ingested calls) := by
  induction calls using List.reverseRecOn with
  | nil =>
    refine ⟨by simp [ingested, named], by simp, ?_⟩
    intro label
    simp [ingested, countOf, KeyedTable.find?]
  | append_singleton calls call ih =>
    rw [ingested_append_singleton]
    exact ih.step call

theorem sum_ingested (calls : List (IngestCall N)) :
    ((ingested calls).rows.map EventCount.count).sum = (calls.map IngestCall.count).sum := by
  induction calls using List.reverseRecOn with
  | nil => simp [ingested]
  | append_singleton calls call ih =>
    rw [ingested_append_singleton, sum_eventsIngested, ih]
    simp

/-- A contract that was counted is counted under the same label for good. -/
theorem home_ingested_append (calls after : List (IngestCall N)) {call : IngestCall N}
    (h : call ∈ calls) :
    (ingested (calls ++ after)).home call.contract = (ingested calls).home call.contract := by
  induction after using List.reverseRecOn with
  | nil => rw [List.append_nil]
  | append_singleton after last ih =>
    rw [← List.append_assoc, ingested_append_singleton,
      (settled_ingested (calls ++ after)).home_eq last (List.mem_append_left _ h), ih]

/-- After any calls: at most fifty labels beside `other`; the labels' counts add up to
what came in; a named label counts exactly its contract's events, `other` those of
the contracts without a label; and every call went under its contract's label. -/
theorem labels_bounded (calls : List (IngestCall N)) :
    ((ingested calls).rows.filter (fun r => decide (r.label ≠ OTHER_CONTRACT))).length ≤
        MAX_CONTRACT_LABELS ∧
      ((ingested calls).rows.map EventCount.count).sum = (calls.map IngestCall.count).sum ∧
      (∀ r ∈ (ingested calls).rows, r.label ≠ OTHER_CONTRACT → r.count =
        ((calls.filter (fun call => decide (call.contract = r.label))).map IngestCall.count).sum) ∧
      (∀ r ∈ (ingested calls).rows, r.label = OTHER_CONTRACT → r.count =
        ((calls.filter (fun call => decide (call.contract = OTHER_CONTRACT) ||
          !(ingested calls).has call.contract)).map IngestCall.count).sum) ∧
      ∀ before call after, calls = before ++ call :: after →
        (ingested before).labelFor call.contract =
          if (ingested calls).has call.contract then call.contract else OTHER_CONTRACT := by
  have hsettled := settled_ingested calls
  have hcount : ∀ r ∈ (ingested calls).rows, r.count = ((calls.filter
      (fun call => decide ((ingested calls).home call.contract = r.label))).map
        IngestCall.count).sum := by
    intro r hr
    have hfound : (ingested calls).find? r.label = some r := KeyedTable.find?_eq_some.mpr ⟨hr, rfl⟩
    rw [← hsettled.counted, countOf, hfound]
    rfl
  refine ⟨?_, sum_ingested calls, ?_, ?_, ?_⟩
  · rw [length_named]
    exact hsettled.few
  · intro r hr hne
    rw [hcount r hr]
    congr 2
    refine List.filter_congr ?_
    intro call _
    rw [decide_eq_decide]
    unfold home
    split
    · rfl
    · rename_i hnot
      constructor
      · intro heq
        exact absurd heq.symm hne
      · intro heq
        rw [heq] at hnot
        exact absurd (KeyedTable.has_of_mem hr) hnot
  · intro r hr heq
    rw [hcount r hr]
    congr 2
    refine List.filter_congr ?_
    intro call _
    rw [heq]
    unfold home
    cases hh : (ingested calls).has call.contract <;> simp
  · intro before call after heq
    have hmem : call ∈ before ++ [call] := List.mem_append_right _ List.mem_cons_self
    have hstable := home_ingested_append (before ++ [call]) after hmem
    rw [ingested_append_singleton, home_eventsIngested] at hstable
    rw [heq, ← hstable, List.append_assoc]
    rfl

end EventCounts

end SorobanLens
