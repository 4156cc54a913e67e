import Mathlib.Order.RelClasses
import Mathlib.Data.List.Sort
import Mathlib.Data.List.DropRight

/-!
Keyset paging over rows whose keys are strictly ordered: a page is a stretch of
the ordered rows, cut by a key on one side and by a length on the other.
-/

set_option autoImplicit false

namespace Keyset

variable {ρ κ : Type}

/-- A stretch of rows with what lies on either side of it. -/
structure Window (ρ : Type) where
  before : List ρ
  page : List ρ
  after : List ρ

def Window.all (w : Window ρ) : List ρ := w.before ++ w.page ++ w.after

def Window.next (key : ρ → κ) (w : Window ρ) : Option κ :=
  if w.after.isEmpty then none else w.page.getLast?.map key

def Window.prev (key : ρ → κ) (w : Window ρ) : Option κ :=
  if w.before.isEmpty then none else w.page.head?.map key

section Order

variable (key : ρ → κ) (r : κ → κ → Prop) [DecidableRel r]

def arrange (rows : List ρ) : List ρ :=
  rows.insertionSort (fun a b => ¬ r (key b) (key a))

def Ascending (rows : List ρ) : Prop := rows.Pairwise (fun a b => r (key a) (key b))

/-- A row lies after the cursor; without one every row does. -/
def past (c : Option κ) (row : ρ) : Bool :=
  match c with
  | none => true
  | some k => decide (r k (key row))

def short (c : Option κ) (row : ρ) : Bool :=
  match c with
  | none => true
  | some k => decide (r (key row) k)

def forward (xs : List ρ) (c : Option κ) (n : Nat) : Window ρ where
  before := xs.filter (fun x => !past key r c x)
  page := (xs.filter (past key r c)).take n
  after := (xs.filter (past key r c)).drop n

def backward (xs : List ρ) (c : Option κ) (n : Nat) : Window ρ where
  before := (xs.filter (short key r c)).rdrop n
  page := (xs.filter (short key r c)).rtake n
  after := xs.filter (fun x => !short key r c x)

end Order

section Facts

variable {key : ρ → κ} {r : κ → κ → Prop}

theorem mem_arrange [DecidableRel r] {rows : List ρ} {x : ρ} :
    x ∈ arrange key r rows ↔ x ∈ rows :=
  List.mem_insertionSort _

theorem Ascending.filter {xs : List ρ} (h : Ascending key r xs) (p : ρ → Bool) :
    Ascending key r (xs.filter p) := List.Pairwise.filter p h

theorem next_eq_some {w : Window ρ} {k : κ} (h : w.next key = some k) :
    ∃ x, w.page.getLast? = some x ∧ key x = k ∧ w.after ≠ [] := by
  unfold Window.next at h
  split at h
  · cases h
  · rename_i hafter
    obtain ⟨x, hx, hid⟩ := Option.map_eq_some_iff.mp h
    exact ⟨x, hx, hid, by simpa using hafter⟩

/-- A property that spreads to every later row cuts ordered rows in two. -/
theorem filter_not_append_filter {xs : List ρ} (h : Ascending key r xs) {p : ρ → Bool}
    (hp : ∀ a b, r (key a) (key b) → p a = true → p b = true) :
    xs.filter (fun x => !p x) ++ xs.filter p = xs := by
  induction xs with
  | nil => rfl
  | cons x xs ih =>
    have hx := List.pairwise_cons.mp h
    cases hpx : p x with
    | false => simp [hpx, ih hx.2]
    | true =>
      have hall : ∀ y ∈ xs, p y = true := fun y hy => hp x y (hx.1 y hy) hpx
      have hno : xs.filter (fun y => !p y) = [] := by simpa using hall
      have hkeep : xs.filter p = xs := List.filter_eq_self.mpr hall
      simp [hpx, hno, hkeep]

theorem length_page_forward [DecidableRel r] {xs : List ρ} {c : Option κ} {n : Nat}
    (h : (forward key r xs c n).after ≠ []) : (forward key r xs c n).page.length = n := by
  simp only [forward, ne_eq, List.drop_eq_nil_iff, not_le] at h
  simp only [forward, List.length_take]
  omega

theorem probe_iff (ys : List ρ) (n : Nat) : n < (ys.take (n + 1)).length ↔ ys.drop n ≠ [] := by
  simp only [List.length_take, ne_eq, List.drop_eq_nil_iff]
  omega

theorem page_of_probe (ys : List ρ) (n : Nat) :
    (if n < (ys.take (n + 1)).length then (ys.take (n + 1)).take n else ys.take (n + 1)) =
      ys.take n := by
  split
  · rw [List.take_take]
    simp
  · rename_i h
    have hlen : ys.length ≤ n := by
      simp only [List.length_take] at h
      omega
    rw [List.take_of_length_le hlen, List.take_of_length_le (by omega)]

variable [IsStrictTotalOrder κ r]

theorem Ascending.eq_of_mem {xs ys : List ρ} (hx : Ascending key r xs) (hy : Ascending key r ys)
    (h : ∀ x, x ∈ xs ↔ x ∈ ys) : xs = ys := by
  have hirr : Std.Irrefl (fun a b : ρ => r (key a) (key b)) := ⟨fun a => irrefl (key a)⟩
  have hanti : Std.Antisymm (fun a b : ρ => r (key a) (key b)) :=
    ⟨fun a b hab hba => absurd hba (asymm hab)⟩
  exact List.Pairwise.eq_of_mem_iff hx hy h

variable [DecidableRel r]

theorem ascending_arrange {rows : List ρ} (h : (rows.map key).Nodup) :
    Ascending key r (arrange key r rows) := by
  have htotal : Std.Total (fun a b : ρ => ¬ r (key b) (key a)) :=
    ⟨fun a b => by
      by_cases hab : r (key a) (key b)
      · exact .inl (asymm hab)
      · exact .inr hab⟩
  have htrans : IsTrans ρ (fun a b : ρ => ¬ r (key b) (key a)) :=
    ⟨fun a b c hab hbc hca => by
      rcases trichotomous_of r (key b) (key c) with hlt | heq | hgt
      · exact hab (IsTrans.trans _ _ _ hlt hca)
      · rw [heq] at hab
        exact hab hca
      · exact hbc hgt⟩
  have hsorted := List.pairwise_insertionSort (fun a b : ρ => ¬ r (key b) (key a)) rows
  have hkeys : (arrange key r rows).Pairwise (fun a b => key a ≠ key b) := by
    have hperm := (List.perm_insertionSort (fun a b : ρ => ¬ r (key b) (key a)) rows).map key
    exact List.pairwise_map.mp (hperm.nodup_iff.mpr h)
  refine (hsorted.and hkeys).imp ?_
  intro a b hab
  rcases trichotomous_of r (key a) (key b) with hlt | heq | hgt
  · exact hlt
  · exact absurd heq hab.2
  · exact absurd hgt hab.1

theorem nodup_filter {rows : List ρ} (h : (rows.map key).Nodup) (p : ρ → Bool) :
    ((rows.filter p).map key).Nodup := (List.filter_sublist.map key).nodup h

/-- Sorting what a filter keeps keeps it of the sorted rows. -/
theorem arrange_filter {rows : List ρ} (h : (rows.map key).Nodup) (p : ρ → Bool) :
    arrange key r (rows.filter p) = (arrange key r rows).filter p := by
  apply Ascending.eq_of_mem (ascending_arrange (nodup_filter h p)) ((ascending_arrange h).filter p)
  intro x
  simp [mem_arrange]

theorem arrange_swap {rows : List ρ} (h : (rows.map key).Nodup) :
    arrange key (fun a b => r b a) rows = (arrange key r rows).reverse := by
  have hswap : IsStrictTotalOrder κ (fun a b => r b a) :=
    inferInstanceAs (IsStrictTotalOrder κ (Function.swap r))
  apply Ascending.eq_of_mem (r := fun a b => r b a) (ascending_arrange h)
  · exact List.pairwise_reverse.mpr (ascending_arrange h)
  · intro x
    simp [mem_arrange]

/-! ### Cutting ordered rows -/

theorem past_mono {c : Option κ} {a b : ρ} (h : r (key a) (key b)) (ha : past key r c a = true) :
    past key r c b = true := by
  cases c with
  | none => rfl
  | some k =>
    simp only [past, decide_eq_true_eq] at ha ⊢
    exact IsTrans.trans _ _ _ ha h

theorem not_short_mono {c : Option κ} {a b : ρ} (h : r (key a) (key b))
    (ha : (!short key r c a) = true) : (!short key r c b) = true := by
  cases c with
  | none => simp [short] at ha
  | some k =>
    simp only [short, Bool.not_eq_eq_eq_not, Bool.not_true, decide_eq_false_iff_not] at ha ⊢
    exact fun hb => ha (IsTrans.trans _ _ _ h hb)

theorem forward_all {xs : List ρ} (h : Ascending key r xs) (c : Option κ) (n : Nat) :
    (forward key r xs c n).all = xs := by
  simp only [Window.all, forward, List.append_assoc, List.take_append_drop]
  exact filter_not_append_filter h (fun a b => past_mono)

theorem backward_all {xs : List ρ} (h : Ascending key r xs) (c : Option κ) (n : Nat) :
    (backward key r xs c n).all = xs := by
  have hcut := filter_not_append_filter h (p := fun x => !short key r c x)
    (fun a b => not_short_mono)
  simp only [Bool.not_not] at hcut
  simp only [Window.all, backward, List.rdrop, List.rtake, List.take_append_drop]
  exact hcut

theorem filter_past_at {lo hi : List ρ} {x : ρ} (h : Ascending key r (lo ++ x :: hi)) :
    (lo ++ x :: hi).filter (past key r (some (key x))) = hi := by
  obtain ⟨-, hx, hlo⟩ := List.pairwise_append.mp h
  have hx := (List.pairwise_cons.mp hx).1
  have hno : ∀ y ∈ lo, ¬ r (key x) (key y) := fun y hy => asymm (hlo y hy x List.mem_cons_self)
  have hleft : lo.filter (past key r (some (key x))) = [] := by simpa [past] using hno
  have hright : hi.filter (past key r (some (key x))) = hi := by simpa [past] using hx
  have hself : past key r (some (key x)) x = false := by simpa [past] using irrefl (key x)
  simp [hleft, hright, hself]

theorem filter_short_at {lo hi : List ρ} {x : ρ} (h : Ascending key r (lo ++ x :: hi)) :
    (lo ++ x :: hi).filter (short key r (some (key x))) = lo := by
  obtain ⟨-, hx, hlo⟩ := List.pairwise_append.mp h
  have hx := (List.pairwise_cons.mp hx).1
  have hno : ∀ y ∈ hi, ¬ r (key y) (key x) := fun y hy => asymm (hx y hy)
  have hall : ∀ y ∈ lo, r (key y) (key x) := fun y hy => hlo y hy x List.mem_cons_self
  have hright : hi.filter (short key r (some (key x))) = [] := by simpa [short] using hno
  have hleft : lo.filter (short key r (some (key x))) = lo := by simpa [short] using hall
  have hself : short key r (some (key x)) x = false := by simpa [short] using irrefl (key x)
  simp [hleft, hright, hself]

theorem filter_past_last {w : Window ρ} (h : Ascending key r w.all) {x : ρ}
    (hx : w.page.getLast? = some x) : w.all.filter (past key r (some (key x))) = w.after := by
  obtain ⟨ys, hys⟩ := List.getLast?_eq_some_iff.mp hx
  have hall : w.all = (w.before ++ ys) ++ x :: w.after := by simp [Window.all, hys]
  rw [hall] at h ⊢
  exact filter_past_at h

theorem filter_short_first {w : Window ρ} (h : Ascending key r w.all) {x : ρ}
    (hx : w.page.head? = some x) : w.all.filter (short key r (some (key x))) = w.before := by
  obtain ⟨ys, hys⟩ := List.head?_eq_some_iff.mp hx
  have hall : w.all = w.before ++ x :: (ys ++ w.after) := by simp [Window.all, hys]
  rw [hall] at h ⊢
  exact filter_short_at h

theorem next_eq_probe {w : Window ρ} (h : Ascending key r w.all) :
    w.next key = (w.page.getLast?.map key).filter
      (fun k => w.all.any (fun y => past key r (some k) y)) := by
  cases hx : w.page.getLast? with
  | none => simp [Window.next, hx]
  | some x =>
    have hany : w.all.any (past key r (some (key x))) = !w.after.isEmpty := by
      rw [← filter_past_last h hx, Bool.eq_iff_iff]
      simp [List.filter_eq_nil_iff]
    cases hw : w.after.isEmpty <;> simp [Window.next, hx, hany, hw, Option.filter]

theorem prev_eq_probe {w : Window ρ} (h : Ascending key r w.all) :
    w.prev key = (w.page.head?.map key).filter
      (fun k => w.all.any (fun y => short key r (some k) y)) := by
  cases hx : w.page.head? with
  | none => simp [Window.prev, hx]
  | some x =>
    have hany : w.all.any (short key r (some (key x))) = !w.before.isEmpty := by
      rw [← filter_short_first h hx, Bool.eq_iff_iff]
      simp [List.filter_eq_nil_iff]
    cases hw : w.before.isEmpty <;> simp [Window.prev, hx, hany, hw, Option.filter]

theorem next_eq_none_iff {w : Window ρ} (h : Ascending key r w.all) {x : ρ}
    (hx : w.page.getLast? = some x) : w.next key = none ↔ ∀ y ∈ w.all, ¬ r (key x) (key y) := by
  have hafter := filter_past_last h hx
  have hnone : w.next key = none ↔ w.after = [] := by
    cases hw : w.after <;> simp [Window.next, hx, hw]
  rw [hnone, ← hafter, List.filter_eq_nil_iff]
  simp [past]

theorem prev_eq_none_iff {w : Window ρ} (h : Ascending key r w.all) {x : ρ}
    (hx : w.page.head? = some x) : w.prev key = none ↔ ∀ y ∈ w.all, ¬ r (key y) (key x) := by
  have hbefore := filter_short_first h hx
  have hnone : w.prev key = none ↔ w.before = [] := by
    cases hw : w.before <;> simp [Window.prev, hx, hw]
  rw [hnone, ← hbefore, List.filter_eq_nil_iff]
  simp [short]

/-- Paging on from a page's last row. -/
theorem forward_from_last {w : Window ρ} (h : Ascending key r w.all) {x : ρ}
    (hx : w.page.getLast? = some x) (n : Nat) :
    forward key r w.all (some (key x)) n =
      ⟨w.before ++ w.page, w.after.take n, w.after.drop n⟩ := by
  have hafter := filter_past_last h hx
  have hcut := filter_not_append_filter h (p := past key r (some (key x))) (fun a b => past_mono)
  rw [hafter] at hcut
  have hbefore : w.all.filter (fun y => !past key r (some (key x)) y) = w.before ++ w.page :=
    List.append_cancel_right hcut
  simp only [forward, hafter, hbefore]

theorem backward_from_first {w : Window ρ} (h : Ascending key r w.all) {x : ρ}
    (hx : w.page.head? = some x) (n : Nat) :
    backward key r w.all (some (key x)) n =
      ⟨w.before.rdrop n, w.before.rtake n, w.page ++ w.after⟩ := by
  have hbefore := filter_short_first h hx
  have hcut := filter_not_append_filter h (p := fun y => !short key r (some (key x)) y)
    (fun a b => not_short_mono)
  simp only [Bool.not_not, hbefore] at hcut
  have hafter : w.all.filter (fun y => !short key r (some (key x)) y) = w.page ++ w.after := by
    have heq : w.before ++ w.all.filter (fun y => !short key r (some (key x)) y) =
        w.before ++ (w.page ++ w.after) := by
      rw [hcut, Window.all, List.append_assoc]
    exact List.append_cancel_left heq
  simp only [backward, hafter, hbefore]

/-- Paging on and then back returns to the same window. -/
theorem backward_of_next {xs : List ρ} (h : Ascending key r xs) {c : Option κ} {n : Nat} {x y : ρ}
    (hx : (forward key r xs c n).page.getLast? = some x)
    (hy : (forward key r xs (some (key x)) n).page.head? = some y) :
    backward key r xs (some (key y)) n = forward key r xs c n := by
  have hall := forward_all h c n
  have hw : Ascending key r (forward key r xs c n).all := by rwa [hall]
  have hnext := forward_from_last hw hx n
  rw [hall] at hnext
  have hafter : (forward key r xs c n).after ≠ [] := by
    intro hnil
    rw [hnext, hnil] at hy
    simp at hy
  have hlen := length_page_forward hafter
  have hallNext := forward_all h (some (key x)) n
  have hback := backward_from_first (w := forward key r xs (some (key x)) n)
    (by rwa [hallNext]) hy n
  rw [hallNext, hnext] at hback
  rw [hback]
  simp [List.rdrop, List.rtake, hlen]

/-! ### Keys alone -/

def Window.map {σ : Type} (f : ρ → σ) (w : Window ρ) : Window σ :=
  ⟨w.before.map f, w.page.map f, w.after.map f⟩

theorem arrange_map {rows : List ρ} (h : (rows.map key).Nodup) :
    (arrange key r rows).map key = arrange id r (rows.map key) := by
  have hkeys : ((rows.map key).map id).Nodup := by simpa using h
  have hleft : Ascending id r ((arrange key r rows).map key) :=
    List.pairwise_map.mpr (ascending_arrange h)
  refine hleft.eq_of_mem (ascending_arrange hkeys) ?_
  intro k
  simp [mem_arrange]

end Facts

section Keys

variable {key : ρ → κ} {r : κ → κ → Prop} [DecidableRel r]

theorem forward_map (xs : List ρ) (c : Option κ) (n : Nat) :
    (forward key r xs c n).map key = forward id r (xs.map key) c n := by
  have hpast : (past id r c) ∘ key = past key r c := by
    funext x
    cases c <;> rfl
  simp only [Window.map, forward, List.map_take, List.map_drop, List.filter_map, ← hpast]
  rfl

theorem backward_map (xs : List ρ) (c : Option κ) (n : Nat) :
    (backward key r xs c n).map key = backward id r (xs.map key) c n := by
  have hshort : (short id r c) ∘ key = short key r c := by
    funext x
    cases c <;> rfl
  simp only [Window.map, backward, List.rtake, List.rdrop, List.map_take, List.map_drop,
    List.filter_map, ← hshort, List.length_map]
  rfl

theorem next_map (w : Window ρ) : (w.map key).next id = w.next key := by
  simp [Window.next, Window.map, List.getLast?_map]

theorem prev_map (w : Window ρ) : (w.map key).prev id = w.prev key := by
  simp [Window.prev, Window.map, List.head?_map]

end Keys

/-! ### Rows that come late -/

section Rank

variable (key : ρ → κ) (r : κ → κ → Prop) [DecidableRel r]

/-- How many rows come before a key. -/
def rank (rows : List ρ) (k : κ) : Nat := (rows.filter (fun x => decide (r (key x) k))).length

theorem rank_le_length (rows : List ρ) (k : κ) : rank key r rows k ≤ rows.length :=
  List.length_filter_le _ rows

theorem rank_arrange (rows : List ρ) (k : κ) :
    rank key r (arrange key r rows) k = rank key r rows k :=
  ((List.perm_insertionSort _ rows).filter _).length_eq

end Rank

section Late

variable {key : ρ → κ} {r : κ → κ → Prop} [DecidableRel r] [IsStrictTotalOrder κ r]

theorem before_append_after {xs : List ρ} (h : Ascending key r xs) (k : κ) :
    xs.filter (fun x => decide (r (key x) k)) ++ xs.filter (fun x => !decide (r (key x) k)) = xs := by
  have hcut := filter_not_append_filter h (p := fun x => !decide (r (key x) k)) (by
    intro a b hab ha
    simp only [Bool.not_eq_eq_eq_not, Bool.not_true, decide_eq_false_iff_not] at ha ⊢
    exact fun hb => ha (IsTrans.trans _ _ _ hab hb))
  simpa only [Bool.not_not] using hcut

theorem before_of_mem_take {xs : List ρ} (h : Ascending key r xs) {n : Nat} {k : κ}
    (hk : n ≤ rank key r xs k) {x : ρ} (hx : x ∈ xs.take n) : r (key x) k := by
  rw [← before_append_after h k, List.take_append_of_le_length hk] at hx
  simpa using (List.mem_filter.mp (List.mem_of_mem_take hx)).2

theorem mem_take_iff_rank {xs : List ρ} (h : Ascending key r xs) {n : Nat} {x : ρ} (hx : x ∈ xs) :
    x ∈ xs.take n ↔ rank key r xs (key x) < n := by
  constructor
  · intro hmem
    by_contra hge
    exact irrefl (key x) (before_of_mem_take h (Nat.le_of_not_lt hge) hmem)
  · intro hlt
    have hcut := before_append_after h (key x)
    have hmem : x ∈ xs.filter (fun y => !decide (r (key y) (key x))) := by
      simpa using ⟨hx, irrefl (key x)⟩
    have hasc := h.filter (fun y => !decide (r (key y) (key x)))
    cases hrest : xs.filter (fun y => !decide (r (key y) (key x))) with
    | nil => simp [hrest] at hmem
    | cons y rest =>
      rw [hrest] at hmem hasc hcut
      have hy : y = x := by
        cases hmem with
        | head => rfl
        | tail _ hrestmem =>
          have hbefore := (List.pairwise_cons.mp hasc).1 x hrestmem
          have hyc : y ∈ xs.filter (fun y => !decide (r (key y) (key x))) := by simp [hrest]
          have hnot := (List.mem_filter.mp hyc).2
          simp [hbefore] at hnot
      rw [← hcut, List.take_append, hy]
      obtain ⟨m, hm⟩ : ∃ m, n - rank key r xs (key x) = m + 1 := ⟨n - rank key r xs (key x) - 1, by omega⟩
      unfold rank at hm
      simp [hm]

/-- Late rows, each with `n` others before it, do not enter the first `n`. -/
theorem take_arrange_append {rows more : List ρ} (h : ((rows ++ more).map key).Nodup) {n : Nat}
    (hlate : ∀ m ∈ more, n ≤ rank key r rows (key m)) :
    (arrange key r (rows ++ more)).take n = (arrange key r rows).take n := by
  cases more with
  | nil => simp
  | cons m more =>
    have hrows : (rows.map key).Nodup := (List.Sublist.map key (List.sublist_append_left _ _)).nodup h
    have hasc := ascending_arrange (r := r) hrows
    have hlen : ((arrange key r rows).take n).length = n := by
      have hn := hlate m List.mem_cons_self
      have hle := rank_le_length key r rows (key m)
      have hsame : (arrange key r rows).length = rows.length := (List.perm_insertionSort _ rows).length_eq
      rw [List.length_take]
      omega
    have hnodup : (((arrange key r rows).drop n ++ m :: more).map key).Nodup := by
      have hperm : (arrange key r rows ++ m :: more).Perm (rows ++ m :: more) :=
        (List.perm_insertionSort _ rows).append_right _
      have hall : ((arrange key r rows ++ m :: more).map key).Nodup :=
        (hperm.map key).nodup_iff.mpr h
      exact (((List.drop_sublist n _).append_right _).map key).nodup hall
    have hsplit : arrange key r (rows ++ m :: more) =
        (arrange key r rows).take n ++ arrange key r ((arrange key r rows).drop n ++ m :: more) := by
      apply Ascending.eq_of_mem (ascending_arrange h)
      · refine List.pairwise_append.mpr ⟨hasc.sublist (List.take_sublist _ _),
          ascending_arrange hnodup, ?_⟩
        intro a ha b hb
        rcases List.mem_append.mp (mem_arrange.mp hb) with hb | hb
        · have hcross := List.take_append_drop n (arrange key r rows) ▸ hasc
          exact (List.pairwise_append.mp hcross).2.2 a ha b hb
        · refine before_of_mem_take hasc ?_ ha
          rw [rank_arrange]
          exact hlate b hb
      · intro x
        have hx : x ∈ arrange key r rows ↔ x ∈ (arrange key r rows).take n ∨
            x ∈ (arrange key r rows).drop n := by
          rw [← List.mem_append, List.take_append_drop]
        rw [mem_arrange] at hx
        simp only [mem_arrange, List.mem_append, hx, or_assoc]
    rw [hsplit, List.take_append_of_le_length (le_of_eq hlen.symm), List.take_take, Nat.min_self]

end Late

end Keyset
