import Mathlib

/-!
Grouping a list by a key, what the groups of a key add up to, the groups of a coarser
key, and the first few of a ranking.
-/

set_option autoImplicit false

namespace GroupBy

variable {α κ μ ν : Type}

structure Group (key : α → κ) where
  of : κ
  rows : List α
  met : rows ≠ []

section Extremes

variable [LinearOrder ν] {key : α → κ} {x : α}

def Group.least (f : α → ν) (g : Group key) : ν :=
  (g.rows.map f).min (by simpa using g.met)

def Group.greatest (f : α → ν) (g : Group key) : ν :=
  (g.rows.map f).max (by simpa using g.met)

theorem Group.least_le (f : α → ν) {g : Group key} (h : x ∈ g.rows) : g.least f ≤ f x :=
  List.min_le_of_mem (List.mem_map_of_mem h)

theorem Group.le_greatest (f : α → ν) {g : Group key} (h : x ∈ g.rows) : f x ≤ g.greatest f :=
  List.le_max_of_mem (List.mem_map_of_mem h)

theorem Group.least_mem (f : α → ν) (g : Group key) : ∃ x ∈ g.rows, f x = g.least f :=
  List.mem_map.mp (List.min_mem _)

theorem Group.greatest_mem (f : α → ν) (g : Group key) : ∃ x ∈ g.rows, f x = g.greatest f :=
  List.mem_map.mp (List.max_mem _)

end Extremes

variable [DecidableEq κ] [DecidableEq μ]

def members (key : α → κ) (k : κ) (rows : List α) : List α := rows.filter (fun x => key x = k)

def keys (key : α → κ) (rows : List α) : List κ := (rows.map key).dedup

variable {key : α → κ} {k : κ} {rows : List α} {x : α}

@[simp] theorem mem_members : x ∈ members key k rows ↔ x ∈ rows ∧ key x = k := by simp [members]

@[simp] theorem mem_keys : k ∈ keys key rows ↔ ∃ x ∈ rows, key x = k := by simp [keys]

theorem nodup_keys (key : α → κ) (rows : List α) : (keys key rows).Nodup := List.nodup_dedup _

theorem members_ne_nil (h : k ∈ keys key rows) : members key k rows ≠ [] := by
  obtain ⟨x, hx, hk⟩ := mem_keys.mp h
  exact List.ne_nil_of_mem (mem_members.mpr ⟨hx, hk⟩)

theorem length_members (key : α → κ) (k : κ) (rows : List α) :
    (members key k rows).length = (rows.map key).count k := by
  simp only [members, List.count_eq_countP, List.countP_map, ← List.countP_eq_length_filter]
  rfl

/-! ### Groups -/

/-- `GROUP BY key`. -/
def groups (key : α → κ) (rows : List α) : List (Group key) :=
  (keys key rows).attach.map (fun k => ⟨k.1, members key k.1 rows, members_ne_nil k.2⟩)

@[simp] theorem of_groups (key : α → κ) (rows : List α) :
    (groups key rows).map Group.of = keys key rows := by
  rw [groups, List.map_map]
  exact List.attach_map_subtype_val _

theorem rows_of_mem {g : Group key} (h : g ∈ groups key rows) :
    g.rows = members key g.of rows := by
  simp only [groups, List.mem_map, List.mem_attach, true_and] at h
  obtain ⟨k, rfl⟩ := h
  rfl

theorem exists_group (key : α → κ) (h : x ∈ rows) : ∃ g ∈ groups key rows, g.of = key x := by
  have hk : key x ∈ keys key rows := mem_keys.mpr ⟨x, h, rfl⟩
  rw [← of_groups] at hk
  exact List.mem_map.mp hk

theorem sum_length_groups (key : α → κ) (rows : List α) :
    ((groups key rows).map (fun g => g.rows.length)).sum = rows.length := by
  have hmap : (groups key rows).map (fun g => g.rows.length) =
      (keys key rows).map (fun k => (rows.map key).count k) := by
    rw [← of_groups, List.map_map]
    refine List.map_congr_left ?_
    intro g hg
    rw [rows_of_mem hg, length_members]
    rfl
  rw [hmap, keys, List.sum_map_count_dedup_eq_length, List.length_map]

/-! ### A coarser key -/

theorem length_coarse (key : α → κ) (f : κ → μ) (m : μ) (rows : List α) :
    (((groups key rows).filter (fun g => f g.of = m)).map (fun g => g.rows.length)).sum =
      (members (fun x => f (key x)) m rows).length := by
  have hmap : ((groups key rows).filter (fun g => f g.of = m)).map (fun g => g.rows.length) =
      ((keys key rows).filter (fun k => f k = m)).map (fun k => (rows.map key).count k) := by
    rw [← of_groups, List.filter_map, List.map_map]
    refine List.map_congr_left ?_
    intro g hg
    rw [rows_of_mem (List.mem_filter.mp hg).1, length_members]
    rfl
  rw [hmap, keys, List.sum_map_count_dedup_filter_eq_countP, List.countP_map, members,
    ← List.countP_eq_length_filter]
  rfl

/-! ### Ranking -/

/-- What an engine does with rows that an order leaves tied: some order of its own. -/
structure Ties (α : Type) where
  arrange : List α → List α
  perm : ∀ xs, (arrange xs).Perm xs

def Ties.met (α : Type) : Ties α := ⟨id, fun xs => List.Perm.refl xs⟩

section Ranking

variable (le : α → α → Prop) [DecidableRel le]

/-- `ORDER BY le LIMIT n`. -/
def top (ties : Ties α) (n : Nat) (rows : List α) : List α :=
  ((ties.arrange rows).insertionSort le).take n

theorem perm_ranked (ties : Ties α) (rows : List α) :
    ((ties.arrange rows).insertionSort le).Perm rows :=
  (List.perm_insertionSort le _).trans (ties.perm rows)

theorem top_subperm (ties : Ties α) (n : Nat) (rows : List α) :
    (top le ties n rows).Subperm rows :=
  (List.take_sublist n _).subperm.trans (perm_ranked le ties rows).subperm

variable {le} {ties : Ties α} {n : Nat}

theorem mem_of_mem_top (h : x ∈ top le ties n rows) : x ∈ rows :=
  (top_subperm le ties n rows).subset h

theorem length_top (ties : Ties α) (n : Nat) (rows : List α) :
    (top le ties n rows).length = min n rows.length := by
  rw [top, List.length_take, (perm_ranked le ties rows).length_eq]

theorem top_perm (h : rows.length ≤ n) : (top le ties n rows).Perm rows := by
  have hlen := (perm_ranked le ties rows).length_eq
  rw [top, List.take_of_length_le (by omega)]
  exact perm_ranked le ties rows

variable [IsTrans α le] [Std.Total le]

theorem pairwise_top (ties : Ties α) (n : Nat) (rows : List α) :
    (top le ties n rows).Pairwise le :=
  (List.pairwise_insertionSort le _).sublist (List.take_sublist n _)

theorem le_of_not_mem_top (hx : x ∈ top le ties n rows) {y : α} (hy : y ∈ rows)
    (hno : y ∉ top le ties n rows) : le x y := by
  have hsorted := List.pairwise_insertionSort le (ties.arrange rows)
  have hmem : y ∈ (ties.arrange rows).insertionSort le := (perm_ranked le ties rows).mem_iff.mpr hy
  rw [← List.take_append_drop n ((ties.arrange rows).insertionSort le)] at hsorted hmem
  rcases List.mem_append.mp hmem with htop | hrest
  · exact absurd htop hno
  · exact (List.pairwise_append.mp hsorted).2.2 x hx y hrest

theorem mem_top_of_few (hx : x ∈ rows) (hfew : rows.countP (fun y => le y x) ≤ n) :
    x ∈ top le ties n rows := by
  by_contra hno
  have hperm := perm_ranked le ties rows
  have hmem := hperm.mem_iff.mpr hx
  rw [← List.take_append_drop n ((ties.arrange rows).insertionSort le)] at hmem
  have hrest : x ∈ ((ties.arrange rows).insertionSort le).drop n :=
    (List.mem_append.mp hmem).resolve_left hno
  have hlong : n < ((ties.arrange rows).insertionSort le).length := by
    have hpos := List.length_pos_of_mem hrest
    rw [List.length_drop] at hpos
    omega
  have htop : (top le ties n rows).countP (fun y => le y x) = n := by
    rw [List.countP_eq_length.mpr (fun y hy => decide_eq_true (le_of_not_mem_top hy hx hno)), top,
      List.length_take]
    omega
  have hself : 0 < (((ties.arrange rows).insertionSort le).drop n).countP (fun y => le y x) :=
    List.countP_pos_iff.mpr ⟨x, hrest, decide_eq_true ((Std.Total.total x x).elim id id)⟩
  have hsplit := hperm.countP_eq (fun y => decide (le y x))
  rw [← List.take_append_drop n ((ties.arrange rows).insertionSort le), List.countP_append] at hsplit
  have hsame : (((ties.arrange rows).insertionSort le).take n).countP (fun y => le y x) = n := htop
  omega

theorem not_mem_top_of_many (hmany : n ≤ rows.countP (fun y => ¬ le x y)) :
    x ∉ top le ties n rows := by
  intro hin
  have hperm := perm_ranked le ties rows
  have hsplit := hperm.countP_eq (fun y => decide (¬ le x y))
  rw [← List.take_append_drop n ((ties.arrange rows).insertionSort le), List.countP_append] at hsplit
  have hrest : (((ties.arrange rows).insertionSort le).drop n).countP (fun y => ¬ le x y) = 0 := by
    have hsorted := List.pairwise_insertionSort le (ties.arrange rows)
    rw [← List.take_append_drop n ((ties.arrange rows).insertionSort le)] at hsorted
    refine List.countP_eq_zero.mpr ?_
    intro y hy
    simpa using (List.pairwise_append.mp hsorted).2.2 x hin y hy
  have hself : (top le ties n rows).countP (fun y => ¬ le x y) < (top le ties n rows).length := by
    refine lt_of_le_of_ne List.countP_le_length ?_
    intro hall
    have hnot := List.countP_eq_length.mp hall x hin
    have hrefl : le x x := (Std.Total.total x x).elim id id
    simp [hrefl] at hnot
  have hlen : (top le ties n rows).length ≤ n := by
    rw [length_top]
    exact Nat.min_le_left _ _
  have hsame : (((ties.arrange rows).insertionSort le).take n).countP (fun y => ¬ le x y) =
      (top le ties n rows).countP (fun y => ¬ le x y) := rfl
  omega

end Ranking

section Figures

variable [LinearOrder ν] {f : α → ν} {n : Nat} {xs ys : List α} {d : α}

variable (hx : xs.Pairwise (fun a b => f b ≤ f a)) (hy : ys.Pairwise (fun a b => f b ≤ f a))
  (h : xs.Perm ys)

include hx hy h

end Figures

end GroupBy
