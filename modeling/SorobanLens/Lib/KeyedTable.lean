import Mathlib.Data.List.Nodup

/-!
Tables whose rows carry a key no two of them share. The uniqueness is a field
of the table, so every operation keeps it and no later proof shows it again.
Row order is kept, because a query may only rely on it after sorting.
-/

set_option autoImplicit false

/-- Rows with pairwise different keys: a table with a primary key. -/
@[ext]
structure KeyedTable {ρ κ : Type} (key : ρ → κ) where
  rows : List ρ
  nodup : (rows.map key).Nodup

namespace KeyedTable

variable {ρ κ : Type} {key : ρ → κ}

def empty : KeyedTable key := ⟨[], by simp⟩

@[simp] theorem rows_empty : (empty : KeyedTable key).rows = [] := rfl

theorem eq_of_key (t : KeyedTable key) {r s : ρ} (hr : r ∈ t.rows) (hs : s ∈ t.rows)
    (h : key r = key s) : r = s :=
  List.inj_on_of_nodup_map t.nodup hr hs h

def deleteWhere (t : KeyedTable key) (p : ρ → Bool) : KeyedTable key where
  rows := t.rows.filter (fun r => !p r)
  nodup := (List.filter_sublist.map key).nodup t.nodup

@[simp] theorem mem_deleteWhere {t : KeyedTable key} {p : ρ → Bool} {r : ρ} :
    r ∈ (t.deleteWhere p).rows ↔ r ∈ t.rows ∧ p r = false := by
  simp [deleteWhere]

theorem deleteWhere_eq_self {t : KeyedTable key} {p : ρ → Bool}
    (h : ∀ r ∈ t.rows, p r = false) : t.deleteWhere p = t := by
  apply KeyedTable.ext
  exact List.filter_eq_self.mpr (fun r hr => by simp [h r hr])

variable [DecidableEq κ]

instance [DecidableEq ρ] : DecidableEq (KeyedTable key) := fun t u =>
  decidable_of_iff (t.rows = u.rows) ⟨KeyedTable.ext, congrArg rows⟩

def has (t : KeyedTable key) (k : κ) : Bool := t.rows.any (fun r => decide (key r = k))

theorem has_iff {t : KeyedTable key} {k : κ} : t.has k = true ↔ ∃ r ∈ t.rows, key r = k := by
  simp [has]

theorem has_of_mem {t : KeyedTable key} {r : ρ} (h : r ∈ t.rows) : t.has (key r) = true :=
  has_iff.mpr ⟨r, h, rfl⟩

theorem not_has_iff {t : KeyedTable key} {k : κ} :
    t.has k = false ↔ ∀ r ∈ t.rows, key r ≠ k := by
  simp [has]

def find? (t : KeyedTable key) (k : κ) : Option ρ := t.rows.find? (fun r => decide (key r = k))

theorem find?_eq_some {t : KeyedTable key} {k : κ} {r : ρ} :
    t.find? k = some r ↔ r ∈ t.rows ∧ key r = k := by
  constructor
  · intro h
    exact ⟨List.mem_of_find?_eq_some h, by simpa using List.find?_some h⟩
  · rintro ⟨hr, rfl⟩
    cases hf : t.find? (key r) with
    | none =>
      have hn := List.find?_eq_none.mp hf r hr
      simp at hn
    | some s =>
      have hs := List.mem_of_find?_eq_some hf
      have hk : key s = key r := by simpa using List.find?_some hf
      rw [t.eq_of_key hs hr hk]

theorem find?_eq_none {t : KeyedTable key} {k : κ} :
    t.find? k = none ↔ ∀ r ∈ t.rows, key r ≠ k := by
  simp [find?]

/-- `INSERT OR IGNORE`: a row whose key is taken leaves the table as it is. -/
def insertOrIgnore (t : KeyedTable key) (r : ρ) : KeyedTable key :=
  if h : t.has (key r) = true then t
  else
    { rows := t.rows ++ [r]
      nodup := by
        have hn : ∀ s ∈ t.rows, key s ≠ key r := not_has_iff.mp (by simpa using h)
        rw [List.map_append]
        refine List.Nodup.append t.nodup (by simp) ?_
        intro k hk hkr
        obtain ⟨s, hs, rfl⟩ := List.mem_map.mp hk
        simp only [List.map_cons, List.map_nil, List.mem_singleton] at hkr
        exact hn s hs hkr }

theorem insertOrIgnore_of_has {t : KeyedTable key} {r : ρ} (h : t.has (key r) = true) :
    t.insertOrIgnore r = t := by
  simp [insertOrIgnore, h]

theorem rows_insertOrIgnore_of_not_has {t : KeyedTable key} {r : ρ}
    (h : t.has (key r) = false) : (t.insertOrIgnore r).rows = t.rows ++ [r] := by
  simp [insertOrIgnore, h]

theorem mem_insertOrIgnore {t : KeyedTable key} {r s : ρ} :
    s ∈ (t.insertOrIgnore r).rows ↔ s ∈ t.rows ∨ (s = r ∧ t.has (key r) = false) := by
  cases h : t.has (key r) with
  | true => simp [insertOrIgnore_of_has h]
  | false => simp [rows_insertOrIgnore_of_not_has h]

theorem mem_insertOrIgnore_of_mem {t : KeyedTable key} {r s : ρ} (h : s ∈ t.rows) :
    s ∈ (t.insertOrIgnore r).rows := mem_insertOrIgnore.mpr (.inl h)

theorem has_insertOrIgnore_self (t : KeyedTable key) (r : ρ) :
    (t.insertOrIgnore r).has (key r) = true := by
  cases h : t.has (key r) with
  | true => rwa [insertOrIgnore_of_has h]
  | false => exact has_of_mem (mem_insertOrIgnore.mpr (.inr ⟨rfl, h⟩))

theorem has_insertOrIgnore_of_has {t : KeyedTable key} {r : ρ} {k : κ} (h : t.has k = true) :
    (t.insertOrIgnore r).has k = true := by
  obtain ⟨s, hs, rfl⟩ := has_iff.mp h
  exact has_of_mem (mem_insertOrIgnore_of_mem hs)

theorem find?_deleteWhere {t : KeyedTable key} {p : ρ → Bool} {k : κ}
    (h : ∀ r ∈ t.rows, key r = k → p r = false) : (t.deleteWhere p).find? k = t.find? k := by
  cases hf : t.find? k with
  | none =>
    rw [find?_eq_none] at hf ⊢
    intro r hr
    exact hf r (mem_deleteWhere.mp hr).1
  | some r =>
    obtain ⟨hr, hk⟩ := find?_eq_some.mp hf
    exact find?_eq_some.mpr ⟨mem_deleteWhere.mpr ⟨hr, h r hr hk⟩, hk⟩

theorem find?_deleteWhere_eq_none {t : KeyedTable key} {p : ρ → Bool} {k : κ}
    (h : ∀ r ∈ t.rows, key r = k → p r = true) : (t.deleteWhere p).find? k = none := by
  rw [find?_eq_none]
  intro r hr hk
  obtain ⟨hmem, hkept⟩ := mem_deleteWhere.mp hr
  rw [h r hmem hk] at hkept
  cases hkept

theorem find?_isSome {t : KeyedTable key} {k : κ} : (t.find? k).isSome = t.has k := by
  rw [Bool.eq_iff_iff, has_iff]
  simp [find?]

theorem find?_insertOrIgnore_self {t : KeyedTable key} {r : ρ} (h : t.has (key r) = false) :
    (t.insertOrIgnore r).find? (key r) = some r :=
  find?_eq_some.mpr ⟨mem_insertOrIgnore.mpr (.inr ⟨rfl, h⟩), rfl⟩

theorem find?_insertOrIgnore_of_ne {t : KeyedTable key} {r : ρ} {k : κ} (h : k ≠ key r) :
    (t.insertOrIgnore r).find? k = t.find? k := by
  cases hr : t.has (key r) with
  | true => rw [insertOrIgnore_of_has hr]
  | false => simp [find?, rows_insertOrIgnore_of_not_has hr, List.find?_append, Ne.symm h]

def insertAll (t : KeyedTable key) (rs : List ρ) : KeyedTable key :=
  rs.foldl insertOrIgnore t

@[simp] theorem insertAll_nil (t : KeyedTable key) : t.insertAll [] = t := rfl

@[simp] theorem insertAll_cons (t : KeyedTable key) (r : ρ) (rs : List ρ) :
    t.insertAll (r :: rs) = (t.insertOrIgnore r).insertAll rs := rfl

theorem mem_insertAll_of_mem {t : KeyedTable key} {rs : List ρ} {s : ρ} (h : s ∈ t.rows) :
    s ∈ (t.insertAll rs).rows := by
  induction rs generalizing t with
  | nil => exact h
  | cons r rs ih => exact ih (mem_insertOrIgnore_of_mem h)

theorem mem_of_mem_insertAll {t : KeyedTable key} {rs : List ρ} {s : ρ}
    (h : s ∈ (t.insertAll rs).rows) : s ∈ t.rows ∨ s ∈ rs := by
  induction rs generalizing t with
  | nil => exact .inl h
  | cons r rs ih =>
    rcases ih h with hs | hs
    · rcases mem_insertOrIgnore.mp hs with ht | ⟨rfl, -⟩
      · exact .inl ht
      · exact .inr List.mem_cons_self
    · exact .inr (List.mem_cons_of_mem r hs)

theorem has_insertAll_of_mem {t : KeyedTable key} {rs : List ρ} {r : ρ} (h : r ∈ rs) :
    (t.insertAll rs).has (key r) = true := by
  induction rs generalizing t with
  | nil => simp at h
  | cons s rs ih =>
    rcases List.mem_cons.mp h with rfl | hr
    · obtain ⟨u, hu, hk⟩ := has_iff.mp (has_insertOrIgnore_self t r)
      exact has_iff.mpr ⟨u, mem_insertAll_of_mem (t := t.insertOrIgnore r) hu, hk⟩
    · exact ih hr

theorem mem_insertAll_id {ρ : Type} [DecidableEq ρ] {t : KeyedTable (id : ρ → ρ)} {rs : List ρ}
    {s : ρ} : s ∈ (t.insertAll rs).rows ↔ s ∈ t.rows ∨ s ∈ rs := by
  constructor
  · exact mem_of_mem_insertAll
  · rintro (h | h)
    · exact mem_insertAll_of_mem h
    · obtain ⟨u, hu, rfl⟩ := has_iff.mp (has_insertAll_of_mem (t := t) h)
      exact hu

/-- `INSERT … ON CONFLICT DO UPDATE` over every column. -/
def upsert (t : KeyedTable key) (r : ρ) : KeyedTable key :=
  if h : t.has (key r) = true then
    { rows := t.rows.map (fun s => if key s = key r then r else s)
      nodup := by
        have hk : (t.rows.map (fun s => if key s = key r then r else s)).map key =
            t.rows.map key := by
          rw [List.map_map]
          refine List.map_congr_left (fun s _ => ?_)
          by_cases hs : key s = key r <;> simp [hs]
        rw [hk]
        exact t.nodup }
  else t.insertOrIgnore r

theorem mem_upsert {t : KeyedTable key} {r s : ρ} :
    s ∈ (t.upsert r).rows ↔ s = r ∨ (s ∈ t.rows ∧ key s ≠ key r) := by
  by_cases h : t.has (key r) = true
  · simp only [upsert, h, dite_true, List.mem_map]
    constructor
    · rintro ⟨u, hu, rfl⟩
      by_cases hk : key u = key r
      · simp [hk]
      · simp [hk, hu]
    · rintro (rfl | ⟨hs, hk⟩)
      · obtain ⟨u, hu, hk⟩ := has_iff.mp h
        exact ⟨u, hu, by simp [hk]⟩
      · exact ⟨s, hs, by simp [hk]⟩
  · have hn : t.has (key r) = false := by simpa using h
    simp only [upsert, h, dite_false, mem_insertOrIgnore, and_true, Bool.false_eq_true]
    constructor
    · rintro (hs | rfl)
      · exact .inr ⟨hs, not_has_iff.mp hn s hs⟩
      · exact .inl rfl
    · rintro (rfl | ⟨hs, -⟩)
      · exact .inr rfl
      · exact .inl hs

theorem find?_upsert_self (t : KeyedTable key) (r : ρ) : (t.upsert r).find? (key r) = some r :=
  find?_eq_some.mpr ⟨mem_upsert.mpr (.inl rfl), rfl⟩

theorem find?_upsert_of_ne {t : KeyedTable key} {r : ρ} {k : κ} (h : k ≠ key r) :
    (t.upsert r).find? k = t.find? k := by
  cases hf : t.find? k with
  | some s =>
    obtain ⟨hs, rfl⟩ := find?_eq_some.mp hf
    exact find?_eq_some.mpr ⟨mem_upsert.mpr (.inr ⟨hs, h⟩), rfl⟩
  | none =>
    refine find?_eq_none.mpr (fun s hs => ?_)
    rcases mem_upsert.mp hs with rfl | ⟨ht, -⟩
    · exact fun he => h he.symm
    · exact find?_eq_none.mp hf s ht

theorem has_upsert {t : KeyedTable key} {r : ρ} {k : κ} :
    (t.upsert r).has k = true ↔ k = key r ∨ t.has k = true := by
  rw [← find?_isSome, ← find?_isSome]
  by_cases hk : k = key r
  · simp [hk, find?_upsert_self]
  · simp [hk, find?_upsert_of_ne hk]

theorem length_upsert (t : KeyedTable key) (r : ρ) :
    (t.upsert r).rows.length = t.rows.length + if t.has (key r) then 0 else 1 := by
  cases h : t.has (key r) with
  | true => simp [upsert, h]
  | false => simp [upsert, h, rows_insertOrIgnore_of_not_has h]

/-- `UPDATE t SET … WHERE key = k`, for an assignment that leaves the key alone. -/
def updateKey (t : KeyedTable key) (k : κ) (f : ρ → ρ) (hf : ∀ r, key (f r) = key r) :
    KeyedTable key where
  rows := t.rows.map (fun r => if key r = k then f r else r)
  nodup := by
    have hk : (t.rows.map (fun r => if key r = k then f r else r)).map key = t.rows.map key := by
      rw [List.map_map]
      refine List.map_congr_left (fun r _ => ?_)
      by_cases hr : key r = k <;> simp [hr, hf]
    rw [hk]
    exact t.nodup

theorem mem_updateKey {t : KeyedTable key} {k : κ} {f : ρ → ρ} {hf : ∀ r, key (f r) = key r}
    {s : ρ} : s ∈ (t.updateKey k f hf).rows ↔
      (s ∈ t.rows ∧ key s ≠ k) ∨ (∃ r ∈ t.rows, key r = k ∧ s = f r) := by
  simp only [updateKey, List.mem_map]
  constructor
  · rintro ⟨r, hr, rfl⟩
    by_cases hk : key r = k
    · exact .inr ⟨r, hr, hk, by simp [hk]⟩
    · exact .inl (by simp [hk, hr])
  · rintro (⟨hs, hk⟩ | ⟨r, hr, hk, rfl⟩)
    · exact ⟨s, hs, by simp [hk]⟩
    · exact ⟨r, hr, by simp [hk]⟩

theorem count_key {t : KeyedTable key} {k : κ} (h : t.has k = true) :
    (t.rows.filter (fun r => decide (key r = k))).length = 1 := by
  obtain ⟨r, hr, rfl⟩ := has_iff.mp h
  have hp : (t.rows.filter (fun s => decide (key s = key r))).Nodup :=
    (List.Nodup.of_map key t.nodup).filter _
  refine List.length_eq_one_iff.mpr ⟨r, ?_⟩
  refine List.perm_singleton.mp ?_
  refine (List.perm_ext_iff_of_nodup hp (by simp)).mpr (fun s => ?_)
  simp only [List.mem_filter, decide_eq_true_eq, List.mem_singleton]
  constructor
  · rintro ⟨hs, hk⟩
    exact t.eq_of_key hs hr hk
  · rintro rfl
    exact ⟨hr, rfl⟩

end KeyedTable
