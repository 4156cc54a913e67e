import SorobanLens.Lib.KeyedTable

/-!
Renewing what belongs to an owner: its rows are dropped and fresh ones put at the end.
A pass over different owners that is run twice leaves what it left the first time.
-/

set_option autoImplicit false

variable {ρ κ : Type} [DecidableEq κ] (owner : ρ → κ)

def renew (k : κ) (fresh xs : List ρ) : List ρ :=
  xs.filter (fun r => decide (owner r ≠ k)) ++ fresh

def renewAll (news : List (κ × List ρ)) (xs : List ρ) : List ρ :=
  news.foldl (fun xs n => renew owner n.1 n.2 xs) xs

def Owned (news : List (κ × List ρ)) : Prop := ∀ n ∈ news, ∀ r ∈ n.2, owner r = n.1

variable {owner}

theorem renewAll_cons (n : κ × List ρ) (news : List (κ × List ρ)) (xs : List ρ) :
    renewAll owner (n :: news) xs = renewAll owner news (renew owner n.1 n.2 xs) := rfl

theorem renewAll_eq {news : List (κ × List ρ)} (hnodup : (news.map Prod.fst).Nodup)
    (howned : Owned owner news) (xs : List ρ) : renewAll owner news xs =
      xs.filter (fun r => decide (owner r ∉ news.map Prod.fst)) ++ news.flatMap Prod.snd := by
  induction news generalizing xs with
  | nil => simp [renewAll]
  | cons n news ih =>
    rw [List.map_cons, List.nodup_cons] at hnodup
    have hfresh : n.2.filter (fun r => decide (owner r ∉ news.map Prod.fst)) = n.2 := by
      refine List.filter_eq_self.mpr ?_
      intro r hr
      rw [howned n List.mem_cons_self r hr]
      simpa using hnodup.1
    rw [renewAll_cons, ih hnodup.2 (fun m hm => howned m (List.mem_cons_of_mem n hm)), renew,
      List.filter_append, List.filter_filter, hfresh, List.flatMap_cons, List.append_assoc]
    congr 1
    refine List.filter_congr ?_
    intro r _
    rw [List.map_cons, Bool.eq_iff_iff]
    simp only [Bool.and_eq_true, decide_eq_true_eq, List.mem_cons, not_or]
    exact and_comm

theorem renewAll_renewAll {news : List (κ × List ρ)} (hnodup : (news.map Prod.fst).Nodup)
    (howned : Owned owner news) (xs : List ρ) :
    renewAll owner news (renewAll owner news xs) = renewAll owner news xs := by
  have hgone : (news.flatMap Prod.snd).filter (fun r => decide (owner r ∉ news.map Prod.fst)) = [] := by
    refine List.filter_eq_nil_iff.mpr ?_
    intro r hr
    obtain ⟨n, hn, hmem⟩ := List.mem_flatMap.mp hr
    rw [howned n hn r hmem]
    simpa using ⟨n.2, hn⟩
  simp only [renewAll_eq hnodup howned, List.filter_append, List.filter_filter, Bool.and_self, hgone,
    List.append_nil]

/-! ### Tables of an owner's rows -/

namespace KeyedTable

variable {α : Type} {key : ρ → α} [DecidableEq α]

theorem has_updateKey {t : KeyedTable key} {k k' : α} {f : ρ → ρ} {hf : ∀ r, key (f r) = key r} :
    (t.updateKey k f hf).has k' = true ↔ t.has k' = true := by
  simp only [has_iff, mem_updateKey]
  constructor
  · intro h
    obtain ⟨r, ⟨hr, -⟩ | ⟨s, hs, -, rfl⟩, hk⟩ := h
    · exact ⟨r, hr, hk⟩
    · exact ⟨s, hs, (hf s).symm.trans hk⟩
  · intro h
    obtain ⟨r, hr, hk⟩ := h
    by_cases hrk : key r = k
    · exact ⟨f r, .inr ⟨r, hr, hrk, rfl⟩, (hf r).trans hk⟩
    · exact ⟨r, .inl ⟨hr, hrk⟩, hk⟩

theorem rows_insertAll_append {t u w : KeyedTable key} {rs : List ρ} (h : w.rows = t.rows ++ u.rows)
    (hnew : ∀ r ∈ rs, t.has (key r) = false) :
    (w.insertAll rs).rows = t.rows ++ (u.insertAll rs).rows := by
  induction rs generalizing u w with
  | nil => exact h
  | cons r rs ih =>
    have hone : (w.insertOrIgnore r).rows = t.rows ++ (u.insertOrIgnore r).rows := by
      have hw : w.has (key r) = u.has (key r) := by
        have ht := hnew r List.mem_cons_self
        unfold has at ht ⊢
        rw [h, List.any_append, ht, Bool.false_or]
      cases hu : u.has (key r) with
      | true => rw [insertOrIgnore_of_has (hw.trans hu), insertOrIgnore_of_has hu, h]
      | false =>
        rw [rows_insertOrIgnore_of_not_has (hw.trans hu), rows_insertOrIgnore_of_not_has hu, h,
          List.append_assoc]
    exact ih hone (fun s hs => hnew s (List.mem_cons_of_mem r hs))

/-- Deleting an owner's rows and inserting fresh ones renews them. -/
theorem rows_renewed {t : KeyedTable key} {k : κ} {rs : List ρ} (howned : ∀ r ∈ rs, owner r = k)
    (hkey : ∀ r s : ρ, key r = key s → owner r = owner s) :
    ((t.deleteWhere (fun r => decide (owner r = k))).insertAll rs).rows =
      renew owner k ((empty : KeyedTable key).insertAll rs).rows t.rows := by
  have hnew : ∀ r ∈ rs, (t.deleteWhere (fun r => decide (owner r = k))).has (key r) = false := by
    intro r hr
    refine not_has_iff.mpr ?_
    intro s hs hsame
    have howner := hkey s r hsame
    rw [howned r hr] at howner
    have hother := (mem_deleteWhere.mp hs).2
    simp [howner] at hother
  rw [rows_insertAll_append (u := empty) (by simp) hnew]
  simp [renew, deleteWhere]

end KeyedTable
