import Mathlib

/-!
Textual IPv4 and IPv6 addresses: the dotted quad, the eight groups with `::` for a
run of zeros, a dotted tail, a zone after `%`. One address has many texts.
-/

set_option autoImplicit false

/-- So that a literal group has no proof of its own. -/
instance nonzeroGroups : NeZero 65536 := ⟨by decide⟩

structure Ipv4 where
  a : Fin 256
  b : Fin 256
  c : Fin 256
  d : Fin 256
  deriving DecidableEq

structure Ipv6 where
  groups : List (Fin 65536)
  length_groups : groups.length = 8
  deriving DecidableEq

inductive Ip where
  | v4 (address : Ipv4)
  | v6 (address : Ipv6)
  deriving DecidableEq

namespace Ipv4

def value (v : Ipv4) : Nat := ((v.a * 256 + v.b) * 256 + v.c) * 256 + v.d

def inBlock (v base : Ipv4) (bits : Nat) : Bool :=
  v.value / 2 ^ (32 - bits) == base.value / 2 ^ (32 - bits)

theorem inBlock_of_le_eight (v base : Ipv4) {bits : Nat} (h : bits ≤ 8) :
    v.inBlock base bits = ((v.a : Nat) / 2 ^ (8 - bits) == base.a / 2 ^ (8 - bits)) := by
  have hpow : 2 ^ (32 - bits) = 2 ^ 24 * 2 ^ (8 - bits) := by
    rw [← Nat.pow_add]
    congr 1
    omega
  have hdiv (w : Ipv4) : w.value / 2 ^ 24 = w.a := by
    unfold value
    omega
  simp only [inBlock, hpow, ← Nat.div_div_eq_div_mul, hdiv]

theorem inBlock_of_le_sixteen (v base : Ipv4) {bits : Nat} (h : bits ≤ 16) :
    v.inBlock base bits =
      ((v.a * 256 + v.b : Nat) / 2 ^ (16 - bits) == (base.a * 256 + base.b) / 2 ^ (16 - bits)) := by
  have hpow : 2 ^ (32 - bits) = 2 ^ 16 * 2 ^ (16 - bits) := by
    rw [← Nat.pow_add]
    congr 1
    omega
  have hdiv (w : Ipv4) : w.value / 2 ^ 16 = w.a * 256 + w.b := by
    unfold value
    omega
  simp only [inBlock, hpow, ← Nat.div_div_eq_div_mul, hdiv]

theorem inBlock_twentyfour (v base : Ipv4) :
    v.inBlock base 24 =
      ((v.a : Nat) == base.a && (v.b : Nat) == base.b && (v.c : Nat) == base.c) := by
  rw [Bool.eq_iff_iff]
  simp [inBlock, value]
  omega

def toGroups (v : Ipv4) : List (Fin 65536) :=
  [⟨256 * v.a + v.b, by omega⟩, ⟨256 * v.c + v.d, by omega⟩]

def ofGroups (hi lo : Fin 65536) : Ipv4 :=
  ⟨⟨hi / 256, by omega⟩, ⟨hi % 256, by omega⟩, ⟨lo / 256, by omega⟩, ⟨lo % 256, by omega⟩⟩

end Ipv4

namespace Ipv6

def first (v : Ipv6) : Fin 65536 := v.groups.get ⟨0, by simp [v.length_groups]⟩

def inBlock (v : Ipv6) (base : Fin 65536) (bits : Nat) : Bool :=
  v.first.val / 2 ^ (16 - bits) == base.val / 2 ^ (16 - bits)

/-- The IPv4 address an IPv4-mapped address carries, `::ffff:0:0/96`. -/
def mapped (v : Ipv6) : Option Ipv4 :=
  match v.groups with
  | [0, 0, 0, 0, 0, 65535, hi, lo] => some (Ipv4.ofGroups hi lo)
  | _ => none

end Ipv6

/-! ### Reading -/

namespace IpAddress

def octet (field : List Char) : Option (Fin 256) :=
  if h : Nat.ofDigitChars 10 field 0 < 256 then
    if Nat.toDigits 10 (Nat.ofDigitChars 10 field 0) = field then some ⟨_, h⟩ else none
  else none

def dotted (text : List Char) : Option Ipv4 :=
  match text.splitOn '.' with
  | [a, b, c, d] => do
    let a ← octet a
    let b ← octet b
    let c ← octet c
    let d ← octet d
    pure ⟨a, b, c, d⟩
  | _ => none

def hexDigit (c : Char) : Option Nat :=
  if c.isDigit then some (c.toNat - '0'.toNat)
  else if 'a' ≤ c ∧ c ≤ 'f' then some (c.toNat - 'a'.toNat + 10)
  else none

def hexValue : Nat → List Char → Option Nat
  | n, [] => some n
  | n, c :: cs => (hexDigit c).bind (fun d => hexValue (16 * n + d) cs)

def group (field : List Char) : Option (Fin 65536) :=
  if 1 ≤ field.length ∧ field.length ≤ 4 then
    (hexValue 0 field).bind (fun n => if h : n < 65536 then some ⟨n, h⟩ else none)
  else none

/-- Fields without an elision; only the last may be dotted. -/
def groups : List (List Char) → Option (List (Fin 65536))
  | [] => some []
  | [field] =>
    match dotted field with
    | some v => some (Ipv4.toGroups v)
    | none => (group field).map ([·])
  | field :: rest => (group field).bind (fun g => (groups rest).map (g :: ·))

/-- What may follow `::`, nothing included. -/
def groupsAfterElision : List (List Char) → Option (List (Fin 65536))
  | [] => none
  | [[]] => some []
  | fields => groups fields

def fillZeros (left right : List (Fin 65536)) : Option (List (Fin 65536)) :=
  if left.length + right.length ≤ 7 then
    some (left ++ List.replicate (8 - left.length - right.length) 0 ++ right)
  else none

/-- The groups of the fields between colons. An empty field is one side of a `::`;
at either end of the text it takes two. -/
def allGroups (fields : List (List Char)) : Option (List (Fin 65536)) :=
  let left := fields.takeWhile (fun field => !field.isEmpty)
  match fields.dropWhile (fun field => !field.isEmpty) with
  | [] => groups left
  | _ :: right =>
    if left = [] then
      match right with
      | [] :: right => (groupsAfterElision right).bind (fillZeros [])
      | _ => none
    else (left.mapM group).bind (fun l => (groupsAfterElision right).bind (fillZeros l))

def isZoneChar (c : Char) : Bool := c.isAlphanum || c == '-' || c == '.' || c == ':'

/-- The text before the zone, when what follows the `%` is one. -/
def withoutZone (text : List Char) : Option (List Char) :=
  let body := text.takeWhile (· != '%')
  match text.dropWhile (· != '%') with
  | [] => some body
  | _ :: zone => if zone ≠ [] ∧ zone.all isZoneChar then some body else none

def ipv6 (text : List Char) : Option Ipv6 :=
  (withoutZone text).bind (fun body =>
    (allGroups (body.splitOn ':')).bind (fun gs =>
      if h : gs.length = 8 then some ⟨gs, h⟩ else none))

def parse (text : List Char) : Option Ip :=
  match dotted text with
  | some v => some (.v4 v)
  | none => (ipv6 (text.map Char.toLower)).map .v6

/-! ### What a reading says about the fields -/

theorem splitOn_eq_cons_cons {xs : List Char} {sep : Char} {f g : List Char}
    {rest : List (List Char)} (h : xs.splitOn sep = f :: g :: rest) :
    ∃ ys, xs = f ++ sep :: ys ∧ ys.splitOn sep = g :: rest ∧ sep ∉ f := by
  induction xs generalizing f with
  | nil => simp [List.splitOn_nil] at h
  | cons x xs ih =>
    rw [List.splitOn_cons_eq_if_modifyHead] at h
    by_cases hx : x = sep
    · simp only [hx, beq_self_eq_true, if_true, List.cons.injEq] at h
      exact ⟨xs, by simp [← h.1, hx], h.2, by simp [← h.1]⟩
    · simp only [beq_iff_eq, hx, if_false] at h
      cases hs : xs.splitOn sep with
      | nil => simp [hs] at h
      | cons f' more =>
        simp only [hs, List.modifyHead_cons, List.cons.injEq] at h
        obtain ⟨ys, hxs, hys, hmem⟩ := ih (hs.trans (by rw [h.2]))
        refine ⟨ys, by simp [hxs, ← h.1], hys, ?_⟩
        simpa [← h.1, hmem] using Ne.symm hx

theorem exists_field_of_mem (sep : Char) {xs : List Char} {c : Char} (h : c ∈ xs) (hc : c ≠ sep) :
    ∃ f ∈ xs.splitOn sep, c ∈ f := by
  induction xs with
  | nil => simp at h
  | cons x xs ih =>
    rw [List.splitOn_cons_eq_if_modifyHead]
    obtain ⟨f, rest, hs⟩ := List.exists_cons_of_ne_nil (List.splitOn_ne_nil sep xs)
    by_cases hx : x = sep
    · have hmem : c ∈ xs := by
        cases h with
        | head => exact absurd hx hc
        | tail _ h => exact h
      obtain ⟨f', hf', hcf⟩ := ih hmem
      exact ⟨f', by simp [hx, hf'], hcf⟩
    · simp only [beq_iff_eq, hx, if_false, hs, List.modifyHead_cons]
      cases h with
      | head => exact ⟨c :: f, by simp⟩
      | tail _ h =>
        obtain ⟨f', hf', hcf⟩ := ih h
        rw [hs, List.mem_cons] at hf'
        cases hf' with
        | inl he => exact ⟨x :: f, by simp [← he, hcf]⟩
        | inr hf' => exact ⟨f', by simp [hf'], hcf⟩

theorem hexDigit_of_hexValue {cs : List Char} {n m : Nat} (h : hexValue n cs = some m) :
    ∀ c ∈ cs, (hexDigit c).isSome := by
  induction cs generalizing n with
  | nil => simp
  | cons c cs ih =>
    simp only [hexValue, Option.bind_eq_some_iff] at h
    obtain ⟨d, hd, h⟩ := h
    intro x hx
    cases hx with
    | head => simp [hd]
    | tail _ hx => exact ih h x hx

theorem hexValue_of_group {field : List Char} {g : Fin 65536} (h : group field = some g) :
    hexValue 0 field = some g := by
  unfold group at h
  split at h
  · rw [Option.bind_eq_some_iff] at h
    obtain ⟨n, hn, h⟩ := h
    split at h
    · cases h
      exact hn
    · cases h
  · cases h

theorem group_nil : group [] = none := by simp [group]

theorem ne_nil_of_group {field : List Char} {g : Fin 65536} (h : group field = some g) :
    field ≠ [] := by
  intro hnil
  simp [hnil, group_nil] at h

theorem hexValue_zeros {cs : List Char} (h : ∀ c ∈ cs, c = '0') : hexValue 0 cs = some 0 := by
  induction cs with
  | nil => rfl
  | cons c cs ih =>
    have hc : hexDigit c = some 0 := by rw [h c (by simp)]; rfl
    simpa [hexValue, hc] using ih (fun x hx => h x (by simp [hx]))

theorem group_zeros {field : List Char} {g : Fin 65536} (hz : ∀ c ∈ field, c = '0')
    (h : group field = some g) : g = 0 := by
  have hval := hexValue_of_group h
  rw [hexValue_zeros hz] at hval
  exact Fin.ext (Option.some.inj hval).symm

theorem groups_cons {field : List Char} {rest : List (List Char)} (hr : rest ≠ []) :
    groups (field :: rest) = (group field).bind (fun g => (groups rest).map (g :: ·)) := by
  cases rest with
  | nil => exact absurd rfl hr
  | cons f fs => rfl

theorem groups_zeros_append {zeros tail : List (List Char)} {gs : List (Fin 65536)}
    (hz : ∀ f ∈ zeros, ∀ c ∈ f, c = '0') (ht : tail ≠ [])
    (h : groups (zeros ++ tail) = some gs) :
    ∃ k ts, groups tail = some ts ∧ gs = List.replicate k 0 ++ ts := by
  induction zeros generalizing gs with
  | nil => exact ⟨0, gs, h, rfl⟩
  | cons f zeros ih =>
    rw [List.cons_append, groups_cons (by simp [ht])] at h
    simp only [Option.bind_eq_some_iff, Option.map_eq_some_iff] at h
    obtain ⟨g, hg, rest, hrest, rfl⟩ := h
    obtain ⟨k, ts, hts, rfl⟩ := ih (fun f hf => hz f (by simp [hf])) hrest
    rw [group_zeros (hz f (by simp)) hg]
    exact ⟨k + 1, ts, hts, rfl⟩

theorem mapM_group_zeros {zeros : List (List Char)} {gs : List (Fin 65536)}
    (hz : ∀ f ∈ zeros, ∀ c ∈ f, c = '0') (h : zeros.mapM group = some gs) :
    ∃ k, gs = List.replicate k 0 := by
  induction zeros generalizing gs with
  | nil =>
    rw [List.mapM_nil] at h
    cases h
    exact ⟨0, rfl⟩
  | cons f zeros ih =>
    simp only [List.mapM_cons, Option.bind_eq_bind, Option.bind_eq_some_iff, Option.pure_def,
      Option.some.injEq] at h
    obtain ⟨g, hg, rest, hrest, rfl⟩ := h
    obtain ⟨k, rfl⟩ := ih (fun f hf => hz f (by simp [hf])) hrest
    rw [group_zeros (hz f (by simp)) hg]
    exact ⟨k + 1, rfl⟩

/-- How the fields of an accepted text lie: no `::`, one inside or at the end, one in
front. -/
theorem allGroups_cases {fields : List (List Char)} {gs : List (Fin 65536)}
    (h : allGroups fields = some gs) :
    groups fields = some gs ∨
    (∃ f left right ls rs, fields = f :: left ++ [] :: right ∧
      (f :: left).mapM group = some ls ∧ groupsAfterElision right = some rs ∧
      fillZeros ls rs = some gs) ∨
    (∃ right rs, fields = [] :: [] :: right ∧ groupsAfterElision right = some rs ∧
      fillZeros [] rs = some gs) := by
  have happ := List.takeWhile_append_dropWhile (p := fun f : List Char => !f.isEmpty) (l := fields)
  unfold allGroups at h
  dsimp only at h
  split at h
  · rename_i hd
    rw [hd, List.append_nil] at happ
    rw [happ] at h
    exact .inl h
  · rename_i f right hd
    have hf : f = [] := by
      have hhead := List.head_dropWhile_not (l := fields) (fun f : List Char => !f.isEmpty)
        (by simp [hd])
      simpa [hd] using hhead
    rw [hd, hf] at happ
    split at h
    · rename_i hleft
      rw [hleft, List.nil_append] at happ
      split at h
      · rename_i right
        rw [Option.bind_eq_some_iff] at h
        obtain ⟨rs, hrs, h⟩ := h
        exact .inr (.inr ⟨right, rs, happ.symm, hrs, h⟩)
      · cases h
    · rename_i hleft
      obtain ⟨f', left, hcons⟩ := List.exists_cons_of_ne_nil hleft
      simp only [Option.bind_eq_some_iff] at h
      obtain ⟨ls, hls, rs, hrs, h⟩ := h
      rw [hcons] at happ hls
      exact .inr (.inl ⟨f', left, right, ls, rs, happ.symm, hls, hrs, h⟩)

theorem groupsAfterElision_of_ne {fields : List (List Char)} (h : fields ≠ [])
    (hne : fields ≠ [[]]) : groupsAfterElision fields = groups fields := by
  unfold groupsAfterElision
  split
  · exact absurd rfl h
  · exact absurd rfl hne
  · rfl

theorem fillZeros_eq_some {ls rs gs : List (Fin 65536)} (h : fillZeros ls rs = some gs) :
    ∃ k, gs = ls ++ List.replicate (k + 1) 0 ++ rs := by
  unfold fillZeros at h
  split at h
  · rename_i hlen
    refine ⟨7 - ls.length - rs.length, ?_⟩
    have hk : 8 - ls.length - rs.length = 7 - ls.length - rs.length + 1 := by omega
    rw [hk] at h
    exact (Option.some.inj h).symm
  · cases h

theorem tail_of_append_eq (left : List (List Char)) {zeros tail right : List (List Char)}
    (hne : [] ∉ tail) (h : zeros ++ tail = left ++ [] :: right) :
    ∃ more, zeros = left ++ [] :: more ∧ right = more ++ tail := by
  cases List.append_eq_append_iff.mp h with
  | inl hsplit =>
    obtain ⟨mid, -, htail⟩ := hsplit
    exact absurd (by simp [htail]) hne
  | inr hsplit =>
    obtain ⟨mid, hzeros, hright⟩ := hsplit
    cases mid with
    | nil =>
      rw [List.nil_append] at hright
      exact absurd (by simp [← hright]) hne
    | cons f mid =>
      obtain ⟨hf, hright⟩ := List.cons.inj hright
      exact ⟨mid, by rw [hzeros, hf], hright⟩

/-- Fields of zeros before a tail without empty fields, wherever the `::` is: the groups
of the tail close the address, and only zeros come before them. -/
theorem allGroups_zeros_append {zeros tail : List (List Char)} {gs : List (Fin 65536)}
    (hz : ∀ f ∈ zeros, ∀ c ∈ f, c = '0') (ht : tail ≠ []) (hne : [] ∉ tail)
    (h : allGroups (zeros ++ tail) = some gs) :
    ∃ k ts, groups tail = some ts ∧ gs = List.replicate k 0 ++ ts := by
  have hright {more : List (List Char)} {rs : List (Fin 65536)}
      (hmore : ∀ f ∈ more, ∀ c ∈ f, c = '0') (hrs : groupsAfterElision (more ++ tail) = some rs) :
      ∃ k ts, groups tail = some ts ∧ rs = List.replicate k 0 ++ ts := by
    have hnonempty : more ++ tail ≠ [[]] := by
      intro he
      obtain ⟨f, rest, htail⟩ := List.exists_cons_of_ne_nil ht
      have hf : f ∈ [([] : List Char)] := by
        rw [← he, htail]
        simp
      rw [List.mem_singleton] at hf
      exact hne (by simp [htail, hf])
    rw [groupsAfterElision_of_ne (by simp [ht]) hnonempty] at hrs
    exact groups_zeros_append hmore ht hrs
  cases allGroups_cases h with
  | inl hfull => exact groups_zeros_append hz ht hfull
  | inr h =>
    cases h with
    | inl h =>
      obtain ⟨f, left, right, ls, rs, hfields, hls, hrs, hfill⟩ := h
      obtain ⟨more, rfl, rfl⟩ := tail_of_append_eq (f :: left) hne hfields
      obtain ⟨j, rfl⟩ := mapM_group_zeros (fun f hf => hz f (by simp at hf ⊢; tauto)) hls
      obtain ⟨k, ts, hts, rfl⟩ := hright (fun f hf => hz f (by simp [hf])) hrs
      obtain ⟨m, rfl⟩ := fillZeros_eq_some hfill
      refine ⟨j + (m + 1) + k, ts, hts, ?_⟩
      simp only [List.replicate_append_replicate, ← List.append_assoc]
    | inr h =>
      obtain ⟨right, rs, hfields, hrs, hfill⟩ := h
      obtain ⟨more, rfl, hmore⟩ := tail_of_append_eq [] hne hfields
      obtain ⟨more, rfl, rfl⟩ := tail_of_append_eq [] hne hmore.symm
      obtain ⟨k, ts, hts, rfl⟩ := hright (fun f hf => hz f (by simp [hf])) hrs
      obtain ⟨m, rfl⟩ := fillZeros_eq_some hfill
      refine ⟨m + 1 + k, ts, hts, ?_⟩
      simp only [List.nil_append, List.replicate_append_replicate, ← List.append_assoc]

theorem first_of_allGroups {fields : List (List Char)} {gs : List (Fin 65536)}
    (h : allGroups fields = some gs) (hlen : gs.length = 8) :
    (∃ f second rest g, fields = f :: second :: rest ∧ group f = some g ∧ gs.head? = some g) ∨
    (∃ second rest, fields = [] :: [] :: second :: rest ∧ gs.head? = some 0) := by
  cases allGroups_cases h with
  | inl hfull =>
    match fields with
    | [] =>
      have hgs : [] = gs := Option.some.inj hfull
      simp [← hgs] at hlen
    | [f] =>
      exfalso
      unfold groups at hfull
      split at hfull
      · simp [← Option.some.inj hfull, Ipv4.toGroups] at hlen
      · obtain ⟨g, -, rfl⟩ := Option.map_eq_some_iff.mp hfull
        simp at hlen
    | f :: second :: rest =>
      rw [groups_cons (by simp)] at hfull
      simp only [Option.bind_eq_some_iff, Option.map_eq_some_iff] at hfull
      obtain ⟨g, hg, gs, -, rfl⟩ := hfull
      exact .inl ⟨f, second, rest, g, rfl, hg, rfl⟩
  | inr h =>
    cases h with
    | inl h =>
      obtain ⟨f, left, right, ls, rs, rfl, hls, -, hfill⟩ := h
      obtain ⟨m, rfl⟩ := fillZeros_eq_some hfill
      simp only [List.mapM_cons, Option.bind_eq_bind, Option.bind_eq_some_iff, Option.pure_def,
        Option.some.injEq] at hls
      obtain ⟨g, hg, ls, -, rfl⟩ := hls
      obtain ⟨second, rest, hmore⟩ :=
        List.exists_cons_of_ne_nil (by simp : left ++ [] :: right ≠ [])
      exact .inl ⟨f, second, rest, g, by simp [← hmore], hg, rfl⟩
    | inr h =>
      obtain ⟨right, rs, rfl, hrs, hfill⟩ := h
      obtain ⟨m, rfl⟩ := fillZeros_eq_some hfill
      cases right with
      | nil => simp [groupsAfterElision] at hrs
      | cons second rest => exact .inr ⟨second, rest, rfl, rfl⟩

theorem withoutZone_eq_some {text body : List Char} (h : withoutZone text = some body) :
    text = body ∨ ∃ zone, text = body ++ '%' :: zone := by
  have happ := List.takeWhile_append_dropWhile (p := (· != '%')) (l := text)
  unfold withoutZone at h
  dsimp only at h
  split at h
  · rename_i hd
    rw [hd, List.append_nil] at happ
    exact .inl (happ.symm.trans (Option.some.inj h))
  · rename_i c zone hd
    have hc : c = '%' := by
      have hhead := List.head_dropWhile_not (l := text) (· != '%') (by simp [hd])
      simpa [hd] using hhead
    split at h
    · rw [hd, hc, Option.some.inj h] at happ
      exact .inr ⟨zone, happ.symm⟩
    · cases h

end IpAddress
