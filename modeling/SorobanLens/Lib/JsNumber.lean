import Mathlib.Data.Rat.Floor
import Mathlib.Tactic.Linarith

/-!
JavaScript numbers as exact rationals with the two infinities and `NaN`.
Comparisons with `NaN` are false and arithmetic keeps it, which is what decides
the branches taken on unusable input. Rounding to doubles is not represented.
-/

set_option autoImplicit false

inductive JsNumber where
  | nan
  | negInf
  | fin (q : ℚ)
  | posInf
  deriving DecidableEq

namespace JsNumber

def ofNat (n : Nat) : JsNumber := .fin n

def isFinite : JsNumber → Bool
  | .fin _ => true
  | _ => false

def isInteger : JsNumber → Bool
  | .fin q => q.den == 1
  | _ => false

def lt : JsNumber → JsNumber → Bool
  | .nan, _ | _, .nan => false
  | .fin a, .fin b => decide (a < b)
  | .negInf, .negInf | .posInf, .posInf => false
  | .negInf, _ | _, .posInf => true
  | .posInf, _ | _, .negInf => false

def le : JsNumber → JsNumber → Bool
  | .nan, _ | _, .nan => false
  | .fin a, .fin b => decide (a ≤ b)
  | .negInf, _ | _, .posInf => true
  | .posInf, _ | _, .negInf => false

def max (a b : JsNumber) : JsNumber :=
  if a = .nan ∨ b = .nan then .nan else if lt a b then b else a

def min (a b : JsNumber) : JsNumber :=
  if a = .nan ∨ b = .nan then .nan else if lt b a then b else a

def add : JsNumber → JsNumber → JsNumber
  | .fin a, .fin b => .fin (a + b)
  | .nan, _ | _, .nan => .nan
  | .posInf, .negInf | .negInf, .posInf => .nan
  | .posInf, _ | _, .posInf => .posInf
  | .negInf, _ | _, .negInf => .negInf

def neg : JsNumber → JsNumber
  | .nan => .nan
  | .negInf => .posInf
  | .fin q => .fin (-q)
  | .posInf => .negInf

/-- An infinity times a number of this sign. -/
def scaleInf (s : JsNumber) : JsNumber → JsNumber
  | .nan => .nan
  | .negInf => neg s
  | .posInf => s
  | .fin q => if q = 0 then .nan else if 0 < q then s else neg s

def mul : JsNumber → JsNumber → JsNumber
  | .fin a, .fin b => .fin (a * b)
  | .nan, _ | _, .nan => .nan
  | .posInf, b => scaleInf .posInf b
  | .negInf, b => scaleInf .negInf b
  | a, .posInf => scaleInf .posInf a
  | a, .negInf => scaleInf .negInf a

/-- `Math.trunc` of a rational: towards zero. -/
def truncate (q : ℚ) : Int := if 0 ≤ q then ⌊q⌋ else ⌈q⌉

def trunc : JsNumber → JsNumber
  | .fin q => .fin (truncate q)
  | x => x

def floor : JsNumber → JsNumber
  | .fin q => .fin ⌊q⌋
  | x => x

/-- `Math.round`: halves go up. -/
def round : JsNumber → JsNumber
  | .fin q => .fin ⌊q + 1 / 2⌋
  | x => x

/-- The first number too large for a double. -/
def doubleBound : ℚ := 2 ^ 1024 - 2 ^ 970

/-- What a double cannot hold is an infinity. -/
def overflow : JsNumber → JsNumber
  | .fin q => if doubleBound ≤ q then .posInf else if q ≤ -doubleBound then .negInf else .fin q
  | x => x

/-- `n` of something bounded by a number: the naturals not above it. -/
def floorNat : JsNumber → Nat
  | .fin q => ⌊q⌋.toNat
  | _ => 0

@[simp] theorem lt_nan (a : JsNumber) : lt a .nan = false := by cases a <;> rfl

@[simp] theorem nan_lt (a : JsNumber) : lt .nan a = false := rfl

@[simp] theorem le_nan (a : JsNumber) : le a .nan = false := by cases a <;> rfl

@[simp] theorem nan_le (a : JsNumber) : le .nan a = false := rfl

@[simp] theorem fin_lt_fin (a b : ℚ) : lt (.fin a) (.fin b) = decide (a < b) := rfl

@[simp] theorem fin_le_fin (a b : ℚ) : le (.fin a) (.fin b) = decide (a ≤ b) := rfl

@[simp] theorem ofNat_lt_ofNat (m n : Nat) : lt (ofNat m) (ofNat n) = decide (m < n) := by
  simp [ofNat]

@[simp] theorem ofNat_le_ofNat (m n : Nat) : le (ofNat m) (ofNat n) = decide (m ≤ n) := by
  simp [ofNat]

@[simp] theorem isFinite_ofNat (n : Nat) : isFinite (ofNat n) = true := rfl

@[simp] theorem trunc_ofNat (n : Nat) : trunc (ofNat n) = ofNat n := by
  simp [ofNat, trunc, truncate]

@[simp] theorem floorNat_ofNat (n : Nat) : floorNat (ofNat n) = n := by
  simp [ofNat, floorNat]

theorem max_fin (a b : ℚ) : max (.fin a) (.fin b) = .fin (Max.max a b) := by
  simp only [max, reduceCtorEq, or_self, if_false, fin_lt_fin, decide_eq_true_eq]
  split
  · rename_i h
    rw [max_eq_right (le_of_lt h)]
  · rename_i h
    rw [max_eq_left (not_lt.mp h)]

theorem min_fin (a b : ℚ) : min (.fin a) (.fin b) = .fin (Min.min a b) := by
  simp only [min, reduceCtorEq, or_self, if_false, fin_lt_fin, decide_eq_true_eq]
  split
  · rename_i h
    rw [min_eq_right (le_of_lt h)]
  · rename_i h
    rw [min_eq_left (not_lt.mp h)]

theorem pow_lt_doubleBound : (2 : ℚ) ^ 1023 < doubleBound := by
  have hsmall : (2 : ℚ) ^ 970 < 2 ^ 1023 := pow_lt_pow_right₀ (by norm_num) (by decide)
  have hdouble : (2 : ℚ) ^ 1024 = 2 * 2 ^ 1023 := pow_succ' 2 1023
  unfold doubleBound
  rw [hdouble]
  generalize (2 : ℚ) ^ 1023 = x at *
  generalize (2 : ℚ) ^ 970 = y at *
  linarith

theorem overflow_two_pow (n : Nat) :
    overflow (.fin (2 ^ n)) = if n < 1024 then .fin (2 ^ n) else .posInf := by
  have hpos : (0 : ℚ) < 2 ^ n := by positivity
  have hhalf : (0 : ℚ) < 2 ^ 1023 := by positivity
  have hbound := pow_lt_doubleBound
  by_cases hn : n < 1024
  · have hle : (2 : ℚ) ^ n ≤ 2 ^ 1023 := pow_le_pow_right₀ (by norm_num) (by omega)
    have hbelow : ¬ doubleBound ≤ (2 : ℚ) ^ n := not_le.mpr (lt_of_le_of_lt hle hbound)
    have hneg : -doubleBound < 0 := neg_lt_zero.mpr (lt_trans hhalf hbound)
    have habove : ¬ (2 : ℚ) ^ n ≤ -doubleBound := not_le.mpr (lt_trans hneg hpos)
    simp only [overflow, hbelow, habove, hn, if_true, if_false]
  · have hle : (2 : ℚ) ^ 1024 ≤ 2 ^ n := pow_le_pow_right₀ (by norm_num) (by omega)
    have hsmall : (0 : ℚ) < 2 ^ 970 := by positivity
    have hfull : doubleBound ≤ (2 : ℚ) ^ n := le_trans (sub_le_self _ hsmall.le) hle
    simp only [overflow, hfull, hn, if_true, if_false]

@[simp] theorem min_ofNat (m n : Nat) : min (ofNat m) (ofNat n) = ofNat (Min.min m n) := by
  simp [ofNat, min_fin]

theorem lt_of_ofNat_le {m n : Nat} {x : JsNumber} (h : m ≤ n) (hx : lt (ofNat n) x = true) :
    lt (ofNat m) x = true := by
  cases x with
  | fin q =>
    have hn : (n : ℚ) < q := by simpa [ofNat] using hx
    have hmn : (m : ℚ) ≤ n := by exact_mod_cast h
    simpa [ofNat] using lt_of_le_of_lt hmn hn
  | posInf => rfl
  | nan => simp at hx
  | negInf => cases hx

theorem le_of_ofNat_le {m n : Nat} {x : JsNumber} (h : m ≤ n) (hx : le (ofNat n) x = true) :
    le (ofNat m) x = true := by
  cases x with
  | fin q =>
    have hn : (n : ℚ) ≤ q := by simpa [ofNat] using hx
    have hmn : (m : ℚ) ≤ n := by exact_mod_cast h
    simpa [ofNat] using le_trans hmn hn
  | posInf => rfl
  | nan => simp at hx
  | negInf => cases hx

theorem lt_ofNat_of_le {m n : Nat} {x : JsNumber} (hx : lt x (ofNat m) = true) (h : m ≤ n) :
    lt x (ofNat n) = true := by
  cases x with
  | fin q =>
    have hm : q < (m : ℚ) := by simpa [ofNat] using hx
    have hmn : (m : ℚ) ≤ n := by exact_mod_cast h
    simpa [ofNat] using lt_of_lt_of_le hm hmn
  | negInf => rfl
  | nan => cases hx
  | posInf => cases hx

theorem lt_of_le_of_lt_ofNat {m n : Nat} {x : JsNumber} (hm : le (ofNat m) x = true)
    (hn : lt x (ofNat n) = true) : m < n := by
  cases x with
  | fin q =>
    have hmq : (m : ℚ) ≤ q := by simpa [ofNat] using hm
    have hqn : q < (n : ℚ) := by simpa [ofNat] using hn
    exact_mod_cast lt_of_le_of_lt hmq hqn
  | posInf => cases hn
  | nan => simp at hm
  | negInf => cases hm

theorem floorNat_cases {x : JsNumber} (h : 1 ≤ floorNat x) :
    x = ofNat (floorNat x) ∨ lt (ofNat (floorNat x)) x = true := by
  cases x with
  | fin q =>
    have hf : ((⌊q⌋.toNat : Nat) : ℚ) ≤ q := by
      have hz : ((⌊q⌋.toNat : Nat) : Int) = ⌊q⌋ := by
        simp only [floorNat] at h
        omega
      have hq : (⌊q⌋ : ℚ) ≤ q := Int.floor_le q
      rw [← hz] at hq
      exact_mod_cast hq
    rcases lt_or_eq_of_le hf with hlt | heq
    · exact .inr (by simpa [ofNat, floorNat] using hlt)
    · exact .inl (by simp [ofNat, floorNat, heq])
  | posInf => simp [floorNat] at h
  | nan => simp [floorNat] at h
  | negInf => simp [floorNat] at h

theorem ofNat_le_fin_iff (n : Nat) (q : ℚ) (hq : 0 ≤ q) :
    le (ofNat n) (.fin q) = true ↔ n ≤ floorNat (.fin q) := by
  have hf : (0 : Int) ≤ ⌊q⌋ := Int.floor_nonneg.mpr hq
  simp only [ofNat, fin_le_fin, decide_eq_true_eq, floorNat]
  constructor
  · intro h
    have hz : (n : Int) ≤ ⌊q⌋ := Int.le_floor.mpr (by exact_mod_cast h)
    omega
  · intro h
    have hz : (n : Int) ≤ ⌊q⌋ := by omega
    exact_mod_cast Int.le_floor.mp hz

end JsNumber
