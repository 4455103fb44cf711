import Mathlib.Algebra.Order.Ring.Int
import Mathlib.Algebra.Order.Ring.Nat
import Mathlib.Data.Int.Basic
import Mathlib.Data.List.TakeDrop
import Mathlib.Data.List.TakeWhile
import Mathlib.Tactic.SplitIfs

/-!
# Strings and numbers of C

Strings are kept without their terminator.  `int` is 32 bits wide and `long` is 64 bits wide; a
conversion to `int` keeps the lower 32 bits.

* `snprintf`, `decimal` : rendering, bounded and of an `int`.
* `intOf`, `checkInt` : the conversion to `int`, and arithmetic that may overflow.
* `strtol`, `atoi` : reading numbers.
* `snprintf_eq_iff`, `length_decimal_le_iff` : what is rendered completely.
* `atoi_decimal` : `atoi` reads what was rendered.
-/

namespace Usbws

/-- A C string, without its terminator. -/
abbrev CStr := List Char

/-- `snprintf(dst, n, ...)` : what is stored of the text in front of the terminator. -/
def snprintf (n : ℕ) (text : CStr) : CStr := text.take (n - 1)

/-- The text of an `int` as printed by `%d`. -/
def decimal (n : ℤ) : CStr := (toString n).toList

/-- The values of type `int`. -/
def IsInt (n : ℤ) : Prop := -2 ^ 31 ≤ n ∧ n < 2 ^ 31

instance (n : ℤ) : Decidable (IsInt n) := inferInstanceAs (Decidable (_ ∧ _))

/-- The result of an operation on values of type `int`; `none` is an overflow. -/
def checkInt (n : ℤ) : Option ℤ := if IsInt n then some n else none

/-- The conversion of an integer to `int`. -/
def intOf (n : ℤ) : ℤ := n.bmod (2 ^ 32)

/-- The value of type `long` that is nearest to an integer. -/
def clampLong (n : ℤ) : ℤ := max (-2 ^ 63) (min n (2 ^ 63 - 1))

/-- `isspace` in the C locale. -/
def isSpace (c : Char) : Bool := c = ' ' || (9 ≤ c.toNat && c.toNat ≤ 13)

/-- The number that the leading digits of a string denote. -/
def leadingDigits (s : CStr) : ℕ := Nat.ofDigitChars 10 (s.takeWhile Char.isDigit) 0

/-- `strtol(s, NULL, 10)`. -/
def strtol (s : CStr) : ℤ :=
  match s.dropWhile isSpace with
  | '-' :: t => clampLong (-leadingDigits t)
  | '+' :: t => clampLong (leadingDigits t)
  | t => clampLong (leadingDigits t)

/-- `atoi`. -/
def atoi (s : CStr) : ℤ := intOf (strtol s)

/-! ### Conversions -/

theorem isInt_intOf (n : ℤ) : IsInt (intOf n) := by
  have hle := Int.le_bmod (x := n) (m := 2 ^ 32) (by decide)
  have hlt := Int.bmod_lt (x := n) (m := 2 ^ 32) (by decide)
  exact ⟨hle, hlt⟩

theorem checkInt_eq_some_iff {n m : ℤ} : checkInt n = some m ↔ IsInt n ∧ n = m := by
  unfold checkInt
  split_ifs with h <;> simp [h]

/-- The conversion keeps exactly the values of type `int`. -/
theorem intOf_eq_self_iff {n : ℤ} : intOf n = n ↔ IsInt n := by
  constructor
  · intro h
    have hint := isInt_intOf n
    rwa [h] at hint
  · rintro ⟨hle, hlt⟩
    exact Int.bmod_eq_of_le hle hlt

/-- Beyond the range of `int` the conversion takes off 4 GB or more. -/
theorem intOf_le_of_le {n : ℤ} (h : 2 ^ 31 ≤ n) : intOf n ≤ n - 2 ^ 32 := by
  have hmod : intOf n = n - (2 ^ 32 : ℕ) * n.bdiv (2 ^ 32) := Int.bmod_eq_self_sub_mul_bdiv n _
  have hlt := (isInt_intOf n).2
  generalize n.bdiv (2 ^ 32) = k at hmod
  omega

/-! ### Rendering -/

/-- The text is stored completely if there is room for its terminator. -/
theorem snprintf_eq_iff {n : ℕ} {text : CStr} :
    snprintf n text = text ↔ text.length ≤ n - 1 :=
  List.take_eq_self_iff text

theorem decimal_natCast (n : ℕ) : decimal n = Nat.toDigits 10 n := by
  simp [decimal, Int.toString_eq_repr, Int.repr_eq_if]

theorem decimal_negSucc (n : ℕ) : decimal (Int.negSucc n) = '-' :: Nat.toDigits 10 (n + 1) := by
  simp [decimal, Int.toString_eq_repr, Int.repr_eq_if]

/-- A number is rendered by digits and a sign. -/
theorem mem_decimal {n : ℤ} {c : Char} (h : c ∈ decimal n) : c = '-' ∨ c.isDigit = true := by
  cases n with
  | ofNat n =>
    rw [Int.ofNat_eq_natCast, decimal_natCast] at h
    exact .inr (Nat.isDigit_of_mem_toDigits (by decide) (by decide) h)
  | negSucc n =>
    rw [decimal_negSucc, List.mem_cons] at h
    exact h.imp_right (Nat.isDigit_of_mem_toDigits (by decide) (by decide))

/-- How many digits there is room for. -/
theorem length_decimal_le_iff {n : ℤ} {k : ℕ} (hk : 0 < k) :
    (decimal n).length ≤ k + 1 ↔ -10 ^ k < n ∧ n < 10 ^ (k + 1) := by
  have hpow : ∀ j : ℕ, ((10 ^ j : ℕ) : ℤ) = 10 ^ j := fun j => by push_cast; rfl
  have hpos : ∀ j : ℕ, 0 < 10 ^ j := fun j => Nat.pow_pos (by decide)
  have hk₀ := hpos k
  have hk₁ := hpos (k + 1)
  rw [← hpow, ← hpow]
  cases n with
  | ofNat n =>
    rw [Int.ofNat_eq_natCast, decimal_natCast, Nat.length_toDigits_le_iff (by decide) (by omega)]
    omega
  | negSucc n =>
    rw [decimal_negSucc, List.length_cons, Nat.add_le_add_iff_right,
      Nat.length_toDigits_le_iff (by decide) hk]
    omega

/-! ### Reading back -/

theorem leadingDigits_toDigits (n : ℕ) : leadingDigits (Nat.toDigits 10 n) = n := by
  have hall : ∀ c ∈ Nat.toDigits 10 n, c.isDigit = true := fun c hc =>
    Nat.isDigit_of_mem_toDigits (by decide) (by decide) hc
  rw [leadingDigits, List.takeWhile_eq_self_iff.2 hall, Nat.ofDigitChars_ten_toDigits]

theorem not_isSpace_of_isDigit {c : Char} (h : c.isDigit = true) : isSpace c = false := by
  have hge : 48 ≤ c.toNat := by
    simp only [Char.isDigit, Bool.and_eq_true, decide_eq_true_eq] at h
    exact h.1
  have hne : c ≠ ' ' := by
    rintro rfl
    cases h
  simp only [isSpace, hne, decide_false, Bool.false_or, Bool.and_eq_false_iff,
    decide_eq_false_iff_not]
  omega

/-- A string of digits begins with neither white space nor a sign. -/
theorem strtol_toDigits (n : ℕ) : strtol (Nat.toDigits 10 n) = clampLong n := by
  obtain ⟨c, t, ht⟩ := List.exists_cons_of_ne_nil (Nat.toDigits_ne_nil (n := n) (b := 10))
  have hc : c.isDigit = true :=
    Nat.isDigit_of_mem_toDigits (b := 10) (by decide) (by decide) (ht ▸ List.mem_cons_self)
  rw [strtol, ht, List.dropWhile_cons_of_neg (by simp [not_isSpace_of_isDigit hc]), ← ht]
  split
  · next h =>
    rw [ht] at h
    cases h
    cases hc
  · next h =>
    rw [ht] at h
    cases h
    cases hc
  · rw [leadingDigits_toDigits]

/-- `atoi` reads a number as it was rendered. -/
theorem atoi_decimal {n : ℕ} (h : n < 2 ^ 31) : atoi (decimal n) = n := by
  have hread : strtol (decimal n) = n := by
    rw [decimal_natCast, strtol_toDigits, clampLong]
    omega
  rw [atoi, hread, intOf_eq_self_iff]
  exact ⟨by omega, by exact_mod_cast h⟩

/-- Different numbers are rendered differently. -/
theorem decimal_natCast_inj {n m : ℕ} : decimal n = decimal m ↔ n = m := by
  constructor
  · intro h
    rw [decimal_natCast, decimal_natCast] at h
    have hread := congrArg leadingDigits h
    rwa [leadingDigits_toDigits, leadingDigits_toDigits] at hread
  · rintro rfl
    rfl

end Usbws
