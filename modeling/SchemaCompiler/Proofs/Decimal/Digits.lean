import Mathlib
import SchemaCompiler.Decimal.Digits

/-
Digits that are read back.

Writing a natural number and reading its digits gives the number.  Conversely digits without
a zero in front are those of the number they stand for.
-/

namespace SchemaCompiler
namespace Decimal

theorem digits_ne_nil (n : Nat) : digits n ≠ [] :=
  Nat.toDigits_ne_nil

theorem isDigit_of_mem_digits {n : Nat} {c : Char} (member : c ∈ digits n) :
    c.isDigit = true :=
  Nat.isDigit_of_mem_toDigits (by decide) (by decide) member

/-- A positive number is not written with a leading zero. -/
theorem head?_digits_ne_zero {n : Nat} (positive : 0 < n) : (digits n).head? ≠ some '0' := by
  induction n using Nat.strong_induction_on with
  | h n ih =>
      rw [digits, Nat.toDigits_eq_if (by decide)]
      by_cases short : n < 10
      · rw [if_pos short]
        interval_cases n <;> decide
      · have shorter := ih (n / 10) (by omega) (by omega)
        have written : Nat.toDigits 10 (n / 10) ≠ [] := digits_ne_nil _
        rw [if_neg short, List.head?_append_of_ne_nil _ written]
        exact shorter

-- The equations of the recursion are stated by unfolding it, since rewriting with them would
-- have Lean compute the first argument.
theorem valueFrom_nil (before : Nat) : valueFrom before [] = before := by
  delta valueFrom
  rfl

theorem valueFrom_cons (before : Nat) (c : Char) (rest : List Char) :
    valueFrom before (c :: rest) = valueFrom (10 * before + (c.toNat - '0'.toNat)) rest := by
  delta valueFrom
  rfl

theorem valueFrom_eq (before : Nat) (ds : List Char) :
    valueFrom before ds = Nat.ofDigitChars 10 ds before := by
  induction ds generalizing before with
  | nil => exact valueFrom_nil before
  | cons c rest ih => rw [valueFrom_cons, ih, Nat.ofDigitChars_cons]

theorem value_digits (n : Nat) : value (digits n) = n := by
  rw [value, valueFrom_eq]
  exact Nat.ofDigitChars_ten_toDigits

theorem digits_injective {m n : Nat} (same : digits m = digits n) : m = n := by
  rw [← value_digits m, same, value_digits]

theorem valueFrom_append (before : Nat) (ds others : List Char) :
    valueFrom before (ds ++ others) = valueFrom (valueFrom before ds) others := by
  simp only [valueFrom_eq, Nat.ofDigitChars_append]

theorem valueFrom_zeros (before count : Nat) :
    valueFrom before (List.replicate count '0') = before * tenTo count := by
  rw [valueFrom_eq, Nat.ofDigitChars_replicate_zero, Nat.mul_comm]
  rfl

theorem value_append_zeros (ds : List Char) (count : Nat) :
    value (ds ++ List.replicate count '0') = value ds * tenTo count := by
  rw [value, valueFrom_append, valueFrom_zeros]
  rfl

theorem value_zeros_append (count : Nat) (ds : List Char) :
    value (List.replicate count '0' ++ ds) = value ds := by
  rw [value, valueFrom_append, valueFrom_zeros, Nat.zero_mul]
  rfl

theorem digitChar_of_isDigit {c : Char} (digit : c.isDigit = true) :
    c.toNat - '0'.toNat < 10 ∧ Nat.digitChar (c.toNat - '0'.toNat) = c := by
  simp only [Char.isDigit, Bool.and_eq_true, decide_eq_true_eq] at digit
  have least : 48 ≤ c.toNat := digit.1
  have greatest : c.toNat ≤ 57 := digit.2
  have zero : '0'.toNat = 48 := rfl
  refine ⟨by omega, Char.toNat_inj.mp ?_⟩
  rw [Nat.toNat_digitChar_of_lt_ten (by omega)]
  omega

/-- Digits after those of a positive number are the last digits of the number they make
together. -/
theorem digits_valueFrom {ds : List Char} (each : ∀ c ∈ ds, c.isDigit = true) {before : Nat}
    (positive : 0 < before) : digits (valueFrom before ds) = digits before ++ ds := by
  induction ds generalizing before with
  | nil => rw [valueFrom_nil, List.append_nil]
  | cons c rest ih =>
      obtain ⟨digit, others⟩ := List.forall_mem_cons.mp each
      have ⟨small, written⟩ := digitChar_of_isDigit digit
      have next : digits (10 * before + (c.toNat - '0'.toNat)) = digits before ++ [c] := by
        rw [digits, ← Nat.toDigits_append_toDigits (by decide) positive small,
          Nat.toDigits_of_lt_base small, written]
        rfl
      rw [valueFrom_cons, ih others (by omega), next, List.append_assoc, List.singleton_append]

/-- Digits without a zero in front are those of the number they stand for. -/
theorem digits_value {c : Char} (leading : c ≠ '0') {rest : List Char}
    (each : ∀ d ∈ c :: rest, d.isDigit = true) : digits (value (c :: rest)) = c :: rest := by
  obtain ⟨digit, others⟩ := List.forall_mem_cons.mp each
  have ⟨small, written⟩ := digitChar_of_isDigit digit
  have positive : 0 < c.toNat - '0'.toNat := by
    by_contra none
    rw [Nat.eq_zero_of_not_pos none] at written
    exact leading written.symm
  have first : digits (c.toNat - '0'.toNat) = [c] := by
    rw [digits, Nat.toDigits_of_lt_base small, written]
  rw [value, valueFrom_cons, Nat.mul_zero, Nat.zero_add, digits_valueFrom others positive, first,
    List.singleton_append]

end Decimal
end SchemaCompiler
