import Mathlib
import Montage.Number.Reading
import Montage.Proofs.JsonTokens

/-! Numbers in decimal digits. A number without leading zeros is the digits of its value, and so is a pair of digits of
its own, so that either is told by its value. -/

namespace Montage.Proofs.DecimalDigits
open Number

/-- A number in digits, without leading zeros. -/
structure IsNumber (digits : List Char) : Prop where
  all : ∀ c ∈ digits, isDigit c = true
  any : digits ≠ []
  lead : digits.head? = some '0' → digits = ['0']

structure IsPair (digits : List Char) : Prop where
  all : ∀ c ∈ digits, isDigit c = true
  two : digits.length = 2

theorem isDigit_value {c : Char} (digit : isDigit c = true) : digitValue c < 10 ∧ (digitValue c).digitChar = c := by
  have bounds : 48 ≤ c.toNat ∧ c.toNat ≤ 57 := by
    simpa [isDigit, Char.le_def, UInt32.le_iff_toNat_le] using digit
  have written : ∀ n < 10, n.digitChar.toNat = n + 48 := by decide
  have small : digitValue c < 10 := by
    change c.toNat - 48 < 10
    omega
  refine ⟨small, Char.toNat_inj.mp ?_⟩
  rw [written _ small]
  change c.toNat - 48 + 48 = _
  omega

theorem valueOf_concat (front : List Char) (c : Char) : valueOf (front ++ [c]) = 10 * valueOf front + digitValue c := by
  simp [valueOf, Nat.mul_comm]

theorem valueOf_append (front back : List Char) :
    valueOf (front ++ back) = valueOf front * 10 ^ back.length + valueOf back := by
  induction back using List.reverseRecOn with
  | nil => simp [valueOf]
  | append_singleton back c ih =>
    rw [← List.append_assoc, valueOf_concat, valueOf_concat, ih, List.length_append, List.length_singleton, pow_succ]
    ring

theorem valueOf_lt {digits : List Char} (all : ∀ c ∈ digits, isDigit c = true) :
    valueOf digits < 10 ^ digits.length := by
  induction digits using List.reverseRecOn with
  | nil => decide
  | append_singleton front c ih =>
    have before := ih fun d member => all d (List.mem_append_left _ member)
    have small := (isDigit_value (all c (by simp))).1
    rw [valueOf_concat, List.length_append, List.length_singleton, pow_succ]
    omega

/-- A number is the digits of its value. -/
theorem digitsOf_valueOf {digits : List Char} (number : IsNumber digits) : digitsOf (valueOf digits) = digits := by
  induction digits using List.reverseRecOn with
  | nil => exact absurd rfl number.any
  | append_singleton front c ih =>
    obtain ⟨small, same⟩ := isDigit_value (number.all c (by simp))
    rw [valueOf_concat]
    by_cases none : front = []
    · subst none
      have single : 10 * valueOf [] + digitValue c = digitValue c := Nat.zero_add _
      rw [single, digitsOf, Nat.toDigits_of_lt_base small, same]
      rfl
    · have lead : front.head? ≠ some '0' := fun zero => by
        have alone := number.lead (by rw [List.head?_append, zero]; rfl)
        obtain ⟨nothing, -⟩ | ⟨-, nothing⟩ := List.append_eq_singleton_iff.mp alone
        · exact none nothing
        · cases nothing
      have before := ih ⟨fun d member => number.all d (List.mem_append_left _ member), none, fun zero => absurd zero lead⟩
      have positive : valueOf front ≠ 0 := fun zero => by
        rw [zero] at before
        exact lead (before ▸ rfl)
      rw [digitsOf, Nat.toDigits_of_base_le (by decide) (by omega)]
      rw [show (10 * valueOf front + digitValue c) / 10 = valueOf front by omega,
        show (10 * valueOf front + digitValue c) % 10 = digitValue c by omega, same]
      rw [digitsOf] at before
      rw [before]

theorem number_digitsOf (n : Nat) : IsNumber (digitsOf n) := by
  refine ⟨JsonTokens.digitsOf_digits, Nat.toDigits_ne_nil, fun zero => ?_⟩
  obtain rfl | positive := n.eq_zero_or_pos
  · rfl
  · obtain ⟨c, rest, digits, lead⟩ := JsonTokens.digitsOf_lead positive
    rw [digits] at zero
    exact absurd (Option.some.inj zero) lead

private theorem padded_two {n : Nat} (small : n < 100) : padded 2 n = [(n / 10).digitChar, (n % 10).digitChar] := by
  obtain less | more := Nat.lt_or_ge n 10
  · have digits : digitsOf n = [n.digitChar] := Nat.toDigits_of_lt_base less
    rw [padded, digits, Nat.div_eq_of_lt less, Nat.mod_eq_of_lt less]
    rfl
  · have digits : digitsOf n = [(n / 10).digitChar, (n % 10).digitChar] := by
      rw [digitsOf, Nat.toDigits_of_base_le (by decide) more, Nat.toDigits_of_lt_base (by omega)]
      rfl
    rw [padded, digits]
    rfl

theorem valueOf_pair (first second : Char) : valueOf [first, second] = 10 * digitValue first + digitValue second := by
  simp [valueOf, Nat.mul_comm]

theorem pair_padded {n : Nat} (small : n < 100) : IsPair (padded 2 n) ∧ valueOf (padded 2 n) = n := by
  have digit : ∀ d < 10, isDigit d.digitChar = true ∧ digitValue d.digitChar = d := by decide
  obtain ⟨first, first_value⟩ := digit (n / 10) (by omega)
  obtain ⟨second, second_value⟩ := digit (n % 10) (by omega)
  rw [padded_two small]
  refine ⟨⟨by simp [first, second], rfl⟩, ?_⟩
  rw [valueOf_pair, first_value, second_value]
  omega

theorem pair_cases {digits : List Char} (pair : IsPair digits) : ∃ first second, digits = [first, second] ∧
    isDigit first = true ∧ isDigit second = true := by
  obtain ⟨all, two⟩ := pair
  obtain ⟨first, second, rfl⟩ := List.length_eq_two.mp two
  exact ⟨first, second, rfl, all first (by simp), all second (by simp)⟩

theorem pair_small {digits : List Char} (pair : IsPair digits) : valueOf digits < 100 := by
  have small := valueOf_lt pair.all
  rwa [pair.two] at small

/-- Pairs of one value are one pair. -/
theorem pair_unique {digits other : List Char} (pair : IsPair digits) (second : IsPair other)
    (same : valueOf digits = valueOf other) : digits = other := by
  obtain ⟨a, b, rfl, a_digit, b_digit⟩ := pair_cases pair
  obtain ⟨c, d, rfl, c_digit, d_digit⟩ := pair_cases second
  obtain ⟨a_small, a_char⟩ := isDigit_value a_digit
  obtain ⟨b_small, b_char⟩ := isDigit_value b_digit
  obtain ⟨c_small, c_char⟩ := isDigit_value c_digit
  obtain ⟨d_small, d_char⟩ := isDigit_value d_digit
  rw [valueOf_pair, valueOf_pair] at same
  rw [← a_char, ← b_char, ← c_char, ← d_char, show digitValue a = digitValue c by omega,
    show digitValue b = digitValue d by omega]

end Montage.Proofs.DecimalDigits
