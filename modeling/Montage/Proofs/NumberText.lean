import Montage.Proofs.JsonTokens

/-! The characters of written numbers. Doubles and natural numbers are written with digits, a sign, a point and the
letters of the words for what has no digits, and so with nothing that a notation around them gives a meaning to. -/

namespace Montage.Proofs.NumberText
open Number

def numeric (c : Char) : Bool :=
  isDigit c || ['-', '.', 'N', 'a', 'i', 'n', 'f'].contains c

def Numeric (text : List Char) : Prop :=
  ∀ c ∈ text, numeric c = true

theorem numeric_ne {c other : Char} (here : numeric c = true) (apart : numeric other = false) : c ≠ other := by
  rintro rfl
  simp_all

@[simp] theorem numeric_append (first second : List Char) : Numeric (first ++ second) ↔ Numeric first ∧ Numeric second :=
  List.forall_mem_append

theorem numeric_of_digits {digits : List Char} (all : ∀ c ∈ digits, isDigit c = true) : Numeric digits :=
  fun c member => by rw [numeric, all c member, Bool.true_or]

theorem numeric_digitsOf (n : Nat) : Numeric (digitsOf n) :=
  numeric_of_digits JsonTokens.digitsOf_digits

theorem numeric_zeros (count : Nat) : Numeric (List.replicate count '0') :=
  numeric_of_digits fun _ member => List.eq_of_mem_replicate member ▸ rfl

theorem numeric_sign (negative : Bool) : Numeric (signOf negative) := by
  cases negative <;> exact List.all_eq_true.mp rfl

private theorem numeric_withPlaces {digits : List Char} (all : Numeric digits) (places : Nat) :
    Numeric (withPlaces places digits) := by
  unfold withPlaces
  split
  · exact all
  · have filled : Numeric (List.replicate (places + 1 - digits.length) '0' ++ digits) :=
      (numeric_append _ _).mpr ⟨numeric_zeros _, all⟩
    intro c member
    obtain front | back := List.mem_append.mp member
    · exact filled c (List.mem_of_mem_take front)
    · obtain rfl | back := List.mem_cons.mp back
      · rfl
      · exact filled c (List.mem_of_mem_drop back)

private theorem numeric_decimal (decimal : Decimal) : Numeric decimal.plain := by
  unfold Decimal.plain
  split
  · exact numeric_zeros 1
  · split
    · exact (numeric_append _ _).mpr ⟨numeric_digitsOf _, numeric_zeros _⟩
    · exact numeric_withPlaces (numeric_digitsOf _) _

private theorem numeric_undefined : Numeric "NaN".toList :=
  List.all_eq_true.mp rfl

private theorem numeric_infinite (negative : Bool) : Numeric (signOf negative ++ "inf".toList) :=
  (numeric_append _ _).mpr ⟨numeric_sign negative, List.all_eq_true.mp rfl⟩

theorem numeric_plain (x : Float) : Numeric (plain x) := by
  unfold plain
  split
  · exact numeric_undefined
  · exact numeric_infinite _
  · exact (numeric_append _ _).mpr ⟨numeric_sign _, numeric_decimal _⟩

theorem numeric_fixed (places : Nat) (x : Float) : Numeric (fixed places x) := by
  unfold fixed
  split
  · exact numeric_undefined
  · exact numeric_infinite _
  · exact (numeric_append _ _).mpr ⟨numeric_sign _, numeric_withPlaces (numeric_digitsOf _) _⟩

end Montage.Proofs.NumberText
