import Mathlib.Data.List.Basic
import Mathlib.Data.Char

namespace Ebb.Decimal

/-! Decimal numerals: reading one and writing the number it denotes. -/

def digitValue (char : Char) : Nat := char.toNat - '0'.toNat

theorem digitChar_digitValue {char : Char} (digit : char.isDigit = true) :
    digitValue char < 10 ∧ Nat.digitChar (digitValue char) = char := by
  have lower : 48 ≤ char.toNat := by
    have bound := (Bool.and_eq_true_iff.mp digit).1
    exact (by simpa using bound : (48 : UInt32) ≤ char.val)
  have upper : char.toNat ≤ 57 := by
    have bound := (Bool.and_eq_true_iff.mp digit).2
    exact (by simpa using bound : char.val ≤ (57 : UInt32))
  have small : digitValue char < 10 := by
    change char.toNat - 48 < 10
    omega
  refine ⟨small, Char.toNat_inj.mp ?_⟩
  rw [Nat.toNat_digitChar_of_lt_ten small]
  change 48 + (char.toNat - 48) = char.toNat
  omega

theorem digitValue_pos {char : Char} (digit : char.isDigit = true) (nonzero : char ≠ '0') :
    0 < digitValue char := by
  rcases Nat.eq_zero_or_pos (digitValue char) with zero | positive
  · have written := (digitChar_digitValue digit).2
    rw [zero] at written
    exact absurd written.symm nonzero
  · exact positive

theorem toDigits_append {digits : List Char} (all : ∀ char ∈ digits, char.isDigit = true)
    {read : Nat} (positive : 0 < read) :
    Nat.toDigits 10 read ++ digits = Nat.toDigits 10 (Nat.ofDigitChars 10 digits read) := by
  induction digits generalizing read with
  | nil => rw [List.append_nil, Nat.ofDigitChars_nil]
  | cons char rest induction =>
      rw [List.forall_mem_cons] at all
      rcases digitChar_digitValue all.1 with ⟨small, written⟩
      have extended := Nat.toDigits_append_toDigits (by decide : 1 < 10) positive small
      rw [Nat.toDigits_of_lt_base small, written] at extended
      have later : 0 < 10 * read + digitValue char :=
        Nat.add_pos_left (Nat.mul_pos (by decide) positive) _
      calc Nat.toDigits 10 read ++ char :: rest
          = Nat.toDigits 10 (10 * read + digitValue char) ++ rest := by
            rw [← extended, List.append_assoc, List.singleton_append]
        _ = Nat.toDigits 10 (Nat.ofDigitChars 10 rest (10 * read + digitValue char)) :=
            induction all.2 later
        _ = Nat.toDigits 10 (Nat.ofDigitChars 10 (char :: rest) read) := by
            rw [Nat.ofDigitChars_cons, digitValue]

theorem toDigits_ofDigitChars {char : Char} {rest : List Char}
    (all : ∀ digit ∈ char :: rest, digit.isDigit = true) (nonzero : char ≠ '0') :
    Nat.toDigits 10 (Nat.ofDigitChars 10 (char :: rest) 0) = char :: rest := by
  rw [List.forall_mem_cons] at all
  rcases digitChar_digitValue all.1 with ⟨small, written⟩
  have continued := toDigits_append all.2 (digitValue_pos all.1 nonzero)
  rw [Nat.toDigits_of_lt_base small, written, List.singleton_append] at continued
  rw [Nat.ofDigitChars_cons, Nat.mul_zero, Nat.zero_add]
  exact continued.symm

theorem head?_toDigits {number : Nat} (positive : 0 < number) :
    (Nat.toDigits 10 number).head? ≠ some '0' := by
  induction number using Nat.strongRecOn with
  | ind number induction =>
      rw [Nat.toDigits_eq_if (by decide : 1 < 10)]
      split
      · next small =>
          rw [List.head?_cons, Ne, Option.some.injEq, ← Char.toNat_inj,
            Nat.toNat_digitChar_of_lt_ten small]
          change 48 + number ≠ 48
          omega
      · next large =>
          rw [List.head?_append_of_ne_nil _ Nat.toDigits_ne_nil]
          exact induction (number / 10) (by omega) (by omega)

end Ebb.Decimal
