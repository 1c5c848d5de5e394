import Mathlib.Data.List.Basic

namespace Ebb

/-! Texts that carry their length in front, so that a reader of their concatenation
finds where each one ends. -/

def lengthPrefixed {α : Type u} (numeral : Nat → List α) (separator : α) (text : List α) : List α :=
  numeral text.length ++ separator :: text

variable {α : Type u} {numeral : Nat → List α} {separator : α}

theorem append_separator_inj {left right rest others : List α} (leftFree : separator ∉ left)
    (rightFree : separator ∉ right) (equal : left ++ separator :: rest =
      right ++ separator :: others) :
    left = right ∧ rest = others := by
  induction left generalizing right with
  | nil =>
      cases right with
      | nil => simpa using equal
      | cons head right =>
          simp only [List.nil_append, List.cons_append, List.cons.injEq] at equal
          simp [equal.1] at rightFree
  | cons head left induction =>
      cases right with
      | nil =>
          simp only [List.nil_append, List.cons_append, List.cons.injEq] at equal
          simp [equal.1] at leftFree
      | cons other right =>
          simp only [List.cons_append, List.cons.injEq, List.mem_cons, not_or] at *
          have tails := induction leftFree.2 rightFree.2 equal.2
          exact ⟨⟨equal.1, tails.1⟩, tails.2⟩

theorem lengthPrefixed_append_inj (free : ∀ length, separator ∉ numeral length)
    (injective : Function.Injective numeral) {left right rest others : List α}
    (equal : lengthPrefixed numeral separator left ++ rest =
      lengthPrefixed numeral separator right ++ others) :
    left = right ∧ rest = others := by
  simp only [lengthPrefixed, List.append_assoc, List.cons_append] at equal
  obtain ⟨lengths, texts⟩ := append_separator_inj (free left.length) (free right.length) equal
  exact List.append_inj texts (injective lengths)

/-! ## The last place of a marker -/

section LastIndex

variable [DecidableEq α] {marker : List α}

def lastIndexOf (marker : List α) : List α → Option Nat
  | [] => if marker = [] then some 0 else none
  | head :: rest =>
      match lastIndexOf marker rest with
      | some index => some (index + 1)
      | none => if marker <+: head :: rest then some 0 else none

theorem lastIndexOf_eq_none_iff {text : List α} :
    lastIndexOf marker text = none ↔ ¬ marker <:+: text := by
  induction text with
  | nil => simp [lastIndexOf]
  | cons head rest induction =>
      rw [lastIndexOf, List.infix_cons_iff]
      cases later : lastIndexOf marker rest with
      | none => simp [induction.mp later]
      | some index =>
          have found : marker <:+: rest := by
            by_contra absent
            rw [induction.mpr absent] at later
            cases later
          simp [found]

theorem lastIndexOf_append {text after : List α} {index : Nat}
    (found : lastIndexOf marker after = some index) :
    lastIndexOf marker (text ++ after) = some (text.length + index) := by
  induction text with
  | nil => simpa using found
  | cons head rest induction =>
      rw [List.cons_append, lastIndexOf, induction]
      simp only [List.length_cons, Option.some.injEq]
      omega

end LastIndex

end Ebb
