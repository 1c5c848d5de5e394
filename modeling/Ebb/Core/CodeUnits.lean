import Ebb.Core.FieldValue

namespace Ebb

/-! UTF-16 code units against code points: both determine the string, and the two
orders part only over a character from U+E000 to U+FFFF against one beyond. -/

/-! ## Characters -/

def charUnits (char : Char) : List Nat :=
  if char.toNat < 0x10000 then [char.toNat]
  else
    [0xD800 + (char.toNat - 0x10000) / 0x400, 0xDC00 + (char.toNat - 0x10000) % 0x400]

theorem char_range (char : Char) :
    char.toNat < 0xD800 ∨ 0xDFFF < char.toNat ∧ char.toNat < 0x110000 := char.valid

theorem charUnits_small {char : Char} (small : char.toNat < 0x10000) :
    charUnits char = [char.toNat] := if_pos small

theorem charUnits_large {char : Char} (large : ¬ char.toNat < 0x10000) :
    charUnits char =
      [0xD800 + (char.toNat - 0x10000) / 0x400, 0xDC00 + (char.toNat - 0x10000) % 0x400] :=
  if_neg large

theorem charUnits_append_inj {left right : Char} {rest others : List Nat}
    (equal : charUnits left ++ rest = charUnits right ++ others) :
    left = right ∧ rest = others := by
  have leftRange := char_range left
  have rightRange := char_range right
  by_cases leftSmall : left.toNat < 0x10000 <;> by_cases rightSmall : right.toNat < 0x10000
  · rw [charUnits_small leftSmall, charUnits_small rightSmall] at equal
    simp only [List.cons_append, List.nil_append, List.cons.injEq] at equal
    exact ⟨Char.toNat_inj.mp equal.1, equal.2⟩
  · rw [charUnits_small leftSmall, charUnits_large rightSmall] at equal
    simp only [List.cons_append, List.nil_append, List.cons.injEq] at equal
    omega
  · rw [charUnits_large leftSmall, charUnits_small rightSmall] at equal
    simp only [List.cons_append, List.nil_append, List.cons.injEq] at equal
    omega
  · rw [charUnits_large leftSmall, charUnits_large rightSmall] at equal
    simp only [List.cons_append, List.nil_append, List.cons.injEq] at equal
    exact ⟨Char.toNat_inj.mp (by omega), equal.2.2⟩

theorem charUnits_ne_nil (char : Char) : charUnits char ≠ [] := by
  rw [charUnits]
  split <;> exact List.cons_ne_nil _ _

/-! ## Strings -/

theorem flatMap_charUnits_injective {left right : List Char}
    (equal : left.flatMap charUnits = right.flatMap charUnits) : left = right := by
  induction left generalizing right with
  | nil =>
      cases right with
      | nil => rfl
      | cons head rest =>
          rw [List.flatMap_nil, List.flatMap_cons] at equal
          exact absurd (List.append_eq_nil_iff.mp equal.symm).1 (charUnits_ne_nil head)
  | cons head rest induction =>
      cases right with
      | nil =>
          rw [List.flatMap_nil, List.flatMap_cons] at equal
          exact absurd (List.append_eq_nil_iff.mp equal).1 (charUnits_ne_nil head)
      | cons other others =>
          rw [List.flatMap_cons, List.flatMap_cons] at equal
          have parts := charUnits_append_inj equal
          rw [parts.1, induction parts.2]

theorem codeUnits_injective {left right : String} (equal : codeUnits left = codeUnits right) :
    left = right :=
  String.toList_inj.mp (flatMap_charUnits_injective equal)

/-- The first characters that differ are one from U+E000 to U+FFFF and one beyond:
its surrogates come before the former, its code point after. -/
def ordersDiffer : List Char → List Char → Bool
  | left :: rest, right :: others =>
      if left = right then ordersDiffer rest others
      else
        (0xE000 ≤ left.toNat && left.toNat < 0x10000 && 0x10000 ≤ right.toNat) ||
          (0xE000 ≤ right.toNat && right.toNat < 0x10000 && 0x10000 ≤ left.toNat)
  | _, _ => false

example : ordersDiffer [Char.ofNat 0x1F600] [Char.ofNat 0xFFFD] = true := by decide

theorem ordersDiffer_self (chars : List Char) : ordersDiffer chars chars = false := by
  induction chars with
  | nil => rfl
  | cons head rest induction => rw [ordersDiffer, if_pos rfl, induction]

theorem lex_append_left (same : List Nat) (left right : List Nat) :
    (same ++ left).lex (same ++ right) = left.lex right := by
  induction same with
  | nil => rfl
  | cons head rest induction => simp [List.cons_lex_cons, induction]

theorem lex_cons_of_ne {left right : Nat} (different : left ≠ right) (rest others : List Nat) :
    (left :: rest).lex (right :: others) = decide (left < right) := by
  simp [List.cons_lex_cons, different]

theorem lex_charUnits {left right : Char} (different : left ≠ right) (rest others : List Nat) :
    ((charUnits left ++ rest).lex (charUnits right ++ others) = decide (left.toNat < right.toNat)) ↔
      ((0xE000 ≤ left.toNat && left.toNat < 0x10000 && 0x10000 ≤ right.toNat) ||
        (0xE000 ≤ right.toNat && right.toNat < 0x10000 && 0x10000 ≤ left.toNat)) = false := by
  have leftRange := char_range left
  have rightRange := char_range right
  have codes : left.toNat ≠ right.toNat := fun equal => different (Char.toNat_inj.mp equal)
  simp only [Bool.or_eq_false_iff, Bool.and_eq_false_iff, decide_eq_false_iff_not]
  by_cases leftSmall : left.toNat < 0x10000 <;> by_cases rightSmall : right.toNat < 0x10000
  · rw [charUnits_small leftSmall, charUnits_small rightSmall, List.singleton_append,
      List.singleton_append, lex_cons_of_ne codes, decide_eq_decide]
    omega
  · have heads : left.toNat ≠ 0xD800 + (right.toNat - 0x10000) / 0x400 := by omega
    rw [charUnits_small leftSmall, charUnits_large rightSmall, List.singleton_append,
      List.cons_append, lex_cons_of_ne heads, decide_eq_decide]
    omega
  · have heads : 0xD800 + (left.toNat - 0x10000) / 0x400 ≠ right.toNat := by omega
    rw [charUnits_large leftSmall, charUnits_small rightSmall, List.singleton_append,
      List.cons_append, lex_cons_of_ne heads, decide_eq_decide]
    omega
  · rw [charUnits_large leftSmall, charUnits_large rightSmall]
    simp only [List.cons_append, List.nil_append]
    by_cases heads : 0xD800 + (left.toNat - 0x10000) / 0x400 =
        0xD800 + (right.toNat - 0x10000) / 0x400
    · have seconds : 0xDC00 + (left.toNat - 0x10000) % 0x400 ≠
          0xDC00 + (right.toNat - 0x10000) % 0x400 := by omega
      have cancel := lex_append_left [0xD800 + (right.toNat - 0x10000) / 0x400]
        ((0xDC00 + (left.toNat - 0x10000) % 0x400) :: rest)
        ((0xDC00 + (right.toNat - 0x10000) % 0x400) :: others)
      simp only [List.cons_append, List.nil_append] at cancel
      rw [heads, cancel, lex_cons_of_ne seconds, decide_eq_decide]
      omega
    · rw [lex_cons_of_ne heads, decide_eq_decide]
      omega

theorem lex_eq_lex_iff (left right : List Char) :
    (left.flatMap charUnits).lex (right.flatMap charUnits) =
        (left.map Char.toNat).lex (right.map Char.toNat) ↔
      ordersDiffer left right = false := by
  induction left generalizing right with
  | nil =>
      cases right with
      | nil => simp [ordersDiffer]
      | cons head rest =>
          have units := charUnits_ne_nil head
          cases split : charUnits head with
          | nil => exact absurd split units
          | cons unit more => simp [ordersDiffer, split]
  | cons head rest induction =>
      cases right with
      | nil => simp [ordersDiffer]
      | cons other others =>
          by_cases equal : head = other
          · subst equal
            rw [List.flatMap_cons, List.flatMap_cons, lex_append_left, List.map_cons,
              List.map_cons, List.cons_lex_cons, ordersDiffer, if_pos rfl, ← induction others]
            simp
          · have codes : head.toNat ≠ other.toNat := fun same => equal (Char.toNat_inj.mp same)
            rw [List.flatMap_cons, List.flatMap_cons, List.map_cons, List.map_cons,
              lex_cons_of_ne codes, ordersDiffer, if_neg equal]
            exact lex_charUnits equal _ _

end Ebb
