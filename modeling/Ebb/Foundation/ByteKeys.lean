import Mathlib.Data.List.Basic
import Mathlib.Data.Nat.ModEq
import Mathlib.Tactic.Ring

namespace Ebb

/-! Keys of an ordered store: byte strings in lexicographic order, and numbers of a
fixed width in them. -/

/-! ## The order of byte strings -/

def byteValues (key : List UInt8) : List Nat := key.map UInt8.toNat

def before (left right : List UInt8) : Bool := (byteValues left).lex (byteValues right)

variable {left right : List UInt8} (width : Nat) (bytes : List UInt8)

theorem byteValues_injective (equal : byteValues left = byteValues right) : left = right :=
  (List.map_injective_iff.mpr fun _ _ same => UInt8.toNat_inj.mp same) equal

theorem before_iff : before left right = true ↔ List.lt (byteValues left) (byteValues right) := by
  rw [before, List.lex_eq_true_iff_lt]
  rfl

theorem before_eq_false_iff :
    before left right = false ↔ List.le (byteValues right) (byteValues left) := by
  rw [before, List.lex_eq_false_iff_ge]
  rfl

theorem before_irrefl (key : List UInt8) : before key key = false :=
  before_eq_false_iff.mpr (List.le_refl _)

theorem before_trans {first second third : List UInt8} (earlier : before first second = true)
    (later : before second third = true) : before first third = true :=
  before_iff.mpr (List.lt_trans (before_iff.mp earlier) (before_iff.mp later))

theorem eq_of_not_before (forward : before left right = false)
    (backward : before right left = false) : left = right :=
  byteValues_injective (List.le_antisymm (before_eq_false_iff.mp backward)
    (before_eq_false_iff.mp forward))

theorem before_append (same left right : List UInt8) :
    before (same ++ left) (same ++ right) = before left right := by
  induction same with
  | nil => rfl
  | cons byte rest induction =>
      rw [← induction]
      simp [before, byteValues, List.cons_lex_cons]

theorem before_cons_of_ne {left right : UInt8} (different : left ≠ right)
    (rest others : List UInt8) :
    before (left :: rest) (right :: others) = decide (left.toNat < right.toNat) := by
  have values : left.toNat ≠ right.toNat := fun equal => different (UInt8.toNat_inj.mp equal)
  simp [before, byteValues, List.cons_lex_cons, values]

theorem before_cons_self (byte : UInt8) (rest others : List UInt8) :
    before (byte :: rest) (byte :: others) = before rest others :=
  before_append [byte] rest others

/-! ## Numbers of a fixed width -/

/-- `n` as an unsigned big-endian integer; what does not fit is cut off. -/
def bigEndian : Nat → Nat → List UInt8
  | 0, _ => []
  | width + 1, n => UInt8.ofNat (n / 256 ^ width) :: bigEndian width n

def fromBigEndian (bytes : List UInt8) : Nat :=
  bytes.foldl (fun n byte => n * 256 + byte.toNat) 0

theorem length_bigEndian (n : Nat) : (bigEndian width n).length = width := by
  induction width with
  | zero => rfl
  | succ width induction => rw [bigEndian, List.length_cons, induction]

theorem foldl_bigEndian (n start : Nat) :
    (bigEndian width n).foldl (fun n byte => n * 256 + byte.toNat) start =
      start * 256 ^ width + n % 256 ^ width := by
  induction width generalizing start with
  | zero => simp [bigEndian, Nat.mod_one]
  | succ width induction =>
      have byte : (UInt8.ofNat (n / 256 ^ width)).toNat = n / 256 ^ width % 256 :=
        UInt8.toNat_ofNat'
      rw [bigEndian, List.foldl_cons, induction, byte, Nat.mod_pow_succ, Nat.pow_succ]
      ring

theorem fromBigEndian_bigEndian (n : Nat) :
    fromBigEndian (bigEndian width n) = n % 256 ^ width := by
  rw [fromBigEndian, foldl_bigEndian, Nat.zero_mul, Nat.zero_add]

theorem bigEndian_mod (n : Nat) : bigEndian width (n % 256 ^ width) = bigEndian width n := by
  have general : ∀ small n, small ≤ width →
      bigEndian small (n % 256 ^ width) = bigEndian small n := by
    intro small n fits
    induction small with
    | zero => rfl
    | succ small induction =>
        rw [bigEndian, bigEndian, induction (by omega)]
        congr 1
        apply UInt8.toNat_inj.mp
        rw [UInt8.toNat_ofNat', UInt8.toNat_ofNat']
        have split : 256 ^ width = 256 ^ small * 256 ^ (width - small) := by
          rw [← Nat.pow_add]
          congr 1
          omega
        have divides : 256 ∣ 256 ^ (width - small) := dvd_pow_self 256 (by omega)
        rw [split, Nat.mod_mul_right_div_self, Nat.mod_mod_of_dvd _ divides]
  exact general width n (Nat.le_refl _)

theorem foldl_bytes (start : Nat) :
    bytes.foldl (fun n byte => n * 256 + byte.toNat) start =
      start * 256 ^ bytes.length + fromBigEndian bytes := by
  induction bytes generalizing start with
  | nil => simp [fromBigEndian]
  | cons byte rest induction =>
      rw [fromBigEndian, List.foldl_cons, List.foldl_cons, induction, induction, List.length_cons,
        Nat.pow_succ]
      ring

theorem fromBigEndian_cons (byte : UInt8) (rest : List UInt8) :
    fromBigEndian (byte :: rest) = byte.toNat * 256 ^ rest.length + fromBigEndian rest := by
  rw [fromBigEndian, List.foldl_cons, foldl_bytes, Nat.zero_mul, Nat.zero_add]

theorem fromBigEndian_lt : fromBigEndian bytes < 256 ^ bytes.length := by
  induction bytes with
  | nil => simp [fromBigEndian]
  | cons byte rest induction =>
      have bound : byte.toNat < 256 := byte.toNat_lt
      have scaled : byte.toNat * 256 ^ rest.length ≤ 255 * 256 ^ rest.length :=
        Nat.mul_le_mul_right _ (by omega)
      rw [fromBigEndian_cons, List.length_cons, Nat.pow_succ]
      omega

theorem bigEndian_fromBigEndian : bigEndian bytes.length (fromBigEndian bytes) = bytes := by
  induction bytes with
  | nil => rfl
  | cons byte rest induction =>
      have small := fromBigEndian_lt rest
      have positive : 0 < 256 ^ rest.length := Nat.pow_pos (by omega)
      have quotient : (byte.toNat * 256 ^ rest.length + fromBigEndian rest) / 256 ^ rest.length =
          byte.toNat := by
        rw [Nat.mul_comm, Nat.mul_add_div positive, Nat.div_eq_of_lt small, Nat.add_zero]
      have remainder : (byte.toNat * 256 ^ rest.length + fromBigEndian rest) % 256 ^ rest.length =
          fromBigEndian rest := by
        rw [Nat.mul_comm, Nat.mul_add_mod, Nat.mod_eq_of_lt small]
      rw [List.length_cons, bigEndian, fromBigEndian_cons, quotient, ← bigEndian_mod, remainder,
        induction, UInt8.ofNat_toNat]

theorem before_bigEndian {width left right : Nat} (leftFits : left < 256 ^ width)
    (rightFits : right < 256 ^ width) :
    before (bigEndian width left) (bigEndian width right) = decide (left < right) := by
  induction width generalizing left right with
  | zero =>
      have zeros : left = 0 ∧ right = 0 := by
        rw [Nat.pow_zero] at leftFits rightFits
        omega
      rw [zeros.1, zeros.2]
      rfl
  | succ width induction =>
      have positive : 0 < 256 ^ width := Nat.pow_pos (by omega)
      have leftHigh : left / 256 ^ width < 256 := by
        apply Nat.div_lt_of_lt_mul
        rwa [Nat.pow_succ] at leftFits
      have rightHigh : right / 256 ^ width < 256 := by
        apply Nat.div_lt_of_lt_mul
        rwa [Nat.pow_succ] at rightFits
      have leftParts := Nat.div_add_mod left (256 ^ width)
      have rightParts := Nat.div_add_mod right (256 ^ width)
      have leftLow := Nat.mod_lt left positive
      have rightLow := Nat.mod_lt right positive
      have leftByte : (UInt8.ofNat (left / 256 ^ width)).toNat = left / 256 ^ width :=
        UInt8.toNat_ofNat_of_lt' leftHigh
      have rightByte : (UInt8.ofNat (right / 256 ^ width)).toNat = right / 256 ^ width :=
        UInt8.toNat_ofNat_of_lt' rightHigh
      rw [bigEndian, bigEndian]
      by_cases same : left / 256 ^ width = right / 256 ^ width
      · rw [same, before_cons_self, ← bigEndian_mod, ← bigEndian_mod width right,
          induction leftLow rightLow, decide_eq_decide]
        rw [same] at leftParts
        omega
      · have different : UInt8.ofNat (left / 256 ^ width) ≠ UInt8.ofNat (right / 256 ^ width) := by
          intro equal
          rw [← UInt8.toNat_inj, leftByte, rightByte] at equal
          exact same equal
        rw [before_cons_of_ne different, leftByte, rightByte, decide_eq_decide]
        constructor
        · intro smaller
          exact Nat.lt_of_div_lt_div smaller
        · intro smaller
          have below := Nat.div_le_div_right smaller.le (c := 256 ^ width)
          omega

/-! ## Scans in order -/

theorem takeWhile_eq_filter {wanted : α → Bool} {items : List α}
    (first : items.Pairwise fun earlier later => wanted later = true → wanted earlier = true) :
    items.takeWhile wanted = items.filter wanted := by
  induction items with
  | nil => rfl
  | cons head rest induction =>
      have parts := List.pairwise_cons.mp first
      cases holds : wanted head with
      | true =>
          rw [List.takeWhile_cons_of_pos holds, List.filter_cons_of_pos holds, induction parts.2]
      | false =>
          have none : rest.filter wanted = [] := by
            rw [List.filter_eq_nil_iff]
            intro item member wantedItem
            rw [parts.1 item member wantedItem] at holds
            cases holds
          rw [List.takeWhile_cons_of_neg (by simp [holds]),
            List.filter_cons_of_neg (by simp [holds]), none]

theorem filter_gt_getLast_take {numbers : List Nat} {size last : Nat}
    (ascending : numbers.Pairwise fun earlier later => earlier < later)
    (last_eq : (numbers.take size).getLast? = some last) :
    numbers.filter (fun number => decide (last < number)) = numbers.drop size := by
  have inTake : last ∈ numbers.take size := List.mem_of_getLast? last_eq
  have split := List.take_append_drop size numbers
  rw [← split, List.pairwise_append] at ascending
  have below : ∀ number ∈ numbers.take size, ¬ last < number := by
    intro number member
    rcases List.getLast?_eq_some_iff.mp last_eq with ⟨init, isLast⟩
    rw [isLast] at member
    have sorted := ascending.1
    rw [isLast, List.pairwise_append] at sorted
    rcases List.mem_append.mp member with earlier | equal
    · exact Nat.lt_asymm (sorted.2.2 number earlier last List.mem_cons_self)
    · rw [List.mem_singleton.mp equal]
      exact Nat.lt_irrefl last
  have none : (numbers.take size).filter (fun number => decide (last < number)) = [] := by
    rw [List.filter_eq_nil_iff]
    intro number member
    simp [below number member]
  have all : (numbers.drop size).filter (fun number => decide (last < number)) =
      numbers.drop size := by
    rw [List.filter_eq_self]
    intro number member
    simp [ascending.2.2 last inTake number member]
  conv_lhs => rw [← split]
  rw [List.filter_append, none, all, List.nil_append]

end Ebb
