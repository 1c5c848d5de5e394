import Ebb.Foundation.Decimal
import Ebb.Foundation.Term

namespace Ebb.Msgpack

/-! The wire codec of `packages/core/src/msgpack`: timestamps travel as integers, found by
the shape of a value anywhere in a tree. -/

/-! ## Conversion -/

def maxSafeInteger : Int := 9007199254740991

/-- `parse` on a string of digits. -/
def parse (hlc : String) : Nat := Nat.ofDigitChars 10 hlc.toList 0

def format (hlc : Nat) : String := hlc.repr

/-- `/^\d+$/`; a digit is one code unit. -/
def allDigits (text : String) : Bool := text.toList != [] && text.toList.all Char.isDigit

def hlcToInteger (hlc : String) : Term :=
  if (parse hlc : Int) > maxSafeInteger then .string hlc else .integer (parse hlc)

/-- The key whose assignment sets the prototype of an object instead of an entry. -/
def protoKey : String := "__proto__"

mutual
def convertHlcToInteger : Term → Term
  | .string text =>
      if allDigits text && decide (10 < text.length) then hlcToInteger text else .string text
  | .list items => .list (convertItems items)
  | .map entries => .map (convertEntries entries)
  | .null => .null
  | .bool value => .bool value
  | .integer value => .integer value
  | .float bits => .float bits

def convertItems : List Term → List Term
  | [] => []
  | item :: rest => convertHlcToInteger item :: convertItems rest

def convertEntries : List (String × Term) → List (String × Term)
  | [] => []
  | (key, value) :: rest =>
      if key = protoKey then convertEntries rest
      else (key, convertHlcToInteger value) :: convertEntries rest
end

mutual
def convertIntegerToHlc : Term → Term
  | .integer value =>
      if value > 0 then
        if value > 1000000000000 then .string (format value.toNat) else .integer value
      else .integer value
  | .string text => .string text
  | .list items => .list (restoreItems items)
  | .map entries => .map (restoreEntries entries)
  | .null => .null
  | .bool value => .bool value
  | .float bits => .float bits

def restoreItems : List Term → List Term
  | [] => []
  | item :: rest => convertIntegerToHlc item :: restoreItems rest

def restoreEntries : List (String × Term) → List (String × Term)
  | [] => []
  | (key, value) :: rest =>
      if key = protoKey then restoreEntries rest
      else (key, convertIntegerToHlc value) :: restoreEntries rest
end

/-- The `@msgpack/msgpack` library over some type of byte arrays; decoding may throw. -/
structure Library (B : Type) where
  encode : Term → B
  decode : B → Option Term

section Codec

variable {B : Type} (library : Library B)

def encodeSync (value : Term) : B := library.encode (convertHlcToInteger value)

def decodeSync (data : B) : Option Term := (library.decode data).map convertIntegerToHlc

end Codec

/-! ## Value trees -/

mutual
/-- A tree of nulls, booleans, safe integers, strings, arrays and objects. -/
def Plain : Term → Prop
  | .integer value => -maxSafeInteger ≤ value ∧ value ≤ maxSafeInteger
  | .float _ => False
  | .list items => PlainItems items
  | .map entries => PlainEntries entries
  | .null => True
  | .bool _ => True
  | .string _ => True

def PlainItems : List Term → Prop
  | [] => True
  | item :: rest => Plain item ∧ PlainItems rest

def PlainEntries : List (String × Term) → Prop
  | [] => True
  | (_, value) :: rest => Plain value ∧ PlainEntries rest
end

mutual
/-- No object of a tree has an entry of its own under the prototype key. -/
def Unprototyped : Term → Prop
  | .list items => UnprototypedItems items
  | .map entries => UnprototypedEntries entries
  | .null => True
  | .bool _ => True
  | .integer _ => True
  | .float _ => True
  | .string _ => True

def UnprototypedItems : List Term → Prop
  | [] => True
  | item :: rest => Unprototyped item ∧ UnprototypedItems rest

def UnprototypedEntries : List (String × Term) → Prop
  | [] => True
  | (key, value) :: rest => key ≠ protoKey ∧ Unprototyped value ∧ UnprototypedEntries rest
end

/-- The library gives back every plain tree; it refuses the prototype key. -/
def Library.RoundTrips {B : Type} (library : Library B) : Prop :=
  ∀ value, Plain value → Unprototyped value →
    library.decode (library.encode value) = some value

/-- A string survives as a string, or its number is written back as the same numeral. -/
def Restored (text : String) : Prop :=
  (allDigits text && decide (10 < text.length)) = true → (parse text : Int) ≤ maxSafeInteger →
    1000000000000 < parse text ∧ text.toList.head? ≠ some '0'

instance (text : String) : Decidable (Restored text) := by
  unfold Restored
  infer_instance

mutual
/-- The strings and integers of a tree are those the codec gives back. -/
def Survives : Term → Prop
  | .integer value => value ≤ 1000000000000
  | .string text => Restored text
  | .list items => SurvivesItems items
  | .map entries => SurvivesEntries entries
  | .null => True
  | .bool _ => True
  | .float _ => True

def SurvivesItems : List Term → Prop
  | [] => True
  | item :: rest => Survives item ∧ SurvivesItems rest

def SurvivesEntries : List (String × Term) → Prop
  | [] => True
  | (key, value) :: rest => key ≠ protoKey ∧ Survives value ∧ SurvivesEntries rest
end

/-! ## What is handed to the library -/

theorem plain_hlcToInteger (hlc : String) :
    Plain (hlcToInteger hlc) ∧ Unprototyped (hlcToInteger hlc) := by
  rw [hlcToInteger]
  split
  · exact ⟨trivial, trivial⟩
  · next small =>
      have lower : (0 : Int) ≤ parse hlc := Int.natCast_nonneg _
      refine ⟨⟨?_, Int.not_lt.mp small⟩, trivial⟩
      exact Int.le_trans (by decide) lower

mutual
theorem plain_convert : (value : Term) → Plain value →
    Plain (convertHlcToInteger value) ∧ Unprototyped (convertHlcToInteger value)
  | .string text, _ => by
      rw [convertHlcToInteger]
      split
      · exact plain_hlcToInteger text
      · exact ⟨trivial, trivial⟩
  | .list items, plain => plain_convertItems items plain
  | .map entries, plain => plain_convertEntries entries plain
  | .null, _ => ⟨trivial, trivial⟩
  | .bool _, _ => ⟨trivial, trivial⟩
  | .integer _, plain => ⟨plain, trivial⟩
  | .float _, plain => plain.elim

theorem plain_convertItems : (items : List Term) → PlainItems items →
    PlainItems (convertItems items) ∧ UnprototypedItems (convertItems items)
  | [], _ => ⟨trivial, trivial⟩
  | item :: rest, plain => by
      have head := plain_convert item plain.1
      have tail := plain_convertItems rest plain.2
      exact ⟨⟨head.1, tail.1⟩, head.2, tail.2⟩

theorem plain_convertEntries : (entries : List (String × Term)) → PlainEntries entries →
    PlainEntries (convertEntries entries) ∧ UnprototypedEntries (convertEntries entries)
  | [], _ => ⟨trivial, trivial⟩
  | (key, value) :: rest, plain => by
      have head := plain_convert value plain.1
      have tail := plain_convertEntries rest plain.2
      rw [convertEntries]
      split
      · exact tail
      · next ordinary => exact ⟨⟨head.1, tail.1⟩, ordinary, head.2, tail.2⟩
end

/-! ## What comes back -/

theorem convert_string (text : String) :
    convertIntegerToHlc (convertHlcToInteger (.string text)) = .string text ↔ Restored text := by
  rw [convertHlcToInteger, Restored]
  split
  · next numeral =>
      have digits : ∀ char ∈ text.toList, char.isDigit = true := by
        have parts := Bool.and_eq_true_iff.mp (Bool.and_eq_true_iff.mp numeral).1
        exact List.all_eq_true.mp parts.2
      rw [hlcToInteger]
      split
      · next beyond =>
          constructor
          · intro _ _ within
            exact absurd beyond (Int.not_lt.mpr within)
          · intro _
            rfl
      · next within =>
          rw [convertIntegerToHlc]
          constructor
          · intro restored _ _
            split at restored
            · split at restored
              · next positive large =>
                  have same : format (parse text) = text := by
                    have written := Term.string.inj restored
                    rwa [Int.toNat_natCast] at written
                  refine ⟨by omega, ?_⟩
                  rw [← same, format, Nat.toList_repr]
                  exact Decimal.head?_toDigits (by omega)
              · cases restored
            · cases restored
          · intro restored
            rcases restored numeral (Int.not_lt.mp within) with ⟨large, noZero⟩
            have positive : (parse text : Int) > 0 := by omega
            have beyond : (parse text : Int) > 1000000000000 := by omega
            rw [if_pos positive, if_pos beyond, Int.toNat_natCast, format, parse]
            congr 1
            apply String.toList_inj.mp
            rw [Nat.toList_repr]
            cases read : text.toList with
            | nil =>
                rw [parse, read, Nat.ofDigitChars_nil] at large
                omega
            | cons char rest =>
                rw [read] at digits noZero
                exact Decimal.toDigits_ofDigitChars digits fun zero => noZero (zero ▸ rfl)
  · next other =>
      constructor
      · intro _ numeral
        exact absurd numeral other
      · intro _
        rfl

theorem mem_convertEntries {key : String} : (entries : List (String × Term)) →
    key ∈ (restoreEntries entries).map Prod.fst → key ≠ protoKey
  | [], member => nomatch member
  | (other, value) :: rest, member => by
      rw [restoreEntries] at member
      split at member
      · exact mem_convertEntries rest member
      · next ordinary =>
          rcases List.mem_cons.mp member with rfl | later
          · exact ordinary
          · exact mem_convertEntries rest later

mutual
theorem convert_iff : (value : Term) → Plain value →
    (convertIntegerToHlc (convertHlcToInteger value) = value ↔ Survives value)
  | .string text, _ => convert_string text
  | .list items, plain => by
      rw [convertHlcToInteger, convertIntegerToHlc, Term.list.injEq, Survives]
      exact convertItems_iff items plain
  | .map entries, plain => by
      rw [convertHlcToInteger, convertIntegerToHlc, Term.map.injEq, Survives]
      exact convertEntries_iff entries plain
  | .null, _ => ⟨fun _ => trivial, fun _ => rfl⟩
  | .bool _, _ => ⟨fun _ => trivial, fun _ => rfl⟩
  | .integer value, _ => by
      rw [convertHlcToInteger, convertIntegerToHlc, Survives]
      split
      · split
        · next large =>
            constructor
            · exact nofun
            · intro small
              exact absurd large (Int.not_lt.mpr small)
        · next small => exact ⟨fun _ => Int.not_lt.mp small, fun _ => rfl⟩
      · next negative => exact ⟨fun _ => by omega, fun _ => rfl⟩
  | .float _, plain => plain.elim

theorem convertItems_iff : (items : List Term) → PlainItems items →
    (restoreItems (convertItems items) = items ↔ SurvivesItems items)
  | [], _ => ⟨fun _ => trivial, fun _ => rfl⟩
  | item :: rest, plain => by
      rw [convertItems, restoreItems, List.cons.injEq, convert_iff item plain.1,
        convertItems_iff rest plain.2]
      rfl

theorem convertEntries_iff : (entries : List (String × Term)) → PlainEntries entries →
    (restoreEntries (convertEntries entries) = entries ↔ SurvivesEntries entries)
  | [], _ => ⟨fun _ => trivial, fun _ => rfl⟩
  | (key, value) :: rest, plain => by
      by_cases prototype : key = protoKey
      · constructor
        · intro restored
          have kept : key ∈ (restoreEntries (convertEntries ((key, value) :: rest))).map Prod.fst := by
            rw [restored]
            exact List.mem_cons_self
          exact absurd prototype (mem_convertEntries _ kept)
        · intro survives
          exact absurd prototype survives.1
      · rw [convertEntries, if_neg prototype, restoreEntries, if_neg prototype, List.cons.injEq,
          Prod.mk.injEq, convert_iff value plain.1, convertEntries_iff rest plain.2, SurvivesEntries]
        simp [prototype]
end

/-- Over a library that gives back the trees it is handed, the codec gives back a tree
exactly when its strings and integers survive and no object uses the prototype key. -/
theorem decodeSync_encodeSync_iff {B : Type} {library : Library B}
    (roundTrips : library.RoundTrips) {value : Term} (plain : Plain value) :
    decodeSync library (encodeSync library value) = some value ↔ Survives value := by
  have handed := plain_convert value plain
  rw [decodeSync, encodeSync, roundTrips _ handed.1 handed.2, Option.map_some, Option.some.injEq]
  exact convert_iff value plain

/-! ## One object -/

def stamped : Term := .map [("hlc", .integer 1234567890123)]

/-- `stamped` as the library writes it: a map of one entry, a string of three bytes and an
unsigned integer of eight. -/
def stampedBytes : List UInt8 :=
  [0x81, 0xa3, 0x68, 0x6c, 0x63, 0xcf, 0x00, 0x00, 0x01, 0x1f, 0x71, 0xfb, 0x04, 0xcb]

/-- A library with the bytes of one object; other trees stand for their bytes. -/
def stampLibrary : Library (List UInt8 ⊕ Term) where
  encode value := if value = stamped then .inl stampedBytes else .inr value
  decode
    | .inl bytes => if bytes = stampedBytes then some stamped else none
    | .inr value => some value

theorem stampLibrary_roundTrips : stampLibrary.RoundTrips := by
  intro value _ _
  change stampLibrary.decode (if value = stamped then .inl stampedBytes else .inr value) = some value
  split
  · next same =>
      rw [same]
      rfl
  · rfl

theorem decodeSync_encodeSync_stamp :
    encodeSync stampLibrary (.map [("hlc", .string "1234567890123")]) = .inl stampedBytes ∧
      decodeSync stampLibrary
        (encodeSync stampLibrary (.map [("hlc", .string "1234567890123")])) =
          some (.map [("hlc", .string "1234567890123")]) := by
  have plain : Plain (.map [("hlc", .string "1234567890123")]) := ⟨trivial, trivial⟩
  have restored : Restored "1234567890123" := by decide
  have survives : Survives (.map [("hlc", .string "1234567890123")]) :=
    ⟨by decide, restored, trivial⟩
  exact ⟨by decide, (decodeSync_encodeSync_iff stampLibrary_roundTrips plain).mpr survives⟩

/-- A padded numeral and one of eleven digits come back as numbers, an integer beyond 10^12
as a string. -/
theorem decodeSync_encodeSync_changes :
    stampLibrary.RoundTrips ∧ Plain (.list [.string "00000000001", .string "10000000001",
        .integer 1000000000001]) ∧
      decodeSync stampLibrary (encodeSync stampLibrary (.list [.string "00000000001",
          .string "10000000001", .integer 1000000000001])) =
        some (.list [.integer 1, .integer 10000000001, .string "1000000000001"]) := by
  have plain : Plain (.list [.string "00000000001", .string "10000000001",
      .integer 1000000000001]) := ⟨trivial, trivial, ⟨by decide, by decide⟩, trivial⟩
  exact ⟨stampLibrary_roundTrips, plain, by decide⟩

end Ebb.Msgpack
