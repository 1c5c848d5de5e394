import Ebb.Foundation.ByteKeys

namespace Ebb

/-! Rows of an ordered store under byte keys, and the rows whose keys have a prefix. -/

abbrev Row := List UInt8 × List UInt8

abbrev InKeyOrder (rows : List Row) : Prop :=
  rows.Pairwise fun left right => before left.1 right.1 = true

/-! ## Writing -/

def putRow (key value : List UInt8) : List Row → List Row
  | [] => [(key, value)]
  | row :: rest =>
      if row.1 = key then (key, value) :: rest
      else if before key row.1 then (key, value) :: row :: rest
      else row :: putRow key value rest

variable {rows : List Row}

theorem mem_putRow {key value : List UInt8} (ordered : InKeyOrder rows) (row : Row) :
    row ∈ putRow key value rows ↔ row = (key, value) ∨ row ∈ rows ∧ row.1 ≠ key := by
  induction rows with
  | nil => simp [putRow]
  | cons head rest induction =>
      obtain ⟨first, others⟩ := List.pairwise_cons.mp ordered
      simp only [putRow]
      split
      · next same =>
          have apart : ∀ other ∈ rest, other.1 ≠ key := by
            intro other member equal
            have earlier := first other member
            rw [same, equal, before_irrefl] at earlier
            cases earlier
          simp only [List.mem_cons]
          constructor
          · rintro (rfl | member)
            · exact .inl rfl
            · exact .inr ⟨.inr member, apart row member⟩
          · rintro (rfl | ⟨rfl | member, different⟩)
            · exact .inl rfl
            · exact absurd same different
            · exact .inr member
      · next different =>
          split
          · next earlier =>
              have apart : ∀ other ∈ rest, other.1 ≠ key := by
                intro other member equal
                have later := before_trans earlier (first other member)
                rw [equal, before_irrefl] at later
                cases later
              simp only [List.mem_cons]
              constructor
              · rintro (rfl | rfl | member)
                · exact .inl rfl
                · exact .inr ⟨.inl rfl, different⟩
                · exact .inr ⟨.inr member, apart row member⟩
              · rintro (rfl | ⟨member, _⟩)
                · exact .inl rfl
                · exact .inr member
          · simp only [List.mem_cons, induction others]
            constructor
            · rintro (rfl | rfl | ⟨member, apart⟩)
              · exact .inr ⟨.inl rfl, different⟩
              · exact .inl rfl
              · exact .inr ⟨.inr member, apart⟩
            · rintro (rfl | ⟨rfl | member, apart⟩)
              · exact .inr (.inl rfl)
              · exact .inl rfl
              · exact .inr (.inr ⟨member, apart⟩)

theorem putRow_ordered (ordered : InKeyOrder rows) (key value : List UInt8) :
    InKeyOrder (putRow key value rows) := by
  induction rows with
  | nil => exact List.pairwise_singleton _ _
  | cons head rest induction =>
      obtain ⟨first, others⟩ := List.pairwise_cons.mp ordered
      simp only [putRow]
      split
      · next same => exact List.pairwise_cons.mpr ⟨same ▸ first, others⟩
      · next different =>
          split
          · next earlier =>
              refine List.pairwise_cons.mpr ⟨fun row member => ?_, ordered⟩
              cases member with
              | head => exact earlier
              | tail _ member => exact before_trans earlier (first row member)
          · next notEarlier =>
              refine List.pairwise_cons.mpr ⟨fun row member => ?_, induction others⟩
              cases (mem_putRow others row).mp member with
              | inl new =>
                  cases later : before head.1 key with
                  | true => rw [new, later]
                  | false =>
                      exact absurd (eq_of_not_before later (by simpa using notEarlier)) different
              | inr old => exact first row old.1

def putRows (writes rows : List Row) : List Row :=
  writes.foldl (fun rows write => putRow write.1 write.2 rows) rows

theorem putRows_ordered (writes : List Row) (ordered : InKeyOrder rows) :
    InKeyOrder (putRows writes rows) := by
  induction writes generalizing rows with
  | nil => exact ordered
  | cons write writes induction => exact induction (putRow_ordered ordered write.1 write.2)

theorem mem_putRows (writes : List Row) (ordered : InKeyOrder rows)
    (single : ∀ one ∈ rows ++ writes, ∀ other ∈ rows ++ writes, one.1 = other.1 → one = other)
    (row : Row) : row ∈ putRows writes rows ↔ row ∈ rows ++ writes := by
  induction writes generalizing rows with
  | nil => simp [putRows]
  | cons write writes induction =>
      have next : ∀ row, row ∈ putRow write.1 write.2 rows ↔ row ∈ rows ∨ row = write := by
        intro row
        rw [mem_putRow ordered]
        constructor
        · rintro (same | ⟨old, _⟩)
          · exact .inr same
          · exact .inl old
        · rintro (old | same)
          · by_cases equal : row.1 = write.1
            · exact .inl (single row (by simp [old]) write (by simp) equal)
            · exact .inr ⟨old, equal⟩
          · exact .inl same
      have members : ∀ row, row ∈ putRow write.1 write.2 rows ++ writes ↔
          row ∈ rows ++ write :: writes := by
        intro row
        simp only [List.mem_append, next, List.mem_cons, or_assoc]
      rw [← members]
      refine induction (putRow_ordered ordered _ _) fun one oneMember other otherMember => ?_
      exact single one ((members one).mp oneMember) other ((members other).mp otherMember)

/-! ## Prefixes -/

def prefixUpperBoundRev : List UInt8 → Option (List UInt8)
  | [] => none
  | last :: head =>
      if last < 0xFF then some (((last + 1) :: head).reverse) else prefixUpperBoundRev head

/-- The least key after every key with the prefix, found from the end of the prefix. -/
def prefixUpperBound (keyPrefix : List UInt8) : Option (List UInt8) :=
  prefixUpperBoundRev keyPrefix.reverse

example : prefixUpperBound [7, 0xFF] = some [8] := by decide

theorem prefixUpperBoundRev_append (head : List UInt8) (byte : UInt8) :
    prefixUpperBoundRev (head ++ [byte]) =
      match prefixUpperBoundRev head with
      | some upper => some (byte :: upper)
      | none => if byte < 0xFF then some [byte + 1] else none := by
  induction head with
  | nil => simp [prefixUpperBoundRev]
  | cons last head induction =>
      simp only [List.cons_append, prefixUpperBoundRev]
      split
      · simp
      · exact induction

theorem prefixUpperBound_cons (byte : UInt8) (rest : List UInt8) :
    prefixUpperBound (byte :: rest) =
      match prefixUpperBound rest with
      | some upper => some (byte :: upper)
      | none => if byte < 0xFF then some [byte + 1] else none := by
  rw [prefixUpperBound, List.reverse_cons, prefixUpperBoundRev_append]
  rfl

theorem before_prefixUpperBound_iff {keyPrefix key : List UInt8}
    (notBefore : before key keyPrefix = false) :
    (∀ upper, prefixUpperBound keyPrefix = some upper → before key upper = true) ↔
      keyPrefix <+: key := by
  induction keyPrefix generalizing key with
  | nil => simp [prefixUpperBound, prefixUpperBoundRev]
  | cons byte rest induction =>
      cases key with
      | nil => simp [before, byteValues] at notBefore
      | cons first key =>
          rw [prefixUpperBound_cons]
          by_cases same : first = byte
          · subst same
            rw [before_cons_self] at notBefore
            rw [List.prefix_cons_inj, ← induction notBefore]
            cases prefixUpperBound rest with
            | some upper => simp [before_cons_self]
            | none =>
                simp only [reduceCtorEq, false_implies, implies_true, iff_true]
                intro upper isUpper
                split at isUpper
                · next small =>
                    cases isUpper
                    have successor : first.toNat < (first + 1).toNat := by
                      rw [UInt8.toNat_add]
                      have := UInt8.lt_iff_toNat_lt.mp small
                      simp at this ⊢
                      omega
                    have different : first ≠ first + 1 := fun equal =>
                      absurd (congrArg UInt8.toNat equal) (by omega)
                    rw [before_cons_of_ne different, decide_eq_true successor]
                · cases isUpper
          · have later : byte.toNat < first.toNat := by
              rw [before_cons_of_ne same, decide_eq_false_iff_not] at notBefore
              have : first.toNat ≠ byte.toNat := fun equal => same (UInt8.toNat_inj.mp equal)
              omega
            have unrelated : ¬ byte :: rest <+: first :: key := by
              rw [List.cons_prefix_cons]
              exact fun both => same both.1.symm
            simp only [unrelated, iff_false]
            intro below
            cases upperRest : prefixUpperBound rest with
            | some upper =>
                have earlier := below (byte :: upper) (by simp [upperRest])
                rw [before_cons_of_ne same, decide_eq_true_eq] at earlier
                omega
            | none =>
                have small : byte < 0xFF := by
                  rw [UInt8.lt_iff_toNat_lt]
                  have := first.toNat_lt
                  simp
                  omega
                have earlier := below [byte + 1] (by simp [upperRest, small])
                have value : (byte + 1).toNat = byte.toNat + 1 := by
                  rw [UInt8.toNat_add]
                  have := UInt8.lt_iff_toNat_lt.mp small
                  simp at this ⊢
                  omega
                by_cases next : first = byte + 1
                · subst next
                  rw [before_cons_self] at earlier
                  cases key <;> simp [before, byteValues] at earlier
                · rw [before_cons_of_ne next, decide_eq_true_eq] at earlier
                  omega

theorem before_append_right {left right : List UInt8} (earlier : before left right = true)
    (more : List UInt8) : before left (right ++ more) = true := by
  induction left generalizing right with
  | nil =>
      cases right with
      | nil => simp [before, byteValues] at earlier
      | cons byte right => simp [before, byteValues]
  | cons first left induction =>
      cases right with
      | nil => simp [before, byteValues] at earlier
      | cons byte right =>
          by_cases same : first = byte
          · subst same
            rw [before_cons_self] at earlier
            rw [List.cons_append, before_cons_self]
            exact induction earlier
          · rw [before_cons_of_ne same] at earlier
            rw [List.cons_append, before_cons_of_ne same, earlier]

/-! ## Scans -/

/-- The rows from one key up to another, or to the end. -/
def rangeRows (rows : List Row) (fromKey : List UInt8) (toKey : Option (List UInt8)) : List Row :=
  rows.filter fun row => !before row.1 fromKey && toKey.all (before row.1)

theorem mem_rangeRows_prefix {keyPrefix suffix : List UInt8} {row : Row} :
    row ∈ rangeRows rows (keyPrefix ++ suffix) (prefixUpperBound keyPrefix) ↔
      row ∈ rows ∧ ∃ rest, row.1 = keyPrefix ++ rest ∧ before rest suffix = false := by
  simp only [rangeRows, List.mem_filter, Bool.and_eq_true, Bool.not_eq_true', Option.all_eq_true]
  refine and_congr_right fun _ => ?_
  constructor
  · rintro ⟨notBefore, below⟩
    have notEarlier : before row.1 keyPrefix = false := by
      cases earlier : before row.1 keyPrefix with
      | false => rfl
      | true =>
          rw [before_append_right earlier] at notBefore
          cases notBefore
    obtain ⟨rest, split⟩ := (before_prefixUpperBound_iff notEarlier).mp below
    rw [← split, before_append] at notBefore
    exact ⟨rest, split.symm, notBefore⟩
  · rintro ⟨rest, split, notBefore⟩
    rw [split, before_append]
    refine ⟨notBefore, ?_⟩
    have notEarlier : before (keyPrefix ++ rest) keyPrefix = false := by
      cases earlier : before (keyPrefix ++ rest) keyPrefix with
      | false => rfl
      | true =>
          have loop := before_append_right earlier rest
          rw [before_irrefl] at loop
          cases loop
    exact (before_prefixUpperBound_iff notEarlier).mpr (List.prefix_append _ _)

end Ebb
