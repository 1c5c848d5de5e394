import Ebb.Foundation.OrderedMap
import Mathlib.Data.List.Basic

namespace Ebb

/-! Lists of writes, each to one key: the last value written, and dropping a write
that repeats the last one to its key. -/

section LastSome

variable {μ : Type v} {β : Type w}

/-- The value of the last write that `value` reads. -/
def lastSome (value : μ → Option β) : List μ → Option β
  | [] => none
  | write :: rest => (lastSome value rest).or (value write)

theorem lastSome_append (value : μ → Option β) (first second : List μ) :
    lastSome value (first ++ second) = (lastSome value second).or (lastSome value first) := by
  induction first with
  | nil => simp [lastSome]
  | cons write rest induction =>
      rw [List.cons_append, lastSome, induction, lastSome, Option.or_assoc]

theorem lastSome_concat (value : μ → Option β) (writes : List μ) (write : μ) :
    lastSome value (writes ++ [write]) = (value write).or (lastSome value writes) := by
  rw [lastSome_append]
  rfl

theorem exists_of_lastSome {value : μ → Option β} {writes : List μ} {result : β}
    (found : lastSome value writes = some result) :
    ∃ write ∈ writes, value write = some result := by
  induction writes with
  | nil => cases found
  | cons head rest induction =>
      rw [lastSome, Option.or_eq_some_iff] at found
      rcases found with later | now
      · rcases induction later with ⟨write, member, holds⟩
        exact ⟨write, List.mem_cons_of_mem head member, holds⟩
      · exact ⟨head, List.mem_cons_self, now.2⟩

theorem lastSome_eq_none {value : μ → Option β} {writes : List μ} :
    lastSome value writes = none ↔ ∀ write ∈ writes, value write = none := by
  induction writes with
  | nil => simp [lastSome]
  | cons head rest induction => simp [lastSome, induction, and_comm]

end LastSome

section DropRepeats

variable {κ : Type u} {μ : Type v} {β : Type w} [DecidableEq κ] [DecidableEq μ] {key : μ → κ}

def dropRepeats (key : μ → κ) : (last : κ → Option μ) → List μ → List μ
  | _, [] => []
  | last, write :: rest =>
      if last (key write) = some write then dropRepeats key last rest
      else write ::
        dropRepeats key (fun other => if other = key write then some write else last other) rest

theorem lastSome_dropRepeats {value : μ → Option β} {target : κ}
    (one : ∀ write result, value write = some result → key write = target)
    {last : κ → Option μ} {before : Option β}
    (kept : ∀ write result, last target = some write → value write = some result →
      before = some result) (writes : List μ) :
    (lastSome value (dropRepeats key last writes)).or before =
      (lastSome value writes).or before := by
  induction writes generalizing last before with
  | nil => rfl
  | cons write rest induction =>
      rw [dropRepeats]
      split
      · next repeated =>
          rw [induction kept, lastSome, Option.or_assoc]
          cases found : value write with
          | none => rfl
          | some result =>
              rw [kept write result (one write result found ▸ repeated) found]
              rfl
      · rw [lastSome, lastSome, Option.or_assoc, Option.or_assoc]
        apply induction
        intro other result isLast found
        split at isLast
        · cases isLast
          rw [found]
          rfl
        · next different =>
            have unread : value write = none := by
              cases read : value write with
              | none => rfl
              | some _ => exact absurd (one write _ read).symm different
            rw [unread]
            exact kept other result isLast found

theorem dropRepeats_concat (key : μ → κ) (last : κ → Option μ) (writes : List μ) (write : μ) :
    dropRepeats key last (writes ++ [write]) = dropRepeats key last writes ∨
      dropRepeats key last (writes ++ [write]) = dropRepeats key last writes ++ [write] := by
  induction writes generalizing last with
  | nil =>
      by_cases repeated : last (key write) = some write
      · exact .inl (if_pos repeated)
      · exact .inr (if_neg repeated)
  | cons head rest induction =>
      rw [List.cons_append, dropRepeats, dropRepeats]
      split
      · exact induction last
      · exact (induction _).imp (congrArg (head :: ·)) (congrArg (head :: ·))

theorem mem_of_mem_dropRepeats {last : κ → Option μ} {writes : List μ} {write : μ}
    (member : write ∈ dropRepeats key last writes) : write ∈ writes := by
  induction writes generalizing last with
  | nil => exact member
  | cons head rest induction =>
      rw [dropRepeats] at member
      split at member
      · exact List.mem_cons_of_mem head (induction member)
      · rcases List.mem_cons.mp member with equal | member
        · exact equal ▸ List.mem_cons_self
        · exact List.mem_cons_of_mem head (induction member)

end DropRepeats

/-! ## One write and the writes after it -/

/-- Some write of the list has the property together with the writes after it. -/
def anyTail (holds : μ → List μ → Bool) : List μ → Bool
  | [] => false
  | write :: rest => holds write rest || anyTail holds rest

theorem anyTail_iff {holds : μ → List μ → Bool} {writes : List μ} :
    anyTail holds writes = true ↔
      ∃ before write after, writes = before ++ write :: after ∧ holds write after = true := by
  induction writes with
  | nil =>
      constructor
      · exact nofun
      · intro found
        rcases found with ⟨before, write, after, split, _⟩
        cases before with
        | _ => cases split
  | cons head rest induction =>
      rw [anyTail, Bool.or_eq_true, induction]
      constructor
      · intro either
        rcases either with here | ⟨before, write, after, split, later⟩
        · exact ⟨[], head, rest, rfl, here⟩
        · exact ⟨head :: before, write, after, by rw [split, List.cons_append], later⟩
      · intro found
        rcases found with ⟨before, write, after, split, holdsHere⟩
        cases before with
        | nil =>
            cases split
            exact .inl holdsHere
        | cons other before =>
            cases split
            exact .inr ⟨before, write, after, rfl, holdsHere⟩

/-! ## Batches of writes to a dictionary -/

namespace OrderedMap

variable {α : Type u} {β : Type v} {γ : Type w} [DecidableEq α]

theorem get?_foldl_set (keyOf : γ → α) (valueOf : γ → β) (writes : List γ)
    (map : OrderedMap α β) (key : α) :
    (writes.foldl (fun map write => map.set (keyOf write) (valueOf write)) map).get? key =
      (lastSome (fun write => if keyOf write = key then some (valueOf write) else none)
        writes).or (map.get? key) := by
  induction writes generalizing map with
  | nil => rfl
  | cons write rest induction =>
      rw [List.foldl_cons, induction, lastSome, Option.or_assoc, get?_set]
      by_cases same : keyOf write = key
      · simp [same]
      · have different : key ≠ keyOf write := fun equal => same equal.symm
        simp [same, different]

theorem mem_foldl_collect {join : β → List β → List β}
    (mem_join : ∀ value values other, other ∈ join value values ↔
      other = value ∨ other ∈ values)
    (keyOf : γ → α) (valueOf : γ → β) (writes : List γ) (map : OrderedMap α (List β)) (key : α)
    (value : β) :
    value ∈ ((writes.foldl (fun map write => map.set (keyOf write)
        (join (valueOf write) ((map.get? (keyOf write)).getD []))) map).get? key).getD [] ↔
      (∃ write ∈ writes, keyOf write = key ∧ valueOf write = value) ∨
        value ∈ (map.get? key).getD [] := by
  induction writes generalizing map with
  | nil => simp
  | cons write rest induction =>
      rw [List.foldl_cons, induction, get?_set]
      by_cases same : key = keyOf write
      · subst same
        simp [mem_join, eq_comm, or_left_comm, or_assoc]
      · have different : keyOf write ≠ key := fun equal => same equal.symm
        simp [same, different]

end OrderedMap

end Ebb
