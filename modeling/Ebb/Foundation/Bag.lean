import Mathlib.Data.List.Nodup

namespace Ebb

/-! Bags of keyed objects: several objects may share a key, and no object is
there twice. Objects are kept in the order they came in. -/

theorem nodup_eraseDups [DecidableEq α] (items : List α) : items.eraseDups.Nodup := by
  induction size : items.length using Nat.strongRecOn generalizing items with
  | ind bound induction =>
      cases items with
      | nil => exact List.nodup_nil
      | cons head rest =>
          rw [List.eraseDups_cons, List.nodup_cons]
          constructor
          · rw [List.mem_eraseDups, List.mem_filter]
            intro both
            simp at both
          · apply induction _ _ _ rfl
            have shorter := List.length_filter_le (fun item => !item == head) rest
            rw [List.length_cons] at size
            omega

namespace Bag

variable {κ : Type u} {ρ : Type v} [DecidableEq κ] [DecidableEq ρ]

def insert (key : κ) (object : ρ) (bag : List (κ × ρ)) : List (κ × ρ) :=
  if (key, object) ∈ bag then bag else bag ++ [(key, object)]

def deleteObject (key : κ) (object : ρ) (bag : List (κ × ρ)) : List (κ × ρ) :=
  bag.filter fun entry => entry ≠ (key, object)

def lookup (key : κ) (bag : List (κ × ρ)) : List ρ :=
  (bag.filter fun entry => entry.1 = key).map Prod.snd

@[simp] theorem mem_insert (key : κ) (object : ρ) (bag : List (κ × ρ)) (entry : κ × ρ) :
    entry ∈ insert key object bag ↔ entry = (key, object) ∨ entry ∈ bag := by
  rw [insert]
  split
  · next present =>
      constructor
      · exact .inr
      · intro either
        rcases either with equal | member
        · exact equal ▸ present
        · exact member
  · simp [or_comm]

@[simp] theorem mem_deleteObject (key : κ) (object : ρ) (bag : List (κ × ρ)) (entry : κ × ρ) :
    entry ∈ deleteObject key object bag ↔ entry ∈ bag ∧ entry ≠ (key, object) := by
  simp [deleteObject]

omit [DecidableEq ρ] in
@[simp] theorem mem_lookup (key : κ) (bag : List (κ × ρ)) (object : ρ) :
    object ∈ lookup key bag ↔ (key, object) ∈ bag := by
  simp [lookup]

end Bag

end Ebb
