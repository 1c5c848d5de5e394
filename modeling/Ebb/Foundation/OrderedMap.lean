import Mathlib.Data.List.Nodup
import Mathlib.Data.List.Perm.Basic

namespace Ebb

/-! Insertion-ordered dictionaries. Writing an existing key keeps its position
and writing a new key appends it, as the `Map` and the plain objects of the
client do. -/

/-! ## Entry lists -/

/-- Write `key` in a list of entries, in place when it is already there. -/
def setEntry {α : Type u} {β : Type v} [DecidableEq α] (key : α) (value : β) :
    List (α × β) → List (α × β)
  | [] => [(key, value)]
  | (head, existing) :: rest =>
      if head = key then (head, value) :: rest
      else (head, existing) :: setEntry key value rest

section Entries

variable {α : Type u} {β : Type v} [DecidableEq α]

variable (key : α) (value : β) (entries : List (α × β))

theorem lookup_cons_eq (head : α) (value : β) (rest : List (α × β)) :
    ((head, value) :: rest).lookup key =
      if key = head then some value else rest.lookup key := by
  by_cases equal : key = head
  · simp [equal]
  · simp [List.lookup_cons, equal, beq_eq_false_iff_ne.mpr equal]

theorem lookup_setEntry (other : α) (value : β) (entries : List (α × β)) :
    (setEntry key value entries).lookup other =
      if other = key then some value else entries.lookup other := by
  induction entries with
  | nil => simp [setEntry, lookup_cons_eq]
  | cons entry rest induction =>
      obtain ⟨head, existing⟩ := entry
      by_cases found : head = key
      · subst found
        simp only [setEntry, if_true, lookup_cons_eq]
        split <;> rfl
      · simp only [setEntry, found, if_false, lookup_cons_eq, induction]
        by_cases equal : other = head
        · subst equal
          simp [found]
        · simp [equal]

theorem lookup_setEntry_self : (setEntry key value entries).lookup key = some value := by
  rw [lookup_setEntry, if_pos rfl]

theorem lookup_setEntry_of_ne {key other : α} (different : other ≠ key) (value : β)
    (entries : List (α × β)) :
    (setEntry key value entries).lookup other = entries.lookup other := by
  rw [lookup_setEntry, if_neg different]

theorem setEntry_ne_nil : setEntry key value entries ≠ [] := by
  cases entries with
  | nil => simp [setEntry]
  | cons entry rest =>
      obtain ⟨head, existing⟩ := entry
      simp only [setEntry]
      split <;> simp

theorem setEntry_of_found {key : α} {value : β} {entries : List (α × β)}
    (found : entries.lookup key = some value) : setEntry key value entries = entries := by
  induction entries with
  | nil => cases found
  | cons entry rest induction =>
      obtain ⟨head, existing⟩ := entry
      rw [lookup_cons_eq] at found
      by_cases equal : head = key
      · subst equal
        simp_all [setEntry]
      · have apart : key ≠ head := fun same => equal same.symm
        rw [if_neg apart] at found
        rw [setEntry, if_neg equal, induction found]

theorem keys_setEntry :
    (setEntry key value entries).map Prod.fst =
      if key ∈ entries.map Prod.fst then entries.map Prod.fst
      else entries.map Prod.fst ++ [key] := by
  induction entries with
  | nil => simp [setEntry]
  | cons entry rest induction =>
      obtain ⟨head, existing⟩ := entry
      by_cases found : head = key
      · simp [setEntry, found]
      · have different : key ≠ head := fun equal => found equal.symm
        simp only [setEntry, found, if_false, List.map_cons, induction, List.mem_cons,
          different, false_or]
        split <;> simp

theorem mem_setEntry {key : α} {value : β} {entries : List (α × β)} {entry : α × β}
    (member : entry ∈ setEntry key value entries) :
    entry = (key, value) ∨ entry ∈ entries := by
  induction entries with
  | nil => exact .inl (List.mem_singleton.mp member)
  | cons head rest induction =>
      simp only [setEntry] at member
      split at member
      · next found =>
          rcases List.mem_cons.mp member with equal | member
          · exact .inl (by rw [equal, found])
          · exact .inr (List.mem_cons_of_mem _ member)
      · rcases List.mem_cons.mp member with equal | member
        · exact .inr (equal ▸ List.mem_cons_self)
        · exact (induction member).imp_right (List.mem_cons_of_mem _)

theorem mem_of_lookup_eq_some {key : α} {value : β} {entries : List (α × β)}
    (found : entries.lookup key = some value) : (key, value) ∈ entries := by
  induction entries with
  | nil => cases found
  | cons entry rest induction =>
      obtain ⟨head, existing⟩ := entry
      rw [lookup_cons_eq] at found
      split at found
      · next equal =>
          rw [equal, Option.some.inj found]
          exact List.mem_cons_self
      · exact List.mem_cons_of_mem _ (induction found)

theorem setEntry_setEntry :
    setEntry key value (setEntry key value entries) = setEntry key value entries := by
  induction entries with
  | nil => simp [setEntry]
  | cons entry rest induction =>
      obtain ⟨head, existing⟩ := entry
      by_cases found : head = key
      · simp [setEntry, found]
      · simp [setEntry, found, induction]

theorem setEntry_of_absent {key : α} {entries : List (α × β)}
    (absent : entries.lookup key = none) (value : β) :
    setEntry key value entries = entries ++ [(key, value)] := by
  induction entries with
  | nil => rfl
  | cons entry rest induction =>
      rcases entry with ⟨head, existing⟩
      rw [lookup_cons_eq] at absent
      split at absent
      · cases absent
      · next different =>
          have other : head ≠ key := fun equal => different equal.symm
          simp only [setEntry, other, if_false, induction absent, List.cons_append]

theorem nodup_keys_setEntry {entries : List (α × β)}
    (nodup : (entries.map Prod.fst).Nodup) (key : α) (value : β) :
    ((setEntry key value entries).map Prod.fst).Nodup := by
  rw [keys_setEntry]
  split
  · exact nodup
  · next absent =>
      rw [List.nodup_append]
      exact ⟨nodup, List.nodup_singleton key, by
        intro left member right equal
        simp only [List.mem_singleton] at equal
        rintro rfl
        exact absent (equal ▸ member)⟩

theorem lookup_isSome_iff_mem_keys : (entries.lookup key).isSome ↔ key ∈ entries.map Prod.fst := by
  simp [List.lookup_isSome_iff]

theorem lookup_filter_keys (keep : α → Bool) (entries : List (α × β)) (key : α) :
    (entries.filter fun entry => keep entry.1).lookup key =
      if keep key then entries.lookup key else none := by
  induction entries with
  | nil => simp
  | cons entry rest induction =>
      rcases entry with ⟨head, value⟩
      rw [List.filter_cons]
      by_cases same : key = head
      · subst same
        cases kept : keep key with
        | true => simp
        | false => simpa [kept] using induction
      · cases keep head with
        | true => simp [lookup_cons_eq, same, induction]
        | false => simp [lookup_cons_eq, same, induction]

theorem lookup_eq_some_iff_mem {entries : List (α × β)}
    (nodup : (entries.map Prod.fst).Nodup) (key : α) (value : β) :
    entries.lookup key = some value ↔ (key, value) ∈ entries := by
  induction entries with
  | nil => simp
  | cons entry rest induction =>
      obtain ⟨head, existing⟩ := entry
      have parts := List.nodup_cons.mp nodup
      by_cases equal : key = head
      · subst equal
        have notMember : (key, value) ∉ rest := fun member =>
          parts.1 (List.mem_map.mpr ⟨(key, value), member, rfl⟩)
        simp [notMember, eq_comm]
      · simp [lookup_cons_eq, equal, induction parts.2]

/-! ### Batches of writes -/

theorem lookup_foldl_setEntry {γ : Type w} (keyOf : γ → α) (valueOf : γ → β) {writes : List γ}
    {entries : List (α × β)} {key : α} {value : β}
    (found : (writes.foldl (fun entries write =>
      setEntry (keyOf write) (valueOf write) entries) entries).lookup key = some value) :
    (∃ write ∈ writes, keyOf write = key ∧ valueOf write = value) ∨
      entries.lookup key = some value := by
  induction writes generalizing entries with
  | nil => exact .inr found
  | cons head rest induction =>
      rcases induction found with ⟨write, member, holds⟩ | earlier
      · exact .inl ⟨write, List.mem_cons_of_mem head member, holds⟩
      · rw [lookup_setEntry] at earlier
        split at earlier
        · next equal =>
            exact .inl ⟨head, List.mem_cons_self, equal.symm, Option.some.inj earlier⟩
        · exact .inr earlier

theorem lookup_foldl_setEntry_of_notMem {γ : Type w} (keyOf : γ → α) (valueOf : γ → β)
    {writes : List γ} {key : α} (unwritten : ∀ write ∈ writes, keyOf write ≠ key)
    (entries : List (α × β)) :
    (writes.foldl (fun entries write =>
      setEntry (keyOf write) (valueOf write) entries) entries).lookup key =
      entries.lookup key := by
  induction writes generalizing entries with
  | nil => rfl
  | cons head rest induction =>
      rw [List.foldl_cons,
        induction fun write member => unwritten write (List.mem_cons_of_mem head member)]
      exact lookup_setEntry_of_ne (unwritten head List.mem_cons_self).symm _ _

theorem lookup_foldl_setEntry_isSome {γ : Type w} (keyOf : γ → α) (valueOf : γ → β)
    (writes : List γ) (entries : List (α × β)) (key : α) :
    ((writes.foldl (fun entries write =>
      setEntry (keyOf write) (valueOf write) entries) entries).lookup key).isSome = true ↔
      (∃ write ∈ writes, keyOf write = key) ∨ (entries.lookup key).isSome = true := by
  induction writes generalizing entries with
  | nil => simp
  | cons head rest induction =>
      rw [List.foldl_cons, induction, lookup_setEntry]
      by_cases equal : key = keyOf head
      · simp [equal]
      · have different : keyOf head ≠ key := fun same => equal same.symm
        simp [equal, different]

end Entries

/-! ## Dictionaries with distinct keys -/

/-- A dictionary whose keys are distinct by construction. -/
structure OrderedMap (α : Type u) (β : Type v) where
  entries : List (α × β)
  nodup : (entries.map Prod.fst).Nodup
deriving DecidableEq

namespace OrderedMap

variable {α : Type u} {β : Type v} {γ : Type w}

def empty : OrderedMap α β := ⟨[], List.nodup_nil⟩

def keys (map : OrderedMap α β) : List α := map.entries.map Prod.fst

variable [DecidableEq α]

def get? (map : OrderedMap α β) (key : α) : Option β := map.entries.lookup key

def contains (map : OrderedMap α β) (key : α) : Bool := (map.get? key).isSome

def set (map : OrderedMap α β) (key : α) (value : β) : OrderedMap α β :=
  ⟨setEntry key value map.entries, nodup_keys_setEntry map.nodup key value⟩

def erase (map : OrderedMap α β) (key : α) : OrderedMap α β where
  entries := map.entries.filter fun entry => entry.1 ≠ key
  nodup := map.nodup.sublist (List.filter_sublist.map Prod.fst)

variable (map : OrderedMap α β) (key : α) (value : β)

@[simp] theorem get?_empty : (empty : OrderedMap α β).get? key = none := rfl

theorem get?_set (other : α) (value : β) :
    (map.set key value).get? other = if other = key then some value else map.get? other :=
  lookup_setEntry key other value map.entries

@[simp] theorem get?_set_self : (map.set key value).get? key = some value :=
  lookup_setEntry_self key value map.entries

theorem get?_set_of_ne {key other : α} (different : other ≠ key) (value : β)
    : (map.set key value).get? other = map.get? other :=
  lookup_setEntry_of_ne different value map.entries

theorem set_set : (map.set key value).set key value = map.set key value := by
  simp only [set, setEntry_setEntry]

theorem get?_eq_some_iff : map.get? key = some value ↔ (key, value) ∈ map.entries :=
  lookup_eq_some_iff_mem map.nodup key value

theorem mem_keys_iff : key ∈ map.keys ↔ ∃ value, map.get? key = some value := by
  rw [keys, ← lookup_isSome_iff_mem_keys, Option.isSome_iff_exists]
  rfl

theorem get?_erase (other : α) :
    (map.erase key).get? other = if other = key then none else map.get? other := by
  apply Option.ext
  intro value
  rw [get?_eq_some_iff]
  by_cases equal : other = key
  · simp [erase, equal]
  · simp [erase, equal, get?_eq_some_iff]

theorem get?_foldl_set_entries (value : α × β → γ) {entries : List (α × β)}
    (nodup : (entries.map Prod.fst).Nodup) (map : OrderedMap α γ) (key : α) :
    (entries.foldl (fun merged entry => merged.set entry.1 (value entry)) map).get? key =
      ((entries.lookup key).map fun found => value (key, found)).or (map.get? key) := by
  induction entries generalizing map with
  | nil => rfl
  | cons entry rest induction =>
      rcases entry with ⟨head, found⟩
      have parts := List.nodup_cons.mp nodup
      rw [List.foldl_cons, induction parts.2, get?_set, lookup_cons_eq]
      split
      · next equal =>
          have absent : rest.lookup key = none := by
            rw [← Option.not_isSome_iff_eq_none, lookup_isSome_iff_mem_keys]
            exact equal ▸ parts.1
          rw [absent, equal]
          rfl
      · rfl

/-- All entries of `later` written over `earlier`. -/
def merge (earlier later : OrderedMap α β) : OrderedMap α β :=
  later.entries.foldl (fun merged entry => merged.set entry.1 entry.2) earlier

theorem get?_merge (earlier later : OrderedMap α β) (key : α) :
    (earlier.merge later).get? key = (later.get? key).or (earlier.get? key) := by
  have read := get?_foldl_set_entries Prod.snd later.nodup earlier key
  rw [Option.map_id'] at read
  exact read

/-- All entries of both, where `resolve` joins the values of a common key. -/
def mergeWith (resolve : β → β → β) (earlier later : OrderedMap α β) : OrderedMap α β :=
  later.entries.foldl
    (fun merged entry =>
      merged.set entry.1 (((earlier.get? entry.1).map fun value => resolve value entry.2).getD
        entry.2)) earlier

theorem get?_mergeWith (resolve : β → β → β) (earlier later : OrderedMap α β) (key : α) :
    (earlier.mergeWith resolve later).get? key =
      ((later.get? key).map fun new =>
        ((earlier.get? key).map fun value => resolve value new).getD new).or
          (earlier.get? key) :=
  get?_foldl_set_entries
    (fun entry => ((earlier.get? entry.1).map fun value => resolve value entry.2).getD entry.2)
    later.nodup earlier key

theorem mem_entries_set (entry : α × β) :
    entry ∈ (map.set key value).entries ↔
      entry = (key, value) ∨ (entry.1 ≠ key ∧ entry ∈ map.entries) := by
  obtain ⟨other, found⟩ := entry
  rw [← get?_eq_some_iff, get?_set]
  by_cases equal : other = key
  · simp [equal, eq_comm]
  · simp [equal, get?_eq_some_iff]

theorem entries_set_of_absent {map : OrderedMap α β} {key : α} (absent : map.get? key = none)
    (value : β) : (map.set key value).entries = map.entries ++ [(key, value)] :=
  setEntry_of_absent absent value

theorem exists_split {map : OrderedMap α β} {key : α} {value : β}
    (found : map.get? key = some value) :
    ∃ before after, map.entries = before ++ (key, value) :: after ∧
      (map.erase key).entries = before ++ after ∧
      ∀ new, (map.set key new).entries = before ++ (key, new) :: after := by
  have general : ∀ entries : List (α × β), (entries.map Prod.fst).Nodup →
      entries.lookup key = some value →
        ∃ before after, entries = before ++ (key, value) :: after ∧
          (entries.filter fun entry => entry.1 ≠ key) = before ++ after ∧
          ∀ new, setEntry key new entries = before ++ (key, new) :: after := by
    intro entries
    induction entries with
    | nil =>
        intro _ found
        cases found
    | cons entry rest induction =>
        intro nodup found
        rcases entry with ⟨head, existing⟩
        have parts := List.nodup_cons.mp nodup
        rw [lookup_cons_eq] at found
        by_cases equal : key = head
        · subst equal
          rw [if_pos rfl] at found
          cases found
          have others : (rest.filter fun entry => entry.1 ≠ key) = rest := by
            rw [List.filter_eq_self]
            intro other member
            have different : other.1 ≠ key := fun same =>
              parts.1 (List.mem_map.mpr ⟨other, member, same⟩)
            simp [different]
          refine ⟨[], rest, rfl, ?_, fun new => by simp [setEntry]⟩
          rw [List.filter_cons_of_neg (by simp), others]
          rfl
        · rw [if_neg equal] at found
          have different : head ≠ key := fun same => equal same.symm
          rcases induction parts.2 found with ⟨before, after, split, erased, written⟩
          refine ⟨(head, existing) :: before, after, by rw [split]; rfl, ?_, fun new => ?_⟩
          · rw [List.filter_cons_of_pos (by simp [different]), erased]
            rfl
          · simp only [setEntry, different, if_false, written, List.cons_append]
  exact general map.entries map.nodup found

end OrderedMap

end Ebb
