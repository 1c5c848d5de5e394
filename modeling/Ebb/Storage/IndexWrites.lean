import Ebb.Storage.InterleavedRequests

namespace Ebb.Storage

/-! What the writes of a replay do to the links of its row, when each record is still the one that
was read. -/

variable (asString : V → Option String)

def entryLink (entry : Option IndexEntry) (key : String) : Option String :=
  entry.bind fun entry => if entry.key = key then some entry.value else none

/-- The value that a row puts under a key, in one direction or the other. -/
def linkAt (row : Option (Entity V)) (key : String) : Option String :=
  (entryLink (row.bind (indexEntryFor asString)) key).or
    (entryLink (row.bind (forwardIndexEntryFor asString)) key)

def KeysApart (previous next : Option (Entity V)) : Prop :=
  ∀ reverse ∈ (previous.bind (indexEntryFor asString)).toList ++
      (next.bind (indexEntryFor asString)).toList,
    ∀ forward ∈ (previous.bind (forwardIndexEntryFor asString)).toList ++
        (next.bind (forwardIndexEntryFor asString)).toList,
      reverse.key ≠ forward.key

theorem entryLink_of_ne {entry : Option IndexEntry} {key : String}
    (different : ∀ found ∈ entry, found.key ≠ key) : entryLink entry key = none := by
  cases entry with
  | none => rfl
  | some found => exact if_neg (different found rfl)

/-! ## Performing writes -/

namespace IndexWrite

def value : IndexWrite → Option String
  | .remove _ => none
  | .add entry => some entry.value

def perform (writes : List IndexWrite) (links : String → Option String) :
    String → Option String :=
  writes.foldl (fun links write => Function.update links write.entry.key write.value) links

theorem perform_append (before after : List IndexWrite) (links : String → Option String) :
    perform (before ++ after) links = perform after (perform before links) := List.foldl_append

theorem perform_of_ne {writes : List IndexWrite} {key : String}
    (different : ∀ write ∈ writes, write.entry.key ≠ key) (links : String → Option String) :
    perform writes links key = links key := by
  induction writes generalizing links with
  | nil => rfl
  | cons write rest induction =>
      have parts := List.forall_mem_cons.mp different
      exact (induction parts.2 _).trans (Function.update_of_ne (Ne.symm parts.1) _ _)

theorem perform_pair (remove add : Option IndexEntry) (links : String → Option String)
    (key : String) :
    perform (ofDelta { remove, add }) links key =
      if ∃ entry ∈ remove.toList ++ add.toList, entry.key = key then entryLink add key
      else links key := by
  cases remove with
  | none =>
      cases add with
      | none => simp [ofDelta, perform]
      | some new =>
          by_cases here : new.key = key
          · simp [ofDelta, perform, entryLink, value, entry, here]
          · simp [ofDelta, perform, value, entry, here, Ne.symm here]
  | some old =>
      cases add with
      | none =>
          by_cases here : old.key = key
          · simp [ofDelta, perform, entryLink, value, entry, here]
          · simp [ofDelta, perform, value, entry, here, Ne.symm here]
      | some new =>
          by_cases here : new.key = key
          · simp [ofDelta, perform, entryLink, value, entry, here]
          · by_cases there : old.key = key
            · simp [ofDelta, perform, entryLink, value, entry, here, there, Ne.symm here]
            · simp [ofDelta, perform, value, entry, here, there, Ne.symm here, Ne.symm there]

theorem perform_delta (entryFor : Entity V → Option IndexEntry) (previous next : Option (Entity V))
    {links : String → Option String}
    (held : ∀ entry ∈ previous.bind entryFor, links entry.key = some entry.value) (key : String) :
    perform (ofDelta (ReverseIndex.indexDelta entryFor previous next)) links key =
      if ∃ entry ∈ (previous.bind entryFor).toList ++ (next.bind entryFor).toList, entry.key = key
      then entryLink (next.bind entryFor) key else links key := by
  rw [ReverseIndex.indexDelta]
  by_cases same : previous.bind entryFor = next.bind entryFor
  · rw [if_pos same, ← same]
    cases found : previous.bind entryFor with
    | none => simp [ofDelta, perform]
    | some entry =>
        rw [found] at held
        by_cases here : entry.key = key
        · subst here
          simpa [ofDelta, perform, entryLink] using held entry rfl
        · simp [ofDelta, perform, here]
  · rw [if_neg same, perform_pair]

theorem row?_writeRows (write : IndexWrite) (index : ReverseIndex) (key id : String) :
    (write.writeRows index (index.get? write.entry.key)).row? key id =
      if key = write.entry.key ∧ id = write.entry.rowId then write.value
      else index.row? key id := by
  cases write with
  | remove entry => exact ReverseIndex.row?_removeEntry index entry key id
  | add entry => exact ReverseIndex.row?_addEntry index entry key id

end IndexWrite

variable {previous : Option (Entity V)}

theorem rowId_indexWrites {next : Entity V} {id : String}
    (previousNamed : ∀ row ∈ previous, row.id = id) (nextNamed : next.id = id) :
    ∀ write ∈ indexWrites asString previous next, write.entry.rowId = id := by
  have general : ∀ entryFor : Entity V → Option IndexEntry,
      (∀ row entry, entryFor row = some entry → entry.rowId = row.id) →
        ∀ write ∈ IndexWrite.ofDelta (ReverseIndex.indexDelta entryFor previous (some next)),
          write.entry.rowId = id := by
    intro entryFor named write member
    rw [ReverseIndex.indexDelta] at member
    split at member
    · cases member
    · rcases List.mem_append.mp member with removed | added
      · rcases List.mem_map.mp removed with ⟨entry, held, rfl⟩
        rcases Option.bind_eq_some_iff.mp (Option.mem_toList.mp held) with ⟨row, stored, found⟩
        exact (named row entry found).trans (previousNamed row stored)
      · rcases List.mem_map.mp added with ⟨entry, held, rfl⟩
        exact (named next entry (Option.mem_toList.mp held)).trans nextNamed
  intro write member
  rcases List.mem_append.mp member with reverse | forward
  · exact general _ (fun _ _ => rowId_indexEntryFor asString) write reverse
  · exact general _ (fun _ _ => rowId_forwardIndexEntryFor asString) write forward

theorem perform_indexWrites {next : Entity V} (apart : KeysApart asString previous (some next)) :
    IndexWrite.perform (indexWrites asString previous next) (linkAt asString previous) =
      linkAt asString (some next) := by
  have reverseHeld : ∀ entry ∈ previous.bind (indexEntryFor asString),
      linkAt asString previous entry.key = some entry.value := by
    intro entry found
    rw [linkAt, found, entryLink, Option.bind_some, if_pos rfl]
    rfl
  have reverse := IndexWrite.perform_delta (indexEntryFor asString) previous (some next) reverseHeld
  have forwardHeld : ∀ entry ∈ previous.bind (forwardIndexEntryFor asString),
      IndexWrite.perform (IndexWrite.ofDelta (ReverseIndex.indexDelta (indexEntryFor asString)
        previous (some next))) (linkAt asString previous) entry.key = some entry.value := by
    intro entry found
    have forward : entry ∈ (previous.bind (forwardIndexEntryFor asString)).toList ++
        ((some next).bind (forwardIndexEntryFor asString)).toList :=
      List.mem_append_left _ (Option.mem_toList.mpr found)
    rw [reverse, if_neg]
    · rw [linkAt, entryLink_of_ne fun other held => apart other
        (List.mem_append_left _ (Option.mem_toList.mpr held)) entry forward, found, entryLink,
        Option.bind_some, if_pos rfl]
      rfl
    · rintro ⟨other, listed, same⟩
      exact apart other listed entry forward same
  funext key
  have unlike : ∀ {row : Option (Entity V)} {entryFor : Entity V → Option IndexEntry}
      {entries : List IndexEntry}, (row.bind entryFor).toList ⊆ entries →
        (¬ ∃ entry ∈ entries, entry.key = key) → entryLink (row.bind entryFor) key = none :=
    fun within absent => entryLink_of_ne fun found held same =>
      absent ⟨found, within (Option.mem_toList.mpr held), same⟩
  rw [indexWrites, IndexWrite.perform_append,
    IndexWrite.perform_delta (forwardIndexEntryFor asString) previous (some next) forwardHeld,
    reverse]
  simp only [linkAt]
  split
  · next listed =>
      rcases listed with ⟨forward, listed, rfl⟩
      rw [unlike (List.subset_append_right _ _) fun ⟨other, held, same⟩ =>
        apart other held forward listed same]
      rfl
  · next absent =>
      rw [unlike (List.subset_append_right _ _) absent, Option.or_none]
      split
      · rfl
      · next neither =>
          rw [unlike (List.subset_append_left _ _) neither,
            unlike (List.subset_append_left _ _) absent,
            unlike (List.subset_append_right _ _) neither]
          rfl

end Ebb.Storage
