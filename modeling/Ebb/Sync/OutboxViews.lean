import Ebb.Sync.Outbox

namespace Ebb.Sync

/-! The outbox seen from one Action id. Every operation changes the view of one
or two ids, so the invariant is a statement about one view and each operation
has one lemma about the view it changes. -/

/-! ## Views -/

/-- What the outbox holds under one Action id, and which calls wait on it. -/
structure View (V C : Type) where
  entry : Option (OutboxEntry V C)
  row : Option (OutboxEntry V C)
  /-- A call has deleted the row and has still to remove the entry. -/
  deleting : Bool
  /-- One of those calls is an echo. -/
  echoing : Bool
  retrying : Bool
  /-- The entries whose row is written and whose call has still to append them. -/
  inserting : List (OutboxEntry V C)
  /-- The status the flush in flight has written to the row. -/
  storing : Option OutboxStatus
  /-- The entries of the flush in flight. -/
  batched : List (OutboxEntry V C)

def Call.deletes (actionId : String) : Call V C → Bool
  | .replacing originalId _ => originalId == actionId
  | .clearing cleared => cleared == actionId
  | .matching matched => matched == actionId
  | _ => false

def Call.echoes (actionId : String) : Call V C → Bool
  | .matching matched => matched == actionId
  | _ => false

def Call.retries (actionId : String) : Call V C → Bool
  | .retrying retried => retried == actionId
  | _ => false

def Call.inserts (actionId : String) : Call V C → Option (OutboxEntry V C)
  | .enqueuing entry => if entry.id = actionId then some entry else none
  | .replacing _ next => if next.id = actionId then some next else none
  | _ => none

def Flush.storedStatus (actionId : String) : Flush V C → Option OutboxStatus
  | .storing entry status _ _ => if entry.id = actionId then some status else none
  | _ => none

def Flush.batch : Flush V C → List (OutboxEntry V C)
  | .submitting batch => batch
  | .storing entry _ rest _ => entry :: rest
  | .repairing rest _ => rest

namespace Outbox

variable (outbox : Outbox V C) (actionId : String)

def deleting : Bool := outbox.calls.entries.any fun call => call.2.deletes actionId

def echoing : Bool := outbox.calls.entries.any fun call => call.2.echoes actionId

def retrying : Bool := outbox.calls.entries.any fun call => call.2.retries actionId

def inserting : List (OutboxEntry V C) :=
  outbox.calls.entries.filterMap fun call => call.2.inserts actionId

def storing : Option OutboxStatus := outbox.inFlight.bind (Flush.storedStatus actionId)

def batched : List (OutboxEntry V C) :=
  (outbox.inFlight.elim [] Flush.batch).filter fun entry => entry.id = actionId

def view : View V C where
  entry := entryOf outbox.entries actionId
  row := outbox.rows.get? actionId
  deleting := outbox.deleting actionId
  echoing := outbox.echoing actionId
  retrying := outbox.retrying actionId
  inserting := outbox.inserting actionId
  storing := outbox.storing actionId
  batched := outbox.batched actionId

end Outbox

/-! ## Sound views -/

/-- The parts of an entry that no transition changes. -/
structure OutboxEntry.SameAction (left right : OutboxEntry V C) : Prop where
  action : left.action = right.action
  enqueuedAtHlc : left.enqueuedAtHlc = right.enqueuedAtHlc
  basedOnGsn : left.basedOnGsn = right.basedOnGsn

namespace View

/-- The row of a buffered entry. It is the entry itself, up to the store write
that the call in progress has still to repeat in memory. -/
def RowMatches (view : View V C) (entry : OutboxEntry V C) : Prop :=
  if view.deleting then view.storing ≠ none ∨ view.row = none
  else
    match view.storing with
    | none =>
        view.row = some entry ∨
          entry.status = .error ∧ view.retrying = true ∧
            view.row = some (withStatus .pending entry)
    | some status =>
        entry.status = .pending ∧ view.row = some (withStatus status entry) ∨
          entry.status = .conflicted ∧ view.row = some entry

namespace RowMatches

variable {view : View V C} {entry : OutboxEntry V C}

theorem ofDeleting (deleting : view.deleting = true)
    (row : view.storing ≠ none ∨ view.row = none) : view.RowMatches entry := by
  simp [RowMatches, deleting, row]

theorem whileDeleting (matched : view.RowMatches entry) (deleting : view.deleting = true) :
    view.storing ≠ none ∨ view.row = none := by
  simpa [RowMatches, deleting] using matched

theorem ofIdle (deleting : view.deleting = false) (storing : view.storing = none)
    (row : view.row = some entry ∨
      entry.status = .error ∧ view.retrying = true ∧
        view.row = some (withStatus .pending entry)) : view.RowMatches entry := by
  simp [RowMatches, deleting, storing, row]

theorem whileIdle (matched : view.RowMatches entry) (deleting : view.deleting = false)
    (storing : view.storing = none) :
    view.row = some entry ∨
      entry.status = .error ∧ view.retrying = true ∧
        view.row = some (withStatus .pending entry) := by
  simpa [RowMatches, deleting, storing] using matched

theorem ofStoring (deleting : view.deleting = false) {status : OutboxStatus}
    (storing : view.storing = some status)
    (row : entry.status = .pending ∧ view.row = some (withStatus status entry) ∨
      entry.status = .conflicted ∧ view.row = some entry) : view.RowMatches entry := by
  simp [RowMatches, deleting, storing, row]

theorem whileStoring (matched : view.RowMatches entry) (deleting : view.deleting = false)
    {status : OutboxStatus} (storing : view.storing = some status) :
    entry.status = .pending ∧ view.row = some (withStatus status entry) ∨
      entry.status = .conflicted ∧ view.row = some entry := by
  simpa [RowMatches, deleting, storing] using matched

end RowMatches

/-- Nothing waits on the id of an entry that is being inserted. -/
structure Inserts (view : View V C) (inserted : OutboxEntry V C) : Prop where
  inserting : view.inserting = [inserted]
  entry : view.entry = none
  row : view.row = some inserted
  payload : inserted.conflict = none
  deleting : view.deleting = false
  retrying : view.retrying = false
  storing : view.storing = none
  batched : view.batched = []

structure Sound (view : View V C) : Prop where
  inserting : view.inserting = [] ∨ ∃ entry, view.Inserts entry
  absent : view.entry = none → view.inserting = [] → view.storing ≠ none ∨ view.row = none
  present : ∀ entry, view.entry = some entry → view.RowMatches entry
  payload : ∀ entry, view.entry = some entry → view.deleting = false →
    entry.status ≠ .conflicted → entry.conflict = none
  echoes : view.echoing = true → view.deleting = true ∧
    ∀ entry, view.entry = some entry → entry.status ≠ .conflicted
  storing : ∀ status, view.storing = some status → status = .acknowledged ∨ status = .error
  batched : ∀ other ∈ view.batched, ∀ entry, view.entry = some entry → other.SameAction entry

variable {view : View V C}

theorem Sound.inserting_of_entry (sound : view.Sound) {entry : OutboxEntry V C}
    (present : view.entry = some entry) : view.inserting = [] := by
  rcases sound.inserting with none | ⟨inserted, inserts⟩
  · exact none
  · rw [inserts.entry] at present
    cases present

theorem Sound.inserting_of_deleting (sound : view.Sound) (deleting : view.deleting = true) :
    view.inserting = [] := by
  rcases sound.inserting with none | ⟨inserted, inserts⟩
  · exact none
  · rw [inserts.deleting] at deleting
    cases deleting

theorem Sound.inserting_of_storing (sound : view.Sound) (storing : view.storing ≠ none) :
    view.inserting = [] := by
  rcases sound.inserting with none | ⟨inserted, inserts⟩
  · exact none
  · exact absurd inserts.storing storing

/-! ## Starting a call -/

theorem Sound.delete (sound : view.Sound) {entry : OutboxEntry V C}
    (present : view.entry = some entry) (echoing : Bool)
    (held : echoing = true → entry.status ≠ .conflicted) :
    ({ view with
      row := none
      deleting := true
      echoing := view.echoing || echoing } : View V C).Sound where
  inserting := .inl (sound.inserting_of_entry present)
  absent := fun _ _ => .inr rfl
  present := fun _ _ => .inr rfl
  payload := fun _ _ notDeleting => by cases notDeleting
  echoes := by
    intro echoes
    refine ⟨rfl, fun other found => ?_⟩
    rcases Bool.or_eq_true_iff.mp echoes with before | now
    · exact (sound.echoes before).2 other found
    · cases present.symm.trans found
      exact held now
  storing := sound.storing
  batched := sound.batched

theorem Sound.retry (sound : view.Sound) {entry : OutboxEntry V C}
    (present : view.entry = some entry) (rejected : entry.status = .error)
    (notDeleting : view.deleting = false) :
    ({ view with
      row := some (withStatus .pending entry)
      retrying := true } : View V C).Sound where
  inserting := .inl (sound.inserting_of_entry present)
  absent := fun absent => by
    rw [present] at absent
    cases absent
  present := by
    intro other found
    cases present.symm.trans found
    have before := sound.present entry present
    cases storing : view.storing with
    | none => exact RowMatches.ofIdle notDeleting rfl (.inr ⟨rejected, rfl, rfl⟩)
    | some status =>
        rcases before.whileStoring notDeleting storing with
          ⟨pending, _⟩ | ⟨conflicted, _⟩
        · rw [rejected] at pending
          cases pending
        · rw [rejected] at conflicted
          cases conflicted
  payload := sound.payload
  echoes := sound.echoes
  storing := sound.storing
  batched := sound.batched

theorem Sound.insert {entry : OutboxEntry V C} (payload : entry.conflict = none) :
    ({ entry := none
       row := some entry
       deleting := false
       echoing := false
       retrying := false
       inserting := [entry]
       storing := none
       batched := [] } : View V C).Sound where
  inserting := .inr ⟨entry, {
    inserting := rfl
    entry := rfl
    row := rfl
    payload
    deleting := rfl
    retrying := rfl
    storing := rfl
    batched := rfl }⟩
  absent := fun _ none => by cases none
  present := fun _ found => by cases found
  payload := fun _ found => by cases found
  echoes := fun echoes => by cases echoes
  storing := fun _ storing => by cases storing
  batched := fun _ member => by cases member

/-! ## Going on after a store operation -/

theorem Inserts.append {entry : OutboxEntry V C} (sound : view.Sound)
    (inserts : view.Inserts entry) :
    ({ view with entry := some entry, inserting := [] } : View V C).Sound where
  inserting := .inl rfl
  absent := fun absent => by cases absent
  present := by
    intro other found
    cases found
    exact RowMatches.ofIdle inserts.deleting inserts.storing (.inl inserts.row)
  payload := by
    intro other found _ _
    cases found
    exact inserts.payload
  echoes := fun echoes => by
    have deleting := (sound.echoes echoes).1
    rw [inserts.deleting] at deleting
    cases deleting
  storing := sound.storing
  batched := fun other member => by
    rw [inserts.batched] at member
    cases member

theorem Sound.remove (sound : view.Sound) (wasDeleting : view.deleting = true)
    (deleting echoing : Bool) (echoes : echoing = true → deleting = true) :
    ({ view with entry := none, deleting, echoing } : View V C).Sound where
  inserting := .inl (sound.inserting_of_deleting wasDeleting)
  absent := by
    intro _ none
    cases found : view.entry with
    | none => exact sound.absent found none
    | some entry =>
        exact (sound.present entry found).whileDeleting wasDeleting
  present := fun _ found => by cases found
  payload := fun _ found => by cases found
  echoes := fun echoed => ⟨echoes echoed, fun _ found => by cases found⟩
  storing := sound.storing
  batched := fun _ _ _ found => by cases found

/-- When a retry may set the status in memory: the entry is pending already, or
the row is, or it is gone. -/
def RetrySettled (view : View V C) : Bool :=
  view.entry.all fun entry =>
    entry.status = .pending || view.row.all fun row => row.status = .pending

theorem RetrySettled.eq (settled : view.RetrySettled = true) {entry : OutboxEntry V C}
    (present : view.entry = some entry) :
    entry.status = .pending ∨ ∀ row, view.row = some row → row.status = .pending := by
  simpa [RetrySettled, present, Option.all_eq_true] using settled

theorem withStatus_self {entry : OutboxEntry V C} {status : OutboxStatus}
    (same : entry.status = status) : withStatus status entry = entry := by
  cases entry
  cases same
  rfl

section

variable (sound : view.Sound)
include sound

theorem Sound.retried (settled : view.RetrySettled = true) (retrying : Bool)
    (kept : view.retrying = false → retrying = false) :
    ({ view with entry := view.entry.map (withStatus .pending), retrying } : View V C).Sound where
  inserting := by
    rcases sound.inserting with none | ⟨entry, inserts⟩
    · exact .inl none
    · exact .inr ⟨entry, { inserts with
        entry := by simp [inserts.entry]
        retrying := kept inserts.retrying }⟩
  absent := by
    intro absent none
    cases found : view.entry with
    | none => exact sound.absent found none
    | some entry =>
        simp only [found] at absent
        cases absent
  present := by
    intro other found
    rcases Option.map_eq_some_iff.mp found with ⟨entry, entryFound, rfl⟩
    have before := sound.present entry entryFound
    have settled := RetrySettled.eq settled entryFound
    cases deleting : view.deleting with
    | true =>
        exact RowMatches.ofDeleting rfl (before.whileDeleting deleting)
    | false =>
        cases storing : view.storing with
        | none =>
            refine RowMatches.ofIdle rfl rfl (.inl ?_)
            rcases before.whileIdle deleting storing with same | ⟨_, _, pending⟩
            · rcases settled with pending | rowPending
              · rw [withStatus_self pending]
                exact same
              · rw [withStatus_self (rowPending entry same)]
                exact same
            · exact pending
        | some status =>
            refine RowMatches.ofStoring rfl rfl (.inl ?_)
            rcases before.whileStoring deleting storing with
              ⟨pending, written⟩ | ⟨conflicted, same⟩
            · rw [withStatus_self pending]
              exact ⟨pending, written⟩
            · have pending : entry.status = .pending :=
                settled.elim id fun rowPending => rowPending entry same
              rw [conflicted] at pending
              cases pending
  payload := by
    intro other found deleting _
    rcases Option.map_eq_some_iff.mp found with ⟨entry, entryFound, rfl⟩
    by_cases conflicted : entry.status = .conflicted
    · have before := sound.present entry entryFound
      have row : view.row = some entry := by
        cases storing : view.storing with
        | none =>
            rcases before.whileIdle deleting storing with same | ⟨rejected, _⟩
            · exact same
            · rw [conflicted] at rejected
              cases rejected
        | some status =>
            rcases before.whileStoring deleting storing with
              ⟨pending, _⟩ | ⟨_, same⟩
            · rw [conflicted] at pending
              cases pending
            · exact same
      have pending : entry.status = .pending :=
        (RetrySettled.eq settled entryFound).elim id fun rowPending => rowPending entry row
      rw [conflicted] at pending
      cases pending
    · exact sound.payload entry entryFound deleting conflicted
  echoes := by
    intro echoes
    refine ⟨(sound.echoes echoes).1, fun other found => ?_⟩
    rcases Option.map_eq_some_iff.mp found with ⟨entry, _, rfl⟩
    intro conflicted
    cases conflicted
  storing := sound.storing
  batched := by
    intro other member entry found
    rcases Option.map_eq_some_iff.mp found with ⟨known, knownFound, rfl⟩
    exact { sound.batched other member known knownFound with }

theorem Sound.mark {entry : OutboxEntry V C} (present : view.entry = some entry)
    (notDeleting : view.deleting = false) (conflict : C) :
    ({ view with
      entry := some (asConflicted conflict entry)
      row := some (asConflicted conflict entry) } : View V C).Sound where
  inserting := .inl (sound.inserting_of_entry present)
  absent := fun absent => by cases absent
  present := by
    intro other found
    cases found
    cases storing : view.storing with
    | none => exact RowMatches.ofIdle notDeleting rfl (.inl rfl)
    | some status => exact RowMatches.ofStoring notDeleting rfl (.inr ⟨rfl, rfl⟩)
  payload := by
    intro other found _ notConflicted
    cases found
    exact absurd rfl notConflicted
  echoes := by
    intro echoes
    have deleting := (sound.echoes echoes).1
    rw [notDeleting] at deleting
    cases deleting
  storing := sound.storing
  batched := by
    intro other member known found
    cases found
    exact { sound.batched other member entry present with }

variable {batched : List (OutboxEntry V C)}

/-! ## The flush -/

theorem Sound.shrinkBatch (kept : batched ⊆ view.batched) : ({ view with batched } : View V C).Sound where
  inserting := by
    rcases sound.inserting with none | ⟨entry, inserts⟩
    · exact .inl none
    · exact .inr ⟨entry, { inserts with
        batched := List.eq_nil_of_subset_nil (inserts.batched ▸ kept) }⟩
  absent := sound.absent
  present := sound.present
  payload := sound.payload
  echoes := sound.echoes
  storing := sound.storing
  batched := fun other member => sound.batched other (kept member)

theorem Sound.startBatch (fromMemory : ∀ other ∈ batched, view.entry = some other) :
    ({ view with batched } : View V C).Sound where
  inserting := by
    rcases sound.inserting with none | ⟨entry, inserts⟩
    · exact .inl none
    · refine .inr ⟨entry, { inserts with batched := ?_ }⟩
      rw [List.eq_nil_iff_forall_not_mem]
      intro other member
      have found := fromMemory other member
      rw [inserts.entry] at found
      cases found
  absent := sound.absent
  present := sound.present
  payload := sound.payload
  echoes := sound.echoes
  storing := sound.storing
  batched := by
    intro other member entry found
    cases (fromMemory other member).symm.trans found
    exact ⟨rfl, rfl, rfl⟩

theorem Sound.store {entry : OutboxEntry V C} (present : view.entry = some entry)
    (pending : entry.status = .pending) {flushed : OutboxEntry V C}
    (member : flushed ∈ view.batched) {status : OutboxStatus}
    (outcome : status = .acknowledged ∨ status = .error) :
    ({ view with
      row := some (Outbox.flushedRow flushed status)
      storing := some status } : View V C).Sound where
  inserting := .inl (sound.inserting_of_entry present)
  absent := fun _ _ => .inl (by simp)
  present := by
    intro other found
    cases present.symm.trans found
    cases deleting : view.deleting with
    | true => exact RowMatches.ofDeleting rfl (.inl (by simp))
    | false =>
        have same := sound.batched flushed member entry present
        have payload := sound.payload entry present deleting (by simp [pending])
        refine RowMatches.ofStoring rfl rfl (.inl ⟨pending, ?_⟩)
        simp only [Outbox.flushedRow, withStatus, same.action, same.enqueuedAtHlc,
          same.basedOnGsn, payload]
  payload := sound.payload
  echoes := sound.echoes
  storing := by
    intro other found
    cases found
    exact outcome
  batched := sound.batched

theorem Sound.redelete (absent : view.entry = none) (storing : view.storing ≠ none) :
    ({ view with row := none, storing := none } : View V C).Sound where
  inserting := .inl (sound.inserting_of_storing storing)
  absent := fun _ _ => .inr rfl
  present := fun entry found => by
    rw [absent] at found
    cases found
  payload := sound.payload
  echoes := sound.echoes
  storing := fun _ storing => by cases storing
  batched := sound.batched

end

/-- When a flush may go on with an entry it finds in memory: no deletion of the
entry waits, or the entry is pending and its row is gone. -/
def FlushSettled (view : View V C) : Bool :=
  view.entry.all fun entry =>
    !view.deleting || (decide (entry.status = .pending) && view.row.isNone)

theorem FlushSettled.eq (settled : view.FlushSettled = true) {entry : OutboxEntry V C}
    (present : view.entry = some entry) (deleting : view.deleting = true) :
    entry.status = .pending ∧ view.row = none := by
  simpa [FlushSettled, present, deleting] using settled

theorem Sound.restore (sound : view.Sound) (settled : view.FlushSettled = true)
    {entry : OutboxEntry V C} (present : view.entry = some entry)
    (notPending : entry.status ≠ .pending) :
    ({ view with row := some entry, storing := none } : View V C).Sound where
  inserting := .inl (sound.inserting_of_entry present)
  absent := fun absent => by
    rw [present] at absent
    cases absent
  present := by
    intro other found
    cases present.symm.trans found
    cases deleting : view.deleting with
    | true => exact absurd (FlushSettled.eq settled present deleting).1 notPending
    | false => exact RowMatches.ofIdle rfl rfl (.inl rfl)
  payload := sound.payload
  echoes := sound.echoes
  storing := fun _ storing => by cases storing
  batched := sound.batched

theorem Sound.settle (sound : view.Sound) (settled : view.FlushSettled = true)
    {entry : OutboxEntry V C} (present : view.entry = some entry)
    (pending : entry.status = .pending) {status : OutboxStatus}
    (storing : view.storing = some status) :
    ({ view with entry := some (withStatus status entry), storing := none } : View V C).Sound where
  inserting := .inl (sound.inserting_of_entry present)
  absent := fun absent => by cases absent
  present := by
    intro other found
    cases found
    have before := sound.present entry present
    cases deleting : view.deleting with
    | true =>
        exact RowMatches.ofDeleting rfl (.inr (FlushSettled.eq settled present deleting).2)
    | false =>
        rcases before.whileStoring deleting storing with
          ⟨_, written⟩ | ⟨conflicted, _⟩
        · exact RowMatches.ofIdle rfl rfl (.inl written)
        · rw [pending] at conflicted
          cases conflicted
  payload := by
    intro other found deleting _
    cases found
    exact sound.payload entry present deleting (by simp [pending])
  echoes := by
    intro echoes
    refine ⟨(sound.echoes echoes).1, fun other found => ?_⟩
    cases found
    intro conflicted
    rcases sound.storing status storing with acknowledged | rejected
    · rw [acknowledged] at conflicted
      cases conflicted
    · rw [rejected] at conflicted
      cases conflicted
  storing := fun _ storing => by cases storing
  batched := by
    intro other member known found
    cases found
    exact { sound.batched other member entry present with }

end View

end Ebb.Sync
