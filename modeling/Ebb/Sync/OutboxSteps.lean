import Ebb.Sync.OutboxViews

namespace Ebb.Sync

/-! What each event does to the views of the outbox, and the condition under
which it keeps them sound. -/

/-! ## Memory -/

theorem entryOf_cons (head : OutboxEntry V C) (rest : List (OutboxEntry V C))
    (actionId : String) :
    entryOf (head :: rest) actionId =
      if head.id = actionId then some head else entryOf rest actionId := by
  rw [entryOf, List.find?_cons]
  by_cases found : head.id = actionId
  · rw [if_pos found, found, beq_self_eq_true]
  · rw [if_neg found, beq_eq_false_iff_ne.mpr found]
    rfl

theorem entryOf_append (entries : List (OutboxEntry V C)) (entry : OutboxEntry V C)
    (actionId : String) :
    entryOf (entries ++ [entry]) actionId =
      (entryOf entries actionId).or (if entry.id = actionId then some entry else none) := by
  rw [entryOf, List.find?_append]
  congr 1
  exact entryOf_cons entry [] actionId

theorem entryOf_removeEntry (removed : String) (entries : List (OutboxEntry V C))
    (actionId : String) :
    entryOf (removeEntry removed entries) actionId =
      if actionId = removed then none else entryOf entries actionId := by
  induction entries with
  | nil => simp [removeEntry, entryOf]
  | cons head rest induction =>
      simp only [removeEntry] at induction ⊢
      by_cases gone : head.id = removed
      · rw [List.filter_cons_of_neg (by simp [gone]), induction, entryOf_cons]
        by_cases same : actionId = removed
        · rw [if_pos same, if_pos same]
        · have different : ¬ head.id = actionId := fun equal => same (equal.symm.trans gone)
          rw [if_neg same, if_neg same, if_neg different]
      · rw [List.filter_cons_of_pos (by simp [gone]), entryOf_cons, entryOf_cons, induction]
        by_cases found : head.id = actionId
        · have kept : ¬ actionId = removed := fun equal => gone (found.trans equal)
          rw [if_pos found, if_neg kept, if_pos found]
        · rw [if_neg found, if_neg found]

variable {change : OutboxEntry V C → OutboxEntry V C}

theorem entryOf_updateEntry {updated : String} (keepsId : ∀ entry, (change entry).id = entry.id)
    (entries : List (OutboxEntry V C)) (actionId : String) :
    entryOf (updateEntry updated change entries) actionId =
      if actionId = updated then (entryOf entries actionId).map change
      else entryOf entries actionId := by
  induction entries with
  | nil => simp [updateEntry, entryOf]
  | cons head rest induction =>
      simp only [updateEntry] at induction ⊢
      rw [List.map_cons, entryOf_cons, entryOf_cons, induction]
      by_cases found : head.id = actionId
      · subst found
        by_cases changed : head.id = updated
        · simp [changed, keepsId]
        · simp [changed]
      · have different : ¬ (if head.id = updated then change head else head).id = actionId := by
          split
          · rw [keepsId]
            exact found
          · exact found
        rw [if_neg different, if_neg found]

theorem ids_updateEntry {updated : String} (keepsId : ∀ entry, (change entry).id = entry.id)
    (entries : List (OutboxEntry V C)) :
    (updateEntry updated change entries).map OutboxEntry.id = entries.map OutboxEntry.id := by
  simp only [updateEntry, List.map_map]
  apply List.map_congr_left
  intro entry _
  simp only [Function.comp_apply]
  split
  · exact keepsId entry
  · rfl

theorem entryOf_eq_some_iff {entries : List (OutboxEntry V C)}
    (nodup : (entries.map OutboxEntry.id).Nodup) {actionId : String}
    {entry : OutboxEntry V C} :
    entryOf entries actionId = some entry ↔ entry ∈ entries ∧ entry.id = actionId := by
  constructor
  · intro found
    exact ⟨List.mem_of_find?_eq_some found, by simpa using List.find?_some found⟩
  · rintro ⟨member, rfl⟩
    cases found : entryOf entries entry.id with
    | none =>
        have missing := List.find?_eq_none.mp found entry member
        simp at missing
    | some other =>
        have otherMember := List.mem_of_find?_eq_some found
        have otherId : other.id = entry.id := by simpa using List.find?_some found
        rw [List.inj_on_of_nodup_map nodup otherMember member otherId]

theorem entryOf_eq_none_iff {entries : List (OutboxEntry V C)} {actionId : String} :
    entryOf entries actionId = none ↔ actionId ∉ entries.map OutboxEntry.id := by
  simp [entryOf]

theorem entryIn_eq_some {statuses : List OutboxStatus} {entries : List (OutboxEntry V C)}
    (nodup : (entries.map OutboxEntry.id).Nodup) {actionId : String}
    {entry : OutboxEntry V C} (found : entryIn statuses entries actionId = some entry) :
    entryOf entries actionId = some entry ∧ entry.status ∈ statuses := by
  have member := List.mem_of_find?_eq_some found
  have matched := List.find?_some found
  simp only [Bool.and_eq_true, beq_iff_eq, decide_eq_true_eq] at matched
  exact ⟨(entryOf_eq_some_iff nodup).mpr ⟨member, matched.1⟩, matched.2⟩

theorem Call.deletes_of_echoes {begun : Call V C} {actionId : String}
    (echoes : begun.echoes actionId = true) : begun.deletes actionId = true := by
  cases begun with
  | matching matched => exact echoes
  | _ => cases echoes

namespace Outbox

/-! ## Calls and views -/

variable {outbox : Outbox V C} {call : Nat} {begun : Call V C}
  {rows : OrderedMap String (OutboxEntry V C)} {next : Outbox V C} {actionId : String}
  {entry : OutboxEntry V C} {action : Action V} {enqueuedAtHlc : HLCTimestamp}
  {entries : List (OutboxEntry V C)}

theorem view_begin (free : outbox.calls.get? call = none) (begun : Call V C)
    (rows : OrderedMap String (OutboxEntry V C)) (actionId : String) :
    ({ outbox with rows, calls := outbox.calls.set call begun } : Outbox V C).view actionId =
      { outbox.view actionId with
        row := rows.get? actionId
        deleting := outbox.deleting actionId || begun.deletes actionId
        echoing := outbox.echoing actionId || begun.echoes actionId
        retrying := outbox.retrying actionId || begun.retries actionId
        inserting := outbox.inserting actionId ++ (begun.inserts actionId).toList } := by
  have inserted : List.filterMap (fun call : Nat × Call V C => call.2.inserts actionId)
      [(call, begun)] = (begun.inserts actionId).toList := by
    cases inserts : begun.inserts actionId with
    | none => simp [inserts]
    | some entry => simp [inserts]
  simp [view, deleting, echoing, retrying, inserting, storing, batched,
    OrderedMap.entries_set_of_absent free, inserted]

theorem exists_view_finish (found : outbox.calls.get? call = some begun) (actionId : String) :
    ∃ deleting echoing retrying, ∃ before after : List (OutboxEntry V C),
      outbox.deleting actionId = (deleting || begun.deletes actionId) ∧
      outbox.echoing actionId = (echoing || begun.echoes actionId) ∧
      outbox.retrying actionId = (retrying || begun.retries actionId) ∧
      outbox.inserting actionId = before ++ (begun.inserts actionId).toList ++ after ∧
      (echoing = true → deleting = true) ∧
      ∀ entries, ({ outbox with entries, calls := outbox.calls.erase call } :
          Outbox V C).view actionId =
        { outbox.view actionId with
          entry := entryOf entries actionId
          deleting, echoing, retrying, inserting := before ++ after } := by
  rcases OrderedMap.exists_split found with ⟨before, after, split, erased, _⟩
  refine ⟨(before ++ after).any fun call => call.2.deletes actionId,
    (before ++ after).any fun call => call.2.echoes actionId,
    (before ++ after).any fun call => call.2.retries actionId,
    before.filterMap fun call => call.2.inserts actionId,
    after.filterMap fun call => call.2.inserts actionId, ?_, ?_, ?_, ?_, ?_, ?_⟩
  · simp only [deleting, split, List.any_append, List.any_cons]
    ac_rfl
  · simp only [echoing, split, List.any_append, List.any_cons]
    ac_rfl
  · simp only [retrying, split, List.any_append, List.any_cons]
    ac_rfl
  · simp only [inserting, split, List.filterMap_append, List.filterMap_cons]
    cases begun.inserts actionId with
    | none => simp
    | some entry => simp
  · intro echoed
    rcases List.any_eq_true.mp echoed with ⟨other, member, echoes⟩
    exact List.any_eq_true.mpr ⟨other, member, Call.deletes_of_echoes echoes⟩
  · intro entries
    simp [view, deleting, echoing, retrying, inserting, storing, batched, erased]

/-- The batch a view has while the flush holds `batch`. -/
def batchOf (batch : List (OutboxEntry V C)) (actionId : String) : List (OutboxEntry V C) :=
  batch.filter fun entry => entry.id = actionId

theorem view_flush (outbox : Outbox V C) (entries : List (OutboxEntry V C))
    (rows : OrderedMap String (OutboxEntry V C)) (inFlight : Option (Flush V C))
    (actionId : String) :
    ({ outbox with entries, rows, inFlight } : Outbox V C).view actionId =
      { outbox.view actionId with
        entry := entryOf entries actionId
        row := rows.get? actionId
        storing := inFlight.bind (Flush.storedStatus actionId)
        batched := batchOf (inFlight.elim [] Flush.batch) actionId } := rfl

/-! ## Sound outboxes -/

structure Sound (outbox : Outbox V C) : Prop where
  nodup : (outbox.entries.map OutboxEntry.id).Nodup
  views : ∀ actionId, (outbox.view actionId).Sound

/-- An id that memory, the store and every call in progress are free of. -/
def Unknown (outbox : Outbox V C) (actionId : String) : Bool :=
  let view := outbox.view actionId
  view.entry.isNone && view.row.isNone && !view.deleting && !view.echoing && !view.retrying &&
    view.inserting.isEmpty && view.storing.isNone && view.batched.isEmpty

/-- The step does not run into a call in progress: a new Action has an unknown
id; no row is written while a deletion of it waits, except by a flush that comes
back to find the entry removed; and a retry goes on only where its status still
stands in the row. -/
def InOrder (outbox : Outbox V C) : Event V C → Bool
  | .enqueue _ action _ _ => outbox.Unknown action.id
  | .retryConflicted _ originalId action _ _ =>
      (entryIn [.conflicted] outbox.entries originalId).isNone || outbox.Unknown action.id
  | .resumeFlush =>
      match outbox.inFlight with
      | some (.storing entry _ _ _) => (outbox.view entry.id).FlushSettled
      | _ => true
  | .retry _ actionId =>
      (entryIn [.error] outbox.entries actionId).isNone || !outbox.deleting actionId
  | .resume call =>
      match outbox.calls.get? call with
      | some (.retrying actionId) => (outbox.view actionId).RetrySettled
      | some (.detecting ((actionId, _) :: _)) =>
          (entryOf outbox.entries actionId).isNone || !outbox.deleting actionId
      | _ => true
  | _ => true

theorem begin_eq_some (started : outbox.begin call begun rows = some next) :
    outbox.calls.get? call = none ∧
      next = { outbox with rows, calls := outbox.calls.set call begun } := by
  rw [begin] at started
  split at started
  · cases started
  · next free =>
      refine ⟨?_, (Option.some.inj started).symm⟩
      simpa [OrderedMap.contains] using free

/-! ### Starting a call -/

theorem view_begin_other (free : outbox.calls.get? call = none) (begun : Call V C)
    (row : rows.get? actionId = outbox.rows.get? actionId)
    (deletes : begun.deletes actionId = false) (echoes : begun.echoes actionId = false)
    (retries : begun.retries actionId = false) (inserts : begun.inserts actionId = none) :
    ({ outbox with rows, calls := outbox.calls.set call begun } : Outbox V C).view actionId =
      outbox.view actionId := by
  rw [view_begin free, row, deletes, echoes, retries, inserts]
  simp [view]

theorem Sound.beginDelete (sound : outbox.Sound)
    (present : entryOf outbox.entries actionId = some entry)
    (deletes : ∀ other, begun.deletes other = (actionId == other))
    (echoes : ∀ other, begun.echoes other = true → other = actionId)
    (held : begun.echoes actionId = true → entry.status ≠ .conflicted)
    (retries : ∀ other, begun.retries other = false) (inserts : ∀ other, begun.inserts other = none)
    (started : outbox.begin call begun (outbox.rows.erase actionId) = some next) :
    next.Sound := by
  rcases begin_eq_some started with ⟨free, rfl⟩
  refine ⟨sound.nodup, fun other => ?_⟩
  by_cases same : other = actionId
  · subst same
    have deleted := (sound.views other).delete present (begun.echoes other) held
    rw [view_begin free, OrderedMap.get?_erase, if_pos rfl, deletes, retries, inserts]
    simpa [view] using deleted
  · have notEchoes : begun.echoes other = false :=
      Bool.eq_false_iff.mpr fun echoed => same (echoes other echoed)
    have different : (actionId == other) = false :=
      beq_eq_false_iff_ne.mpr fun equal => same equal.symm
    rw [view_begin_other free begun (by rw [OrderedMap.get?_erase, if_neg same])
      ((deletes other).trans different) notEchoes (retries other) (inserts other)]
    exact sound.views other

theorem Sound.clear (sound : outbox.Sound) {status : OutboxStatus}
    (stepped : outbox.clear status call actionId = some next) : next.Sound := by
  rw [Outbox.clear] at stepped
  cases found : entryIn [status] outbox.entries actionId with
  | none =>
      rw [found] at stepped
      exact Option.some.inj stepped ▸ sound
  | some entry =>
      rw [found] at stepped
      exact sound.beginDelete (entryIn_eq_some sound.nodup found).1 (fun _ => rfl)
        (fun _ echoed => by cases echoed) (fun echoed => by cases echoed) (fun _ => rfl)
        (fun _ => rfl) stepped

theorem Sound.matchEcho (sound : outbox.Sound)
    (stepped : outbox.step (.matchEcho call action) = some next) :
    next.Sound := by
  rw [step] at stepped
  split at stepped
  · exact Option.some.inj stepped ▸ sound
  · cases found : entryIn [.pending, .acknowledged] outbox.entries action.id with
    | none =>
        rw [found] at stepped
        exact Option.some.inj stepped ▸ sound
    | some entry =>
        rw [found] at stepped
        rcases entryIn_eq_some sound.nodup found with ⟨present, status⟩
        have notConflicted : entry.status ≠ .conflicted := by
          intro conflicted
          rw [conflicted] at status
          simp at status
        exact sound.beginDelete present (fun _ => rfl)
          (fun other echoed => (beq_iff_eq.mp echoed).symm) (fun _ => notConflicted)
          (fun _ => rfl) (fun _ => rfl) stepped

theorem Sound.retry (sound : outbox.Sound) (inOrder : outbox.InOrder (.retry call actionId) = true)
    (stepped : outbox.step (.retry call actionId) = some next) : next.Sound := by
  rw [step] at stepped
  cases found : entryIn [.error] outbox.entries actionId with
  | none =>
      rw [found] at stepped
      exact Option.some.inj stepped ▸ sound
  | some entry =>
      rw [found] at stepped
      rcases entryIn_eq_some sound.nodup found with ⟨present, status⟩
      have rejected : entry.status = .error := List.mem_singleton.mp status
      have notDeleting : outbox.deleting actionId = false := by
        simpa [InOrder, found] using inOrder
      rcases begin_eq_some stepped with ⟨free, rfl⟩
      refine ⟨sound.nodup, fun other => ?_⟩
      by_cases same : other = actionId
      · subst same
        have retried := (sound.views other).retry present rejected notDeleting
        rw [view_begin free, OrderedMap.get?_set_self]
        simpa [view, Call.deletes, Call.echoes, Call.retries, Call.inserts] using retried
      · have different : (actionId == other) = false :=
          beq_eq_false_iff_ne.mpr fun equal => same equal.symm
        rw [view_begin_other free (.retrying actionId) (OrderedMap.get?_set_of_ne _ same _) rfl
          rfl different rfl]
        exact sound.views other

theorem view_of_unknown (unknown : outbox.Unknown actionId = true) :
    outbox.view actionId = {
      entry := none, row := none, deleting := false, echoing := false, retrying := false
      inserting := [], storing := none, batched := [] } := by
  simp only [Unknown, Bool.and_eq_true, Bool.not_eq_true', Option.isNone_iff_eq_none,
    List.isEmpty_iff] at unknown
  rcases unknown with ⟨⟨⟨⟨⟨⟨⟨entry, row⟩, deleting⟩, echoing⟩, retrying⟩, inserting⟩, storing⟩,
    batched⟩
  cases view : outbox.view actionId
  simp_all

theorem sound_view_inserted (unknown : outbox.Unknown actionId = true)
    (free : outbox.calls.get? call = none) (payload : entry.conflict = none)
    (row : rows.get? actionId = some entry) (deletes : begun.deletes actionId = false)
    (echoes : begun.echoes actionId = false) (retries : begun.retries actionId = false)
    (inserts : begun.inserts actionId = some entry) :
    (({ outbox with rows, calls := outbox.calls.set call begun } : Outbox V C).view
      actionId).Sound := by
  have before := view_of_unknown unknown
  simp only [view, View.mk.injEq] at before
  rcases before with ⟨entryNone, _, deleting, echoing, retrying, inserting, storing, batched⟩
  rw [view_begin free, row, deletes, echoes, retries, inserts]
  simp only [view, entryNone, deleting, echoing, retrying, inserting, storing, batched]
  exact View.Sound.insert payload

theorem Sound.enqueue (sound : outbox.Sound) {basedOnGsn : Nat}
    (inOrder : outbox.InOrder (.enqueue call action enqueuedAtHlc basedOnGsn) = true)
    (stepped : outbox.step (.enqueue call action enqueuedAtHlc basedOnGsn) = some next) :
    next.Sound := by
  rcases begin_eq_some stepped with ⟨free, rfl⟩
  refine ⟨sound.nodup, fun other => ?_⟩
  by_cases same : other = action.id
  · subst same
    exact sound_view_inserted inOrder free rfl (OrderedMap.get?_set_self _ _ _) rfl rfl rfl
      (if_pos rfl)
  · have different : ¬ action.id = other := fun equal => same equal.symm
    rw [view_begin_other free (.enqueuing (newEntry action enqueuedAtHlc basedOnGsn))
      (OrderedMap.get?_set_of_ne _ same _) rfl rfl rfl (if_neg different)]
    exact sound.views other

theorem Sound.retryConflicted (sound : outbox.Sound) {originalId : String} {basedOnGsn : Nat}
    (inOrder : outbox.InOrder (.retryConflicted call originalId action enqueuedAtHlc basedOnGsn) =
      true)
    (stepped : outbox.step (.retryConflicted call originalId action enqueuedAtHlc basedOnGsn) =
      some next) :
    next.Sound := by
  rw [step] at stepped
  cases found : entryIn [.conflicted] outbox.entries originalId with
  | none =>
      rw [found] at stepped
      exact Option.some.inj stepped ▸ sound
  | some original =>
      rw [found] at stepped
      have present := (entryIn_eq_some sound.nodup found).1
      have unknown : outbox.Unknown action.id = true := by
        simpa [InOrder, found] using inOrder
      have absent : entryOf outbox.entries action.id = none :=
        congrArg View.entry (view_of_unknown unknown)
      have apart : originalId ≠ action.id := by
        intro equal
        rw [equal, absent] at present
        cases present
      rcases begin_eq_some stepped with ⟨free, rfl⟩
      refine ⟨sound.nodup, fun other => ?_⟩
      by_cases inserted : other = action.id
      · subst inserted
        exact sound_view_inserted unknown free rfl (OrderedMap.get?_set_self _ _ _)
          (beq_eq_false_iff_ne.mpr apart) rfl rfl (if_pos rfl)
      · have notInserted : ¬ action.id = other := fun equal => inserted equal.symm
        by_cases deleted : other = originalId
        · subst deleted
          have gone := (sound.views other).delete present false (fun echoed => by cases echoed)
          rw [view_begin free, OrderedMap.get?_set_of_ne _ inserted, OrderedMap.get?_erase,
            if_pos rfl]
          simpa [view, Call.deletes, Call.echoes, Call.retries, Call.inserts, newEntry,
            OutboxEntry.id, notInserted] using gone
        · have notDeleted : (originalId == other) = false :=
            beq_eq_false_iff_ne.mpr fun equal => deleted equal.symm
          rw [view_begin_other free
            (.replacing originalId (newEntry action enqueuedAtHlc basedOnGsn))
            (by rw [OrderedMap.get?_set_of_ne _ inserted, OrderedMap.get?_erase, if_neg deleted])
            notDeleted rfl rfl (if_neg notInserted)]
          exact sound.views other

/-! ### The flush -/

theorem sound_storeNext (nodup : (outbox.entries.map OutboxEntry.id).Nodup) (rejected : List String)
    {batch : List (OutboxEntry V C)}
    (views : ∀ actionId, ({ outbox.view actionId with
        storing := none
        batched := batchOf batch actionId } : View V C).Sound) :
    (outbox.storeNext rejected batch).Sound := by
  induction batch with
  | nil => exact ⟨nodup, views⟩
  | cons entry rest induction =>
      have skipped : ∀ actionId, ({ outbox.view actionId with
          storing := none, batched := batchOf rest actionId } : View V C).Sound := fun actionId =>
        (views actionId).shrinkBatch fun other member =>
          List.mem_filter.mpr ⟨List.mem_cons_of_mem _ (List.mem_filter.mp member).1,
            (List.mem_filter.mp member).2⟩
      cases found : entryOf outbox.entries entry.id with
      | none =>
          simp only [storeNext, found]
          exact induction skipped
      | some before =>
          by_cases pending : before.status = .pending
          · simp only [storeNext, found, pending, if_true]
            refine ⟨nodup, fun other => ?_⟩
            by_cases same : other = entry.id
            · subst same
              have outcome : statusFor rejected entry = .acknowledged ∨
                  statusFor rejected entry = .error := by
                rw [statusFor]
                split
                · exact .inr rfl
                · exact .inl rfl
              have member : entry ∈ batchOf (entry :: rest) entry.id := by simp [batchOf]
              have stored := (views entry.id).store found pending member outcome
              rw [view_flush, OrderedMap.get?_set_self]
              simpa [view, Flush.storedStatus, Flush.batch] using stored
            · have different : ¬ entry.id = other := fun equal => same equal.symm
              have before := views other
              rw [view_flush, OrderedMap.get?_set_of_ne _ same]
              simpa [view, Flush.storedStatus, Flush.batch, batchOf, different] using before
          · simp only [storeNext, found, pending, if_false]
            exact induction skipped

theorem Sound.flush (sound : outbox.Sound) : outbox.flush.Sound := by
  rw [Outbox.flush]
  cases idle : outbox.inFlight with
  | some _ => exact sound
  | none =>
      simp only
      split
      · exact sound
      · refine ⟨sound.nodup, fun actionId => ?_⟩
        rw [view_flush]
        have storing : (outbox.view actionId).storing = none := by
          simp [view, Outbox.storing, idle]
        have fromMemory : ∀ other ∈ batchOf
            (outbox.entries.filter fun entry => entry.status = .pending) actionId,
            (outbox.view actionId).entry = some other := by
          intro other member
          have inBatch := List.mem_filter.mp member
          have inMemory := (List.mem_filter.mp inBatch.1).1
          exact (entryOf_eq_some_iff sound.nodup).mpr ⟨inMemory, of_decide_eq_true inBatch.2⟩
        have started := (sound.views actionId).startBatch fromMemory
        rwa [storing] at started

theorem Sound.submitted (sound : outbox.Sound) {response : Option (List String)}
    (stepped : outbox.step (.submitted response) = some next) : next.Sound := by
  simp only [step] at stepped
  cases flying : outbox.inFlight with
  | none => simp [flying] at stepped
  | some flight =>
      cases flight with
      | storing entry status rest rejected => simp [flying] at stepped
      | repairing rest rejected => simp [flying] at stepped
      | submitting batch =>
          have storing : ∀ actionId, (outbox.view actionId).storing = none := by
            intro actionId
            simp [view, Outbox.storing, flying, Flush.storedStatus]
          cases response with
          | none =>
              simp only [flying, Option.some.injEq] at stepped
              rw [← stepped]
              refine ⟨sound.nodup, fun actionId => ?_⟩
              have emptied := (sound.views actionId).shrinkBatch (List.nil_subset _)
              rwa [storing] at emptied
          | some rejected =>
              simp only [flying, Option.some.injEq] at stepped
              rw [← stepped]
              apply sound_storeNext sound.nodup
              intro actionId
              have batched : (outbox.view actionId).batched = batchOf batch actionId := by
                simp [view, Outbox.batched, flying, Flush.batch, batchOf]
              rw [← storing actionId, ← batched]
              exact sound.views actionId

theorem Sound.resumeFlush (sound : outbox.Sound) (inOrder : outbox.InOrder .resumeFlush = true)
    (stepped : outbox.step .resumeFlush = some next) : next.Sound := by
  rw [step, Outbox.resumeFlush] at stepped
  split at stepped
  · next entry status rest rejected storing =>
      have settled : (outbox.view entry.id).FlushSettled = true := by
        simpa only [InOrder, storing] using inOrder
      have storingEntry : (outbox.view entry.id).storing = some status := by
        simp [view, Outbox.storing, storing, Flush.storedStatus]
      have storingOther : ∀ other, other ≠ entry.id → (outbox.view other).storing = none := by
        intro other different
        have apart : ¬ entry.id = other := fun equal => different equal.symm
        simp [view, Outbox.storing, storing, Flush.storedStatus, apart]
      have kept : ∀ other, batchOf rest other ⊆ (outbox.view other).batched := by
        intro other item member
        have parts := List.mem_filter.mp member
        simp only [view, Outbox.batched, storing, Option.elim_some, Flush.batch]
        exact List.mem_filter.mpr ⟨List.mem_cons_of_mem _ parts.1, parts.2⟩
      -- What is left of the batch, for an id the flush has written nothing under.
      have others : ∀ other, other ≠ entry.id → ({ outbox.view other with
          storing := none, batched := batchOf rest other } : View V C).Sound := by
        intro other different
        have shrunk := (sound.views other).shrinkBatch (kept other)
        rwa [storingOther other different] at shrunk
      split at stepped
      · next absent =>
          cases stepped
          refine ⟨sound.nodup, fun other => ?_⟩
          by_cases same : other = entry.id
          · subst same
            have gone := ((sound.views entry.id).redelete absent (by simp [storingEntry]))
            have shrunk := gone.shrinkBatch (kept entry.id)
            rw [view_flush, OrderedMap.get?_erase, if_pos rfl]
            exact shrunk
          · rw [view_flush, OrderedMap.get?_erase, if_neg same]
            exact others other same
      · next after present =>
          split at stepped
          · next pending =>
              cases stepped
              have keepsId : ∀ known : OutboxEntry V C, (withStatus status known).id = known.id :=
                fun _ => rfl
              apply sound_storeNext
              · rw [ids_updateEntry keepsId]
                exact sound.nodup
              · intro other
                by_cases same : other = entry.id
                · subst same
                  have moved := ((sound.views entry.id).settle settled present pending
                    storingEntry).shrinkBatch (kept entry.id)
                  rw [view_flush, entryOf_updateEntry keepsId, if_pos rfl, present]
                  exact moved
                · rw [view_flush, entryOf_updateEntry keepsId, if_neg same]
                  exact others other same
          · next notPending =>
              cases stepped
              refine ⟨sound.nodup, fun other => ?_⟩
              by_cases same : other = entry.id
              · subst same
                have restored := ((sound.views entry.id).restore settled present
                  notPending).shrinkBatch (kept entry.id)
                rw [view_flush, OrderedMap.get?_set_self]
                exact restored
              · rw [view_flush, OrderedMap.get?_set_of_ne _ same]
                exact others other same
  · next rest rejected repairing =>
      cases stepped
      apply sound_storeNext sound.nodup
      intro actionId
      have storing : (outbox.view actionId).storing = none := by
        simp [view, Outbox.storing, repairing, Flush.storedStatus]
      have batched : (outbox.view actionId).batched = batchOf rest actionId := by
        simp [view, Outbox.batched, repairing, Flush.batch, batchOf]
      rw [← storing, ← batched]
      exact sound.views actionId
  · cases stepped

/-! ### Going on after a store operation -/

theorem view_finish_other (found : outbox.calls.get? call = some begun)
    (deletes : begun.deletes actionId = false) (retries : begun.retries actionId = false)
    (inserts : begun.inserts actionId = none) (entries : List (OutboxEntry V C)) :
    ({ outbox with entries, calls := outbox.calls.erase call } : Outbox V C).view actionId =
      { outbox.view actionId with entry := entryOf entries actionId } := by
  have echoes : begun.echoes actionId = false := by
    cases echoed : begun.echoes actionId with
    | false => rfl
    | true =>
        rw [Call.deletes_of_echoes echoed] at deletes
        cases deletes
  rcases exists_view_finish found actionId with
    ⟨deleting, echoing, retrying, before, after, sameDeleting, sameEchoing, sameRetrying,
      sameInserting, _, finished⟩
  rw [deletes, Bool.or_false] at sameDeleting
  rw [echoes, Bool.or_false] at sameEchoing
  rw [retries, Bool.or_false] at sameRetrying
  simp only [inserts, Option.toList_none, List.append_nil] at sameInserting
  rw [finished, ← sameDeleting, ← sameEchoing, ← sameRetrying, ← sameInserting]
  rfl

theorem Sound.inserts (sound : outbox.Sound) (found : outbox.calls.get? call = some begun)
    (inserting : begun.inserts actionId = some entry) :
    (outbox.view actionId).Inserts entry := by
  rcases exists_view_finish found actionId with ⟨_, _, _, before, after, _, _, _, same, _⟩
  rw [inserting] at same
  rcases (sound.views actionId).inserting with none | ⟨other, inserts⟩
  · have empty : outbox.inserting actionId = [] := none
    rw [empty] at same
    simp at same
  · have single : outbox.inserting actionId = [other] := inserts.inserting
    rw [single] at same
    have equal : entry = other := by
      have member : entry ∈ [other] := by
        rw [same]
        simp
      exact List.mem_singleton.mp member
    rw [equal]
    exact inserts

theorem sound_view_append (sound : outbox.Sound) (found : outbox.calls.get? call = some begun)
    (inserting : begun.inserts actionId = some entry) (deletes : begun.deletes actionId = false)
    (retries : begun.retries actionId = false) (appended : entryOf entries actionId = some entry) :
    (({ outbox with entries, calls := outbox.calls.erase call } : Outbox V C).view
      actionId).Sound := by
  have inserts := sound.inserts found inserting
  have echoes : begun.echoes actionId = false := by
    cases echoed : begun.echoes actionId with
    | false => rfl
    | true =>
        rw [Call.deletes_of_echoes echoed] at deletes
        cases deletes
  rcases exists_view_finish found actionId with
    ⟨deleting, echoing, retrying, before, after, sameDeleting, sameEchoing, sameRetrying,
      sameInserting, _, finished⟩
  have nothingElse : before ++ after = [] := by
    have single : outbox.inserting actionId = [entry] := inserts.inserting
    rw [single, inserting] at sameInserting
    have lengths := congrArg List.length sameInserting
    simp only [Option.toList_some, List.length_append, List.length_singleton] at lengths
    apply List.eq_nil_of_length_eq_zero
    rw [List.length_append]
    omega
  rw [deletes, Bool.or_false] at sameDeleting
  rw [echoes, Bool.or_false] at sameEchoing
  rw [retries, Bool.or_false] at sameRetrying
  rw [finished, appended, nothingElse, ← sameDeleting, ← sameEchoing, ← sameRetrying]
  exact inserts.append (sound.views actionId)

theorem sound_view_remove (sound : outbox.Sound) (found : outbox.calls.get? call = some begun)
    (deletes : begun.deletes actionId = true) (retries : begun.retries actionId = false)
    (inserts : begun.inserts actionId = none) (removed : entryOf entries actionId = none) :
    (({ outbox with entries, calls := outbox.calls.erase call } : Outbox V C).view
      actionId).Sound := by
  rcases exists_view_finish found actionId with
    ⟨deleting, echoing, retrying, before, after, sameDeleting, sameEchoing, sameRetrying,
      sameInserting, echoes, finished⟩
  have wasDeleting : (outbox.view actionId).deleting = true := by
    rw [deletes, Bool.or_true] at sameDeleting
    exact sameDeleting
  rw [retries, Bool.or_false] at sameRetrying
  simp only [inserts, Option.toList_none, List.append_nil] at sameInserting
  rw [finished, removed, ← sameRetrying, ← sameInserting]
  exact (sound.views actionId).remove wasDeleting deleting echoing echoes

theorem Sound.finishRemove (sound : outbox.Sound) (found : outbox.calls.get? call = some begun)
    (deletes : ∀ other, begun.deletes other = (actionId == other))
    (retries : ∀ other, begun.retries other = false) (inserts : ∀ other, begun.inserts other = none)
    :
    ({ outbox with
      entries := removeEntry actionId outbox.entries
      calls := outbox.calls.erase call } : Outbox V C).Sound := by
  refine ⟨sound.nodup.sublist (List.filter_sublist.map _), fun other => ?_⟩
  by_cases same : other = actionId
  · subst same
    exact sound_view_remove sound found ((deletes other).trans (beq_self_eq_true other))
      (retries other) (inserts other) (by rw [entryOf_removeEntry, if_pos rfl])
  · have notDeleted : begun.deletes other = false :=
      (deletes other).trans (beq_eq_false_iff_ne.mpr fun equal => same equal.symm)
    rw [view_finish_other found notDeleted (retries other) (inserts other),
      entryOf_removeEntry, if_neg same]
    exact sound.views other

theorem nodup_append_entry (nodup : (entries.map OutboxEntry.id).Nodup)
    (absent : entryOf entries entry.id = none) :
    ((entries ++ [entry]).map OutboxEntry.id).Nodup := by
  rw [List.map_append, List.nodup_append]
  refine ⟨nodup, List.nodup_singleton _, ?_⟩
  intro left leftMember right rightMember
  rw [List.mem_singleton.mp rightMember]
  rintro rfl
  exact entryOf_eq_none_iff.mp absent leftMember

theorem Sound.finishEnqueue (sound : outbox.Sound)
    (found : outbox.calls.get? call = some (.enqueuing entry)) :
    ({ outbox with
      entries := outbox.entries ++ [entry]
      calls := outbox.calls.erase call } : Outbox V C).Sound := by
  have inserting : (Call.enqueuing entry : Call V C).inserts entry.id = some entry := if_pos rfl
  have absent : entryOf outbox.entries entry.id = none := (sound.inserts found inserting).entry
  refine ⟨nodup_append_entry sound.nodup absent, fun other => ?_⟩
  by_cases same : other = entry.id
  · subst same
    exact sound_view_append sound found inserting rfl rfl
      (by rw [entryOf_append, absent, if_pos rfl]; rfl)
  · have different : ¬ entry.id = other := fun equal => same equal.symm
    rw [view_finish_other found rfl rfl (if_neg different), entryOf_append, if_neg different,
      Option.or_none]
    exact sound.views other

theorem Sound.finishReplace (sound : outbox.Sound) {originalId : String}
    {replacement : OutboxEntry V C}
    (found : outbox.calls.get? call = some (.replacing originalId replacement)) :
    ({ outbox with
      entries := removeEntry originalId outbox.entries ++ [replacement]
      calls := outbox.calls.erase call } : Outbox V C).Sound := by
  have inserting : (Call.replacing originalId replacement : Call V C).inserts replacement.id =
      some replacement := if_pos rfl
  have inserts := sound.inserts found inserting
  have absent : entryOf outbox.entries replacement.id = none := inserts.entry
  have apart : (originalId == replacement.id) = false := by
    cases same : originalId == replacement.id with
    | false => rfl
    | true =>
        rcases exists_view_finish found replacement.id with
          ⟨_, _, _, _, _, sameDeleting, _⟩
        have deleting : outbox.deleting replacement.id = true := by
          rw [sameDeleting]
          exact (congrArg _ same).trans (Bool.or_true _)
        exact absurd (inserts.deleting.symm.trans deleting) Bool.false_ne_true
  have different : originalId ≠ replacement.id := beq_eq_false_iff_ne.mp apart
  have absentAfter : entryOf (removeEntry originalId outbox.entries) replacement.id = none := by
    rw [entryOf_removeEntry, if_neg different.symm, absent]
  refine ⟨nodup_append_entry (sound.nodup.sublist (List.filter_sublist.map _)) absentAfter,
    fun other => ?_⟩
  by_cases inserted : other = replacement.id
  · subst inserted
    exact sound_view_append sound found inserting apart rfl
      (by rw [entryOf_append, absentAfter, if_pos rfl]; rfl)
  · have notInserted : ¬ replacement.id = other := fun equal => inserted equal.symm
    have kept : entryOf (removeEntry originalId outbox.entries ++ [replacement]) other =
        if other = originalId then none else entryOf outbox.entries other := by
      rw [entryOf_append, if_neg notInserted, Option.or_none, entryOf_removeEntry]
    by_cases removed : other = originalId
    · subst removed
      exact sound_view_remove sound found (beq_self_eq_true other) rfl (if_neg notInserted)
        (by rw [kept, if_pos rfl])
    · have notRemoved : (originalId == other) = false :=
        beq_eq_false_iff_ne.mpr fun equal => removed equal.symm
      rw [view_finish_other found notRemoved rfl (if_neg notInserted), kept, if_neg removed]
      exact sound.views other

theorem Sound.finishRetry (sound : outbox.Sound)
    (found : outbox.calls.get? call = some (.retrying actionId))
    (settled : (outbox.view actionId).RetrySettled = true) :
    ({ outbox with
      entries := updateEntry actionId (withStatus .pending) outbox.entries
      calls := outbox.calls.erase call } : Outbox V C).Sound := by
  have keepsId : ∀ known : OutboxEntry V C, (withStatus .pending known).id = known.id :=
    fun _ => rfl
  refine ⟨by rw [ids_updateEntry keepsId]; exact sound.nodup, fun other => ?_⟩
  by_cases same : other = actionId
  · subst same
    rcases exists_view_finish found other with
      ⟨deleting, echoing, retrying, before, after, sameDeleting, sameEchoing, sameRetrying,
        sameInserting, _, finished⟩
    have retried := (sound.views other).retried settled retrying (by
      intro notRetrying
      have all : outbox.retrying other = false := notRetrying
      rw [all] at sameRetrying
      exact (Bool.or_eq_false_iff.mp sameRetrying.symm).1)
    simp only [Call.deletes, Bool.or_false] at sameDeleting
    simp only [Call.echoes, Bool.or_false] at sameEchoing
    simp only [Call.inserts, Option.toList_none, List.append_nil] at sameInserting
    rw [finished, entryOf_updateEntry keepsId, if_pos rfl, ← sameDeleting, ← sameEchoing,
      ← sameInserting]
    exact retried
  · have different : (actionId == other) = false :=
      beq_eq_false_iff_ne.mpr fun equal => same equal.symm
    rw [view_finish_other found rfl different rfl, entryOf_updateEntry keepsId, if_neg same]
    exact sound.views other

theorem view_detecting {outbox : Outbox V C} {call : Nat} {losers rest : List (String × C)}
    (found : outbox.calls.get? call = some (.detecting losers)) (actionId : String) :
    ({ outbox with calls := outbox.calls.set call (.detecting rest) } : Outbox V C).view
      actionId = outbox.view actionId := by
  rcases OrderedMap.exists_split found with ⟨before, after, split, _, written⟩
  simp [view, deleting, echoing, retrying, inserting, storing, batched, written, split,
    Call.deletes, Call.echoes, Call.retries, Call.inserts]

theorem Sound.markConflicted (sound : outbox.Sound)
    (inOrder : (entryOf outbox.entries actionId).isNone = true ∨ outbox.deleting actionId = false)
    (conflict : C) :
    (outbox.markConflicted actionId conflict).Sound := by
  cases found : entryOf outbox.entries actionId with
  | none =>
      rw [Outbox.markConflicted, found]
      exact sound
  | some entry =>
      have notDeleting : outbox.deleting actionId = false :=
        inOrder.resolve_left (by simp [found])
      have keepsId : ∀ known : OutboxEntry V C, (asConflicted conflict known).id = known.id :=
        fun _ => rfl
      rw [Outbox.markConflicted, found]
      refine ⟨by rw [ids_updateEntry keepsId]; exact sound.nodup, fun other => ?_⟩
      by_cases same : other = actionId
      · subst same
        have marked := (sound.views other).mark found notDeleting conflict
        rw [view_flush outbox _ _ outbox.inFlight, entryOf_updateEntry keepsId, if_pos rfl, found,
          OrderedMap.get?_set_self]
        exact marked
      · rw [view_flush outbox _ _ outbox.inFlight, entryOf_updateEntry keepsId, if_neg same,
          OrderedMap.get?_set_of_ne _ same]
        exact sound.views other

theorem Sound.detectConflicts (sound : outbox.Sound) {losers : List (String × C)}
    (stepped : outbox.step (.detectConflicts call losers) = some next) : next.Sound := by
  simp only [step] at stepped
  split at stepped
  · split at stepped
    · exact Option.some.inj stepped ▸ sound
    · rcases begin_eq_some stepped with ⟨free, rfl⟩
      refine ⟨sound.nodup, fun other => ?_⟩
      rw [view_begin_other free (.detecting losers) rfl rfl rfl rfl rfl]
      exact sound.views other
  · cases stepped

theorem Sound.resume (sound : outbox.Sound) (inOrder : outbox.InOrder (.resume call) = true)
    (stepped : outbox.step (.resume call) = some next) : next.Sound := by
  simp only [step, Outbox.resume] at stepped
  simp only [InOrder] at inOrder
  cases found : outbox.calls.get? call with
  | none => simp [found] at stepped
  | some begun =>
      rw [found] at stepped inOrder
      cases begun with
      | enqueuing entry => exact Option.some.inj stepped ▸ sound.finishEnqueue found
      | replacing originalId replacement =>
          exact Option.some.inj stepped ▸ sound.finishReplace found
      | retrying actionId => exact Option.some.inj stepped ▸ sound.finishRetry found inOrder
      | clearing actionId =>
          exact Option.some.inj stepped ▸
            sound.finishRemove found (fun _ => rfl) (fun _ => rfl) (fun _ => rfl)
      | matching actionId =>
          exact Option.some.inj stepped ▸
            sound.finishRemove found (fun _ => rfl) (fun _ => rfl) (fun _ => rfl)
      | detecting losers =>
          cases losers with
          | nil =>
              rw [← Option.some.inj stepped]
              refine ⟨sound.nodup, fun other => ?_⟩
              rw [view_finish_other found rfl rfl rfl]
              exact sound.views other
          | cons loser rest =>
              rcases loser with ⟨actionId, conflict⟩
              rw [← Option.some.inj stepped]
              have moved : ({ outbox with
                  calls := outbox.calls.set call (.detecting rest) } : Outbox V C).Sound :=
                ⟨sound.nodup, fun other => by
                  rw [view_detecting found]
                  exact sound.views other⟩
              apply moved.markConflicted
              rcases Bool.or_eq_true_iff.mp inOrder with absent | notDeleting
              · exact .inl absent
              · have sameDeleting :=
                  congrArg View.deleting (@view_detecting V C outbox call _ rest found actionId)
                have before : outbox.deleting actionId = false := by simpa using notDeleting
                exact .inr (sameDeleting.trans before)

theorem Sound.step (sound : outbox.Sound) {event : Event V C}
    (inOrder : outbox.InOrder event = true) (stepped : outbox.step event = some next) :
    next.Sound := by
  cases event with
  | enqueue call action enqueuedAtHlc basedOnGsn => exact sound.enqueue inOrder stepped
  | retryConflicted call originalId action enqueuedAtHlc basedOnGsn =>
      exact sound.retryConflicted inOrder stepped
  | flush => exact Option.some.inj stepped ▸ sound.flush
  | submitted response => exact sound.submitted stepped
  | resumeFlush => exact sound.resumeFlush inOrder stepped
  | retry call actionId => exact sound.retry inOrder stepped
  | clearError call actionId => exact sound.clear stepped
  | clearConflict call actionId => exact sound.clear stepped
  | matchEcho call action => exact sound.matchEcho stepped
  | detectConflicts call losers => exact sound.detectConflicts stepped
  | resume call => exact sound.resume inOrder stepped

end Outbox

end Ebb.Sync
