import Ebb.Sync.OutboxSteps

namespace Ebb.Sync

/-! Runs of the outbox: memory against the stored rows, and the ways an Action
enters and leaves the buffer. -/

/-! ## What a step changes -/

/-- The event asks to remove an entry: an echo of it, a clear, or a retry that
replaces it. -/
def Event.retires (actionId : String) : Event V C → Bool
  | .retryConflicted _ originalId _ _ _ => originalId == actionId
  | .clearError _ cleared => cleared == actionId
  | .clearConflict _ cleared => cleared == actionId
  | .matchEcho _ action => action.id == actionId && decide (action.gsn ≠ 0)
  | _ => false

def Event.adds (actionId : String) : Event V C → Bool
  | .enqueue _ action _ _ => action.id == actionId
  | .retryConflicted _ _ action _ _ => action.id == actionId
  | _ => false

def Call.finish (entries : List (OutboxEntry V C)) : Call V C → List (OutboxEntry V C)
  | .enqueuing entry => entries ++ [entry]
  | .replacing originalId next => removeEntry originalId entries ++ [next]
  | .retrying actionId => updateEntry actionId (withStatus .pending) entries
  | .clearing actionId => removeEntry actionId entries
  | .matching actionId => removeEntry actionId entries
  | .detecting _ => entries

namespace Outbox

def ids (outbox : Outbox V C) : List String := outbox.entries.map OutboxEntry.id

inductive StepCase (outbox : Outbox V C) (event : Event V C) (next : Outbox V C) : Prop
  | started {call : Nat} {begun : Call V C} {rows : OrderedMap String (OutboxEntry V C)}
      (free : outbox.calls.get? call = none)
      (changed : next = { outbox with rows, calls := outbox.calls.set call begun })
      (retires : ∀ actionId, begun.deletes actionId = true → event.retires actionId = true)
      (adds : ∀ actionId, begun.inserts actionId ≠ none → event.adds actionId = true)
      (inserts : ∀ call action enqueuedAtHlc basedOnGsn,
        event = .enqueue call action enqueuedAtHlc basedOnGsn → begun.inserts action.id ≠ none)
  | flushed (ids : next.ids = outbox.ids) (calls : next.calls = outbox.calls)
      (held : ∀ entry ∈ outbox.entries, entry.status = .conflicted → entry ∈ next.entries)
      (silent : ∀ call action enqueuedAtHlc basedOnGsn,
        event ≠ .enqueue call action enqueuedAtHlc basedOnGsn)
  | finished {call : Nat} {begun : Call V C} (resumed : event = .resume call)
      (found : outbox.calls.get? call = some begun)
      (changed : next = { outbox with
        entries := begun.finish outbox.entries, calls := outbox.calls.erase call })
  | marked {call : Nat} {losers rest : List (String × C)} (resumed : event = .resume call)
      (found : outbox.calls.get? call = some (.detecting losers)) (ids : next.ids = outbox.ids)
      (calls : next.calls = outbox.calls.set call (.detecting rest))

variable {event : Event V C} {outbox next : Outbox V C} {actionId : String}
  {entries : List (OutboxEntry V C)}

theorem StepCase.unchanged (outbox : Outbox V C)
    (silent : ∀ call action enqueuedAtHlc basedOnGsn,
      event ≠ .enqueue call action enqueuedAtHlc basedOnGsn)
    : StepCase outbox event outbox :=
  .flushed rfl rfl (fun _ member _ => member) silent

theorem storeNext_memory (outbox : Outbox V C) (rejected : List String)
    (batch : List (OutboxEntry V C)) :
    (outbox.storeNext rejected batch).entries = outbox.entries ∧
      (outbox.storeNext rejected batch).calls = outbox.calls := by
  induction batch with
  | nil => exact ⟨rfl, rfl⟩
  | cons entry rest induction =>
      simp only [storeNext]
      repeat' split
      · exact induction
      · exact ⟨rfl, rfl⟩
      · exact induction

theorem StepCase.ofClear {status : OutboxStatus} {call : Nat}
    (retires : ∀ other, (actionId == other) = true → event.retires other = true)
    (silent : ∀ call action enqueuedAtHlc basedOnGsn,
      event ≠ .enqueue call action enqueuedAtHlc basedOnGsn)
    (stepped : outbox.clear status call actionId = some next) : StepCase outbox event next := by
  rw [clear] at stepped
  split at stepped
  · exact Option.some.inj stepped ▸ StepCase.unchanged outbox silent
  · rcases begin_eq_some stepped with ⟨free, changed⟩
    exact .started free changed retires (fun _ inserts => absurd rfl inserts)
      fun _ _ _ _ same => absurd same (silent _ _ _ _)

theorem mem_updateEntry_of_ne {updated : String} {change : OutboxEntry V C → OutboxEntry V C}
    {entry : OutboxEntry V C} (member : entry ∈ entries) (different : entry.id ≠ updated)
    : entry ∈ updateEntry updated change entries :=
  List.mem_map.mpr ⟨entry, member, if_neg different⟩

theorem StepCase.ofResumeFlush (nodup : (outbox.entries.map OutboxEntry.id).Nodup)
    (stepped : outbox.resumeFlush = some next) : StepCase outbox .resumeFlush next := by
  have silent : ∀ call action enqueuedAtHlc basedOnGsn, (.resumeFlush : Event V C) ≠
      .enqueue call action enqueuedAtHlc basedOnGsn := by
    intro _ _ _ _ same
    cases same
  rw [resumeFlush] at stepped
  split at stepped
  · next entry status rest rejected storing =>
      split at stepped
      · cases stepped
        exact .flushed rfl rfl (fun _ member _ => member) silent
      · next after present =>
          split at stepped
          · next pending =>
              cases stepped
              have memory := storeNext_memory ({ outbox with
                entries := updateEntry entry.id (withStatus status) outbox.entries } :
                  Outbox V C) rejected rest
              have keepsId : ∀ known : OutboxEntry V C, (withStatus status known).id = known.id :=
                fun _ => rfl
              refine .flushed ?_ memory.2 ?_ silent
              · rw [ids, memory.1]
                exact ids_updateEntry keepsId outbox.entries
              · intro held member conflicted
                rw [memory.1]
                apply mem_updateEntry_of_ne member
                intro same
                have found := (entryOf_eq_some_iff nodup).mpr ⟨member, same⟩
                rw [present] at found
                cases found
                rw [pending] at conflicted
                cases conflicted
          · cases stepped
            exact .flushed rfl rfl (fun _ member _ => member) silent
  · next rest rejected repairing =>
      cases stepped
      have memory := storeNext_memory outbox rejected rest
      exact .flushed (by rw [ids, memory.1]; rfl) memory.2
        (fun _ member _ => memory.1.symm ▸ member) silent
  · cases stepped

theorem step_cases (sound : outbox.Sound) (stepped : outbox.step event = some next)
    : StepCase outbox event next := by
  cases event with
  | enqueue call action enqueuedAtHlc basedOnGsn =>
      rcases begin_eq_some stepped with ⟨free, changed⟩
      refine .started free changed (fun _ deletes => by cases deletes) ?_ ?_
      · intro actionId inserts
        simp only [Call.inserts, ne_eq, ite_eq_right_iff, Classical.not_imp] at inserts
        exact beq_iff_eq.mpr inserts.1
      · intro _ other _ _ same
        cases same
        simp [Call.inserts, newEntry, OutboxEntry.id]
  | retryConflicted call originalId action enqueuedAtHlc basedOnGsn =>
      simp only [step] at stepped
      split at stepped
      · cases stepped
        exact StepCase.unchanged outbox fun _ _ _ _ same => by cases same
      · rcases begin_eq_some stepped with ⟨free, changed⟩
        refine .started free changed (fun _ deletes => deletes) ?_ fun _ _ _ _ same => by cases same
        intro actionId inserts
        simp only [Call.inserts, ne_eq, ite_eq_right_iff, Classical.not_imp] at inserts
        exact beq_iff_eq.mpr inserts.1
  | flush =>
      cases stepped
      have memory : outbox.flush.entries = outbox.entries ∧ outbox.flush.calls = outbox.calls := by
        simp only [flush]
        repeat' split
        all_goals exact ⟨rfl, rfl⟩
      exact .flushed (by rw [ids, memory.1]; rfl) memory.2
        (fun _ member _ => memory.1.symm ▸ member) fun _ _ _ _ same => by cases same
  | submitted response =>
      have silent : ∀ call action enqueuedAtHlc basedOnGsn, (.submitted response : Event V C) ≠
          .enqueue call action enqueuedAtHlc basedOnGsn := by
        intro _ _ _ _ same
        cases same
      simp only [step] at stepped
      split at stepped
      · cases stepped
        exact .flushed rfl rfl (fun _ member _ => member) silent
      · next batch rejected _ =>
          cases stepped
          have memory := storeNext_memory outbox rejected batch
          exact .flushed (by rw [ids, memory.1]; rfl) memory.2
            (fun _ member _ => memory.1.symm ▸ member) silent
      · cases stepped
  | resumeFlush => exact StepCase.ofResumeFlush sound.nodup stepped
  | retry call actionId =>
      simp only [step] at stepped
      split at stepped
      · cases stepped
        exact StepCase.unchanged outbox fun _ _ _ _ same => by cases same
      · rcases begin_eq_some stepped with ⟨free, changed⟩
        exact .started free changed (fun _ deletes => by cases deletes)
          (fun _ inserts => absurd rfl inserts) fun _ _ _ _ same => by cases same
  | clearError call actionId =>
      exact StepCase.ofClear (fun _ same => same) (fun _ _ _ _ same => by cases same) stepped
  | clearConflict call actionId =>
      exact StepCase.ofClear (fun _ same => same) (fun _ _ _ _ same => by cases same) stepped
  | matchEcho call action =>
      simp only [step] at stepped
      split at stepped
      · cases stepped
        exact StepCase.unchanged outbox fun _ _ _ _ same => by cases same
      · next committed =>
          split at stepped
          · cases stepped
            exact StepCase.unchanged outbox fun _ _ _ _ same => by cases same
          · rcases begin_eq_some stepped with ⟨free, changed⟩
            refine .started free changed ?_ (fun _ inserts => absurd rfl inserts)
              fun _ _ _ _ same => by cases same
            intro actionId deletes
            exact Bool.and_eq_true_iff.mpr ⟨deletes, decide_eq_true committed⟩
  | detectConflicts call losers =>
      simp only [step] at stepped
      split at stepped
      · split at stepped
        · cases stepped
          exact StepCase.unchanged outbox fun _ _ _ _ same => by cases same
        · rcases begin_eq_some stepped with ⟨free, changed⟩
          exact .started free changed (fun _ deletes => by cases deletes)
            (fun _ inserts => absurd rfl inserts) fun _ _ _ _ same => by cases same
      · cases stepped
  | resume call =>
      simp only [step, resume] at stepped
      cases found : outbox.calls.get? call with
      | none => simp [found] at stepped
      | some begun =>
          rw [found] at stepped
          cases begun with
          | detecting losers =>
              cases losers with
              | nil =>
                  cases stepped
                  exact .finished rfl found rfl
              | cons loser rest =>
                  rcases loser with ⟨actionId, conflict⟩
                  cases stepped
                  have keepsId : ∀ known : OutboxEntry V C,
                      (asConflicted conflict known).id = known.id := fun _ => rfl
                  refine @StepCase.marked V C outbox _ _ call _ rest rfl found ?_ ?_
                  · simp only [markConflicted]
                    split
                    · rfl
                    · exact ids_updateEntry keepsId outbox.entries
                  · simp only [markConflicted]
                    split <;> rfl
          | _ =>
              cases stepped
              exact .finished rfl found rfl

/-! ### Calls -/

theorem deleting_of_step (sound : outbox.Sound) (stepped : outbox.step event = some next)
    (deleting : next.deleting actionId = true) :
    outbox.deleting actionId = true ∨ event.retires actionId = true := by
  cases step_cases sound stepped with
  | @started call begun rows free changed retires adds _ =>
      subst changed
      have view := congrArg View.deleting (view_begin free begun rows actionId)
      rcases Bool.or_eq_true_iff.mp (view.symm.trans deleting) with before | now
      · exact .inl before
      · exact .inr (retires actionId now)
  | flushed _ calls _ _ =>
      left
      rwa [Outbox.deleting, calls] at deleting
  | @finished call begun _ found changed =>
      left
      subst changed
      rcases exists_view_finish found actionId with
        ⟨remaining, _, _, _, _, sameDeleting, _, _, _, _, finished⟩
      have view := congrArg View.deleting (finished (begun.finish outbox.entries))
      rw [sameDeleting]
      exact Bool.or_eq_true_iff.mpr (.inl (view.symm.trans deleting))
  | @marked call losers rest _ found _ calls =>
      left
      have view := congrArg View.deleting (@view_detecting V C outbox call losers rest found actionId)
      rw [Outbox.deleting, calls] at deleting
      exact view.symm.trans deleting

theorem inserting_of_step (sound : outbox.Sound) (stepped : outbox.step event = some next)
    (inserting : next.inserting actionId ≠ []) :
    outbox.inserting actionId ≠ [] ∨ event.adds actionId = true := by
  cases step_cases sound stepped with
  | @started call begun rows free changed retires adds _ =>
      subst changed
      have view := congrArg View.inserting (view_begin free begun rows actionId)
      cases inserts : begun.inserts actionId with
      | none =>
          left
          rw [inserts] at view
          intro empty
          apply inserting
          refine view.trans ?_
          simp [empty]
      | some entry => exact .inr (adds actionId (by simp [inserts]))
  | flushed _ calls _ _ =>
      left
      rwa [Outbox.inserting, calls] at inserting
  | @finished call begun _ found changed =>
      left
      subst changed
      rcases exists_view_finish found actionId with
        ⟨_, _, _, before, after, _, _, _, sameInserting, _, finished⟩
      have view := congrArg View.inserting (finished (begun.finish outbox.entries))
      intro empty
      rw [empty] at sameInserting
      have parts : before = [] ∧ after = [] := by
        have nil := sameInserting.symm
        simp only [List.append_eq_nil_iff] at nil
        exact ⟨nil.1.1, nil.2⟩
      apply inserting
      refine view.trans ?_
      rw [parts.1, parts.2]
      rfl
  | @marked call losers rest _ found _ calls =>
      left
      have view :=
        congrArg View.inserting (@view_detecting V C outbox call losers rest found actionId)
      rw [Outbox.inserting, calls] at inserting
      exact fun empty => inserting (view.trans empty)

/-! ### Memory -/

theorem mem_ids_iff : actionId ∈ outbox.ids ↔ entryOf outbox.entries actionId ≠ none := by
  rw [ne_eq, entryOf_eq_none_iff, Classical.not_not]
  rfl

/-- The outbox holds the Action in memory or is about to. -/
def Knows (outbox : Outbox V C) (actionId : String) : Prop :=
  actionId ∈ outbox.ids ∨ outbox.inserting actionId ≠ []

theorem mem_ids_finish {begun : Call V C} (present : entryOf entries actionId ≠ none) :
    entryOf (begun.finish entries) actionId ≠ none ∨ begun.deletes actionId = true := by
  cases begun with
  | enqueuing entry =>
      left
      rw [Call.finish, entryOf_append]
      simp [present]
  | replacing originalId next =>
      by_cases same : actionId = originalId
      · exact .inr (beq_iff_eq.mpr same.symm)
      · left
        rw [Call.finish, entryOf_append, entryOf_removeEntry, if_neg same]
        simp [present]
  | retrying retried =>
      left
      have keepsId : ∀ known : OutboxEntry V C, (withStatus .pending known).id = known.id :=
        fun _ => rfl
      rw [Call.finish, entryOf_updateEntry keepsId]
      split
      · simpa using present
      · exact present
  | clearing cleared =>
      by_cases same : actionId = cleared
      · exact .inr (beq_iff_eq.mpr same.symm)
      · left
        rwa [Call.finish, entryOf_removeEntry, if_neg same]
  | matching matched =>
      by_cases same : actionId = matched
      · exact .inr (beq_iff_eq.mpr same.symm)
      · left
        rwa [Call.finish, entryOf_removeEntry, if_neg same]
  | detecting losers => exact .inl present

theorem mem_ids_of_finish {begun : Call V C}
    (present : entryOf (begun.finish entries) actionId ≠ none) :
    entryOf entries actionId ≠ none ∨ begun.inserts actionId ≠ none := by
  cases begun with
  | enqueuing entry =>
      rw [Call.finish, entryOf_append] at present
      by_cases same : entry.id = actionId
      · exact .inr (by simp [Call.inserts, same])
      · rw [if_neg same, Option.or_none] at present
        exact .inl present
  | replacing originalId next =>
      rw [Call.finish, entryOf_append, entryOf_removeEntry] at present
      by_cases same : next.id = actionId
      · exact .inr (by simp [Call.inserts, same])
      · rw [if_neg same, Option.or_none] at present
        split at present
        · exact absurd rfl present
        · exact .inl present
  | retrying retried =>
      left
      have keepsId : ∀ known : OutboxEntry V C, (withStatus .pending known).id = known.id :=
        fun _ => rfl
      rw [Call.finish, entryOf_updateEntry keepsId] at present
      split at present
      · simpa using present
      · exact present
  | clearing cleared =>
      left
      rw [Call.finish, entryOf_removeEntry] at present
      split at present
      · exact absurd rfl present
      · exact present
  | matching matched =>
      left
      rw [Call.finish, entryOf_removeEntry] at present
      split at present
      · exact absurd rfl present
      · exact present
  | detecting losers => exact .inl present

theorem knows_of_step (sound : outbox.Sound) (stepped : outbox.step event = some next)
    (known : outbox.Knows actionId) :
    next.Knows actionId ∨ outbox.deleting actionId = true := by
  cases step_cases sound stepped with
  | @started call begun rows free changed retires adds _ =>
      left
      subst changed
      have view := congrArg View.inserting (view_begin free begun rows actionId)
      rcases known with present | inserting
      · exact .inl present
      · refine .inr fun empty => inserting ?_
        have nil := view.symm.trans empty
        exact (List.append_eq_nil_iff.mp nil).1
  | flushed ids calls _ _ =>
      left
      rw [Knows, ids, Outbox.inserting, calls]
      exact known
  | @finished call begun _ found changed =>
      subst changed
      rcases known with present | inserting
      · rcases mem_ids_finish (mem_ids_iff.mp present) with kept | deletes
        · exact .inl (.inl (mem_ids_iff.mpr kept))
        · right
          rcases exists_view_finish found actionId with ⟨_, _, _, _, _, sameDeleting, _⟩
          rw [sameDeleting, deletes, Bool.or_true]
      · left
        cases inserts : begun.inserts actionId with
        | some entry =>
            left
            rw [mem_ids_iff]
            cases begun with
            | enqueuing added =>
                rw [Call.finish, entryOf_append]
                simp only [Call.inserts] at inserts
                split at inserts
                · next same => simp [same]
                · cases inserts
            | replacing originalId added =>
                rw [Call.finish, entryOf_append]
                simp only [Call.inserts] at inserts
                split at inserts
                · next same => simp [same]
                · cases inserts
            | _ => cases inserts
        | none =>
            right
            rcases exists_view_finish found actionId with
              ⟨_, _, _, before, after, _, _, _, sameInserting, _, finished⟩
            have view := congrArg View.inserting (finished (begun.finish outbox.entries))
            simp only [inserts, Option.toList_none, List.append_nil] at sameInserting
            exact fun empty => inserting (sameInserting.trans (view.symm.trans empty))
  | @marked call losers rest _ found ids calls =>
      left
      have view :=
        congrArg View.inserting (@view_detecting V C outbox call losers rest found actionId)
      rw [Knows, ids, Outbox.inserting, calls]
      exact known.imp_right fun inserting empty => inserting (view.symm.trans empty)

theorem inserting_of_new (sound : outbox.Sound) (stepped : outbox.step event = some next)
    (absent : actionId ∉ outbox.ids) (present : actionId ∈ next.ids) :
    outbox.inserting actionId ≠ [] := by
  cases step_cases sound stepped with
  | started free changed _ _ _ =>
      subst changed
      exact absurd present absent
  | flushed ids _ _ _ => exact absurd (ids ▸ present) absent
  | @finished call begun _ found changed =>
      subst changed
      rcases mem_ids_of_finish (mem_ids_iff.mp present) with before | inserts
      · exact absurd (mem_ids_iff.mpr before) absent
      · rcases exists_view_finish found actionId with ⟨_, _, _, _, _, _, _, _, sameInserting, _⟩
        rw [sameInserting]
        rcases Option.ne_none_iff_exists'.mp inserts with ⟨entry, inserting⟩
        simp [inserting]
  | marked _ _ ids _ => exact absurd (ids ▸ present) absent

theorem knows_of_enqueue {call : Nat} {action : Action V} {enqueuedAtHlc : HLCTimestamp}
    {basedOnGsn : Nat}
    (stepped : outbox.step (.enqueue call action enqueuedAtHlc basedOnGsn) = some next) :
    next.Knows action.id := by
  rcases begin_eq_some stepped with ⟨free, rfl⟩
  right
  have view := congrArg View.inserting
    (view_begin free (.enqueuing (newEntry action enqueuedAtHlc basedOnGsn))
      (outbox.rows.set action.id (newEntry action enqueuedAtHlc basedOnGsn)) action.id)
  intro empty
  have nil := (List.append_eq_nil_iff.mp (view.symm.trans empty)).2
  simp [Call.inserts, newEntry, OutboxEntry.id] at nil

theorem held_of_step (sound : outbox.Sound) (stepped : outbox.step event = some next)
    {entry : OutboxEntry V C} (member : entry ∈ outbox.entries)
    (conflicted : entry.status = .conflicted) (gone : entry ∉ next.entries) :
    ∃ call begun, event = .resume call ∧ outbox.calls.get? call = some begun ∧
      begun.echoes entry.id = false := by
  cases step_cases sound stepped with
  | started free changed _ _ _ =>
      subst changed
      exact absurd member gone
  | flushed _ _ held _ => exact absurd (held entry member conflicted) gone
  | @finished call begun resumed found changed =>
      subst changed
      refine ⟨call, begun, resumed, found, ?_⟩
      cases echoes : begun.echoes entry.id with
      | false => rfl
      | true =>
          rcases exists_view_finish found entry.id with ⟨_, _, _, _, _, _, sameEchoing, _⟩
          have echoing : (outbox.view entry.id).echoing = true := by
            refine Eq.trans sameEchoing ?_
            rw [echoes, Bool.or_true]
          have present := (entryOf_eq_some_iff sound.nodup).mpr ⟨member, rfl⟩
          exact absurd conflicted (((sound.views entry.id).echoes echoing).2 entry present)
  | marked resumed found _ _ => exact ⟨_, _, resumed, found, rfl⟩

/-! ## Runs -/

def Quiet (outbox : Outbox V C) : Prop :=
  outbox.calls.entries = [] ∧ outbox.inFlight = none

instance (outbox : Outbox V C) : Decidable outbox.Quiet :=
  decidable_of_iff (outbox.calls.entries.isEmpty = true ∧ outbox.inFlight.isNone = true) (by
    simp [Quiet, List.isEmpty_iff])

/-- Memory holds each stored row once, and nothing else. -/
def Agrees (outbox : Outbox V C) : Prop :=
  outbox.ids.Nodup ∧
    ∀ actionId, entryOf outbox.entries actionId = outbox.rows.get? actionId

theorem Sound.agrees (sound : outbox.Sound) (quiet : outbox.Quiet) : outbox.Agrees := by
  refine ⟨sound.nodup, fun actionId => ?_⟩
  rcases quiet with ⟨noCalls, noFlush⟩
  have view := sound.views actionId
  have notDeleting : (outbox.view actionId).deleting = false := by
    simp [Outbox.view, deleting, noCalls]
  have notRetrying : (outbox.view actionId).retrying = false := by
    simp [Outbox.view, retrying, noCalls]
  have notInserting : (outbox.view actionId).inserting = [] := by
    simp [Outbox.view, inserting, noCalls]
  have notStoring : (outbox.view actionId).storing = none := by
    simp [Outbox.view, storing, noFlush]
  cases found : entryOf outbox.entries actionId with
  | none =>
      rcases view.absent found notInserting with storing | row
      · exact absurd notStoring storing
      · exact row.symm
  | some entry =>
      rcases (view.present entry found).whileIdle notDeleting notStoring with same | ⟨_, retrying, _⟩
      · exact same.symm
      · rw [notRetrying] at retrying
        cases retrying

theorem sound_rehydrated (stored : StoredRows V C) : (rehydrated stored).Sound := by
  have members : ∀ entry, entry ∈ (rehydrated stored).entries ↔
      (entry.id, entry) ∈ stored.rows.entries := by
    intro entry
    rw [rehydrated, mem_sortBy, List.mem_map]
    constructor
    · rintro ⟨row, member, rfl⟩
      rw [← stored.keyed row member]
      exact member
    · intro member
      exact ⟨_, member, rfl⟩
  have sameIds : (stored.rows.entries.map Prod.snd).map OutboxEntry.id =
      stored.rows.entries.map Prod.fst := by
    rw [List.map_map]
    apply List.map_congr_left
    intro row member
    exact (stored.keyed row member).symm
  have nodup : ((rehydrated stored).entries.map OutboxEntry.id).Nodup := by
    have sorted := (@perm_sortBy _ OutboxEntry.enqueuedAtHlc
      (stored.rows.entries.map Prod.snd)).map OutboxEntry.id
    rw [rehydrated, sorted.nodup_iff, sameIds]
    exact stored.rows.nodup
  refine ⟨nodup, fun actionId => ?_⟩
  have read : (stored.rows.get? actionId) = entryOf (rehydrated stored).entries actionId := by
    apply Option.ext
    intro entry
    rw [OrderedMap.get?_eq_some_iff, entryOf_eq_some_iff nodup, members]
    constructor
    · intro member
      have same : actionId = entry.id := stored.keyed _ member
      exact ⟨same ▸ member, same.symm⟩
    · rintro ⟨member, rfl⟩
      exact member
  exact {
    inserting := .inl rfl
    absent := fun absent _ => .inr (read.trans absent)
    present := fun entry found => View.RowMatches.ofIdle rfl rfl (.inl (read.trans found))
    payload := fun entry found _ notConflicted =>
      stored.payload _ ((members entry).mp ((entryOf_eq_some_iff nodup).mp found).1) notConflicted
    echoes := fun echoes => by cases echoes
    storing := fun _ storing => by cases storing
    batched := fun _ member => by cases member }

theorem sound_of_run {stored : StoredRows V C} {events : List (Event V C)} {final : Outbox V C}
    (inOrder : (machine stored).Meets (fun state event => state.InOrder event = true)
      (machine stored).initial events)
    (reached : (machine stored).run (machine stored).initial events = some final) :
    final.Sound := by
  have preserved : ∀ (state : Outbox V C) event next, state.Sound → state.InOrder event = true →
      (machine stored).step state event = some next → next.Sound :=
    fun _ _ _ sound condition stepped => Sound.step sound condition stepped
  exact Machine.run_preserves preserved (sound_rehydrated stored) inOrder reached

/-- What a run keeps of the Actions it was handed. -/
structure KeepsWrites (stored : StoredRows V C) (events : List (Event V C))
    (final : Outbox V C) : Prop where
  /-- Memory and the store agree whenever no call is outstanding. -/
  agrees : final.Quiet → final.Agrees
  /-- An enqueued Action is known at once, … -/
  enters : ∀ before after call action enqueuedAtHlc basedOnGsn state next,
    events = before ++ .enqueue call action enqueuedAtHlc basedOnGsn :: after →
    (machine stored).run (machine stored).initial before = some state →
    state.step (.enqueue call action enqueuedAtHlc basedOnGsn) = some next →
      next.Knows action.id
  /-- … and what is known stays known until an echo or a clear asks to remove
  it. -/
  leaves : ∀ before after state, events = before ++ after →
    (machine stored).run (machine stored).initial before = some state →
    ∀ actionId, state.Knows actionId →
      final.Knows actionId ∨ ∃ event ∈ events, event.retires actionId = true
  /-- What has left does not come back unless it is handed in again. -/
  stays : ∀ before between after first second, events = before ++ between ++ after →
    (machine stored).run (machine stored).initial before = some first →
    (machine stored).run first between = some second →
    ∀ actionId, actionId ∈ first.ids → actionId ∉ second.ids → actionId ∈ final.ids →
      ∃ event ∈ between ++ after, event.adds actionId = true
  /-- An entry held as conflicted is removed by no flush and no echo. -/
  holds : ∀ before event after state next, events = before ++ event :: after →
    (machine stored).run (machine stored).initial before = some state →
    state.step event = some next →
    ∀ entry ∈ state.entries, entry.status = .conflicted → entry ∉ next.entries →
      ∃ call begun, event = .resume call ∧ state.calls.get? call = some begun ∧
        begun.echoes entry.id = false

section

variable {stored : StoredRows V C} {events : List (Event V C)}
  (inOrder : (machine stored).Meets (fun state event => state.InOrder event = true)
    (machine stored).initial events)

include inOrder

variable {before after : List (Event V C)} {actionId : String} {between : List (Event V C)}
  {first second : Outbox V C}

theorem sound_before {state : Outbox V C} (split : events = before ++ after)
    (reached : (machine stored).run (machine stored).initial before = some state) :
    state.Sound := by
  subst split
  exact sound_of_run ((Machine.meets_append reached).mp inOrder).1 reached

theorem exists_retires {state : Outbox V C} (split : events = before ++ after)
    (reached : (machine stored).run (machine stored).initial before = some state)
    (deleting : state.deleting actionId = true) :
    ∃ event ∈ events, event.retires actionId = true := by
  have general := @Machine.run_induct _ _ (machine stored) (fun earlier state =>
    ∀ after, events = earlier ++ after → state.deleting actionId = true →
      ∃ event ∈ events, event.retires actionId = true) _ ?nil ?snoc _ _ reached
  case nil =>
    intro _ _ deleting
    cases deleting
  case snoc =>
    intro earlier middle event next there holds stepped after split deleting
    rw [List.append_assoc] at split
    rcases deleting_of_step (sound_before inOrder split there) stepped deleting with
      already | asked
    · exact holds _ split already
    · exact ⟨event, by simp [split], asked⟩
  exact general after split deleting

theorem knows_or_retires (split : events = before ++ between ++ after)
    (reachedFirst : (machine stored).run (machine stored).initial before = some first)
    (reachedSecond : (machine stored).run first between = some second)
    (known : first.Knows actionId) :
    second.Knows actionId ∨ ∃ event ∈ events, event.retires actionId = true := by
  have general := @Machine.run_induct _ _ (machine stored) (fun earlier state =>
    ∀ after, events = before ++ earlier ++ after →
      state.Knows actionId ∨ ∃ event ∈ events, event.retires actionId = true) _ ?nil ?snoc _ _
    reachedSecond
  case nil => exact fun _ _ => .inl known
  case snoc =>
    intro earlier middle event next there holds stepped after split
    have splitHere : events = (before ++ earlier) ++ (event :: after) := by
      rw [split]
      simp
    have reached := Machine.run_append.mpr ⟨first, reachedFirst, there⟩
    rcases holds (event :: after) splitHere with knows | retired
    · rcases knows_of_step (sound_before inOrder splitHere reached) stepped knows with
        kept | deleting
      · exact .inl kept
      · exact .inr (exists_retires inOrder splitHere reached deleting)
    · exact .inr retired
  exact general after split

theorem exists_adds_of_inserting (split : events = before ++ between ++ after)
    (reachedFirst : (machine stored).run (machine stored).initial before = some first)
    (reachedSecond : (machine stored).run first between = some second)
    (idle : first.inserting actionId = []) (inserting : second.inserting actionId ≠ []) :
    ∃ event ∈ between, event.adds actionId = true := by
  have general := @Machine.run_induct _ _ (machine stored) (fun earlier state =>
    ∀ after, events = before ++ earlier ++ after → state.inserting actionId ≠ [] →
      ∃ event ∈ earlier, event.adds actionId = true) _ ?nil ?snoc _ _ reachedSecond
  case nil => exact fun _ _ inserting => absurd idle inserting
  case snoc =>
    intro earlier middle event next there holds stepped after split inserting
    have splitHere : events = (before ++ earlier) ++ (event :: after) := by
      rw [split]
      simp
    have sound := sound_before inOrder splitHere
      (Machine.run_append.mpr ⟨first, reachedFirst, there⟩)
    rcases inserting_of_step sound stepped inserting with already | adds
    · rcases holds (event :: after) splitHere already with ⟨other, member, adds⟩
      exact ⟨other, List.mem_append_left _ member, adds⟩
    · exact ⟨event, List.mem_append_right _ List.mem_cons_self, adds⟩
  exact general after split inserting

theorem exists_adds_of_return {final : Outbox V C} (split : events = before ++ between ++ after)
    (reachedFirst : (machine stored).run (machine stored).initial before = some first)
    (reachedSecond : (machine stored).run first between = some second)
    (reachedFinal : (machine stored).run second after = some final) (present : actionId ∈ first.ids)
    (absent : actionId ∉ second.ids) (returned : actionId ∈ final.ids) :
    ∃ event ∈ between ++ after, event.adds actionId = true := by
  have idle : first.inserting actionId = [] := by
    have sound := sound_before inOrder (split.trans (List.append_assoc _ _ _)) reachedFirst
    rcases (sound.views actionId).inserting with empty | ⟨_, inserts⟩
    · exact empty
    · exact absurd inserts.entry (mem_ids_iff.mp present)
  have general := @Machine.run_induct _ _ (machine stored) (fun earlier state =>
    ∀ after, events = before ++ (between ++ earlier) ++ after → actionId ∈ state.ids →
      ∃ event ∈ between ++ earlier, event.adds actionId = true) _ ?nil ?snoc _ _ reachedFinal
  case nil => exact fun _ _ present => absurd present absent
  case snoc =>
    intro earlier middle event next there holds stepped after split returned
    have splitHere : events = before ++ (between ++ earlier) ++ (event :: after) := by
      rw [split]
      simp
    have reached := Machine.run_append.mpr ⟨second, reachedSecond, there⟩
    have sound := sound_before inOrder splitHere
      (Machine.run_append.mpr ⟨first, reachedFirst, reached⟩)
    have earlierAdds : ∃ other ∈ between ++ earlier, other.adds actionId = true := by
      by_cases already : actionId ∈ middle.ids
      · exact holds (event :: after) splitHere already
      · exact exists_adds_of_inserting inOrder splitHere reachedFirst reached idle
          (inserting_of_new sound stepped already returned)
    rcases earlierAdds with ⟨other, member, adds⟩
    refine ⟨other, ?_, adds⟩
    rw [← List.append_assoc]
    exact List.mem_append_left _ member
  refine general [] ?_ returned
  rw [split]
  simp

theorem keepsWrites_of_run {final : Outbox V C}
    (reached : (machine stored).run (machine stored).initial events = some final) :
    KeepsWrites stored events final where
  agrees := (sound_of_run inOrder reached).agrees
  enters _ _ _ _ _ _ _ _ _ _ stepped := knows_of_enqueue stepped
  leaves before after state split there actionId known := by
    subst split
    rcases Machine.run_append.mp reached with ⟨middle, first, second⟩
    cases there.symm.trans first
    exact knows_or_retires inOrder (List.append_nil _).symm there second known
  stays before between after first second split reachedFirst reachedSecond actionId present
      absent returned := by
    have prefixReached := Machine.run_append.mpr ⟨first, reachedFirst, reachedSecond⟩
    subst split
    rcases Machine.run_append.mp reached with ⟨middle, earlier, later⟩
    cases prefixReached.symm.trans earlier
    exact exists_adds_of_return inOrder rfl reachedFirst reachedSecond later present absent returned
  holds _ _ _ _ _ split there stepped _ member conflicted gone :=
    held_of_step (sound_before inOrder split there) stepped member conflicted gone

end

/-! ### An echo that overlaps a flush -/

def noteEcho (gsn : Nat) : Action String where
  id := "act_1"
  actorId := "usr_1"
  hlc := 1
  gsn
  updates := []

def noStored : StoredRows String Unit where
  rows := .empty
  keyed := by simp [OrderedMap.empty]
  payload := by simp [OrderedMap.empty]

/-- The flush writes the row, and the echo deletes it before the flush goes on. -/
def echoAfterWrite : List (Event String Unit) :=
  [.enqueue 0 (noteEcho 0) 1 0, .resume 0, .flush, .submitted (some []),
    .matchEcho 1 (noteEcho 7), .resumeFlush, .resume 1]

theorem keepsWrites_echoAfterWrite :
    KeepsWrites noStored echoAfterWrite
      (((machine noStored).run (machine noStored).initial echoAfterWrite).get (by decide)) :=
  keepsWrites_of_run (by decide) (Option.some_get _).symm

/-- The echo deletes the row before the flush writes it. -/
def echoBeforeWrite : List (Event String Unit) :=
  [.enqueue 0 (noteEcho 0) 1 0, .resume 0, .flush, .matchEcho 1 (noteEcho 7),
    .submitted (some []), .resumeFlush, .resume 1]

/-- Memory drops the echoed Action, and its row stays. -/
theorem echoBeforeWrite_leaks_row :
    ¬ ∀ final : Outbox String Unit,
      (machine noStored).run (machine noStored).initial echoBeforeWrite = some final →
        KeepsWrites noStored echoBeforeWrite final := by
  intro keeps
  have row := ((keeps _ (Option.some_get (by decide)).symm).agrees (by decide)).2 "act_1"
  have presence := congrArg Option.isSome row
  revert presence
  decide

end Outbox

end Ebb.Sync
