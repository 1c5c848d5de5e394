import Ebb.Foundation.Machine
import Ebb.Foundation.OrderedMap
import Mathlib.Data.Finset.SDiff

namespace Ebb.Server.Pipeline

/-! The commit pipeline as a pure state machine: the map of open batches, the order they
were claimed in, and the ids that a second claim must not take. -/

/-! ## State -/

inductive Phase where
  | claimed
  | prepared
  | committing
  | committed
  | applying
  | released
  | abandoned
deriving DecidableEq

/-- One claimed GSN range. `preparation` is what preparing attaches: the prepared Actions,
their groups, the provisional marks and the cache plan, none of which a transition reads. -/
structure Batch (P : Type) where
  ref : Nat
  gsnStart : Nat
  gsnEnd : Nat
  actionIds : List String
  preparation : Option P
  owner : Option Nat
  reason : Option String
  phase : Phase

inductive TransitionError where
  | unknownBatch
  | invalidTransition (phase target : Phase)
deriving DecidableEq

end Pipeline

structure Pipeline (P : Type) where
  batches : OrderedMap Nat (Pipeline.Batch P)
  claimOrder : List Nat
  inFlightIds : Finset String

namespace Pipeline

variable {P : Type}

def new : Pipeline P where
  batches := .empty
  claimOrder := []
  inFlightIds := ∅

/-! ## Transitions -/

def claim (state : Pipeline P) (batch : Batch P) : Pipeline P where
  batches := state.batches.set batch.ref batch
  claimOrder := state.claimOrder ++ [batch.ref]
  inFlightIds := state.inFlightIds ∪ batch.actionIds.toFinset

/-- Move a batch to `target` from one of the allowed phases; `releases` says whether its ids
leave the guard. -/
def update (state : Pipeline P) (ref : Nat) (allowedFrom : List Phase) (target : Phase)
    (transform : Batch P → Batch P) (releases : Bool) :
    Except TransitionError (Batch P × Pipeline P) :=
  match state.batches.get? ref with
  | none => .error .unknownBatch
  | some batch =>
      if batch.phase ∈ allowedFrom then
        let moved := { transform batch with phase := target }
        .ok (moved, { state with
          batches := state.batches.set ref moved
          inFlightIds :=
            if releases then state.inFlightIds \ moved.actionIds.toFinset
            else state.inFlightIds })
      else .error (.invalidTransition batch.phase target)

def prune (state : Pipeline P) (ref : Nat) : Pipeline P :=
  { state with
    batches := state.batches.erase ref
    claimOrder := state.claimOrder.erase ref }

def prepared (state : Pipeline P) (ref : Nat) (preparation : P) :
    Except TransitionError (Batch P × Pipeline P) :=
  state.update ref [.claimed] .prepared
    (fun batch => { batch with preparation := some preparation }) false

def reprepared (state : Pipeline P) (ref : Nat) (preparation : P) :
    Except TransitionError (Batch P × Pipeline P) :=
  state.update ref [.prepared] .prepared
    (fun batch => { batch with preparation := some preparation }) false

def committing (state : Pipeline P) (ref : Nat) (owner : Option Nat) :
    Except TransitionError (Batch P × Pipeline P) :=
  state.update ref [.prepared] .committing (fun batch => { batch with owner }) false

def assignOwner (state : Pipeline P) (ref owner : Nat) :
    Except TransitionError (Batch P × Pipeline P) :=
  state.update ref [.committing] .committing (fun batch => { batch with owner := some owner }) false

def committed (state : Pipeline P) (ref : Nat) :
    Except TransitionError (Batch P × Pipeline P) :=
  state.update ref [.committing] .committed id true

def applying (state : Pipeline P) (ref : Nat) :
    Except TransitionError (Batch P × Pipeline P) :=
  state.update ref [.committed] .applying id false

def release (state : Pipeline P) (ref : Nat) :
    Except TransitionError (Batch P × Pipeline P) :=
  (state.update ref [.applying] .released id false).map fun (batch, next) =>
    (batch, next.prune ref)

def abandon (state : Pipeline P) (ref : Nat) (reason : String) :
    Except TransitionError (Batch P × Pipeline P) :=
  (state.update ref [.claimed, .prepared, .committing, .committed] .abandoned
    (fun batch => { batch with reason := some reason }) true).map fun (batch, next) =>
      (batch, next.prune ref)

/-- The open batches, oldest claim first; `none` where a claimed reference has no batch,
which raises. -/
def openBatches (state : Pipeline P) : Option (List (Batch P)) :=
  state.claimOrder.mapM state.batches.get?

def releasable (state : Pipeline P) : Option (List (Batch P)) :=
  state.openBatches.map fun batches => batches.takeWhile fun batch => batch.phase = .committed

/-! ## Runs -/

/-- The pipeline with the references that were claimed, released and abandoned so far. -/
structure Ledger (P : Type) where
  pipeline : Pipeline P
  claimed : List Nat
  released : List Nat
  abandoned : List Nat

/-- The transitions the Writer makes. It starts applying a batch only at the head of
`releasable/1`, and settles the batch it is applying. -/
inductive Event (P : Type) where
  | claim (batch : Batch P)
  | prepared (ref : Nat) (preparation : P)
  | reprepared (ref : Nat) (preparation : P)
  | committing (ref : Nat) (owner : Option Nat)
  | assignOwner (ref owner : Nat)
  | committed (ref : Nat)
  | apply
  | settle (ref : Nat)
  | abandon (ref : Nat) (reason : String)

namespace Ledger

def new : Ledger P where
  pipeline := .new
  claimed := []
  released := []
  abandoned := []

def move (ledger : Ledger P) (result : Except TransitionError (Batch P × Pipeline P)) : Ledger P :=
  match result with
  | .ok (_, next) => { ledger with pipeline := next }
  | .error _ => ledger

def step (ledger : Ledger P) : Event P → Option (Ledger P)
  | .claim batch =>
      some { ledger with
        pipeline := ledger.pipeline.claim batch
        claimed := ledger.claimed ++ [batch.ref] }
  | .prepared ref preparation => some (ledger.move (ledger.pipeline.prepared ref preparation))
  | .reprepared ref preparation => some (ledger.move (ledger.pipeline.reprepared ref preparation))
  | .committing ref owner => some (ledger.move (ledger.pipeline.committing ref owner))
  | .assignOwner ref owner => some (ledger.move (ledger.pipeline.assignOwner ref owner))
  | .committed ref => some (ledger.move (ledger.pipeline.committed ref))
  | .apply =>
      match ledger.pipeline.releasable with
      | none => none
      | some [] => some ledger
      | some (batch :: _) => some (ledger.move (ledger.pipeline.applying batch.ref))
  | .settle ref =>
      match ledger.pipeline.release ref with
      | .ok (_, next) =>
          some { ledger with pipeline := next, released := ledger.released ++ [ref] }
      | .error _ => some ledger
  | .abandon ref reason =>
      match ledger.pipeline.abandon ref reason with
      | .ok (_, next) =>
          some { ledger with pipeline := next, abandoned := ledger.abandoned ++ [ref] }
      | .error _ => some ledger

def machine : Machine (Ledger P) (Event P) where
  initial := new
  step := step

end Ledger

/-- A batch that may still be lost: its Actions are not durable yet. -/
def Undurable (phase : Phase) : Prop := phase ∈ [.claimed, .prepared, .committing]

instance (phase : Phase) : Decidable (Undurable phase) :=
  inferInstanceAs (Decidable (phase ∈ _))

/-- What the map, the order and the guard say of one another. -/
structure Tidy (state : Pipeline P) : Prop where
  distinct : state.claimOrder.Nodup
  listed : ∀ ref, ref ∈ state.claimOrder ↔ ∃ batch, state.batches.get? ref = some batch
  named : ∀ {ref batch}, state.batches.get? ref = some batch → batch.ref = ref
  guarded : ∀ id, id ∈ state.inFlightIds ↔
    ∃ ref batch, state.batches.get? ref = some batch ∧ Undurable batch.phase ∧
      id ∈ batch.actionIds
  apart : ∀ {left right leftBatch rightBatch}, state.batches.get? left = some leftBatch →
    state.batches.get? right = some rightBatch → left ≠ right →
      ∀ id ∈ leftBatch.actionIds, id ∉ rightBatch.actionIds
  oldest : ∀ {ref batch}, state.batches.get? ref = some batch → batch.phase = .applying →
    state.claimOrder.head? = some ref

theorem tidy_new : Tidy (new : Pipeline P) where
  distinct := List.nodup_nil
  listed ref := by simp [new]
  named found := by cases found
  guarded id := by simp [new]
  apart found := by cases found
  oldest found := by cases found

/-! ## One transition -/

section Transitions

variable {state next : Pipeline P} {ref : Nat} {allowedFrom : List Phase} {target : Phase}
  {transform : Batch P → Batch P} {releases : Bool} {moved : Batch P}

theorem update_spec
    (updated : state.update ref allowedFrom target transform releases = .ok (moved, next)) :
    ∃ batch, state.batches.get? ref = some batch ∧ batch.phase ∈ allowedFrom ∧
      moved = { transform batch with phase := target } ∧
      next = { state with
        batches := state.batches.set ref moved
        inFlightIds :=
          if releases then state.inFlightIds \ moved.actionIds.toFinset
          else state.inFlightIds } := by
  rw [update] at updated
  split at updated
  · cases updated
  · next batch found =>
      split at updated
      · next allowed =>
          cases updated
          exact ⟨batch, found, allowed, rfl, rfl⟩
      · cases updated

theorem Tidy.claim (tidy : Tidy state) {batch : Batch P} (fresh : batch.ref ∉ state.claimOrder)
    (phase : batch.phase = .claimed)
    (unguarded : ∀ ref other, state.batches.get? ref = some other →
      ∀ id ∈ other.actionIds, id ∉ batch.actionIds) :
    Tidy (state.claim batch) := by
  have absent : state.batches.get? batch.ref = none := by
    rw [Option.eq_none_iff_forall_ne_some]
    intro other found
    exact fresh ((tidy.listed batch.ref).mpr ⟨other, found⟩)
  have read (ref : Nat) : (state.claim batch).batches.get? ref =
      if ref = batch.ref then some batch else state.batches.get? ref :=
    OrderedMap.get?_set state.batches batch.ref ref batch
  constructor
  case distinct =>
    exact List.nodup_append'.mpr ⟨tidy.distinct, List.nodup_singleton _, by simpa using fresh⟩
  case listed =>
    intro ref
    rw [read]
    change ref ∈ state.claimOrder ++ [batch.ref] ↔ _
    rw [List.mem_append, List.mem_singleton, tidy.listed]
    split
    · next same => simp [same]
    · next other => simp [other]
  case named =>
    intro ref found batchFound
    rw [read] at batchFound
    split at batchFound
    · next same =>
        cases batchFound
        exact same.symm
    · exact tidy.named batchFound
  case guarded =>
    intro id
    change id ∈ state.inFlightIds ∪ batch.actionIds.toFinset ↔ _
    rw [Finset.mem_union, List.mem_toFinset, tidy.guarded]
    constructor
    · rintro (⟨ref, other, found, undurable, member⟩ | member)
      · refine ⟨ref, other, ?_, undurable, member⟩
        rw [read, if_neg, found]
        intro same
        rw [same, absent] at found
        cases found
      · exact ⟨batch.ref, batch, by rw [read, if_pos rfl], by rw [phase]; decide, member⟩
    · rintro ⟨ref, other, found, undurable, member⟩
      rw [read] at found
      split at found
      · cases found
        exact .inr member
      · exact .inl ⟨ref, other, found, undurable, member⟩
  case apart =>
    intro left right leftBatch rightBatch leftFound rightFound different id member
    rw [read] at leftFound rightFound
    split at leftFound
    · next leftSame =>
        cases leftFound
        rw [if_neg (fun rightSame => different (leftSame.trans rightSame.symm))] at rightFound
        exact fun other => unguarded right rightBatch rightFound id other member
    · split at rightFound
      · cases rightFound
        exact unguarded left leftBatch leftFound id member
      · exact tidy.apart leftFound rightFound different id member
  case oldest =>
    intro ref other found applying
    rw [read] at found
    split at found
    · cases found
      rw [phase] at applying
      cases applying
    · have first := tidy.oldest found applying
      change (state.claimOrder ++ [batch.ref]).head? = some ref
      rw [List.head?_append, first]
      rfl

/-- A transform that leaves the reference and the ids of a batch alone. -/
def Relabels (transform : Batch P → Batch P) : Prop :=
  ∀ batch, (transform batch).ref = batch.ref ∧ (transform batch).actionIds = batch.actionIds

theorem Tidy.move (tidy : Tidy state) (relabels : Relabels transform)
    (durable : if releases then ¬ Undurable target
      else ∀ phase ∈ allowedFrom, (Undurable phase ↔ Undurable target))
    (first : target = .applying → state.claimOrder.head? = some ref)
    (updated : state.update ref allowedFrom target transform releases = .ok (moved, next)) :
    Tidy next ∧ next.claimOrder = state.claimOrder := by
  rcases update_spec updated with ⟨batch, found, allowed, isMoved, isNext⟩
  have movedPhase : moved.phase = target := by rw [isMoved]
  have movedIds : moved.actionIds = batch.actionIds := by
    rw [isMoved]
    exact (relabels batch).2
  have movedRef : moved.ref = batch.ref := by
    rw [isMoved]
    exact (relabels batch).1
  have order : next.claimOrder = state.claimOrder := by rw [isNext]
  have read (other : Nat) : next.batches.get? other =
      if other = ref then some moved else state.batches.get? other := by
    rw [isNext]
    exact OrderedMap.get?_set state.batches ref other moved
  -- Every entry of the next map has the ids of the entry it comes from.
  have origin : ∀ {other current}, next.batches.get? other = some current →
      ∃ earlier, state.batches.get? other = some earlier ∧
        current.actionIds = earlier.actionIds := by
    intro other current currentFound
    rw [read] at currentFound
    split at currentFound
    · next same =>
        cases currentFound
        exact ⟨batch, same ▸ found, movedIds⟩
    · exact ⟨current, currentFound, rfl⟩
  refine ⟨?_, order⟩
  constructor
  case distinct => exact order ▸ tidy.distinct
  case listed =>
    intro other
    rw [order, tidy.listed, read]
    split
    · next same => simp [same, found]
    · rfl
  case named =>
    intro other current currentFound
    rw [read] at currentFound
    split at currentFound
    · next same =>
        cases currentFound
        rw [movedRef, tidy.named found, same]
    · exact tidy.named currentFound
  case guarded =>
    intro id
    have guard : id ∈ next.inFlightIds ↔
        id ∈ state.inFlightIds ∧ (releases = true → id ∉ batch.actionIds) := by
      rw [isNext, movedIds]
      cases releases with
      | true => simp
      | false => simp
    rw [guard, tidy.guarded]
    constructor
    · rintro ⟨⟨other, current, currentFound, undurable, member⟩, unreleased⟩
      by_cases same : other = ref
      · subst same
        rw [found] at currentFound
        cases currentFound
        cases releases with
        | true => exact absurd member (unreleased rfl)
        | false =>
            refine ⟨other, moved, by rw [read, if_pos rfl], ?_, movedIds ▸ member⟩
            rw [movedPhase]
            exact (durable batch.phase allowed).mp undurable
      · exact ⟨other, current, by rw [read, if_neg same, currentFound], undurable, member⟩
    · rintro ⟨other, current, currentFound, undurable, member⟩
      rw [read] at currentFound
      split at currentFound
      · next same =>
          cases currentFound
          rw [movedPhase] at undurable
          cases releases with
          | true => exact absurd undurable durable
          | false =>
              exact ⟨⟨ref, batch, found, (durable batch.phase allowed).mpr undurable,
                movedIds ▸ member⟩, fun impossible => by cases impossible⟩
      · next different =>
          exact ⟨⟨other, current, currentFound, undurable, member⟩,
            fun _ => tidy.apart currentFound found different id member⟩
  case apart =>
    intro left right leftBatch rightBatch leftFound rightFound different id member
    rcases origin leftFound with ⟨leftEarlier, leftBefore, leftIds⟩
    rcases origin rightFound with ⟨rightEarlier, rightBefore, rightIds⟩
    rw [leftIds] at member
    rw [rightIds]
    exact tidy.apart leftBefore rightBefore different id member
  case oldest =>
    intro other current currentFound applying
    rw [order]
    rw [read] at currentFound
    split at currentFound
    · next same =>
        cases currentFound
        rw [same]
        exact first (movedPhase ▸ applying)
    · exact tidy.oldest currentFound applying

theorem Tidy.close (tidy : Tidy state) (relabels : Relabels transform)
    (durable : releases = true ∨ ∀ phase ∈ allowedFrom, ¬ Undurable phase)
    (updated : state.update ref allowedFrom target transform releases = .ok (moved, next)) :
    Tidy (next.prune ref) ∧ (next.prune ref).claimOrder = state.claimOrder.erase ref ∧
      ref ∈ state.claimOrder := by
  rcases update_spec updated with ⟨batch, found, allowed, isMoved, isNext⟩
  have movedIds : moved.actionIds = batch.actionIds := by
    rw [isMoved]
    exact (relabels batch).2
  have order : (next.prune ref).claimOrder = state.claimOrder.erase ref := by rw [isNext]; rfl
  have read (other : Nat) : (next.prune ref).batches.get? other =
      if other = ref then none else state.batches.get? other := by
    rw [isNext]
    change ((state.batches.set ref moved).erase ref).get? other = _
    rw [OrderedMap.get?_erase]
    split
    · rfl
    · next different => exact OrderedMap.get?_set_of_ne _ different _
  have kept : ∀ {other current}, (next.prune ref).batches.get? other = some current →
      other ≠ ref ∧ state.batches.get? other = some current := by
    intro other current currentFound
    rw [read] at currentFound
    split at currentFound
    · cases currentFound
    · next different => exact ⟨different, currentFound⟩
  refine ⟨?_, order, (tidy.listed ref).mpr ⟨batch, found⟩⟩
  constructor
  case distinct =>
    rw [order]
    exact tidy.distinct.erase ref
  case listed =>
    intro other
    rw [order, tidy.distinct.mem_erase_iff, tidy.listed, read]
    split
    · next same => simp [same]
    · next different => simp [different]
  case named => exact fun currentFound => tidy.named (kept currentFound).2
  case guarded =>
    intro id
    have guard : id ∈ (next.prune ref).inFlightIds ↔
        id ∈ state.inFlightIds ∧ (releases = true → id ∉ batch.actionIds) := by
      change id ∈ next.inFlightIds ↔ _
      rw [isNext, movedIds]
      cases releases with
      | true => simp
      | false => simp
    rw [guard, tidy.guarded]
    constructor
    · rintro ⟨⟨other, current, currentFound, undurable, member⟩, unreleased⟩
      have different : other ≠ ref := by
        rintro rfl
        rw [found] at currentFound
        cases currentFound
        rcases durable with released | wasDurable
        · exact unreleased released member
        · exact wasDurable batch.phase allowed undurable
      exact ⟨other, current, by rw [read, if_neg different, currentFound], undurable, member⟩
    · rintro ⟨other, current, currentFound, undurable, member⟩
      rcases kept currentFound with ⟨different, before⟩
      exact ⟨⟨other, current, before, undurable, member⟩,
        fun _ => tidy.apart before found different id member⟩
  case apart =>
    intro left right leftBatch rightBatch leftFound rightFound
    exact tidy.apart (kept leftFound).2 (kept rightFound).2
  case oldest =>
    intro other current currentFound applying
    rcases kept currentFound with ⟨different, before⟩
    have first := tidy.oldest before applying
    rw [order]
    cases claims : state.claimOrder with
    | nil =>
        rw [claims] at first
        cases first
    | cons head rest =>
        rw [claims] at first
        cases first
        rw [List.erase_cons_tail (by simpa using different)]
        rfl

end Transitions

/-! ## The head of the order -/

theorem isSome_mapM {α β : Type} {read : α → Option β} {keys : List α}
    (present : ∀ key ∈ keys, ∃ value, read key = some value) : (keys.mapM read).isSome := by
  induction keys with
  | nil => rfl
  | cons key rest induction =>
      rcases present key List.mem_cons_self with ⟨value, found⟩
      rcases Option.isSome_iff_exists.mp
        (induction fun other member => present other (List.mem_cons_of_mem key member)) with
        ⟨values, rests⟩
      rw [List.mapM_cons, found, rests]
      rfl

theorem releasable_head {state : Pipeline P} {batch : Batch P} {rest : List (Batch P)}
    (ready : state.releasable = some (batch :: rest)) :
    ∃ ref, state.claimOrder.head? = some ref ∧ state.batches.get? ref = some batch ∧
      batch.phase = .committed := by
  rw [releasable, openBatches, Option.map_eq_some_iff] at ready
  rcases ready with ⟨batches, opened, prefixed⟩
  cases claims : state.claimOrder with
  | nil =>
      rw [claims] at opened
      cases opened
      cases prefixed
  | cons ref claims' =>
      rw [claims, List.mapM_cons] at opened
      rcases Option.bind_eq_some_iff.mp opened with ⟨head, found, others⟩
      rcases Option.bind_eq_some_iff.mp others with ⟨tail, _, listed⟩
      cases listed
      rw [List.takeWhile_cons] at prefixed
      split at prefixed
      · next isCommitted =>
          cases prefixed
          exact ⟨ref, rfl, found, of_decide_eq_true isCommitted⟩
      · cases prefixed

/-! ## Runs keep the order -/

/-- The pipeline and what became of the claims: everything up to some claim was released,
in order, or abandoned, and nothing after it was released. -/
structure Sound (ledger : Ledger P) : Prop where
  tidy : Tidy ledger.pipeline
  distinct : ledger.claimed.Nodup
  ordered : ledger.pipeline.claimOrder.Sublist ledger.claimed
  parted : (ledger.pipeline.claimOrder ++ ledger.released ++ ledger.abandoned).Perm ledger.claimed
  settled : ∃ done rest, ledger.claimed = done ++ rest ∧ ledger.released.Sublist done ∧
    ∀ ref ∈ done, ref ∈ ledger.released ∨ ref ∈ ledger.abandoned

theorem sound_new : Sound (Ledger.new : Ledger P) where
  tidy := tidy_new
  distinct := List.nodup_nil
  ordered := List.Sublist.refl _
  parted := List.Perm.refl _
  settled := ⟨[], [], rfl, List.Sublist.refl _, by simp⟩

/-- A claim brings a reference never used before (`make_ref/0`) in the phase a new batch has,
and no id of an open batch: the guard refuses the ids in flight, and the dedup row those
that are durable. -/
def Admits (ledger : Ledger P) : Event P → Prop
  | .claim batch =>
      batch.phase = .claimed ∧ batch.ref ∉ ledger.claimed ∧
        ∀ entry ∈ ledger.pipeline.batches.entries, ∀ id ∈ entry.2.actionIds, id ∉ batch.actionIds
  | _ => True

instance (ledger : Ledger P) (event : Event P) : Decidable (Admits ledger event) := by
  cases event <;> unfold Admits <;> infer_instance

section Steps

variable {ledger : Ledger P} {ref : Nat}

theorem Sound.reorder (sound : Sound ledger) {next : Pipeline P} (tidy : Tidy next)
    (order : next.claimOrder = ledger.pipeline.claimOrder) :
    Sound { ledger with pipeline := next } where
  tidy := tidy
  distinct := sound.distinct
  ordered := order ▸ sound.ordered
  parted := order ▸ sound.parted
  settled := sound.settled

theorem Sound.move (sound : Sound ledger) {allowedFrom : List Phase} {target : Phase}
    {transform : Batch P → Batch P} {releases : Bool} (relabels : Relabels transform)
    (durable : if releases then ¬ Undurable target
      else ∀ phase ∈ allowedFrom, (Undurable phase ↔ Undurable target))
    (first : target = .applying → ledger.pipeline.claimOrder.head? = some ref) :
    Sound (ledger.move (ledger.pipeline.update ref allowedFrom target transform releases)) := by
  unfold Ledger.move
  split
  · next moved next updated =>
      rcases sound.tidy.move relabels durable first updated with ⟨tidy, order⟩
      exact sound.reorder tidy order
  · exact sound

theorem Sound.claim (sound : Sound ledger) {batch : Batch P}
    (admits : Admits ledger (.claim batch)) :
    Sound { ledger with
      pipeline := ledger.pipeline.claim batch
      claimed := ledger.claimed ++ [batch.ref] } := by
  rcases admits with ⟨phase, fresh, unguarded⟩
  constructor
  case tidy =>
    apply sound.tidy.claim (fun member => fresh (sound.ordered.subset member)) phase
    intro ref other found
    exact unguarded (ref, other) ((OrderedMap.get?_eq_some_iff _ _ _).mp found)
  case distinct =>
    exact List.nodup_append'.mpr ⟨sound.distinct, List.nodup_singleton _, by simpa using fresh⟩
  case ordered => exact sound.ordered.append (List.Sublist.refl [batch.ref])
  case parted =>
    change (ledger.pipeline.claimOrder ++ [batch.ref] ++ ledger.released ++
      ledger.abandoned).Perm (ledger.claimed ++ [batch.ref])
    have forward : (ledger.pipeline.claimOrder ++ [batch.ref] ++ ledger.released ++
        ledger.abandoned).Perm
          (batch.ref :: (ledger.pipeline.claimOrder ++ ledger.released ++ ledger.abandoned)) := by
      rw [List.append_assoc, List.append_assoc, List.singleton_append, List.append_assoc]
      exact List.perm_middle
    exact forward.trans
      ((sound.parted.cons batch.ref).trans (List.perm_append_singleton _ _).symm)
  case settled =>
    rcases sound.settled with ⟨done, rest, split, released, settled⟩
    refine ⟨done, rest ++ [batch.ref], ?_, released, settled⟩
    change ledger.claimed ++ [batch.ref] = done ++ (rest ++ [batch.ref])
    rw [split, List.append_assoc]

theorem Sound.accounted (sound : Sound ledger) (claimed : ref ∈ ledger.claimed) :
    ref ∈ ledger.pipeline.claimOrder ∨ ref ∈ ledger.released ∨ ref ∈ ledger.abandoned := by
  have member := sound.parted.mem_iff.mpr claimed
  rwa [List.mem_append, List.mem_append, or_assoc] at member

theorem Sound.open_unsettled (sound : Sound ledger) (opened : ref ∈ ledger.pipeline.claimOrder) :
    ref ∉ ledger.released ∧ ref ∉ ledger.abandoned := by
  have nodup := sound.parted.nodup_iff.mpr sound.distinct
  rw [List.append_assoc, List.nodup_append'] at nodup
  exact ⟨fun wasReleased => nodup.2.2 opened (List.mem_append_left _ wasReleased),
    fun wasAbandoned => nodup.2.2 opened (List.mem_append_right _ wasAbandoned)⟩

theorem notMem_before_head {head : Nat} {others before after : List Nat}
    (ordered : (head :: others).Sublist (before ++ head :: after))
    (distinct : (before ++ head :: after).Nodup) : ∀ ref ∈ head :: others, ref ∉ before := by
  induction before with
  | nil => simp
  | cons first before induction =>
      rw [List.cons_append, List.nodup_cons] at distinct
      have different : head ≠ first := by
        rintro rfl
        exact distinct.1 (by simp)
      have within : (head :: others).Sublist (before ++ head :: after) := by
        cases ordered with
        | cons _ within => exact within
        | cons_cons => exact absurd rfl different
      intro ref member
      rw [List.mem_cons, not_or]
      refine ⟨?_, induction within distinct.2 ref member⟩
      rintro rfl
      exact distinct.1 (within.subset member)

theorem Sound.abandoned (sound : Sound ledger) {next : Pipeline P} (tidy : Tidy next)
    (order : next.claimOrder = ledger.pipeline.claimOrder.erase ref)
    (opened : ref ∈ ledger.pipeline.claimOrder) :
    Sound { ledger with pipeline := next, abandoned := ledger.abandoned ++ [ref] } := by
  constructor
  case tidy => exact tidy
  case distinct => exact sound.distinct
  case ordered =>
    change next.claimOrder.Sublist ledger.claimed
    rw [order]
    exact List.erase_sublist.trans sound.ordered
  case parted =>
    change (next.claimOrder ++ ledger.released ++ (ledger.abandoned ++ [ref])).Perm ledger.claimed
    rw [order, ← List.append_assoc]
    have back : (ref :: (ledger.pipeline.claimOrder.erase ref ++ ledger.released ++
        ledger.abandoned)).Perm
          (ledger.pipeline.claimOrder ++ ledger.released ++ ledger.abandoned) :=
      (((List.perm_cons_erase opened).symm.append_right _).append_right _)
    exact (List.perm_append_singleton _ _).trans (back.trans sound.parted)
  case settled =>
    rcases sound.settled with ⟨done, rest, split, released, settled⟩
    refine ⟨done, rest, split, released, fun other member => ?_⟩
    rcases settled other member with wasReleased | wasAbandoned
    · exact .inl wasReleased
    · exact .inr (List.mem_append_left _ wasAbandoned)

theorem Sound.released (sound : Sound ledger) {next : Pipeline P} (tidy : Tidy next)
    (order : next.claimOrder = ledger.pipeline.claimOrder.erase ref)
    (oldest : ledger.pipeline.claimOrder.head? = some ref) :
    Sound { ledger with pipeline := next, released := ledger.released ++ [ref] } := by
  have opened : ref ∈ ledger.pipeline.claimOrder := List.mem_of_head? oldest
  constructor
  case tidy => exact tidy
  case distinct => exact sound.distinct
  case ordered =>
    change next.claimOrder.Sublist ledger.claimed
    rw [order]
    exact List.erase_sublist.trans sound.ordered
  case parted =>
    change (next.claimOrder ++ (ledger.released ++ [ref]) ++ ledger.abandoned).Perm ledger.claimed
    rw [order]
    have forward : (ledger.pipeline.claimOrder.erase ref ++ (ledger.released ++ [ref]) ++
        ledger.abandoned).Perm
          (ref :: (ledger.pipeline.claimOrder.erase ref ++ ledger.released ++
            ledger.abandoned)) := by
      rw [← List.append_assoc, List.append_assoc _ [ref], List.singleton_append]
      exact List.perm_middle
    have back : (ref :: (ledger.pipeline.claimOrder.erase ref ++ ledger.released ++
        ledger.abandoned)).Perm
          (ledger.pipeline.claimOrder ++ ledger.released ++ ledger.abandoned) :=
      (((List.perm_cons_erase opened).symm.append_right _).append_right _)
    exact forward.trans (back.trans sound.parted)
  case settled =>
    rcases sound.settled with ⟨done, rest, split, released, settled⟩
    have unsettled := sound.open_unsettled opened
    have later : ref ∈ rest := by
      have claimed := sound.ordered.subset opened
      rw [split] at claimed
      rcases List.mem_append.mp claimed with early | late
      · exact (settled ref early).elim (absurd · unsettled.1) (absurd · unsettled.2)
      · exact late
    rcases List.append_of_mem later with ⟨passed, after, restSplit⟩
    have whole : ledger.claimed = (done ++ passed) ++ ref :: after := by
      rw [split, restSplit, List.append_assoc]
    -- What was claimed before the oldest open claim is no longer open.
    have closed : ∀ other ∈ done ++ passed, other ∉ ledger.pipeline.claimOrder := by
      intro other member isOpen
      have ordered := sound.ordered
      have distinct := sound.distinct
      rw [whole] at ordered distinct
      cases claims : ledger.pipeline.claimOrder with
      | nil =>
          rw [claims] at isOpen
          cases isOpen
      | cons head others =>
          rw [claims] at oldest ordered isOpen
          cases oldest
          exact notMem_before_head ordered distinct other isOpen member
    refine ⟨done ++ passed ++ [ref], after, by rw [whole]; simp, ?_, ?_⟩
    · exact (released.trans (List.sublist_append_left done passed)).append (List.Sublist.refl [ref])
    · intro other member
      rcases List.mem_append.mp member with early | isRef
      · have claimed : other ∈ ledger.claimed := by
          rw [whole]
          exact List.mem_append_left _ early
        rcases sound.accounted claimed with isOpen | wasReleased | wasAbandoned
        · exact absurd isOpen (closed other early)
        · exact .inl (List.mem_append_left _ wasReleased)
        · exact .inr wasAbandoned
      · exact .inl (List.mem_append_right _ isRef)

theorem relabels_preparation (preparation : P) :
    Relabels fun batch : Batch P => { batch with preparation := some preparation } :=
  fun _ => ⟨rfl, rfl⟩

theorem relabels_owner (owner : Option Nat) :
    Relabels fun batch : Batch P => { batch with owner } :=
  fun _ => ⟨rfl, rfl⟩

theorem relabels_reason (reason : String) :
    Relabels fun batch : Batch P => { batch with reason := some reason } :=
  fun _ => ⟨rfl, rfl⟩

theorem Sound.settle (sound : Sound ledger) {moved : Batch P} {next : Pipeline P}
    (released : ledger.pipeline.release ref = .ok (moved, next)) :
    Sound { ledger with pipeline := next, released := ledger.released ++ [ref] } := by
  rw [release] at released
  cases updated : ledger.pipeline.update ref [.applying] .released id false with
  | error refused =>
      rw [updated] at released
      cases released
  | ok result =>
      rcases result with ⟨batch, after⟩
      rw [updated] at released
      cases released
      rcases update_spec updated with ⟨applied, found, allowed, _, _⟩
      have oldest := sound.tidy.oldest found (List.mem_singleton.mp allowed)
      rcases sound.tidy.close (fun _ => ⟨rfl, rfl⟩) (.inr (by decide)) updated with
        ⟨tidy, order, _⟩
      exact sound.released tidy order oldest

theorem Sound.abandon (sound : Sound ledger) {reason : String} {moved : Batch P}
    {next : Pipeline P} (abandoned : ledger.pipeline.abandon ref reason = .ok (moved, next)) :
    Sound { ledger with pipeline := next, abandoned := ledger.abandoned ++ [ref] } := by
  rw [Pipeline.abandon] at abandoned
  cases updated : ledger.pipeline.update ref [.claimed, .prepared, .committing, .committed]
      .abandoned (fun batch => { batch with reason := some reason }) true with
  | error refused =>
      rw [updated] at abandoned
      cases abandoned
  | ok result =>
      rcases result with ⟨batch, after⟩
      rw [updated] at abandoned
      cases abandoned
      rcases sound.tidy.close (relabels_reason reason) (.inl rfl) updated with
        ⟨tidy, order, opened⟩
      exact sound.abandoned tidy order opened

theorem Sound.apply (sound : Sound ledger) {batch : Batch P} {rest : List (Batch P)}
    (ready : ledger.pipeline.releasable = some (batch :: rest)) :
    Sound (ledger.move (ledger.pipeline.applying batch.ref)) := by
  rcases releasable_head ready with ⟨ref, oldest, found, _⟩
  rw [sound.tidy.named found]
  exact sound.move (fun _ => ⟨rfl, rfl⟩) (by decide) fun _ => oldest

theorem Sound.step (sound : Sound ledger) {event : Event P} (admits : Admits ledger event)
    {next : Ledger P} (stepped : ledger.step event = some next) : Sound next := by
  cases event with
  | claim batch =>
      cases stepped
      exact sound.claim admits
  | prepared ref preparation =>
      cases stepped
      exact sound.move (relabels_preparation preparation) (by decide) fun impossible => by
        cases impossible
  | reprepared ref preparation =>
      cases stepped
      exact sound.move (relabels_preparation preparation) (by decide) fun impossible => by
        cases impossible
  | committing ref owner =>
      cases stepped
      exact sound.move (relabels_owner owner) (by decide) fun impossible => by cases impossible
  | assignOwner ref owner =>
      cases stepped
      exact sound.move (relabels_owner (some owner)) (by decide) fun impossible => by
        cases impossible
  | committed ref =>
      cases stepped
      exact sound.move (fun _ => ⟨rfl, rfl⟩) (by decide) fun impossible => by cases impossible
  | apply =>
      rw [Ledger.step] at stepped
      split at stepped
      · cases stepped
      · cases stepped
        exact sound
      · next batch rest ready =>
          cases stepped
          exact sound.apply ready
  | settle ref =>
      rw [Ledger.step] at stepped
      split at stepped
      · next moved after released =>
          cases stepped
          exact sound.settle released
      · cases stepped
        exact sound
  | abandon ref reason =>
      rw [Ledger.step] at stepped
      split at stepped
      · next moved after abandoned =>
          cases stepped
          exact sound.abandon abandoned
      · cases stepped
        exact sound

end Steps

theorem sound_of_run {events : List (Event P)} {final : Ledger P}
    (admitted : Ledger.machine.Meets Admits .new events)
    (reached : Ledger.machine.run .new events = some final) : Sound final :=
  Machine.run_preserves (fun _ _ _ sound admits stepped => sound.step admits stepped)
    sound_new admitted reached

/-- In every run of the pipeline: the batches are released in the order of their claims, each
only when every earlier claim was released or abandoned; every claim is open, released or
abandoned, once and in one way; the guard holds exactly the ids of the open batches that
are not durable yet; and the order lists exactly the keys of the batch map, so reading it
never fails. -/
theorem ordered_of_run {events : List (Event P)} {final : Ledger P}
    (admitted : Ledger.machine.Meets Admits .new events)
    (reached : Ledger.machine.run .new events = some final) :
    final.released.Sublist final.claimed ∧
      (∀ before ref after, final.claimed = before ++ ref :: after → ref ∈ final.released →
        ∀ earlier ∈ before, earlier ∈ final.released ∨ earlier ∈ final.abandoned) ∧
      final.claimed.Nodup ∧
      (final.pipeline.claimOrder ++ final.released ++ final.abandoned).Perm final.claimed ∧
      (∀ id, id ∈ final.pipeline.inFlightIds ↔
        ∃ entry ∈ final.pipeline.batches.entries,
          Undurable entry.2.phase ∧ id ∈ entry.2.actionIds) ∧
      final.pipeline.claimOrder.Nodup ∧
      (∀ ref, ref ∈ final.pipeline.claimOrder ↔ ref ∈ final.pipeline.batches.keys) ∧
      final.pipeline.openBatches.isSome := by
  have sound := sound_of_run admitted reached
  rcases sound.settled with ⟨done, rest, split, released, settled⟩
  refine ⟨?_, ?_, sound.distinct, sound.parted, ?_, sound.tidy.distinct, ?_, ?_⟩
  · rw [split]
    exact released.trans (List.sublist_append_left done rest)
  · intro before ref after here wasReleased earlier member
    apply settled
    rcases List.append_of_mem (released.subset wasReleased) with ⟨previous, others, doneSplit⟩
    have once : ref ∉ before ∧ ref ∉ after := by
      have distinct := sound.distinct
      rw [here, List.nodup_middle, List.nodup_cons, List.mem_append, not_or] at distinct
      exact distinct.1
    have same : before = previous := by
      rw [split, doneSplit, List.append_assoc, List.cons_append] at here
      exact ((List.append_cons_inj_of_notMem once.1 once.2).mp here.symm).1
    rw [doneSplit, ← same]
    exact List.mem_append_left _ member
  · intro id
    rw [sound.tidy.guarded]
    constructor
    · rintro ⟨ref, batch, found, undurable, member⟩
      exact ⟨(ref, batch), (OrderedMap.get?_eq_some_iff _ _ _).mp found, undurable, member⟩
    · rintro ⟨⟨ref, batch⟩, found, undurable, member⟩
      exact ⟨ref, batch, (OrderedMap.get?_eq_some_iff _ _ _).mpr found, undurable, member⟩
  · intro ref
    rw [OrderedMap.mem_keys_iff]
    exact sound.tidy.listed ref
  · exact isSome_mapM fun ref member => (sound.tidy.listed ref).mp member

def singleAction (ref : Nat) (actionId : String) : Batch Unit where
  ref := ref
  gsnStart := ref
  gsnEnd := ref
  actionIds := [actionId]
  preparation := none
  owner := none
  reason := none
  phase := .claimed

/-- The second of three claims commits first and is released once the first is abandoned. -/
def secondFirst : List (Event Unit) :=
  [.claim (singleAction 1 "act_1"), .claim (singleAction 2 "act_2"),
    .claim (singleAction 3 "act_3"), .prepared 2 (), .committing 2 none, .committed 2, .apply,
    .abandon 1 "commit failed", .apply, .settle 2]

theorem ordered_secondFirst :
    ∃ final, Ledger.machine.run .new secondFirst = some final ∧
      final.released = [2] ∧ final.abandoned = [1] ∧ final.pipeline.claimOrder = [3] ∧
      [2].Sublist [1, 2, 3] := by
  have admitted : Ledger.machine.Meets Admits .new secondFirst := by decide
  exact ⟨_, rfl, rfl, rfl, rfl, (ordered_of_run admitted rfl).1⟩

/-- The guard is not the ids of all open batches: a durable batch is open until it is
released, and its ids have left the guard. -/
theorem guard_drops_durable_ids :
    ¬ ∀ (events : List (Event Unit)) (final : Ledger Unit),
      Ledger.machine.Meets Admits .new events → Ledger.machine.run .new events = some final →
        ∀ id, id ∈ final.pipeline.inFlightIds ↔
          ∃ entry ∈ final.pipeline.batches.entries, id ∈ entry.2.actionIds := by
  intro everywhere
  have unguarded := everywhere [.claim (singleAction 1 "act_1"), .prepared 1 (),
    .committing 1 none, .committed 1] _ (by decide) rfl "act_1"
  have opened := unguarded.mpr ⟨_, List.mem_cons_self, List.mem_cons_self⟩
  revert opened
  decide

end Pipeline

end Ebb.Server
