import Ebb.Access.ValidatedAction
import Ebb.Foundation.Occurrences
import Ebb.Server.Trackers
import Mathlib.Data.List.Forall2
import Mathlib.Data.List.Induction

namespace Ebb.Server.Flush

open Ebb.Access

/-! One flush of the Writer: the burst of calls it takes, the Actions of them that are
new, and the range of GSNs each caller is told. -/

variable {C P : Type}

/-! ## Planning -/

/-- A call waiting for the flush: whom to answer, and its Actions with their encoded
payloads. -/
structure PendingCall (C P : Type) where
  caller : C
  actions : List (ValidatedAction × P)

structure TaggedAction (P : Type) where
  callerIdx : Nat
  action : ValidatedAction
  payloadEtf : P

def TaggedAction.id (entry : TaggedAction P) : String := entry.action.id

/-- The Actions of a burst in arrival order, each with the position of its call. An
Action without Updates is left out. -/
def tag (pending : List (PendingCall C P)) : List (TaggedAction P) :=
  pending.zipIdx.flatMap fun (call, callerIdx) =>
    (call.actions.filter fun (action, _) => !action.updates.isEmpty).map
      fun (action, payloadEtf) => { callerIdx, action, payloadEtf }

/-- Drop what `cf_action_dedup` holds a row for. -/
def dropCommitted (dedup : List (String × Nat)) (tagged : List (TaggedAction P)) :
    List (TaggedAction P) :=
  let committed := (tagged.map TaggedAction.id).filter fun id => (dedup.lookup id).isSome
  tagged.filter fun entry => entry.id ∉ committed

/-- Keep the Actions whose ids no other batch holds. A Writer without the guard keeps
them all. -/
def claimInFlight (tagged : List (TaggedAction P)) :
    Option (List String) → List (TaggedAction P) × Option (List String)
  | none => (tagged, none)
  | some inFlightActions =>
      let (claimed, next) := InFlightActions.claim (tagged.map TaggedAction.id) inFlightActions
      (tagged.filter fun entry => entry.id ∈ claimed, some next)

def plan (pending : List (PendingCall C P)) (dedup : List (String × Nat))
    (inFlightActions : Option (List String)) : List (TaggedAction P) × Option (List String) :=
  claimInFlight (dropCommitted dedup (uniqBy TaggedAction.id (tag pending))) inFlightActions

/-- The first and last GSN of each caller that has an Action in the list. -/
def foundRanges (gsnStart : Nat) (freshTagged : List (TaggedAction P)) :
    List (Nat × (Nat × Nat)) :=
  freshTagged.zipIdx.foldl
    (fun acc (entry, i) =>
      match acc.lookup entry.callerIdx with
      | none => setEntry entry.callerIdx (gsnStart + i, gsnStart + i) acc
      | some (first, _) => setEntry entry.callerIdx (first, gsnStart + i) acc)
    []

/-- One range for each caller of the burst, where none is the empty range. -/
def callerRanges (freshTagged : List (TaggedAction P)) (callerCount gsnStart : Nat) :
    List (Nat × Option (Nat × Nat)) :=
  (List.range callerCount).map fun idx => (idx, (foundRanges gsnStart freshTagged).lookup idx)

inductive Reply where
  | ok (range : Nat × Nat)
  | error (reason : String)
deriving DecidableEq

def buildReply (outcome : Except String Unit) (range : Option (Nat × Nat)) : Reply :=
  match outcome, range with
  | .ok _, some (first, last) => .ok (first, last)
  | .ok _, none => .ok (0, 0)
  | .error reason, _ => .error reason

def replyAll (pending : List (PendingCall C P)) (ranges : List (Nat × Option (Nat × Nat)))
    (outcome : Except String Unit) : List (C × Reply) :=
  pending.zipIdx.map fun (call, callerIdx) =>
    (call.caller, buildReply outcome ((ranges.lookup callerIdx).getD none))

/-- What a flush claims and what it answers once its batch is durable. -/
structure Flushed (C P : Type) where
  freshTagged : List (TaggedAction P)
  inFlightActions : Option (List String)
  claimed : Option (Nat × Nat)
  counter : Nat
  replies : List (C × Reply)

/-- A burst with nothing new is answered at once and claims no range. -/
def flush (pending : List (PendingCall C P)) (dedup : List (String × Nat))
    (inFlightActions : Option (List String)) (gsnCounter : Nat) : Flushed C P :=
  let (freshTagged, inFlightActions) := plan pending dedup inFlightActions
  if freshTagged.isEmpty then
    { freshTagged, inFlightActions, claimed := none, counter := gsnCounter
      replies := replyAll pending [] (.ok ()) }
  else
    let (range, counter) := GsnCounter.claimGsnRange freshTagged.length gsnCounter
    let ranges := callerRanges freshTagged pending.length range.1
    { freshTagged, inFlightActions, claimed := some range, counter
      replies := replyAll pending ranges (.ok ()) }

variable {freshTagged : List (TaggedAction P)} (pending : List (PendingCall C P))
  (dedup : List (String × Nat)) (inFlightActions : Option (List String)) (gsnStart : Nat)

/-! ## The Actions that are new -/

theorem dropCommitted_eq (tagged : List (TaggedAction P)) :
    dropCommitted dedup tagged = tagged.filter fun entry => (dedup.lookup entry.id).isNone := by
  apply List.filter_congr
  intro entry member
  have listed : entry.id ∈ tagged.map TaggedAction.id := List.mem_map_of_mem member
  cases stored : dedup.lookup entry.id <;> simp [stored, listed]

theorem mem_claim {ids table : List String} (nodup : ids.Nodup) {id : String} :
    id ∈ (InFlightActions.claim ids table).1 ↔ id ∈ ids ∧ id ∉ table := by
  induction ids generalizing table with
  | nil => simp [InFlightActions.claim]
  | cons head rest induction =>
      have parts := List.nodup_cons.mp nodup
      simp only [InFlightActions.claim]
      split
      · next held =>
          rw [induction parts.2]
          grind
      · next free =>
          simp only [List.mem_cons, induction parts.2]
          grind

theorem claimInFlight_eq {tagged : List (TaggedAction P)}
    (nodup : (tagged.map TaggedAction.id).Nodup) (inFlightActions : Option (List String)) :
    (claimInFlight tagged inFlightActions).1 =
      tagged.filter fun entry => entry.id ∉ inFlightActions.getD [] := by
  cases inFlightActions with
  | none => simp [claimInFlight]
  | some table =>
      simp only [claimInFlight, Option.getD_some]
      apply List.filter_congr
      intro entry member
      have listed : entry.id ∈ tagged.map TaggedAction.id := List.mem_map_of_mem member
      simp [mem_claim nodup, listed]

theorem plan_eq :
    (plan pending dedup inFlightActions).1 =
      (uniqBy TaggedAction.id (tag pending)).filter fun entry =>
        (dedup.lookup entry.id).isNone && decide (entry.id ∉ inFlightActions.getD []) := by
  have nodup := nodup_uniqBy TaggedAction.id (tag pending)
  have kept : (dropCommitted dedup (uniqBy TaggedAction.id (tag pending))).Sublist
      (uniqBy TaggedAction.id (tag pending)) := List.filter_sublist
  rw [plan, claimInFlight_eq (nodup.sublist (kept.map _)), dropCommitted_eq, List.filter_filter]
  simp only [Bool.and_comm]

/-! ## Arrivals -/

/-- A call of the burst and an Action of that call, each by its position, where the Action
has Updates. -/
def Arrives (pending : List (PendingCall C P)) (arrival : Nat × Nat) (action : ValidatedAction)
    (payloadEtf : P) : Prop :=
  ∃ call, pending[arrival.1]? = some call ∧
    call.actions[arrival.2]? = some (action, payloadEtf) ∧ action.updates.isEmpty = false

def Earlier (left right : Nat × Nat) : Prop :=
  left.1 < right.1 ∨ left.1 = right.1 ∧ left.2 < right.2

theorem earlier_asymm {left right : Nat × Nat} (earlier : Earlier left right) :
    ¬ Earlier right left := by
  unfold Earlier at *
  omega

/-- The arrivals of a burst, in their order, with what `tag` makes of them. -/
def arrivalsOf (pending : List (PendingCall C P)) : List ((Nat × Nat) × TaggedAction P) :=
  pending.zipIdx.flatMap fun (call, callerIdx) =>
    (call.actions.zipIdx.filter fun entry => !entry.1.1.updates.isEmpty).map
      fun ((action, payloadEtf), place) =>
        ((callerIdx, place), { callerIdx, action, payloadEtf })

theorem map_arrivalsOf : (arrivalsOf pending).map Prod.snd = tag pending := by
  rw [arrivalsOf, List.map_flatMap, tag]
  apply List.flatMap_congr
  rintro ⟨call, callerIdx⟩ _
  dsimp only
  conv_rhs => rw [← List.zipIdx_map_fst 0 call.actions, List.filter_map, List.map_map]
  rw [List.map_map]
  rfl

theorem mem_arrivalsOf {pending : List (PendingCall C P)} {arrival : Nat × Nat}
    {entry : TaggedAction P} :
    (arrival, entry) ∈ arrivalsOf pending ↔
      entry.callerIdx = arrival.1 ∧ Arrives pending arrival entry.action entry.payloadEtf := by
  simp only [arrivalsOf, List.mem_flatMap, List.mem_map, List.mem_filter, Prod.exists,
    List.mem_zipIdx_iff_getElem?, Bool.not_eq_true', Arrives]
  constructor
  · rintro ⟨call, callerIdx, stored, action, payloadEtf, place, ⟨here, kept⟩, same⟩
    cases same
    exact ⟨rfl, call, stored, here, kept⟩
  · rintro ⟨same, call, stored, here, kept⟩
    refine ⟨call, arrival.1, stored, entry.action, entry.payloadEtf, arrival.2, ⟨here, kept⟩, ?_⟩
    rcases entry with ⟨callerIdx, action, payloadEtf⟩
    cases same
    rfl

/-- An entry of `tag` is an Action with Updates of the call that its index names. -/
theorem mem_tag {pending : List (PendingCall C P)} {entry : TaggedAction P} :
    entry ∈ tag pending ↔
      ∃ place, Arrives pending (entry.callerIdx, place) entry.action entry.payloadEtf := by
  rw [← map_arrivalsOf, List.mem_map]
  constructor
  · rintro ⟨⟨arrival, other⟩, member, rfl⟩
    rcases mem_arrivalsOf.mp member with ⟨same, arrives⟩
    refine ⟨arrival.2, ?_⟩
    rw [same]
    exact arrives
  · rintro ⟨place, arrives⟩
    exact ⟨(_, entry), mem_arrivalsOf.mpr ⟨rfl, arrives⟩, rfl⟩

theorem arrivalsOf_ordered :
    (arrivalsOf pending).Pairwise fun left right => Earlier left.1 right.1 := by
  have places : ∀ {α : Type} (list : List α) (start : Nat),
      (list.zipIdx start).Pairwise fun left right => left.2 < right.2 := by
    intro α list start
    have increasing : (((list.zipIdx start).map Prod.snd).Pairwise (· < ·)) := by
      rw [List.zipIdx_map_snd]
      exact List.pairwise_lt_range'
    exact List.pairwise_map.mp increasing
  rw [arrivalsOf, List.pairwise_flatMap]
  constructor
  · rintro ⟨call, callerIdx⟩ _
    rw [List.pairwise_map]
    exact ((places call.actions 0).filter _).imp fun before => .inr ⟨rfl, before⟩
  · apply (places pending 0).imp
    intro left right before first firstMember second secondMember
    rcases List.mem_map.mp firstMember with ⟨_, _, rfl⟩
    rcases List.mem_map.mp secondMember with ⟨_, _, rfl⟩
    exact .inl before

theorem tag_ordered :
    (tag pending).Pairwise fun left right => left.callerIdx ≤ right.callerIdx := by
  rw [← map_arrivalsOf, List.pairwise_map]
  apply (arrivalsOf_ordered pending).imp_of_mem
  intro left right leftMember rightMember earlier
  rw [(mem_arrivalsOf.mp leftMember).1, (mem_arrivalsOf.mp rightMember).1]
  rcases earlier with before | same
  · exact Nat.le_of_lt before
  · exact Nat.le_of_eq same.1

theorem callerIdx_lt {pending : List (PendingCall C P)} {entry : TaggedAction P}
    (member : entry ∈ tag pending) : entry.callerIdx < pending.length := by
  rcases mem_tag.mp member with ⟨_, call, stored, _⟩
  exact (List.getElem?_eq_some_iff.mp stored).1

/-- The Action that arrived there is kept: the first with its id, and neither durable nor in
flight. -/
def Survives (pending : List (PendingCall C P)) (dedup : List (String × Nat))
    (inFlightActions : Option (List String)) (arrival : Nat × Nat) : Prop :=
  ∃ action payloadEtf, Arrives pending arrival action payloadEtf ∧
    (∀ earlier other payload, Arrives pending earlier other payload → Earlier earlier arrival →
      other.id ≠ action.id) ∧
    dedup.lookup action.id = none ∧ action.id ∉ inFlightActions.getD []

/-- The arrivals that are kept, in their order. -/
def survivors (pending : List (PendingCall C P)) (dedup : List (String × Nat))
    (inFlightActions : Option (List String)) : List ((Nat × Nat) × TaggedAction P) :=
  (uniqBy (TaggedAction.id ∘ Prod.snd) (arrivalsOf pending)).filter fun entry =>
    (dedup.lookup entry.2.id).isNone && decide (entry.2.id ∉ inFlightActions.getD [])

theorem map_survivors :
    (survivors pending dedup inFlightActions).map Prod.snd =
      (plan pending dedup inFlightActions).1 := by
  rw [plan_eq, ← map_arrivalsOf, ← map_uniqBy, List.filter_map]
  rfl

theorem survivors_sublist :
    (survivors pending dedup inFlightActions).Sublist (arrivalsOf pending) :=
  List.filter_sublist.trans (uniqBy_sublist _ _)

theorem mem_survivors {arrival : Nat × Nat} :
    arrival ∈ (survivors pending dedup inFlightActions).map Prod.fst ↔
      Survives pending dedup inFlightActions arrival := by
  have ordered := arrivalsOf_ordered pending
  simp only [survivors, List.mem_map, List.mem_filter, mem_uniqBy, Bool.and_eq_true,
    Option.isNone_iff_eq_none, decide_eq_true_eq]
  constructor
  · rintro ⟨⟨place, entry⟩, ⟨⟨before, after, split, first⟩, new⟩, rfl⟩
    have member : (place, entry) ∈ arrivalsOf pending := by
      rw [split]
      exact List.mem_append_right _ List.mem_cons_self
    refine ⟨_, _, (mem_arrivalsOf.mp member).2, ?_, new⟩
    intro earlier other payload arrives comes
    have listed : (earlier, (⟨earlier.1, other, payload⟩ : TaggedAction P)) ∈
        arrivalsOf pending := mem_arrivalsOf.mpr ⟨rfl, arrives⟩
    rw [split] at listed ordered
    have parts := List.pairwise_cons.mp (List.pairwise_append.mp ordered).2.1
    simp only [List.mem_append, List.mem_cons] at listed
    rcases listed with inBefore | here | inAfter
    · exact first _ inBefore
    · cases here
      exact absurd comes (earlier_asymm comes)
    · exact absurd comes (earlier_asymm (parts.1 _ inAfter))
  · rintro ⟨action, payloadEtf, arrives, first, new⟩
    have member : (arrival, (⟨arrival.1, action, payloadEtf⟩ : TaggedAction P)) ∈
        arrivalsOf pending := mem_arrivalsOf.mpr ⟨rfl, arrives⟩
    rcases List.append_of_mem member with ⟨before, after, split⟩
    refine ⟨_, ⟨⟨before, after, split, ?_⟩, new⟩, rfl⟩
    intro other inBefore
    have listed : other ∈ arrivalsOf pending := by
      rw [split]
      exact List.mem_append_left _ inBefore
    rw [split] at ordered
    exact first _ _ _ (mem_arrivalsOf.mp listed).2
      ((List.pairwise_append.mp ordered).2.2 _ inBefore _ List.mem_cons_self)

theorem plan_sublist : (plan pending dedup inFlightActions).1.Sublist (tag pending) := by
  rw [plan_eq]
  exact List.filter_sublist.trans (uniqBy_sublist _ _)

/-! ## The range of one caller -/

/-- What the fold knows of a caller after some Actions in order of their callers. -/
def rangeBelow (gsnStart : Nat) (freshTagged : List (TaggedAction P)) (idx : Nat) :
    Option (Nat × Nat) :=
  let before := countBelow TaggedAction.callerIdx freshTagged idx
  let through := countBelow TaggedAction.callerIdx freshTagged (idx + 1)
  if before < through then some (gsnStart + before, gsnStart + (through - 1)) else none

theorem foundRanges_concat (before : List (TaggedAction P)) (entry : TaggedAction P) :
    foundRanges gsnStart (before ++ [entry]) =
      match (foundRanges gsnStart before).lookup entry.callerIdx with
      | none => setEntry entry.callerIdx (gsnStart + before.length, gsnStart + before.length)
          (foundRanges gsnStart before)
      | some (first, _) => setEntry entry.callerIdx (first, gsnStart + before.length)
          (foundRanges gsnStart before) := by
  simp [foundRanges, List.zipIdx_append, List.foldl_append]

theorem lookup_foundRanges
    (ordered : freshTagged.Pairwise fun left right => left.callerIdx ≤ right.callerIdx) (idx : Nat)
    :
    (foundRanges gsnStart freshTagged).lookup idx = rangeBelow gsnStart freshTagged idx := by
  induction freshTagged using List.reverseRecOn generalizing idx with
  | nil => simp [foundRanges, rangeBelow, countBelow]
  | append_singleton before entry induction =>
      have parts := List.pairwise_append.mp ordered
      have last : ∀ other ∈ before, other.callerIdx < entry.callerIdx + 1 := fun other member =>
        Nat.lt_succ_of_le (parts.2.2 other member entry List.mem_cons_self)
      have all := countBelow_eq_length TaggedAction.callerIdx last
      have beyond : ∀ bound, entry.callerIdx < bound →
          countBelow TaggedAction.callerIdx before bound = before.length := fun bound later =>
        countBelow_eq_length _ fun other member => Nat.lt_of_lt_of_le (last other member) later
      have bounded : countBelow TaggedAction.callerIdx before entry.callerIdx ≤ before.length :=
        List.countP_le_length
      have here := induction parts.1 entry.callerIdx
      simp only [rangeBelow, all] at here
      rw [foundRanges_concat]
      by_cases same : idx = entry.callerIdx
      · subst same
        simp only [rangeBelow, countBelow_concat, all, Nat.lt_irrefl, Nat.lt_succ_self, if_true,
          if_false, Nat.add_zero, Nat.add_sub_cancel]
        rw [if_pos (by omega)]
        split at here
        · next some => simp [here, lookup_setEntry_self]
        · next none =>
            have full : countBelow TaggedAction.callerIdx before entry.callerIdx =
              before.length := by omega
            simp [here, full, lookup_setEntry_self]
      · have kept : ∀ (range : Nat × Nat) (acc : List (Nat × (Nat × Nat))),
            (setEntry entry.callerIdx range acc).lookup idx = acc.lookup idx :=
          fun range acc => lookup_setEntry_of_ne same range acc
        have unchanged : rangeBelow gsnStart (before ++ [entry]) idx =
            rangeBelow gsnStart before idx := by
          simp only [rangeBelow, countBelow_concat]
          by_cases later : entry.callerIdx < idx
          · simp [beyond idx later, beyond (idx + 1) (by omega), later, Nat.lt_succ_of_lt later]
          · have earlier : ¬ entry.callerIdx < idx + 1 := by omega
            simp [later, earlier]
        rw [unchanged, ← induction parts.1]
        split <;> simp [kept]

/-! ## The ranges together -/

/-- Ranges that follow one another without a gap; an empty one takes no place. -/
def Tiles : Nat → List (Nat × Nat) → Nat → Prop
  | next, [], last => next = last + 1
  | next, range :: rest, last =>
      range = (0, 0) ∧ Tiles next rest last ∨
        range.1 = next ∧ next ≤ range.2 ∧ Tiles (range.2 + 1) rest last

def repliedRange (gsnStart : Nat) (freshTagged : List (TaggedAction P)) (idx : Nat) : Nat × Nat :=
  (rangeBelow gsnStart freshTagged idx).getD (0, 0)

theorem tiles_repliedRange {gsnStart : Nat} (positive : 0 < gsnStart)
    (freshTagged : List (TaggedAction P)) (count start : Nat) :
    Tiles (gsnStart + countBelow TaggedAction.callerIdx freshTagged start)
      ((List.range' start count).map (repliedRange gsnStart freshTagged))
      (gsnStart + countBelow TaggedAction.callerIdx freshTagged (start + count) - 1) := by
  induction count generalizing start with
  | zero =>
      simp only [List.range'_zero, List.map_nil, Tiles, Nat.add_zero]
      omega
  | succ count induction =>
      have mono := countBelow_mono TaggedAction.callerIdx freshTagged (Nat.le_add_right start 1)
      have rest := induction (start + 1)
      rw [show start + 1 + count = start + (count + 1) by omega] at rest
      simp only [List.range'_succ, List.map_cons, Tiles, repliedRange, rangeBelow]
      split
      · next some =>
          right
          simp only [Option.getD_some]
          refine ⟨trivial, by omega, ?_⟩
          rw [show gsnStart + (countBelow TaggedAction.callerIdx freshTagged (start + 1) - 1) + 1 =
            gsnStart + countBelow TaggedAction.callerIdx freshTagged (start + 1) by omega]
          exact rest
      · next none =>
          left
          rw [show countBelow TaggedAction.callerIdx freshTagged start =
            countBelow TaggedAction.callerIdx freshTagged (start + 1) by omega]
          exact ⟨rfl, rest⟩

theorem mem_repliedRange {gsnStart : Nat} (positive : 0 < gsnStart)
    (ordered : freshTagged.Pairwise fun left right => left.callerIdx ≤ right.callerIdx)
    {place : Nat} {entry : TaggedAction P} (found : freshTagged[place]? = some entry) (idx : Nat) :
    entry.callerIdx = idx ↔
      (repliedRange gsnStart freshTagged idx).1 ≤ gsnStart + place ∧
        gsnStart + place ≤ (repliedRange gsnStart freshTagged idx).2 := by
  have low := rank_lt_iff TaggedAction.callerIdx ordered found idx
  have high := rank_lt_iff TaggedAction.callerIdx ordered found (idx + 1)
  simp only [repliedRange, rangeBelow]
  split <;> simp only [Option.getD_some, Option.getD_none] <;> omega

theorem repliedRange_of_absent {gsnStart : Nat} {idx : Nat}
    (absent : ∀ entry ∈ freshTagged, entry.callerIdx ≠ idx) :
    repliedRange gsnStart freshTagged idx = (0, 0) := by
  have same : countBelow TaggedAction.callerIdx freshTagged (idx + 1) =
      countBelow TaggedAction.callerIdx freshTagged idx := by
    apply List.countP_congr
    intro entry member
    have different := absent entry member
    simp only [decide_eq_true_eq]
    omega
  simp [repliedRange, rangeBelow, same]

theorem replyAll_callerRanges
    (ordered : freshTagged.Pairwise fun left right => left.callerIdx ≤ right.callerIdx)
    (pending : List (PendingCall C P)) :
    replyAll pending (callerRanges freshTagged pending.length gsnStart) (.ok ()) =
      pending.zipIdx.map fun (call, idx) =>
        (call.caller, .ok (repliedRange gsnStart freshTagged idx)) := by
  apply List.map_congr_left
  rintro ⟨call, idx⟩ listed
  have bound : idx ∈ List.range pending.length := by
    simpa using (List.mem_zipIdx listed).2.1
  simp only [callerRanges, lookup_foundRanges gsnStart ordered, repliedRange]
  rw [List.lookup_graph (rangeBelow gsnStart freshTagged) bound, Option.getD_some]
  cases rangeBelow gsnStart freshTagged idx <;> rfl

theorem replyAll_nil (pending : List (PendingCall C P)) :
    replyAll pending [] (.ok ()) = pending.zipIdx.map fun (call, idx) =>
      (call.caller, .ok (repliedRange gsnStart ([] : List (TaggedAction P)) idx)) := by
  apply List.map_congr_left
  rintro ⟨call, idx⟩ _
  simp [buildReply, repliedRange, rangeBelow, countBelow]

theorem flush_replies (pending : List (PendingCall C P)) (dedup : List (String × Nat))
    (inFlightActions : Option (List String)) (gsnCounter : Nat) :
    let result := flush pending dedup inFlightActions gsnCounter
    result.freshTagged = (plan pending dedup inFlightActions).1 ∧
      result.claimed = (if result.freshTagged.isEmpty then none
        else some (gsnCounter + 1, gsnCounter + result.freshTagged.length)) ∧
      result.replies = pending.zipIdx.map fun (call, idx) =>
        (call.caller, .ok (repliedRange (gsnCounter + 1) result.freshTagged idx)) := by
  have ordered := (tag_ordered pending).sublist (plan_sublist pending dedup inFlightActions)
  cases empty : (plan pending dedup inFlightActions).1.isEmpty with
  | true =>
      have none := List.isEmpty_iff.mp empty
      simp only [flush, none, replyAll_nil (gsnCounter + 1) pending]
      exact ⟨rfl, rfl, rfl⟩
  | false =>
      have start : gsnCounter + (plan pending dedup inFlightActions).1.length -
          (plan pending dedup inFlightActions).1.length + 1 = gsnCounter + 1 := by omega
      simp only [flush, empty, Bool.false_eq_true, if_false, GsnCounter.claimGsnRange, start,
        replyAll_callerRanges _ ordered]
      exact ⟨trivial, trivial, trivial⟩

/-- What a flush does to the arrivals it keeps: they get the claimed GSNs in order, and
every call is answered with those of its own Actions. -/
structure RangesExact (pending : List (PendingCall C P)) (dedup : List (String × Nat))
    (inFlightActions : Option (List String)) (gsnCounter : Nat) (arrivals : List (Nat × Nat))
    (result : Flushed C P) : Prop where
  /-- The first occurrence of an id is kept, unless the id is durable or in flight. -/
  kept : ∀ arrival, arrival ∈ arrivals ↔ Survives pending dedup inFlightActions arrival
  ordered : arrivals.Pairwise Earlier
  fresh : List.Forall₂ (fun arrival entry => Arrives pending arrival entry.action entry.payloadEtf)
    arrivals result.freshTagged
  once : (result.freshTagged.map TaggedAction.id).Nodup
  claimed : result.claimed = if arrivals.isEmpty then none
    else some (gsnCounter + 1, gsnCounter + arrivals.length)
  callers : result.replies.map Prod.fst = pending.map PendingCall.caller
  /-- The replied ranges tile the claimed one, and each holds the GSNs of its own call. -/
  ranges : ∃ ranges : List (Nat × Nat),
    result.replies.map Prod.snd = ranges.map Reply.ok ∧
      Tiles (gsnCounter + 1) ranges (gsnCounter + arrivals.length) ∧
      ∀ idx range, ranges[idx]? = some range →
        (∀ place arrival, arrivals[place]? = some arrival →
          (arrival.1 = idx ↔
            range.1 ≤ gsnCounter + 1 + place ∧ gsnCounter + 1 + place ≤ range.2)) ∧
        ((∀ arrival, Survives pending dedup inFlightActions arrival → arrival.1 ≠ idx) →
          range = (0, 0))

theorem ranges_exact (pending : List (PendingCall C P)) (dedup : List (String × Nat))
    (inFlightActions : Option (List String)) (gsnCounter : Nat) :
    ∃ arrivals, RangesExact pending dedup inFlightActions gsnCounter arrivals
      (flush pending dedup inFlightActions gsnCounter) := by
  obtain ⟨fresh, claimed, replies⟩ := flush_replies pending dedup inFlightActions gsnCounter
  have kept := plan_sublist pending dedup inFlightActions
  have ordered := (tag_ordered pending).sublist kept
  have placed := map_survivors pending dedup inFlightActions
  have within := survivors_sublist pending dedup inFlightActions
  rw [← fresh] at kept ordered placed
  have size : (flush pending dedup inFlightActions gsnCounter).freshTagged.length =
      ((survivors pending dedup inFlightActions).map Prod.fst).length := by
    rw [← placed, List.length_map, List.length_map]
  refine ⟨(survivors pending dedup inFlightActions).map Prod.fst, ?_⟩
  constructor
  case kept => exact fun arrival => mem_survivors pending dedup inFlightActions
  case ordered => exact List.pairwise_map.mpr ((arrivalsOf_ordered pending).sublist within)
  case fresh =>
    rw [← placed, List.forall₂_map_left_iff, List.forall₂_map_right_iff, List.forall₂_same]
    exact fun entry member => (mem_arrivalsOf.mp (within.subset member)).2
  case once =>
    rw [fresh, plan_eq]
    exact (nodup_uniqBy TaggedAction.id (tag pending)).sublist (List.filter_sublist.map _)
  case claimed =>
    rw [claimed, ← size, ← placed, List.isEmpty_map, List.isEmpty_map]
  case callers =>
    rw [replies, List.map_map]
    conv_rhs => rw [← List.zipIdx_map_fst 0 pending, List.map_map]
    rfl
  case ranges =>
    have all := countBelow_eq_length TaggedAction.callerIdx
      fun entry member => callerIdx_lt (kept.subset member)
    have tiles := tiles_repliedRange (Nat.succ_pos gsnCounter)
      (flush pending dedup inFlightActions gsnCounter).freshTagged pending.length 0
    rw [Nat.zero_add, all, countBelow_zero] at tiles
    refine ⟨(List.range' 0 pending.length).map (repliedRange (gsnCounter + 1)
      (flush pending dedup inFlightActions gsnCounter).freshTagged), ?_, ?_, ?_⟩
    · rw [replies, List.map_map, List.map_map, ← List.zipIdx_map_snd 0 pending, List.map_map]
      rfl
    · rw [← size]
      rwa [show gsnCounter + 1 + (flush pending dedup inFlightActions gsnCounter).freshTagged.length
        - 1 = gsnCounter + (flush pending dedup inFlightActions gsnCounter).freshTagged.length by
          omega] at tiles
    · intro idx range found
      rw [List.getElem?_map, Option.map_eq_some_iff] at found
      obtain ⟨place, listed, rfl⟩ := found
      have same : place = idx := by
        obtain ⟨_, value⟩ := List.getElem?_eq_some_iff.mp listed
        simpa using value.symm
      subst same
      constructor
      · intro position arrival here
        rw [List.getElem?_map, Option.map_eq_some_iff] at here
        obtain ⟨⟨_, entry⟩, listed, rfl⟩ := here
        have tagged := (mem_arrivalsOf.mp (within.subset (List.mem_of_getElem? listed))).1
        have found : (flush pending dedup inFlightActions gsnCounter).freshTagged[position]? =
            some entry := by
          rw [← placed, List.getElem?_map, listed]
          rfl
        rw [← tagged]
        exact mem_repliedRange (Nat.succ_pos gsnCounter) ordered found place
      · intro absent
        apply repliedRange_of_absent
        intro entry member
        rw [← placed] at member
        obtain ⟨⟨arrival, _⟩, listed, rfl⟩ := List.mem_map.mp member
        rw [(mem_arrivalsOf.mp (within.subset listed)).1]
        exact absent arrival ((mem_survivors pending dedup inFlightActions).mp
          (List.mem_map_of_mem listed))

def oneUpdate (id : String) : ValidatedAction × Unit :=
  ({ id, actorId := "usr_1", hlc := 1, updates := [
      { id := "upd_1", subjectId := "e_1", subjectType := "note", method := .delete,
        data := .null }] }, ())

/-- The second caller brings nothing new, the third a repeated Action and one of its own. -/
example :
    let pending : List (PendingCall Nat Unit) := [
      { caller := 7, actions := [oneUpdate "a_1", oneUpdate "a_2"] },
      { caller := 8, actions := [oneUpdate "a_2", oneUpdate "a_3"] },
      { caller := 9, actions := [oneUpdate "a_1", oneUpdate "a_4"] }]
    (flush pending [("a_3", 2)] (some []) 5).replies =
      [(7, .ok (6, 7)), (8, .ok (0, 0)), (9, .ok (8, 8))] := by decide

end Ebb.Server.Flush
