import Ebb.Foundation.Machine
import Ebb.Server.Trackers
import Mathlib.Data.List.Pairwise

namespace Ebb.Server.WatermarkTracker

/-! The resolution frontier under callers that mark and advance at once. Every operation
on the table and on the counter is one step, and the steps of the callers interleave
freely. -/

/-- How far one call of `advance_watermark/1` has come; `current` is the frontier it read. -/
inductive Advance where
  | idle
  | started
  | pruning (current : Nat)
  | searching (current : Nat)
  | found (current first : Nat)
  | exchanging (current last : Nat)
  | checking (current : Nat)
deriving DecidableEq

structure Tracking where
  tracker : WatermarkTracker
  callers : Nat → Advance

inductive Event where
  | mark (first last : Nat)
  | call (caller : Nat)
  | step (caller : Nat)
deriving DecidableEq

namespace Tracking

def initial (initialGsn : Nat) : Tracking where
  tracker := { watermark := initialGsn, ranges := [] }
  callers _ := .idle

/-! ## Steps -/

/-- `:ets.prev(table, gsn + 1)`: the largest first GSN at or below `gsn`. -/
def previousFirst (ranges : List (Nat × Nat)) (gsn : Nat) : Option Nat :=
  ((ranges.map Prod.fst).filter (· < gsn + 1)).max?

/-- One table or counter operation of a call, and how far it has come then. -/
def advanceStep (tracker : WatermarkTracker) : Advance → Option (WatermarkTracker × Advance)
  | .idle => none
  | .started => some (tracker, .pruning tracker.watermark)
  | .pruning current =>
      some ({ tracker with ranges := pruneResolved tracker.ranges current }, .searching current)
  | .searching current =>
      match previousFirst tracker.ranges (current + 1) with
      | none => some (tracker, .checking current)
      | some first => some (tracker, .found current first)
  | .found current first =>
      match tracker.ranges.lookup first with
      | some last =>
          if current + 1 ≤ last then some (tracker, .exchanging current last)
          else some (tracker, .checking current)
      | none => some (tracker, .checking current)
  | .exchanging current last =>
      if tracker.watermark = current then some ({ tracker with watermark := last }, .started)
      else some (tracker, .started)
  | .checking current =>
      if tracker.watermark > current then some (tracker, .started) else some (tracker, .idle)

def setCaller (callers : Nat → Advance) (caller : Nat) (advance : Advance) : Nat → Advance :=
  fun other => if other = caller then advance else callers other

def step (s : Tracking) : Event → Option Tracking
  | .mark first last =>
      if first ≤ last then some { s with tracker := s.tracker.markRangeCommitted first last }
      else none
  | .call caller =>
      if s.callers caller = .idle then
        some { s with callers := setCaller s.callers caller .started }
      else none
  | .step caller =>
      (advanceStep s.tracker (s.callers caller)).map fun (tracker, advance) =>
        { tracker, callers := setCaller s.callers caller advance }

def machine (initialGsn : Nat) : Machine Tracking Event where
  initial := initial initialGsn
  step := step

end Tracking

def marked (events : List Event) : List (Nat × Nat) :=
  events.filterMap fun event =>
    match event with
    | .mark first last => some (first, last)
    | _ => none

def Covered (ranges : List (Nat × Nat)) (gsn : Nat) : Prop :=
  ∃ range ∈ ranges, range.1 ≤ gsn ∧ gsn ≤ range.2

def Separate (left right : Nat × Nat) : Prop := left.2 < right.1 ∨ right.2 < left.1

instance : Std.Symm Separate where
  symm _ _ := Or.symm

instance (left right : Nat × Nat) : Decidable (Separate left right) :=
  inferInstanceAs (Decidable (_ ∨ _))

def Disjoint (ranges : List (Nat × Nat)) : Prop := ranges.Pairwise Separate

instance (ranges : List (Nat × Nat)) : Decidable (Disjoint ranges) :=
  inferInstanceAs (Decidable (ranges.Pairwise _))

/-- Every GSN after the initial one up to `frontier` is covered. -/
def CoveredTo (initialGsn : Nat) (ranges : List (Nat × Nat)) (frontier : Nat) : Prop :=
  ∀ gsn, initialGsn < gsn → gsn ≤ frontier → Covered ranges gsn

/-- The largest GSN up to which everything after the initial one is covered. -/
def IsFrontier (initialGsn : Nat) (ranges : List (Nat × Nat)) (frontier : Nat) : Prop :=
  initialGsn ≤ frontier ∧ CoveredTo initialGsn ranges frontier ∧
    ∀ further, CoveredTo initialGsn ranges further → further ≤ frontier

theorem marked_append (before after : List Event) :
    marked (before ++ after) = marked before ++ marked after :=
  List.filterMap_append

theorem Covered.mono {ranges others : List (Nat × Nat)} {gsn : Nat} (covered : Covered ranges gsn)
    (subset : ∀ range ∈ ranges, range ∈ others) : Covered others gsn := by
  rcases covered with ⟨range, member, covers⟩
  exact ⟨range, subset range member, covers⟩

theorem Disjoint.unique {ranges : List (Nat × Nat)} (disjoint : Disjoint ranges)
    {left right : Nat × Nat} (leftMember : left ∈ ranges) (rightMember : right ∈ ranges)
    {gsn : Nat} (leftHolds : left.1 ≤ gsn ∧ gsn ≤ left.2)
    (rightHolds : right.1 ≤ gsn ∧ gsn ≤ right.2) : left = right := by
  by_contra different
  have apart : left.2 < right.1 ∨ right.2 < left.1 :=
    disjoint.forall leftMember rightMember different
  omega

/-! ## The table -/

/-- What the table and the counter say about the ranges marked so far. -/
structure Follows (initialGsn : Nat) (ranges : List (Nat × Nat)) (tracker : WatermarkTracker) :
    Prop where
  proper : ∀ range ∈ ranges, range.1 ≤ range.2
  disjoint : Disjoint ranges
  rows : ∀ row ∈ tracker.ranges, row ∈ ranges
  /-- A range that reaches beyond the frontier is a row. -/
  kept : ∀ range ∈ ranges, tracker.watermark < range.2 → range ∈ tracker.ranges
  reached : CoveredTo initialGsn ranges tracker.watermark
  started : initialGsn ≤ tracker.watermark

/-- What a call holds of the frontier and the table. -/
def Holds (ranges : List (Nat × Nat)) (tracker : WatermarkTracker) : Advance → Prop
  | .idle => True
  | .started => True
  | .pruning current => current ≤ tracker.watermark
  | .searching current => current ≤ tracker.watermark
  | .found current first =>
      current ≤ tracker.watermark ∧ first ≤ current + 1
  | .exchanging current last =>
      current ≤ tracker.watermark ∧
        ∃ first, (first, last) ∈ ranges ∧ first ≤ current + 1 ∧ current + 1 ≤ last
  | .checking current => current ≤ tracker.watermark

section Table

variable {initialGsn : Nat} {ranges : List (Nat × Nat)} {tracker : WatermarkTracker}

theorem mem_pruneResolved_iff {rows : List (Nat × Nat)} {watermark : Nat} {row : Nat × Nat} :
    row ∈ pruneResolved rows watermark ↔ row ∈ rows ∧ (watermark = 0 ∨ watermark < row.2) := by
  rw [pruneResolved]
  split
  · next zero => simp [Nat.le_zero.mp zero]
  · next positive =>
      have nonzero : watermark ≠ 0 := fun zero => positive (Nat.le_of_eq zero)
      simp [nonzero]

theorem Follows.lookup (follows : Follows initialGsn ranges tracker) {first last : Nat}
    (row : (first, last) ∈ tracker.ranges) : tracker.ranges.lookup first = some last := by
  have present : (tracker.ranges.lookup first).isSome = true := by
    rw [lookup_isSome_iff_mem_keys]
    exact List.mem_map.mpr ⟨_, row, rfl⟩
  rcases Option.isSome_iff_exists.mp present with ⟨other, read⟩
  have otherRow := follows.rows _ (mem_of_lookup_eq_some read)
  have firstRow := follows.rows _ row
  have same := follows.disjoint.unique otherRow firstRow
    ⟨Nat.le_refl first, follows.proper _ otherRow⟩ ⟨Nat.le_refl first, follows.proper _ firstRow⟩
  rw [read, (Prod.mk.inj same).2]

section

variable (follows : Follows initialGsn ranges tracker)
include follows

theorem Follows.previousFirst {row : Nat × Nat} {gsn : Nat} (member : row ∈ tracker.ranges)
    (holds : row.1 ≤ gsn ∧ gsn ≤ row.2) :
    Tracking.previousFirst tracker.ranges gsn = some row.1 := by
  rw [Tracking.previousFirst, List.max?_eq_some_iff]
  constructor
  · rw [List.mem_filter]
    exact ⟨List.mem_map.mpr ⟨row, member, rfl⟩, by simpa using Nat.lt_succ_of_le holds.1⟩
  · intro first listed
    rw [List.mem_filter, List.mem_map] at listed
    rcases listed with ⟨⟨other, otherMember, rfl⟩, below⟩
    have atMost : other.1 ≤ gsn := by simpa [Nat.lt_succ_iff] using below
    by_contra later
    have otherProper := follows.proper _ (follows.rows _ otherMember)
    have same := follows.disjoint.unique (follows.rows _ member) (follows.rows _ otherMember)
      ⟨(by omega : row.1 ≤ other.1), by omega⟩ ⟨Nat.le_refl _, otherProper⟩
    rw [same] at later
    exact later (Nat.le_refl _)

theorem Follows.mark {first last : Nat} (proper : first ≤ last)
    (disjoint : Disjoint (ranges ++ [(first, last)])) :
    Follows initialGsn (ranges ++ [(first, last)]) (tracker.markRangeCommitted first last) := by
  have allProper : ∀ range ∈ ranges ++ [(first, last)], range.1 ≤ range.2 := by
    intro range member
    rcases List.mem_append.mp member with old | new
    · exact follows.proper range old
    · rw [List.mem_singleton.mp new]
      exact proper
  have absent : tracker.ranges.lookup first = none := by
    cases read : tracker.ranges.lookup first with
    | none => rfl
    | some other =>
        have row := follows.rows _ (mem_of_lookup_eq_some read)
        have apart : other < first ∨ last < first :=
          (List.pairwise_append.mp disjoint).2.2 _ row (first, last) (List.mem_singleton_self _)
        have rowProper : first ≤ other := follows.proper _ row
        omega
  have table : (tracker.markRangeCommitted first last).ranges =
      tracker.ranges ++ [(first, last)] := setEntry_of_absent absent last
  constructor
  case proper => exact allProper
  case disjoint => exact disjoint
  case rows =>
    intro row member
    rw [table] at member
    rcases List.mem_append.mp member with old | new
    · exact List.mem_append_left _ (follows.rows row old)
    · exact List.mem_append_right _ new
  case kept =>
    intro range member beyond
    rw [table]
    rcases List.mem_append.mp member with old | new
    · exact List.mem_append_left _ (follows.kept range old beyond)
    · exact List.mem_append_right _ new
  case reached =>
    intro gsn lower upper
    exact (follows.reached gsn lower upper).mono fun range member =>
      List.mem_append_left _ member
  case started => exact follows.started

theorem Follows.prune {current : Nat} (passed : current ≤ tracker.watermark) :
    Follows initialGsn ranges
      { tracker with ranges := pruneResolved tracker.ranges current } where
  proper := follows.proper
  disjoint := follows.disjoint
  rows row member := follows.rows row (mem_pruneResolved_iff.mp member).1
  kept range member beyond :=
    mem_pruneResolved_iff.mpr ⟨follows.kept range member beyond,
      .inr (Nat.lt_of_le_of_lt passed beyond)⟩
  reached := follows.reached
  started := follows.started

theorem Follows.exchange {first last : Nat} (member : (first, last) ∈ ranges)
    (lower : first ≤ tracker.watermark + 1) (upper : tracker.watermark + 1 ≤ last) :
    Follows initialGsn ranges { tracker with watermark := last } where
  proper := follows.proper
  disjoint := follows.disjoint
  rows := follows.rows
  kept range inRanges beyond := follows.kept range inRanges (by dsimp only at beyond; omega)
  reached := by
    intro gsn later reached
    by_cases passed : gsn ≤ tracker.watermark
    · exact follows.reached gsn later passed
    · exact ⟨_, member, by dsimp only; omega, reached⟩
  started := by
    have before := follows.started
    dsimp only
    omega

end

end Table

/-! ## One step of a call -/

section Steps

variable {initialGsn : Nat} {ranges : List (Nat × Nat)} {tracker : WatermarkTracker}

theorem Holds.mono {advance : Advance} (holds : Holds ranges tracker advance)
    {others : List (Nat × Nat)} {next : WatermarkTracker}
    (subset : ∀ range ∈ ranges, range ∈ others) (forward : tracker.watermark ≤ next.watermark) :
    Holds others next advance := by
  cases advance with
  | idle => trivial
  | started => trivial
  | pruning current => exact Nat.le_trans holds forward
  | searching current => exact Nat.le_trans holds forward
  | found current first => exact ⟨Nat.le_trans holds.1 forward, holds.2⟩
  | exchanging current last =>
      rcases holds with ⟨passed, first, member, covers⟩
      exact ⟨Nat.le_trans passed forward, first, subset _ member, covers⟩
  | checking current => exact Nat.le_trans holds forward

structure Stepped (initialGsn : Nat) (ranges : List (Nat × Nat)) (tracker next : WatermarkTracker)
    (advance : Advance) : Prop where
  follows : Follows initialGsn ranges next
  holds : Holds ranges next advance
  forward : tracker.watermark ≤ next.watermark

variable {advance : Advance}

theorem Follows.stay (follows : Follows initialGsn ranges tracker)
    (holds : Holds ranges tracker advance) : Stepped initialGsn ranges tracker tracker advance where
  follows := follows
  holds := holds
  forward := Nat.le_refl _

theorem Follows.step (follows : Follows initialGsn ranges tracker) {after : Advance}
    (holds : Holds ranges tracker advance) {next : WatermarkTracker}
    (stepped : Tracking.advanceStep tracker advance = some (next, after)) :
    Stepped initialGsn ranges tracker next after := by
  cases advance with
  | idle => cases stepped
  | started =>
      cases stepped
      exact follows.stay (Nat.le_refl tracker.watermark)
  | pruning current =>
      cases stepped
      exact { follows := follows.prune holds, holds := holds, forward := Nat.le_refl _ }
  | searching current =>
      rw [Tracking.advanceStep] at stepped
      split at stepped
      · cases stepped
        exact follows.stay holds
      · next first found =>
          cases stepped
          have below : first < current + 1 + 1 := by
            simpa using (List.mem_filter.mp (List.max?_mem found)).2
          exact follows.stay ⟨holds, Nat.lt_succ_iff.mp below⟩
  | found current first =>
      rw [Tracking.advanceStep] at stepped
      split at stepped
      · next last read =>
          have row := follows.rows _ (mem_of_lookup_eq_some read)
          split at stepped
          · next reaches =>
              cases stepped
              exact follows.stay ⟨holds.1, first, row, holds.2, reaches⟩
          · cases stepped
            exact follows.stay holds.1
      · cases stepped
        exact follows.stay holds.1
  | exchanging current last =>
      rw [Tracking.advanceStep] at stepped
      split at stepped
      · next same =>
          cases stepped
          rcases holds with ⟨_, first, member, lower, upper⟩
          rw [← same] at lower upper
          exact {
            follows := follows.exchange member lower upper
            holds := trivial
            forward := Nat.le_of_succ_le upper }
      · cases stepped
        exact follows.stay trivial
  | checking current =>
      rw [Tracking.advanceStep] at stepped
      split at stepped
      · cases stepped
        exact follows.stay trivial
      · cases stepped
        exact follows.stay trivial

/-- A call that has not come to `frontier` will look for it again: it restarts, or it is
about to find the row behind the current frontier. -/
def WillSee (ranges : List (Nat × Nat)) (tracker : WatermarkTracker) : Advance → Prop
  | .idle => False
  | .found current first =>
      current < tracker.watermark ∨
        ∃ last, (first, last) ∈ ranges ∧ first ≤ current + 1 ∧ current + 1 ≤ last
  | .checking current => current < tracker.watermark
  | _ => True

/-- The frontier has come to `frontier`, or the call will bring it there. -/
def Serves (ranges : List (Nat × Nat)) (frontier : Nat) (tracker : WatermarkTracker)
    (advance : Advance) : Prop :=
  frontier ≤ tracker.watermark ∨ WillSee ranges tracker advance

theorem WillSee.mono {known : List (Nat × Nat)} {advance : Advance}
    (sees : WillSee known tracker advance) {next : WatermarkTracker}
    (forward : tracker.watermark ≤ next.watermark) : WillSee known next advance := by
  cases advance with
  | idle => exact sees
  | found current first => exact sees.imp_left fun behind => Nat.lt_of_lt_of_le behind forward
  | checking current => exact Nat.lt_of_lt_of_le sees forward
  | started => trivial
  | pruning current => trivial
  | searching current => trivial
  | exchanging current last => trivial

theorem Serves.mono {known : List (Nat × Nat)} {frontier : Nat} {advance : Advance}
    (serves : Serves known frontier tracker advance) {next : WatermarkTracker}
    (forward : tracker.watermark ≤ next.watermark) : Serves known frontier next advance :=
  serves.imp (fun reached => Nat.le_trans reached forward) fun sees => sees.mono forward

theorem Follows.serves (follows : Follows initialGsn ranges tracker) {known : List (Nat × Nat)}
    (subset : ∀ range ∈ known, range ∈ ranges) {frontier : Nat}
    (covered : CoveredTo initialGsn known frontier) {after : Advance}
    (holds : Holds ranges tracker advance) (serves : Serves known frontier tracker advance)
    {next : WatermarkTracker} (stepped : Tracking.advanceStep tracker advance = some (next, after))
    :
    Serves known frontier next after := by
  have forward := (follows.step holds stepped).forward
  rcases serves with reached | sees
  · exact .inl (Nat.le_trans reached forward)
  by_cases behind : frontier ≤ tracker.watermark
  · exact .inl (Nat.le_trans behind forward)
  -- The next GSN is covered by a row that the table still holds.
  have nextRow : ∃ range ∈ known, range ∈ tracker.ranges ∧
      range.1 ≤ tracker.watermark + 1 ∧ tracker.watermark + 1 ≤ range.2 := by
    have within := covered (tracker.watermark + 1) (Nat.lt_succ_of_le follows.started) (by omega)
    rcases within with ⟨range, member, covers⟩
    exact ⟨range, member, follows.kept range (subset range member) (by omega), covers⟩
  rcases nextRow with ⟨row, rowKnown, member, covers⟩
  cases advance with
  | idle => cases stepped
  | started =>
      cases stepped
      exact .inr trivial
  | pruning current =>
      cases stepped
      exact .inr trivial
  | searching current =>
      rw [Tracking.advanceStep] at stepped
      have passed : current ≤ tracker.watermark := holds
      by_cases stale : current < tracker.watermark
      · split at stepped
        · cases stepped
          exact .inr stale
        · cases stepped
          exact .inr (.inl stale)
      · have same : current = tracker.watermark := Nat.le_antisymm passed (Nat.le_of_not_lt stale)
        rw [same, follows.previousFirst member covers] at stepped
        cases stepped
        exact .inr (.inr ⟨row.2, rowKnown, covers⟩)
  | found current first =>
      rw [Tracking.advanceStep] at stepped
      by_cases stale : current < tracker.watermark
      · split at stepped
        · split at stepped
          · cases stepped
            exact .inr trivial
          · cases stepped
            exact .inr stale
        · cases stepped
          exact .inr stale
      · have same : current = tracker.watermark :=
          Nat.le_antisymm holds.1 (Nat.le_of_not_lt stale)
        rcases sees with stale | ⟨last, foundKnown, foundCovers⟩
        · omega
        · rw [same] at foundCovers
          have rowIsFound := follows.disjoint.unique (subset _ rowKnown) (subset _ foundKnown)
            covers foundCovers
          rw [rowIsFound] at member
          rw [follows.lookup member, same] at stepped
          dsimp only at stepped
          rw [if_pos foundCovers.2] at stepped
          cases stepped
          exact .inr trivial
  | exchanging current last =>
      rw [Tracking.advanceStep] at stepped
      split at stepped
      · cases stepped
        exact .inr trivial
      · cases stepped
        exact .inr trivial
  | checking current =>
      have stale : tracker.watermark > current := sees
      rw [Tracking.advanceStep, if_pos stale] at stepped
      cases stepped
      exact .inr trivial

end Steps

/-! ## Runs -/

/-- The state reached by a run of marks over disjoint ranges. -/
structure Sound (initialGsn : Nat) (events : List Event) (s : Tracking) : Prop where
  follows : Follows initialGsn (marked events) s.tracker
  holds : ∀ caller, Holds (marked events) s.tracker (s.callers caller)

section Runs

variable {initialGsn : Nat}

theorem sound_initial (initialGsn : Nat) : Sound initialGsn [] (.initial initialGsn) where
  follows := {
    proper := fun _ member => nomatch member
    disjoint := List.Pairwise.nil
    rows := fun _ member => nomatch member
    kept := fun _ member => nomatch member
    reached := fun _ later reached => absurd later (Nat.not_lt.mpr reached)
    started := Nat.le_refl _ }
  holds _ := trivial

variable {before after : List Event} {final : Tracking} {frontier : Nat} (events : List Event)

theorem marked_snoc_mark (first last : Nat) :
    marked (events ++ [.mark first last]) = marked events ++ [(first, last)] :=
  marked_append events _

theorem marked_snoc_call (caller : Nat) : marked (events ++ [.call caller]) = marked events :=
  (marked_append events _).trans (List.append_nil _)

theorem marked_snoc_step (caller : Nat) : marked (events ++ [.step caller]) = marked events :=
  (marked_append events _).trans (List.append_nil _)

theorem setCaller_holds {ranges : List (Nat × Nat)} {tracker : WatermarkTracker}
    {callers : Nat → Advance} (holds : ∀ other, Holds ranges tracker (callers other))
    {advance : Advance} (own : Holds ranges tracker advance) (caller other : Nat) :
    Holds ranges tracker (Tracking.setCaller callers caller advance other) := by
  rw [Tracking.setCaller]
  split
  · exact own
  · exact holds other

theorem Sound.step {events : List Event} {s next : Tracking} {event : Event}
    (sound : Sound initialGsn events s) (disjoint : Disjoint (marked (events ++ [event])))
    (stepped : s.step event = some next) :
    Sound initialGsn (events ++ [event]) next ∧ s.tracker.watermark ≤ next.tracker.watermark := by
  cases event with
  | mark first last =>
      rw [Tracking.step] at stepped
      rw [marked_snoc_mark] at disjoint
      split at stepped
      · next proper =>
          cases stepped
          refine ⟨⟨?_, ?_⟩, Nat.le_refl _⟩
          · rw [marked_snoc_mark]
            exact sound.follows.mark proper disjoint
          · intro caller
            rw [marked_snoc_mark]
            exact (sound.holds caller).mono (fun range member => List.mem_append_left _ member)
              (Nat.le_refl _)
      · cases stepped
  | call caller =>
      rw [Tracking.step] at stepped
      split at stepped
      · cases stepped
        refine ⟨⟨?_, ?_⟩, Nat.le_refl _⟩
        · rw [marked_snoc_call]
          exact sound.follows
        · rw [marked_snoc_call]
          have own : Holds (marked events) s.tracker .started := trivial
          exact setCaller_holds sound.holds own caller
      · cases stepped
  | step caller =>
      rw [Tracking.step] at stepped
      rcases Option.map_eq_some_iff.mp stepped with ⟨⟨tracker, advance⟩, taken, rfl⟩
      have kept := sound.follows.step (sound.holds caller) taken
      refine ⟨⟨?_, ?_⟩, kept.forward⟩
      · rw [marked_snoc_step]
        exact kept.follows
      · rw [marked_snoc_step]
        apply setCaller_holds _ kept.holds
        intro other
        exact (sound.holds other).mono (fun _ member => member) kept.forward

theorem Disjoint.of_append (disjoint : Disjoint (marked (before ++ after)))
    : Disjoint (marked before) := by
  rw [marked_append] at disjoint
  exact (List.pairwise_append.mp disjoint).1

theorem sound_of_run {events : List Event} (disjoint : Disjoint (marked events))
    (reached : (Tracking.machine initialGsn).run (.initial initialGsn) events = some final) :
    Sound initialGsn events final := by
  have general := @Machine.run_induct _ _ (Tracking.machine initialGsn)
    (fun events state => Disjoint (marked events) → Sound initialGsn events state)
    (.initial initialGsn)
  apply general
  · intro _
    exact sound_initial initialGsn
  · intro before state event next _ holds stepped disjoint
    exact ((holds disjoint.of_append).step disjoint stepped).1
  · exact reached
  · exact disjoint

theorem forward_of_run {state : Tracking} (sound : Sound initialGsn before state)
    (disjoint : Disjoint (marked (before ++ after)))
    (reached : (Tracking.machine initialGsn).run state after = some final) :
    state.tracker.watermark ≤ final.tracker.watermark := by
  induction after generalizing before state with
  | nil =>
      cases reached
      exact Nat.le_refl _
  | cons event rest induction =>
      rcases Machine.run_cons.mp reached with ⟨next, stepped, remaining⟩
      rw [List.append_cons] at disjoint
      have one := sound.step disjoint.of_append stepped
      exact Nat.le_trans one.2 (induction one.1 disjoint remaining)

theorem Sound.serves {events : List Event} {s next : Tracking} {event : Event}
    (sound : Sound initialGsn events s) (disjoint : Disjoint (marked (events ++ [event])))
    (stepped : s.step event = some next) {known : List (Nat × Nat)}
    (subset : ∀ range ∈ known, range ∈ marked events)
    (covered : CoveredTo initialGsn known frontier) {caller : Nat}
    (serves : Serves known frontier s.tracker (s.callers caller)) :
    Serves known frontier next.tracker (next.callers caller) := by
  have forward := (sound.step disjoint stepped).2
  cases event with
  | mark first last =>
      rw [Tracking.step] at stepped
      split at stepped
      · cases stepped
        exact serves.mono forward
      · cases stepped
  | call other =>
      rw [Tracking.step] at stepped
      split at stepped
      · cases stepped
        change Serves known frontier s.tracker (Tracking.setCaller s.callers other .started caller)
        rw [Tracking.setCaller]
        split
        · exact .inr trivial
        · exact serves
      · cases stepped
  | step other =>
      rw [Tracking.step] at stepped
      rcases Option.map_eq_some_iff.mp stepped with ⟨⟨tracker, advance⟩, taken, rfl⟩
      change Serves known frontier tracker (Tracking.setCaller s.callers other advance caller)
      rw [Tracking.setCaller]
      split
      · next same =>
          rw [same] at serves
          exact sound.follows.serves subset covered (sound.holds other) serves taken
      · exact serves.mono forward

theorem serves_of_run {state : Tracking} (sound : Sound initialGsn before state)
    (disjoint : Disjoint (marked (before ++ after)))
    (reached : (Tracking.machine initialGsn).run state after = some final)
    {known : List (Nat × Nat)} (subset : ∀ range ∈ known, range ∈ marked before)
    (covered : CoveredTo initialGsn known frontier) {caller : Nat}
    (serves : Serves known frontier state.tracker (state.callers caller)) :
    Serves known frontier final.tracker (final.callers caller) := by
  induction after generalizing before state with
  | nil =>
      cases reached
      exact serves
  | cons event rest induction =>
      rcases Machine.run_cons.mp reached with ⟨next, stepped, remaining⟩
      rw [List.append_cons] at disjoint
      have later : ∀ range ∈ known, range ∈ marked (before ++ [event]) := by
        intro range member
        rw [marked_append]
        exact List.mem_append_left _ (subset range member)
      exact induction (sound.step disjoint.of_append stepped).1 disjoint remaining later
        (sound.serves disjoint.of_append stepped subset covered serves)

theorem frontier_of_returned {during : List Event} {caller : Nat}
    (disjoint : Disjoint (marked (before ++ .call caller :: during)))
    (reached : (Tracking.machine initialGsn).run (.initial initialGsn) (before ++ .call caller ::
      during) = some final)
    (returned : final.callers caller = .idle)
    (covered : CoveredTo initialGsn (marked before) frontier) :
    frontier ≤ final.tracker.watermark := by
  rcases Machine.run_append.mp reached with ⟨state, there, remaining⟩
  rcases Machine.run_cons.mp remaining with ⟨next, called, further⟩
  have soundState := sound_of_run disjoint.of_append there
  have wholeDisjoint := disjoint
  rw [List.append_cons] at wholeDisjoint
  have soundNext := (soundState.step wholeDisjoint.of_append called).1
  have started : next.callers caller = .started := by
    change state.step (.call caller) = some next at called
    rw [Tracking.step] at called
    split at called
    · cases called
      exact if_pos rfl
    · cases called
  have subset : ∀ range ∈ marked before, range ∈ marked (before ++ [.call caller]) := by
    intro range member
    rw [marked_snoc_call]
    exact member
  have beginning : Serves (marked before) frontier next.tracker (next.callers caller) := by
    rw [started]
    exact .inr trivial
  rcases serves_of_run soundNext wholeDisjoint further subset covered beginning with passed | sees
  · exact passed
  · rw [returned] at sees
    exact sees.elim

/-- In any interleaving of marks over disjoint ranges with calls of `advance_watermark/1`:
the frontier never goes back, it stands only where everything before it is resolved, no
row that reaches beyond it is dropped, and once a call has returned it is past all that
was marked before the call, so exactly the frontier when nothing was marked since. -/
theorem exact_of_run {events : List Event} {final : Tracking}
    (disjoint : Disjoint (marked events))
    (reached : (Tracking.machine initialGsn).run (.initial initialGsn) events = some final) :
    (∀ before after state, events = before ++ after →
        (Tracking.machine initialGsn).run (.initial initialGsn) before = some state →
          state.tracker.watermark ≤ final.tracker.watermark) ∧
      (∀ range ∈ marked events, final.tracker.watermark < range.2 →
        range ∈ final.tracker.ranges) ∧
      CoveredTo initialGsn (marked events) final.tracker.watermark ∧
      ∀ before caller during, events = before ++ .call caller :: during →
        final.callers caller = .idle →
          (∀ frontier, CoveredTo initialGsn (marked before) frontier →
            frontier ≤ final.tracker.watermark) ∧
          (marked during = [] → IsFrontier initialGsn (marked events) final.tracker.watermark) := by
  have sound := sound_of_run disjoint reached
  refine ⟨?_, sound.follows.kept, sound.follows.reached, ?_⟩
  · rintro before after state rfl there
    rcases Machine.run_append.mp reached with ⟨middle, thereToo, remaining⟩
    rw [there] at thereToo
    cases thereToo
    exact forward_of_run (sound_of_run disjoint.of_append there) disjoint remaining
  · rintro before caller during rfl returned
    have past : ∀ frontier, CoveredTo initialGsn (marked before) frontier →
        frontier ≤ final.tracker.watermark := fun frontier covered =>
      frontier_of_returned disjoint reached returned covered
    refine ⟨past, fun quiet => ⟨sound.follows.started, sound.follows.reached, ?_⟩⟩
    have same : marked (before ++ .call caller :: during) = marked before := by
      rw [marked_append]
      change marked before ++ marked during = marked before
      rw [quiet, List.append_nil]
    rw [same]
    exact past

/-- Two callers that mark out of order and advance at once. -/
def crossing : List Event :=
  [.mark 6 10, .call 0, .step 0, .step 0, .mark 1 5, .call 1, .step 1, .step 0, .step 1,
    .step 1, .step 1, .step 1, .step 0, .step 1, .step 1, .step 1, .step 0, .step 1, .step 0,
    .step 1, .step 1, .step 1, .step 1, .step 1, .step 0, .step 0, .step 0, .step 0]

theorem exact_of_crossing :
    ∃ final, (Tracking.machine 0).run (.initial 0) crossing = some final ∧
      final.tracker = { watermark := 10, ranges := [] } ∧
      IsFrontier 0 [(6, 10), (1, 5)] final.tracker.watermark := by
  have exact := @exact_of_run 0 crossing _ (by decide) rfl
  exact ⟨_, rfl, rfl, (exact.2.2.2 (crossing.take 5) 1 (crossing.drop 6) rfl rfl).2 rfl⟩

end Runs

end Ebb.Server.WatermarkTracker
