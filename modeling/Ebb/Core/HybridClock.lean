import Ebb.Foundation.Machine
import Mathlib.Tactic.Ring

namespace Ebb

/-! The hybrid logical clock of `packages/core/src/hlc`. A timestamp stands for the
integer its decimal string denotes, which `compare` orders by. -/

def counterBits : Nat := 16

def counterMask : Int := 0xffff

def maxFutureDriftMs : Int := 120000

structure HLCComponents where
  logicalTime : Int
  counter : Int

/-- The low bits of the shifted time are zero, so the masked counter is added. -/
def pack (logicalTime counter : Int) : Int :=
  logicalTime * 2 ^ counterBits + counter % (counterMask + 1)

def unpack (hlc : Int) : HLCComponents where
  logicalTime := hlc / 2 ^ counterBits
  counter := hlc % (counterMask + 1)

theorem pack_eq (logicalTime counter : Int) :
    pack logicalTime counter = logicalTime * 65536 + counter % 65536 := rfl

theorem unpack_spec (hlc : Int) :
    hlc = (unpack hlc).logicalTime * 65536 + (unpack hlc).counter ∧
      0 ≤ (unpack hlc).counter ∧ (unpack hlc).counter < 65536 := by
  change hlc = hlc / 65536 * 65536 + hlc % 65536 ∧ 0 ≤ hlc % 65536 ∧ hlc % 65536 < 65536
  omega

structure HLCState where
  l : Int
  c : Int
deriving DecidableEq

def createClock : HLCState where
  l := 0
  c := 0

namespace HLCState

def packed (state : HLCState) : Int := pack state.l state.c

def count (state : HLCState) : HLCState := { state with c := (state.c + 1) % (counterMask + 1) }

def localEvent (state : HLCState) (now : Int) : Int × HLCState :=
  let next := if now > state.l then { l := now, c := 0 } else state.count
  (next.packed, next)

def receiveRemoteHLC (state : HLCState) (now remoteHlc : Int) : Except String (Int × HLCState) :=
  let remote := unpack remoteHlc
  let ahead := remote.logicalTime - now
  if ahead > maxFutureDriftMs then
    .error ("HLC drift exceeds bounds: " ++ toString ahead ++ "ms ahead of the wall clock")
  else
    let next : HLCState :=
      if remote.logicalTime > state.l then { l := remote.logicalTime, c := 0 }
      else if remote.logicalTime = state.l ∧ remote.counter > state.c then
        { state with c := remote.counter }
      else state.count
    .ok (next.packed, next)

end HLCState

/-! ## Calls on one clock -/

inductive ClockCall where
  | localEvent (now : Int)
  | receiveRemoteHLC (now remoteHlc : Int)
deriving DecidableEq

namespace ClockCall

/-- What a call returns and the clock it leaves; a refused merge returns nothing and
leaves the clock as it was. -/
def apply (state : HLCState) : ClockCall → Option Int × HLCState
  | localEvent now =>
      let (hlc, next) := state.localEvent now
      (some hlc, next)
  | receiveRemoteHLC now remoteHlc =>
      match state.receiveRemoteHLC now remoteHlc with
      | .ok (hlc, next) => (some hlc, next)
      | .error _ => (none, state)

/-- A timestamp is beyond the remote one its call merged. -/
def Beyond (hlc : Int) : ClockCall → Prop
  | localEvent _ => True
  | receiveRemoteHLC _ remoteHlc => remoteHlc < hlc

/-- A call moves the clock forward: a local event at a later time or with room in the
counter, a remote timestamp that the clock has reached and room in the counter. -/
def Advances (state : HLCState) : ClockCall → Prop
  | localEvent now => state.l < now ∨ state.c < counterMask
  | receiveRemoteHLC now remoteHlc =>
      maxFutureDriftMs < (unpack remoteHlc).logicalTime - now ∨
        (remoteHlc ≤ state.packed ∧ state.c < counterMask)

instance (hlc : Int) (call : ClockCall) : Decidable (call.Beyond hlc) := by
  cases call <;> unfold Beyond <;> infer_instance

end ClockCall

/-- The timestamps the calls on a clock return, each with its call. -/
def readings : HLCState → List ClockCall → List (ClockCall × Int)
  | _, [] => []
  | state, call :: rest =>
      let (returned, next) := call.apply state
      (returned.map fun hlc => (call, hlc)).toList ++ readings next rest

/-- Each timestamp is greater than those before it, and than the remote one it was
returned for. -/
def Increasing (returned : List (ClockCall × Int)) : Prop :=
  returned.Pairwise (fun earlier later => earlier.2 < later.2) ∧
    ∀ reading ∈ returned, reading.1.Beyond reading.2

instance (returned : List (ClockCall × Int)) : Decidable (Increasing returned) :=
  inferInstanceAs (Decidable (_ ∧ _))

namespace HLCState

def machine : Machine HLCState ClockCall where
  initial := createClock
  step state call := some (call.apply state).2

def Fits (state : HLCState) : Prop := 0 ≤ state.c ∧ state.c ≤ counterMask

theorem fits_reset (time : Int) : Fits { l := time, c := 0 } := by
  change (0 : Int) ≤ 0 ∧ (0 : Int) ≤ 65535
  decide

theorem packed_of_fits {state : HLCState} (fits : state.Fits) :
    state.packed = state.l * 65536 + state.c := by
  have range : 0 ≤ state.c ∧ state.c ≤ 65535 := fits
  rw [packed, pack_eq]
  omega

theorem count_spec {state : HLCState} (fits : state.Fits) :
    state.count.Fits ∧ state.count.l = state.l ∧
      (state.c < counterMask → state.count.c = state.c + 1) ∧
        (state.c = counterMask → state.count.c = 0) := by
  have range : 0 ≤ state.c ∧ state.c ≤ 65535 := fits
  change (0 ≤ (state.c + 1) % 65536 ∧ (state.c + 1) % 65536 ≤ 65535) ∧ state.l = state.l ∧
    (state.c < 65535 → (state.c + 1) % 65536 = state.c + 1) ∧
      (state.c = 65535 → (state.c + 1) % 65536 = 0)
  omega

end HLCState

namespace HLCState

theorem count_after_iff {state : HLCState} (fits : state.Fits) :
    state.packed < state.count.packed ↔ state.c < counterMask := by
  rcases count_spec fits with ⟨countFits, sameTime, room, full⟩
  rw [packed_of_fits fits, packed_of_fits countFits, sameTime]
  have range : 0 ≤ state.c ∧ state.c ≤ counterMask := fits
  constructor
  · intro later
    by_contra noRoom
    have atEnd : state.c = counterMask := by omega
    rw [full atEnd] at later
    omega
  · intro hasRoom
    rw [room hasRoom]
    omega

end HLCState

namespace ClockCall

variable {state : HLCState}

theorem apply_none {call : ClockCall} (refused : (call.apply state).1 = none) :
    (call.apply state).2 = state ∧ call.Advances state := by
  cases call with
  | localEvent now => cases refused
  | receiveRemoteHLC now remoteHlc =>
      rw [apply, HLCState.receiveRemoteHLC] at *
      by_cases drifted : (unpack remoteHlc).logicalTime - now > maxFutureDriftMs
      · rw [if_pos drifted]
        exact ⟨rfl, .inl drifted⟩
      · rw [if_neg drifted] at refused
        cases refused

theorem localEvent_spec (fits : state.Fits) (now : Int) :
    (state.localEvent now).2.Fits ∧ (state.localEvent now).2.packed = (state.localEvent now).1 ∧
      (state.packed < (state.localEvent now).1 ↔ (localEvent now).Advances state) := by
  rw [HLCState.localEvent]
  split
  · next later =>
      refine ⟨HLCState.fits_reset now, rfl, ?_⟩
      have range : 0 ≤ state.c ∧ state.c ≤ 65535 := fits
      have before : state.packed = state.l * 65536 + state.c := HLCState.packed_of_fits fits
      have after : HLCState.packed { l := now, c := 0 } = now * 65536 + 0 :=
        HLCState.packed_of_fits (HLCState.fits_reset now)
      constructor
      · intro _
        exact .inl later
      · intro _
        dsimp only
        omega
  · next earlier =>
      refine ⟨(HLCState.count_spec fits).1, rfl, ?_⟩
      rw [HLCState.count_after_iff fits, Advances]
      constructor
      · intro room
        exact .inr room
      · intro advances
        rcases advances with later | room
        · exact absurd later earlier
        · exact room

theorem receiveRemoteHLC_spec (fits : state.Fits) {now remoteHlc hlc : Int} {next : HLCState}
    (accepted : state.receiveRemoteHLC now remoteHlc = .ok (hlc, next)) :
    next.Fits ∧ next.packed = hlc ∧
      (state.packed < hlc ∧ remoteHlc < hlc ↔ (receiveRemoteHLC now remoteHlc).Advances state) := by
  rw [HLCState.receiveRemoteHLC] at accepted
  have range : 0 ≤ state.c ∧ state.c ≤ 65535 := fits
  have before : state.packed = state.l * 65536 + state.c := HLCState.packed_of_fits fits
  rcases unpack_spec remoteHlc with ⟨remotePacked, counterLower, counterUpper⟩
  dsimp only at accepted
  split at accepted
  · cases accepted
  · next inBounds =>
      have advancesIff : (receiveRemoteHLC now remoteHlc).Advances state ↔
          remoteHlc ≤ state.packed ∧ state.c < counterMask := by
        rw [Advances]
        constructor
        · intro advances
          rcases advances with drifted | advances
          · exact absurd drifted inBounds
          · exact advances
        · intro advances
          exact .inr advances
      rw [advancesIff]
      split at accepted
      · next ahead =>
          -- The counter restarts at zero, so the remote timestamp is not passed.
          cases accepted
          have reset := HLCState.fits_reset (unpack remoteHlc).logicalTime
          have after : HLCState.packed { l := (unpack remoteHlc).logicalTime, c := 0 } =
              (unpack remoteHlc).logicalTime * 65536 + 0 := HLCState.packed_of_fits reset
          refine ⟨reset, rfl, ?_⟩
          omega
      · next notAhead =>
          split at accepted
          · next tied =>
              -- The remote counter is taken over, so the remote timestamp is returned.
              cases accepted
              have adopted : HLCState.Fits { state with c := (unpack remoteHlc).counter } :=
                ⟨counterLower, Int.lt_add_one_iff.mp counterUpper⟩
              have after : HLCState.packed { state with c := (unpack remoteHlc).counter } =
                  state.l * 65536 + (unpack remoteHlc).counter := HLCState.packed_of_fits adopted
              refine ⟨adopted, rfl, ?_⟩
              omega
          · next notTied =>
              cases accepted
              have reached : remoteHlc ≤ state.packed := by
                rw [not_and] at notTied
                by_cases sameTime : (unpack remoteHlc).logicalTime = state.l
                · have notBeyond := notTied sameTime
                  omega
                · omega
              refine ⟨(HLCState.count_spec fits).1, rfl, ?_⟩
              rw [← HLCState.count_after_iff fits]
              constructor
              · intro beyond
                exact ⟨reached, beyond.1⟩
              · intro advances
                exact ⟨advances.2, Int.lt_of_le_of_lt reached advances.2⟩

theorem apply_some (fits : state.Fits) {call : ClockCall} {hlc : Int}
    (returned : (call.apply state).1 = some hlc) :
    (call.apply state).2.Fits ∧ (call.apply state).2.packed = hlc ∧
      (state.packed < hlc ∧ call.Beyond hlc ↔ call.Advances state) := by
  cases call with
  | localEvent now =>
      rcases localEvent_spec fits now with ⟨nextFits, nextPacked, advancesIff⟩
      cases returned
      refine ⟨nextFits, nextPacked, ?_⟩
      rw [← advancesIff, Beyond]
      exact and_iff_left trivial
  | receiveRemoteHLC now remoteHlc =>
      rw [apply] at returned ⊢
      split at returned
      · next returnedHlc next accepted =>
          cases returned
          exact receiveRemoteHLC_spec fits accepted
      · cases returned

theorem fits_apply (fits : state.Fits) (call : ClockCall) : (call.apply state).2.Fits := by
  cases returned : (call.apply state).1 with
  | none =>
      rw [(apply_none returned).1]
      exact fits
  | some hlc => exact (apply_some fits returned).1

end ClockCall

theorem fits_createClock : createClock.Fits := HLCState.fits_reset 0

variable {call : ClockCall}

/-! ## Every sequence of calls -/

theorem readings_none {state : HLCState} (rest : List ClockCall)
    (refused : (call.apply state).1 = none) :
    readings state (call :: rest) = readings state rest := by
  rw [readings]
  dsimp only
  rw [refused, (ClockCall.apply_none refused).1]
  rfl

theorem readings_some {state : HLCState} {hlc : Int} (rest : List ClockCall)
    (returned : (call.apply state).1 = some hlc) :
    readings state (call :: rest) = (call, hlc) :: readings (call.apply state).2 rest := by
  rw [readings]
  dsimp only
  rw [returned]
  rfl

theorem increasing_cons {reading : ClockCall × Int} {returned : List (ClockCall × Int)} :
    Increasing (reading :: returned) ↔
      (∀ later ∈ returned, reading.2 < later.2) ∧ reading.1.Beyond reading.2 ∧
        Increasing returned := by
  rw [Increasing, Increasing, List.pairwise_cons, List.forall_mem_cons]
  constructor
  · rintro ⟨⟨above, pairwise⟩, beyond, others⟩
    exact ⟨above, beyond, pairwise, others⟩
  · rintro ⟨above, beyond, pairwise, others⟩
    exact ⟨⟨above, pairwise⟩, beyond, others⟩

theorem increasing_above_iff {state : HLCState} (fits : state.Fits) (calls : List ClockCall) :
    (∀ reading ∈ readings state calls, state.packed < reading.2) ∧
        Increasing (readings state calls) ↔
      HLCState.machine.Meets (fun state call => call.Advances state) state calls := by
  induction calls generalizing state with
  | nil => simp [readings, Increasing, Machine.Meets]
  | cons call rest induction =>
      have restIff := induction (ClockCall.fits_apply fits call)
      have meetsIff :
          HLCState.machine.Meets (fun state call => call.Advances state) state (call :: rest) ↔
            call.Advances state ∧ HLCState.machine.Meets
              (fun state call => call.Advances state) (call.apply state).2 rest := by
        simp [Machine.Meets, HLCState.machine]
      rw [meetsIff, ← restIff]
      cases returned : (call.apply state).1 with
      | none =>
          rcases ClockCall.apply_none returned with ⟨same, advances⟩
          rw [readings_none rest returned, same]
          exact (and_iff_right advances).symm
      | some hlc =>
          rcases ClockCall.apply_some fits returned with ⟨_, nextPacked, advancesIff⟩
          rw [readings_some rest returned, List.forall_mem_cons, increasing_cons, nextPacked,
            ← advancesIff]
          constructor
          · rintro ⟨⟨above, _⟩, later, beyond, increasing⟩
            exact ⟨⟨above, beyond⟩, later, increasing⟩
          · rintro ⟨⟨above, beyond⟩, later, increasing⟩
            refine ⟨⟨above, ?_⟩, later, beyond, increasing⟩
            intro reading member
            exact Int.lt_trans above (later reading member)

theorem first_positive {hlc : Int} (returned : (call.apply createClock).1 = some hlc) : 0 < hlc := by
  cases call with
  | localEvent now =>
      rw [ClockCall.apply, HLCState.localEvent] at returned
      dsimp only at returned
      split at returned
      · next later =>
          cases returned
          have positive : now > 0 := later
          change 0 < now * 65536 + 0 % 65536
          omega
      · cases returned
        decide
  | receiveRemoteHLC now remoteHlc =>
      rw [ClockCall.apply, HLCState.receiveRemoteHLC] at returned
      dsimp only at returned
      split at returned
      · next accepted =>
          cases returned
          split at accepted
          · cases accepted
          · split at accepted
            · next ahead =>
                cases accepted
                have positive : (unpack remoteHlc).logicalTime > 0 := ahead
                change 0 < (unpack remoteHlc).logicalTime * 65536 + 0 % 65536
                omega
            · split at accepted
              · next tied =>
                  cases accepted
                  have positive : (unpack remoteHlc).counter > 0 := tied.2
                  have upper := (unpack_spec remoteHlc).2.2
                  change 0 < 0 * 65536 + (unpack remoteHlc).counter % 65536
                  omega
              · cases accepted
                decide
      · cases returned

theorem positive_of_increasing {calls : List ClockCall}
    (increasing : Increasing (readings createClock calls)) :
    ∀ reading ∈ readings createClock calls, 0 < reading.2 := by
  induction calls with
  | nil => exact fun _ member => nomatch member
  | cons call rest induction =>
      cases returned : (call.apply createClock).1 with
      | none =>
          rw [readings_none rest returned] at increasing ⊢
          exact induction increasing
      | some hlc =>
          rw [readings_some rest returned] at increasing ⊢
          have positive := first_positive returned
          intro reading member
          rcases List.mem_cons.mp member with rfl | later
          · exact positive
          · exact Int.lt_trans positive ((increasing_cons.mp increasing).1 reading later)

/-- The timestamps of a clock increase, each beyond the remote one it merged, exactly
when every call advances the clock. -/
theorem increasing_iff_advances (calls : List ClockCall) :
    Increasing (readings createClock calls) ↔
      HLCState.machine.Meets (fun state call => call.Advances state) createClock calls := by
  rw [← increasing_above_iff fits_createClock]
  constructor
  · intro increasing
    exact ⟨positive_of_increasing increasing, increasing⟩
  · exact And.right

/-- A merge ahead of the clock returns less than the remote timestamp, and a full counter
goes back to zero. -/
theorem readings_fall_back :
    ¬ Increasing (readings createClock [.receiveRemoteHLC 1000 (pack 2000 10)]) ∧
      ¬ (readings createClock [.receiveRemoteHLC 1000 (pack 1000 0),
          .receiveRemoteHLC 1000 (pack 1000 0xffff), .localEvent 1000]).Pairwise
        (fun earlier later => earlier.2 < later.2) := by
  decide

end Ebb
