import Ebb.Core.HybridClock
import Mathlib.Logic.Function.Basic
import Mathlib.Logic.Relation

namespace Ebb

/-! Peers with a clock each. A timestamp may reach any peer, in any order and more than
once, and a remote one may come from anywhere. -/

/-- A timestamp as its peer took it. -/
structure Stamp where
  peer : String
  call : ClockCall
  hlc : Int

/-- The millisecond of a timestamp. -/
def Stamp.time (stamp : Stamp) : Int := (unpack stamp.hlc).logicalTime

/-- The clocks of the peers, and what they returned, the latest first. -/
structure ClockNetwork where
  clocks : String → HLCState
  log : List Stamp

namespace ClockNetwork

def called (network : ClockNetwork) (peer : String) (call : ClockCall) : ClockNetwork where
  clocks := Function.update network.clocks peer (call.apply (network.clocks peer)).2
  log := ((call.apply (network.clocks peer)).1.map fun hlc => Stamp.mk peer call hlc).toList ++
    network.log

def machine : Machine ClockNetwork (String × ClockCall) where
  initial := { clocks := fun _ => createClock, log := [] }
  step network event := some (network.called event.1 event.2)

/-- One event of the peer comes after another of it, and after the timestamp it received. -/
def Precedes (earlier later : Stamp) : Prop :=
  earlier.peer = later.peer ∨ ∃ now, later.call = .receiveRemoteHLC now earlier.hlc

def HappensBefore (log : List Stamp) : Stamp → Stamp → Prop :=
  Relation.TransGen fun earlier later => [later, earlier].Sublist log ∧ Precedes earlier later

theorem unpack_packed {state : HLCState} (fits : state.Fits) :
    (unpack state.packed).logicalTime = state.l := by
  have range : 0 ≤ state.c ∧ state.c ≤ 65535 := fits
  rw [HLCState.packed_of_fits fits]
  change (state.l * 65536 + state.c) / 65536 = state.l
  omega

theorem l_apply {state : HLCState} {call : ClockCall} {hlc : Int}
    (returned : (call.apply state).1 = some hlc) :
    state.l ≤ (call.apply state).2.l ∧ ∀ now remoteHlc, call = .receiveRemoteHLC now remoteHlc →
      (unpack remoteHlc).logicalTime ≤ (call.apply state).2.l := by
  cases call with
  | localEvent now =>
      refine ⟨?_, fun _ _ other => by cases other⟩
      rw [ClockCall.apply, HLCState.localEvent]
      by_cases later : now > state.l
      · rw [if_pos later]
        exact Int.le_of_lt later
      · rw [if_neg later]
        exact Int.le_refl _
  | receiveRemoteHLC now remoteHlc =>
      rw [ClockCall.apply, HLCState.receiveRemoteHLC] at *
      by_cases drifted : (unpack remoteHlc).logicalTime - now > maxFutureDriftMs
      · rw [if_pos drifted] at returned
        cases returned
      · rw [if_neg drifted]
        dsimp only
        split
        · next ahead => exact ⟨Int.le_of_lt ahead, by rintro _ _ ⟨⟩; exact Int.le_refl _⟩
        · next behind =>
            have reached := Int.not_lt.mp behind
            split <;> exact ⟨Int.le_refl _, by rintro _ _ ⟨⟩; exact reached⟩

structure Ordered (network : ClockNetwork) : Prop where
  fits : ∀ peer, (network.clocks peer).Fits
  reached : ∀ stamp ∈ network.log, stamp.time ≤ (network.clocks stamp.peer).l
  ordered : network.log.Pairwise fun later earlier => Precedes earlier later →
    earlier.time ≤ later.time

theorem Ordered.called {network : ClockNetwork} (ordered : Ordered network) (peer : String)
    (call : ClockCall) : Ordered (network.called peer call) := by
  rw [ClockNetwork.called]
  cases returned : (call.apply (network.clocks peer)).1 with
  | none =>
      rw [(ClockCall.apply_none returned).1, Function.update_eq_self]
      exact ordered
  | some hlc =>
      rcases ClockCall.apply_some (ordered.fits peer) returned with ⟨fits, packed, _⟩
      rcases l_apply returned with ⟨forward, received⟩
      have standing := unpack_packed fits
      rw [packed] at standing
      constructor
      · intro other
        dsimp only
        rw [Function.update_apply]
        split
        · exact fits
        · exact ordered.fits other
      · intro stamp member
        dsimp only
        rw [Function.update_apply]
        rcases List.mem_cons.mp member with rfl | earlier
        · rw [if_pos rfl]
          exact Int.le_of_eq standing
        · split
          · next same => exact Int.le_trans (same ▸ ordered.reached stamp earlier) forward
          · exact ordered.reached stamp earlier
      · refine List.pairwise_cons.mpr ⟨fun earlier member precedes => ?_, ordered.ordered⟩
        apply Int.le_trans ?_ (Int.le_of_eq standing.symm)
        rcases precedes with same | ⟨now, merged⟩
        · have below := ordered.reached earlier member
          rw [show earlier.peer = peer from same] at below
          exact Int.le_trans below forward
        · exact received now earlier.hlc merged

/-- Whatever the wall clocks read, the order of the calls and the messages that are lost,
repeated or refused: the milliseconds of timestamps never go back along causality. -/
theorem times_of_run {events : List (String × ClockCall)} {final : ClockNetwork}
    (ran : machine.run machine.initial events = some final) {earlier later : Stamp}
    (happens : HappensBefore final.log earlier later) : earlier.time ≤ later.time := by
  have start : Ordered machine.initial :=
    ⟨fun _ => fits_createClock, List.forall_mem_nil _, List.Pairwise.nil⟩
  have ordered : Ordered final := by
    refine @Machine.run_induct _ _ machine (fun _ network => Ordered network) _ start
      (fun _ _ event _ _ ordered stepped => ?_) _ _ ran
    exact Option.some.inj stepped ▸ ordered.called event.1 event.2
  have direct : ∀ {first second : Stamp}, [second, first].Sublist final.log ∧
      Precedes first second → first.time ≤ second.time := fun both =>
    List.pairwise_iff_forall_sublist.mp ordered.ordered both.1 both.2
  induction happens with
  | single step => exact direct step
  | tail _ step induction => exact Int.le_trans induction (direct step)

def sent : Stamp := ⟨"a", .localEvent 5, 327680⟩

def merged : Stamp := ⟨"b", .receiveRemoteHLC 2 327680, 327680⟩

def answered : Stamp := ⟨"b", .localEvent 3, 327681⟩

theorem times_of_run_answered : sent.time ≤ answered.time := by
  apply @times_of_run [("a", .localEvent 5), ("b", .receiveRemoteHLC 2 327680),
    ("b", .localEvent 3)] _ rfl
  have first : HappensBefore [answered, merged, sent] sent merged :=
    .single ⟨by simp, .inr ⟨2, rfl⟩⟩
  exact first.tail ⟨by simp, .inl rfl⟩

end ClockNetwork

end Ebb
