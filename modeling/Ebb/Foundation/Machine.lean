import Mathlib.Data.Option.Basic

namespace Ebb

/-! Event machines and the induction over their runs. -/

/-- A machine reacts to one event at a time. An event that cannot occur in a
state has no successor there. -/
structure Machine (σ : Type u) (ε : Type v) where
  initial : σ
  step : σ → ε → Option σ

namespace Machine

variable {σ : Type u} {ε : Type v} (machine : Machine σ ε)

def run : σ → List ε → Option σ
  | state, [] => some state
  | state, event :: rest =>
      match machine.step state event with
      | none => none
      | some next => run next rest

/-- Every step of a run meets `condition` in the state it is taken from. -/
def Meets (condition : σ → ε → Prop) : σ → List ε → Prop
  | _, [] => True
  | state, event :: rest =>
      condition state event ∧
        ∀ next, machine.step state event = some next → Meets condition next rest

instance decidableMeets (condition : σ → ε → Prop)
    [∀ state event, Decidable (condition state event)] :
    ∀ state events, Decidable (machine.Meets condition state events)
  | _, [] => .isTrue trivial
  | state, event :: rest =>
      match stepped : machine.step state event with
      | none => decidable_of_iff (condition state event) (by simp [Meets, stepped])
      | some next =>
          have := decidableMeets condition next rest
          decidable_of_iff (condition state event ∧ machine.Meets condition next rest)
            (by simp [Meets, stepped])

variable {machine}

theorem run_cons {state final : σ} {event : ε} {rest : List ε} :
    machine.run state (event :: rest) = some final ↔
      ∃ next, machine.step state event = some next ∧ machine.run next rest = some final := by
  rw [run]
  cases machine.step state event with
  | none => simp
  | some next => simp

theorem run_append {state final : σ} {before after : List ε} :
    machine.run state (before ++ after) = some final ↔
      ∃ middle, machine.run state before = some middle ∧
        machine.run middle after = some final := by
  induction before generalizing state with
  | nil => simp [run]
  | cons event rest induction =>
      simp only [List.cons_append, run_cons, induction]
      constructor
      · rintro ⟨next, stepped, middle, first, second⟩
        exact ⟨middle, ⟨next, stepped, first⟩, second⟩
      · rintro ⟨middle, ⟨next, stepped, first⟩, second⟩
        exact ⟨next, stepped, middle, first, second⟩

theorem meets_append {condition : σ → ε → Prop} {state middle : σ} {before after : List ε}
    (reached : machine.run state before = some middle) :
    machine.Meets condition state (before ++ after) ↔
      machine.Meets condition state before ∧ machine.Meets condition middle after := by
  induction before generalizing state with
  | nil =>
      cases reached
      simp [Meets]
  | cons event rest induction =>
      obtain ⟨next, stepped, remaining⟩ := run_cons.mp reached
      simp only [List.cons_append, Meets, stepped, Option.some.injEq, forall_eq',
        induction remaining, and_assoc]

theorem meets_and {condition : σ → ε → Prop} {allowed : ε → Prop} {state : σ}
    {events : List ε} (meets : machine.Meets condition state events)
    (all : ∀ event ∈ events, allowed event) :
    machine.Meets (fun state event => condition state event ∧ allowed event) state events := by
  induction events generalizing state with
  | nil => trivial
  | cons event rest induction =>
      exact ⟨⟨meets.1, all event List.mem_cons_self⟩, fun next stepped =>
        induction (meets.2 next stepped) fun other member =>
          all other (List.mem_cons_of_mem event member)⟩

theorem run_preserves {invariant : σ → Prop} {condition : σ → ε → Prop}
    (preserved : ∀ state event next, invariant state → condition state event →
      machine.step state event = some next → invariant next)
    {state final : σ} {events : List ε} (holds : invariant state)
    (meets : machine.Meets condition state events)
    (reached : machine.run state events = some final) : invariant final := by
  induction events generalizing state with
  | nil =>
      cases reached
      exact holds
  | cons event rest induction =>
      obtain ⟨next, stepped, remaining⟩ := run_cons.mp reached
      exact induction (preserved state event next holds meets.1 stepped)
        (meets.2 next stepped) remaining

theorem run_induct {property : List ε → σ → Prop} {start : σ} (nil : property [] start)
    (snoc : ∀ before state event next, machine.run start before = some state →
      property before state → machine.step state event = some next →
        property (before ++ [event]) next)
    {events : List ε} {final : σ} (reached : machine.run start events = some final) :
    property events final := by
  have general : ∀ after before state, machine.run start before = some state →
      property before state → machine.run state after = some final →
        property (before ++ after) final := by
    intro after
    induction after with
    | nil =>
        intro before state _ holds remaining
        cases remaining
        rw [List.append_nil]
        exact holds
    | cons event rest induction =>
        intro before state there holds remaining
        rcases run_cons.mp remaining with ⟨next, stepped, further⟩
        have thereNext : machine.run start (before ++ [event]) = some next :=
          run_append.mpr ⟨state, there, run_cons.mpr ⟨next, stepped, rfl⟩⟩
        have later := induction (before ++ [event]) next thereNext
          (snoc before state event next there holds stepped) further
        rwa [List.append_cons]
  exact general events [] start rfl nil reached

end Machine

end Ebb
