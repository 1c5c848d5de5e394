import Ebb.Text.LocalEdits

namespace Ebb.Text.Mounted

/-! A bridge from its mount on: its editor dispatches transactions, and batches of Actions
arrive between them. -/

inductive SessionEvent where
  | transaction (changes : List Change)
  | batch (actions : List (Action RunValue))

def session (editor : CodeMirror) (now : Nat → Nat) (mounted : Mounted) :
    Machine Mounted SessionEvent where
  initial := mounted
  step := fun mounted event =>
    match event with
    | .transaction changes => (localEdits editor now mounted).step mounted changes
    | .batch actions => (remote editor mounted).step mounted actions

def SessionMeets (editor : CodeMirror) (now : Nat → Nat) (mounted : Mounted) :
    SessionEvent → Prop
  | .transaction changes => TransactionMeets editor now mounted changes
  | .batch actions => BatchMeets mounted actions

/-- From its mount on, the editor shows the document whatever comes first, local or remote. -/
theorem mirrors_of_session {editor : CodeMirror} (documented : editor.Documented)
    {now : Nat → Nat} {view : EditorView} {doc : TextDocument} {mounted final : Mounted}
    (sound : doc.state.Sound) (plain : carriageReturn ∉ doc.state.reconstruct)
    {localEdit : Bool} (mounts : mountEditorBridge editor view doc localEdit = some mounted)
    {events : List SessionEvent}
    (meets : (session editor now mounted).Meets (SessionMeets editor now) mounted events)
    (reached : (session editor now mounted).run mounted events = some final) :
    Mirrors final := by
  have preserved : ∀ state event next, Mirrors state → SessionMeets editor now state event →
      (session editor now mounted).step state event = some next → Mirrors next := by
    intro state event next mirrors meets stepped
    cases event with
    | transaction changes =>
        dsimp only [session, localEdits] at stepped
        split at stepped
        · next separated =>
            cases stepped
            exact mirrors.dispatch separated meets
        · cases stepped
    | batch actions =>
        cases stepped
        exact mirrors.applyActions documented meets
  exact Machine.run_preserves preserved (mirrors_mountEditorBridge documented sound plain mounts)
    meets reached

/-- A text is appended to the only run, and a batch without Actions follows. -/
def appendThenBatch : List SessionEvent :=
  [.transaction [{ start := 2, stop := 2, insert := [120] }], .batch []]

theorem mirrors_appendThenBatch :
    Mirrors ((mountedOn oneRun).dispatch plainEditor (fun _ => 5)
      [{ start := 2, stop := 2, insert := [120] }]) := by
  apply @mirrors_of_session plainEditor documented_plainEditor (fun _ => 5)
    { text := [], idMap := [] } (mountedOn oneRun).doc (mountedOn oneRun) _ sound_oneRun (by decide)
    true rfl appendThenBatch ?_ rfl
  refine ⟨⟨rfl, ⟨trivial, fun _ => ⟨fun _ lookup found => ?_, fun lookup parentRun found held => ?_⟩⟩,
    trivial⟩, fun _ _ => ⟨?_, fun _ _ => trivial⟩⟩
  · cases found
    exact ⟨_, rfl, rfl, rfl⟩
  · cases found
    cases held
    exact .inl ⟨rfl, rfl⟩
  · exact ⟨trivial, trivial⟩

end Ebb.Text.Mounted
