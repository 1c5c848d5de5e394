import Mathlib.Data.List.Nodup

namespace Ebb

/-! A text kept in keyed pieces, and its edits when they are given in ascending positions of
an earlier text. A piece that is cut keeps its key for the part before the cut, so a place in
it that still exists is the place it was. -/

abbrev PieceTable (κ : Type u) (α : Type v) := List (κ × List α)

namespace PieceTable

variable {κ : Type u} {α : Type v}

def text (table : PieceTable κ α) : List α := table.flatMap Prod.snd

def keys (table : PieceTable κ α) : List κ := table.map Prod.fst

theorem text_append (left right : PieceTable κ α) :
    text (left ++ right) = text left ++ text right :=
  List.flatMap_append

theorem text_cons (piece : κ × List α) (rest : PieceTable κ α) :
    text (piece :: rest) = piece.2 ++ text rest := List.flatMap_cons

theorem keys_append (left right : PieceTable κ α) :
    keys (left ++ right) = keys left ++ keys right :=
  List.map_append

variable {key : κ} {piece : List α}

theorem mem_keys {table : PieceTable κ α} (member : (key, piece) ∈ table) :
    key ∈ keys table := List.mem_map.mpr ⟨(key, piece), member, rfl⟩

/-! ## Places -/

/-- A position lies some way into the piece of a key. -/
def At (table : PieceTable κ α) (position : Nat) (key : κ) (offset : Nat) : Prop :=
  ∃ before piece after, table = before ++ (key, piece) :: after ∧ offset < piece.length ∧
    position = (text before).length + offset

def Reaches (table : PieceTable κ α) (key : κ) (offset : Nat) : Prop :=
  ∃ piece, (key, piece) ∈ table ∧ offset < piece.length

theorem At.mem_keys {table : PieceTable κ α} {position offset : Nat}
    (here : At table position key offset) : key ∈ keys table := by
  rcases here with ⟨before, piece, after, rfl, _, _⟩
  exact PieceTable.mem_keys (List.mem_append_right _ List.mem_cons_self)

theorem split_unique {table before after otherBefore otherAfter : PieceTable κ α} {other : List α}
    (nodup : (keys table).Nodup) (first : table = before ++ (key, piece) :: after)
    (second : table = otherBefore ++ (key, other) :: otherAfter) :
    before = otherBefore ∧ piece = other ∧ after = otherAfter := by
  subst first
  induction before generalizing otherBefore with
  | nil =>
      cases otherBefore with
      | nil =>
          cases second
          exact ⟨rfl, rfl, rfl⟩
      | cons head rest =>
          cases second
          rw [List.nil_append, keys, List.map_cons, List.nodup_cons] at nodup
          exact absurd (mem_keys (List.mem_append_right _ List.mem_cons_self)) nodup.1
  | cons head rest induction =>
      rw [List.cons_append, keys, List.map_cons, List.nodup_cons] at nodup
      cases otherBefore with
      | nil =>
          cases second
          exact absurd (mem_keys (List.mem_append_right _ List.mem_cons_self)) nodup.1
      | cons otherHead otherRest =>
          rw [List.cons_append, List.cons_append] at second
          rcases List.cons.inj second with ⟨rfl, same⟩
          rcases induction nodup.2 same with ⟨rfl, equal, ends⟩
          exact ⟨rfl, equal, ends⟩

theorem At.split {table before after : PieceTable κ α} {position offset : Nat}
    (nodup : (keys table).Nodup) (whole : table = before ++ (key, piece) :: after)
    (here : At table position key offset) :
    offset < piece.length ∧ position = (text before).length + offset := by
  rcases here with ⟨otherBefore, other, otherAfter, otherWhole, inside, rfl⟩
  rcases split_unique nodup whole otherWhole with ⟨rfl, rfl, rfl⟩
  exact ⟨inside, rfl⟩

/-! ## Alignment -/

/-- A table part of the way through the edits of an old one. The text from `stop` on is
still the old one's, after what is `done`; so are the places there, and the place right
before `start` is right before `cursor`, as far as the pieces still reach them. -/
structure Aligned (old table : PieceTable κ α) (start cursor stop : Nat) (done : List α) : Prop where
  nodup : (keys table).Nodup
  behind : cursor ≤ done.length
  text : text table = done ++ (text old).drop stop
  later : ∀ position key offset, stop ≤ position → At old position key offset →
    Reaches table key offset → ∃ place, At table place key offset ∧
      place + stop = done.length + position
  previous : ∀ position key offset, position + 1 = start → At old position key offset →
    Reaches table key offset → ∃ place, At table place key offset ∧ place + 1 = cursor

section Aligned

variable {old table next : PieceTable κ α} {start cursor stop : Nat} {done : List α}

theorem aligned_self (nodup : (keys old).Nodup) : Aligned old old 0 0 0 [] where
  nodup := nodup
  behind := Nat.le_refl 0
  text := rfl
  later := fun position _ _ _ here _ => ⟨position, here, (Nat.zero_add position).symm⟩
  previous := fun position _ _ before => absurd before (Nat.succ_ne_zero position)

theorem Aligned.advance (aligned : Aligned old table start cursor stop done) {further : Nat}
    (beyond : stop < further ∨ further = 0 ∧ stop = 0)
    (inside : further ≤ (PieceTable.text old).length) :
    Aligned old table further (done.length + (further - stop)) further
      (done ++ ((PieceTable.text old).drop stop).take (further - stop)) := by
  have size : (done ++ ((PieceTable.text old).drop stop).take (further - stop)).length =
      done.length + (further - stop) := by
    rw [List.length_append, List.length_take, List.length_drop]
    omega
  constructor
  case nodup => exact aligned.nodup
  case behind => exact Nat.le_of_eq size.symm
  case text =>
    have drop : (PieceTable.text old).drop further =
        ((PieceTable.text old).drop stop).drop (further - stop) := by
      rw [List.drop_drop]
      congr 1
      omega
    rw [aligned.text, drop, List.append_assoc, List.take_append_drop]
  case later =>
    intro position key offset after here reaches
    rcases aligned.later position key offset (by omega) here reaches with ⟨place, there, same⟩
    refine ⟨place, there, ?_⟩
    rw [size]
    omega
  case previous =>
    intro position key offset before here reaches
    rcases aligned.later position key offset (by omega) here reaches with ⟨place, there, same⟩
    refine ⟨place, there, ?_⟩
    omega

theorem at_of_replaced {before middle replacement after : PieceTable κ α}
    {left gone right insert : List α} {key : κ} {offset : Nat} {expected : Nat → Prop}
    (nodup : (keys table).Nodup) (whole : table = before ++ (middle ++ after))
    (replaced : next = before ++ (replacement ++ after))
    (middleText : PieceTable.text middle = left ++ (gone ++ right))
    (replacementText : PieceTable.text replacement = left ++ (insert ++ right))
    (kept : ∀ piece, (key, piece) ∈ replacement → offset < piece.length →
      offset < left.length ∧ ∃ other rest others, middle = (key, other) :: rest ∧
        replacement = (key, piece) :: others ∧ offset < other.length)
    (found : Reaches table key offset → ∃ place, At table place key offset ∧ expected place)
    (reaches : Reaches next key offset) :
    ∃ place moved, expected place ∧ At next moved key offset ∧
      (moved = place ∧ place < (PieceTable.text before).length + left.length ∨
        moved + gone.length = place + insert.length ∧
          (PieceTable.text before).length + left.length + gone.length ≤ place) := by
  have middleSize := congrArg List.length middleText
  have replacementSize := congrArg List.length replacementText
  rw [List.length_append, List.length_append] at middleSize replacementSize
  rcases reaches with ⟨piece, member, inside⟩
  subst replaced
  rcases List.mem_append.mp member with inBefore | later
  · rcases List.append_of_mem inBefore with ⟨first, second, split⟩
    have here : table = first ++ (key, piece) :: (second ++ (middle ++ after)) := by
      rw [whole, split, List.append_assoc, List.cons_append]
    rcases found ⟨piece, by rw [here]; exact List.mem_append_right _ List.mem_cons_self, inside⟩ with
      ⟨place, there, expects⟩
    rcases there.split nodup here with ⟨_, rfl⟩
    refine ⟨_, _, expects, ⟨first, piece, second ++ (replacement ++ after), ?_, inside, rfl⟩,
      .inl ⟨rfl, ?_⟩⟩
    · rw [split, List.append_assoc, List.cons_append]
    · rw [split]
      simp only [text_append, text_cons, List.length_append]
      omega
  · rcases List.mem_append.mp later with inReplacement | inAfter
    · rcases kept piece inReplacement inside with
        ⟨early, other, rest, others, middleEq, replacementEq, within⟩
      have here : table = before ++ (key, other) :: (rest ++ after) := by
        rw [whole, middleEq, List.cons_append]
      rcases found ⟨other, by rw [here]; exact List.mem_append_right _ List.mem_cons_self,
        within⟩ with ⟨place, there, expects⟩
      rcases there.split nodup here with ⟨_, rfl⟩
      refine ⟨_, _, expects, ⟨before, piece, others ++ after, ?_, inside, rfl⟩, .inl ⟨rfl, ?_⟩⟩
      · rw [replacementEq, List.cons_append]
      · exact Nat.add_lt_add_left early _
    · rcases List.append_of_mem inAfter with ⟨first, second, split⟩
      have here : table = before ++ middle ++ first ++ (key, piece) :: second := by
        rw [whole, split]
        simp only [List.append_assoc]
      rcases found ⟨piece, by rw [here]; exact List.mem_append_right _ List.mem_cons_self,
        inside⟩ with ⟨place, there, expects⟩
      rcases there.split nodup here with ⟨_, rfl⟩
      refine ⟨_, _, expects, ⟨before ++ replacement ++ first, piece, second, ?_, inside, rfl⟩,
        .inr ⟨?_, ?_⟩⟩
      · rw [split]
        simp only [List.append_assoc]
      · simp only [text_append, List.length_append]
        omega
      · simp only [text_append, List.length_append]
        omega

theorem Aligned.replace (aligned : Aligned old table start cursor stop done)
    {before middle replacement after : PieceTable κ α} {left gone right insert : List α}
    (whole : table = before ++ (middle ++ after))
    (replaced : next = before ++ (replacement ++ after)) (nodup : (keys next).Nodup)
    (middleText : PieceTable.text middle = left ++ (gone ++ right))
    (replacementText : PieceTable.text replacement = left ++ (insert ++ right))
    (place : (PieceTable.text before).length + left.length = done.length)
    (kept : ∀ position key offset, stop + gone.length ≤ position ∨ position + 1 = start →
      At old position key offset → ∀ piece, (key, piece) ∈ replacement → offset < piece.length →
        offset < left.length ∧ ∃ other rest others, middle = (key, other) :: rest ∧
          replacement = (key, piece) :: others ∧ offset < other.length) :
    Aligned old next start cursor (stop + gone.length) (done ++ insert) := by
  have texts : done = PieceTable.text before ++ left ∧
      (PieceTable.text old).drop stop = gone ++ (right ++ PieceTable.text after) := by
    have both := aligned.text
    rw [whole, text_append, text_append, middleText, List.append_assoc, List.append_assoc,
      ← List.append_assoc] at both
    have parts := List.append_inj both (by rw [List.length_append]; exact place)
    exact ⟨parts.1.symm, parts.2.symm⟩
  have behind := aligned.behind
  constructor
  case nodup => exact nodup
  case behind =>
    rw [List.length_append]
    omega
  case text =>
    rw [← List.drop_drop, texts.2, List.drop_left, replaced, text_append, text_append,
      replacementText, texts.1]
    simp only [List.append_assoc]
  case later =>
    intro position key offset after' here reaches
    rcases at_of_replaced aligned.nodup whole replaced middleText replacementText
      (kept position key offset (.inl after') here)
      (aligned.later position key offset (by omega) here) reaches with
      ⟨old, moved, expects, there, same | shifted⟩
    · omega
    · refine ⟨moved, there, ?_⟩
      rw [List.length_append]
      omega
  case previous =>
    intro position key offset before' here reaches
    rcases at_of_replaced aligned.nodup whole replaced middleText replacementText
      (kept position key offset (.inr before') here)
      (aligned.previous position key offset before' here) reaches with
      ⟨old, moved, expects, there, same | shifted⟩
    · exact ⟨moved, there, by rw [same.1]; exact expects⟩
    · omega

end Aligned

end PieceTable

end Ebb
