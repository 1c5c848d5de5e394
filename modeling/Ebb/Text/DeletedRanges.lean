import Ebb.Text.InvisibleSplits

namespace Ebb.Text

/-! What a range of a run takes from the text when it is deleted: the range, where the ids of
the parts it cuts off are new. An id that is taken cuts nothing, and the deletion then hits the
run that has it. -/

namespace DocState

/-- The text of a live run starts at a position of the document. -/
def StartsAt (state : DocState) (runId : String) (text : List UInt16) (position : Nat) : Prop :=
  ∃ before after, state.pieces = before ++ (runId, text) :: after ∧
    position = (PieceTable.text before).length

/-- The run under an id in use has code units to lose that read like the range. -/
def ReadsLike (state : DocState) (rightId : String) (start count : Nat) (ends : Prop) : Prop :=
  ∃ text place, StartsAt state rightId text place ∧
    (count = text.length ∨
      ¬ ends ∧ count < text.length ∧ state.nodes.get? (makeSplitId rightId count) = none) ∧
    splice state.reconstruct place (place + count) [] =
      splice state.reconstruct start (start + count) []

/-- The deletion finds the range: the ids of the parts it cuts off are new, or the run that has
the first of them loses what the range would. -/
def FindsRange (state : DocState) (runId : String) (length position offset count : Nat) : Prop :=
  if offset = 0 then
    count = length ∨ state.nodes.get? (makeSplitId runId count) = none
  else if (state.nodes.get? (makeSplitId runId offset)).isSome then
    ReadsLike state (makeSplitId runId offset) (position + offset) count (offset + count = length)
  else
    offset + count = length ∨
      state.nodes.get? (makeSplitId (makeSplitId runId offset) count) = none

section Ranges

variable {state : DocState} {tree : Forest String} {before after : PieceTable String UInt16}
  {runId : String} {text : List UInt16}

theorem Rooted.pieces_tombstone_hidden (rooted : Rooted state tree)
    (hidden : runId ∉ PieceTable.keys state.pieces) :
    (state.tombstoneRun runId).pieces = state.pieces := by
  rw [(rooted.tombstone runId).pieces_eq, rooted.pieces_eq]
  apply filterMap_pieceOf_congr
  intro id inTree
  rw [tombstoneRun]
  split
  · rfl
  · next node found =>
      split
      · rfl
      · by_cases same : id = runId
        · subst same
          have unseen : pieceOf state.nodes id = none := by
            cases piece : pieceOf state.nodes id with
            | none => rfl
            | some entry =>
                rcases entry with ⟨key, text⟩
                rcases pieceOf_eq_some piece with ⟨rfl, _⟩
                apply absurd _ hidden
                rw [rooted.pieces_eq]
                exact PieceTable.mem_keys (List.mem_filterMap.mpr ⟨id, inTree, piece⟩)
          rw [unseen]
          exact pieceOf_deleted (OrderedMap.get?_set_self _ _ _) rfl
        · rw [pieceOf, pieceOf, shown, shown, OrderedMap.get?_set_of_ne _ same]

variable {place : Nat} {rightId : String}

theorem StartsAt.unique (rooted : Rooted state tree) {other : List UInt16} {second : Nat}
    (starts : StartsAt state runId text place) (again : StartsAt state runId other second) :
    text = other ∧ place = second := by
  rcases starts with ⟨before, after, whole, rfl⟩
  rcases again with ⟨otherBefore, otherAfter, otherWhole, rfl⟩
  rcases PieceTable.split_unique rooted.nodup_pieces whole otherWhole with ⟨rfl, rfl, rfl⟩
  exact ⟨rfl, rfl⟩

theorem StartsAt.node (rooted : Rooted state tree) (starts : StartsAt state runId text place)
    : runId ≠ rootId ∧
      ∃ node, state.nodes.get? runId = some node ∧ node.deleted = false ∧ node.text = text := by
  rcases starts with ⟨before, after, whole, _⟩
  apply rooted.node_of_mem_pieces
  rw [whole]
  exact List.mem_append_right _ List.mem_cons_self

theorem StartsAt.fits (starts : StartsAt state runId text place) :
    place + text.length ≤ state.reconstruct.length := by
  rcases starts with ⟨before, after, whole, rfl⟩
  rw [← text_pieces, whole, PieceTable.text_append, PieceTable.text_cons, List.length_append,
    List.length_append]
  dsimp only
  omega

theorem splice_reconstruct (whole : state.pieces = before ++ (runId, text) :: after)
    (first : Nat) {last : Nat} (ordered : first ≤ last) (inside : last ≤ text.length) :
    splice state.reconstruct ((PieceTable.text before).length + first)
        ((PieceTable.text before).length + last) [] =
      PieceTable.text before ++ (text.take first ++ (text.drop last ++ PieceTable.text after)) := by
  rw [splice, ← text_pieces, whole, PieceTable.text_append, PieceTable.text_cons,
    List.take_length_add_append, List.drop_length_add_append,
    List.take_append_of_le_length (Nat.le_trans ordered inside),
    List.drop_append_of_le_length inside, List.append_nil, List.append_assoc]

theorem length_eq_of_splice_eq {items : List UInt16} {first second left right : Nat}
    (same : splice items first (first + left) [] = splice items second (second + right) [])
    (firstInside : first + left ≤ items.length) (secondInside : second + right ≤ items.length) :
    left = right := by
  have lengths := congrArg List.length same
  simp only [splice, List.append_nil, List.length_append, List.length_take, List.length_drop]
    at lengths
  omega

/-! ## Cutting the front of a run -/

theorem Rooted.tombstone_text (rooted : Rooted state tree)
    (starts : StartsAt state runId text place) : (state.tombstoneRun runId).reconstruct =
      splice state.reconstruct place (place + text.length) [] := by
  rcases starts with ⟨before, after, whole, rfl⟩
  have cut := splice_reconstruct whole 0 (Nat.zero_le text.length) (Nat.le_refl _)
  rw [Nat.add_zero] at cut
  rw [cut, ← text_pieces, rooted.pieces_tombstoneRun whole, PieceTable.text_append, List.take_zero,
    List.drop_length]
  rfl

theorem Rooted.cut_text (rooted : Rooted state tree) (starts : StartsAt state runId text place)
    {count : Nat} (positive : 0 < count) :
    ((state.applySplit runId count).tombstoneRun runId).reconstruct =
      splice state.reconstruct place (place +
        if count < text.length ∧ state.nodes.get? (makeSplitId runId count) = none then count
        else text.length) [] := by
  rcases starts.node rooted with ⟨_, node, found, _, rfl⟩
  rcases starts with ⟨before, after, whole, rfl⟩
  split
  · next cuts =>
      have split := @Rooted.pieces_applySplit state tree runId count rooted _ _ _ whole (by omega)
        (by omega) cuts.2
      rcases rooted.exists_split runId count with ⟨_, next⟩
      have cut := splice_reconstruct whole 0 (Nat.zero_le count) (Nat.le_of_lt cuts.1)
      rw [Nat.add_zero] at cut
      rw [cut, ← text_pieces, next.pieces_tombstoneRun split, PieceTable.text_append,
        PieceTable.text_cons, Int.toNat_natCast, List.take_zero]
      rfl
  · next whole' =>
      have unchanged : state.applySplit runId count = state := by
        rcases applySplit_cases state runId count with same | ⟨other, held, _, short, fresh⟩
        · exact same
        · rw [found] at held
          cases held
          exact absurd ⟨by omega, fresh⟩ whole'
      rw [unchanged]
      exact rooted.tombstone_text ⟨before, after, whole, rfl⟩

/-! ## Ranges -/

theorem readsLike_iff (rooted : Rooted state tree) {start count : Nat} {ends : Prop}
    (starts : StartsAt state rightId text place) :
    ReadsLike state rightId start count ends ↔
      (count = text.length ∨
        ¬ ends ∧ count < text.length ∧ state.nodes.get? (makeSplitId rightId count) = none) ∧
      splice state.reconstruct place (place + count) [] =
        splice state.reconstruct start (start + count) [] := by
  constructor
  · rintro ⟨other, second, again, found⟩
    rcases starts.unique rooted again with ⟨rfl, rfl⟩
    exact found
  · intro found
    exact ⟨text, place, starts, found⟩

theorem startsAt_of_mem_keys (shows : rightId ∈ PieceTable.keys state.pieces) :
    ∃ text place, StartsAt state rightId text place := by
  rcases List.mem_map.mp shows with ⟨⟨id, text⟩, listed, rfl⟩
  rcases List.append_of_mem listed with ⟨before, after, whole⟩
  exact ⟨text, _, before, after, whole, rfl⟩

theorem StartsAt.mem_keys (starts : StartsAt state runId text place) :
    runId ∈ PieceTable.keys state.pieces := by
  rcases starts with ⟨before, after, whole, rfl⟩
  rw [whole]
  exact PieceTable.mem_keys (List.mem_append_right _ List.mem_cons_self)

theorem Rooted.hits_other (rooted : Rooted state tree) (notRoot : rightId ≠ rootId)
    {start count : Nat} (positive : 0 < count) (inside : start + count ≤ state.reconstruct.length)
    (ends : Prop) [Decidable ends] :
    (if ends then state.tombstoneRun rightId
      else (state.applySplit rightId count).tombstoneRun rightId).reconstruct =
        splice state.reconstruct start (start + count) [] ↔
      ReadsLike state rightId start count ends := by
  have whole : splice state.reconstruct 0 (0 + 0) [] = state.reconstruct := rfl
  by_cases shows : rightId ∈ PieceTable.keys state.pieces
  · rcases startsAt_of_mem_keys shows with ⟨text, place, starts⟩
    have fits := starts.fits
    rw [readsLike_iff rooted starts]
    by_cases last : ends
    · rw [if_pos last, rooted.tombstone_text starts]
      constructor
      · intro same
        have length := length_eq_of_splice_eq same fits inside
        exact ⟨.inl length.symm, by rw [← length] at same ⊢; exact same⟩
      · rintro ⟨length | ⟨notLast, _⟩, same⟩
        · rw [← length]
          exact same
        · exact absurd last notLast
    · rw [if_neg last, rooted.cut_text starts positive]
      split
      · next cuts => exact ⟨fun same => ⟨.inr ⟨last, cuts⟩, same⟩, fun found => found.2⟩
      · next keeps =>
          constructor
          · intro same
            have length := length_eq_of_splice_eq same fits inside
            exact ⟨.inl length.symm, by rw [← length] at same ⊢; exact same⟩
          · rintro ⟨length | ⟨_, cuts⟩, same⟩
            · rw [← length]
              exact same
            · exact absurd cuts keeps
  · have unchanged : (if ends then state.tombstoneRun rightId
        else (state.applySplit rightId count).tombstoneRun rightId).reconstruct =
          state.reconstruct := by
      have hidden : (state.applySplit rightId count).pieces = state.pieces := by
        rcases applySplit_cases state rightId count with
          same | ⟨node, found, positive, inside, fresh⟩
        · rw [same]
        · exact rooted.pieces_applySplit_hidden found (fun _ => notRoot) shows positive inside fresh
      rcases rooted.exists_split rightId count with ⟨_, next⟩
      have gone := next.pieces_tombstone_hidden (by rw [hidden]; exact shows)
      split
      · rw [← text_pieces, ← text_pieces, rooted.pieces_tombstone_hidden shows]
      · rw [← text_pieces, ← text_pieces, gone, hidden]
    rw [unchanged]
    constructor
    · intro same
      have length := length_eq_of_splice_eq (whole.trans same) (Nat.zero_le _) inside
      omega
    · rintro ⟨text, place, starts, _⟩
      exact absurd starts.mem_keys shows

end Ranges

/-- In every state that edits lead to, a deletion takes exactly its range from the text if and
only if it finds the range. -/
theorem deleteRange_exact_iff {edits : List Edit} {state : DocState}
    (reached : machine.run createDocState edits = some state) {runId : String}
    {text : List UInt16} {position : Nat} (starts : StartsAt state runId text position)
    {offset count : Nat} (positive : 0 < count) (inside : offset + count ≤ text.length) :
    (state.docReducer (.deleteRange runId offset count)).reconstruct =
        splice state.reconstruct (position + offset) (position + offset + count) [] ↔
      FindsRange state runId text.length position offset count := by
  rcases (listed_of_run reached).exists_rooted with ⟨tree, rooted, _⟩
  have fits := starts.fits
  rcases starts.node rooted with ⟨other, node, found, live, rfl⟩
  rw [docReducer, applyDeleteRange, found]
  dsimp only
  rw [live, if_neg Bool.false_ne_true, if_neg (by omega), FindsRange]
  by_cases start : offset = 0
  · subst start
    rw [if_pos rfl, Nat.add_zero]
    by_cases all : count = node.text.length
    · rw [if_pos ⟨rfl, by rw [all]⟩, rooted.tombstone_text starts, all]
      exact iff_of_true rfl (.inl rfl)
    · rw [if_neg (by omega), if_pos (show ((0 : Nat) : Int) = 0 from rfl), rooted.cut_text starts positive]
      cases fresh : state.nodes.get? (makeSplitId runId count) with
      | none =>
          rw [if_pos ⟨by omega, rfl⟩]
          exact iff_of_true rfl (.inr rfl)
      | some other =>
          rw [if_neg (by rintro ⟨_, absent⟩; cases absent)]
          constructor
          · intro same
            have length := length_eq_of_splice_eq same fits (by omega)
            exact absurd length.symm all
          · rintro (same | absent)
            · exact absurd same all
            · cases absent
  · rw [if_neg start, if_neg (by omega), if_neg (by omega)]
    have notRoot := makeSplitId_ne_root runId offset
    cases taken : state.nodes.get? (makeSplitId runId offset) with
    | some taker =>
        have unchanged : state.applySplit runId offset = state := by
          rcases applySplit_cases state runId offset with same | ⟨_, _, _, _, fresh⟩
          · exact same
          · rw [taken] at fresh
            cases fresh
        have hits := rooted.hits_other notRoot positive (show position + offset + count ≤
          state.reconstruct.length by omega) (offset + count = node.text.length)
        rw [unchanged, if_pos (show (some taker).isSome = true from rfl), ← hits]
        by_cases ends : offset + count = node.text.length
        · rw [if_pos (by omega), if_pos ends]
        · rw [if_neg (by omega), if_neg ends]
    | none =>
        have text := text_applySplit rooted found (fun _ => other) (by omega) (by omega) taken
        rcases rooted.exists_split runId offset with ⟨_, next⟩
        have right : StartsAt (state.applySplit runId offset) (makeSplitId runId offset)
            (node.text.drop offset) (position + offset) := by
          rcases starts with ⟨before, after, whole, rfl⟩
          have split := @Rooted.pieces_applySplit state tree runId offset rooted _ _ _ whole
            (by omega) (by omega) taken
          rw [Int.toNat_natCast, List.append_cons] at split
          refine ⟨_, _, split, ?_⟩
          rw [PieceTable.text_append, List.length_append, PieceTable.text_cons, List.length_append,
            List.length_take, Nat.min_eq_left (by omega)]
          rfl
        have size : (node.text.drop offset).length = node.text.length - offset := List.length_drop
        have known := @nodes_applySplit_of_ne state runId node offset
          (makeSplitId (makeSplitId runId offset) count) found (by omega) (by omega) taken
          (makeSplitId_twice_ne_self runId offset count) (makeSplitId_ne_self _ _)
        rw [if_neg (show ¬ (none : Option RunNode).isSome = true from Bool.false_ne_true)]
        by_cases ends : offset + count = node.text.length
        · rw [if_pos (by omega), next.tombstone_text right, text, size,
            show node.text.length - offset = count by omega]
          exact iff_of_true rfl (.inl ends)
        · rw [if_neg (by omega), next.cut_text right positive, text, size]
          cases fresh : state.nodes.get? (makeSplitId (makeSplitId runId offset) count) with
          | none =>
              rw [fresh] at known
              rw [if_pos ⟨by omega, Option.not_isSome_iff_eq_none.mp
                (by rw [known]; exact Bool.false_ne_true)⟩]
              exact iff_of_true rfl (.inr rfl)
          | some last =>
              rw [fresh] at known
              rw [if_neg (by rintro ⟨_, absent⟩; rw [absent] at known; cases known)]
              constructor
              · intro same
                have length := length_eq_of_splice_eq same (by omega) (by omega)
                omega
              · rintro (same | absent)
                · exact absurd same ends
                · cases absent

theorem deleteRange_nestedRuns :
    StartsAt (nestedRuns.foldl edit createDocState) "1:usr_1" [97, 98] 0 ∧
      ((nestedRuns.foldl edit createDocState).docReducer
        (.deleteRange "1:usr_1" 0 1)).reconstruct = [98, 99] := by
  have starts : StartsAt (nestedRuns.foldl edit createDocState) "1:usr_1" [97, 98] 0 :=
    ⟨[], [("2:usr_1", [99])], rfl, rfl⟩
  exact ⟨starts, (@deleteRange_exact_iff nestedRuns _ rfl _ _ _ starts 0 1 (by decide)
    (by decide)).mpr (.inr (by decide))⟩

def reusedSplitId : List Edit :=
  [.reduce (.insertRun (run "1:usr_1" 1 [97, 98, 99] rootId)),
    .reduce (.split "1:usr_1" 1), .reduce (.extendRun "1:usr_1" [100, 101] 2)]

/-- The id of the part to cut off is in use, and the deletion hits the older part. -/
theorem reusedSplitId_misses :
    machine.run createDocState reusedSplitId = some (reusedSplitId.foldl edit createDocState) ∧
      StartsAt (reusedSplitId.foldl edit createDocState) "1:usr_1" [97, 100, 101] 0 ∧
      ((reusedSplitId.foldl edit createDocState).docReducer
        (.deleteRange "1:usr_1" 1 1)).reconstruct = [97, 100, 101, 99] ∧
      ((reusedSplitId.foldl edit createDocState).docReducer
        (.deleteRange "1:usr_1" 1 1)).reconstruct ≠
          splice (reusedSplitId.foldl edit createDocState).reconstruct (0 + 1) (0 + 1 + 1) [] := by
  refine ⟨rfl, ⟨[], [("1:usr_1:s:1", [98, 99])], ?_, rfl⟩, ?_, ?_⟩
  · decide
  · decide
  · decide

end DocState

end Ebb.Text
