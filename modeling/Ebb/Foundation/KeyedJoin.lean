import Ebb.Foundation.KeyedTree

namespace Ebb

/-! Joins in any order. Over trees that fit each other the join is idempotent,
commutative and associative at every path, and a fold over any list of them
depends on its members only. -/

/-! ## Folds of a join -/

/-- `op` is a join on the values `S` holds of. -/
structure JoinsOn (op : α → α → α) (S : α → Prop) : Prop where
  closed : ∀ a b, S a → S b → S (op a b)
  idempotent : ∀ a, S a → op a a = a
  commutative : ∀ a b, S a → S b → op a b = op b a
  associative : ∀ a b c, S a → S b → S c → op (op a b) c = op a (op b c)

namespace JoinsOn

variable {op : α → α → α} {S : α → Prop} (joins : JoinsOn op S)

include joins

theorem foldl_holds {first : α} {rest : List α} (start : S first) (held : ∀ a ∈ rest, S a) :
    S (rest.foldl op first) := by
  induction rest generalizing first with
  | nil => exact start
  | cons head rest induction =>
      apply induction
      · exact joins.closed first head start (held head List.mem_cons_self)
      · exact fun a member => held a (List.mem_cons_of_mem head member)

theorem foldl_keeps {first a : α} {rest : List α} (start : S first) (held : ∀ a ∈ rest, S a)
    (holds : S a) (absorbed : op first a = first) :
    op (rest.foldl op first) a = rest.foldl op first := by
  induction rest generalizing first with
  | nil => exact absorbed
  | cons head rest induction =>
      have headHolds := held head List.mem_cons_self
      apply induction (joins.closed first head start headHolds)
        (fun other member => held other (List.mem_cons_of_mem head member))
      calc op (op first head) a
          = op first (op head a) := joins.associative _ _ _ start headHolds holds
        _ = op first (op a head) := by rw [joins.commutative head a headHolds holds]
        _ = op (op first a) head := (joins.associative _ _ _ start holds headHolds).symm
        _ = op first head := by rw [absorbed]

theorem foldl_absorbs {first a : α} {rest : List α} (held : ∀ a ∈ first :: rest, S a)
    (member : a ∈ first :: rest) : op (rest.foldl op first) a = rest.foldl op first := by
  induction rest generalizing first with
  | nil =>
      rw [List.mem_singleton.mp member]
      exact joins.idempotent first (held first List.mem_cons_self)
  | cons head rest induction =>
      have start := held first List.mem_cons_self
      have headHolds := held head (List.mem_cons_of_mem first List.mem_cons_self)
      have joined := joins.closed first head start headHolds
      have others : ∀ other ∈ rest, S other := fun other inRest =>
        held other (List.mem_cons_of_mem first (List.mem_cons_of_mem head inRest))
      have absorbsFirst : op (op first head) first = op first head := by
        rw [joins.commutative first head start headHolds,
          joins.associative _ _ _ headHolds start start, joins.idempotent first start]
      have absorbsHead : op (op first head) head = op first head := by
        rw [joins.associative _ _ _ start headHolds headHolds, joins.idempotent head headHolds]
      rw [List.foldl_cons]
      rcases List.mem_cons.mp member with equal | member
      · rw [equal]
        exact joins.foldl_keeps joined others start absorbsFirst
      · rcases List.mem_cons.mp member with equal | member
        · rw [equal]
          exact joins.foldl_keeps joined others headHolds absorbsHead
        · apply induction
          · intro other inRest
            rcases List.mem_cons.mp inRest with equal | inRest
            · exact equal ▸ joined
            · exact others other inRest
          · exact List.mem_cons_of_mem _ member

theorem absorbs_foldl {top first : α} {rest : List α} (topHolds : S top)
    (held : ∀ a ∈ first :: rest, S a) (absorbs : ∀ a ∈ first :: rest, op top a = top) :
    op top (rest.foldl op first) = top := by
  induction rest generalizing first with
  | nil => exact absorbs first List.mem_cons_self
  | cons head rest induction =>
      have start := held first List.mem_cons_self
      have headMember : head ∈ first :: head :: rest :=
        List.mem_cons_of_mem first List.mem_cons_self
      apply induction
      · intro other member
        rcases List.mem_cons.mp member with equal | member
        · exact equal ▸ joins.closed first head start (held head headMember)
        · exact held other (List.mem_cons_of_mem first (List.mem_cons_of_mem head member))
      · intro other member
        rcases List.mem_cons.mp member with equal | member
        · rw [equal, ← joins.associative _ _ _ topHolds start (held head headMember),
            absorbs first List.mem_cons_self, absorbs head headMember]
        · exact absorbs other (List.mem_cons_of_mem first (List.mem_cons_of_mem head member))

theorem foldl_eq_of_mem_iff {first other : α} {rest others : List α}
    (held : ∀ a ∈ first :: rest, S a)
    (same : ∀ a, a ∈ first :: rest ↔ a ∈ other :: others) :
    rest.foldl op first = others.foldl op other := by
  have otherHeld : ∀ a ∈ other :: others, S a := fun a member => held a ((same a).mpr member)
  have left : S (rest.foldl op first) := joins.foldl_holds (held first List.mem_cons_self)
    fun a member => held a (List.mem_cons_of_mem first member)
  have right : S (others.foldl op other) := joins.foldl_holds (otherHeld other List.mem_cons_self)
    fun a member => otherHeld a (List.mem_cons_of_mem other member)
  have leftAbsorbs : op (rest.foldl op first) (others.foldl op other) = rest.foldl op first :=
    joins.absorbs_foldl left otherHeld fun a member =>
      joins.foldl_absorbs held ((same a).mpr member)
  have rightAbsorbs : op (others.foldl op other) (rest.foldl op first) = others.foldl op other :=
    joins.absorbs_foldl right held fun a member =>
      joins.foldl_absorbs otherHeld ((same a).mp member)
  rw [← leftAbsorbs, joins.commutative _ _ left right, rightAbsorbs]

end JoinsOn

namespace KeyedTree

variable {K : Type u} {L : Type v} [DecidableEq K]

/-! ## Trees that fit each other -/

/-- The join of the two trees does not depend on which comes first. -/
structure Fits (rule : L → L → L) (admits : K → L → Bool) (left right : KeyedTree K L) : Prop where
  oneKind : OneKind left right
  admitsRight : AdmitsNew admits left right
  admitsLeft : AdmitsNew admits right left
  commutes : ∀ path first second, left.get? path = some (.leaf first) →
    right.get? path = some (.leaf second) → rule first second = rule second first

/-- A collection of trees whose joins are taken. The rule picks one of the two
leaves, and it is associative on the leaves that meet. -/
structure Joinable (rule : L → L → L) (admits : K → L → Bool) (S : KeyedTree K L → Prop) :
    Prop where
  keyed : ∀ tree, S tree → tree.Keyed
  fits : ∀ left right, S left → S right → Fits rule admits left right
  selects : ∀ first second, rule first second = first ∨ rule first second = second
  associates : ∀ a b c, S a → S b → S c → ∀ path first second third,
    a.get? path = some (.leaf first) → b.get? path = some (.leaf second) →
      c.get? path = some (.leaf third) →
        rule (rule first second) third = rule first (rule second third)

variable {rule : L → L → L} {admits : K → L → Bool}

theorem Fits.symm {left right : KeyedTree K L} (fits : Fits rule admits left right) :
    Fits rule admits right left where
  oneKind := fits.oneKind.symm
  admitsRight := fits.admitsLeft
  admitsLeft := fits.admitsRight
  commutes path first second found other := (fits.commutes path second first other found).symm

theorem Fits.get?_join {left right : KeyedTree K L} (fits : Fits rule admits left right)
    (keyed : right.Keyed) (path : List K) :
    (KeyedTree.join rule admits left right).get? path =
      joinNode rule (left.get? path) (right.get? path) :=
  KeyedTree.get?_join path keyed fits.oneKind fits.admitsRight

section Nodes

variable (selects : ∀ first second, rule first second = first ∨ rule first second = second)

include selects

theorem joinNode_eq_or {left right : Option (Node L)}
    (kinds : ∀ first second, left = some first → right = some second →
      (first = .map ↔ second = .map)) :
    joinNode rule left right = left ∨ joinNode rule left right = right := by
  rcases left with _ | ⟨first⟩ | _ <;> rcases right with _ | ⟨second⟩ | _
  · exact .inl rfl
  · exact .inr rfl
  · exact .inr rfl
  · exact .inl rfl
  · rcases selects first second with kept | replaced
    · exact .inl (by rw [joinNode, kept])
    · exact .inr (by rw [joinNode, replaced])
  · have kind := kinds _ _ rfl rfl
    simp at kind
  · exact .inl rfl
  · have kind := kinds _ _ rfl rfl
    simp at kind
  · exact .inl rfl

theorem joinNode_idem (node : Option (Node L)) : joinNode rule node node = node := by
  rcases node with _ | ⟨first⟩ | _
  · rfl
  · rw [joinNode, (selects first first).elim id id]
  · rfl

end Nodes

theorem joinNode_eq_none {left right : Option (Node L)}
    (absent : joinNode rule left right = none) : left = none ∧ right = none := by
  rcases left with _ | ⟨_⟩ | _ <;> rcases right with _ | ⟨_⟩ | _ <;>
    simp_all [joinNode]

theorem joinNode_comm {left right : Option (Node L)}
    (kinds : ∀ first second, left = some first → right = some second →
      (first = .map ↔ second = .map))
    (commutes : ∀ first second, left = some (.leaf first) → right = some (.leaf second) →
      rule first second = rule second first) :
    joinNode rule left right = joinNode rule right left := by
  rcases left with _ | ⟨first⟩ | _ <;> rcases right with _ | ⟨second⟩ | _
  · rfl
  · rfl
  · rfl
  · rfl
  · rw [joinNode, joinNode, commutes first second rfl rfl]
  · have kind := kinds _ _ rfl rfl
    simp at kind
  · rfl
  · have kind := kinds _ _ rfl rfl
    simp at kind
  · rfl

theorem joinNode_assoc {a b c : Option (Node L)}
    (kinds : ∀ first second, b = some first → c = some second → (first = .map ↔ second = .map))
    (outerKinds : ∀ first second, a = some first → b = some second →
      (first = .map ↔ second = .map))
    (associates : ∀ first second third, a = some (.leaf first) → b = some (.leaf second) →
      c = some (.leaf third) → rule (rule first second) third = rule first (rule second third)) :
    joinNode rule (joinNode rule a b) c = joinNode rule a (joinNode rule b c) := by
  rcases a with _ | ⟨first⟩ | _ <;> rcases b with _ | ⟨second⟩ | _ <;>
    rcases c with _ | ⟨third⟩ | _ <;> try rfl
  · rw [joinNode, joinNode, joinNode, joinNode, associates first second third rfl rfl rfl]
  · have kind := kinds _ _ rfl rfl
    simp at kind

namespace Joinable

variable {S : KeyedTree K L → Prop} (joinable : Joinable rule admits S)

include joinable

theorem joinsOn (path : List K) :
    JoinsOn (joinNode rule) fun node => ∃ tree, S tree ∧ tree.get? path = node where
  closed := by
    rintro _ _ ⟨left, leftHolds, rfl⟩ ⟨right, rightHolds, rfl⟩
    have fits := joinable.fits left right leftHolds rightHolds
    rcases joinNode_eq_or joinable.selects (fits.oneKind path) with kept | replaced
    · exact ⟨left, leftHolds, kept.symm⟩
    · exact ⟨right, rightHolds, replaced.symm⟩
  idempotent node _ := joinNode_idem joinable.selects node
  commutative := by
    rintro _ _ ⟨left, leftHolds, rfl⟩ ⟨right, rightHolds, rfl⟩
    have fits := joinable.fits left right leftHolds rightHolds
    exact joinNode_comm (fits.oneKind path) (fits.commutes path)
  associative := by
    rintro _ _ _ ⟨a, aHolds, rfl⟩ ⟨b, bHolds, rfl⟩ ⟨c, cHolds, rfl⟩
    exact joinNode_assoc ((joinable.fits b c bHolds cHolds).oneKind path)
      ((joinable.fits a b aHolds bHolds).oneKind path)
      (joinable.associates a b c aHolds bHolds cHolds path)

/-- A tree whose nodes are nodes of the collection, and whose records lack only
keys that a record of the collection lacks there. -/
structure ReadsFrom (S : KeyedTree K L → Prop) (tree : KeyedTree K L) : Prop where
  nodes : ∀ path, ∃ member, S member ∧ member.get? path = tree.get? path
  records : ∀ path key, tree.get? path = some .map → tree.get? (path ++ [key]) = none →
    ∃ member, S member ∧ member.get? path = some .map ∧ member.get? (path ++ [key]) = none

omit joinable in
theorem ReadsFrom.of_member {tree : KeyedTree K L} (holds : S tree) : ReadsFrom S tree where
  nodes _ := ⟨tree, holds, rfl⟩
  records _ _ record absent := ⟨tree, holds, record, absent⟩

theorem fits_of_reads {tree other : KeyedTree K L} (reads : ReadsFrom S tree) (holds : S other) :
    Fits rule admits tree other where
  oneKind path first second found otherFound := by
    rcases reads.nodes path with ⟨member, memberHolds, equal⟩
    exact (joinable.fits member other memberHolds holds).oneKind path first second
      (equal.trans found) otherFound
  admitsRight path key content record absent found := by
    rcases reads.records path key record absent with ⟨member, memberHolds, record, absent⟩
    exact (joinable.fits member other memberHolds holds).admitsRight path key content record
      absent found
  admitsLeft path key content record absent found := by
    rcases reads.nodes (path ++ [key]) with ⟨member, memberHolds, equal⟩
    exact (joinable.fits member other memberHolds holds).admitsLeft path key content record
      absent (equal.trans found)
  commutes path first second found otherFound := by
    rcases reads.nodes path with ⟨member, memberHolds, equal⟩
    exact (joinable.fits member other memberHolds holds).commutes path first second
      (equal.trans found) otherFound

theorem get?_join_of_reads {tree other : KeyedTree K L} (reads : ReadsFrom S tree)
    (holds : S other) (path : List K) :
    (KeyedTree.join rule admits tree other).get? path =
      joinNode rule (tree.get? path) (other.get? path) :=
  (joinable.fits_of_reads reads holds).get?_join (joinable.keyed other holds) path

theorem readsFrom_join {tree other : KeyedTree K L} (reads : ReadsFrom S tree)
    (holds : S other) : ReadsFrom S (KeyedTree.join rule admits tree other) where
  nodes path := by
    have fits := joinable.fits_of_reads reads holds
    rw [joinable.get?_join_of_reads reads holds path]
    rcases joinNode_eq_or joinable.selects (fits.oneKind path) with kept | replaced
    · rw [kept]
      exact reads.nodes path
    · exact ⟨other, holds, replaced.symm⟩
  records path key record absent := by
    rw [joinable.get?_join_of_reads reads holds] at record absent
    have bothAbsent := joinNode_eq_none absent
    have fits := joinable.fits_of_reads reads holds
    rcases joinNode_eq_or joinable.selects (fits.oneKind path) with kept | replaced
    · exact reads.records path key (kept.symm.trans record) bothAbsent.1
    · exact ⟨other, holds, replaced.symm.trans record, bothAbsent.2⟩

/-! ## The laws of the join -/

theorem join_self {tree : KeyedTree K L} (holds : S tree) :
    Same (KeyedTree.join rule admits tree tree) tree := by
  intro path
  rw [joinable.get?_join_of_reads (ReadsFrom.of_member holds) holds]
  exact joinNode_idem joinable.selects _

theorem join_comm {left right : KeyedTree K L} (leftHolds : S left) (rightHolds : S right) :
    Same (KeyedTree.join rule admits left right) (KeyedTree.join rule admits right left) := by
  intro path
  have fits := joinable.fits left right leftHolds rightHolds
  rw [fits.get?_join (joinable.keyed right rightHolds),
    fits.symm.get?_join (joinable.keyed left leftHolds)]
  exact joinNode_comm (fits.oneKind path) (fits.commutes path)

theorem join_assoc {a b c : KeyedTree K L} (aHolds : S a) (bHolds : S b) (cHolds : S c) :
    Same (KeyedTree.join rule admits (KeyedTree.join rule admits a b) c)
      (KeyedTree.join rule admits a (KeyedTree.join rule admits b c)) := by
  intro path
  have first := ReadsFrom.of_member aHolds
  have second := ReadsFrom.of_member bHolds
  have fits := (joinable.fits_of_reads (joinable.readsFrom_join second cHolds) aHolds).symm
  rw [joinable.get?_join_of_reads (joinable.readsFrom_join first bHolds) cHolds,
    joinable.get?_join_of_reads first bHolds,
    fits.get?_join ((joinable.keyed b bHolds).join (joinable.keyed c cHolds)),
    joinable.get?_join_of_reads second cHolds]
  exact joinNode_assoc ((joinable.fits b c bHolds cHolds).oneKind path)
    ((joinable.fits a b aHolds bHolds).oneKind path)
    (joinable.associates a b c aHolds bHolds cHolds path)

theorem get?_foldl_join {first : KeyedTree K L} {rest : List (KeyedTree K L)}
    (reads : ReadsFrom S first) (held : ∀ tree ∈ rest, S tree) (path : List K) :
    (rest.foldl (KeyedTree.join rule admits) first).get? path =
      (rest.map fun tree => tree.get? path).foldl (joinNode rule) (first.get? path) := by
  induction rest generalizing first with
  | nil => rfl
  | cons head rest induction =>
      have headHolds := held head List.mem_cons_self
      rw [List.foldl_cons, List.map_cons, List.foldl_cons,
        induction (joinable.readsFrom_join reads headHolds)
          (fun tree member => held tree (List.mem_cons_of_mem head member)),
        joinable.get?_join_of_reads reads headHolds]

theorem foldl_join {first other : KeyedTree K L} {rest others : List (KeyedTree K L)}
    (held : ∀ tree ∈ first :: rest, S tree)
    (same : ∀ tree, tree ∈ first :: rest ↔ tree ∈ other :: others) :
    Same (rest.foldl (KeyedTree.join rule admits) first)
      (others.foldl (KeyedTree.join rule admits) other) := by
  intro path
  have otherHeld : ∀ tree ∈ other :: others, S tree := fun tree member =>
    held tree ((same tree).mpr member)
  rw [joinable.get?_foldl_join (ReadsFrom.of_member (held first List.mem_cons_self))
      (fun tree member => held tree (List.mem_cons_of_mem first member)),
    joinable.get?_foldl_join (ReadsFrom.of_member (otherHeld other List.mem_cons_self))
      (fun tree member => otherHeld tree (List.mem_cons_of_mem other member))]
  have member : ∀ (node : Option (Node L)) (head : KeyedTree K L) (tail : List (KeyedTree K L)),
      node ∈ head.get? path :: tail.map (fun tree => tree.get? path) ↔
        ∃ tree ∈ head :: tail, tree.get? path = node := by
    intro node head tail
    rw [← List.mem_map, List.map_cons]
  apply (joinable.joinsOn path).foldl_eq_of_mem_iff
  · intro node inNodes
    rcases (member node first rest).mp inNodes with ⟨tree, inList, rfl⟩
    exact ⟨tree, held tree inList, rfl⟩
  · intro node
    rw [member, member]
    constructor
    · rintro ⟨tree, member, rfl⟩
      exact ⟨tree, (same tree).mp member, rfl⟩
    · rintro ⟨tree, member, rfl⟩
      exact ⟨tree, (same tree).mpr member, rfl⟩

end Joinable

end KeyedTree

end Ebb
