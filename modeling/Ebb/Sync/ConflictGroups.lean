import Ebb.Foundation.UnionFind
import Mathlib.Algebra.GroupWithZero.Nat

namespace Ebb.Sync

/-! Losing entries of one detection pass, grouped into conflicts: the losers that share a
subject, directly or through others, get one conflict id. -/

/-- A losing entry with the subjects it contests, what is known of each, and the contested
positions. -/
structure Loser (State Slot : Type) where
  id : String
  subjects : List String
  subjectStates : List State
  slots : List Slot

structure GroupedLoser (State Slot : Type) where
  loser : Loser State Slot
  conflictId : String

variable {State Slot : Type}

/-! ## Grouping -/

/-- One step of the first pass: the subjects of a loser join the class of its first. -/
def joinSubjects (fuel : Nat) (parent : List (String × String)) (loser : Loser State Slot) :
    Option (List (String × String)) :=
  match loser.subjects with
  | [] => some parent
  | first :: rest =>
      rest.foldlM
        (fun parent subject => UnionFind.union (UnionFind.add parent subject) fuel first subject)
        (UnionFind.add parent first)

/-- The second pass: the first loser of a class mints the id of its conflict. `minted`
counts the ids minted so far. -/
def assignIds (mintId : Nat → String) (root : String → Option String) :
    List (Loser State Slot) → List (String × String) → Nat → Option (List (GroupedLoser State Slot))
  | [], _, _ => some []
  | loser :: rest, idByRoot, minted =>
      match loser.subjects with
      | [] =>
          (assignIds mintId root rest idByRoot (minted + 1)).map
            ({ loser, conflictId := mintId minted } :: ·)
      | first :: _ =>
          match root first with
          | none => none
          | some found =>
              match idByRoot.lookup found with
              | some conflictId =>
                  (assignIds mintId root rest idByRoot minted).map ({ loser, conflictId } :: ·)
              | none =>
                  (assignIds mintId root rest (setEntry found (mintId minted) idByRoot)
                    (minted + 1)).map ({ loser, conflictId := mintId minted } :: ·)

/-- How often a class can be joined below another. -/
def joinBound (losers : List (Loser State Slot)) : Nat :=
  (losers.map fun loser => loser.subjects.length).sum + 1

/-- The walks to a root end, so there is a result; none stands for a walk without end. -/
def groupLosers (losers : List (Loser State Slot)) (mintId : Nat → String) :
    Option (List (GroupedLoser State Slot)) :=
  match losers.foldlM (joinSubjects (joinBound losers)) [] with
  | none => none
  | some parent =>
      assignIds mintId (UnionFind.find parent (joinBound losers)) losers [] 0

/-- Two places of the list whose losers have a subject in common. -/
def SharesSubject (losers : List (Loser State Slot)) (left right : Nat) : Prop :=
  ∃ one other, losers[left]? = some one ∧ losers[right]? = some other ∧
    ∃ subject, subject ∈ one.subjects ∧ subject ∈ other.subjects

/-- A chain of losers, each sharing a subject with the next. -/
def Connected (losers : List (Loser State Slot)) : Nat → Nat → Prop :=
  Relation.ReflTransGen (SharesSubject losers)

/-- What the first pass joins: the first subject of a loser with each of its others. -/
def Joins (losers : List (Loser State Slot)) (left right : String) : Prop :=
  ∃ loser ∈ losers, ∃ rest, loser.subjects = left :: rest ∧ right ∈ rest

variable {losers : List (Loser State Slot)} {parent : List (String × String)}
  {edge : String → String → Prop} {left right : String} {one : Loser State Slot}
  {mintId : Nat → String} {idByRoot : List (String × String)} {minted : Nat}
  {root : String → Option String} {grouped : List (GroupedLoser State Slot)}
  {entry : GroupedLoser State Slot}

theorem SharesSubject.symm {left right : Nat} (shares : SharesSubject losers left right)
    : SharesSubject losers right left := by
  obtain ⟨one, other, leftAt, rightAt, subject, inOne, inOther⟩ := shares
  exact ⟨other, one, rightAt, leftAt, subject, inOther, inOne⟩

theorem Connected.symm {left right : Nat} (connected : Connected losers left right)
    : Connected losers right left := by
  induction connected with
  | refl => exact .refl
  | tail _ shares induction => exact .head shares.symm induction

/-! ## The first pass -/

theorem isSome_add (parent : List (String × String)) (new key : String) :
    ((UnionFind.add parent new).lookup key).isSome ↔
      (parent.lookup key).isSome ∨ key = new := by
  simp only [UnionFind.add]
  split
  · next stored =>
      constructor
      · exact .inl
      · rintro (old | rfl)
        · exact old
        · exact stored
  · rw [lookup_setEntry]
    split <;> simp_all

theorem eqvGen_congr {α : Type u} {left right : α → α → Prop}
    (same : ∀ one other, left one other ↔ right one other) (one other : α) :
    Relation.EqvGen left one other ↔ Relation.EqvGen right one other := by
  constructor
  · exact fun related => related.mono fun one other => (same one other).mp
  · exact fun related => related.mono fun one other => (same one other).mpr

theorem joinRest_spec (fuel : Nat) {depth : Nat} {first : String} (rest : List String)
    (represents : UnionFind.Represents parent depth edge) (positive : 0 < depth)
    (firstStored : (parent.lookup first).isSome) (enough : depth + rest.length ≤ fuel) :
    ∃ next, rest.foldlM
        (fun parent subject => UnionFind.union (UnionFind.add parent subject) fuel first subject)
        parent = some next ∧
      (∀ key, (parent.lookup key).isSome → (next.lookup key).isSome) ∧
      UnionFind.Represents next (depth + rest.length)
        fun one other => edge one other ∨ one = first ∧ other ∈ rest := by
  induction rest generalizing parent depth edge with
  | nil =>
      refine ⟨parent, rfl, fun _ stored => stored, represents.found, fun one other => ?_⟩
      rw [List.length_nil, Nat.add_zero, represents.same]
      exact eqvGen_congr (by simp) one other
  | cons subject rest induction =>
      simp only [List.length_cons] at enough
      have added := represents.add positive subject
      have enoughHere : depth ≤ fuel := by omega
      obtain ⟨joined, joins, keeps, next⟩ := added.union
        ((isSome_add parent subject first).mpr (.inl firstStored))
        ((isSome_add parent subject subject).mpr (.inr rfl)) enoughHere
      have stored : ∀ key, (parent.lookup key).isSome → (joined.lookup key).isSome :=
        fun key old => keeps key ((isSome_add parent subject key).mpr (.inl old))
      obtain ⟨final, folds, further, result⟩ :=
        induction next (Nat.succ_pos depth) (stored first firstStored) (by omega)
      refine ⟨final, ?_, fun key old => further key (stored key old), ?_⟩
      · rw [List.foldlM_cons, joins]
        exact folds
      · rw [show depth + 1 + rest.length = depth + (subject :: rest).length by
          simp only [List.length_cons]; omega] at result
        refine ⟨result.found, fun one other => ?_⟩
        rw [result.same]
        apply eqvGen_congr
        intro one other
        simp only [List.mem_cons]
        tauto

theorem joinSubjects_foldlM (fuel : Nat) (losers : List (Loser State Slot)) {depth : Nat}
    (represents : UnionFind.Represents parent depth edge) (positive : 0 < depth)
    (enough : depth + (losers.map fun loser => loser.subjects.length).sum ≤ fuel) :
    ∃ next, losers.foldlM (joinSubjects fuel) parent = some next ∧
      (∀ key, (parent.lookup key).isSome → (next.lookup key).isSome) ∧
      (∀ loser ∈ losers, ∀ first, loser.subjects.head? = some first →
        (next.lookup first).isSome) ∧
      UnionFind.Represents next fuel fun one other => edge one other ∨ Joins losers one other := by
  induction losers generalizing parent depth edge with
  | nil =>
      have grown := represents.mono (by simpa using enough)
      refine ⟨parent, rfl, fun _ stored => stored, by simp, grown.found, fun one other => ?_⟩
      rw [grown.same]
      exact eqvGen_congr (by simp [Joins]) one other
  | cons loser losers induction =>
      simp only [List.map_cons, List.sum_cons] at enough
      cases subjects : loser.subjects with
      | nil =>
          rw [subjects, List.length_nil] at enough
          obtain ⟨next, folds, keeps, firsts, result⟩ :=
            induction represents positive (by omega)
          refine ⟨next, ?_, keeps, ?_, result.found, fun one other => ?_⟩
          · simp [List.foldlM_cons, joinSubjects, subjects, folds]
          · intro other member first isFirst
            cases member with
            | head => simp [subjects] at isFirst
            | tail _ member => exact firsts other member first isFirst
          · rw [result.same]
            apply eqvGen_congr
            simp [Joins, subjects]
      | cons first rest =>
          rw [subjects, List.length_cons] at enough
          have added := represents.add positive first
          obtain ⟨joined, joins, stores, here⟩ := joinRest_spec fuel rest added positive
            ((isSome_add parent first first).mpr (.inr rfl)) (by omega)
          obtain ⟨next, folds, keeps, firsts, result⟩ := induction here (by omega) (by omega)
          refine ⟨next, ?_, ?_, ?_, result.found, fun one other => ?_⟩
          · simp [List.foldlM_cons, joinSubjects, subjects, joins, folds]
          · exact fun key old =>
              keeps key (stores key ((isSome_add parent first key).mpr (.inl old)))
          · intro other member start isFirst
            cases member with
            | head =>
                have same : first = start := by simpa [subjects] using isFirst
                subst same
                exact keeps first (stores first ((isSome_add parent first first).mpr (.inr rfl)))
            | tail _ member => exact firsts other member start isFirst
          · rw [result.same]
            apply eqvGen_congr
            intro one other
            simp only [Joins, List.mem_cons, exists_eq_or_imp, subjects, List.cons.injEq]
            grind

/-! ## Classes of subjects -/

theorem joined_within {loser : Loser State Slot} (member : loser ∈ losers)
    (inLeft : left ∈ loser.subjects) (inRight : right ∈ loser.subjects)
    : Relation.EqvGen (Joins losers) left right := by
  cases subjects : loser.subjects with
  | nil => simp [subjects] at inLeft
  | cons first rest =>
      have fromFirst : ∀ subject ∈ loser.subjects, Relation.EqvGen (Joins losers) first subject := by
        intro subject inSubjects
        rw [subjects] at inSubjects
        cases inSubjects with
        | head => exact .refl first
        | tail _ inRest => exact .rel _ _ ⟨loser, member, rest, subjects, inRest⟩
      exact ((fromFirst left inLeft).symm _ _).trans _ _ _ (fromFirst right inRight)

theorem connected_of_joined (joined : Relation.EqvGen (Joins losers) left right) :
    ((∃ loser ∈ losers, left ∈ loser.subjects) ↔ ∃ loser ∈ losers, right ∈ loser.subjects) ∧
    ∀ i j one other, losers[i]? = some one → losers[j]? = some other →
      left ∈ one.subjects → right ∈ other.subjects → Connected losers i j := by
  induction joined with
  | rel left right joins =>
      obtain ⟨loser, member, rest, subjects, inRest⟩ := joins
      have inLeft : left ∈ loser.subjects := by simp [subjects]
      have inRight : right ∈ loser.subjects := by simp [subjects, inRest]
      constructor
      · exact ⟨fun _ => ⟨loser, member, inRight⟩, fun _ => ⟨loser, member, inLeft⟩⟩
      · intro i j one other oneAt otherAt inOne inOther
        obtain ⟨k, loserAt⟩ := List.getElem?_of_mem member
        have toLoser : SharesSubject losers i k := ⟨one, loser, oneAt, loserAt, left, inOne, inLeft⟩
        have fromLoser : SharesSubject losers k j :=
          ⟨loser, other, loserAt, otherAt, right, inRight, inOther⟩
        exact .head toLoser (.single fromLoser)
  | refl subject =>
      constructor
      · exact Iff.rfl
      · intro i j one other oneAt otherAt inOne inOther
        exact .single ⟨one, other, oneAt, otherAt, subject, inOne, inOther⟩
  | symm left right _ induction =>
      constructor
      · exact induction.1.symm
      · intro i j one other oneAt otherAt inOne inOther
        exact (induction.2 j i other one otherAt oneAt inOther inOne).symm
  | trans left middle right _ _ first second =>
      constructor
      · exact first.1.trans second.1
      · intro i j one other oneAt otherAt inOne inOther
        obtain ⟨loser, member, inLoser⟩ := first.1.mp ⟨one, List.mem_of_getElem? oneAt, inOne⟩
        obtain ⟨k, loserAt⟩ := List.getElem?_of_mem member
        exact (first.2 i k one loser oneAt loserAt inOne inLoser).trans
          (second.2 k j loser other loserAt otherAt inLoser inOther)

theorem joined_of_connected {i j : Nat} (connected : Connected losers i j)
    {other : Loser State Slot} (oneAt : losers[i]? = some one) (otherAt : losers[j]? = some other)
    (inOne : left ∈ one.subjects) (inOther : right ∈ other.subjects) :
    Relation.EqvGen (Joins losers) left right := by
  induction connected generalizing other right with
  | refl =>
      rw [oneAt] at otherAt
      cases otherAt
      exact joined_within (List.mem_of_getElem? oneAt) inOne inOther
  | tail _ shares induction =>
      obtain ⟨middle, last, middleAt, lastAt, subject, inMiddle, inLast⟩ := shares
      rw [otherAt] at lastAt
      cases lastAt
      exact (induction middleAt inMiddle).trans _ _ _
        (joined_within (List.mem_of_getElem? otherAt) inLast inOther)

theorem eq_of_connected_bare {i j : Nat} (connected : Connected losers i j)
    (oneAt : losers[i]? = some one) (bare : one.subjects = []) : i = j := by
  cases Relation.ReflTransGen.cases_head connected with
  | inl same => exact same
  | inr step =>
      obtain ⟨_, ⟨first, _, firstAt, _, subject, inFirst, _⟩, _⟩ := step
      rw [oneAt] at firstAt
      cases firstAt
      simp [bare] at inFirst

/-! ## The second pass -/

def rootAt (root : String → Option String) (loser : Loser State Slot) : Option String :=
  loser.subjects.head?.bind root

/-- The ids handed out so far, one for each class. -/
structure Issued (mintId : Nat → String) (idByRoot : List (String × String)) (minted : Nat) :
    Prop where
  number : ∀ found conflictId, idByRoot.lookup found = some conflictId →
    ∃ n < minted, conflictId = mintId n
  apart : ∀ found other conflictId, idByRoot.lookup found = some conflictId →
    idByRoot.lookup other = some conflictId → found = other

theorem issued_nil (mintId : Nat → String) : Issued mintId [] 0 where
  number := by simp
  apart := by simp

theorem Issued.skip (issued : Issued mintId idByRoot minted) : Issued mintId idByRoot
    (minted + 1) where
  number := by
    intro found conflictId stored
    obtain ⟨n, before, same⟩ := issued.number found conflictId stored
    exact ⟨n, by omega, same⟩
  apart := issued.apart

theorem Issued.mint (issued : Issued mintId idByRoot minted) (distinct : Function.Injective mintId)
    (found : String) : Issued mintId (setEntry found (mintId minted) idByRoot) (minted + 1) where
  number := by
    intro other conflictId stored
    rw [lookup_setEntry] at stored
    split at stored
    · cases stored
      exact ⟨minted, by omega, rfl⟩
    · exact issued.skip.number other conflictId stored
  apart := by
    have older : ∀ other, idByRoot.lookup other ≠ some (mintId minted) := by
      intro other stored
      obtain ⟨n, before, same⟩ := issued.number other _ stored
      have := distinct same
      omega
    intro left right conflictId leftStored rightStored
    rw [lookup_setEntry] at leftStored rightStored
    split at leftStored
    · next isLeft =>
        cases leftStored
        split at rightStored
        · next isRight => rw [isLeft, isRight]
        · exact absurd rightStored (older right)
    · split at rightStored
      · cases rightStored
        exact absurd leftStored (older left)
      · exact issued.apart left right conflictId leftStored rightStored

/-- What the second pass gives the losers that remain. -/
structure Assigned (mintId : Nat → String) (root : String → Option String)
    (losers : List (Loser State Slot)) (idByRoot : List (String × String)) (minted : Nat)
    (grouped : List (GroupedLoser State Slot)) : Prop where
  inOrder : grouped.map (·.loser) = losers
  kept : ∀ entry ∈ grouped, ∀ found conflictId, rootAt root entry.loser = some found →
    idByRoot.lookup found = some conflictId → entry.conflictId = conflictId
  fresh : ∀ entry ∈ grouped,
    (∀ found, rootAt root entry.loser = some found → idByRoot.lookup found = none) →
    ∃ n, minted ≤ n ∧ entry.conflictId = mintId n
  classes : grouped.Pairwise fun one other => one.conflictId = other.conflictId ↔
    ∃ found, rootAt root one.loser = some found ∧ rootAt root other.loser = some found

theorem Assigned.cases (assigned : Assigned mintId root losers idByRoot minted grouped)
    (member : entry ∈ grouped) :
    (∃ found, rootAt root entry.loser = some found ∧
      idByRoot.lookup found = some entry.conflictId) ∨
    (∀ found, rootAt root entry.loser = some found → idByRoot.lookup found = none) ∧
      ∃ n, minted ≤ n ∧ entry.conflictId = mintId n := by
  by_cases absent : ∀ found, rootAt root entry.loser = some found → idByRoot.lookup found = none
  · exact .inr ⟨absent, assigned.fresh entry member absent⟩
  · push Not at absent
    obtain ⟨found, isRoot, stored⟩ := absent
    obtain ⟨conflictId, known⟩ := Option.ne_none_iff_exists'.mp stored
    have same := assigned.kept entry member found conflictId isRoot known
    exact .inl ⟨found, isRoot, same ▸ known⟩

theorem Assigned.eq_known_iff (assigned : Assigned mintId root losers idByRoot minted grouped)
    (issued : Issued mintId idByRoot minted) (distinct : Function.Injective mintId)
    {found conflictId : String} (known : idByRoot.lookup found = some conflictId)
    (member : entry ∈ grouped) :
    conflictId = entry.conflictId ↔ rootAt root entry.loser = some found := by
  constructor
  · intro same
    cases assigned.cases member with
    | inl stored =>
        obtain ⟨other, isRoot, otherKnown⟩ := stored
        rw [isRoot, issued.apart other found conflictId (same ▸ otherKnown) known]
    | inr fresh =>
        obtain ⟨_, n, after, minted⟩ := fresh
        obtain ⟨m, before, number⟩ := issued.number found conflictId known
        have : m = n := distinct (number.symm.trans (same.trans minted))
        omega
  · intro isRoot
    exact (assigned.kept entry member found conflictId isRoot known).symm

theorem Assigned.ne_passed (assigned : Assigned mintId root losers idByRoot (minted + 1) grouped)
    (issued : Issued mintId idByRoot minted) (distinct : Function.Injective mintId)
    (member : entry ∈ grouped) :
    mintId minted ≠ entry.conflictId := by
  intro same
  cases assigned.cases member with
  | inl stored =>
      obtain ⟨found, _, known⟩ := stored
      obtain ⟨n, before, number⟩ := issued.number found _ known
      have : minted = n := distinct (same.trans number)
      omega
  | inr fresh =>
      obtain ⟨_, n, after, number⟩ := fresh
      have : minted = n := distinct (same.trans number)
      omega

theorem assignIds_spec (distinct : Function.Injective mintId) (root : String → Option String)
    (losers : List (Loser State Slot))
    (rooted : ∀ loser ∈ losers, ∀ first, loser.subjects.head? = some first →
      ∃ found, root first = some found)
    (issued : Issued mintId idByRoot minted) :
    ∃ grouped, assignIds mintId root losers idByRoot minted = some grouped ∧
      Assigned mintId root losers idByRoot minted grouped := by
  induction losers generalizing idByRoot minted with
  | nil =>
      refine ⟨[], rfl, rfl, ?_, ?_, .nil⟩
      all_goals simp
  | cons loser losers induction =>
      have further : ∀ {idByRoot minted}, Issued mintId idByRoot minted → _ :=
        fun issued => induction (fun other member => rooted other (.tail _ member)) issued
      cases subjects : loser.subjects with
      | nil =>
          obtain ⟨grouped, assigned, rest⟩ := further issued.skip
          have unrooted : rootAt root loser = none := by simp [rootAt, subjects]
          refine ⟨⟨loser, mintId minted⟩ :: grouped, by simp [assignIds, subjects, assigned],
            by simp [rest.inOrder], ?_, ?_, ?_⟩
          · intro entry member found conflictId isRoot stored
            cases member with
            | head => simp [unrooted] at isRoot
            | tail _ member => exact rest.kept entry member found conflictId isRoot stored
          · intro entry member absent
            cases member with
            | head => exact ⟨minted, Nat.le_refl _, rfl⟩
            | tail _ member =>
                obtain ⟨n, after, same⟩ := rest.fresh entry member absent
                exact ⟨n, by omega, same⟩
          · refine List.pairwise_cons.mpr ⟨fun entry member => ?_, rest.classes⟩
            simp [unrooted, rest.ne_passed issued distinct member]
      | cons first others =>
          obtain ⟨found, foundAt⟩ := rooted loser (.head _) first (by simp [subjects])
          have isRoot : rootAt root loser = some found := by simp [rootAt, subjects, foundAt]
          cases known : idByRoot.lookup found with
          | some conflictId =>
              obtain ⟨grouped, assigned, rest⟩ := further issued
              refine ⟨⟨loser, conflictId⟩ :: grouped,
                by simp [assignIds, subjects, foundAt, known, assigned],
                by simp [rest.inOrder], ?_, ?_, ?_⟩
              · intro entry member other given otherRoot stored
                cases member with
                | head =>
                    rw [isRoot] at otherRoot
                    cases otherRoot
                    rw [known] at stored
                    exact Option.some.inj stored
                | tail _ member => exact rest.kept entry member other given otherRoot stored
              · intro entry member absent
                cases member with
                | head => simp [absent found isRoot] at known
                | tail _ member => exact rest.fresh entry member absent
              · refine List.pairwise_cons.mpr ⟨fun entry member => ?_, rest.classes⟩
                simp [isRoot, rest.eq_known_iff issued distinct known member]
          | none =>
              have next := issued.mint distinct found
              have stored : (setEntry found (mintId minted) idByRoot).lookup found =
                  some (mintId minted) := lookup_setEntry_self ..
              obtain ⟨grouped, assigned, rest⟩ := further next
              refine ⟨⟨loser, mintId minted⟩ :: grouped,
                by simp [assignIds, subjects, foundAt, known, assigned],
                by simp [rest.inOrder], ?_, ?_, ?_⟩
              · intro entry member other given otherRoot otherStored
                cases member with
                | head =>
                    rw [isRoot] at otherRoot
                    cases otherRoot
                    simp [known] at otherStored
                | tail _ member =>
                    have different : other ≠ found := by
                      rintro rfl
                      simp [known] at otherStored
                    refine rest.kept entry member other given otherRoot ?_
                    rw [lookup_setEntry_of_ne different, otherStored]
              · intro entry member absent
                cases member with
                | head => exact ⟨minted, Nat.le_refl _, rfl⟩
                | tail _ member =>
                    by_cases here : rootAt root entry.loser = some found
                    · exact ⟨minted, Nat.le_refl _, rest.kept entry member found _ here stored⟩
                    · obtain ⟨n, after, same⟩ := rest.fresh entry member fun other otherRoot => by
                        have different : other ≠ found := by
                          rintro rfl
                          exact here otherRoot
                        rw [lookup_setEntry_of_ne different, absent other otherRoot]
                      exact ⟨n, by omega, same⟩
              · refine List.pairwise_cons.mpr ⟨fun entry member => ?_, rest.classes⟩
                simp [isRoot, rest.eq_known_iff next distinct stored member]

/-! ## Components -/

theorem sameRoot_iff {depth : Nat} (represents : UnionFind.Represents parent depth (Joins losers))
    (stored : ∀ loser ∈ losers, ∀ first, loser.subjects.head? = some first →
      (parent.lookup first).isSome)
    {i j : Nat} (apart : i ≠ j) {other : Loser State Slot} (oneAt : losers[i]? = some one)
    (otherAt : losers[j]? = some other) :
    (∃ found, rootAt (UnionFind.find parent depth) one = some found ∧
      rootAt (UnionFind.find parent depth) other = some found) ↔ Connected losers i j := by
  constructor
  · rintro ⟨found, oneRoot, otherRoot⟩
    obtain ⟨left, isLeft, leftFound⟩ := Option.bind_eq_some_iff.mp oneRoot
    obtain ⟨right, isRight, rightFound⟩ := Option.bind_eq_some_iff.mp otherRoot
    have joined := (represents.same left right).mp (by
      rw [UnionFind.rootOf_of_find leftFound, UnionFind.rootOf_of_find rightFound])
    exact (connected_of_joined joined).2 i j one other oneAt otherAt (List.mem_of_head? isLeft)
      (List.mem_of_head? isRight)
  · intro connected
    cases oneSubjects : one.subjects with
    | nil => exact absurd (eq_of_connected_bare connected oneAt oneSubjects) apart
    | cons left lefts =>
        cases otherSubjects : other.subjects with
        | nil => exact absurd (eq_of_connected_bare connected.symm otherAt otherSubjects).symm apart
        | cons right rights =>
            have isLeft : one.subjects.head? = some left := by simp [oneSubjects]
            have isRight : other.subjects.head? = some right := by simp [otherSubjects]
            obtain ⟨leftRoot, leftFound⟩ := represents.found left
              (stored one (List.mem_of_getElem? oneAt) left isLeft)
            obtain ⟨rightRoot, rightFound⟩ := represents.found right
              (stored other (List.mem_of_getElem? otherAt) right isRight)
            have same := (represents.same left right).mpr (joined_of_connected connected oneAt
              otherAt (List.mem_of_head? isLeft) (List.mem_of_head? isRight))
            rw [UnionFind.rootOf_of_find leftFound, UnionFind.rootOf_of_find rightFound] at same
            exact ⟨leftRoot, by simp [rootAt, isLeft, leftFound],
              by simp [rootAt, isRight, rightFound, same]⟩

theorem joinSubjects_represents (losers : List (Loser State Slot)) :
    ∃ parent, losers.foldlM (joinSubjects (joinBound losers)) [] = some parent ∧
      UnionFind.Represents parent (joinBound losers) (Joins losers) ∧
      ∀ loser ∈ losers, ∀ first, loser.subjects.head? = some first →
        (parent.lookup first).isSome := by
  obtain ⟨parent, folds, _, stored, joined⟩ := joinSubjects_foldlM (joinBound losers)
    losers UnionFind.represents_nil Nat.one_pos (by simp only [joinBound]; omega)
  refine ⟨parent, folds, ⟨joined.found, fun left right => ?_⟩, stored⟩
  exact (joined.same left right).trans (eqvGen_congr (by simp) left right)

theorem assignIds_inOrder (mintId : Nat → String) (root : String → Option String)
    (losers : List (Loser State Slot))
    (rooted : ∀ loser ∈ losers, ∀ first, loser.subjects.head? = some first →
      ∃ found, root first = some found) (idByRoot : List (String × String)) (minted : Nat) :
    ∃ grouped, assignIds mintId root losers idByRoot minted = some grouped ∧
      grouped.map (·.loser) = losers := by
  induction losers generalizing idByRoot minted with
  | nil => exact ⟨[], rfl, rfl⟩
  | cons loser rest induction =>
      have later := induction fun other member => rooted other (.tail _ member)
      rw [assignIds]
      cases subjects : loser.subjects with
      | nil =>
          obtain ⟨grouped, assigns, order⟩ := later idByRoot (minted + 1)
          exact ⟨_, by rw [assigns]; rfl, by simp [order]⟩
      | cons first others =>
          obtain ⟨found, isRoot⟩ := rooted loser (.head _) first (by simp [subjects])
          simp only [isRoot]
          cases known : idByRoot.lookup found with
          | some conflictId =>
              obtain ⟨grouped, assigns, order⟩ := later idByRoot minted
              exact ⟨_, by rw [assigns]; rfl, by simp [order]⟩
          | none =>
              obtain ⟨grouped, assigns, order⟩ :=
                later (setEntry found (mintId minted) idByRoot) (minted + 1)
              exact ⟨_, by rw [assigns]; rfl, by simp [order]⟩

theorem groupLosers_inOrder (losers : List (Loser State Slot)) (mintId : Nat → String) :
    ∃ grouped, groupLosers losers mintId = some grouped ∧ grouped.map (·.loser) = losers := by
  obtain ⟨parent, folds, represents, stored⟩ := joinSubjects_represents losers
  rw [groupLosers, folds]
  exact assignIds_inOrder mintId _ losers
    (fun loser member first isFirst => represents.found first (stored loser member first isFirst))
    [] 0

/-- Two losers have one conflict id exactly when they are connected. -/
theorem conflictIds_eq_iff_connected (losers : List (Loser State Slot)) (mintId : Nat → String)
    (distinct : Function.Injective mintId) :
    ∃ grouped, groupLosers losers mintId = some grouped ∧ grouped.map (·.loser) = losers ∧
      ∀ (i j : Nat) one other, grouped[i]? = some one → grouped[j]? = some other →
        (one.conflictId = other.conflictId ↔ Connected losers i j) := by
  obtain ⟨parent, folds, represents, stored⟩ := joinSubjects_represents losers
  obtain ⟨grouped, assigns, assigned⟩ := assignIds_spec distinct
    (UnionFind.find parent (joinBound losers)) losers
    (fun loser member first isFirst => represents.found first (stored loser member first isFirst))
    (issued_nil mintId)
  refine ⟨grouped, by simp [groupLosers, folds, assigns], assigned.inOrder, ?_⟩
  have loserAt : ∀ (i : Nat) (entry : GroupedLoser State Slot), grouped[i]? = some entry →
      losers[i]? = some entry.loser := by
    intro i entry entryAt
    simp [← assigned.inOrder, entryAt]
  have ordered : ∀ (i j : Nat) one other, i < j → grouped[i]? = some one → grouped[j]? = some other →
      (one.conflictId = other.conflictId ↔ Connected losers i j) := by
    intro i j one other before oneAt otherAt
    obtain ⟨oneInside, rfl⟩ := List.getElem?_eq_some_iff.mp oneAt
    obtain ⟨otherInside, rfl⟩ := List.getElem?_eq_some_iff.mp otherAt
    rw [List.pairwise_iff_getElem.mp assigned.classes i j oneInside otherInside before]
    exact sameRoot_iff represents stored (by omega) (loserAt i _ oneAt) (loserAt j _ otherAt)
  intro i j one other oneAt otherAt
  obtain before | rfl | after := Nat.lt_trichotomy i j
  · exact ordered i j one other before oneAt otherAt
  · rw [oneAt] at otherAt
    cases otherAt
    simp only [true_iff]
    exact .refl
  · rw [eq_comm, ordered j i other one after otherAt oneAt]
    exact ⟨Connected.symm, Connected.symm⟩

/-- A loser of two subjects joins the losers of each, wherever it stands in the list. -/
def bridged : List (Loser Unit Unit) :=
  [⟨"left", ["one"], [], []⟩, ⟨"right", ["other"], [], []⟩, ⟨"alone", [], [], []⟩,
    ⟨"bridge", ["other", "one"], [], []⟩]

def mintUnary (n : Nat) : String := String.ofList (List.replicate n 'c')

theorem mintUnary_injective : Function.Injective mintUnary := by
  intro one other same
  have lengths := congrArg (·.toList.length) same
  simpa [mintUnary] using lengths

example : (groupLosers bridged mintUnary).map (·.map (·.conflictId)) =
    some ["", "", "c", ""] := by decide +kernel

theorem conflictIds_eq_iff_connected_bridged :
    Function.Injective mintUnary ∧
      ∃ grouped, groupLosers bridged mintUnary = some grouped ∧ grouped.map (·.loser) = bridged ∧
        ∀ (i j : Nat) one other, grouped[i]? = some one → grouped[j]? = some other →
          (one.conflictId = other.conflictId ↔ Connected bridged i j) :=
  ⟨mintUnary_injective, conflictIds_eq_iff_connected bridged mintUnary mintUnary_injective⟩

end Ebb.Sync
