import Ebb.Core.FieldPaths
import Ebb.Functions.WriteSurface

namespace Ebb.Functions

/-! The read-your-writes overlay of `packages/functions-runtime/src/overlay.ts`:
buffered Updates applied over the host's view of an id. -/

/-- An entity in the wire shape the host returns. The empty timestamp of a row
that no stamped write has touched is no timestamp. -/
structure EntityResponse (V : Type) where
  id : String
  type : String
  fields : Fields V
  /-- The names whose field is no value but the function a plain object inherits there. -/
  inherited : List String := []
  createdHlc : Option HLCTimestamp
  updatedHlc : Option HLCTimestamp
  deletedHlc : Option HLCTimestamp
  lastGsn : Nat

/-- What the overlay reads: this invocation's buffered Updates and the host's view. -/
structure OverlaySource (V : Type) where
  updatesFor : String → List (Update V)
  typeOf : String → Option String
  readHost : String → Option (EntityResponse V)

mutual

def visitLatest (latest : Option HLCTimestamp) : FieldValue V → Option HLCTimestamp
  | .map entries => visitEntries latest entries
  | .leaf leaf =>
      match leaf.hlc, latest with
      | none, _ => latest
      | some hlc, none => some hlc
      | some hlc, some best => if best < hlc then some hlc else some best

def visitEntries (latest : Option HLCTimestamp) : Fields V → Option HLCTimestamp
  | [] => latest
  | (_, value) :: rest => visitEntries (visitLatest latest value) rest

end

def latestHlc (fields : Fields V) : Option HLCTimestamp := visitEntries none fields

/-! ## The fold over the buffered Updates -/

structure Draft (V : Type) where
  fields : Option (Fields V)
  inherited : List String
  createdHlc : Option HLCTimestamp
  updatedHlc : Option HLCTimestamp

def Draft.stamp (draft : Draft V) : Option HLCTimestamp → Draft V
  | none => draft
  | some stamp =>
      { draft with
        updatedHlc :=
          match draft.updatedHlc with
          | none => some stamp
          | some updated => if updated < stamp then some stamp else some updated
        createdHlc := some (draft.createdHlc.getD stamp) }

/-- Whether a field of the merge is a value: the base holds one under the name, or the
incoming one takes the place of what a plain object inherits there. -/
def writesOnto (base : Fields V) (entry : String × FieldValue V) : Bool :=
  (base.lookup entry.1).isSome || entry.2.writesNew entry.1

/-- Merge each incoming field over what the base holds under its name. -/
def mergeOnto (base incoming : Fields V) : Fields V :=
  incoming.foldl
    (fun merged entry =>
      if writesOnto base entry then
        setEntry entry.1 (mergeFieldValue (base.lookup entry.1) entry.2) merged
      else merged) base

/-- The names under which a merge stores the inherited function itself, or leaves it. -/
def inheritedOnto (base incoming : Fields V) (inherited : List String) : List String :=
  inherited.filter (fun name => (incoming.lookup name).isNone) ++
    (incoming.filter fun entry => !writesOnto base entry).map Prod.fst

def Draft.apply (draft : Draft V) (update : Update V) : Draft V :=
  match update.method with
  | .delete => { draft with fields := none, inherited := [] }
  | .put =>
      { draft with fields := some (readFields update), inherited := [] }.stamp
        (latestHlc (readFields update))
  | .patch =>
      { draft with
        fields := some (mergeOnto (draft.fields.getD []) (readFields update))
        inherited := inheritedOnto (draft.fields.getD []) (readFields update) draft.inherited
        }.stamp (latestHlc (readFields update))

def readOverlay (source : OverlaySource V) (id : String) : Option (EntityResponse V) :=
  let writes := source.updatesFor id
  match writes.getLast? with
  | none => source.readHost id
  | some last =>
      let firstPut := writes.find? fun update => decide (update.method = .put)
      if firstPut.isNone && last.method = .delete then none
      else
        let host := if firstPut.isNone then source.readHost id else none
        if firstPut.isNone && host.isNone then none
        else
          let draft := writes.foldl Draft.apply
            { fields := some ((host.map EntityResponse.fields).getD [])
              inherited := (host.map EntityResponse.inherited).getD []
              createdHlc := host.bind EntityResponse.createdHlc
              updatedHlc := host.bind EntityResponse.updatedHlc }
          draft.fields.map fun fields =>
            { id
              type := (source.typeOf id).getD ((host.map EntityResponse.type).getD "")
              fields
              inherited := draft.inherited
              createdHlc := draft.createdHlc
              updatedHlc := draft.updatedHlc
              deletedHlc := none
              lastGsn := (host.map EntityResponse.lastGsn).getD 0 }

/-- The overlay of a write surface over the host's rows. -/
def WriteSurface.overlaySource (surface : WriteSurface V)
    (readHost : String → Option (EntityResponse V)) : OverlaySource V where
  updatesFor := surface.updatesFor
  typeOf := surface.typeOf
  readHost := readHost

theorem mergeOnto_eq_mergeEntries (base : Fields V) {incoming : Fields V}
    (keyed : (incoming.map Prod.fst).Nodup) :
    mergeOnto base incoming = mergeEntries base incoming := by
  -- What is still to be merged has not been written yet, so the running map
  -- reads as the base under its names.
  have general : ∀ (rest : Fields V), (rest.map Prod.fst).Nodup → ∀ merged : Fields V,
      (∀ entry ∈ rest, merged.lookup entry.1 = base.lookup entry.1) →
      rest.foldl (fun merged entry =>
        if writesOnto base entry then
          setEntry entry.1 (mergeFieldValue (base.lookup entry.1) entry.2) merged
        else merged) merged = mergeEntries merged rest := by
    intro rest
    induction rest with
    | nil =>
        intro _ merged _
        rw [mergeEntries]
        rfl
    | cons entry rest induction =>
        rcases entry with ⟨key, value⟩
        intro distinct merged unwritten
        rw [List.map_cons, List.nodup_cons] at distinct
        have later : ∀ other ∈ rest, merged.lookup other.1 = base.lookup other.1 :=
          fun other member => unwritten other (List.mem_cons_of_mem _ member)
        rw [List.foldl_cons, mergeEntries, unwritten (key, value) List.mem_cons_self, writesOnto]
        split
        · apply induction distinct.2
          intro other member
          have different : other.1 ≠ key := fun same =>
            distinct.1 (List.mem_map.mpr ⟨other, member, same⟩)
          rw [lookup_setEntry_of_ne different]
          exact later other member
        · exact induction distinct.2 merged later
  exact general incoming keyed base fun _ _ => rfl

/-! ## The fields of a draft -/

@[simp] theorem Draft.stamp_fields (draft : Draft V) (stamp : Option HLCTimestamp) :
    (draft.stamp stamp).fields = draft.fields := by
  cases stamp <;> rfl

@[simp] theorem Draft.stamp_inherited (draft : Draft V) (stamp : Option HLCTimestamp) :
    (draft.stamp stamp).inherited = draft.inherited := by
  cases stamp <;> rfl

/-- A patch as the planner builds it: each key once, every leaf stamped, and nothing under
`__proto__`. -/
structure StampedPatch (fields : Fields V) : Prop where
  keyed : (FieldValue.map fields).Keyed
  stamped : ∀ path node, (FieldValue.map fields).at path = some node → node.Stamped
  noProto : ∀ path, (FieldValue.map fields).at (path ++ ["__proto__"]) = none

theorem StampedPatch.names {fields : Fields V} (patch : StampedPatch fields) :
    NamesStamped fields := by
  intro path key node here _
  refine ⟨?_, patch.stamped (path ++ [key]) node here⟩
  rintro rfl
  rw [patch.noProto] at here
  cases here

theorem stampedPatch_single {name : String} (plain : name ≠ "__proto__") {content : FieldLeaf V}
    (later : 0 < content.time) : StampedPatch [(name, .leaf content)] where
  keyed := ⟨List.nodup_singleton _, trivial, trivial⟩
  stamped := by
    intro path node found
    rcases List.eq_nil_or_concat path with rfl | ⟨path, key, rfl⟩
    · cases found
      trivial
    · rw [List.concat_eq_append] at found
      rw [(node_of_at_single found).2]
      exact later
  noProto := by
    intro path
    rw [← Option.not_isSome_iff_eq_none, Option.isSome_iff_exists]
    rintro ⟨node, found⟩
    exact plain (node_of_at_single found).1.symm

theorem StampedPatch.writesOnto {fields : Fields V} (patch : StampedPatch fields)
    (base : Fields V) : ∀ entry ∈ fields, writesOnto base entry = true := by
  intro entry member
  exact (patch.names.ownsNames _).written ((lookup_eq_some_iff_mem patch.keyed.1 _ _).mpr member)

theorem Draft.inherited_apply {draft : Draft V} (values : draft.inherited = [])
    {update : Update V} (patch : update.method = .patch → StampedPatch (readFields update)) :
    (draft.apply update).inherited = [] := by
  rw [Draft.apply]
  split
  · rfl
  · rw [Draft.stamp_inherited]
  · next method =>
    rw [Draft.stamp_inherited, values, inheritedOnto, List.filter_nil, List.nil_append,
      List.map_eq_nil_iff, List.filter_eq_nil_iff]
    intro entry member
    rw [(patch method).writesOnto _ entry member]
    exact Bool.false_ne_true

theorem Draft.inherited_foldl {draft : Draft V} (values : draft.inherited = [])
    {writes : List (Update V)}
    (patches : ∀ update ∈ writes, update.method = .patch → StampedPatch (readFields update)) :
    (writes.foldl Draft.apply draft).inherited = [] := by
  induction writes generalizing draft with
  | nil => exact values
  | cons update rest induction =>
      exact induction (Draft.inherited_apply values (patches update List.mem_cons_self))
        fun other member => patches other (List.mem_cons_of_mem _ member)

theorem inherited_readOverlay {source : OverlaySource V} {id : String} {row : EntityResponse V}
    (patches : ∀ update ∈ source.updatesFor id, update.method = .patch →
      StampedPatch (readFields update))
    (host : ∀ held, source.readHost id = some held → held.inherited = [])
    (read : readOverlay source id = some row) : row.inherited = [] := by
  rw [readOverlay] at read
  split at read
  · exact host row read
  · dsimp only at read
    split at read
    · cases read
    · generalize shown : (if ((source.updatesFor id).find? fun update =>
          decide (update.method = .put)).isNone then source.readHost id else none) = held at read
      have values : (held.map EntityResponse.inherited).getD [] = [] := by
        cases held with
        | none => rfl
        | some response =>
            split at shown
            · exact host response shown
            · cases shown
      split at read
      · cases read
      · rcases Option.map_eq_some_iff.mp read with ⟨fields, _, rfl⟩
        exact Draft.inherited_foldl values patches

/-- The fields of a draft after one Update, which its timestamps do not bear on. -/
def applyFields (fields : Option (Fields V)) (update : Update V) : Option (Fields V) :=
  match update.method with
  | .delete => none
  | .put => some (readFields update)
  | .patch => some (mergeOnto (fields.getD []) (readFields update))

theorem Draft.apply_fields (draft : Draft V) (update : Update V) :
    (draft.apply update).fields = applyFields draft.fields update := by
  rw [Draft.apply, applyFields]
  split <;> simp

theorem Draft.foldl_fields (writes : List (Update V)) (draft : Draft V) :
    (writes.foldl Draft.apply draft).fields = writes.foldl applyFields draft.fields := by
  induction writes generalizing draft with
  | nil => rfl
  | cons update rest induction =>
      rw [List.foldl_cons, List.foldl_cons, induction, Draft.apply_fields]

theorem foldl_applyFields_of_put {writes : List (Update V)}
    (puts : ∃ update ∈ writes, update.method = .put) (left right : Option (Fields V)) :
    writes.foldl applyFields left = writes.foldl applyFields right := by
  induction writes generalizing left right with
  | nil =>
      rcases puts with ⟨_, member, _⟩
      cases member
  | cons update rest induction =>
      rw [List.foldl_cons, List.foldl_cons]
      by_cases method : update.method = .put
      · rw [applyFields, applyFields, method]
      · apply induction
        rcases puts with ⟨other, member, isPut⟩
        rcases List.mem_cons.mp member with rfl | member
        · exact absurd isPut method
        · exact ⟨other, member, isPut⟩

theorem foldl_applyFields_isSome_iff {writes : List (Update V)} {last : Update V}
    (ends : writes.getLast? = some last) (fields : Option (Fields V)) :
    (writes.foldl applyFields fields).isSome = true ↔ last.method ≠ .delete := by
  obtain ⟨rest, rfl⟩ := List.getLast?_eq_some_iff.mp ends
  rw [List.foldl_append]
  simp only [List.foldl_cons, List.foldl_nil, applyFields]
  split <;> simp_all

theorem readOverlay_view (source : OverlaySource V) (id : String) {last : Update V}
    (ends : (source.updatesFor id).getLast? = some last)
    (typed : source.typeOf id = some last.subjectType) :
    (readOverlay source id).map (fun row => (row.type, row.fields)) =
      if (∃ update ∈ source.updatesFor id, update.method = .put) ∨
          (source.readHost id).isSome = true then
        ((source.updatesFor id).foldl applyFields
          (some (((source.readHost id).map EntityResponse.fields).getD []))).map
          fun fields => (last.subjectType, fields)
      else none := by
  rw [readOverlay]
  simp only [ends, typed]
  have finds : ((source.updatesFor id).find? fun update =>
      decide (update.method = .put)).isNone = true ↔
      ¬ ∃ update ∈ source.updatesFor id, update.method = .put := by
    simp
  by_cases puts : ∃ update ∈ source.updatesFor id, update.method = .put
  · have found : ((source.updatesFor id).find? fun update =>
        decide (update.method = .put)).isNone = false := by
      rw [← Bool.not_eq_true, finds, not_not]
      exact puts
    simp only [found, Bool.false_and, Bool.false_eq_true, if_false, if_pos (Or.inl puts),
      Option.map_map, Draft.foldl_fields]
    rw [foldl_applyFields_of_put puts _ (some (((source.readHost id).map
      EntityResponse.fields).getD []))]
    rfl
  · have found := finds.mpr puts
    simp only [found, Bool.true_and, if_true, decide_eq_true_eq, Draft.foldl_fields]
    cases host : source.readHost id with
    | none => simp [puts]
    | some row =>
        simp only [Option.isSome_some, or_true, if_true]
        by_cases deleted : last.method = .delete
        · rw [if_pos deleted]
          have gone := mt (foldl_applyFields_isSome_iff ends
            (some (((some row).map EntityResponse.fields).getD []))).mp (not_not.mpr deleted)
          rw [Option.not_isSome_iff_eq_none.mp gone]
          rfl
        · rw [if_neg deleted]
          simp only [Option.isNone_some, Bool.false_eq_true, if_false, Option.map_map]
          rfl

end Ebb.Functions
