import Ebb.Foundation.OrderedMap
import Ebb.Foundation.Term
import Ebb.Server.GroupActions
import Mathlib.Data.Rat.Defs

namespace Ebb.Sync

open Ebb.Server (LogAction)

/-! The frames of one released range. A frame is encoded once for each Action and list of
Updates and shared by the groups that receive the same, under the ids of the Updates. -/

namespace Frames

/-! ## The server's `==` -/

def floatValue (bits : UInt64) : Rat :=
  let fraction := bits.toNat % 2 ^ 52
  let exponent := bits.toNat / 2 ^ 52 % 2 ^ 11
  let scaled : Nat := if exponent = 0 then 2 * fraction else (2 ^ 52 + fraction) * 2 ^ exponent
  let magnitude : Rat := scaled / 2 ^ 1075
  if bits.toNat / 2 ^ 63 = 1 then -magnitude else magnitude

mutual
/-- `left == right`, which takes an integer and a float of one value for equal. -/
def equals : Term → Term → Bool
  | .null, .null => true
  | .bool left, .bool right => left == right
  | .integer left, .integer right => left == right
  | .float left, .float right => floatValue left == floatValue right
  | .integer left, .float right => (left : Rat) == floatValue right
  | .float left, .integer right => floatValue left == (right : Rat)
  | .string left, .string right => left == right
  | .list left, .list right => equalItems left right
  | .map left, .map right => equalEntries left right
  | _, _ => false

def equalItems : List Term → List Term → Bool
  | [], [] => true
  | left :: lefts, right :: rights => equals left right && equalItems lefts rights
  | _, _ => false

def equalEntries : List (String × Term) → List (String × Term) → Bool
  | [], [] => true
  | (leftKey, left) :: lefts, (rightKey, right) :: rights =>
      leftKey == rightKey && equals left right && equalEntries lefts rights
  | _, _ => false
end

mutual
theorem equals_refl : (term : Term) → equals term term = true
  | .null => by simp [equals]
  | .bool _ => by simp [equals]
  | .integer _ => by simp [equals]
  | .float _ => by simp [equals]
  | .string _ => by simp [equals]
  | .list items => by rw [equals, equalItems_refl items]
  | .map entries => by rw [equals, equalEntries_refl entries]

theorem equalItems_refl : (items : List Term) → equalItems items items = true
  | [] => by rw [equalItems]
  | head :: rest => by rw [equalItems, equals_refl head, equalItems_refl rest, Bool.and_self]

theorem equalEntries_refl : (entries : List (String × Term)) → equalEntries entries entries = true
  | [] => by rw [equalEntries]
  | (key, value) :: rest => by
      rw [equalEntries, equals_refl value, equalEntries_refl rest, beq_self_eq_true, Bool.and_self,
        Bool.and_self]
end

/-! ## Building -/

abbrev UpdateMap := List (String × Term)

def sameUpdates : List UpdateMap → List UpdateMap → Bool
  | [], [] => true
  | left :: lefts, right :: rights => equalEntries left right && sameUpdates lefts rights
  | _, _ => false

/-- `Enum.map(updates, & &1["id"])` -/
def updateIds (updates : List UpdateMap) : List Term :=
  updates.map fun update => (update.lookup "id").getD .null

structure ActionMemo where
  actionId : String
  first : List UpdateMap
  firstFrame : Option String
  /-- The frames of other lists of Updates, by their ids. -/
  partials : OrderedMap (List Term) String

section Build

-- `Jason.encode!`
variable (encode : Term → String)

def encodeAction (action : LogAction UpdateMap) : String :=
  encode (.map [("actor_id", .string action.actorId), ("gsn", .integer action.gsn),
    ("hlc", .integer action.hlc), ("id", .string action.id),
    ("updates", .list (action.updates.map .map))])

def dataFrame (action : LogAction UpdateMap) : String :=
  "event: " ++ "data" ++ "\n" ++ "data: " ++ encodeAction encode action ++ "\n\n"

def partialFrame (action : LogAction UpdateMap) (memo : ActionMemo) : String × ActionMemo :=
  let key := updateIds action.updates
  match memo.partials.get? key with
  | some frame => (frame, memo)
  | none =>
      let frame := dataFrame encode action
      (frame, { memo with partials := memo.partials.set key frame })

def frameFor (action : LogAction UpdateMap) (memo : Option ActionMemo) : String × ActionMemo :=
  let fresh : ActionMemo :=
    { actionId := action.id, first := action.updates, firstFrame := none, partials := .empty }
  let actionMemo :=
    match memo with
    | some current => if current.actionId = action.id then current else fresh
    | none => fresh
  match actionMemo.firstFrame, sameUpdates action.updates actionMemo.first with
  | some frame, true => (frame, actionMemo)
  | none, true =>
      let frame := dataFrame encode action
      (frame, { actionMemo with firstFrame := some frame })
  | _, false => partialFrame encode action actionMemo

/-- `Map.update(frames, group_id, [frame], &[frame | &1])` -/
def addFrame (frames : OrderedMap String (List String)) (groupId frame : String) :
    OrderedMap String (List String) :=
  frames.set groupId (frame :: (frames.get? groupId).getD [])

def addMembership (state : OrderedMap String (List String) × Option ActionMemo)
    (membership : String × LogAction UpdateMap) :
    OrderedMap String (List String) × Option ActionMemo :=
  let (frame, memo) := frameFor encode membership.2 state.2
  (addFrame state.1 membership.1 frame, some memo)

def build (memberships : List (String × LogAction UpdateMap)) (groupId : String) : List String :=
  let reversed := (memberships.foldl (addMembership encode) (.empty, none)).1
  ((reversed.get? groupId).getD []).reverse

end Build

/-! ## Runs of one Action -/

/-- The memberships since the Action last changed, with another one added. -/
def extendRun (run : List (LogAction UpdateMap)) (action : LogAction UpdateMap) :
    List (LogAction UpdateMap) :=
  match run with
  | [] => [action]
  | head :: rest => if head.id = action.id then head :: (rest ++ [action]) else [action]

def currentRun (actions : List (LogAction UpdateMap)) : List (LogAction UpdateMap) :=
  actions.foldl extendRun []

/-- Two memberships of a run share a frame: both carry the first one's Updates, or neither
does and their Updates carry the same ids. -/
def SharesFrame (head left right : LogAction UpdateMap) : Prop :=
  sameUpdates left.updates head.updates = sameUpdates right.updates head.updates ∧
    (sameUpdates left.updates head.updates = false →
      updateIds left.updates = updateIds right.updates)

instance (head left right : LogAction UpdateMap) : Decidable (SharesFrame head left right) := by
  unfold SharesFrame
  infer_instance

/-- The memberships of a run that share a frame encode alike. -/
def EncodesAlike (encode : Term → String) (run : List (LogAction UpdateMap)) : Prop :=
  ∀ head ∈ run.head?, ∀ left ∈ run, ∀ right ∈ run, SharesFrame head left right →
    dataFrame encode left = dataFrame encode right

section Build

variable {encode : Term → String}

theorem sameUpdates_refl (updates : List UpdateMap) : sameUpdates updates updates = true := by
  induction updates with
  | nil => rw [sameUpdates]
  | cons head rest induction => rw [sameUpdates, equalEntries_refl, induction, Bool.and_self]

def representative (run : List (LogAction UpdateMap)) (action : LogAction UpdateMap) :
    LogAction UpdateMap :=
  match run with
  | [] => action
  | head :: rest => ((head :: rest).find? fun earlier => SharesFrame head earlier action).getD action

/-- The memo holds the frames of a run. -/
def Remembers (encode : Term → String) (memo : Option ActionMemo)
    (run : List (LogAction UpdateMap)) : Prop :=
  match run with
  | [] => memo = none
  | head :: rest => ∃ partials : OrderedMap (List Term) String,
      memo = some { actionId := head.id, first := head.updates
                    firstFrame := some (dataFrame encode head), partials } ∧
        ∀ key, partials.get? key = ((head :: rest).find? fun earlier =>
          !sameUpdates earlier.updates head.updates && updateIds earlier.updates = key).map
            (dataFrame encode)

theorem sharesFrame_self (head action : LogAction UpdateMap) : SharesFrame head action action :=
  ⟨rfl, fun _ => rfl⟩

variable {head : LogAction UpdateMap} {run : List (LogAction UpdateMap)}

theorem find?_sharesFrame {action : LogAction UpdateMap}
    (other : sameUpdates action.updates head.updates = false) (run : List (LogAction UpdateMap)) :
    run.find? (fun earlier => SharesFrame head earlier action) =
      run.find? fun earlier => !sameUpdates earlier.updates head.updates &&
        updateIds earlier.updates = updateIds action.updates := by
  congr 1
  funext earlier
  cases same : sameUpdates earlier.updates head.updates <;> simp [SharesFrame, same, other]

theorem find?_extended {α : Type} (wanted : α → Bool) (head last : α) (rest : List α) :
    (head :: (rest ++ [last])).find? wanted =
      ((head :: rest).find? wanted).or (if wanted last then some last else none) := by
  rw [← List.cons_append, List.find?_append, List.find?_singleton]

theorem remembers_fresh (action : LogAction UpdateMap) :
    Remembers encode (some { actionId := action.id, first := action.updates
                             firstFrame := some (dataFrame encode action), partials := .empty })
      [action] := by
  refine ⟨.empty, rfl, fun key => ?_⟩
  simp [sameUpdates_refl]

theorem remembers_frameFor {memo : Option ActionMemo} (remembers : Remembers encode memo run)
    (action : LogAction UpdateMap) :
    Remembers encode (some (frameFor encode action memo).2) (extendRun run action) ∧
      (frameFor encode action memo).1 =
        dataFrame encode (representative (extendRun run action) action) := by
  have alone : representative [action] action = action := by
    simp [representative, sharesFrame_self]
  cases run with
  | nil =>
      rw [show memo = none from remembers, extendRun, alone]
      simp only [frameFor, sameUpdates_refl, and_true]
      exact remembers_fresh action
  | cons head rest =>
      obtain ⟨partials, rfl, stored⟩ := remembers
      by_cases same : head.id = action.id
      · rw [extendRun, if_pos same]
        simp only [frameFor, if_pos same]
        cases whole : sameUpdates action.updates head.updates with
        | true =>
            have leads : SharesFrame head head action := by
              constructor
              · rw [sameUpdates_refl, whole]
              · intro other
                rw [sameUpdates_refl] at other
                cases other
            refine ⟨⟨partials, rfl, fun key => ?_⟩, by simp [representative, leads]⟩
            rw [stored, find?_extended]
            simp [whole]
        | false =>
            simp only [partialFrame, stored, representative]
            rw [find?_sharesFrame whole, find?_extended]
            cases earlier : (head :: rest).find? fun earlier =>
                !sameUpdates earlier.updates head.updates &&
                  updateIds earlier.updates = updateIds action.updates with
            | some held =>
                refine ⟨⟨partials, rfl, fun key => ?_⟩, rfl⟩
                rw [stored, find?_extended]
                by_cases slot : updateIds action.updates = key
                · rw [← slot, earlier]
                  rfl
                · simp [slot]
            | none =>
                refine ⟨⟨_, rfl, fun key => ?_⟩, by simp [whole]⟩
                rw [OrderedMap.get?_set, stored, find?_extended]
                by_cases slot : key = updateIds action.updates
                · rw [if_pos slot, slot, earlier]
                  simp [whole]
                · rw [if_neg slot]
                  simp [Ne.symm slot]
      · rw [extendRun, if_neg same, alone]
        simp only [frameFor, if_neg same, sameUpdates_refl, and_true]
        exact remembers_fresh action

/-! ## What each group is given -/

def given (encode : Term → String) (run : List (LogAction UpdateMap)) :
    List (String × LogAction UpdateMap) → List (String × String)
  | [] => []
  | (groupId, action) :: rest =>
      (groupId, dataFrame encode (representative (extendRun run action) action)) ::
        given encode (extendRun run action) rest

/-- What stands under one group, in order. -/
def ofGroup {α : Type} (groupId : String) (entries : List (String × α)) : List α :=
  (entries.filter fun entry => entry.1 = groupId).map Prod.snd

theorem get?_foldl_addMembership {memo : Option ActionMemo} (remembers : Remembers encode memo run)
    (memberships : List (String × LogAction UpdateMap)) (frames : OrderedMap String (List String))
    (groupId : String) :
    ((memberships.foldl (addMembership encode) (frames, memo)).1.get? groupId).getD [] =
      (ofGroup groupId (given encode run memberships)).reverse ++
        (frames.get? groupId).getD [] := by
  induction memberships generalizing memo run frames with
  | nil => simp [given, ofGroup]
  | cons membership rest induction =>
      obtain ⟨next, frame⟩ := remembers_frameFor remembers membership.2
      rw [List.foldl_cons, addMembership, induction next, given, addFrame, OrderedMap.get?_set,
        frame]
      by_cases own : membership.1 = groupId
      · simp [ofGroup, own]
      · simp [ofGroup, own, Ne.symm own]

theorem build_eq_given (memberships : List (String × LogAction UpdateMap)) (groupId : String) :
    build encode memberships groupId = ofGroup groupId (given encode [] memberships) := by
  have empty : Remembers encode none [] := rfl
  rw [build, get?_foldl_addMembership empty, OrderedMap.get?_empty]
  simp

theorem SharesFrame.symm {left right : LogAction UpdateMap} (shares : SharesFrame head left right)
    : SharesFrame head right left :=
  ⟨shares.1.symm, fun other => (shares.2 (shares.1.trans other)).symm⟩

theorem SharesFrame.trans {left middle right : LogAction UpdateMap}
    (first : SharesFrame head left middle) (second : SharesFrame head middle right) :
    SharesFrame head left right :=
  ⟨first.1.trans second.1, fun other => (first.2 other).trans (second.2 (first.1 ▸ other))⟩

theorem encodesAlike_extendRun_iff (alike : EncodesAlike encode run) (action : LogAction UpdateMap)
    :
    EncodesAlike encode (extendRun run action) ↔
      dataFrame encode (representative (extendRun run action) action) =
        dataFrame encode action := by
  have alone : EncodesAlike encode [action] := by
    intro head _ left inLeft right inRight _
    rw [List.mem_singleton.mp inLeft, List.mem_singleton.mp inRight]
  cases run with
  | nil => simp [extendRun, alone, representative, sharesFrame_self]
  | cons head rest =>
      rw [extendRun]
      split
      · have stands : representative (head :: (rest ++ [action])) action =
            ((head :: rest).find? fun earlier => SharesFrame head earlier action).getD action := by
          rw [representative, find?_extended, if_pos (decide_eq_true (sharesFrame_self head action))]
          cases (head :: rest).find? fun earlier => SharesFrame head earlier action <;> rfl
        rw [stands]
        constructor
        · intro all
          cases earlier : (head :: rest).find? fun earlier => SharesFrame head earlier action with
          | none => rfl
          | some held =>
              have shares : SharesFrame head held action := by
                simpa using List.find?_some earlier
              apply all head rfl held _ action (by simp) shares
              exact List.mem_append_left [action] (List.mem_of_find?_eq_some earlier)
        · intro own
          have latest : ∀ left ∈ head :: rest, SharesFrame head left action →
              dataFrame encode left = dataFrame encode action := by
            intro left inLeft shares
            cases earlier : (head :: rest).find? fun earlier => SharesFrame head earlier action with
            | none =>
                exact absurd (decide_eq_true shares)
                  (List.find?_eq_none.mp earlier left inLeft)
            | some held =>
                have others : SharesFrame head held action := by
                  simpa using List.find?_some earlier
                rw [earlier] at own
                exact (alike head rfl left inLeft held (List.mem_of_find?_eq_some earlier)
                  (shares.trans others.symm)).trans own
          intro first isFirst left inLeft right inRight shares
          cases isFirst
          rw [← List.cons_append, List.mem_append, List.mem_singleton] at inLeft inRight
          rcases inLeft with inLeft | rfl
          · rcases inRight with inRight | rfl
            · exact alike head rfl left inLeft right inRight shares
            · exact latest left inLeft shares
          · rcases inRight with inRight | rfl
            · exact (latest right inRight shares.symm).symm
            · rfl
      · simp [alone, representative, sharesFrame_self]

theorem given_eq_iff (alike : EncodesAlike encode run)
    (memberships : List (String × LogAction UpdateMap)) :
    (given encode run memberships =
        memberships.map fun membership => (membership.1, dataFrame encode membership.2)) ↔
      ∀ before, before <+: memberships.map Prod.snd →
        EncodesAlike encode (before.foldl extendRun run) := by
  induction memberships generalizing run with
  | nil => simp [given, alike]
  | cons membership rest induction =>
      have step := encodesAlike_extendRun_iff alike membership.2
      rw [given, List.map_cons, List.cons.injEq, Prod.mk.injEq, and_iff_right rfl, ← step]
      constructor
      · rintro ⟨next, others⟩ before starts
        rcases List.prefix_cons_iff.mp starts with rfl | ⟨more, rfl, inRest⟩
        · exact alike
        · exact (induction next).mp others more inRest
      · intro every
        have next := every [membership.2] (by simp)
        exact ⟨next, (induction next).mpr fun before starts =>
          every (membership.2 :: before) (by simpa using starts)⟩

theorem keys_given (run : List (LogAction UpdateMap))
    (memberships : List (String × LogAction UpdateMap)) :
    (given encode run memberships).map Prod.fst = memberships.map Prod.fst := by
  induction memberships generalizing run with
  | nil => rfl
  | cons membership rest induction => rw [given, List.map_cons, induction, List.map_cons]

theorem eq_of_ofGroup {α : Type} {left right : List (String × α)}
    (keys : left.map Prod.fst = right.map Prod.fst)
    (groups : ∀ groupId, ofGroup groupId left = ofGroup groupId right) : left = right := by
  induction left generalizing right with
  | nil => exact (List.map_eq_nil_iff.mp keys.symm).symm
  | cons head rest induction =>
      cases right with
      | nil => cases keys
      | cons other others =>
          rw [List.map_cons, List.map_cons, List.cons.injEq] at keys
          have own := groups head.1
          rw [ofGroup, ofGroup, List.filter_cons_of_pos (by simp),
            List.filter_cons_of_pos (by simp [keys.1]), List.map_cons, List.map_cons,
            List.cons.injEq] at own
          rw [Prod.ext keys.1 own.1]
          congr 1
          apply induction keys.2
          intro groupId
          have here := groups groupId
          by_cases same : head.1 = groupId
          · rw [← same]
            exact own.2
          · simpa [ofGroup, same, keys.1 ▸ same] using here

/-- The frames of every group are those of its memberships, each encoded for itself, exactly
where memberships that share a frame encode alike. -/
theorem build_eq_plain_iff (encode : Term → String)
    (memberships : List (String × LogAction UpdateMap)) :
    (∀ groupId, build encode memberships groupId =
        (ofGroup groupId memberships).map (dataFrame encode)) ↔
      ∀ before, before <+: memberships.map Prod.snd → EncodesAlike encode (currentRun before) := by
  have empty : EncodesAlike encode [] := by
    intro head isFirst
    cases isFirst
  have plain (groupId : String) : (ofGroup groupId memberships).map (dataFrame encode) =
      ofGroup groupId
        (memberships.map fun membership => (membership.1, dataFrame encode membership.2)) := by
    simp [ofGroup, List.filter_map, Function.comp_def]
  simp only [build_eq_given, plain, currentRun]
  rw [← given_eq_iff empty]
  constructor
  · intro every
    exact eq_of_ofGroup (by simp [keys_given, Function.comp_def]) every
  · intro equal groupId
    rw [equal]

end Build

/-! ## Two Updates of one id -/

mutual
/-- JSON of terms whose strings need no escapes. -/
def jsonText : Term → String
  | .null => "null"
  | .bool value => toString value
  | .integer value => toString value
  | .float bits => toString (floatValue bits)
  | .string value => "\"" ++ value ++ "\""
  | .list items => "[" ++ jsonItems items ++ "]"
  | .map entries => "\x7b" ++ jsonEntries entries ++ "\x7d"

def jsonItems : List Term → String
  | [] => ""
  | item :: rest => jsonText item ++ (if rest.isEmpty then "" else ",") ++ jsonItems rest

def jsonEntries : List (String × Term) → String
  | [] => ""
  | (key, value) :: rest =>
      "\"" ++ key ++ "\":" ++ jsonText value ++ (if rest.isEmpty then "" else ",") ++ jsonEntries rest
end

def fieldUpdate (field : String) : UpdateMap := [("field", .string field), ("id", .string "upd_1")]

def scopedAction (updates : List UpdateMap) : LogAction UpdateMap where
  gsn := 7
  id := "act_1"
  actorId := "a_1"
  hlc := 7000
  updates := updates
  updateScopes := none

/-- The third group is sent the Update of the second. -/
theorem not_build_plain : ¬ ∀ memberships groupId, build jsonText memberships groupId =
    (ofGroup groupId memberships).map (dataFrame jsonText) := by
  intro plain
  have third := plain [("g_a", scopedAction [fieldUpdate "a", fieldUpdate "b"]),
    ("g_b", scopedAction [fieldUpdate "a"]), ("g_c", scopedAction [fieldUpdate "b"])] "g_c"
  exact absurd third (by decide +kernel)

end Frames

end Ebb.Sync
