import Horse.Container.LastWrite
import Horse.Net.Datapath

/-!
# Action sets

An action set is meant to hold the action that was written last for every kind of action,
and set-field actions separately for every field they set.  The hash table behind it is
keyed by the kind alone.  The module follows several action sets through calls that add to
them, merge them and clean them, together with what was written to each of them since it
was cleaned, and says when the sets hold what they are meant to hold.
-/

namespace Horse.Lib

open Horse.Container Horse.Transition

/-! ## Lookup -/

variable {sets after : Nat → ActionSet} {as : ActionSet} {written : Nat → List Action}

theorem actionSetAction_eq_some_iff {type : ActionSetOrder} {act : Action} :
    actionSetAction as type = some act ↔ act ∈ as.actions ∧ act.type = type := by
  constructor
  · intro found
    exact ⟨List.mem_of_find?_eq_some found, by simpa using List.find?_some found⟩
  · rintro ⟨member, rfl⟩
    exact find?_of_mem as.distinct member

theorem mem_actions_iff {act : Action} :
    act ∈ as.actions ↔ ∃ type, actionSetAction as type = some act := by
  simp [actionSetAction_eq_some_iff]

theorem lastWrite_actions (as : ActionSet) (type : ActionSetOrder) :
    lastWrite Action.type as.actions type = actionSetAction as type := by
  ext act
  rw [lastWrite_eq_some_iff as.distinct, actionSetAction_eq_some_iff]

theorem actionSetAction_actionSetAdd (as : ActionSet) (act : Action) (type : ActionSetOrder) :
    actionSetAction (actionSetAdd as act) type =
      (lastWrite Action.type [act] type).or (actionSetAction as type) := by
  rw [lastWrite_singleton]
  ext other
  rw [actionSetAction_eq_some_iff, actionSetAdd, List.mem_append, List.mem_filter,
    List.mem_singleton]
  by_cases isType : act.type = type
  · subst isType
    simp only [bne_iff_ne, ne_eq, if_true, Option.some_or, Option.some.injEq]
    constructor
    · rintro ⟨⟨-, apart⟩ | rfl, sameType⟩
      · exact absurd sameType apart
      · rfl
    · rintro rfl
      exact ⟨.inr rfl, rfl⟩
  · rw [if_neg isType, Option.none_or, actionSetAction_eq_some_iff]
    constructor
    · rintro ⟨⟨member, -⟩ | rfl, sameType⟩
      · exact ⟨member, sameType⟩
      · exact absurd sameType isType
    · rintro ⟨member, rfl⟩
      exact ⟨.inl ⟨member, by simpa using Ne.symm isType⟩, rfl⟩

/-- Adding actions one after another leaves the last of each kind. -/
theorem actionSetAction_foldl (acts : List Action) (as : ActionSet) (type : ActionSetOrder) :
    actionSetAction (acts.foldl actionSetAdd as) type =
      (lastWrite Action.type acts type).or (actionSetAction as type) := by
  induction acts generalizing as with
  | nil => rfl
  | cons act rest ih =>
    rw [List.foldl_cons, ih, actionSetAction_actionSetAdd, ← Option.or_assoc,
      ← lastWrite_append, List.singleton_append]

theorem actionSetAction_actionSetMerge (asOrig asMerge : ActionSet) (type : ActionSetOrder) :
    actionSetAction (actionSetMerge asOrig asMerge) type =
      (actionSetAction asMerge type).or (actionSetAction asOrig type) := by
  rw [actionSetMerge, actionSetAction_foldl, lastWrite_actions]

/-! ## Merging a set with itself -/

/-- The entry after one in the order of insertion. -/
def nextEntry (entries : List (Nat × Action)) (addr : Nat) : Option Nat :=
  (entries.dropWhile fun entry => entry.1 != addr).tail.head?.map Prod.fst

/-- The loop of `action_set_merge` over a set that is merged with itself.  The entries
have addresses, `act` and `tmp` are the variables of `HASH_ITER`, and every turn replaces
the entry it is at by a new one at the end. -/
def selfMergeLoop :
    Nat → List (Nat × Action) → Nat → Option Nat → Option Nat → Option (List (Nat × Action))
  | 0, _, _, _, _ => none
  | _ + 1, entries, _, none, _ => some entries
  | turns + 1, entries, fresh, some act, tmp =>
    (entries.find? fun entry => entry.1 == act).bind fun entry =>
      let entries :=
        entries.filter (fun orig => orig.2.type != entry.2.type) ++ [(fresh, entry.2)]
      selfMergeLoop turns entries (fresh + 1) tmp (tmp.bind (nextEntry entries))

/-- `action_set_merge` of a set with itself. -/
def selfMerge (turns : Nat) (as : ActionSet) : Option (List (Nat × Action)) :=
  let entries := as.actions.zipIdx.map Prod.swap
  let first := entries.head?.map Prod.fst
  selfMergeLoop turns entries entries.length first (first.bind (nextEntry entries))

theorem nextEntry_head (first second : Nat × Action) (rest : List (Nat × Action)) :
    nextEntry (first :: second :: rest) first.1 = some second.1 := by
  simp [nextEntry]

/-- From the first of two entries or more the loop does not end: the entry it is at moves
behind the others, and the next one is the first. -/
theorem selfMergeLoop_never_ends (turns fresh : Nat) {first second : Nat × Action}
    {rest : List (Nat × Action)}
    (distinct : ((first :: second :: rest).map fun entry => entry.2.type).Nodup) :
    selfMergeLoop turns (first :: second :: rest) fresh (some first.1) (some second.1) =
      none := by
  induction turns generalizing first second rest fresh with
  | zero => rfl
  | succ turns ih =>
    rw [List.map_cons, List.nodup_cons] at distinct
    have others : (second :: rest).filter (fun orig => orig.2.type != first.2.type) =
        second :: rest := by
      rw [List.filter_eq_self]
      intro entry member
      have apart : entry.2.type ≠ first.2.type := fun same =>
        distinct.1 (List.mem_map.mpr ⟨entry, member, same⟩)
      simpa using apart
    have moved : (first :: second :: rest).filter
        (fun orig => orig.2.type != first.2.type) ++ [(fresh, first.2)] =
          second :: (rest ++ [(fresh, first.2)]) := by
      rw [List.filter_cons_of_neg (by simp), others, List.cons_append]
    obtain ⟨third, more, isCons⟩ :=
      List.exists_cons_of_ne_nil (List.concat_ne_nil (fresh, first.2) rest)
    rw [selfMergeLoop, List.find?_cons_of_pos (by simp), Option.bind_some]
    dsimp only
    rw [moved, Option.bind_some, isCons, nextEntry_head]
    apply ih
    rw [← isCons, ← List.cons_append, List.map_append]
    refine List.Nodup.append distinct.2 (List.nodup_singleton _) ?_
    exact List.disjoint_singleton.mpr distinct.1

/-- Merging a set with itself ends for sets of at most one action. -/
theorem selfMerge_isSome_iff (as : ActionSet) :
    (∃ turns, (selfMerge turns as).isSome) ↔ as.actions.length ≤ 1 := by
  obtain ⟨actions, distinct⟩ := as
  match actions with
  | [] => exact iff_of_true ⟨1, rfl⟩ (by simp)
  | [act] => exact iff_of_true ⟨2, by simp [selfMerge, selfMergeLoop, nextEntry]⟩ (by simp)
  | first :: second :: rest =>
    refine iff_of_false ?_ (by simp)
    rintro ⟨turns, ends⟩
    have types : ((first :: second :: rest).zipIdx.map Prod.swap).map
        (fun entry => entry.2.type) = (first :: second :: rest).map Action.type := by
      rw [List.map_map]
      change (List.zipIdx _).map (Action.type ∘ Prod.fst) = _
      rw [← List.map_map, List.zipIdx_map_fst]
    have never : selfMergeLoop turns
        ((0, first) :: (1, second) :: (rest.zipIdx 2).map Prod.swap) (rest.length + 1 + 1)
        (some 0) (some 1) = none :=
      selfMergeLoop_never_ends turns _ (types ▸ distinct)
    simp [selfMerge, nextEntry] at ends
    rw [never] at ends
    cases ends

theorem actionSetMerge_self (few : as.actions.length ≤ 1) :
    actionSetMerge as as = as := by
  obtain ⟨actions, distinct⟩ := as
  match actions with
  | [] => rfl
  | [act] => simp [actionSetMerge, actionSetAdd]
  | _ :: _ :: _ => simp at few

/-! ## Calls on several sets -/

/-- The calls on action sets, which are numbered. -/
inductive SetCall
  | add (set : Nat) (act : Action)
  | merge (orig merge : Nat)
  | clean (set : Nat)

/-- One call on the action sets.  Merging a set of two actions or more with itself does
not end. -/
def setStep : Step (Nat → ActionSet) SetCall
  | sets, .add i act => some (Function.update sets i (actionSetAdd (sets i) act))
  | sets, .merge i j =>
    if i = j ∧ 1 < (sets i).actions.length then none
    else some (Function.update sets i (actionSetMerge (sets i) (sets j)))
  | sets, .clean i => some (Function.update sets i actionSetInit)

/-- The call ends. -/
def SetCall.Ends (sets : Nat → ActionSet) : SetCall → Prop
  | .merge i j => i = j → (sets i).actions.length ≤ 1
  | _ => True

theorem setStep_isSome_iff (sets : Nat → ActionSet) (call : SetCall) :
    (setStep sets call).isSome ↔ call.Ends sets := by
  cases call with
  | add i act => exact iff_of_true rfl trivial
  | clean i => exact iff_of_true rfl trivial
  | merge i j =>
    simp only [setStep, SetCall.Ends]
    split
    · rename_i endless
      exact iff_of_false (by simp) fun few => absurd (few endless.1) (by omega)
    · rename_i ends
      refine iff_of_true rfl fun same => ?_
      by_contra many
      exact ends ⟨same, by omega⟩

/-- The loop that merges a set with itself ends for sets of at most one action, and just
then the set is merged. -/
theorem setStep_self_isSome_iff (sets : Nat → ActionSet) (i : Nat) :
    ((∃ turns, (selfMerge turns (sets i)).isSome) ↔ (sets i).actions.length ≤ 1) ∧
      ((setStep sets (.merge i i)).isSome ↔ ∃ turns, (selfMerge turns (sets i)).isSome) := by
  refine ⟨selfMerge_isSome_iff _, ?_⟩
  rw [setStep_isSome_iff, selfMerge_isSome_iff]
  exact forall_prop_of_true rfl

/-- Merging leaves the set that is merged in unchanged. -/
theorem merge_keeps_merged {i j : Nat} (stepped : setStep sets (.merge i j) = some after) :
    after j = sets j := by
  have ends : SetCall.Ends sets (.merge i j) :=
    (setStep_isSome_iff sets _).mp (by rw [stepped]; rfl)
  rw [setStep] at stepped
  split at stepped
  · cases stepped
  · cases stepped
    by_cases same : j = i
    · subst same
      rw [Function.update_self, actionSetMerge_self (ends rfl)]
    · rw [Function.update_of_ne same]

/-! ## What was written -/

/-- The actions that a call writes to a set, since the set was cleaned.  A merge writes
all that was written to the set merged in. -/
def SetCall.write (written : Nat → List Action) : SetCall → Nat → List Action
  | .add i act => Function.update written i (written i ++ [act])
  | .merge i j => Function.update written i (written i ++ written j)
  | .clean i => Function.update written i []

/-- What was written to each set by calls, since it was cleaned. -/
def writtenBy (calls : List SetCall) : Nat → List Action :=
  calls.foldl SetCall.write fun _ => []

/-- The key under which an action is meant to be kept: its kind, and for a set-field
action the field. -/
def Action.setKey : Action → ActionSetOrder × Option SetFieldType
  | .setField set => (.setField, some set.field)
  | act => (act.type, none)

/-- The set holds the actions that were written last, one for each key. -/
def HoldsLastWrites (as : ActionSet) (written : List Action) : Prop :=
  ∀ act, act ∈ as.actions ↔ ∃ key, lastWrite Action.setKey written key = some act

/-- The set-field actions written set one field. -/
def OneField (written : List Action) : Prop :=
  ∀ set set' : SetField, .setField set ∈ written → .setField set' ∈ written →
    set.field = set'.field

/-- What the sets hold: the last action of each kind. -/
def HoldKinds (sets : Nat → ActionSet) (written : Nat → List Action) : Prop :=
  ∀ i type, actionSetAction (sets i) type = lastWrite Action.type (written i) type

theorem holdKinds_init : HoldKinds (fun _ => actionSetInit) fun _ => [] :=
  fun _ _ => rfl

theorem holdKinds_step {call : SetCall} (hold : HoldKinds sets written)
    (stepped : setStep sets call = some after) :
    HoldKinds after (call.write written) := by
  intro k type
  cases call with
  | add i act =>
    cases stepped
    by_cases same : k = i
    · subst same
      rw [SetCall.write, Function.update_self, Function.update_self,
        actionSetAction_actionSetAdd, hold, lastWrite_append]
    · rw [SetCall.write, Function.update_of_ne same, Function.update_of_ne same, hold]
  | merge i j =>
    rw [setStep] at stepped
    split at stepped
    · cases stepped
    · cases stepped
      by_cases same : k = i
      · subst same
        rw [SetCall.write, Function.update_self, Function.update_self,
          actionSetAction_actionSetMerge, hold, hold, lastWrite_append]
      · rw [SetCall.write, Function.update_of_ne same, Function.update_of_ne same, hold]
  | clean i =>
    cases stepped
    by_cases same : k = i
    · subst same
      rw [SetCall.write, Function.update_self, Function.update_self]
      rfl
    · rw [SetCall.write, Function.update_of_ne same, Function.update_of_ne same, hold]

theorem holdKinds_run {calls : List SetCall} (hold : HoldKinds sets written)
    (ran : run setStep sets calls = some after) :
    HoldKinds after (calls.foldl SetCall.write written) := by
  induction calls generalizing sets written with
  | nil =>
    cases ran
    exact hold
  | cons call rest ih =>
    obtain ⟨next, stepped, ran⟩ := (run_cons_eq_some_iff _ _ _ _ _).mp ran
    exact ih (holdKinds_step hold stepped) ran

theorem fst_comp_setKey : Prod.fst ∘ Action.setKey = Action.type := by
  funext act
  cases act <;> rfl

/-- The kind of an action decides its key as long as one field is set. -/
theorem oneField_iff (written : List Action) :
    (∀ a ∈ written, ∀ b ∈ written, a.setKey.1 = b.setKey.1 → a.setKey = b.setKey) ↔
      OneField written := by
  constructor
  · intro alone set set' isWritten isWritten'
    have sameKey := alone _ isWritten _ isWritten' rfl
    simpa [Action.setKey] using sameKey
  · intro oneField a aMem b bMem sameKind
    cases a <;> cases b <;> first | rfl | cases sameKind
    rename_i set set'
    simp [Action.setKey, oneField set set' aMem bMem]

/-- A set that holds the last action of each kind holds the last writes just if they set
one field. -/
theorem HoldKinds.holdsLastWrites_iff (hold : HoldKinds sets written) (i : Nat) :
    HoldsLastWrites (sets i) (written i) ↔ OneField (written i) := by
  rw [← oneField_iff, ← lastWrites_group_iff, fst_comp_setKey]
  refine forall_congr' fun act => iff_congr ?_ Iff.rfl
  rw [mem_actions_iff]
  exact exists_congr fun type => by rw [hold i type]

end Horse.Lib

namespace Horse.Net

open Horse.Lib Horse.Transition

/-! ## The order of execution -/

/-- The actions of a set are looked up in the order of their kinds. -/
theorem map_type_filterMap_sublist (as : ActionSet) (kinds : List ActionSetOrder) :
    ((kinds.filterMap (actionSetAction as)).map Action.type).Sublist kinds := by
  induction kinds with
  | nil => exact .slnil
  | cons kind rest ih =>
    cases found : actionSetAction as kind with
    | none =>
      rw [List.filterMap_cons_none found]
      exact ih.cons kind
    | some act =>
      rw [List.filterMap_cons_some found, List.map_cons,
        (actionSetAction_eq_some_iff.mp found).2]
      exact ih.cons_cons kind

theorem mem_actionSetOrder_all (kind : ActionSetOrder) : kind ∈ ActionSetOrder.all := by
  cases kind <;> decide

/-- Each action of a set is executed once. -/
theorem orderedActions_perm (as : ActionSet) : (orderedActions as).Perm as.actions := by
  have ordered : (orderedActions as).Nodup := by
    apply List.Nodup.of_map Action.type
    exact (show ActionSetOrder.all.Nodup by decide).sublist
      (map_type_filterMap_sublist as ActionSetOrder.all)
  refine (List.perm_ext_iff_of_nodup ordered (as.distinct.of_map _)).mpr fun act => ?_
  rw [orderedActions, List.mem_filterMap, mem_actions_iff]
  constructor
  · rintro ⟨kind, -, found⟩
    exact ⟨kind, found⟩
  · rintro ⟨kind, found⟩
    exact ⟨kind, mem_actionSetOrder_all kind, found⟩

/-- Action sets end up with the last action written for each kind, and for each field,
just if no set of two actions is merged with itself and no set is given set-field actions
for two fields.  A merge leaves the set that is merged in as it is, and a set is executed
action by action in the fixed order. -/
theorem action_sets_hold_iff (calls : List SetCall) :
    ((∃ sets, run setStep (fun _ => actionSetInit) calls = some sets ∧
        ∀ i, HoldsLastWrites (sets i) (writtenBy calls i)) ↔
      Along setStep SetCall.Ends (fun _ => actionSetInit) calls ∧
        ∀ i, OneField (writtenBy calls i)) ∧
    (∀ sets after i j, setStep sets (.merge i j) = some after → after j = sets j) ∧
    ∀ as nf, executeActionSet as nf = executeActionList (orderedActions as) nf ∧
      (orderedActions as).Perm as.actions ∧
      ((orderedActions as).map Action.type).Sublist ActionSetOrder.all := by
  refine ⟨?_, fun sets after i j => merge_keeps_merged, fun as nf => ?_⟩
  · have defined : (run setStep (fun _ => actionSetInit) calls).isSome ↔
        Along setStep SetCall.Ends (fun _ => actionSetInit) calls :=
      @run_isSome_iff _ _ setStep SetCall.Ends (fun _ => True) (fun _ => True)
        (fun _ _ _ => trivial) (fun _ _ => setStep_isSome_iff _ _) _ calls trivial
        fun _ _ => trivial
    rw [← defined]
    constructor
    · rintro ⟨sets, ran, holds⟩
      have kinds := holdKinds_run holdKinds_init ran
      exact ⟨by rw [ran]; rfl, fun i => (kinds.holdsLastWrites_iff i).mp (holds i)⟩
    · rintro ⟨isDefined, oneField⟩
      obtain ⟨sets, ran⟩ := Option.isSome_iff_exists.mp isDefined
      have kinds := holdKinds_run holdKinds_init ran
      exact ⟨sets, ran, fun i => (kinds.holdsLastWrites_iff i).mpr (oneField i)⟩
  · exact ⟨executeActionSet_eq as nf, orderedActions_perm as,
      map_type_filterMap_sublist as ActionSetOrder.all⟩

/-- Two set-field actions for two fields are added. -/
def twoFields : List SetCall :=
  [.add 0 (.setField ⟨.ipv4Src, 1⟩), .add 0 (.setField ⟨.ipv4Dst, 2⟩)]

/-- The set has lost the first of them. -/
theorem action_set_loses_field :
    ∃ sets, run setStep (fun _ => actionSetInit) twoFields = some sets ∧
      ¬HoldsLastWrites (sets 0) (writtenBy twoFields 0) := by
  refine ⟨_, rfl, fun holds => ?_⟩
  have lost := (holds (.setField ⟨.ipv4Src, 1⟩)).mpr ⟨(.setField, some .ipv4Src), by decide⟩
  revert lost
  decide

end Horse.Net
