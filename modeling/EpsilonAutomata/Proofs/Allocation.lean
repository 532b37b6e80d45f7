import Mathlib.Data.List.Perm.Subperm
import EpsilonAutomata.Proofs.InPlace

/-!
States that a draft chooses itself.

The search for an unused state begins at the index that is the number of states, and goes on from the
lowest index when it has passed the last one. A set of states leaves one index unused among any that
are more than its members (`StateSet.exists_unused`). So the search succeeds unless all states are in
use, and it ends before the last index as long as twice the number of states does not exceed it.
-/

namespace EpsilonAutomata

namespace StateSet

variable {used : StateSet} {least : Nat} {state : StateId}

/-- Some index of any range that is longer than the set does not belong to a member. -/
theorem exists_unused (used : StateSet) (least : Nat) (room : least + used.size < 4294967296) :
    ∃ state, state ∉ used ∧ least ≤ state.index ∧ state.index ≤ least + used.size := by
  apply Classical.byContradiction
  intro noneUnused
  have covered : List.range' least (used.size + 1) ⊆ used.toList.map StateId.index := by
    intro index inRange
    rw [List.mem_range'_1] at inRange
    let state : StateId := ⟨index, by omega⟩
    have member : state ∈ used := Classical.byContradiction fun unused =>
      noneUnused ⟨state, unused, inRange.1, Nat.le_of_lt_succ inRange.2⟩
    exact List.mem_map.mpr ⟨state, Std.ExtTreeSet.mem_toList.mpr member, rfl⟩
  have lengths := (List.subperm_of_subset List.nodup_range' covered).length_le
  rw [List.length_range', List.length_map, Std.ExtTreeSet.length_toList] at lengths
  omega

/-- The smallest state from an index on that does not belong to the set. -/
structure IsFirstUnused (used : StateSet) (least : Nat) (state : StateId) : Prop where
  unused : state ∉ used
  least_le : least ≤ state.index
  le_unused : ∀ other, other ∉ used → least ≤ other.index → state ≤ other

theorem IsFirstUnused.unique {other : StateId} (first : used.IsFirstUnused least state)
    (second : used.IsFirstUnused least other) : state = other :=
  StateId.eq_of_index_eq <| Nat.le_antisymm
    (first.le_unused other second.unused second.least_le)
    (second.le_unused state first.unused first.least_le)

/-- Where the search begins matters only for the unused states. -/
theorem IsFirstUnused.congr {otherLeast : Nat} (first : used.IsFirstUnused least state)
    (same : ∀ other, other ∉ used → (least ≤ other.index ↔ otherLeast ≤ other.index)) :
    used.IsFirstUnused otherLeast state where
  unused := first.unused
  least_le := (same state first.unused).mp first.least_le
  le_unused other unused atLeast := first.le_unused other unused ((same other unused).mpr atLeast)

end StateSet

namespace Draft

variable {draft : Draft} {used : StateSet} {count start : Nat} {state : StateId}

/-! ## The search -/

theorem findUnused?_eq_some_iff :
    findUnused? used count start = some state ↔
      used.IsFirstUnused start state ∧ state.index < start + count := by
  induction count generalizing start with
  | zero =>
      simp only [findUnused?, reduceCtorEq, false_iff, not_and]
      intro first below
      exact Nat.not_lt.mpr first.least_le below
  | succ count induction =>
      rw [findUnused?]
      cases found : StateId.ofIndex? start with
      | none =>
          simp only [reduceCtorEq, false_iff, not_and]
          intro first
          have outOfRange := StateId.ofIndex?_eq_none_iff.mp found
          exact absurd state.index_lt (Nat.not_lt.mpr (Nat.le_trans outOfRange first.least_le))
      | some candidate =>
          have index := StateId.ofIndex?_eq_some_iff.mp found
          by_cases taken : candidate ∈ used
          · -- The candidate is passed over, so it makes no difference that it is not considered.
            have above (other : StateId) (unused : other ∉ used) :
                start + 1 ≤ other.index ↔ start ≤ other.index := by
              have different : candidate.index ≠ other.index := fun equal =>
                unused (StateId.eq_of_index_eq equal ▸ taken)
              omega
            have passed : used.IsFirstUnused (start + 1) state ↔ used.IsFirstUnused start state :=
              ⟨fun first => first.congr above,
                fun first => first.congr fun other unused => (above other unused).symm⟩
            simp only [Std.ExtTreeSet.contains_iff_mem.mpr taken, if_true, induction, passed]
            rw [Nat.add_right_comm, Nat.add_assoc]
          · have first : used.IsFirstUnused start candidate :=
              ⟨taken, Nat.le_of_eq index.symm, fun _ _ atLeast =>
                Nat.le_trans (Nat.le_of_eq index) atLeast⟩
            simp only [Std.ExtTreeSet.contains_iff_mem, taken, if_false, Option.some.injEq]
            constructor
            · rintro rfl
              exact ⟨first, by omega⟩
            · exact fun other => first.unique other.1

/-- While some index is unused, the search starts at the number of states. -/
theorem nextState?_eq_some_iff (notAll : draft.states.size < 4294967296) :
    draft.nextState? = some state ↔
      draft.states.IsFirstUnused draft.states.size state ∨
        (∀ other : StateId, draft.states.size ≤ other.index → other ∈ draft.states) ∧
          draft.states.IsFirstUnused 0 state := by
  have start : min draft.states.size StateId.last.index = draft.states.size :=
    Nat.min_eq_left (Nat.le_of_lt_succ notAll)
  have toTheLast : draft.states.size + (4294967296 - draft.states.size) = 4294967296 := by omega
  rw [nextState?, Option.orElse_eq_orElse, Option.orElse_eq_or, Option.or_eq_some_iff, start,
    findUnused?_eq_some_iff, findUnused?_eq_some_iff, findUnused?_eq_none_iff, toTheLast]
  simp only [StateId.index_lt, and_true, forall_const, Nat.zero_add]
  apply or_congr_right
  apply and_congr_right
  intro upperUsed
  apply and_iff_left_of_imp
  intro first
  exact Nat.lt_of_not_le fun atLeast => first.unused (upperUsed state atLeast)

theorem size_ensureState (unused : state ∉ draft.states) :
    (draft.ensureState state).states.size = draft.states.size + 1 := by
  rw [ensureState, Std.ExtTreeSet.size_insert, if_neg (mt Std.ExtTreeSet.contains_iff_mem.mp unused)]

theorem exists_nextState?_iff :
    (∃ state, draft.nextState? = some state) ↔ draft.states.size < 4294967296 := by
  rw [← Option.ne_none_iff_exists', ne_eq, nextState?_eq_none_iff]
  constructor
  · intro notAll
    rcases Classical.not_forall.mp notAll with ⟨state, unused⟩
    rw [← Nat.succ_le_iff, Nat.succ_eq_add_one, ← size_ensureState unused]
    exact StateSet.size_le _
  · intro notAll all
    rcases StateSet.exists_unused draft.states 0 (by omega) with ⟨state, unused, _⟩
    exact unused (all state)

theorem not_mem_of_nextState? (found : draft.nextState? = some state) : state ∉ draft.states := by
  rcases (nextState?_eq_some_iff (exists_nextState?_iff.mp ⟨state, found⟩)).mp found with
    first | ⟨_, first⟩
  · exact first.unused
  · exact first.unused

/-- Among twice as many indices and one there is room for the states and a new one. -/
theorem index_nextState?_le (few : draft.states.size < 2147483648)
    (found : draft.nextState? = some state) :
    draft.states.size ≤ state.index ∧ state.index ≤ 2 * draft.states.size := by
  rcases StateSet.exists_unused draft.states draft.states.size (by omega) with
    ⟨other, unused, atLeast, atMost⟩
  rcases (nextState?_eq_some_iff (by omega)).mp found with first | ⟨upperUsed, _⟩
  · have below : state.index ≤ other.index := first.le_unused other unused atLeast
    exact ⟨first.least_le, by omega⟩
  · exact absurd (upperUsed other atLeast) unused

/-! ## One new state after the other -/

/-- The draft with some new states. -/
structure Obtains (draft : Draft) (added : List StateId) (after : Draft) : Prop where
  distinct : added.Nodup
  unused : ∀ state ∈ added, state ∉ draft.states
  after_eq : after = added.foldl ensureState draft

theorem Obtains.cons {added : List StateId} {after : Draft} (unused : state ∉ draft.states)
    (obtains : (draft.ensureState state).Obtains added after) :
    draft.Obtains (state :: added) after := by
  have others : ∀ other ∈ added, state ≠ other ∧ other ∉ draft.states := fun other listed =>
    not_or.mp fun either => obtains.unused other listed (StateSet.mem_insert.mpr either)
  refine ⟨?_, ?_, obtains.after_eq⟩
  · exact List.nodup_cons.mpr ⟨fun listed => (others state listed).1 rfl, obtains.distinct⟩
  · intro other listed
    rcases List.mem_cons.mp listed with rfl | listed
    · exact unused
    · exact (others other listed).2

end Draft

namespace InPlace

variable {draft after : Draft} {state : StateId} {states : List StateId} {count : Nat}

theorem on_addNextState_eq_ok_iff :
    addNextState.on draft = (.ok state, after) ↔
      draft.nextState? = some state ∧ after = draft.ensureState state := by
  rw [on_addNextState, ← Draft.addNextState_eq_ok_iff]
  cases draft.addNextState with
  | error failure => simp
  | ok added => simp [Prod.ext_iff]

theorem on_addNextState_eq_error_iff {failure : ConstructionError} :
    addNextState.on draft = (.error failure, after) ↔
      (∀ state, state ∈ draft.states) ∧ failure = .noStateLeft ∧ after = draft := by
  rw [on_addNextState, ← and_assoc, ← Draft.addNextState_eq_error_iff]
  cases draft.addNextState with
  | error other => simp [eq_comm]
  | ok added => simp

def addNextStates : Nat → InPlace (List StateId)
  | 0 => return []
  | count + 1 => do
      let state ← addNextState
      let others ← addNextStates count
      return state :: others

theorem on_addNextStates_zero_eq_ok_iff :
    (addNextStates 0).on draft = (.ok states, after) ↔ states = [] ∧ after = draft := by
  change ((.ok [], draft) : Except ConstructionError (List StateId) × Draft) = _ ↔ _
  rw [Prod.mk.injEq, Except.ok.injEq, eq_comm, @eq_comm _ draft]

theorem on_addNextStates_succ_eq_ok_iff :
    (addNextStates (count + 1)).on draft = (.ok states, after) ↔
      ∃ state others, draft.nextState? = some state ∧ states = state :: others ∧
        (addNextStates count).on (draft.ensureState state) = (.ok others, after) := by
  have onPure (state : StateId) (others : List StateId) (current : Draft) :
      (pure (state :: others) : InPlace (List StateId)).on current = (.ok (state :: others), current) :=
    rfl
  change (addNextState >>= fun state => addNextStates count >>= fun others =>
    pure (state :: others)).on draft = _ ↔ _
  simp only [on_bind_eq_ok_iff, on_addNextState_eq_ok_iff, onPure, Prod.mk.injEq, Except.ok.injEq]
  constructor
  · rintro ⟨state, _, ⟨found, rfl⟩, others, _, rest, rfl, rfl⟩
    exact ⟨state, others, found, rfl, rest⟩
  · rintro ⟨state, others, found, rfl, rest⟩
    exact ⟨state, _, ⟨found, rfl⟩, others, after, rest, rfl, rfl⟩

theorem obtains_of_addNextStates (succeeds : (addNextStates count).on draft = (.ok states, after)) :
    states.length = count ∧ draft.Obtains states after := by
  induction count generalizing draft states with
  | zero =>
      rcases on_addNextStates_zero_eq_ok_iff.mp succeeds with ⟨rfl, rfl⟩
      exact ⟨rfl, List.nodup_nil, fun _ listed => absurd listed List.not_mem_nil, rfl⟩
  | succ count induction =>
      rcases on_addNextStates_succ_eq_ok_iff.mp succeeds with ⟨state, others, found, rfl, rest⟩
      rcases induction rest with ⟨length, obtains⟩
      exact ⟨congrArg Nat.succ length, obtains.cons (Draft.not_mem_of_nextState? found)⟩

theorem addNextStates_succeeds_iff :
    (∃ states after, (addNextStates count).on draft = (.ok states, after)) ↔
      draft.states.size + count ≤ 4294967296 := by
  induction count generalizing draft with
  | zero =>
      have room := StateSet.size_le draft.states
      exact iff_of_true ⟨[], draft, on_addNextStates_zero_eq_ok_iff.mpr ⟨rfl, rfl⟩⟩ room
  | succ count induction =>
      simp only [on_addNextStates_succ_eq_ok_iff]
      constructor
      · rintro ⟨_, after, state, others, found, -, rest⟩
        have room := induction.mp ⟨others, after, rest⟩
        rw [Draft.size_ensureState (Draft.not_mem_of_nextState? found)] at room
        omega
      · intro room
        rcases Draft.exists_nextState?_iff.mpr (by omega : draft.states.size < 4294967296) with
          ⟨state, found⟩
        have size := Draft.size_ensureState (Draft.not_mem_of_nextState? found)
        rcases induction.mpr (by omega : (draft.ensureState state).states.size + count ≤ 4294967296)
          with ⟨others, after, rest⟩
        exact ⟨_, after, state, others, found, rfl, rest⟩

/-- A draft chooses a new state as long as there is one: the smallest unused one whose index is not
below the number of states, or the smallest unused one of all if all of those are in use. Below half
of all indices it is one of the first kind, and its index is at most twice the number of states.
Nothing else changes, and where no state is left nothing changes at all. So states chosen one after
the other are different, and there are as many as are left. -/
theorem allocation_exact (draft : Draft) :
    (draft.states.size < 4294967296 → ∃ state,
      addNextState.on draft = (.ok state, { draft with states := draft.states.insert state }) ∧
      state ∉ draft.states ∧
      (draft.states.IsFirstUnused draft.states.size state ∨
        (∀ other : StateId, draft.states.size ≤ other.index → other ∈ draft.states) ∧
          draft.states.IsFirstUnused 0 state) ∧
      (draft.states.size < 2147483648 →
        draft.states.size ≤ state.index ∧ state.index ≤ 2 * draft.states.size)) ∧
    (∀ failure after, addNextState.on draft = (.error failure, after) ↔
      (∀ state, state ∈ draft.states) ∧ failure = .noStateLeft ∧ after = draft) ∧
    ∀ count,
      ((∃ states after, (addNextStates count).on draft = (.ok states, after)) ↔
        draft.states.size + count ≤ 4294967296) ∧
      ∀ states after, (addNextStates count).on draft = (.ok states, after) →
        states.length = count ∧ draft.Obtains states after := by
  refine ⟨?_, fun failure after => on_addNextState_eq_error_iff, fun count => ?_⟩
  · intro notAll
    rcases Draft.exists_nextState?_iff.mpr notAll with ⟨state, found⟩
    exact ⟨state, on_addNextState_eq_ok_iff.mpr ⟨found, rfl⟩, Draft.not_mem_of_nextState? found,
      (Draft.nextState?_eq_some_iff notAll).mp found,
      fun few => Draft.index_nextState?_le few found⟩
  · exact ⟨addNextStates_succeeds_iff, fun states after => obtains_of_addNextStates⟩

/-- A draft with states of the indices zero, three and four. -/
def crowded : Draft :=
  { Draft.blank with
    states := .ofList [.first, ⟨3, by decide⟩, ⟨4, by decide⟩] }

/-- Three is the number of states, but three and four are in use. -/
theorem allocation_exact_crowded :
    let five : StateId := ⟨5, by decide⟩
    let six : StateId := ⟨6, by decide⟩
    let after := (crowded.ensureState five).ensureState six
    crowded.states.size = 3 ∧
      (∃ state, addNextState.on crowded = (.ok state, crowded.ensureState state) ∧
        3 ≤ state.index ∧ state.index ≤ 6) ∧
      (addNextStates 2).on crowded = (.ok [five, six], after) ∧
      crowded.Obtains [five, six] after := by
  intro five six after
  have size : crowded.states.size = 3 := by decide +kernel
  have chooses : (addNextStates 2).on crowded = (.ok [five, six], after) :=
    on_addNextStates_succ_eq_ok_iff.mpr ⟨five, [six], by decide +kernel, rfl,
      on_addNextStates_succ_eq_ok_iff.mpr ⟨six, [], by decide +kernel, rfl, rfl⟩⟩
  rcases allocation_exact crowded with ⟨choosesOne, _, choosesMany⟩
  rcases choosesOne (by omega) with ⟨state, succeeds, _, _, bounds⟩
  rw [size] at bounds
  exact ⟨size, ⟨state, succeeds, bounds (by decide)⟩, chooses,
    ((choosesMany 2).2 [five, six] after chooses).2⟩

end InPlace

end EpsilonAutomata
