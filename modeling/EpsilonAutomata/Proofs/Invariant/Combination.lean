import EpsilonAutomata.Proofs.Combination.Layout
import EpsilonAutomata.Proofs.Invariant.Consistency
import EpsilonAutomata.Reachability

/-!
Combinations refer to their own states and characters only.

An assembly stays consistent when an automaton is embedded in it, also when the states run out and
several states of the automaton get the same copy: every state has a copy, and every copy is a
state of the assembly.
-/

namespace EpsilonAutomata

namespace Assembly

/-- The parts of the assembly are consistent. -/
def WellFormed (assembly : Assembly) : Prop :=
  Consistent assembly.states assembly.alphabet assembly.accepting assembly.transitions

variable {assembly : Assembly} {source : Automaton} {state target : StateId}
  {keepAccepting : Bool}

theorem wellFormed_startingAt (first : StateId) : (startingAt first).WellFormed :=
  .empty ∅ ∅

theorem next_mem_allocate : assembly.next ∈ assembly.allocate.2.states :=
  StateSet.mem_insert.mpr (.inl rfl)

theorem WellFormed.allocate (wellFormed : assembly.WellFormed) :
    assembly.allocate.2.WellFormed :=
  wellFormed.insertState assembly.next

theorem wellFormed_withHub : withHub.WellFormed :=
  (wellFormed_startingAt .first).allocate

/-! ## Copies -/

theorem mem_states_allocateCopies {members : List StateId} {copies : Numbering × Assembly}
    (member : state ∈ copies.2.states) :
    state ∈ (members.foldl allocateCopy copies).2.states := by
  induction members generalizing copies with
  | nil => exact member
  | cons head tail induction => exact induction (StateSet.mem_insert.mpr (.inr member))

/-- A state has its copy among the states once its turn has come, and keeps it. -/
theorem exists_copy_allocateCopies {members : List StateId} {copies : Numbering × Assembly}
    (known : state ∈ members ∨ ∃ image ∈ copies.2.states, copies.1[state]? = some image) :
    ∃ image ∈ (members.foldl allocateCopy copies).2.states,
      (members.foldl allocateCopy copies).1[state]? = some image := by
  induction members generalizing copies with
  | nil => exact known.resolve_left List.not_mem_nil
  | cons head tail induction =>
      apply induction
      by_cases turn : head = state
      · refine .inr ⟨copies.2.next, next_mem_allocate, ?_⟩
        simp [allocateCopy, turn]
      · rcases known with member | copied
        · exact .inl (List.mem_of_ne_of_mem (Ne.symm turn) member)
        · rcases copied with ⟨image, imageMember, numbered⟩
          refine .inr ⟨image, StateSet.mem_insert.mpr (.inr imageMember), ?_⟩
          rw [← numbered]
          simp [allocateCopy, Std.ExtTreeMap.getElem?_insert, turn]

theorem copy_mem_allocateEach (member : state ∈ source.states) :
    assembly.copy source state ∈ (assembly.allocateEach source.states.toList).2.states := by
  have listed : state ∈ source.states.toList := Std.ExtTreeSet.mem_toList.mpr member
  rcases @exists_copy_allocateCopies state source.states.toList (∅, assembly) (.inl listed) with
    ⟨image, imageMember, numbered⟩
  rw [copy, allocateEach, Numbering.copy, Std.ExtTreeMap.getD_eq_getD_getElem?, numbered]
  exact imageMember

/-! ## Embedding -/

theorem mem_embed_of_mem (member : state ∈ assembly.states) :
    state ∈ (assembly.embed source keepAccepting).2.states :=
  mem_states_allocateCopies member

theorem copy_mem_embed (member : state ∈ source.states) :
    assembly.copy source state ∈ (assembly.embed source keepAccepting).2.states :=
  copy_mem_allocateEach member

theorem initial_mem_embed (sourceWellFormed : source.WellFormed) :
    (assembly.embed source keepAccepting).1.initial ∈
      (assembly.embed source keepAccepting).2.states :=
  copy_mem_embed sourceWellFormed.initial_mem

theorem accepting_subset_embed (sourceWellFormed : source.WellFormed) :
    ∀ state ∈ (assembly.embed source keepAccepting).1.accepting,
      state ∈ (assembly.embed source keepAccepting).2.states := by
  intro image member
  rcases StateSet.mem_map.mp member with ⟨state, accepts, rfl⟩
  exact copy_mem_embed (sourceWellFormed.accepting_subset state accepts)

theorem WellFormed.embed (wellFormed : assembly.WellFormed) (sourceWellFormed : source.WellFormed)
    (keepAccepting : Bool) : (assembly.embed source keepAccepting).2.WellFormed := by
  rcases Automaton.wellFormed_iff_consistent.mp sourceWellFormed with ⟨_, sourceConsistent⟩
  have before : Consistent (assembly.allocateEach source.states.toList).2.states
      (assembly.alphabet ∪ source.alphabet) assembly.accepting assembly.transitions :=
    Consistent.mono wellFormed (fun _ member => mem_states_allocateCopies member)
      (fun _ member => Std.ExtTreeSet.mem_union_of_left member)
  have copied : Consistent (assembly.allocateEach source.states.toList).2.states
      (assembly.alphabet ∪ source.alphabet) (source.accepting.map (assembly.copy source))
      (source.transitions.relabel (assembly.copy source)) := by
    have grown := sourceConsistent.mono (fun _ member => member) fun character member =>
      (Std.ExtTreeSet.mem_union_of_right member : character ∈ assembly.alphabet ∪ source.alphabet)
    exact grown.image fun _ member => copy_mem_allocateEach member
  have both := before.union copied
  have rest := @allocateCopies_rest source.states.toList (∅, assembly)
  rcases rest with ⟨alphabet, accepting, transitions⟩
  change Consistent (assembly.allocateEach source.states.toList).2.states
    ((assembly.allocateEach source.states.toList).2.alphabet ∪ source.alphabet)
    (if keepAccepting then (assembly.allocateEach source.states.toList).2.accepting ∪
        source.accepting.map (assembly.copy source)
      else (assembly.allocateEach source.states.toList).2.accepting)
    (StateRelation.union (assembly.allocateEach source.states.toList).2.transitions
      (source.transitions.relabel (assembly.copy source)))
  rw [allocateEach, alphabet, accepting, transitions]
  cases keepAccepting with
  | true => exact both
  | false => exact both.withAccepting before.accepting_subset

/-! ## Joining blocks -/

theorem WellFormed.addEpsilon (wellFormed : assembly.WellFormed)
    (stateMember : state ∈ assembly.states) (targetMember : target ∈ assembly.states) :
    (assembly.addEpsilon state target).WellFormed := by
  have targetsSubset : ∀ other ∈ ({target} : StateSet), other ∈ assembly.states := by
    intro other otherMember
    exact StateSet.mem_singleton.mp otherMember ▸ targetMember
  exact Consistent.add wellFormed stateMember targetsSubset (fun _ impossible => by cases impossible)

/-- The states stay the same, so that each edge can be added as the first one was. -/
theorem WellFormed.foldl_addEpsilon (wellFormed : assembly.WellFormed) {starts : List StateId}
    (startsSubset : ∀ start ∈ starts, start ∈ assembly.states)
    (targetMember : target ∈ assembly.states) :
    (starts.foldl (fun assembly start => assembly.addEpsilon start target)
      assembly).WellFormed := by
  induction starts generalizing assembly with
  | nil => exact wellFormed
  | cons head tail induction =>
      rcases List.forall_mem_cons.mp startsSubset with ⟨headMember, tailSubset⟩
      exact induction (wellFormed.addEpsilon headMember targetMember) tailSubset targetMember

theorem WellFormed.addEpsilons (wellFormed : assembly.WellFormed) {starts : StateSet}
    (startsSubset : ∀ start ∈ starts, start ∈ assembly.states)
    (targetMember : target ∈ assembly.states) :
    (assembly.addEpsilons starts target).WellFormed := by
  rw [Assembly.addEpsilons, Std.ExtTreeSet.foldl_eq_foldl_toList]
  apply wellFormed.foldl_addEpsilon _ targetMember
  intro start listed
  exact startsSubset start (Std.ExtTreeSet.mem_toList.mp listed)

theorem WellFormed.setAccepting (wellFormed : assembly.WellFormed)
    (member : state ∈ assembly.states) : (assembly.setAccepting state).WellFormed :=
  wellFormed.insertAccepting member

theorem WellFormed.finish (wellFormed : assembly.WellFormed) (member : state ∈ assembly.states) :
    (assembly.finish state).WellFormed :=
  Automaton.wellFormed_iff_consistent.mpr ⟨member, wellFormed⟩

end Assembly

namespace Automaton

namespace WellFormed

variable {left right inner automaton : Automaton}

/-! ## Combinations -/

theorem union (leftWellFormed : left.WellFormed) (rightWellFormed : right.WellFormed) :
    (left.union right).WellFormed := by
  let behindLeft := (Assembly.withHub.embed left true).2
  let behindBoth := (behindLeft.embed right true).2
  have blocks : behindBoth.WellFormed :=
    (Assembly.wellFormed_withHub.embed leftWellFormed true).embed rightWellFormed true
  have hub : .first ∈ behindBoth.states :=
    Assembly.mem_embed_of_mem (Assembly.mem_embed_of_mem Assembly.next_mem_allocate)
  have toLeft : left.behindHub left.initial ∈ behindBoth.states :=
    Assembly.mem_embed_of_mem (Assembly.initial_mem_embed leftWellFormed)
  have toRight : left.unionRight right right.initial ∈ behindBoth.states :=
    Assembly.initial_mem_embed rightWellFormed
  exact ((blocks.addEpsilon hub toLeft).addEpsilon hub toRight).finish hub

theorem concat (leftWellFormed : left.WellFormed) (rightWellFormed : right.WellFormed) :
    (left.concat right).WellFormed := by
  let behindLeft := (Assembly.blank.embed left false).2
  let behindBoth := (behindLeft.embed right true).2
  have blocks : behindBoth.WellFormed :=
    ((Assembly.wellFormed_startingAt .first).embed leftWellFormed false).embed rightWellFormed true
  have initial : left.concatLeft left.initial ∈ behindBoth.states :=
    Assembly.mem_embed_of_mem (Assembly.initial_mem_embed leftWellFormed)
  have finals : ∀ state ∈ left.accepting.map left.concatLeft, state ∈ behindBoth.states :=
    fun state member =>
      Assembly.mem_embed_of_mem (Assembly.accepting_subset_embed leftWellFormed state member)
  have toRight : left.concatRight right right.initial ∈ behindBoth.states :=
    Assembly.initial_mem_embed rightWellFormed
  apply (blocks.addEpsilons finals toRight).finish
  rw [Assembly.states_addEpsilons]
  exact initial

theorem star (wellFormed : inner.WellFormed) : inner.star.WellFormed := by
  let body := (Assembly.withHub.embed inner true).2
  have block : body.WellFormed := Assembly.wellFormed_withHub.embed wellFormed true
  have hub : .first ∈ body.states := Assembly.mem_embed_of_mem Assembly.next_mem_allocate
  have initial : inner.behindHub inner.initial ∈ body.states :=
    Assembly.initial_mem_embed wellFormed
  have finals : ∀ state ∈ inner.accepting.map inner.behindHub, state ∈ body.states :=
    Assembly.accepting_subset_embed wellFormed
  have entered := (block.setAccepting hub).addEpsilon hub initial
  have again := entered.addEpsilons finals initial
  rw [star_eq]
  refine (again.addEpsilons ?finals ?hub).finish ?initial
  all_goals rw [Assembly.states_addEpsilons]
  case finals => exact finals
  case hub => exact hub
  case initial => rwa [Assembly.states_addEpsilons]

theorem optional (wellFormed : inner.WellFormed) : inner.optional.WellFormed :=
  wellFormed.union wellFormed_epsilon

theorem plus (wellFormed : inner.WellFormed) : inner.plus.WellFormed :=
  wellFormed.concat wellFormed.star

theorem foldl {operation : Automaton → Automaton → Automaton}
    (keeps : ∀ {left right : Automaton}, left.WellFormed → right.WellFormed →
      (operation left right).WellFormed)
    (wellFormed : automaton.WellFormed) {others : List Automaton}
    (allWellFormed : ∀ other ∈ others, other.WellFormed) :
    (others.foldl operation automaton).WellFormed := by
  induction others generalizing automaton with
  | nil => exact wellFormed
  | cons other others induction =>
      rcases List.forall_mem_cons.mp allWellFormed with ⟨otherWellFormed, restWellFormed⟩
      exact induction (keeps wellFormed otherWellFormed) restWellFormed

theorem unionAll {automata : List Automaton}
    (allWellFormed : ∀ automaton ∈ automata, automaton.WellFormed) :
    (unionAll automata).WellFormed := by
  cases automata with
  | nil => exact wellFormed_empty
  | cons first rest =>
      rcases List.forall_mem_cons.mp allWellFormed with ⟨firstWellFormed, restWellFormed⟩
      exact foldl union firstWellFormed restWellFormed

theorem concatAll {automata : List Automaton}
    (allWellFormed : ∀ automaton ∈ automata, automaton.WellFormed) :
    (concatAll automata).WellFormed := by
  cases automata with
  | nil => exact wellFormed_epsilon
  | cons first rest =>
      rcases List.forall_mem_cons.mp allWellFormed with ⟨firstWellFormed, restWellFormed⟩
      exact foldl concat firstWellFormed restWellFormed

/-! ## Other states, the same automaton -/

theorem renumbered (wellFormed : automaton.WellFormed) {start : StateId} {result : Automaton}
    (succeeds : automaton.renumbered start = some result) : result.WellFormed := by
  unfold Automaton.renumbered at succeeds
  split at succeeds
  · cases succeeds
    have block := (Assembly.wellFormed_startingAt start).embed wellFormed true
    exact block.finish (Assembly.initial_mem_embed wellFormed)
  · cases succeeds

theorem trimmed (wellFormed : automaton.WellFormed) : automaton.trimmed.WellFormed := by
  rcases wellFormed_iff_consistent.mp wellFormed with ⟨_, consistent⟩
  exact wellFormed_iff_consistent.mpr
    ⟨automaton.initial_mem_reachable, consistent.restrict fun _ => target_mem_reachable⟩

end WellFormed

end Automaton

end EpsilonAutomata
