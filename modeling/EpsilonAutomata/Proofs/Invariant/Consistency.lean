import EpsilonAutomata.Automaton

/-!
Parts that fit together.

Automata, drafts and assemblies have states, an alphabet, accepting states and edges. These parts
are consistent if the accepting states and the ends of the edges are states and the literals on the
edges are in the alphabet. Every way in which this library changes the parts keeps them consistent,
and the lemmas here are those ways.
-/

namespace EpsilonAutomata

structure Consistent (states : StateSet) (alphabet : Alphabet) (accepting : StateSet)
    (transitions : Transitions) : Prop where
  accepting_subset : ∀ state ∈ accepting, state ∈ states
  source_mem : ∀ edge ∈ transitions, edge.source ∈ states
  target_mem : ∀ edge ∈ transitions, edge.target ∈ states
  literal_mem : ∀ edge ∈ transitions, ∀ character,
    edge.symbol = .literal character → character ∈ alphabet

theorem Automaton.wellFormed_iff_consistent {automaton : Automaton} :
    automaton.WellFormed ↔ automaton.initial ∈ automaton.states ∧
      Consistent automaton.states automaton.alphabet automaton.accepting automaton.transitions := by
  constructor
  · intro wellFormed
    exact ⟨wellFormed.initial_mem, wellFormed.accepting_subset, wellFormed.source_mem,
      wellFormed.target_mem, wellFormed.literal_mem⟩
  · intro parts
    rcases parts with ⟨initial, consistent⟩
    exact ⟨initial, consistent.accepting_subset, consistent.source_mem, consistent.target_mem,
      consistent.literal_mem⟩

namespace Consistent

variable {states largerStates : StateSet} {alphabet largerAlphabet : Alphabet}
  {accepting otherAccepting : StateSet} {transitions otherTransitions : Transitions}

theorem empty (states : StateSet) (alphabet : Alphabet) : Consistent states alphabet ∅ ∅ where
  accepting_subset _ member := absurd member Std.ExtTreeSet.not_mem_empty
  source_mem edge member := absurd member (Transitions.not_mem_empty edge)
  target_mem edge member := absurd member (Transitions.not_mem_empty edge)
  literal_mem edge member := absurd member (Transitions.not_mem_empty edge)

theorem mono (consistent : Consistent states alphabet accepting transitions)
    (moreStates : ∀ state ∈ states, state ∈ largerStates)
    (moreCharacters : ∀ character ∈ alphabet, character ∈ largerAlphabet) :
    Consistent largerStates largerAlphabet accepting transitions where
  accepting_subset state member := moreStates state (consistent.accepting_subset state member)
  source_mem edge member := moreStates edge.source (consistent.source_mem edge member)
  target_mem edge member := moreStates edge.target (consistent.target_mem edge member)
  literal_mem edge member character equal :=
    moreCharacters character (consistent.literal_mem edge member character equal)

theorem insertState (consistent : Consistent states alphabet accepting transitions)
    (state : StateId) : Consistent (states.insert state) alphabet accepting transitions :=
  consistent.mono (fun _ member => StateSet.mem_insert.mpr (.inr member)) (fun _ member => member)

/-- Accepting in other states instead. -/
theorem withAccepting (consistent : Consistent states alphabet accepting transitions)
    (subset : ∀ state ∈ otherAccepting, state ∈ states) :
    Consistent states alphabet otherAccepting transitions :=
  { consistent with accepting_subset := subset }

theorem insertAccepting (consistent : Consistent states alphabet accepting transitions)
    {state : StateId} (member : state ∈ states) :
    Consistent states alphabet (accepting.insert state) transitions := by
  apply consistent.withAccepting
  intro other otherMember
  rcases StateSet.mem_insert.mp otherMember with equal | accepts
  · exact equal ▸ member
  · exact consistent.accepting_subset other accepts

theorem add (consistent : Consistent states alphabet accepting transitions) {source : StateId}
    {symbol : Symbol} {targets : StateSet} (sourceMember : source ∈ states)
    (targetsSubset : ∀ target ∈ targets, target ∈ states)
    (literalMember : ∀ character, symbol = .literal character → character ∈ alphabet) :
    Consistent states alphabet accepting (transitions.add source symbol targets) where
  accepting_subset := consistent.accepting_subset
  source_mem edge member := by
    rcases Transitions.mem_add.mp member with old | ⟨equal, _, _⟩
    · exact consistent.source_mem edge old
    · exact equal ▸ sourceMember
  target_mem edge member := by
    rcases Transitions.mem_add.mp member with old | ⟨_, _, target⟩
    · exact consistent.target_mem edge old
    · exact targetsSubset edge.target target
  literal_mem edge member character equal := by
    rcases Transitions.mem_add.mp member with old | ⟨_, same, _⟩
    · exact consistent.literal_mem edge old character equal
    · exact literalMember character (same.trans equal)

theorem union (consistent : Consistent states alphabet accepting transitions)
    (other : Consistent states alphabet otherAccepting otherTransitions) :
    Consistent states alphabet (accepting ∪ otherAccepting)
      (StateRelation.union transitions otherTransitions) where
  accepting_subset state member :=
    (Std.ExtTreeSet.mem_union_iff.mp member).elim (consistent.accepting_subset state)
      (other.accepting_subset state)
  source_mem edge member :=
    (Transitions.mem_union.mp member).elim (consistent.source_mem edge) (other.source_mem edge)
  target_mem edge member :=
    (Transitions.mem_union.mp member).elim (consistent.target_mem edge) (other.target_mem edge)
  literal_mem edge member :=
    (Transitions.mem_union.mp member).elim (consistent.literal_mem edge) (other.literal_mem edge)

/-- The image of consistent parts, in any set that contains the images of the states. -/
theorem image (consistent : Consistent states alphabet accepting transitions)
    {transform : StateId → StateId} {images : StateSet}
    (inImages : ∀ state ∈ states, transform state ∈ images) :
    Consistent images alphabet (accepting.map transform) (transitions.relabel transform) where
  accepting_subset image member := by
    rcases StateSet.mem_map.mp member with ⟨state, accepts, rfl⟩
    exact inImages state (consistent.accepting_subset state accepts)
  source_mem image member := by
    rcases Transitions.mem_relabel.mp member with ⟨edge, edgeMember, rfl⟩
    exact inImages edge.source (consistent.source_mem edge edgeMember)
  target_mem image member := by
    rcases Transitions.mem_relabel.mp member with ⟨edge, edgeMember, rfl⟩
    exact inImages edge.target (consistent.target_mem edge edgeMember)
  literal_mem image member character equal := by
    rcases Transitions.mem_relabel.mp member with ⟨edge, edgeMember, rfl⟩
    exact consistent.literal_mem edge edgeMember character equal

/-- Only the states of a set that no edge leads out of, and the edges that start in it. -/
theorem restrict (consistent : Consistent states alphabet accepting transitions)
    {kept : StateSet}
    (closed : ∀ edge ∈ transitions, edge.source ∈ kept → edge.target ∈ kept) :
    Consistent kept alphabet (accepting ∩ kept) (transitions.restrictSources kept) where
  accepting_subset _ member := (Std.ExtTreeSet.mem_inter_iff.mp member).2
  source_mem _ member := (Transitions.mem_restrictSources.mp member).2
  target_mem edge member :=
    closed edge (Transitions.mem_restrictSources.mp member).1
      (Transitions.mem_restrictSources.mp member).2
  literal_mem edge member :=
    consistent.literal_mem edge (Transitions.mem_restrictSources.mp member).1

end Consistent

/-! ## Elementary automata -/

namespace Automaton

theorem wellFormed_epsilon : epsilon.WellFormed := by
  decide +kernel

theorem wellFormed_empty : empty.WellFormed := by
  decide +kernel

namespace WellFormed

variable {automaton : Automaton} {last : StateId}

theorem acceptOnly (wellFormed : automaton.WellFormed) (member : last ∈ automaton.states) :
    WellFormed { automaton with accepting := {last} } := by
  rcases wellFormed_iff_consistent.mp wellFormed with ⟨initial, consistent⟩
  refine wellFormed_iff_consistent.mpr ⟨initial, consistent.withAccepting ?_⟩
  intro state only
  exact StateSet.mem_singleton.mp only ▸ member

/-- A link of a chain adds a state, a character and an edge from a state that is there already. -/
theorem addLink (wellFormed : automaton.WellFormed) (member : last ∈ automaton.states)
    (character : Char) (fresh : StateId) :
    WellFormed
      { automaton with
        states := automaton.states.insert fresh
        alphabet := automaton.alphabet.insert character
        transitions := automaton.transitions.add last (.literal character) {fresh} } := by
  rcases wellFormed_iff_consistent.mp wellFormed with ⟨initial, consistent⟩
  have kept : ∀ state ∈ automaton.states, state ∈ automaton.states.insert fresh :=
    fun _ known => StateSet.mem_insert.mpr (.inr known)
  have grown := consistent.mono kept fun other known =>
    (Std.ExtTreeSet.mem_insert.mpr (.inr known) : other ∈ automaton.alphabet.insert character)
  have targetsSubset : ∀ target ∈ ({fresh} : StateSet), target ∈ automaton.states.insert fresh :=
    fun _ only => StateSet.mem_insert.mpr (.inl (StateSet.mem_singleton.mp only))
  have literalMember : ∀ other, Symbol.literal character = .literal other →
      other ∈ automaton.alphabet.insert character := by
    intro other equal
    cases equal
    exact Std.ExtTreeSet.mem_insert_self
  exact wellFormed_iff_consistent.mpr
    ⟨kept automaton.initial initial, grown.add (kept last member) targetsSubset literalMember⟩

theorem extendChain (wellFormed : automaton.WellFormed) (member : last ∈ automaton.states)
    (letters : Word) : (automaton.extendChain last letters).WellFormed := by
  induction letters generalizing automaton last with
  | nil => exact wellFormed.acceptOnly member
  | cons character rest induction =>
      rw [Automaton.extendChain]
      cases last.next? with
      | none => exact wellFormed.acceptOnly member
      | some fresh =>
          exact induction (wellFormed.addLink member character fresh)
            (StateSet.mem_insert.mpr (.inl rfl))

end WellFormed

theorem wellFormed_word (letters : Word) : (word letters).WellFormed :=
  wellFormed_empty.extendChain wellFormed_empty.initial_mem letters

end Automaton

end EpsilonAutomata
