import EpsilonAutomata.Proofs.Combination.Layout
import EpsilonAutomata.Proofs.Relabelling

/-!
What combined automata consist of, down to the indices of their states.

A blueprint lists the parts of an automaton by the indices of its states. Those of the combinations
are made from the arguments by counting alone: a state of an argument is copied to the start of its
block plus the number of states below it. A blueprint determines an automaton, and it stays the same
when the states of an argument are replaced by others in the same order. So the combinations do not
depend on which states their arguments have (`Automaton.SameInOrder.union_eq` and the like).
-/

namespace EpsilonAutomata

/-! ## Placed copies -/

namespace Automaton

/-- The index of the copy of a state in a block that starts at `offset`. -/
def placed (source : Automaton) (offset : Nat) (state : StateId) : Nat :=
  offset + source.states.rank state

/-- The state is the copy of an accepting state. -/
def PlacedAccepting (source : Automaton) (offset : Nat) (state : StateId) : Prop :=
  ∃ original ∈ source.accepting, state.index = source.placed offset original

/-- The edge is the copy of an edge. -/
def PlacedEdge (source : Automaton) (offset : Nat) (edge : Edge) : Prop :=
  ∃ original ∈ source.transitions, edge.symbol = original.symbol ∧
    edge.source.index = source.placed offset original.source ∧
    edge.target.index = source.placed offset original.target

/-- The image of each state is its copy. -/
def Places (source : Automaton) (offset : Nat) (image : StateId → StateId) : Prop :=
  ∀ state ∈ source.states, (image state).index = source.placed offset state

section

variable {source : Automaton} {offset : Nat} {image : StateId → StateId} {state target : StateId}
  {edge : Edge} (wellFormed : source.WellFormed) (places : source.Places offset image)

include wellFormed places

theorem exists_image_eq_iff_placedAccepting :
    (∃ original ∈ source.accepting, image original = state) ↔
      source.PlacedAccepting offset state := by
  constructor
  · intro found
    rcases found with ⟨original, accepts, rfl⟩
    exact ⟨original, accepts, places original (wellFormed.accepting_subset original accepts)⟩
  · intro found
    rcases found with ⟨original, accepts, index⟩
    have placed := places original (wellFormed.accepting_subset original accepts)
    exact ⟨original, accepts, StateId.eq_of_index_eq (placed.trans index.symm)⟩

theorem exists_relabel_eq_iff_placedEdge :
    (∃ original ∈ source.transitions, original.relabel image = edge) ↔
      source.PlacedEdge offset edge := by
  constructor
  · intro found
    rcases found with ⟨original, member, rfl⟩
    exact ⟨original, member, rfl, places _ (wellFormed.source_mem original member),
      places _ (wellFormed.target_mem original member)⟩
  · intro found
    rcases found with ⟨original, member, symbols, sources, targets⟩
    have placedSource := places _ (wellFormed.source_mem original member)
    have placedTarget := places _ (wellFormed.target_mem original member)
    refine ⟨original, member, ?_⟩
    rw [Edge.relabel, StateId.eq_of_index_eq (placedSource.trans sources.symm),
      StateId.eq_of_index_eq (placedTarget.trans targets.symm), ← symbols]

theorem exists_epsilon_eq_iff_placedAccepting :
    (∃ original ∈ source.accepting, ⟨image original, .epsilon, target⟩ = edge) ↔
      edge.symbol = .epsilon ∧ source.PlacedAccepting offset edge.source ∧
        edge.target.index = target.index := by
  rw [← exists_image_eq_iff_placedAccepting wellFormed places]
  constructor
  · intro found
    rcases found with ⟨original, accepts, rfl⟩
    exact ⟨rfl, ⟨original, accepts, rfl⟩, rfl⟩
  · intro found
    rcases found with ⟨symbols, ⟨original, accepts, sources⟩, targets⟩
    refine ⟨original, accepts, ?_⟩
    rw [sources, ← symbols, ← StateId.eq_of_index_eq targets]

end

theorem epsilon_eq_iff {source target : StateId} {edge : Edge} :
    ⟨source, .epsilon, target⟩ = edge ↔
      edge.symbol = .epsilon ∧ edge.source.index = source.index ∧
        edge.target.index = target.index := by
  constructor
  · rintro rfl
    exact ⟨rfl, rfl, rfl⟩
  · intro parts
    rcases parts with ⟨symbols, sources, targets⟩
    rw [← symbols, ← StateId.eq_of_index_eq sources, ← StateId.eq_of_index_eq targets]

end Automaton

/-! ## Blueprints -/

structure Blueprint where
  /-- The number of states. They are the first ones there are. -/
  size : Nat
  alphabet : Alphabet
  initial : Nat
  accepting : StateId → Prop
  edges : Edge → Prop

namespace Blueprint

/-- A hub, the first automaton, the second automaton; and epsilon edges from the hub to both. -/
def union (left right : Automaton) : Blueprint where
  size := 1 + left.stateCount + right.stateCount
  alphabet := left.alphabet ∪ right.alphabet
  initial := 0
  accepting state :=
    left.PlacedAccepting 1 state ∨ right.PlacedAccepting (1 + left.stateCount) state
  edges edge :=
    left.PlacedEdge 1 edge ∨ right.PlacedEdge (1 + left.stateCount) edge ∨
      edge.symbol = .epsilon ∧ edge.source.index = 0 ∧
        (edge.target.index = left.placed 1 left.initial ∨
          edge.target.index = right.placed (1 + left.stateCount) right.initial)

/-- The first automaton and the second; and epsilon edges from the accepting states of the first,
which do not accept any more, to the initial state of the second. -/
def concat (left right : Automaton) : Blueprint where
  size := left.stateCount + right.stateCount
  alphabet := left.alphabet ∪ right.alphabet
  initial := left.placed 0 left.initial
  accepting state := right.PlacedAccepting left.stateCount state
  edges edge :=
    left.PlacedEdge 0 edge ∨ right.PlacedEdge left.stateCount edge ∨
      edge.symbol = .epsilon ∧ left.PlacedAccepting 0 edge.source ∧
        edge.target.index = right.placed left.stateCount right.initial

/-- A hub that accepts, and the automaton; and epsilon edges from the hub to the initial state and
from the accepting states to the initial state and to the hub. -/
def star (inner : Automaton) : Blueprint where
  size := 1 + inner.stateCount
  alphabet := inner.alphabet
  initial := 0
  accepting state := state.index = 0 ∨ inner.PlacedAccepting 1 state
  edges edge :=
    inner.PlacedEdge 1 edge ∨
      edge.symbol = .epsilon ∧
        (edge.source.index = 0 ∧ edge.target.index = inner.placed 1 inner.initial ∨
          inner.PlacedAccepting 1 edge.source ∧
            (edge.target.index = inner.placed 1 inner.initial ∨ edge.target.index = 0))

end Blueprint

namespace Automaton

/-- The automaton has the parts that the blueprint lists and no others. -/
structure Follows (automaton : Automaton) (blueprint : Blueprint) : Prop where
  states : ∀ state, state ∈ automaton.states ↔ state.index < blueprint.size
  alphabet : automaton.alphabet = blueprint.alphabet
  initial : automaton.initial.index = blueprint.initial
  accepting : ∀ state, state ∈ automaton.accepting ↔ blueprint.accepting state
  edges : ∀ edge, edge ∈ automaton.transitions ↔ blueprint.edges edge

namespace Follows

variable {automaton other : Automaton} {blueprint : Blueprint}

theorem unique (follows : automaton.Follows blueprint) (otherFollows : other.Follows blueprint) :
    automaton = other := by
  apply ext
  case states => exact fun state => (follows.states state).trans (otherFollows.states state).symm
  case alphabet => exact follows.alphabet.trans otherFollows.alphabet.symm
  case initial => exact StateId.eq_of_index_eq (follows.initial.trans otherFollows.initial.symm)
  case accepting =>
    exact fun state => (follows.accepting state).trans (otherFollows.accepting state).symm
  case transitions => exact fun edge => (follows.edges edge).trans (otherFollows.edges edge).symm

theorem stateCount_eq (follows : automaton.Follows blueprint)
    (room : blueprint.size ≤ 4294967296) : automaton.stateCount = blueprint.size :=
  StateSet.size_eq_of_mem_iff room follows.states

end Follows

/-! ## The combinations follow their blueprints -/

section

variable {left right : Automaton} (leftWellFormed : left.WellFormed)
  (rightWellFormed : right.WellFormed)

include leftWellFormed rightWellFormed

theorem follows_union (room : 1 + left.stateCount + right.stateCount ≤ 4294967296) :
    (left.union right).Follows (.union left right) := by
  have nonempty := rightWellFormed.stateCount_pos
  have leftRoom : 1 + left.stateCount ≤ 4294967296 := by omega
  have leftPlaces : left.Places 1 left.behindHub := fun _ => index_behindHub leftRoom
  have rightPlaces : right.Places (1 + left.stateCount) (left.unionRight right) :=
    fun _ => index_unionRight nonempty room
  constructor
  case states => exact fun state => mem_states_union nonempty room
  case alphabet => exact alphabet_union
  case initial => rfl
  case accepting =>
    intro state
    rw [mem_accepting_union, exists_image_eq_iff_placedAccepting leftWellFormed leftPlaces,
      exists_image_eq_iff_placedAccepting rightWellFormed rightPlaces]
    rfl
  case edges =>
    intro edge
    rw [mem_transitions_union, exists_relabel_eq_iff_placedEdge leftWellFormed leftPlaces,
      exists_relabel_eq_iff_placedEdge rightWellFormed rightPlaces, epsilon_eq_iff, epsilon_eq_iff,
      leftPlaces _ leftWellFormed.initial_mem, rightPlaces _ rightWellFormed.initial_mem,
      ← and_or_left, ← and_or_left]
    rfl

theorem follows_concat (room : left.stateCount + right.stateCount ≤ 4294967296) :
    (left.concat right).Follows (.concat left right) := by
  have nonempty := rightWellFormed.stateCount_pos
  have leftPlaces : left.Places 0 left.concatLeft := by
    intro state member
    rw [index_concatLeft room member, placed, Nat.zero_add]
  have rightPlaces : right.Places left.stateCount (left.concatRight right) :=
    fun _ => index_concatRight nonempty room
  constructor
  case states => exact fun state => mem_states_concat nonempty room
  case alphabet => exact alphabet_concat
  case initial => exact leftPlaces left.initial leftWellFormed.initial_mem
  case accepting =>
    intro state
    rw [mem_accepting_concat, exists_image_eq_iff_placedAccepting rightWellFormed rightPlaces]
    rfl
  case edges =>
    intro edge
    rw [mem_transitions_concat, exists_relabel_eq_iff_placedEdge leftWellFormed leftPlaces,
      exists_relabel_eq_iff_placedEdge rightWellFormed rightPlaces,
      exists_epsilon_eq_iff_placedAccepting leftWellFormed leftPlaces,
      rightPlaces _ rightWellFormed.initial_mem]
    rfl

end

theorem follows_star {inner : Automaton} (wellFormed : inner.WellFormed)
    (room : 1 + inner.stateCount ≤ 4294967296) : inner.star.Follows (.star inner) := by
  have places : inner.Places 1 inner.behindHub := fun _ => index_behindHub room
  constructor
  case states => exact fun state => mem_states_star room
  case alphabet => exact alphabet_star
  case initial => rfl
  case accepting =>
    intro state
    rw [mem_accepting_star, exists_image_eq_iff_placedAccepting wellFormed places,
      StateId.first_eq_iff]
    rfl
  case edges =>
    intro edge
    rw [mem_transitions_star, exists_relabel_eq_iff_placedEdge wellFormed places, epsilon_eq_iff,
      exists_epsilon_eq_iff_placedAccepting wellFormed places,
      exists_epsilon_eq_iff_placedAccepting wellFormed places,
      places _ wellFormed.initial_mem, ← and_or_left, ← and_or_left, ← and_or_left]
    rfl

/-! ## Numbers of states -/

section

variable {left right : Automaton} (leftWellFormed : left.WellFormed)
  (rightWellFormed : right.WellFormed)

include leftWellFormed rightWellFormed

theorem stateCount_union (room : 1 + left.stateCount + right.stateCount ≤ 4294967296) :
    (left.union right).stateCount = 1 + left.stateCount + right.stateCount :=
  (follows_union leftWellFormed rightWellFormed room).stateCount_eq room

theorem stateCount_concat (room : left.stateCount + right.stateCount ≤ 4294967296) :
    (left.concat right).stateCount = left.stateCount + right.stateCount :=
  (follows_concat leftWellFormed rightWellFormed room).stateCount_eq room

omit rightWellFormed in
theorem stateCount_star (room : 1 + left.stateCount ≤ 4294967296) :
    left.star.stateCount = 1 + left.stateCount :=
  (follows_star leftWellFormed room).stateCount_eq room

end

/-! ## Other states in the same order -/

theorem placed_relabel {automaton : Automaton} {transform : StateId → StateId}
    (ascends : automaton.states.Ascends transform) (offset : Nat) {state : StateId}
    (member : state ∈ automaton.states) :
    (automaton.relabel transform).placed offset (transform state) =
      automaton.placed offset state :=
  congrArg (offset + ·) (StateSet.rank_map ascends member)

namespace SameInOrder

section

variable {automaton other : Automaton} (same : automaton.SameInOrder other)
  (wellFormed : automaton.WellFormed)

include same wellFormed

theorem placed_initial_eq (offset : Nat) :
    other.placed offset other.initial = automaton.placed offset automaton.initial := by
  rcases same with ⟨transform, ascends, rfl⟩
  exact placed_relabel ascends offset wellFormed.initial_mem

theorem placedAccepting_eq : other.PlacedAccepting = automaton.PlacedAccepting := by
  rcases same with ⟨transform, ascends, rfl⟩
  funext offset state
  apply propext
  constructor
  · intro found
    rcases found with ⟨image, imageAccepts, index⟩
    rcases StateSet.mem_map.mp imageAccepts with ⟨original, accepts, rfl⟩
    rw [placed_relabel ascends offset (wellFormed.accepting_subset original accepts)] at index
    exact ⟨original, accepts, index⟩
  · intro found
    rcases found with ⟨original, accepts, index⟩
    rw [← placed_relabel ascends offset (wellFormed.accepting_subset original accepts)] at index
    exact ⟨transform original, StateSet.mem_map.mpr ⟨original, accepts, rfl⟩, index⟩

theorem placedEdge_eq : other.PlacedEdge = automaton.PlacedEdge := by
  rcases same with ⟨transform, ascends, rfl⟩
  funext offset edge
  apply propext
  constructor
  · intro found
    rcases found with ⟨image, imageMember, symbols, sources, targets⟩
    rcases Transitions.mem_relabel.mp imageMember with ⟨original, member, rfl⟩
    rw [Edge.relabel, placed_relabel ascends offset (wellFormed.source_mem _ member)] at sources
    rw [Edge.relabel, placed_relabel ascends offset (wellFormed.target_mem _ member)] at targets
    exact ⟨original, member, symbols, sources, targets⟩
  · intro found
    rcases found with ⟨original, member, symbols, sources, targets⟩
    rw [← placed_relabel ascends offset (wellFormed.source_mem _ member)] at sources
    rw [← placed_relabel ascends offset (wellFormed.target_mem _ member)] at targets
    exact ⟨original.relabel transform, Transitions.mem_relabel.mpr ⟨original, member, rfl⟩,
      symbols, sources, targets⟩

end

section

variable {left right otherLeft otherRight : Automaton} (leftSame : left.SameInOrder otherLeft)
  (rightSame : right.SameInOrder otherRight) (leftWellFormed : left.WellFormed)
  (rightWellFormed : right.WellFormed)

include leftSame rightSame leftWellFormed rightWellFormed

theorem blueprint_union_eq : Blueprint.union otherLeft otherRight = .union left right := by
  simp only [Blueprint.union, leftSame.stateCount_eq, rightSame.stateCount_eq,
    leftSame.alphabet_eq, rightSame.alphabet_eq, leftSame.placedAccepting_eq leftWellFormed,
    rightSame.placedAccepting_eq rightWellFormed, leftSame.placedEdge_eq leftWellFormed,
    rightSame.placedEdge_eq rightWellFormed, leftSame.placed_initial_eq leftWellFormed,
    rightSame.placed_initial_eq rightWellFormed]

theorem blueprint_concat_eq : Blueprint.concat otherLeft otherRight = .concat left right := by
  simp only [Blueprint.concat, leftSame.stateCount_eq, rightSame.stateCount_eq,
    leftSame.alphabet_eq, rightSame.alphabet_eq, leftSame.placedAccepting_eq leftWellFormed,
    rightSame.placedAccepting_eq rightWellFormed, leftSame.placedEdge_eq leftWellFormed,
    rightSame.placedEdge_eq rightWellFormed, leftSame.placed_initial_eq leftWellFormed,
    rightSame.placed_initial_eq rightWellFormed]

theorem union_eq (room : 1 + left.stateCount + right.stateCount ≤ 4294967296) :
    otherLeft.union otherRight = left.union right := by
  have otherRoom : 1 + otherLeft.stateCount + otherRight.stateCount ≤ 4294967296 := by
    rwa [leftSame.stateCount_eq, rightSame.stateCount_eq]
  have otherFollows := follows_union (leftSame.wellFormed leftWellFormed)
    (rightSame.wellFormed rightWellFormed) otherRoom
  rw [blueprint_union_eq leftSame rightSame leftWellFormed rightWellFormed] at otherFollows
  exact otherFollows.unique (follows_union leftWellFormed rightWellFormed room)

theorem concat_eq (room : left.stateCount + right.stateCount ≤ 4294967296) :
    otherLeft.concat otherRight = left.concat right := by
  have otherRoom : otherLeft.stateCount + otherRight.stateCount ≤ 4294967296 := by
    rwa [leftSame.stateCount_eq, rightSame.stateCount_eq]
  have otherFollows := follows_concat (leftSame.wellFormed leftWellFormed)
    (rightSame.wellFormed rightWellFormed) otherRoom
  rw [blueprint_concat_eq leftSame rightSame leftWellFormed rightWellFormed] at otherFollows
  exact otherFollows.unique (follows_concat leftWellFormed rightWellFormed room)

end

variable {inner other : Automaton}

theorem blueprint_star_eq (same : inner.SameInOrder other) (wellFormed : inner.WellFormed) :
    Blueprint.star other = .star inner := by
  simp only [Blueprint.star, same.stateCount_eq, same.alphabet_eq,
    same.placedAccepting_eq wellFormed, same.placedEdge_eq wellFormed,
    same.placed_initial_eq wellFormed]

theorem star_eq (same : inner.SameInOrder other) (wellFormed : inner.WellFormed)
    (room : 1 + inner.stateCount ≤ 4294967296) : other.star = inner.star := by
  have otherRoom : 1 + other.stateCount ≤ 4294967296 := by rwa [same.stateCount_eq]
  have otherFollows := follows_star (same.wellFormed wellFormed) otherRoom
  rw [blueprint_star_eq same wellFormed] at otherFollows
  exact otherFollows.unique (follows_star wellFormed room)

end SameInOrder

/-- As long as there are enough states, the combinations are laid out as their blueprints say, and
arguments with other states in the same order, such as the ones that renumbering makes, give the
same results. -/
theorem combinations_follow_blueprints {left right : Automaton} (leftWellFormed : left.WellFormed)
    (rightWellFormed : right.WellFormed) :
    (1 + left.stateCount + right.stateCount ≤ 4294967296 →
      (left.union right).Follows (.union left right)) ∧
    (left.stateCount + right.stateCount ≤ 4294967296 →
      (left.concat right).Follows (.concat left right)) ∧
    (1 + left.stateCount ≤ 4294967296 → left.star.Follows (.star left)) ∧
    (∀ otherLeft otherRight, left.SameInOrder otherLeft → right.SameInOrder otherRight →
      (1 + left.stateCount + right.stateCount ≤ 4294967296 →
        otherLeft.union otherRight = left.union right) ∧
      (left.stateCount + right.stateCount ≤ 4294967296 →
        otherLeft.concat otherRight = left.concat right) ∧
      (1 + left.stateCount ≤ 4294967296 → otherLeft.star = left.star)) ∧
    (∀ automaton : Automaton, automaton.SameInOrder automaton) ∧
    ∀ (automaton : Automaton) start packed, automaton.renumbered start = some packed →
      automaton.SameInOrder packed := by
  refine ⟨follows_union leftWellFormed rightWellFormed,
    follows_concat leftWellFormed rightWellFormed, follows_star leftWellFormed, ?_,
    SameInOrder.refl, fun _ _ _ => sameInOrder_of_renumbered⟩
  intro otherLeft otherRight leftSame rightSame
  exact ⟨leftSame.union_eq rightSame leftWellFormed rightWellFormed,
    leftSame.concat_eq rightSame leftWellFormed rightWellFormed,
    leftSame.star_eq leftWellFormed⟩

/-- Three states that are far apart, the initial one in the middle. -/
def scattered : Automaton where
  states := .ofList [⟨2, by decide⟩, ⟨7, by decide⟩, .last]
  alphabet := .ofList ['a', 'z']
  initial := ⟨7, by decide⟩
  accepting := {.last}
  transitions := .ofRows
    [(⟨⟨7, by decide⟩, .literal 'a'⟩, .ofList [⟨2, by decide⟩, .last]),
      (⟨.last, .epsilon⟩, {⟨7, by decide⟩})]

theorem combinations_follow_blueprints_scattered :
    scattered.WellFormed ∧ (symbol 'b').WellFormed ∧
      (scattered.union (symbol 'b')).Follows (.union scattered (symbol 'b')) ∧
      (scattered.concat (symbol 'b')).Follows (.concat scattered (symbol 'b')) ∧
      scattered.star.Follows (.star scattered) ∧
      ∃ packed, scattered.renumbered ⟨5, by decide⟩ = some packed ∧
        packed.concat (symbol 'b') = scattered.concat (symbol 'b') := by
  have leftWellFormed : scattered.WellFormed := by decide +kernel
  have rightWellFormed : (symbol 'b').WellFormed := by decide +kernel
  have packs : (scattered.renumbered ⟨5, by decide⟩).isSome := by decide +kernel
  rcases Option.isSome_iff_exists.mp packs with ⟨packed, succeeds⟩
  rcases combinations_follow_blueprints leftWellFormed rightWellFormed with
    ⟨union, concat, star, independent, unchanged, renumbered⟩
  rcases independent packed (symbol 'b') (renumbered scattered _ packed succeeds)
    (unchanged (symbol 'b')) with ⟨_, sameConcat, _⟩
  exact ⟨leftWellFormed, rightWellFormed, union (by decide +kernel), concat (by decide +kernel),
    star (by decide +kernel), packed, succeeds, sameConcat (by decide +kernel)⟩

end Automaton

end EpsilonAutomata
