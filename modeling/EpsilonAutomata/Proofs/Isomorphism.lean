import EpsilonAutomata.Proofs.Relabelling
import EpsilonAutomata.Proofs.Simulation

/-!
Runs of an automaton under a change of its states.

Where a map keeps the states of an automaton apart, the edges that leave the image of a state are
the images of the edges that leave the state, and no others. So the paths from the image of a state
are the images of the paths from the state (`Automaton.path_relabel_iff`). The map then carries
active states to active states, after every word (`Automaton.extended_relabel`), and the same words
are accepted.
-/

namespace EpsilonAutomata

namespace StateSet

theorem Ascends.eq_of_image_eq {states : StateSet} {transform : StateId → StateId}
    (ascends : states.Ascends transform) {state other : StateId} (member : state ∈ states)
    (otherMember : other ∈ states) (equal : transform state = transform other) :
    state = other := by
  rcases Nat.lt_trichotomy state.index other.index with less | same | greater
  · have imageLess := ascends state member other otherMember less
    exact absurd imageLess (equal ▸ Nat.lt_irrefl _)
  · exact StateId.eq_of_index_eq same
  · have imageLess := ascends other otherMember state member greater
    exact absurd imageLess (equal ▸ Nat.lt_irrefl _)

end StateSet

namespace Automaton

section

variable {automaton : Automaton} {transform : StateId → StateId} {source state image : StateId}
  {symbols : List Symbol} {states : StateSet}
  (wellFormed : automaton.WellFormed) (separates : automaton.Separates transform)

include wellFormed separates

/-- The induction follows the path of images. Each of its edges is the image of an edge, whose source
is the state reached so far, since no other state has the same image. -/
theorem path_relabel_iff (member : source ∈ automaton.states) :
    Path (automaton.relabel transform).transitions (transform source) symbols image ↔
      ∃ target ∈ automaton.states, transform target = image ∧
        Path automaton.transitions source symbols target := by
  constructor
  · intro path
    generalize start : transform source = first at path
    induction path generalizing source with
    | nil state => exact ⟨source, member, start, .nil source⟩
    | cons edge _ induction =>
        rcases Transitions.mem_relabel.mp edge with ⟨original, copied, equal⟩
        cases equal
        have sources : source = original.source :=
          separates source member original.source (wellFormed.source_mem original copied) start
        rcases induction (wellFormed.target_mem original copied) rfl with
          ⟨target, targetMember, imageEqual, rest⟩
        exact ⟨target, targetMember, imageEqual, sources ▸ .cons copied rest⟩
  · intro path
    rcases path with ⟨target, _, rfl, path⟩
    exact path.relabel transform

theorem reads_relabel_iff {word : Word} (member : source ∈ automaton.states) :
    (automaton.relabel transform).Reads (transform source) word image ↔
      ∃ target ∈ automaton.states, transform target = image ∧
        automaton.Reads source word target := by
  constructor
  · intro reads
    rcases reads with ⟨symbols, path, spelling⟩
    rcases (path_relabel_iff wellFormed separates member).mp path with
      ⟨target, targetMember, equal, original⟩
    exact ⟨target, targetMember, equal, symbols, original, spelling⟩
  · intro reads
    rcases reads with ⟨target, targetMember, equal, symbols, original, spelling⟩
    exact ⟨symbols, (path_relabel_iff wellFormed separates member).mpr
      ⟨target, targetMember, equal, original⟩, spelling⟩

theorem extended_relabel (subset : ∀ state ∈ states, state ∈ automaton.states) (word : Word) :
    (automaton.relabel transform).simulator.extended (states.map transform) word =
      (automaton.simulator.extended states word).map transform := by
  apply StateSet.ext
  intro image
  rw [mem_extended_iff, StateSet.exists_mem_map, StateSet.mem_map]
  simp only [mem_extended_iff]
  constructor
  · intro reached
    rcases reached with ⟨source, member, reads⟩
    rcases (reads_relabel_iff wellFormed separates (subset source member)).mp reads with
      ⟨target, _, equal, original⟩
    exact ⟨target, ⟨source, member, original⟩, equal⟩
  · intro reached
    rcases reached with ⟨target, ⟨source, member, original⟩, rfl⟩
    rcases original with ⟨symbols, path, spelling⟩
    exact ⟨source, member, symbols, path.relabel transform, spelling⟩

/-- Reading nothing is taking the closure. -/
theorem closure_relabel (subset : ∀ state ∈ states, state ∈ automaton.states) :
    (automaton.relabel transform).closure (states.map transform) =
      (automaton.closure states).map transform :=
  extended_relabel wellFormed separates subset []

theorem acceptsFrom_relabel (member : state ∈ automaton.states) (word : Word) :
    (automaton.relabel transform).simulator.acceptsFrom (transform state) word =
      automaton.simulator.acceptsFrom state word := by
  rw [Bool.eq_iff_iff, acceptsFrom_iff, acceptsFrom_iff]
  constructor
  · intro accepted
    rcases accepted with ⟨image, accepts, reads⟩
    rcases (reads_relabel_iff wellFormed separates member).mp reads with
      ⟨target, targetMember, rfl, original⟩
    have targetAccepts := (exists_accepting_image_iff wellFormed separates targetMember).mp
      (StateSet.mem_map.mp accepts)
    exact ⟨target, targetAccepts, original⟩
  · intro accepted
    rcases accepted with ⟨target, accepts, original⟩
    have targetMember := wellFormed.accepting_subset target accepts
    exact ⟨transform target, StateSet.mem_map.mpr ⟨target, accepts, rfl⟩,
      (reads_relabel_iff wellFormed separates member).mpr ⟨target, targetMember, rfl, original⟩⟩

theorem accepts_relabel (word : Word) :
    (automaton.relabel transform).accepts word = automaton.accepts word :=
  acceptsFrom_relabel wellFormed separates wellFormed.initial_mem word

end

theorem SameInOrder.accepts_eq {automaton other : Automaton} (same : automaton.SameInOrder other)
    (wellFormed : automaton.WellFormed) (word : Word) :
    other.accepts word = automaton.accepts word := by
  rcases same with ⟨transform, ascends, rfl⟩
  apply accepts_relabel wellFormed
  intro left leftMember right rightMember equal
  exact ascends.eq_of_image_eq leftMember rightMember equal

end Automaton

end EpsilonAutomata
