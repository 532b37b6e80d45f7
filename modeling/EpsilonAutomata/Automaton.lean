import EpsilonAutomata.Transitions

/-!
Automata with epsilon edges, and the questions that need no word.

An `Automaton` is plain data. What every construction of this library guarantees about it, that it
refers to its own states and characters only, is the predicate `Automaton.WellFormed`.
-/

namespace EpsilonAutomata

structure Automaton where
  states : StateSet
  alphabet : Alphabet
  initial : StateId
  accepting : StateSet
  transitions : Transitions

namespace Automaton

instance : DecidableEq Automaton := fun left right =>
  decidable_of_iff
    (left.states = right.states ∧ left.alphabet = right.alphabet ∧ left.initial = right.initial ∧
      left.accepting = right.accepting ∧ left.transitions = right.transitions)
    (by
      cases left
      cases right
      simp only [mk.injEq])

theorem ext {left right : Automaton} (states : ∀ state, state ∈ left.states ↔ state ∈ right.states)
    (alphabet : left.alphabet = right.alphabet) (initial : left.initial = right.initial)
    (accepting : ∀ state, state ∈ left.accepting ↔ state ∈ right.accepting)
    (transitions : ∀ edge : Edge, edge ∈ left.transitions ↔ edge ∈ right.transitions) :
    left = right := by
  cases left
  cases right
  cases StateSet.ext states
  cases alphabet
  cases initial
  cases StateSet.ext accepting
  cases Transitions.ext transitions
  rfl

structure WellFormed (automaton : Automaton) : Prop where
  initial_mem : automaton.initial ∈ automaton.states
  accepting_subset : ∀ state ∈ automaton.accepting, state ∈ automaton.states
  source_mem : ∀ edge ∈ automaton.transitions, edge.source ∈ automaton.states
  target_mem : ∀ edge ∈ automaton.transitions, edge.target ∈ automaton.states
  literal_mem : ∀ edge ∈ automaton.transitions, ∀ character,
    edge.symbol = .literal character → character ∈ automaton.alphabet

/-- Different states of the automaton have different images. -/
def Separates (automaton : Automaton) (image : StateId → StateId) : Prop :=
  ∀ left ∈ automaton.states, ∀ right ∈ automaton.states, image left = image right → left = right

/-- No state of the automaton has the image `outside`. -/
def Avoids (automaton : Automaton) (image : StateId → StateId) (outside : StateId) : Prop :=
  ∀ state ∈ automaton.states, image state ≠ outside

theorem not_exists_accepting_image {automaton : Automaton} {image : StateId → StateId}
    (wellFormed : automaton.WellFormed) {outside : StateId}
    (avoids : automaton.Avoids image outside) :
    ¬∃ accepting ∈ automaton.accepting, image accepting = outside := by
  intro found
  rcases found with ⟨accepting, accepts, equal⟩
  exact avoids accepting (wellFormed.accepting_subset accepting accepts) equal

theorem not_exists_relabel {automaton : Automaton} {image : StateId → StateId}
    (wellFormed : automaton.WellFormed) {edge : Edge}
    (avoids : automaton.Avoids image edge.source) :
    ¬∃ original ∈ automaton.transitions, original.relabel image = edge := by
  intro found
  rcases found with ⟨original, member, equal⟩
  exact avoids original.source (wellFormed.source_mem original member)
    (congrArg Edge.source equal)

/-- The accepting states are known by their images. -/
theorem exists_accepting_image_iff {automaton : Automaton} {image : StateId → StateId}
    (wellFormed : automaton.WellFormed) (separates : automaton.Separates image) {state : StateId}
    (member : state ∈ automaton.states) :
    (∃ accepting ∈ automaton.accepting, image accepting = image state) ↔
      state ∈ automaton.accepting := by
  constructor
  · intro found
    rcases found with ⟨accepting, accepts, equal⟩
    have acceptingMember := wellFormed.accepting_subset accepting accepts
    exact separates accepting acceptingMember state member equal ▸ accepts
  · exact fun accepts => ⟨state, accepts, rfl⟩

theorem wellFormed_iff (automaton : Automaton) :
    automaton.WellFormed ↔
      automaton.initial ∈ automaton.states ∧
      (∀ state ∈ automaton.accepting.toList, state ∈ automaton.states) ∧
      ∀ edge ∈ automaton.transitions.edges,
        edge.source ∈ automaton.states ∧ edge.target ∈ automaton.states ∧
          edge.symbol.character?.all automaton.alphabet.contains = true := by
  simp only [Std.ExtTreeSet.mem_toList, Transitions.mem_edges, Option.all_eq_true,
    Symbol.character?_eq_some_iff, Std.ExtTreeSet.contains_iff_mem]
  constructor
  · intro wellFormed
    exact ⟨wellFormed.initial_mem, wellFormed.accepting_subset, fun edge member =>
      ⟨wellFormed.source_mem edge member, wellFormed.target_mem edge member,
        wellFormed.literal_mem edge member⟩⟩
  · intro conditions
    rcases conditions with ⟨initial, accepting, edges⟩
    exact ⟨initial, accepting, fun edge member => (edges edge member).1,
      fun edge member => (edges edge member).2.1, fun edge member => (edges edge member).2.2⟩

instance (automaton : Automaton) : Decidable automaton.WellFormed :=
  decidable_of_iff _ automaton.wellFormed_iff.symm

def stateCount (automaton : Automaton) : Nat :=
  automaton.states.size

theorem WellFormed.stateCount_pos {automaton : Automaton} (wellFormed : automaton.WellFormed) :
    0 < automaton.stateCount := by
  have nonempty : automaton.states ≠ ∅ := Std.ExtTreeSet.ne_empty_of_mem wellFormed.initial_mem
  exact Nat.pos_of_ne_zero fun isZero => nonempty (Std.ExtTreeSet.eq_empty_iff_size_eq_zero.mpr isZero)

def targets (automaton : Automaton) (source : StateId) (symbol : Symbol) : StateSet :=
  automaton.transitions.targets ⟨source, symbol⟩

theorem mem_targets {automaton : Automaton} {source target : StateId} {symbol : Symbol} :
    target ∈ automaton.targets source symbol ↔
      (⟨source, symbol, target⟩ : Edge) ∈ automaton.transitions := Iff.rfl

/-- All edges in order: by source, then label with epsilon first, then target. -/
def edges (automaton : Automaton) : List Edge :=
  automaton.transitions.edges

/-- The state just past the largest one in use. When the last state is in use it is offered again,
since nothing comes after it. -/
def nextFreeState (automaton : Automaton) : StateId :=
  match automaton.states.toList.getLast? with
  | none => .next .first
  | some largest => largest.next

/-! ## Elementary automata -/

/-- One state that accepts, and no edges: the empty word alone is accepted. -/
def epsilon : Automaton where
  states := {.first}
  alphabet := ∅
  initial := .first
  accepting := {.first}
  transitions := ∅

/-- One state that does not accept, and no edges: no word is accepted. -/
def empty : Automaton :=
  { epsilon with accepting := ∅ }

/-- Extends a chain of edges that ends in `last`, one state for each character, and lets the final
state accept. Where the states run out the chain ends and the rest of the word is dropped. -/
def extendChain (automaton : Automaton) (last : StateId) : Word → Automaton
  | [] => { automaton with accepting := {last} }
  | character :: rest =>
      match last.next? with
      | none => { automaton with accepting := {last} }
      | some fresh =>
          extendChain
            { automaton with
              states := automaton.states.insert fresh
              alphabet := automaton.alphabet.insert character
              transitions := automaton.transitions.add last (.literal character) {fresh} }
            fresh rest

/-- A chain that reads one word. -/
def word (letters : Word) : Automaton :=
  extendChain empty .first letters

def symbol (character : Char) : Automaton :=
  word [character]

/-! ## Text -/

def displayRow (move : Move) (targets : StateSet) : String :=
  "\n " ++ move.source.display ++ "," ++ move.symbol.display ++ " → \x7b" ++
    targets.display ++ "\x7d"

/-- The parts of an automaton, a line each, and then a line for each move. -/
def display (automaton : Automaton) : String :=
  "States   : " ++ automaton.states.display ++
  "\nAlphabet : " ++ automaton.alphabet.display ++
  "\nInitial  : " ++ automaton.initial.display ++
  "\nAccepting: " ++ automaton.accepting.display ++
  "\nTransitions:" ++
    String.join (automaton.transitions.entries.map fun (move, targets) => displayRow move targets)

example : (symbol 'a').display =
    "States   : q0, q1\nAlphabet : a\nInitial  : q0\nAccepting: q1\nTransitions:" ++
      "\n q0,a → \x7bq1\x7d" := by decide +kernel

end Automaton

end EpsilonAutomata
