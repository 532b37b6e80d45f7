import EpsilonAutomata.Automaton
import EpsilonAutomata.Exploration

/-!
Reading words.

An automaton reads a word with a set of active states. A simulator is an automaton together with a
way to find the epsilon closure of a set; all other questions about words are answered from these
two. `Automaton.simulator` searches for a closure each time it is needed.
-/

namespace EpsilonAutomata

/-- The states that epsilon edges lead to. States outside the automaton have no edges and lead to
themselves only. -/
def Automaton.closure (automaton : Automaton) (states : StateSet) : StateSet :=
  states.explore .stack fun state => automaton.targets state .epsilon

namespace Automaton

/-- The closure consists of what its states lead to over epsilon edges. -/
theorem mem_closure {automaton : Automaton} {states : StateSet} {target : StateId} :
    target ∈ automaton.closure states ↔
      ∃ source ∈ states, Leads (fun state => automaton.targets state .epsilon) source target :=
  StateSet.mem_explore

end Automaton

structure Simulator where
  automaton : Automaton
  closure : StateSet → StateSet

def Automaton.simulator (automaton : Automaton) : Simulator :=
  ⟨automaton, automaton.closure⟩

namespace Simulator

def initialClosure (simulator : Simulator) : StateSet :=
  simulator.closure {simulator.automaton.initial}

/-- Reads one character, and follows no epsilon edge. -/
def step (simulator : Simulator) (states : StateSet) (character : Char) : StateSet :=
  states.bind fun state => simulator.automaton.targets state (.literal character)

/-- Reads one character, and follows epsilon edges from there. -/
def stepClosed (simulator : Simulator) (states : StateSet) (character : Char) : StateSet :=
  simulator.closure (simulator.step states character)

/-- Reads the rest of a word. Once no state is active none will be, and reading stops early. -/
def continueFrom (simulator : Simulator) (active : StateSet) : Word → StateSet
  | [] => active
  | character :: rest =>
      if active.isEmpty then active
      else simulator.continueFrom (simulator.stepClosed active character) rest

/-- The active states after a word, starting from the closure of `states`. -/
def extended (simulator : Simulator) (states : StateSet) (word : Word) : StateSet :=
  simulator.continueFrom (simulator.closure states) word

def isAcceptingSet (simulator : Simulator) (states : StateSet) : Bool :=
  states.meets simulator.automaton.accepting

def acceptsFrom (simulator : Simulator) (state : StateId) (word : Word) : Bool :=
  simulator.isAcceptingSet (simulator.extended {state} word)

def accepts (simulator : Simulator) (word : Word) : Bool :=
  simulator.acceptsFrom simulator.automaton.initial word

theorem continueFrom_empty (simulator : Simulator) (word : Word) :
    simulator.continueFrom ∅ word = ∅ := by
  cases word with
  | nil => rfl
  | cons character rest => simp [continueFrom]

theorem mem_step {simulator : Simulator} {states : StateSet} {character : Char}
    {target : StateId} :
    target ∈ simulator.step states character ↔
      ∃ source ∈ states, (⟨source, .literal character, target⟩ : Edge) ∈
        simulator.automaton.transitions := by
  rw [step, StateSet.mem_bind]
  rfl

end Simulator

/-- Whether the automaton accepts a word. -/
def Automaton.accepts (automaton : Automaton) (word : Word) : Bool :=
  automaton.simulator.accepts word

end EpsilonAutomata
