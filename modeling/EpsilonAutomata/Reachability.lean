import EpsilonAutomata.Automaton
import EpsilonAutomata.Exploration

/-!
Which states an automaton can ever be in, and whether it accepts anything.
-/

namespace EpsilonAutomata

namespace Automaton

/-- The states that the initial state leads to over edges of any label. -/
def reachable (automaton : Automaton) : StateSet :=
  let adjacency := automaton.transitions.adjacency
  StateSet.explore .queue {automaton.initial} adjacency.targets

theorem mem_reachable {automaton : Automaton} {target : StateId} :
    target ∈ automaton.reachable ↔
      Leads automaton.transitions.adjacency.targets automaton.initial target := by
  rw [reachable, StateSet.mem_explore]
  simp

theorem initial_mem_reachable (automaton : Automaton) :
    automaton.initial ∈ automaton.reachable :=
  mem_reachable.mpr (.refl automaton.initial)

/-- The edges that leave a reachable state end in reachable states. -/
theorem target_mem_reachable {automaton : Automaton} {edge : Edge}
    (member : edge ∈ automaton.transitions) (source : edge.source ∈ automaton.reachable) :
    edge.target ∈ automaton.reachable := by
  have next : edge.target ∈ automaton.transitions.adjacency.targets edge.source :=
    Transitions.mem_targets_adjacency.mpr ⟨edge.symbol, member⟩
  exact mem_reachable.mpr ((mem_reachable.mp source).extend next)

def unreachable (automaton : Automaton) : StateSet :=
  automaton.states \ automaton.reachable

/-- Whether no word at all is accepted. -/
def isEmptyLanguage (automaton : Automaton) : Bool :=
  !automaton.reachable.meets automaton.accepting

/-- The automaton without its unreachable states. Indices and alphabet stay as they are. -/
def trimmed (automaton : Automaton) : Automaton :=
  let reachable := automaton.reachable
  { automaton with
    states := reachable
    accepting := automaton.accepting ∩ reachable
    transitions := automaton.transitions.restrictSources reachable }

end Automaton

end EpsilonAutomata
