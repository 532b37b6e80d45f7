import Mathlib.Computability.Language
import Mathlib.Order.CompletePartialOrder
import EpsilonAutomata.Proofs.Simulation

/-!
Languages of automata.

Every state has a language, the words that lead from it to an accepting state. The language of the
automaton is that of its initial state, and a word belongs to it just if the simulation accepts it
(`Automaton.accepts_iff_mem_language`).
-/

namespace EpsilonAutomata

namespace Automaton

def languageFrom (automaton : Automaton) (state : StateId) : Language Char :=
  {word | ∃ target ∈ automaton.accepting, automaton.Reads state word target}

def language (automaton : Automaton) : Language Char :=
  automaton.languageFrom automaton.initial

variable {automaton : Automaton} {state source target : StateId} {symbol : Symbol} {word : Word}

theorem accepts_iff_mem_language :
    automaton.accepts word = true ↔ word ∈ automaton.language :=
  acceptsFrom_iff

theorem nil_mem_languageFrom (accepts : state ∈ automaton.accepting) :
    [] ∈ automaton.languageFrom state :=
  ⟨state, accepts, .refl automaton state⟩

/-- An edge puts its letter, if it has one, in front of the words of its target. -/
theorem append_mem_languageFrom (edge : (⟨source, symbol, target⟩ : Edge) ∈ automaton.transitions)
    (member : word ∈ automaton.languageFrom target) :
    Word.ofSymbols [symbol] ++ word ∈ automaton.languageFrom source := by
  rcases member with ⟨final, accepts, reads⟩
  exact ⟨final, accepts, .append ⟨[symbol], .single edge, rfl⟩ reads⟩

/-- A word is read in no step from an accepting state, or it has a first edge. -/
theorem cases_of_mem_languageFrom (member : word ∈ automaton.languageFrom source) :
    (source ∈ automaton.accepting ∧ word = []) ∨
      ∃ symbol target, (⟨source, symbol, target⟩ : Edge) ∈ automaton.transitions ∧
        ∃ rest ∈ automaton.languageFrom target, Word.ofSymbols [symbol] ++ rest = word := by
  rcases member with ⟨final, accepts, symbols, path, rfl⟩
  cases path with
  | nil => exact .inl ⟨accepts, rfl⟩
  | @cons _ middle _ symbol symbols edge path =>
      refine .inr ⟨symbol, middle, edge, Word.ofSymbols symbols, ?_, ?_⟩
      · exact ⟨final, accepts, symbols, path, rfl⟩
      · exact (Word.ofSymbols_append [symbol] symbols).symm

theorem languageFrom_le_of_epsilon
    (edge : (⟨source, .epsilon, target⟩ : Edge) ∈ automaton.transitions) :
    automaton.languageFrom target ≤ automaton.languageFrom source :=
  fun _ member => append_mem_languageFrom edge member

end Automaton

end EpsilonAutomata
