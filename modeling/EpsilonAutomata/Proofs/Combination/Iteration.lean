import EpsilonAutomata.Proofs.Combination.Layout
import EpsilonAutomata.Proofs.Language.Copy

/-!
The language of an iteration.

A run of an iteration passes through the copy any number of times, by way of the hub or straight
back to the initial state of the copy.
-/

namespace EpsilonAutomata

open scoped Computability

namespace Automaton

section

variable {inner : Automaton} {state : StateId} (wellFormed : inner.WellFormed)
  (room : 1 + inner.stateCount ≤ 4294967296)

include wellFormed room

theorem copy_star :
    Copy inner.star inner inner.behindHub
      fun exit => exit = .first ∨ exit = inner.behindHub inner.initial := by
  apply Copy.of_separates wellFormed (separates_behindHub room)
  case copied =>
    intro edge member
    exact mem_transitions_star.mpr (.inl ⟨edge, member, rfl⟩)
  case others =>
    intro edge member
    rcases mem_transitions_star.mp member with inside | enters | again | returns
    · exact .inl inside
    · cases enters
      exact .inr (.inr (behindHub_avoids_first room))
    · rcases again with ⟨final, accepts, rfl⟩
      exact .inr (.inl ⟨final, accepts, _, .inr rfl, rfl⟩)
    · rcases returns with ⟨final, accepts, rfl⟩
      exact .inr (.inl ⟨final, accepts, _, .inl rfl, rfl⟩)

theorem edge_from_first_star {symbol : Symbol} {target : StateId}
    (edge : (⟨.first, symbol, target⟩ : Edge) ∈ inner.star.transitions) :
    symbol = .epsilon ∧ target = inner.behindHub inner.initial := by
  rcases mem_transitions_star.mp edge with inside | enters | again | returns
  · exact absurd inside (not_exists_relabel wellFormed (behindHub_avoids_first room))
  · cases enters
    exact ⟨rfl, rfl⟩
  · rcases again with ⟨final, accepts, equal⟩
    exact absurd (congrArg Edge.source equal)
      (behindHub_avoids_first room final (wellFormed.accepting_subset final accepts))
  · rcases returns with ⟨final, accepts, equal⟩
    exact absurd (congrArg Edge.source equal)
      (behindHub_avoids_first room final (wellFormed.accepting_subset final accepts))

theorem behindHub_mem_accepting_star (member : state ∈ inner.states) :
    inner.behindHub state ∈ inner.star.accepting ↔ state ∈ inner.accepting := by
  rw [mem_accepting_star, exists_accepting_image_iff wellFormed (separates_behindHub room) member]
  exact or_iff_right (behindHub_avoids_first room state member).symm

/-- The induction is on the length of the path: every pass through the copy leaves a shorter one,
from the hub or from the initial state of the copy again. -/
theorem spelling_mem_kstar {source target : StateId} {symbols : List Symbol}
    (path : Path inner.star.transitions source symbols target)
    (accepts : target ∈ inner.star.accepting)
    (starts : source = .first ∨ source = inner.behindHub inner.initial) :
    Word.ofSymbols symbols ∈ inner.language∗ := by
  induction measured : symbols.length using Nat.strong_induction_on generalizing source symbols with
  | h length induction =>
      rcases starts with rfl | rfl
      · cases path with
        | nil => exact Language.nil_mem_kstar inner.language
        | @cons _ middle _ symbol symbols edge rest =>
            rcases edge_from_first_star wellFormed room edge with ⟨rfl, rfl⟩
            have shorter : symbols.length < length := by
              rw [← measured]
              exact Nat.lt_succ_self symbols.length
            have spelled := induction symbols.length shorter rest (.inr rfl) rfl
            exact spelled
      · rcases (copy_star wellFormed room).stays_or_leaves wellFormed wellFormed.initial_mem path
          with stays | leaves
        · rcases stays with ⟨state, member, rfl, reads⟩
          rw [behindHub_mem_accepting_star wellFormed room member] at accepts
          have once : inner.language ≤ inner.language∗ := le_kstar
          exact once ⟨state, accepts, reads⟩
        · rcases leaves with ⟨front, frontMember, exit, back, isExit, rest, shorter, spelling⟩
          have again : inner.language * inner.language∗ ≤ inner.language∗ := mul_kstar_le_kstar
          rw [measured] at shorter
          have backMember := induction back.length shorter rest isExit rfl
          rw [← spelling]
          exact again (Language.append_mem_mul frontMember backMember)

theorem language_star_le : inner.star.language ≤ inner.language∗ := by
  intro word member
  rcases member with ⟨final, accepts, symbols, path, rfl⟩
  exact spelling_mem_kstar wellFormed room path accepts (.inl rfl)

omit wellFormed room in
theorem first_mem_accepting_star : .first ∈ inner.star.accepting :=
  mem_accepting_star.mpr (.inl rfl)

/-- One pass through the copy, from the hub and back to it, comes before a word of the iteration. -/
theorem language_mul_language_star_le :
    inner.language * inner.star.language ≤ inner.star.language := by
  have passes : inner.language * inner.star.language ≤
      inner.star.languageFrom (inner.behindHub inner.initial) := by
    apply (copy_star wellFormed room).mul_le_languageFrom
    intro final accepts
    apply languageFrom_le_of_epsilon
    exact mem_transitions_star.mpr (.inr (.inr (.inr ⟨final, accepts, rfl⟩)))
  apply le_trans passes
  apply languageFrom_le_of_epsilon
  exact mem_transitions_star.mpr (.inr (.inl rfl))

theorem language_star : inner.star.language = inner.language∗ := by
  apply le_antisymm (language_star_le wellFormed room)
  apply kstar_le_of_mul_le_right
  · intro word isNil
    cases isNil
    exact nil_mem_languageFrom first_mem_accepting_star
  · exact language_mul_language_star_le wellFormed room

end

/-- The iteration accepts what can be cut into words of the automaton, into none of them included. -/
theorem accepts_star {inner : Automaton} (wellFormed : inner.WellFormed)
    (room : 1 + inner.stateCount ≤ 4294967296) (word : Word) :
    inner.star.accepts word = true ↔
      ∃ parts : List Word, word = parts.flatten ∧ ∀ part ∈ parts, inner.accepts part = true := by
  rw [accepts_iff_mem_language, language_star wellFormed room, Language.mem_kstar]
  simp only [accepts_iff_mem_language]

/-- The initial state of the iterated automaton has an edge to it. All words that it accepts end in
the same letter. -/
theorem accepts_star_of_initial_edge :
    let inner := (symbol 'a').star.concat (symbol 'b')
    inner.star.accepts ['b', 'a', 'a', 'b'] = true ∧ inner.star.accepts ['b', 'a'] = false ∧
      ¬∃ parts : List Word, ['b', 'a'] = parts.flatten ∧
        ∀ part ∈ parts, inner.accepts part = true := by
  intro inner
  have wellFormed : inner.WellFormed := by decide +kernel
  have law := accepts_star wellFormed (by decide +kernel)
  have refused : inner.star.accepts ['b', 'a'] = false := by decide +kernel
  refine ⟨?_, refused, ?_⟩
  · exact (law _).mpr ⟨[['b'], ['a', 'a', 'b']], rfl, by decide +kernel⟩
  · rw [← law, refused]
    exact Bool.false_ne_true

end Automaton

end EpsilonAutomata
