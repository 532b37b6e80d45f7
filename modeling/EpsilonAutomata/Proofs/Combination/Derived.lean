import Mathlib.Algebra.BigOperators.Group.List.Basic
import Mathlib.Algebra.GroupWithZero.Nat
import EpsilonAutomata.Proofs.Combination.Blueprint
import EpsilonAutomata.Proofs.Combination.Concatenation
import EpsilonAutomata.Proofs.Combination.Iteration
import EpsilonAutomata.Proofs.Combination.Union
import EpsilonAutomata.Proofs.Invariant.Combination

/-!
The languages of options, of repetitions and of combinations of whole lists.

All of them are made of unions, concatenations and iterations, so their languages follow from those
by the laws of the algebra of languages: a union from left to right is a sum, and a concatenation
from left to right is a product. An intermediate result has as many states as its blueprint says,
which tells when there are enough states for the next step.
-/

namespace EpsilonAutomata

open scoped Computability

namespace Automaton

/-! ## Elementary automata -/

theorem language_epsilon : epsilon.language = 1 := by
  ext word
  rw [Language.mem_one]
  constructor
  · intro member
    rcases cases_of_mem_languageFrom member with ended | started
    · exact ended.2
    · rcases started with ⟨_, _, edge, _⟩
      exact absurd edge (Transitions.not_mem_empty _)
  · rintro rfl
    exact nil_mem_languageFrom (StateSet.mem_singleton.mpr rfl)

theorem language_empty : empty.language = 0 := by
  ext word
  apply iff_of_false
  · intro member
    rcases member with ⟨final, accepts, _⟩
    exact Std.ExtTreeSet.not_mem_empty accepts
  · exact Language.notMem_zero word

theorem stateCount_epsilon : epsilon.stateCount = 1 := by
  decide +kernel

/-! ## Options and repetitions -/

section

variable {inner : Automaton} (wellFormed : inner.WellFormed)

include wellFormed

theorem language_optional (room : 2 + inner.stateCount ≤ 4294967296) :
    inner.optional.language = inner.language + 1 := by
  rw [optional, language_union wellFormed wellFormed_epsilon _, language_epsilon]
  rw [stateCount_epsilon]
  omega

theorem language_plus (room : 1 + 2 * inner.stateCount ≤ 4294967296) :
    inner.plus.language = inner.language * inner.language∗ := by
  have starRoom : 1 + inner.stateCount ≤ 4294967296 := by omega
  rw [plus, language_concat wellFormed wellFormed.star _, language_star wellFormed starRoom]
  rw [stateCount_star wellFormed starRoom]
  omega

theorem accepts_optional (room : 2 + inner.stateCount ≤ 4294967296) (word : Word) :
    inner.optional.accepts word = true ↔ word = [] ∨ inner.accepts word = true := by
  rw [accepts_iff_mem_language, accepts_iff_mem_language, language_optional wellFormed room,
    Language.mem_add, Language.mem_one, or_comm]

theorem accepts_plus (room : 1 + 2 * inner.stateCount ≤ 4294967296) (word : Word) :
    inner.plus.accepts word = true ↔
      ∃ parts : List Word, parts ≠ [] ∧ word = parts.flatten ∧
        ∀ part ∈ parts, inner.accepts part = true := by
  simp only [accepts_iff_mem_language]
  rw [language_plus wellFormed room, Language.mem_mul]
  constructor
  · intro cut
    rcases cut with ⟨first, firstMember, rest, restMember, rfl⟩
    rcases Language.mem_kstar.mp restMember with ⟨parts, rfl, partMember⟩
    exact ⟨first :: parts, List.cons_ne_nil first parts, rfl,
      List.forall_mem_cons.mpr ⟨firstMember, partMember⟩⟩
  · intro cut
    rcases cut with ⟨parts, nonempty, rfl, partMember⟩
    cases parts with
    | nil => exact absurd rfl nonempty
    | cons first parts =>
        rcases List.forall_mem_cons.mp partMember with ⟨firstMember, restMember⟩
        exact ⟨first, firstMember, parts.flatten, Language.join_mem_kstar restMember, rfl⟩

end

/-! ## Lists -/

theorem mem_sum_map_language {automata : List Automaton} {word : Word} :
    word ∈ (automata.map language).sum ↔ ∃ automaton ∈ automata, word ∈ automaton.language := by
  induction automata with
  | nil => simp [Language.notMem_zero]
  | cons first rest induction =>
      rw [List.map_cons, List.sum_cons, Language.mem_add, induction, List.exists_mem_cons_iff]

theorem mem_prod_map_language {automata : List Automaton} {word : Word} :
    word ∈ (automata.map language).prod ↔
      ∃ parts : List Word, word = parts.flatten ∧
        List.Forall₂ (fun automaton part => part ∈ automaton.language) automata parts := by
  induction automata generalizing word with
  | nil => simp [Language.mem_one]
  | cons first rest induction =>
      rw [List.map_cons, List.prod_cons, Language.mem_mul]
      constructor
      · intro cut
        rcases cut with ⟨front, frontMember, back, backMember, rfl⟩
        rcases induction.mp backMember with ⟨parts, rfl, partMember⟩
        exact ⟨front :: parts, rfl, .cons frontMember partMember⟩
      · intro cut
        rcases cut with ⟨parts, rfl, partMember⟩
        rcases partMember with _ | ⟨frontMember, backMember⟩
        exact ⟨_, frontMember, _, induction.mpr ⟨_, rfl, backMember⟩, rfl⟩

/-- The sum grows by one automaton and one initial state at a time. -/
theorem language_foldl_union {first : Automaton} {rest : List Automaton}
    (firstWellFormed : first.WellFormed) (restWellFormed : ∀ next ∈ rest, next.WellFormed)
    (room : first.stateCount + (rest.map stateCount).sum + rest.length ≤ 4294967296) :
    (rest.foldl union first).language = first.language + (rest.map language).sum := by
  induction rest generalizing first with
  | nil => exact (add_zero first.language).symm
  | cons next rest induction =>
      rcases List.forall_mem_cons.mp restWellFormed with ⟨nextWellFormed, restWellFormed⟩
      rw [List.map_cons, List.sum_cons, List.length_cons] at room
      have nextRoom : 1 + first.stateCount + next.stateCount ≤ 4294967296 := by omega
      have count := stateCount_union firstWellFormed nextWellFormed nextRoom
      rw [List.foldl_cons,
        induction (firstWellFormed.union nextWellFormed) restWellFormed (by rw [count]; omega),
        language_union firstWellFormed nextWellFormed nextRoom, List.map_cons, List.sum_cons,
        add_assoc]

theorem language_foldl_concat {first : Automaton} {rest : List Automaton}
    (firstWellFormed : first.WellFormed) (restWellFormed : ∀ next ∈ rest, next.WellFormed)
    (room : first.stateCount + (rest.map stateCount).sum ≤ 4294967296) :
    (rest.foldl concat first).language = first.language * (rest.map language).prod := by
  induction rest generalizing first with
  | nil => exact (mul_one first.language).symm
  | cons next rest induction =>
      rcases List.forall_mem_cons.mp restWellFormed with ⟨nextWellFormed, restWellFormed⟩
      rw [List.map_cons, List.sum_cons] at room
      have nextRoom : first.stateCount + next.stateCount ≤ 4294967296 := by omega
      have count := stateCount_concat firstWellFormed nextWellFormed nextRoom
      rw [List.foldl_cons,
        induction (firstWellFormed.concat nextWellFormed) restWellFormed (by rw [count]; omega),
        language_concat firstWellFormed nextWellFormed nextRoom, List.map_cons, List.prod_cons,
        mul_assoc]

section

variable {automata : List Automaton} (wellFormed : ∀ automaton ∈ automata, automaton.WellFormed)

include wellFormed

theorem language_unionAll
    (room : (automata.map stateCount).sum + (automata.length - 1) ≤ 4294967296) :
    (unionAll automata).language = (automata.map language).sum := by
  cases automata with
  | nil => exact language_empty
  | cons first rest =>
      rcases List.forall_mem_cons.mp wellFormed with ⟨firstWellFormed, restWellFormed⟩
      exact language_foldl_union firstWellFormed restWellFormed room

theorem language_concatAll (room : (automata.map stateCount).sum ≤ 4294967296) :
    (concatAll automata).language = (automata.map language).prod := by
  cases automata with
  | nil => exact language_epsilon
  | cons first rest =>
      rcases List.forall_mem_cons.mp wellFormed with ⟨firstWellFormed, restWellFormed⟩
      exact language_foldl_concat firstWellFormed restWellFormed room

theorem accepts_unionAll
    (room : (automata.map stateCount).sum + (automata.length - 1) ≤ 4294967296) (word : Word) :
    (unionAll automata).accepts word = true ↔
      ∃ automaton ∈ automata, automaton.accepts word = true := by
  simp only [accepts_iff_mem_language]
  rw [language_unionAll wellFormed room, mem_sum_map_language]

theorem accepts_concatAll (room : (automata.map stateCount).sum ≤ 4294967296) (word : Word) :
    (concatAll automata).accepts word = true ↔
      ∃ parts : List Word, word = parts.flatten ∧
        List.Forall₂ (fun automaton part => automaton.accepts part = true) automata parts := by
  simp only [accepts_iff_mem_language]
  rw [language_concatAll wellFormed room, mem_prod_map_language]

end

/-- The derived combinations accept what their names say, for lists of any length, as long as there
are enough states for each step. -/
theorem accepts_derived :
    (∀ inner : Automaton, inner.WellFormed → 2 + inner.stateCount ≤ 4294967296 → ∀ word,
      (inner.optional.accepts word = true ↔ word = [] ∨ inner.accepts word = true)) ∧
    (∀ inner : Automaton, inner.WellFormed → 1 + 2 * inner.stateCount ≤ 4294967296 → ∀ word,
      (inner.plus.accepts word = true ↔
        ∃ parts : List Word, parts ≠ [] ∧ word = parts.flatten ∧
          ∀ part ∈ parts, inner.accepts part = true)) ∧
    (∀ automata : List Automaton, (∀ automaton ∈ automata, automaton.WellFormed) →
      (automata.map stateCount).sum + (automata.length - 1) ≤ 4294967296 → ∀ word,
      ((unionAll automata).accepts word = true ↔
        ∃ automaton ∈ automata, automaton.accepts word = true)) ∧
    (∀ automata : List Automaton, (∀ automaton ∈ automata, automaton.WellFormed) →
      (automata.map stateCount).sum ≤ 4294967296 → ∀ word,
      ((concatAll automata).accepts word = true ↔
        ∃ parts : List Word, word = parts.flatten ∧
          List.Forall₂ (fun automaton part => automaton.accepts part = true) automata parts)) :=
  ⟨fun _ => accepts_optional, fun _ => accepts_plus, fun _ => accepts_unionAll,
    fun _ => accepts_concatAll⟩

/-- Lists with repeats and the empty list; the repeated automaton accepts the empty word. -/
theorem accepts_derived_of_repeats :
    (symbol 'a').optional.accepts [] = true ∧
      (word ['a', 'b']).plus.accepts ['a', 'b', 'a', 'b'] = true ∧
      (unionAll []).accepts [] = false ∧
      (unionAll [symbol 'b', (symbol 'a').star, symbol 'b']).accepts ['a', 'a'] = true ∧
      (concatAll [(symbol 'a').star, symbol 'b', (symbol 'a').star]).accepts ['b', 'a', 'a'] =
        true := by
  rcases accepts_derived with ⟨option, repetition, sum, product⟩
  refine ⟨?_, ?_, ?_, ?_, ?_⟩
  · exact (option _ (by decide +kernel) (by decide +kernel) _).mpr (.inl rfl)
  · apply (repetition _ (by decide +kernel) (by decide +kernel) _).mpr
    exact ⟨[['a', 'b'], ['a', 'b']], by decide, rfl, by decide +kernel⟩
  · rw [Bool.eq_false_iff]
    intro accepts
    rcases (sum [] (by decide) (by decide) _).mp accepts with ⟨_, member, _⟩
    cases member
  · apply (sum _ (by decide +kernel) (by decide +kernel) _).mpr
    exact ⟨(symbol 'a').star, by decide +kernel, by decide +kernel⟩
  · apply (product _ (by decide +kernel) (by decide +kernel) _).mpr
    exact ⟨[[], ['b'], ['a', 'a']], rfl, by decide +kernel⟩

end Automaton

end EpsilonAutomata
