import EpsilonAutomata.Proofs.Combination.Layout
import EpsilonAutomata.Proofs.Language.Copy

/-!
The language of a concatenation.

The first copy is left only from its accepting states, and only for the initial state of the second
copy, which is never left. As the second copy keeps its languages, what can be read from a state of
the first copy is a word of that state followed by a word of the second automaton.
-/

namespace EpsilonAutomata

namespace Automaton

section

variable {left right : Automaton} {state : StateId} (leftWellFormed : left.WellFormed)
  (rightWellFormed : right.WellFormed)
  (room : left.stateCount + right.stateCount ≤ 4294967296)

include leftWellFormed rightWellFormed room

theorem copy_concat_left :
    Copy (left.concat right) left left.concatLeft (· = left.concatRight right right.initial) := by
  apply Copy.of_separates leftWellFormed (separates_concatLeft room)
  case copied =>
    intro edge member
    exact mem_transitions_concat.mpr (.inl ⟨edge, member, rfl⟩)
  case others =>
    intro edge member
    rcases mem_transitions_concat.mp member with inLeft | inRight | joins
    · exact .inl inLeft
    · rcases inRight with ⟨original, originalMember, rfl⟩
      have sourceMember := rightWellFormed.source_mem original originalMember
      exact .inr (.inr
        (concatLeft_avoids_concatRight rightWellFormed.stateCount_pos room sourceMember))
    · rcases joins with ⟨final, accepts, rfl⟩
      exact .inr (.inl ⟨final, accepts, _, rfl, rfl⟩)

theorem copy_concat_right :
    Copy (left.concat right) right (left.concatRight right) fun _ => False := by
  have nonempty := rightWellFormed.stateCount_pos
  apply Copy.of_separates rightWellFormed (separates_concatRight nonempty room)
  case copied =>
    intro edge member
    exact mem_transitions_concat.mpr (.inr (.inl ⟨edge, member, rfl⟩))
  case others =>
    intro edge member
    rcases mem_transitions_concat.mp member with inLeft | inRight | joins
    · rcases inLeft with ⟨original, originalMember, rfl⟩
      have sourceMember := leftWellFormed.source_mem original originalMember
      exact .inr (.inr (concatRight_avoids_concatLeft nonempty room sourceMember))
    · exact .inl inRight
    · rcases joins with ⟨final, accepts, rfl⟩
      have finalMember := leftWellFormed.accepting_subset final accepts
      exact .inr (.inr (concatRight_avoids_concatLeft nonempty room finalMember))

omit leftWellFormed in
theorem concatLeft_not_mem_accepting_concat (member : state ∈ left.states) :
    left.concatLeft state ∉ (left.concat right).accepting := by
  rw [mem_accepting_concat]
  apply not_exists_accepting_image rightWellFormed
  exact concatRight_avoids_concatLeft rightWellFormed.stateCount_pos room member

omit leftWellFormed in
theorem concatRight_mem_accepting_concat (member : state ∈ right.states) :
    left.concatRight right state ∈ (left.concat right).accepting ↔ state ∈ right.accepting := by
  have separates := separates_concatRight rightWellFormed.stateCount_pos room
  rw [mem_accepting_concat]
  exact exists_accepting_image_iff rightWellFormed separates member

theorem languageFrom_concat_right (member : state ∈ right.states) :
    (left.concat right).languageFrom (left.concatRight right state) = right.languageFrom state :=
  (copy_concat_right leftWellFormed rightWellFormed room).languageFrom_eq rightWellFormed
    (fun _ => concatRight_mem_accepting_concat rightWellFormed room) member

theorem languageFrom_concat_left (member : state ∈ left.states) :
    (left.concat right).languageFrom (left.concatLeft state) =
      left.languageFrom state * right.language := by
  have rightLanguage :=
    languageFrom_concat_right leftWellFormed rightWellFormed room rightWellFormed.initial_mem
  apply (copy_concat_left leftWellFormed rightWellFormed room).languageFrom_eq_mul leftWellFormed
    _ _ _ member
  · intro other otherMember accepts
    exact absurd accepts
      (concatLeft_not_mem_accepting_concat rightWellFormed room otherMember)
  · intro exit isInitial
    rw [isInitial, rightLanguage]
    exact le_refl right.language
  · intro final accepts
    rw [language, ← rightLanguage]
    apply languageFrom_le_of_epsilon
    exact mem_transitions_concat.mpr (.inr (.inr ⟨final, accepts, rfl⟩))

theorem language_concat : (left.concat right).language = left.language * right.language :=
  languageFrom_concat_left leftWellFormed rightWellFormed room leftWellFormed.initial_mem

end

/-- The concatenation accepts what can be cut into a word of the first automaton and a word of the
second. -/
theorem accepts_concat {left right : Automaton} (leftWellFormed : left.WellFormed)
    (rightWellFormed : right.WellFormed)
    (room : left.stateCount + right.stateCount ≤ 4294967296) (word : Word) :
    (left.concat right).accepts word = true ↔
      ∃ front back, word = front ++ back ∧
        left.accepts front = true ∧ right.accepts back = true := by
  rw [accepts_iff_mem_language, language_concat leftWellFormed rightWellFormed room,
    Language.mem_mul]
  simp only [accepts_iff_mem_language]
  constructor
  · intro cut
    rcases cut with ⟨front, frontMember, back, backMember, spelling⟩
    exact ⟨front, back, spelling.symm, frontMember, backMember⟩
  · intro cut
    rcases cut with ⟨front, back, spelling, frontMember, backMember⟩
    exact ⟨front, frontMember, back, backMember, spelling.symm⟩

/-- Both automata are the same, and their accepting states have edges to other states. -/
theorem accepts_concat_of_equal :
    let half := (word ['a', 'b']).star
    (half.concat half).accepts ['a', 'b', 'a', 'b'] = true ∧
      (half.concat half).accepts ['a', 'b', 'a'] = false ∧
      ¬∃ front back, ['a', 'b', 'a'] = front ++ back ∧
        half.accepts front = true ∧ half.accepts back = true := by
  intro half
  have wellFormed : half.WellFormed := by decide +kernel
  have law := accepts_concat wellFormed wellFormed (by decide +kernel)
  have refused : (half.concat half).accepts ['a', 'b', 'a'] = false := by decide +kernel
  refine ⟨?_, refused, ?_⟩
  · exact (law _).mpr ⟨['a', 'b'], ['a', 'b'], rfl, by decide +kernel, by decide +kernel⟩
  · rw [← law, refused]
    exact Bool.false_ne_true

end Automaton

end EpsilonAutomata
