import EpsilonAutomata.Proofs.Combination.Layout
import EpsilonAutomata.Proofs.Language.Copy

/-!
The language of a union.

No edge leads out of either copy, so all their states keep their languages, and the new initial
state leads into both.
-/

namespace EpsilonAutomata

namespace Automaton

section

variable {left right : Automaton} {state : StateId} (leftWellFormed : left.WellFormed)
  (rightWellFormed : right.WellFormed)
  (room : 1 + left.stateCount + right.stateCount ≤ 4294967296)

include leftWellFormed rightWellFormed room

theorem copy_union_left : Copy (left.union right) left left.behindHub fun _ => False := by
  have leftRoom : 1 + left.stateCount ≤ 4294967296 := by omega
  apply Copy.of_separates leftWellFormed (separates_behindHub leftRoom)
  case copied =>
    intro edge member
    exact mem_transitions_union.mpr (.inl ⟨edge, member, rfl⟩)
  case others =>
    intro edge member
    rcases mem_transitions_union.mp member with inLeft | inRight | rfl | rfl
    · exact .inl inLeft
    · rcases inRight with ⟨original, originalMember, rfl⟩
      have sourceMember := rightWellFormed.source_mem original originalMember
      exact .inr (.inr
        (behindHub_avoids_unionRight rightWellFormed.stateCount_pos room sourceMember))
    · exact .inr (.inr (behindHub_avoids_first leftRoom))
    · exact .inr (.inr (behindHub_avoids_first leftRoom))

theorem copy_union_right :
    Copy (left.union right) right (left.unionRight right) fun _ => False := by
  have nonempty := rightWellFormed.stateCount_pos
  apply Copy.of_separates rightWellFormed (separates_unionRight nonempty room)
  case copied =>
    intro edge member
    exact mem_transitions_union.mpr (.inr (.inl ⟨edge, member, rfl⟩))
  case others =>
    intro edge member
    rcases mem_transitions_union.mp member with inLeft | inRight | rfl | rfl
    · rcases inLeft with ⟨original, originalMember, rfl⟩
      have sourceMember := leftWellFormed.source_mem original originalMember
      exact .inr (.inr (unionRight_avoids_behindHub nonempty room sourceMember))
    · exact .inl inRight
    · exact .inr (.inr (unionRight_avoids_first nonempty room))
    · exact .inr (.inr (unionRight_avoids_first nonempty room))

theorem behindHub_mem_accepting_union (member : state ∈ left.states) :
    left.behindHub state ∈ (left.union right).accepting ↔ state ∈ left.accepting := by
  have separates : left.Separates left.behindHub := separates_behindHub (by omega)
  rw [mem_accepting_union, exists_accepting_image_iff leftWellFormed separates member]
  apply or_iff_left
  apply not_exists_accepting_image rightWellFormed
  exact unionRight_avoids_behindHub rightWellFormed.stateCount_pos room member

theorem unionRight_mem_accepting_union (member : state ∈ right.states) :
    left.unionRight right state ∈ (left.union right).accepting ↔ state ∈ right.accepting := by
  have nonempty := rightWellFormed.stateCount_pos
  have separates := separates_unionRight nonempty room
  rw [mem_accepting_union, exists_accepting_image_iff rightWellFormed separates member]
  apply or_iff_right
  apply not_exists_accepting_image leftWellFormed
  exact behindHub_avoids_unionRight nonempty room member

theorem first_not_mem_accepting_union : .first ∉ (left.union right).accepting := by
  have leftAvoids : left.Avoids left.behindHub .first := behindHub_avoids_first (by omega)
  have rightAvoids := unionRight_avoids_first rightWellFormed.stateCount_pos room
  rw [mem_accepting_union]
  exact not_or.mpr ⟨not_exists_accepting_image leftWellFormed leftAvoids,
    not_exists_accepting_image rightWellFormed rightAvoids⟩

theorem languageFrom_union_left (member : state ∈ left.states) :
    (left.union right).languageFrom (left.behindHub state) = left.languageFrom state :=
  (copy_union_left leftWellFormed rightWellFormed room).languageFrom_eq leftWellFormed
    (fun _ => behindHub_mem_accepting_union leftWellFormed rightWellFormed room) member

theorem languageFrom_union_right (member : state ∈ right.states) :
    (left.union right).languageFrom (left.unionRight right state) = right.languageFrom state :=
  (copy_union_right leftWellFormed rightWellFormed room).languageFrom_eq rightWellFormed
    (fun _ => unionRight_mem_accepting_union leftWellFormed rightWellFormed room) member

theorem edge_from_first_union {symbol : Symbol} {target : StateId}
    (edge : (⟨.first, symbol, target⟩ : Edge) ∈ (left.union right).transitions) :
    symbol = .epsilon ∧
      (target = left.behindHub left.initial ∨ target = left.unionRight right right.initial) := by
  have leftAvoids : left.Avoids left.behindHub .first := behindHub_avoids_first (by omega)
  have rightAvoids := unionRight_avoids_first rightWellFormed.stateCount_pos room
  rcases mem_transitions_union.mp edge with inLeft | inRight | toLeft | toRight
  · exact absurd inLeft (not_exists_relabel leftWellFormed leftAvoids)
  · exact absurd inRight (not_exists_relabel rightWellFormed rightAvoids)
  · cases toLeft
    exact ⟨rfl, .inl rfl⟩
  · cases toRight
    exact ⟨rfl, .inr rfl⟩

theorem language_union : (left.union right).language = left.language + right.language := by
  have leftLanguage :=
    languageFrom_union_left leftWellFormed rightWellFormed room leftWellFormed.initial_mem
  have rightLanguage :=
    languageFrom_union_right leftWellFormed rightWellFormed room rightWellFormed.initial_mem
  apply le_antisymm
  · intro word member
    rcases cases_of_mem_languageFrom member with ended | started
    · exact absurd ended.1 (first_not_mem_accepting_union leftWellFormed rightWellFormed room)
    · rcases started with ⟨symbol, target, edge, rest, restMember, rfl⟩
      rcases edge_from_first_union leftWellFormed rightWellFormed room edge with
        ⟨rfl, rfl | rfl⟩
      · rw [leftLanguage] at restMember
        exact .inl restMember
      · rw [rightLanguage] at restMember
        exact .inr restMember
  · rw [language, language, ← leftLanguage, ← rightLanguage]
    apply add_le
    · exact languageFrom_le_of_epsilon
        (mem_transitions_union.mpr (.inr (.inr (.inl rfl))))
    · exact languageFrom_le_of_epsilon
        (mem_transitions_union.mpr (.inr (.inr (.inr rfl))))

end

/-- The union accepts what either automaton accepts. -/
theorem accepts_union {left right : Automaton} (leftWellFormed : left.WellFormed)
    (rightWellFormed : right.WellFormed)
    (room : 1 + left.stateCount + right.stateCount ≤ 4294967296) (word : Word) :
    (left.union right).accepts word = (left.accepts word || right.accepts word) := by
  rw [Bool.eq_iff_iff, Bool.or_eq_true]
  simp only [accepts_iff_mem_language]
  rw [language_union leftWellFormed rightWellFormed room, Language.mem_add]

/-- The two automata have states in common, and the first has a cycle of epsilon edges. -/
theorem accepts_union_of_overlap :
    ((symbol 'a').star.star.union (word ['b', 'a'])).accepts ['b', 'a'] = true ∧
      ((symbol 'a').star.star.union (word ['b', 'a'])).accepts ['a', 'b'] = false := by
  rw [accepts_union (by decide +kernel) (by decide +kernel) (by decide +kernel),
    accepts_union (by decide +kernel) (by decide +kernel) (by decide +kernel)]
  decide +kernel

end Automaton

end EpsilonAutomata
