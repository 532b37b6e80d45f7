import EpsilonAutomata.Proofs.Additions
import EpsilonAutomata.Proofs.Simulation

/-!
What is in an alphabet, and why.

A character gets into the alphabet of a draft in two ways: it is declared, or it labels an edge.
Edges are moved when a state is renamed, but they keep their labels and are never removed, so a
character that came with an edge labels one for good. This is kept along a run of edits as a relation
between the draft at its start and the draft at its end (`Draft.TakesUp`). A closed alphabet takes up
no character with an edge.
-/

namespace EpsilonAutomata

/-- Some edge of the draft is labelled by the character. -/
def Draft.Uses (draft : Draft) (character : Char) : Prop :=
  ∃ edge ∈ draft.transitions, edge.symbol = .literal character

namespace Draft

variable {draft middle next later : Draft} {edit : Edit} {edits front back : List Edit}
  {character : Char} {source : StateId} {symbol : Symbol} {targets : StateSet}

theorem WellFormed.mem_alphabet_of_uses (wellFormed : draft.WellFormed)
    (used : draft.Uses character) : character ∈ draft.alphabet := by
  rcases used with ⟨edge, member, label⟩
  exact wellFormed.literal_mem edge member character label

/-! ## Labels of new and moved edges -/

theorem mem_alphabet_join :
    character ∈ (draft.join source symbol targets).alphabet ↔
      character ∈ draft.alphabet ∨ symbol = .literal character ∧ ∃ target, target ∈ targets :=
  @has_gain draft (.edges source symbol targets) (.character character)

theorem uses_join :
    (draft.join source symbol targets).Uses character ↔
      draft.Uses character ∨ symbol = .literal character ∧ ∃ target, target ∈ targets := by
  simp only [Uses, join, Transitions.mem_add]
  constructor
  · rintro ⟨edge, old | ⟨_, rfl, target⟩, label⟩
    · exact .inl ⟨edge, old, label⟩
    · exact .inr ⟨label, edge.target, target⟩
  · rintro (⟨edge, old, label⟩ | ⟨label, target, member⟩)
    · exact ⟨edge, .inl old, label⟩
    · exact ⟨⟨source, symbol, target⟩, .inr ⟨rfl, rfl, member⟩, label⟩

theorem uses_relabel (transform : StateId → StateId) :
    (draft.relabel transform).Uses character ↔ draft.Uses character := by
  simp only [Uses, relabel, Transitions.mem_relabel]
  constructor
  · rintro ⟨_, ⟨edge, member, rfl⟩, label⟩
    exact ⟨edge, member, label⟩
  · rintro ⟨edge, member, label⟩
    exact ⟨edge.relabel transform, ⟨edge, member, rfl⟩, label⟩

/-! ## From one draft to a later one -/

/-- The edits lead from the draft to the later one, as far as labels and alphabets are concerned. -/
structure TakesUp (draft : Draft) (edits : List Edit) (later : Draft) : Prop where
  closedAlphabet : later.closedAlphabet = draft.closedAlphabet
  uses : ∀ character, draft.Uses character → later.Uses character
  alphabet : ∀ character, character ∈ later.alphabet ↔
    character ∈ draft.alphabet ∨ .declare character ∈ edits ∨ later.Uses character
  closed : draft.closedAlphabet = true → ∀ character ∈ later.alphabet,
    character ∈ draft.alphabet ∨ .declare character ∈ edits

namespace TakesUp

/-- Edits that declare nothing, and a draft with the same alphabet and the same labels. -/
theorem of_same (wellFormed : draft.WellFormed)
    (declaresNone : ∀ character, .declare character ∉ edits)
    (closedAlphabet : later.closedAlphabet = draft.closedAlphabet)
    (alphabet : later.alphabet = draft.alphabet)
    (uses : ∀ character, later.Uses character ↔ draft.Uses character) :
    draft.TakesUp edits later where
  closedAlphabet := closedAlphabet
  uses character := (uses character).mpr
  alphabet character := by
    rw [alphabet, uses, or_iff_right (declaresNone character)]
    exact (or_iff_left_of_imp wellFormed.mem_alphabet_of_uses).symm
  closed _ _ member := .inl (alphabet ▸ member)

theorem refl (wellFormed : draft.WellFormed) : draft.TakesUp [] draft :=
  .of_same wellFormed (fun _ => List.not_mem_nil) rfl rfl fun _ => Iff.rfl

theorem trans (first : draft.TakesUp front middle) (second : middle.TakesUp back later) :
    draft.TakesUp (front ++ back) later where
  closedAlphabet := second.closedAlphabet.trans first.closedAlphabet
  uses character used := second.uses character (first.uses character used)
  alphabet character := by
    have kept := second.uses character
    rw [second.alphabet, first.alphabet, List.mem_append]
    grind
  closed isClosed character member := by
    rw [List.mem_append, ← or_assoc]
    rcases second.closed (first.closedAlphabet.trans isClosed) character member with known | declared
    · exact .inl (first.closed isClosed character known)
    · exact .inr declared

theorem declare (wellFormed : draft.WellFormed) (declared : Char) :
    draft.TakesUp [.declare declared] (draft.declare declared) := by
  have member (character : Char) : character ∈ (draft.declare declared).alphabet ↔
      character ∈ draft.alphabet ∨ .declare character ∈ [Edit.declare declared] := by
    have inserted := @Alphabet.mem_insertSymbol draft.alphabet (.literal declared) character
    rw [Symbol.literal.injEq] at inserted
    rw [List.mem_singleton, Edit.declare.injEq, or_comm, @eq_comm _ character]
    exact inserted
  refine ⟨rfl, fun _ used => used, fun character => ?_, fun _ character => (member character).mp⟩
  rw [← or_assoc, ← member]
  exact (or_iff_left_of_imp (wellFormed.declare declared).mem_alphabet_of_uses).symm

/-- The label of new edges was in the alphabet before if that is closed, and otherwise gets there as
the edges are added. -/
theorem join (wellFormed : draft.WellFormed) (notForeign : draft.foreign? symbol = none) :
    draft.TakesUp [.addTransition source symbol targets] (draft.join source symbol targets) where
  closedAlphabet := rfl
  uses character used := uses_join.mpr (.inl used)
  alphabet character := by
    have known := @WellFormed.mem_alphabet_of_uses draft character wellFormed
    rw [mem_alphabet_join, uses_join]
    simp only [List.mem_singleton, reduceCtorEq, false_or]
    rw [← or_assoc, or_iff_left_of_imp known]
  closed isClosed character member := by
    rcases mem_alphabet_join.mp member with old | ⟨label, _⟩
    · exact .inl old
    · exact .inl (foreign?_eq_none_iff.mp notForeign isClosed character label)

theorem perform (wellFormed : draft.WellFormed) (succeeds : draft.perform edit = .ok next) :
    draft.TakesUp [edit] next := by
  cases edit with
  | declare character =>
      cases succeeds
      exact declare wellFormed character
  | addState state =>
      rcases addState_eq_ok_iff.mp succeeds with ⟨_, rfl⟩
      exact of_same wellFormed (by simp) rfl rfl fun _ => Iff.rfl
  | addNextState =>
      rcases perform_addNextState_eq_ok_iff.mp succeeds with ⟨_, _, rfl⟩
      exact of_same wellFormed (by simp) rfl rfl fun _ => Iff.rfl
  | setInitial state =>
      rcases setInitial_eq_ok_iff.mp succeeds with ⟨_, rfl⟩
      exact of_same wellFormed (by simp) rfl rfl fun _ => Iff.rfl
  | addAccepting state =>
      rcases addAccepting_eq_ok_iff.mp succeeds with ⟨_, rfl⟩
      exact of_same wellFormed (by simp) rfl rfl fun _ => Iff.rfl
  | addTransition source symbol targets =>
      rcases addTransition_eq_ok_iff.mp succeeds with ⟨_, _, notForeign, rfl⟩
      exact join wellFormed notForeign
  | renameState old new =>
      rcases (renameState_eq_ok_iff.mp succeeds).2 with ⟨_, rfl⟩ | ⟨_, _, rfl⟩
      · exact of_same wellFormed (by simp) rfl rfl fun _ => Iff.rfl
      · exact of_same wellFormed (by simp) rfl rfl fun _ => uses_relabel _

end TakesUp

/-- An edit that fails declares nothing, since a declaration always succeeds. -/
theorem takesUp_apply (wellFormed : draft.WellFormed) (edit : Edit) :
    draft.TakesUp [edit] (draft.apply edit) := by
  rw [apply]
  cases outcome : draft.perform edit with
  | error failure =>
      have declaresNone : ∀ character, .declare character ∉ [edit] := by
        intro character declared
        rw [← List.mem_singleton.mp declared] at outcome
        cases outcome
      exact .of_same wellFormed declaresNone rfl rfl fun _ => Iff.rfl
  | ok next => exact .perform wellFormed outcome

theorem takesUp_applyAll (wellFormed : draft.WellFormed) (edits : List Edit) :
    draft.TakesUp edits (draft.applyAll edits) := by
  induction edits generalizing draft with
  | nil => exact .refl wellFormed
  | cons edit rest induction =>
      exact (takesUp_apply wellFormed edit).trans (induction (wellFormed.apply edit))

end Draft

/-! ## Words with other characters -/

theorem Path.exists_edge_of_mem {transitions : Transitions} {source target : StateId}
    {symbol : Symbol} {symbols : List Symbol} (path : Path transitions source symbols target)
    (member : symbol ∈ symbols) : ∃ edge ∈ transitions, edge.symbol = symbol := by
  induction path with
  | nil state => cases member
  | cons edge _ induction =>
      rcases List.mem_cons.mp member with rfl | later
      · exact ⟨_, edge, rfl⟩
      · exact induction later

namespace Automaton

variable {automaton : Automaton} {source target : StateId} {word : Word} {character : Char}

theorem Reads.mem_alphabet (reads : automaton.Reads source word target)
    (wellFormed : automaton.WellFormed) (member : character ∈ word) :
    character ∈ automaton.alphabet := by
  rcases reads with ⟨symbols, path, rfl⟩
  rcases List.mem_filterMap.mp member with ⟨symbol, listed, spelled⟩
  rcases path.exists_edge_of_mem listed with ⟨edge, edgeMember, rfl⟩
  exact wellFormed.literal_mem edge edgeMember character (Symbol.character?_eq_some_iff.mp spelled)

theorem extended_eq_empty_of_foreign (wellFormed : automaton.WellFormed) (member : character ∈ word)
    (foreign : character ∉ automaton.alphabet) (states : StateSet) :
    automaton.simulator.extended states word = ∅ := by
  rw [Std.ExtTreeSet.eq_empty_iff_forall_not_mem]
  intro target reached
  rcases mem_extended_iff.mp reached with ⟨source, _, reads⟩
  exact foreign (reads.mem_alphabet wellFormed member)

theorem not_acceptsFrom_of_foreign (wellFormed : automaton.WellFormed) (member : character ∈ word)
    (foreign : character ∉ automaton.alphabet) (state : StateId) :
    automaton.simulator.acceptsFrom state word = false := by
  rw [Bool.eq_false_iff, ne_eq, acceptsFrom_iff]
  rintro ⟨target, _, reads⟩
  exact foreign (reads.mem_alphabet wellFormed member)

end Automaton

namespace InPlace

theorem takesUp_afterAll {draft : Draft} (wellFormed : draft.WellFormed) (edits : List Edit) :
    draft.TakesUp edits (afterAll edits draft) :=
  afterAll_eq_applyAll wellFormed edits ▸ draft.takesUp_applyAll wellFormed edits

/-- After any edits, whether they succeed or not, the alphabet consists of what it was at the start,
of what was declared, and of the labels of the edges there are. At the start it is empty, or it is
the alphabet of an automaton that is opened again, or it is closed, and then the labels add nothing.
A word with a character that is not in the alphabet of what is built leads to no state, and is
accepted from none. -/
theorem alphabet_exact (edits : List Edit) :
    (∀ character, character ∈ (afterAll edits .blank).alphabet ↔
      .declare character ∈ edits ∨ (afterAll edits .blank).Uses character) ∧
    (∀ declared character,
      (character ∈ (afterAll edits (.withAlphabet declared)).alphabet ↔
        character ∈ declared ∨ .declare character ∈ edits) ∧
      ((afterAll edits (.withAlphabet declared)).Uses character →
        character ∈ (afterAll edits (.withAlphabet declared)).alphabet)) ∧
    (∀ automaton : Automaton, automaton.WellFormed → ∀ character,
      character ∈ (afterAll edits (.ofAutomaton automaton)).alphabet ↔
        character ∈ automaton.alphabet ∨ .declare character ∈ edits ∨
          (afterAll edits (.ofAutomaton automaton)).Uses character) ∧
    ∀ start : Draft, start.WellFormed → ∀ automaton, (afterAll edits start).build = .ok automaton →
      ∀ word : Word, ∀ character ∈ word, character ∉ automaton.alphabet →
        (∀ states, automaton.simulator.extended states word = ∅) ∧
        ∀ state, automaton.simulator.acceptsFrom state word = false := by
  refine ⟨fun character => ?_, fun declared character => ?_, fun automaton wellFormed => ?_, ?_⟩
  · have takesUp := takesUp_afterAll Draft.wellFormed_blank edits
    rw [takesUp.alphabet]
    exact or_iff_right Std.ExtTreeSet.not_mem_empty
  · have takesUp := takesUp_afterAll (Draft.wellFormed_withAlphabet declared) edits
    have atStart : character ∈ (Draft.withAlphabet declared).alphabet ↔ character ∈ declared :=
      Alphabet.mem_ofList
    rw [← atStart]
    refine ⟨⟨takesUp.closed rfl character, fun either => ?_⟩, fun used => ?_⟩
    · exact (takesUp.alphabet character).mpr (or_assoc.mp (.inl either))
    · exact (takesUp.alphabet character).mpr (.inr (.inr used))
  · exact (takesUp_afterAll (Draft.wellFormed_ofAutomaton_iff.mpr wellFormed) edits).alphabet
  · intro start startWellFormed automaton builds word character member foreign
    rw [afterAll_eq_applyAll startWellFormed] at builds
    have wellFormed := Automaton.wellFormed_of_build (startWellFormed.applyAll edits) builds
    exact ⟨automaton.extended_eq_empty_of_foreign wellFormed member foreign,
      automaton.not_acceptsFrom_of_foreign wellFormed member foreign⟩

/-- Of five characters one labels an edge and one is declared. One comes with no targets, and two
come with edges that are refused. -/
def labellings : List Edit :=
  [.addTransition .first (.literal 'b') {.first}, .addTransition .first (.literal 'c') ∅,
    .declare 'd', .addTransition .first (.literal 'e') {.last},
    .addTransition .last (.literal 'f') {.first}, .renameState .first (.next (.next .first))]

theorem alphabet_exact_labellings :
    let later := afterAll labellings (.ofAutomaton (.symbol 'a'))
    (Automaton.symbol 'a').WellFormed ∧ later.Uses 'b' ∧ 'd' ∈ later.alphabet ∧
      'd' ∈ (afterAll labellings (.withAlphabet ['a'])).alphabet ∧
      'b' ∉ (afterAll labellings (.withAlphabet ['a'])).alphabet ∧
      ∃ automaton, later.build = .ok automaton ∧ 'c' ∉ automaton.alphabet ∧
        ∀ states, automaton.simulator.extended states ['a', 'c'] = ∅ := by
  intro later
  rcases alphabet_exact labellings with ⟨_, closed, reopened, foreign⟩
  have wellFormed : (Automaton.symbol 'a').WellFormed := by decide +kernel
  have known : ∀ character, .declare character ∈ labellings ↔ character = 'd' := by
    simp [labellings]
  have used : later.Uses 'b' := by
    have member : 'b' ∈ later.alphabet := by decide +kernel
    rcases (reopened _ wellFormed 'b').mp member with old | declared | used
    · exact absurd old (by decide +kernel)
    · exact absurd ((known 'b').mp declared) (by decide)
    · exact used
  have declared := (known 'd').mpr rfl
  have refused : 'b' ∉ (afterAll labellings (.withAlphabet ['a'])).alphabet := by
    rw [(closed ['a'] 'b').1, known]
    decide
  have complete : later.build.toOption.isSome = true := by decide +kernel
  rcases Option.isSome_iff_exists.mp complete with ⟨automaton, built⟩
  have builds : later.build = .ok automaton := Draft.toOption_eq_some_iff.mp built
  have sameAlphabet : later.alphabet = automaton.alphabet :=
    congrArg Draft.alphabet (Draft.build_eq_ok_iff.mp builds)
  have notInAlphabet : 'c' ∉ automaton.alphabet := by
    rw [← sameAlphabet]
    decide +kernel
  have atStart := Draft.wellFormed_ofAutomaton_iff.mpr wellFormed
  have silent := (foreign _ atStart automaton builds ['a', 'c'] 'c' (by simp) notInAlphabet).1
  exact ⟨wellFormed, used, (reopened _ wellFormed 'd').mpr (.inr (.inl declared)),
    (closed ['a'] 'd').1.mpr (.inr declared), refused, automaton, builds, notInAlphabet, silent⟩

end InPlace

end EpsilonAutomata
