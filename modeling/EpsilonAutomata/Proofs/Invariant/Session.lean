import EpsilonAutomata.EdgeTable
import EpsilonAutomata.Proofs.InPlace
import EpsilonAutomata.Proofs.Invariant.Combination
import EpsilonAutomata.Proofs.Serialization
import EpsilonAutomata.Session

/-!
Every automaton that is ever made is well formed.

However the ways to make and change automata are mixed, each works on what earlier calls left
behind. So the invariant speaks of a whole session: all its automata and all its drafts are well
formed. Every recipe makes a well-formed automaton from those of a session (`WellFormed.make?`), and
so every call keeps the invariant (`WellFormed.perform`) and every run has it (`wellFormed_run`). As
a well-formed automaton can be loaded from its record, well-formed automata are all that can be made
and all of them can (`wellFormed_iff_made`).
-/

namespace EpsilonAutomata

structure Session.WellFormed (session : Session) : Prop where
  automata : ∀ automaton ∈ session.automata, automaton.WellFormed
  drafts : ∀ draft ∈ session.drafts, draft.WellFormed

namespace Session

variable {session : Session} {automaton : Automaton} {draft : Draft} {position : Nat}

theorem wellFormed_blank : blank.WellFormed :=
  ⟨nofun, nofun⟩

namespace WellFormed

/-! ## What the positions stand for -/

theorem automaton_at (wellFormed : session.WellFormed)
    (present : session.automata[position]? = some automaton) : automaton.WellFormed :=
  wellFormed.automata automaton (List.mem_of_getElem? present)

theorem draft_at (wellFormed : session.WellFormed)
    (present : session.drafts[position]? = some draft) : draft.WellFormed :=
  wellFormed.drafts draft (List.mem_of_getElem? present)

theorem parts (wellFormed : session.WellFormed) {positions : List Nat} :
    ∀ automaton ∈ positions.filterMap (session.automata[·]?), automaton.WellFormed := by
  intro automaton member
  rcases List.mem_filterMap.mp member with ⟨position, _, present⟩
  exact wellFormed.automaton_at present

theorem map_automaton_at (wellFormed : session.WellFormed) {operation : Automaton → Automaton}
    (keeps : ∀ {inner : Automaton}, inner.WellFormed → (operation inner).WellFormed)
    (makes : session.automata[position]?.map operation = some automaton) :
    automaton.WellFormed := by
  rcases Option.map_eq_some_iff.mp makes with ⟨inner, present, rfl⟩
  exact keeps (wellFormed.automaton_at present)

theorem combine_automata_at (wellFormed : session.WellFormed)
    {operation : Automaton → Automaton → Automaton}
    (keeps : ∀ {left right : Automaton}, left.WellFormed → right.WellFormed →
      (operation left right).WellFormed) {leftPosition rightPosition : Nat}
    (makes : (do
      let left ← session.automata[leftPosition]?
      let right ← session.automata[rightPosition]?
      return operation left right) = some automaton) : automaton.WellFormed := by
  rcases Option.bind_eq_some_iff.mp makes with ⟨left, leftPresent, makes⟩
  rcases Option.bind_eq_some_iff.mp makes with ⟨right, rightPresent, makes⟩
  cases makes
  exact keeps (wellFormed.automaton_at leftPresent) (wellFormed.automaton_at rightPresent)

/-! ## Steps -/

theorem make? (wellFormed : session.WellFormed) {recipe : Recipe}
    (makes : session.make? recipe = some automaton) : automaton.WellFormed := by
  cases recipe with
  | epsilon =>
      cases makes
      exact Automaton.wellFormed_epsilon
  | empty =>
      cases makes
      exact Automaton.wellFormed_empty
  | symbol character =>
      cases makes
      exact Automaton.wellFormed_word [character]
  | word letters =>
      cases makes
      exact Automaton.wellFormed_word letters
  | ofEdges initial edges accepting =>
      exact Automaton.wellFormed_of_ofEdges (Draft.toOption_eq_some_iff.mp makes)
  | load record => exact Automaton.wellFormed_of_toAutomaton (Draft.toOption_eq_some_iff.mp makes)
  | readJson input => exact Automaton.wellFormed_of_readJson (Draft.toOption_eq_some_iff.mp makes)
  | union left right => exact wellFormed.combine_automata_at Automaton.WellFormed.union makes
  | concat left right => exact wellFormed.combine_automata_at Automaton.WellFormed.concat makes
  | star inner => exact wellFormed.map_automaton_at Automaton.WellFormed.star makes
  | optional inner => exact wellFormed.map_automaton_at Automaton.WellFormed.optional makes
  | plus inner => exact wellFormed.map_automaton_at Automaton.WellFormed.plus makes
  | unionAll positions =>
      cases makes
      exact Automaton.WellFormed.unionAll wellFormed.parts
  | concatAll positions =>
      cases makes
      exact Automaton.WellFormed.concatAll wellFormed.parts
  | trimmed source => exact wellFormed.map_automaton_at Automaton.WellFormed.trimmed makes
  | renumbered source start =>
      rcases Option.bind_eq_some_iff.mp makes with ⟨inner, present, succeeds⟩
      exact (wellFormed.automaton_at present).renumbered succeeds
  | build position =>
      rcases Option.bind_eq_some_iff.mp makes with ⟨draft, present, builds⟩
      exact Automaton.wellFormed_of_build (wellFormed.draft_at present)
        (Draft.toOption_eq_some_iff.mp builds)

theorem keep (wellFormed : session.WellFormed) (made : automaton.WellFormed) :
    (session.keep automaton).WellFormed where
  automata := List.forall_mem_append.mpr ⟨wellFormed.automata, List.forall_mem_singleton.mpr made⟩
  drafts := wellFormed.drafts

theorem openDraft (wellFormed : session.WellFormed) (opened : draft.WellFormed) :
    (session.openDraft draft).WellFormed where
  automata := wellFormed.automata
  drafts := List.forall_mem_append.mpr ⟨wellFormed.drafts, List.forall_mem_singleton.mpr opened⟩

theorem setDraft (wellFormed : session.WellFormed) (changed : draft.WellFormed) (position : Nat) :
    WellFormed { session with drafts := session.drafts.set position draft } where
  automata := wellFormed.automata
  drafts other member := by
    rcases List.mem_or_eq_of_mem_set member with unchanged | rfl
    · exact wellFormed.drafts other unchanged
    · exact changed

theorem perform (wellFormed : session.WellFormed) (call : Call) :
    (session.perform call).WellFormed := by
  cases call with
  | make recipe =>
      rw [Session.perform]
      cases makes : session.make? recipe with
      | none => exact wellFormed
      | some automaton => exact wellFormed.keep (wellFormed.make? makes)
  | openBlank => exact wellFormed.openDraft Draft.wellFormed_blank
  | openWithAlphabet characters =>
      exact wellFormed.openDraft (Draft.wellFormed_withAlphabet characters)
  | reopen position =>
      rw [Session.perform]
      cases present : session.automata[position]? with
      | none => exact wellFormed
      | some automaton =>
          exact wellFormed.openDraft
            (Draft.wellFormed_ofAutomaton_iff.mpr (wellFormed.automaton_at present))
  | edit position edit =>
      rw [Session.perform]
      cases present : session.drafts[position]? with
      | none => exact wellFormed
      | some draft =>
          have before := wellFormed.draft_at present
          have after : ((InPlace.perform edit).on draft).2.WellFormed := by
            rw [InPlace.after_perform before]
            exact before.apply edit
          exact wellFormed.setDraft after position

theorem foldl_perform (wellFormed : session.WellFormed) (calls : List Call) :
    (calls.foldl Session.perform session).WellFormed := by
  induction calls generalizing session with
  | nil => exact wellFormed
  | cons call calls induction => exact induction (wellFormed.perform call)

end WellFormed

/-! ## Runs -/

theorem wellFormed_run (calls : List Call) : (run calls).WellFormed :=
  wellFormed_blank.foldl_perform calls

/-- The well-formed automata are those that some run makes. -/
theorem wellFormed_iff_made :
    automaton.WellFormed ↔ ∃ calls, automaton ∈ (run calls).automata := by
  constructor
  · intro wellFormed
    refine ⟨[.make (.load (.ofAutomaton automaton))], ?_⟩
    simp [run, perform, make?, Record.toAutomaton_ofAutomaton wellFormed, Except.toOption, keep]
  · intro made
    rcases made with ⟨calls, member⟩
    exact (wellFormed_run calls).automata automaton member

/-- Whatever is asked of the library and in whatever order, all automata that are made and all
drafts that are reached refer to their own states and characters only, and store no empty rows. -/
theorem wellFormed_throughout (calls : List Call) :
    (∀ automaton ∈ (run calls).automata,
      automaton.WellFormed ∧ automaton.transitions.NoEmptyRow) ∧
    ∀ draft ∈ (run calls).drafts, draft.WellFormed ∧ draft.transitions.NoEmptyRow := by
  have wellFormed := wellFormed_run calls
  constructor
  · intro automaton member
    exact ⟨wellFormed.automata automaton member, automaton.transitions.noEmptyRow⟩
  · intro draft member
    exact ⟨wellFormed.drafts draft member, draft.transitions.noEmptyRow⟩

/-- A draft with a closed alphabet is edited, some of it without success, and built; what it builds
is combined, trimmed and opened again; and a record that repeats a state is refused. -/
def mixedCalls : List Call :=
  [.openWithAlphabet ['a'], .edit 0 (.addState .first), .edit 0 .addNextState,
    .edit 0 (.setInitial .last), .make (.build 0), .edit 0 (.setInitial .first),
    .edit 0 (.addTransition .first (.literal 'b') {.next .first}),
    .edit 0 (.addTransition .first (.literal 'a') {.next .first}),
    .edit 0 (.addAccepting (.next .first)), .edit 0 (.renameState .first .last), .make (.build 0),
    .make (.load ⟨[.first, .first], [], .first, [], []⟩), .make (.plus 0), .make (.trimmed 1),
    .reopen 2, .edit 1 (.declare 'z')]

/-- The automaton built in the middle of the mixed calls. -/
def mixedResult : Automaton where
  states := .ofList [.next .first, .last]
  alphabet := .ofList ['a']
  initial := .last
  accepting := {.next .first}
  transitions := .ofRows [(⟨.last, .literal 'a'⟩, {.next .first})]

theorem wellFormed_throughout_mixedCalls :
    (mixedResult.plus.trimmed ∈ (run mixedCalls).automata ∧
      mixedResult.plus.trimmed.WellFormed ∧
      mixedResult.plus.trimmed.transitions.NoEmptyRow) ∧
    ((Draft.ofAutomaton mixedResult.plus.trimmed).declare 'z' ∈ (run mixedCalls).drafts ∧
      ((Draft.ofAutomaton mixedResult.plus.trimmed).declare 'z').WellFormed ∧
      ((Draft.ofAutomaton mixedResult.plus.trimmed).declare 'z').transitions.NoEmptyRow) := by
  have made : mixedResult.plus.trimmed ∈ (run mixedCalls).automata := by decide +kernel
  have reached : (Draft.ofAutomaton mixedResult.plus.trimmed).declare 'z' ∈
      (run mixedCalls).drafts := by decide +kernel
  rcases wellFormed_throughout mixedCalls with ⟨automata, drafts⟩
  exact ⟨⟨made, automata _ made⟩, ⟨reached, drafts _ reached⟩⟩

end Session

end EpsilonAutomata
