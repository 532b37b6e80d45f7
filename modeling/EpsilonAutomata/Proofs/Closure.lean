import Mathlib.Logic.Function.Iterate
import EpsilonAutomata.Path
import EpsilonAutomata.Proofs.ClosureTable

/-!
The epsilon closure is the least set that epsilon edges do not leave, and the search for it ends.

The search runs in turns, and each turn expands one pending state. Pending states come and go, but
every state that is found is expanded exactly once, so there are as many turns as states in the end
(`StateSet.turns_explore`). What the search finds is described by paths of epsilon edges, and
the laws of a closure follow from this description alone (`Automaton.IsEpsilonClosure`).
-/

namespace EpsilonAutomata

/-! ## Turns of an exploration -/

namespace Exploration

/-- One turn: the next pending state is expanded. With nothing pending nothing happens. -/
def turn (agenda : Agenda) (successors : StateId → StateSet) :
    StateSet × List StateId → StateSet × List StateId
  | (found, []) => (found, [])
  | (found, state :: waiting) =>
      let fresh := successors state \ found
      (found ∪ fresh, agenda.join fresh.toList waiting)

variable {agenda : Agenda} {successors : StateId → StateSet}

/-- The number of turns makes up for the states found at first: all others are expanded, and so are
the pending ones. -/
theorem exists_turns (found : StateSet) (pending : List StateId) :
    ∃ turns, turns + found.size = (exhaust agenda successors found pending).size + pending.length ∧
      (turn agenda successors)^[turns] (found, pending) =
        (exhaust agenda successors found pending, []) ∧
      ∀ fewer < turns, ((turn agenda successors)^[fewer] (found, pending)).2 ≠ [] := by
  induction found, pending using exhaust.induct agenda successors with
  | case1 found =>
      refine ⟨0, ?_, ?_, fun fewer less => absurd less (Nat.not_lt_zero fewer)⟩
      · rw [exhaust, Nat.zero_add]
        rfl
      · rw [exhaust]
        rfl
  | case2 found state waiting fresh induction =>
      rcases induction with ⟨turns, count, result, unfinished⟩
      rw [exhaust]
      refine ⟨turns + 1, ?_, result, ?_⟩
      · simp only [fresh] at count
        rw [size_expand, agenda.length_join, Std.ExtTreeSet.length_toList] at count
        rw [List.length_cons]
        omega
      · intro fewer less
        cases fewer with
        | zero => exact List.cons_ne_nil state waiting
        | succ fewer => exact unfinished fewer (Nat.lt_of_succ_lt_succ less)

end Exploration

namespace StateSet

/-- Exploring takes exactly as many turns as states are found. -/
theorem turns_explore (agenda : Agenda) (start : StateSet) (successors : StateId → StateSet) :
    (Exploration.turn agenda successors)^[(start.explore agenda successors).size]
        (start, agenda.join start.toList []) = (start.explore agenda successors, []) ∧
      ∀ fewer < (start.explore agenda successors).size,
        ((Exploration.turn agenda successors)^[fewer]
          (start, agenda.join start.toList [])).2 ≠ [] := by
  rcases @Exploration.exists_turns agenda successors start (agenda.join start.toList []) with
    ⟨turns, count, result, unfinished⟩
  have turns_eq : turns = (start.explore agenda successors).size := by
    rw [agenda.length_join, Std.ExtTreeSet.length_toList, List.length_nil] at count
    rw [explore]
    omega
  exact turns_eq ▸ ⟨result, unfinished⟩

/-- In which order the pending states are expanded makes no difference. -/
theorem explore_eq_explore (agenda other : Agenda) (start : StateSet)
    (successors : StateId → StateSet) :
    start.explore agenda successors = start.explore other successors := by
  apply ext
  intro state
  rw [mem_explore, mem_explore]

end StateSet

namespace Automaton

/-- The laws of an epsilon closure. The set is the end of all paths of epsilon edges that start in
some states; it is the least set around these states that no epsilon edge leaves, among all
predicates and not only the finite sets. -/
structure IsEpsilonClosure (automaton : Automaton) (closure : StateSet → StateSet) : Prop where
  reached : ∀ states target, target ∈ closure states ↔
    ∃ source ∈ states, ∃ length,
      Path automaton.transitions source (List.replicate length .epsilon) target
  extensive : ∀ states, ∀ state ∈ states, state ∈ closure states
  closed : ∀ states source target, (⟨source, .epsilon, target⟩ : Edge) ∈ automaton.transitions →
    source ∈ closure states → target ∈ closure states
  least : ∀ (states : StateSet) (property : StateId → Prop), (∀ state ∈ states, property state) →
    (∀ source target, (⟨source, .epsilon, target⟩ : Edge) ∈ automaton.transitions →
      property source → property target) →
    ∀ state ∈ closure states, property state
  monotone : ∀ smaller larger, (∀ state ∈ smaller, state ∈ larger) →
    ∀ state ∈ closure smaller, state ∈ closure larger
  idempotent : ∀ states, closure (closure states) = closure states
  union : ∀ left right, closure (left ∪ right) = closure left ∪ closure right
  bind : ∀ (states : StateSet) (family : StateId → StateSet),
    closure (states.bind family) = states.bind fun state => closure (family state)
  outside : ∀ states,
    closure states = closure (states ∩ automaton.states) ∪ states \ automaton.states

variable {automaton : Automaton} {source target : StateId} {states : StateSet}

/-! ## Paths of epsilon edges -/

theorem leads_iff_path :
    Leads (fun state => automaton.targets state .epsilon) source target ↔
      ∃ length, Path automaton.transitions source (List.replicate length .epsilon) target := by
  constructor
  · intro leads
    induction leads with
    | refl state => exact ⟨0, .nil state⟩
    | step next _ induction =>
        rcases induction with ⟨length, path⟩
        exact ⟨length + 1, .cons next path⟩
  · intro found
    rcases found with ⟨length, path⟩
    induction length generalizing source with
    | zero =>
        cases path
        exact .refl _
    | succ length induction =>
        rcases path with _ | ⟨edge, rest⟩
        exact .step edge (induction rest)

/-! ## The laws -/

theorem closed_closure (edge : (⟨source, .epsilon, target⟩ : Edge) ∈ automaton.transitions)
    (member : source ∈ automaton.closure states) : target ∈ automaton.closure states := by
  rcases mem_closure.mp member with ⟨start, startMember, path⟩
  exact mem_closure.mpr ⟨start, startMember, path.extend edge⟩

/-- What holds for some states and is passed on by epsilon edges holds for their closure. -/
theorem forall_mem_closure {property : StateId → Prop} (holds : ∀ state ∈ states, property state)
    (passed : ∀ source target, (⟨source, .epsilon, target⟩ : Edge) ∈ automaton.transitions →
      property source → property target) :
    ∀ state ∈ automaton.closure states, property state := by
  intro state member
  rcases mem_closure.mp member with ⟨source, sourceMember, path⟩
  exact path.pass_on (fun before holds next edge => passed before next edge holds)
    (holds source sourceMember)

theorem closure_closure (automaton : Automaton) (states : StateSet) :
    automaton.closure (automaton.closure states) = automaton.closure states := by
  apply StateSet.ext
  intro target
  constructor
  · exact forall_mem_closure (fun _ member => member) (fun _ _ => closed_closure) target
  · intro member
    exact mem_closure.mpr ⟨target, member, .refl target⟩

theorem closure_union (automaton : Automaton) (left right : StateSet) :
    automaton.closure (left ∪ right) = automaton.closure left ∪ automaton.closure right := by
  apply StateSet.ext
  intro target
  simp only [mem_closure, Std.ExtTreeSet.mem_union_iff, or_and_right, exists_or]

theorem closure_bind (automaton : Automaton) (states : StateSet) (family : StateId → StateSet) :
    automaton.closure (states.bind family) =
      states.bind fun state => automaton.closure (family state) := by
  apply StateSet.ext
  intro target
  simp only [mem_closure, StateSet.mem_bind]
  constructor
  · intro found
    rcases found with ⟨source, ⟨state, member, sourceMember⟩, path⟩
    exact ⟨state, member, source, sourceMember, path⟩
  · intro found
    rcases found with ⟨state, member, source, sourceMember, path⟩
    exact ⟨source, ⟨state, member, sourceMember⟩, path⟩

theorem closure_eq_of_disjoint (wellFormed : automaton.WellFormed)
    (outside : ∀ state ∈ states, state ∉ automaton.states) : automaton.closure states = states := by
  apply StateSet.ext
  intro target
  rw [mem_closure]
  constructor
  · intro found
    rcases found with ⟨source, member, path⟩
    exact eq_of_leads_of_not_mem wellFormed (outside source member) path ▸ member
  · exact fun member => ⟨target, member, .refl target⟩

/-- States outside the automaton are kept, and nothing comes of them. -/
theorem closure_eq_inter_union_diff (wellFormed : automaton.WellFormed) (states : StateSet) :
    automaton.closure states =
      automaton.closure (states ∩ automaton.states) ∪ states \ automaton.states := by
  have parts : (states ∩ automaton.states) ∪ states \ automaton.states = states := by
    apply StateSet.ext
    intro state
    rw [Std.ExtTreeSet.mem_union_iff, Std.ExtTreeSet.mem_inter_iff, Std.ExtTreeSet.mem_diff_iff,
      ← and_or_left, and_iff_left (Decidable.em _)]
  have diff : automaton.closure (states \ automaton.states) = states \ automaton.states :=
    closure_eq_of_disjoint wellFormed fun _ member => (Std.ExtTreeSet.mem_diff_iff.mp member).2
  calc automaton.closure states
    _ = automaton.closure ((states ∩ automaton.states) ∪ states \ automaton.states) := by rw [parts]
    _ = _ := by rw [closure_union, diff]

theorem isEpsilonClosure_closure (wellFormed : automaton.WellFormed) :
    automaton.IsEpsilonClosure automaton.closure where
  reached states target := by simp only [mem_closure, leads_iff_path]
  extensive states state member := mem_closure.mpr ⟨state, member, .refl state⟩
  closed _ _ _ := closed_closure
  least _ _ := forall_mem_closure
  monotone smaller larger included target member := by
    rcases mem_closure.mp member with ⟨source, sourceMember, path⟩
    exact mem_closure.mpr ⟨source, included source sourceMember, path⟩
  idempotent := automaton.closure_closure
  union := automaton.closure_union
  bind := automaton.closure_bind
  outside := closure_eq_inter_union_diff wellFormed

/-- The search for a closure ends, in as many turns as the closure has states and whatever the order
of its turns; and what it finds is the least set around its start that no epsilon edge leaves. -/
theorem closure_exact (wellFormed : automaton.WellFormed) :
    automaton.IsEpsilonClosure automaton.closure ∧
    ∀ (agenda : Agenda) (states : StateSet),
      (Exploration.turn agenda fun state => automaton.targets state .epsilon)^[
          (automaton.closure states).size] (states, agenda.join states.toList []) =
        (automaton.closure states, []) ∧
      ∀ fewer < (automaton.closure states).size,
        ((Exploration.turn agenda fun state => automaton.targets state .epsilon)^[fewer]
          (states, agenda.join states.toList [])).2 ≠ [] := by
  refine ⟨isEpsilonClosure_closure wellFormed, ?_⟩
  intro agenda states
  have same : states.explore agenda (fun state => automaton.targets state .epsilon) =
      automaton.closure states := StateSet.explore_eq_explore agenda .stack states _
  exact same ▸ StateSet.turns_explore agenda states _

/-- Two states that lead to each other and one of them to itself as well, and a letter that leads
to a third. -/
def whirl : Automaton where
  states := .ofList [.first, .next .first, .last]
  alphabet := .ofList ['a']
  initial := .first
  accepting := {.last}
  transitions := .ofRows
    [(⟨.first, .epsilon⟩, .ofList [.first, .next .first]), (⟨.next .first, .epsilon⟩, {.first}),
      (⟨.next .first, .literal 'a'⟩, {.last})]

/-- From one of the two states and a state outside the automaton: three states in three turns. -/
theorem closure_exact_whirl :
    whirl.WellFormed ∧
      whirl.closure (.ofList [.next .first, .next (.next .first)]) =
        .ofList [.first, .next .first, .next (.next .first)] ∧
      (Exploration.turn .stack fun state => whirl.targets state .epsilon)^[3]
          (.ofList [.next .first, .next (.next .first)], [.next (.next .first), .next .first]) =
        (.ofList [.first, .next .first, .next (.next .first)], []) := by
  have wellFormed : whirl.WellFormed := by decide +kernel
  rcases closure_exact wellFormed with ⟨laws, turns⟩
  have closure := laws.outside (.ofList [.next .first, .next (.next .first)])
  have computed := closure.trans (by decide +kernel :
    _ = StateSet.ofList [.first, .next .first, .next (.next .first)])
  have finished := (turns .stack (.ofList [.next .first, .next (.next .first)])).1
  rw [computed] at finished
  exact ⟨wellFormed, computed, finished⟩

end Automaton

end EpsilonAutomata
