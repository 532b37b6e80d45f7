import EpsilonAutomata.State

/-!
Finding every state that a successor function leads to.

An exploration keeps the states it has found and a list of those that are pending, which are found
but not expanded yet. It expands one pending state at a time: the successors that were not found
before are found now and become pending. In which order they do is up to the agenda. There are only
so many states to find, so at some point nothing is pending (`Exploration.exhaust`), and then the
states found are exactly those the successor function leads to (`StateSet.mem_explore`).
-/

namespace EpsilonAutomata

/-- Zero or more steps to a successor. -/
inductive Leads (successors : StateId → StateSet) : StateId → StateId → Prop
  | refl (state : StateId) : Leads successors state state
  | step {source middle target : StateId} (next : middle ∈ successors source)
      (rest : Leads successors middle target) : Leads successors source target

namespace Leads

variable {successors : StateId → StateSet} {source middle target : StateId}

theorem trans (first : Leads successors source middle) (second : Leads successors middle target) :
    Leads successors source target := by
  induction first with
  | refl => exact second
  | step next _ induction => exact .step next (induction second)

theorem extend (path : Leads successors source middle) (next : target ∈ successors middle) :
    Leads successors source target :=
  path.trans (.step next (.refl target))

/-- What is passed on from each state to its successors is passed on all the way. -/
theorem pass_on {property : StateId → Prop}
    (passed : ∀ state, property state → ∀ next ∈ successors state, property next)
    (path : Leads successors source target) (holds : property source) : property target := by
  induction path with
  | refl => exact holds
  | step next _ induction => exact induction (passed _ holds _ next)

theorem mem_of_closed {states : StateSet}
    (closed : ∀ state ∈ states, ∀ next ∈ successors state, next ∈ states)
    (path : Leads successors source target) (member : source ∈ states) : target ∈ states :=
  path.pass_on closed member

end Leads

/-! ## Agendas -/

/-- How newly found states join the ones that wait already. The head of the list is next. -/
structure Agenda where
  join : (fresh waiting : List StateId) → List StateId
  perm : ∀ fresh waiting, (join fresh waiting).Perm (fresh ++ waiting)

namespace Agenda

/-- The state found last is expanded first. -/
def stack : Agenda where
  join fresh waiting := fresh.reverse ++ waiting
  perm fresh waiting := fresh.reverse_perm.append_right waiting

/-- The state found first is expanded first. -/
def queue : Agenda where
  join fresh waiting := waiting ++ fresh
  perm _ _ := List.perm_append_comm

theorem mem_join {agenda : Agenda} {fresh waiting : List StateId} {state : StateId} :
    state ∈ agenda.join fresh waiting ↔ state ∈ fresh ∨ state ∈ waiting := by
  rw [(agenda.perm fresh waiting).mem_iff, List.mem_append]

theorem length_join (agenda : Agenda) (fresh waiting : List StateId) :
    (agenda.join fresh waiting).length = fresh.length + waiting.length := by
  rw [(agenda.perm fresh waiting).length_eq, List.length_append]

end Agenda

/-! ## Explorations -/

namespace Exploration

/-- A bound on the steps to come. A state not found yet may cost two, one to find it and one to
expand it; a pending state costs one. -/
def remaining (found : StateSet) (pending : List StateId) : Nat :=
  2 * (4294967296 - found.size) + pending.length

theorem size_expand (found next : StateSet) :
    (found ∪ next \ found).size = found.size + (next \ found).size :=
  Std.ExtTreeSet.size_union_of_not_mem fun _ known new =>
    (Std.ExtTreeSet.mem_diff_iff.mp new).2 known

theorem remaining_expand_lt (agenda : Agenda) (found next : StateSet) (state : StateId)
    (waiting : List StateId) :
    remaining (found ∪ next \ found) (agenda.join (next \ found).toList waiting) <
      remaining found (state :: waiting) := by
  have grown := size_expand found next
  have limit := StateSet.size_le (found ∪ next \ found)
  rw [remaining, remaining, agenda.length_join, Std.ExtTreeSet.length_toList, List.length_cons]
  omega

/-- Expands pending states until there are none. -/
def exhaust (agenda : Agenda) (successors : StateId → StateSet) (found : StateSet) :
    (pending : List StateId) → StateSet
  | [] => found
  | state :: waiting =>
      let fresh := successors state \ found
      exhaust agenda successors (found ∪ fresh) (agenda.join fresh.toList waiting)
termination_by pending => remaining found pending
decreasing_by exact remaining_expand_lt agenda found (successors state) state waiting

/-- What holds at every moment of an exploration: all found states can be led to, and all found
states but the pending ones have their successors found. -/
structure Invariant (successors : StateId → StateSet) (start found : StateSet)
    (pending : List StateId) : Prop where
  start_found : ∀ state ∈ start, state ∈ found
  pending_found : ∀ state ∈ pending, state ∈ found
  led_to : ∀ state ∈ found, ∃ source ∈ start, Leads successors source state
  expanded : ∀ state ∈ found, state ∈ pending ∨ ∀ next ∈ successors state, next ∈ found

namespace Invariant

variable {agenda : Agenda} {successors : StateId → StateSet} {start found : StateSet}
  {pending waiting : List StateId} {state : StateId}

theorem initially (agenda : Agenda) (successors : StateId → StateSet) (start : StateSet) :
    Invariant successors start start (agenda.join start.toList []) := by
  constructor
  case start_found => exact fun _ member => member
  case pending_found =>
    intro state member
    simpa [Agenda.mem_join] using member
  case led_to => exact fun state member => ⟨state, member, .refl state⟩
  case expanded =>
    intro state member
    left
    simpa [Agenda.mem_join] using member

theorem expand (invariant : Invariant successors start found (state :: waiting)) :
    Invariant successors start (found ∪ successors state \ found)
      (agenda.join (successors state \ found).toList waiting) := by
  have stateFound : state ∈ found := invariant.pending_found state List.mem_cons_self
  have successorFound : ∀ next ∈ successors state, next ∈ found ∪ successors state \ found := by
    intro next successor
    rw [Std.ExtTreeSet.mem_union_iff, Std.ExtTreeSet.mem_diff_iff]
    exact (Decidable.em (next ∈ found)).imp_right fun new => ⟨successor, new⟩
  constructor
  case start_found =>
    exact fun other member => Std.ExtTreeSet.mem_union_of_left (invariant.start_found other member)
  case pending_found =>
    intro other member
    rcases Agenda.mem_join.mp member with fresh | waits
    · exact Std.ExtTreeSet.mem_union_of_right (Std.ExtTreeSet.mem_toList.mp fresh)
    · exact Std.ExtTreeSet.mem_union_of_left
        (invariant.pending_found other (List.mem_cons_of_mem state waits))
  case led_to =>
    intro other member
    rcases Std.ExtTreeSet.mem_union_iff.mp member with known | fresh
    · exact invariant.led_to other known
    · rcases invariant.led_to state stateFound with ⟨source, sourceStart, path⟩
      exact ⟨source, sourceStart, path.extend (Std.ExtTreeSet.mem_diff_iff.mp fresh).1⟩
  case expanded =>
    intro other member
    rw [Agenda.mem_join, Std.ExtTreeSet.mem_toList]
    rcases Std.ExtTreeSet.mem_union_iff.mp member with known | fresh
    · rcases invariant.expanded other known with pending | closed
      · rcases List.mem_cons.mp pending with rfl | waits
        · exact .inr successorFound
        · exact .inl (.inr waits)
      · exact .inr fun next successor => Std.ExtTreeSet.mem_union_of_left (closed next successor)
    · exact .inl (.inl fresh)

/-- With nothing pending the found states are closed, and closed sets keep what they lead to. -/
theorem mem_found_iff (invariant : Invariant successors start found []) {target : StateId} :
    target ∈ found ↔ ∃ source ∈ start, Leads successors source target := by
  constructor
  · exact invariant.led_to target
  · intro led
    rcases led with ⟨source, sourceStart, path⟩
    refine path.mem_of_closed ?_ (invariant.start_found source sourceStart)
    intro other member
    exact (invariant.expanded other member).resolve_left List.not_mem_nil

theorem mem_exhaust_iff (invariant : Invariant successors start found pending)
    {target : StateId} :
    target ∈ exhaust agenda successors found pending ↔
      ∃ source ∈ start, Leads successors source target := by
  induction found, pending using exhaust.induct agenda successors with
  | case1 found =>
      rw [exhaust]
      exact invariant.mem_found_iff
  | case2 found state waiting fresh induction =>
      rw [exhaust]
      exact induction invariant.expand

end Invariant

end Exploration

namespace StateSet

/-- The states that `start` leads to. -/
def explore (agenda : Agenda) (start : StateSet) (successors : StateId → StateSet) : StateSet :=
  Exploration.exhaust agenda successors start (agenda.join start.toList [])

theorem mem_explore {agenda : Agenda} {start : StateSet} {successors : StateId → StateSet}
    {target : StateId} :
    target ∈ start.explore agenda successors ↔
      ∃ source ∈ start, Leads successors source target :=
  (Exploration.Invariant.initially agenda successors start).mem_exhaust_iff

end StateSet

end EpsilonAutomata
