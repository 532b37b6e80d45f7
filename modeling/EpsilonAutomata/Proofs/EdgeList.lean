import EpsilonAutomata.EdgeList
import EpsilonAutomata.Proofs.Alphabet

/-!
Automata and lists of edges.

To collect the edges of a list no check can fail, since the endpoints of an edge are added before
the edge, and the alphabet is open. So what goes wrong, if anything, is that there is no initial
state or that an accepting state was not mentioned (`Automaton.ofEdges_eq`). The edges of an
automaton, listed, are each listed once. They give the automaton back, in whatever order and however
often they are repeated, if nothing else is in it than what its edges and its initial state mention.
-/

namespace EpsilonAutomata

/-! ## Listing edges in order -/

namespace Edge

/-- Edges are ordered by source, then label, then target. -/
def Precedes (left right : Edge) : Prop :=
  left.source < right.source ∨ left.source = right.source ∧
    (compare left.symbol right.symbol = .lt ∨
      left.symbol = right.symbol ∧ left.target < right.target)

theorem not_precedes_self (edge : Edge) : ¬edge.Precedes edge := by
  rintro (less | ⟨_, less | ⟨_, less⟩⟩)
  · exact Nat.lt_irrefl _ less
  · rw [Std.compare_self] at less
    cases less
  · exact Nat.lt_irrefl _ less

def Touches (edge : Edge) (state : StateId) : Prop :=
  edge.source = state ∨ edge.target = state

instance (edge : Edge) (state : StateId) : Decidable (edge.Touches state) :=
  inferInstanceAs (Decidable (_ ∨ _))

end Edge

theorem Move.compare_eq_lt_iff {left right : Move} :
    compare left right = .lt ↔ left.source < right.source ∨
      left.source = right.source ∧ compare left.symbol right.symbol = .lt := by
  change ((compare left.source right.source).then (compare left.symbol right.symbol)) = .lt ↔ _
  rw [Ordering.then_eq_lt, StateId.compare_eq_lt_iff, Std.compare_eq_iff_eq]

namespace Transitions

/-- The list has every edge once, in ascending order. -/
structure IsListing (transitions : Transitions) (listed : List Edge) : Prop where
  mem : ∀ edge, edge ∈ listed ↔ edge ∈ transitions
  ascending : listed.Pairwise Edge.Precedes
  nodup : listed.Nodup
  length : listed.length = transitions.edgeCount

theorem pairwise_entries (transitions : Transitions) :
    transitions.entries.Pairwise fun left right => compare left.1 right.1 = .lt :=
  Std.ExtTreeMap.ordered_keys_toList

/-- Edges of one row are ordered by their targets, and edges of different rows as the rows are. -/
theorem pairwise_edges (transitions : Transitions) :
    transitions.edges.Pairwise Edge.Precedes := by
  rw [edges, List.pairwise_flatMap]
  constructor
  · rintro ⟨move, targets⟩ _
    rw [List.pairwise_map]
    exact targets.ordered_toList.imp fun less => .inr ⟨rfl, .inr ⟨rfl, less⟩⟩
  · apply transitions.pairwise_entries.imp
    rintro ⟨leftMove, leftTargets⟩ ⟨rightMove, rightTargets⟩ less left leftListed right rightListed
    rcases List.mem_map.mp leftListed with ⟨_, _, rfl⟩
    rcases List.mem_map.mp rightListed with ⟨_, _, rfl⟩
    exact (Move.compare_eq_lt_iff.mp less).imp_right fun same => ⟨same.1, .inl same.2⟩

theorem isListing_edges (transitions : Transitions) : transitions.IsListing transitions.edges where
  mem _ := mem_edges
  ascending := transitions.pairwise_edges
  nodup := transitions.pairwise_edges.imp fun {left right} precedes (equal : left = right) =>
    right.not_precedes_self (equal ▸ precedes)
  length := transitions.length_edges

end Transitions

/-! ## Collecting edges -/

/-- The state is the given one, or an edge touches it. -/
def Mentions (initial : Option StateId) (edges : List Edge) (state : StateId) : Prop :=
  initial = some state ∨ ∃ edge ∈ edges, edge.Touches state

instance (initial : Option StateId) (edges : List Edge) (state : StateId) :
    Decidable (Mentions initial edges state) :=
  inferInstanceAs (Decidable (_ ∨ _))

theorem mentions_of_start {initial : Option StateId} {edges : List Edge} {start : StateId}
    (chosen : initial.or (edges.head?.map Edge.source) = some start) :
    Mentions initial edges start := by
  cases initial with
  | some given => exact .inl chosen
  | none =>
      rcases Option.map_eq_some_iff.mp chosen with ⟨edge, first, rfl⟩
      exact .inr ⟨edge, List.mem_of_head? first, .inl rfl⟩

namespace Draft

variable {draft middle after : Draft} {state : StateId} {edge : Edge} {edges front back : List Edge}

theorem mention_eq (draft : Draft) (state : StateId) :
    draft.mention state = .ok (draft.ensureState state) := by
  rw [mention, addState, ensureState]
  by_cases known : state ∈ draft.states
  · simp only [known, Std.ExtTreeSet.contains_iff_mem, if_true, StateSet.insert_of_mem known]
  · simp only [known, Std.ExtTreeSet.contains_iff_mem, if_false]

/-- The draft with an edge and its endpoints. -/
def link (draft : Draft) (edge : Edge) : Draft :=
  ((draft.ensureState edge.source).ensureState edge.target).join
    edge.source edge.symbol {edge.target}

/-- The endpoints are there when the edge is added, and an open alphabet takes any label. -/
theorem connect_eq (isOpen : draft.closedAlphabet = false) (edge : Edge) :
    draft.connect edge = .ok (draft.link edge) := by
  let mentioned := (draft.ensureState edge.source).ensureState edge.target
  have sourceKnown : edge.source ∈ mentioned.states :=
    StateSet.mem_insert.mpr (.inr (StateSet.mem_insert.mpr (.inl rfl)))
  have targetKnown : ∀ target ∈ ({edge.target} : StateSet), target ∈ mentioned.states :=
    fun target only => StateSet.mem_insert.mpr (.inl (StateSet.mem_singleton.mp only))
  have notForeign : mentioned.foreign? edge.symbol = none :=
    foreign?_eq_none_iff.mpr fun closed => absurd closed (Bool.eq_false_iff.mp isOpen)
  simp only [connect, bind_eq_ok_iff, mention_eq, Except.ok.injEq, exists_eq_left']
  exact addTransition_eq_ok_iff.mpr ⟨sourceKnown, targetKnown, notForeign, rfl⟩

theorem connectAll_eq (isOpen : draft.closedAlphabet = false) (initial : Option StateId)
    (edges : List Edge) :
    draft.connectAll initial edges =
      .ok (edges.foldl link draft, initial.or (edges.head?.map Edge.source)) := by
  induction edges generalizing draft initial with
  | nil => simp [connectAll]
  | cons edge rest induction =>
      have stillOpen : (draft.link edge).closedAlphabet = false := isOpen
      rw [connectAll, connect_eq isOpen]
      change (draft.link edge).connectAll (initial.or (some edge.source)) rest = _
      rw [induction stillOpen, Option.or_assoc]
      rfl

/-- A draft and what edges add to it. -/
structure Connects (draft : Draft) (edges : List Edge) (after : Draft) : Prop where
  states : ∀ state, state ∈ after.states ↔ state ∈ draft.states ∨ ∃ edge ∈ edges, edge.Touches state
  alphabet : ∀ character, character ∈ after.alphabet ↔
    character ∈ draft.alphabet ∨ ∃ edge ∈ edges, edge.symbol = .literal character
  edges : ∀ edge, edge ∈ after.transitions ↔ edge ∈ draft.transitions ∨ edge ∈ edges
  accepting : after.accepting = draft.accepting

theorem connects_nil (draft : Draft) : draft.Connects [] draft where
  states state := by simp
  alphabet character := by simp
  edges edge := by simp
  accepting := rfl

theorem connects_link (draft : Draft) (edge : Edge) : draft.Connects [edge] (draft.link edge) where
  states state := by
    simp only [link, join, ensureState, StateSet.mem_insert, List.mem_singleton, exists_eq_left,
      Edge.Touches]
    rw [← or_assoc, or_comm, @or_comm (edge.target = state)]
  alphabet character := by
    simp only [link, mem_alphabet_join, StateSet.mem_singleton, exists_eq', and_true,
      List.mem_singleton, exists_eq_left]
    rfl
  edges other := by
    rw [List.mem_singleton, @eq_comm _ other]
    exact Transitions.mem_addEdge
  accepting := rfl

theorem Connects.trans (first : draft.Connects front middle) (second : middle.Connects back after) :
    draft.Connects (front ++ back) after where
  states state := by
    simp only [second.states, first.states, List.mem_append, or_and_right, exists_or, or_assoc]
  alphabet character := by
    simp only [second.alphabet, first.alphabet, List.mem_append, or_and_right, exists_or, or_assoc]
  edges edge := by
    simp only [second.edges, first.edges, List.mem_append, or_assoc]
  accepting := second.accepting.trans first.accepting

theorem connects_foldl_link (draft : Draft) (edges : List Edge) :
    draft.Connects edges (edges.foldl link draft) := by
  induction edges generalizing draft with
  | nil => exact draft.connects_nil
  | cons edge rest induction => exact (draft.connects_link edge).trans (induction (draft.link edge))

variable {initial : Option StateId} {character : Char} {start : StateId}

/-- The draft with the initial state as its only state, if one is given. -/
def opened (initial : Option StateId) : Draft :=
  { blank with states := .ofList initial.toList }

theorem foldlM_addState_toList (initial : Option StateId) :
    initial.toList.foldlM addState blank = .ok (opened initial) := by
  cases initial with
  | none => rfl
  | some given =>
      have only : StateSet.ofList [given] = (∅ : StateSet).insert given :=
        StateSet.ext fun state => by
          rw [StateSet.mem_ofList, List.mem_singleton, StateSet.mem_insert,
            or_iff_left Std.ExtTreeSet.not_mem_empty, eq_comm]
      rw [opened, Option.toList_some, List.foldlM_cons, only]
      exact bind_eq_ok_iff.mpr
        ⟨_, addState_eq_ok_iff.mpr ⟨Std.ExtTreeSet.not_mem_empty, rfl⟩, rfl⟩

/-- The draft with the initial state, if one is given, and the edges. -/
def collect (initial : Option StateId) (edges : List Edge) : Draft :=
  edges.foldl link (opened initial)

theorem mem_states_collect :
    state ∈ (collect initial edges).states ↔ Mentions initial edges state := by
  rw [collect, ((opened initial).connects_foldl_link edges).states, Mentions, opened,
    StateSet.mem_ofList, Option.mem_toList]

/-- The initial state is mentioned, whether it is given or not. -/
theorem setInitial_collect (chosen : initial.or (edges.head?.map Edge.source) = some start) :
    (collect initial edges).setInitial start =
      .ok { collect initial edges with initial := some start } := by
  have known : start ∈ (collect initial edges).states :=
    mem_states_collect.mpr (mentions_of_start chosen)
  exact setInitial_eq_ok_iff.mpr ⟨known, rfl⟩

theorem mem_alphabet_collect :
    character ∈ (collect initial edges).alphabet ↔
      ∃ edge ∈ edges, edge.symbol = .literal character := by
  rw [collect, ((opened initial).connects_foldl_link edges).alphabet]
  exact or_iff_right Std.ExtTreeSet.not_mem_empty

theorem mem_transitions_collect : edge ∈ (collect initial edges).transitions ↔ edge ∈ edges := by
  rw [collect, ((opened initial).connects_foldl_link edges).edges]
  exact or_iff_right (Transitions.not_mem_empty edge)

theorem accepting_collect (initial : Option StateId) (edges : List Edge) :
    (collect initial edges).accepting = ∅ :=
  ((opened initial).connects_foldl_link edges).accepting

theorem insertMany_accepting_collect (initial : Option StateId) (edges : List Edge)
    (accepting : List StateId) :
    (collect initial edges).accepting.insertMany accepting = .ofList accepting := by
  rw [accepting_collect]
  exact Std.ExtTreeSet.ofList_eq_insertMany_empty.symm

theorem missing?_collect_eq_none_iff {accepting : List StateId} :
    (collect initial edges).missing? accepting = none ↔
      ∀ state ∈ accepting, Mentions initial edges state := by
  simp only [missing?_eq_none_iff, mem_states_collect]

/-- The first state that is not mentioned is the one that is missing. -/
theorem missing?_collect_eq_some_iff {accepting : List StateId} :
    (collect initial edges).missing? accepting = some state ↔
      ∃ before after, accepting = before ++ state :: after ∧
        (∀ earlier ∈ before, Mentions initial edges earlier) ∧ ¬Mentions initial edges state := by
  rw [missing?, List.find?_eq_some_iff_append]
  simp only [Bool.not_eq_true', Bool.not_not, Bool.eq_false_iff, ne_eq,
    Std.ExtTreeSet.contains_iff_mem, mem_states_collect]
  constructor
  · rintro ⟨notMentioned, before, after, listed, mentioned⟩
    exact ⟨before, after, listed, mentioned, notMentioned⟩
  · rintro ⟨before, after, listed, mentioned, notMentioned⟩
    exact ⟨notMentioned, before, after, listed, mentioned⟩

theorem foldlM_addAccepting (draft : Draft) (accepting : List StateId) :
    accepting.foldlM addAccepting draft =
      match draft.missing? accepting with
      | some missing => .error (.unknownState missing)
      | none => .ok { draft with accepting := draft.accepting.insertMany accepting } := by
  induction accepting generalizing draft with
  | nil => rfl
  | cons state rest induction =>
      rw [List.foldlM_cons, missing?_cons, addAccepting, Std.ExtTreeSet.insertMany_cons]
      cases draft.missing? [state] with
      | some missing => rfl
      | none => exact induction { draft with accepting := draft.accepting.insert state }

theorem mark_and_build (chosen : draft.initial = some start) (accepting : List StateId) :
    (accepting.foldlM addAccepting draft >>= build) =
      match draft.missing? accepting with
      | some missing => .error (.unknownState missing)
      | none =>
          .ok ⟨draft.states, draft.alphabet, start, draft.accepting.insertMany accepting,
            draft.transitions⟩ := by
  rw [foldlM_addAccepting]
  cases draft.missing? accepting with
  | some missing => rfl
  | none =>
      change build { draft with accepting := draft.accepting.insertMany accepting } = _
      simp only [build, chosen]

end Draft

namespace Automaton

variable {automaton other : Automaton} {initial : Option StateId} {edges : List Edge}
  {accepting : List StateId} {state start : StateId}

/-- What has been collected, with an initial state and accepting states. -/
def gathered (initial : Option StateId) (edges : List Edge) (accepting : List StateId)
    (start : StateId) : Automaton where
  states := (Draft.collect initial edges).states
  alphabet := (Draft.collect initial edges).alphabet
  initial := start
  accepting := (Draft.collect initial edges).accepting.insertMany accepting
  transitions := (Draft.collect initial edges).transitions

theorem ofEdges_eq (initial : Option StateId) (edges : List Edge) (accepting : List StateId) :
    ofEdges initial edges accepting =
      match initial.or (edges.head?.map Edge.source) with
      | none => .error .noInitialState
      | some start =>
          match (Draft.collect initial edges).missing? accepting with
          | some missing => .error (.unknownState missing)
          | none => .ok (gathered initial edges accepting start) := by
  rw [ofEdges, Draft.foldlM_addState_toList]
  change ((Draft.opened initial).connectAll initial edges >>= _) = _
  rw [Draft.connectAll_eq rfl]
  cases chosen : initial.or (edges.head?.map Edge.source) with
  | none => rfl
  | some start =>
      change ((Draft.collect initial edges).setInitial start >>= fun draft =>
        accepting.foldlM Draft.addAccepting draft >>= Draft.build) = _
      rw [Draft.setInitial_collect chosen]
      exact @Draft.mark_and_build { Draft.collect initial edges with initial := some start } start
        rfl accepting

/-! ## The automaton of a list of edges -/

/-- The automaton has what is listed and what that mentions, and nothing else. Its initial state is
the given one, or else the source of the first edge. -/
structure IsGivenBy (automaton : Automaton) (start : Option StateId) (listed : List Edge)
    (marked : List StateId) : Prop where
  states : ∀ state, state ∈ automaton.states ↔ Mentions start listed state
  initial : start.or (listed.head?.map Edge.source) = some automaton.initial
  accepting : ∀ state, state ∈ automaton.accepting ↔ state ∈ marked
  edges : ∀ edge, edge ∈ automaton.transitions ↔ edge ∈ listed
  alphabet : ∀ character, character ∈ automaton.alphabet ↔
    ∃ edge ∈ listed, edge.symbol = .literal character

theorem IsGivenBy.unique (given : automaton.IsGivenBy initial edges accepting)
    (otherGiven : other.IsGivenBy initial edges accepting) : automaton = other := by
  have sameInitial : automaton.initial = other.initial :=
    Option.some.inj (given.initial.symm.trans otherGiven.initial)
  have sameAlphabet : automaton.alphabet = other.alphabet := Alphabet.ext fun character => by
    rw [given.alphabet, otherGiven.alphabet]
  refine Automaton.ext (fun state => ?_) sameAlphabet sameInitial (fun state => ?_) fun edge => ?_
  · rw [given.states, otherGiven.states]
  · rw [given.accepting, otherGiven.accepting]
  · rw [given.edges, otherGiven.edges]

theorem isGivenBy_gathered (chosen : initial.or (edges.head?.map Edge.source) = some start) :
    (gathered initial edges accepting start).IsGivenBy initial edges accepting where
  states _ := Draft.mem_states_collect
  initial := chosen
  accepting state := by
    change state ∈ (Draft.collect initial edges).accepting.insertMany accepting ↔ _
    rw [Draft.insertMany_accepting_collect]
    exact StateSet.mem_ofList
  edges _ := Draft.mem_transitions_collect
  alphabet _ := Draft.mem_alphabet_collect

theorem start_eq_none_iff :
    initial.or (edges.head?.map Edge.source) = none ↔ initial = none ∧ edges = [] := by
  rw [Option.or_eq_none_iff, Option.map_eq_none_iff, List.head?_eq_none_iff]

theorem ofEdges_eq_ok_iff :
    ofEdges initial edges accepting = .ok automaton ↔
      (∀ state ∈ accepting, Mentions initial edges state) ∧
        automaton.IsGivenBy initial edges accepting := by
  rw [ofEdges_eq, ← Draft.missing?_collect_eq_none_iff]
  cases chosen : initial.or (edges.head?.map Edge.source) with
  | none =>
      refine iff_of_false nofun fun given => ?_
      cases chosen.symm.trans given.2.initial
  | some start =>
      have gathers := @isGivenBy_gathered initial edges accepting start chosen
      cases (Draft.collect initial edges).missing? accepting with
      | some missing => exact iff_of_false nofun fun given => nomatch given.1
      | none =>
          simp only [Except.ok.injEq, true_and]
          exact ⟨fun equal => equal ▸ gathers, gathers.unique⟩

theorem ofEdges_eq_error_iff {failure : ConstructionError} :
    ofEdges initial edges accepting = .error failure ↔
      (initial = none ∧ edges = []) ∧ failure = .noInitialState ∨
      ¬(initial = none ∧ edges = []) ∧ ∃ state, failure = .unknownState state ∧
        (Draft.collect initial edges).missing? accepting = some state := by
  rw [ofEdges_eq, ← start_eq_none_iff]
  cases initial.or (edges.head?.map Edge.source) with
  | none => simp [eq_comm]
  | some start =>
      cases (Draft.collect initial edges).missing? accepting with
      | some missing => simp [eq_comm]
      | none => simp

/-- Every state is the initial one or touched by an edge, and every character is on an edge. -/
structure IsSpanned (automaton : Automaton) : Prop where
  mentions : ∀ state ∈ automaton.states, Mentions (some automaton.initial) automaton.edges state
  labels : ∀ character ∈ automaton.alphabet,
    ∃ edge ∈ automaton.edges, edge.symbol = .literal character

theorem isSpanned_iff (automaton : Automaton) :
    automaton.IsSpanned ↔
      (∀ state ∈ automaton.states.toList,
        Mentions (some automaton.initial) automaton.edges state) ∧
      (automaton.alphabet.toList.all fun character =>
        (automaton.edges.map Edge.symbol).contains (.literal character)) = true := by
  simp only [Std.ExtTreeSet.mem_toList, List.all_eq_true, List.contains_iff_mem, List.mem_map]
  exact ⟨fun spanned => ⟨spanned.mentions, spanned.labels⟩, fun parts => ⟨parts.1, parts.2⟩⟩

instance (automaton : Automaton) : Decidable automaton.IsSpanned :=
  decidable_of_iff _ automaton.isSpanned_iff.symm

theorem IsSpanned.isGivenBy {listed : List Edge} {marked : List StateId}
    (spanned : automaton.IsSpanned) (wellFormed : automaton.WellFormed)
    (sameEdges : ∀ edge, edge ∈ listed ↔ edge ∈ automaton.edges)
    (sameAccepting : ∀ state, state ∈ marked ↔ state ∈ automaton.accepting) :
    automaton.IsGivenBy (some automaton.initial) listed marked where
  states state := by
    simp only [Mentions, sameEdges]
    constructor
    · exact spanned.mentions state
    · rintro (isInitial | ⟨edge, listed, touches⟩)
      · exact Option.some.inj isInitial ▸ wellFormed.initial_mem
      · have present := Transitions.mem_edges.mp listed
        rcases touches with rfl | rfl
        · exact wellFormed.source_mem edge present
        · exact wellFormed.target_mem edge present
  initial := rfl
  accepting state := (sameAccepting state).symm
  edges edge := (sameEdges edge).trans Transitions.mem_edges |>.symm
  alphabet character := by
    simp only [sameEdges]
    refine ⟨spanned.labels character, ?_⟩
    rintro ⟨edge, listed, label⟩
    exact wellFormed.literal_mem edge (Transitions.mem_edges.mp listed) character label

theorem IsSpanned.ofEdges_eq {listed : List Edge} {marked : List StateId}
    (spanned : automaton.IsSpanned) (wellFormed : automaton.WellFormed)
    (sameEdges : ∀ edge, edge ∈ listed ↔ edge ∈ automaton.edges)
    (sameAccepting : ∀ state, state ∈ marked ↔ state ∈ automaton.accepting) :
    ofEdges (some automaton.initial) listed marked = .ok automaton := by
  have given := spanned.isGivenBy wellFormed sameEdges sameAccepting
  refine ofEdges_eq_ok_iff.mpr ⟨fun state isMarked => (given.states state).mp ?_, given⟩
  exact wellFormed.accepting_subset state ((sameAccepting state).mp isMarked)

theorem exists_ofEdges_eq_ok_iff :
    (∃ automaton, ofEdges initial edges accepting = .ok automaton) ↔
      ¬(initial = none ∧ edges = []) ∧ ∀ state ∈ accepting, Mentions initial edges state := by
  simp only [ofEdges_eq_ok_iff, exists_and_left, ← start_eq_none_iff]
  constructor
  · rintro ⟨mentioned, automaton, given⟩
    exact ⟨given.initial ▸ nofun, mentioned⟩
  · rintro ⟨notNone, mentioned⟩
    rcases Option.ne_none_iff_exists'.mp notNone with ⟨start, chosen⟩
    exact ⟨mentioned, gathered initial edges accepting start, isGivenBy_gathered chosen⟩

theorem ofEdges_eq_unknownState_iff :
    ofEdges initial edges accepting = .error (.unknownState state) ↔
      ¬(initial = none ∧ edges = []) ∧ ∃ before after, accepting = before ++ state :: after ∧
        (∀ earlier ∈ before, Mentions initial edges earlier) ∧ ¬Mentions initial edges state := by
  rw [ofEdges_eq_error_iff, ← Draft.missing?_collect_eq_some_iff]
  simp

/-- Constructing an automaton from edges fails for two reasons only, and what it gives has what is
listed. The edges of an automaton are listed in ascending order, each once. An automaton that they
span is what they give back, in any order and with any repetition. -/
theorem ofEdges_exact (initial : Option StateId) (edges : List Edge) (accepting : List StateId) :
    (ofEdges initial edges accepting = .error .noInitialState ↔ initial = none ∧ edges = []) ∧
    (∀ state, ofEdges initial edges accepting = .error (.unknownState state) ↔
      ¬(initial = none ∧ edges = []) ∧ ∃ before after, accepting = before ++ state :: after ∧
        (∀ earlier ∈ before, Mentions initial edges earlier) ∧ ¬Mentions initial edges state) ∧
    (∀ failure, ofEdges initial edges accepting = .error failure →
      failure = .noInitialState ∨ ∃ state, failure = .unknownState state) ∧
    ((∃ automaton, ofEdges initial edges accepting = .ok automaton) ↔
      ¬(initial = none ∧ edges = []) ∧ ∀ state ∈ accepting, Mentions initial edges state) ∧
    (∀ automaton, ofEdges initial edges accepting = .ok automaton →
      automaton.IsGivenBy initial edges accepting) ∧
    ∀ automaton : Automaton, automaton.WellFormed →
      automaton.transitions.IsListing automaton.edges ∧
      (automaton.IsSpanned → ∀ listed marked, (∀ edge, edge ∈ listed ↔ edge ∈ automaton.edges) →
        (∀ state, state ∈ marked ↔ state ∈ automaton.accepting) →
        ofEdges (some automaton.initial) listed marked = .ok automaton) := by
  refine ⟨?_, fun _ => ofEdges_eq_unknownState_iff, fun failure failed => ?_,
    exists_ofEdges_eq_ok_iff, fun _ made => (ofEdges_eq_ok_iff.mp made).2,
    fun automaton wellFormed => ⟨automaton.transitions.isListing_edges, ?_⟩⟩
  · simp [ofEdges_eq_error_iff]
  · rcases ofEdges_eq_error_iff.mp failed with ⟨_, noInitial⟩ | ⟨_, state, unknown, _⟩
    · exact .inl noInitial
    · exact .inr ⟨state, unknown⟩
  · intro spanned listed marked sameEdges sameAccepting
    exact spanned.ofEdges_eq wellFormed sameEdges sameAccepting

/-- Two states that lead to each other, one of them with two labels and to itself as well. -/
def swing : Automaton where
  states := .ofList [.first, .last]
  alphabet := .ofList ['a', 'b']
  initial := .last
  accepting := {.first}
  transitions := .ofRows
    [(⟨.first, .literal 'a'⟩, {.last}), (⟨.last, .epsilon⟩, .ofList [.first, .last]),
      (⟨.last, .literal 'b'⟩, {.first})]

/-- Its edges in disorder, one of them twice, give it back. -/
theorem ofEdges_exact_swing :
    let disordered : List Edge := [⟨.last, .literal 'b', .first⟩, ⟨.last, .epsilon, .last⟩,
      ⟨.first, .literal 'a', .last⟩, ⟨.last, .literal 'b', .first⟩, ⟨.last, .epsilon, .first⟩]
    swing.WellFormed ∧ swing.transitions.IsListing swing.edges ∧ swing.edges.length = 4 ∧
      ofEdges (some .last) disordered [.first, .first] = .ok swing ∧
      (∃ automaton, ofEdges none disordered [.last] = .ok automaton ∧ .last = automaton.initial) ∧
      ofEdges none disordered [.first, .next .first, .last] =
        .error (.unknownState (.next .first)) ∧
      ofEdges none [] [.first] = .error .noInitialState := by
  intro disordered
  have wellFormed : swing.WellFormed := by decide +kernel
  rcases (ofEdges_exact none [] []).2.2.2.2.2 swing wellFormed with ⟨listing, givesBack⟩
  have spanned : swing.IsSpanned := by decide +kernel
  have forth : ∀ edge ∈ disordered, edge ∈ swing.edges := by decide +kernel
  have back : ∀ edge ∈ swing.edges, edge ∈ disordered := by decide +kernel
  have marked (state : StateId) : state ∈ [StateId.first, .first] ↔ state ∈ swing.accepting := by
    rw [swing, StateSet.mem_singleton, List.mem_cons, List.mem_singleton, or_self]
    exact eq_comm
  have returned := givesBack spanned disordered [.first, .first]
    (fun edge => ⟨forth edge, back edge⟩) marked
  rcases ofEdges_exact none disordered [.last] with ⟨_, _, _, succeeds, describes, _⟩
  rcases succeeds.mpr ⟨nofun, by decide +kernel⟩ with ⟨automaton, made⟩
  have fromFirstEdge : .last = automaton.initial :=
    Option.some.inj (describes automaton made).initial
  rcases ofEdges_exact none disordered [.first, .next .first, .last] with ⟨_, unknown, _⟩
  have reported := (unknown (.next .first)).mpr
    ⟨nofun, [.first], [.last], rfl, by decide +kernel, by decide +kernel⟩
  exact ⟨wellFormed, listing, by decide +kernel, returned, ⟨automaton, made, fromFirstEdge⟩,
    reported, (ofEdges_exact none [] [.first]).1.mpr ⟨rfl, rfl⟩⟩

end Automaton

end EpsilonAutomata
