import EpsilonAutomata.StateRelation
import EpsilonAutomata.Symbol

/-!
Labelled edges between states.

A move is a state together with the label that is read there, and the transitions of an automaton
relate each move to the states it may end in. Moves are ordered by their source and then by their
label, so the rows of a relation come grouped by source with epsilon first.
-/

namespace EpsilonAutomata

structure Move where
  source : StateId
  symbol : Symbol
deriving DecidableEq

namespace Move

instance : Ord Move := ⟨compareLex (compareOn source) (compareOn symbol)⟩

instance : Std.TransOrd Move :=
  inferInstanceAs (Std.TransCmp (compareLex (compareOn source) (compareOn symbol)))

instance : Std.LawfulEqOrd Move where
  eq_of_compare {left right} equal := by
    rcases compareLex_eq_eq.mp equal with ⟨sources, symbols⟩
    cases left
    cases right
    cases Std.LawfulEqOrd.eq_of_compare sources
    cases Std.LawfulEqOrd.eq_of_compare symbols
    rfl

end Move

/-! A single edge is a move with one of its targets. -/

structure Edge where
  source : StateId
  symbol : Symbol
  target : StateId
deriving DecidableEq

namespace Edge

def move (edge : Edge) : Move := ⟨edge.source, edge.symbol⟩

def relabel (transform : StateId → StateId) (edge : Edge) : Edge :=
  ⟨transform edge.source, edge.symbol, transform edge.target⟩

end Edge

abbrev Transitions := StateRelation Move

namespace Transitions

instance : Membership Edge Transitions :=
  ⟨fun transitions edge => edge.target ∈ transitions.targets edge.move⟩

theorem mem_iff {transitions : Transitions} {edge : Edge} :
    edge ∈ transitions ↔ edge.target ∈ transitions.targets ⟨edge.source, edge.symbol⟩ := Iff.rfl

theorem ext {left right : Transitions} (same : ∀ edge : Edge, edge ∈ left ↔ edge ∈ right) :
    left = right :=
  StateRelation.ext fun move => StateSet.ext fun target =>
    same ⟨move.source, move.symbol, target⟩

@[simp] theorem not_mem_empty (edge : Edge) : edge ∉ (∅ : Transitions) := by
  simp [mem_iff]

/-! ## Adding edges -/

def add (transitions : Transitions) (source : StateId) (symbol : Symbol) (targets : StateSet) :
    Transitions :=
  transitions.insert ⟨source, symbol⟩ targets

@[simp] theorem mem_add {transitions : Transitions} {source : StateId} {symbol : Symbol}
    {targets : StateSet} {edge : Edge} :
    edge ∈ transitions.add source symbol targets ↔
      edge ∈ transitions ∨ source = edge.source ∧ symbol = edge.symbol ∧ edge.target ∈ targets := by
  simp [mem_iff, add, and_assoc]

/-- To leave out a label without targets changes nothing. -/
theorem add_of_isEmpty {transitions : Transitions} {source : StateId} {symbol : Symbol}
    {targets : StateSet} (isEmpty : targets.isEmpty = true) :
    transitions.add source symbol targets = transitions :=
  dif_pos (Std.ExtTreeSet.isEmpty_iff.mp isEmpty)

theorem ite_isEmpty_add {transitions : Transitions} {source : StateId} {symbol : Symbol}
    {targets : StateSet} :
    (if targets.isEmpty then transitions else transitions.add source symbol targets) =
      transitions.add source symbol targets := by
  cases isEmpty : targets.isEmpty with
  | false => rfl
  | true => exact (add_of_isEmpty isEmpty).symm

def addEdge (transitions : Transitions) (edge : Edge) : Transitions :=
  transitions.add edge.source edge.symbol {edge.target}

@[simp] theorem mem_addEdge {transitions : Transitions} {added edge : Edge} :
    edge ∈ transitions.addEdge added ↔ edge ∈ transitions ∨ added = edge := by
  cases added
  cases edge
  simp [addEdge]

@[simp] theorem mem_union {left right : Transitions} {edge : Edge} :
    edge ∈ StateRelation.union left right ↔ edge ∈ left ∨ edge ∈ right :=
  StateRelation.mem_targets_union

/-! ## Listing edges -/

/-- Every edge once, by source, then label, then target. -/
def edges (transitions : Transitions) : List Edge :=
  transitions.entries.flatMap fun (move, targets) =>
    targets.toList.map fun target => ⟨move.source, move.symbol, target⟩

@[simp] theorem mem_edges {transitions : Transitions} {edge : Edge} :
    edge ∈ transitions.edges ↔ edge ∈ transitions := by
  rw [edges, List.mem_flatMap]
  constructor
  · intro listed
    rcases listed with ⟨⟨move, targets⟩, entry, member⟩
    rcases List.mem_map.mp member with ⟨target, targetMember, rfl⟩
    exact StateRelation.mem_targets_of_entry entry (Std.ExtTreeSet.mem_toList.mp targetMember)
  · intro member
    exact ⟨(edge.move, transitions.targets edge.move), StateRelation.entry_of_mem_targets member,
      List.mem_map.mpr ⟨edge.target, Std.ExtTreeSet.mem_toList.mpr member, rfl⟩⟩

/-- The number of edges. -/
def edgeCount (transitions : Transitions) : Nat :=
  transitions.entries.foldl (fun count row => count + row.2.size) 0

theorem foldl_size_eq (rows : List (Move × StateSet)) (count : Nat) :
    rows.foldl (fun count row => count + row.2.size) count =
      count + (rows.flatMap fun row =>
        row.2.toList.map fun target => (⟨row.1.source, row.1.symbol, target⟩ : Edge)).length := by
  induction rows generalizing count with
  | nil => rfl
  | cons row rows induction =>
      rw [List.foldl_cons, induction, List.flatMap_cons, List.length_append, List.length_map,
        Std.ExtTreeSet.length_toList, Nat.add_assoc]

theorem length_edges (transitions : Transitions) :
    transitions.edges.length = transitions.edgeCount := by
  rw [edgeCount, foldl_size_eq, Nat.zero_add]
  rfl

/-- The labels that leave a state, each with its targets, in ascending order of the labels. -/
def leaving (transitions : Transitions) (state : StateId) : List (Symbol × StateSet) :=
  transitions.entries.filterMap fun (move, targets) =>
    if move.source = state then some (move.symbol, targets) else none

theorem mem_leaving_iff {transitions : Transitions} {source : StateId} {symbol : Symbol}
    {targets : StateSet} :
    (symbol, targets) ∈ transitions.leaving source ↔
      (⟨source, symbol⟩, targets) ∈ transitions.entries := by
  rw [leaving, List.mem_filterMap]
  constructor
  · intro listed
    rcases listed with ⟨⟨move, stored⟩, entry, selected⟩
    rcases Option.ite_none_right_eq_some.mp selected with ⟨rfl, equal⟩
    cases equal
    exact entry
  · intro entry
    exact ⟨(⟨source, symbol⟩, targets), entry, if_pos rfl⟩

theorem source_ne_of_leaving_eq_nil {transitions : Transitions} {source : StateId} {edge : Edge}
    (noRows : transitions.leaving source = []) (member : edge ∈ transitions) :
    edge.source ≠ source := by
  intro equal
  have row := mem_leaving_iff.mpr (StateRelation.entry_of_mem_targets member)
  rw [equal, noRows] at row
  cases row

/-! ## Changing the states -/

/-- The image of every edge. -/
def relabel (transform : StateId → StateId) (transitions : Transitions) : Transitions :=
  StateRelation.ofRows <| transitions.entries.map fun (move, targets) =>
    (⟨transform move.source, move.symbol⟩, targets.map transform)

theorem mem_relabel {transform : StateId → StateId} {transitions : Transitions} {edge : Edge} :
    edge ∈ transitions.relabel transform ↔
      ∃ preimage ∈ transitions, preimage.relabel transform = edge := by
  rw [mem_iff, relabel, StateRelation.mem_targets_ofRows]
  constructor
  · intro listed
    rcases listed with ⟨row, rowMember, equal, member⟩
    rcases List.mem_map.mp rowMember with ⟨⟨move, targets⟩, entry, rfl⟩
    rcases StateSet.mem_map.mp member with ⟨target, targetMember, imageEqual⟩
    refine ⟨⟨move.source, move.symbol, target⟩,
      StateRelation.mem_targets_of_entry entry targetMember, ?_⟩
    cases edge
    cases equal
    cases imageEqual
    rfl
  · intro image
    rcases image with ⟨preimage, member, rfl⟩
    refine ⟨(⟨transform preimage.source, preimage.symbol⟩,
      (transitions.targets preimage.move).map transform), ?_, rfl, ?_⟩
    · exact List.mem_map.mpr ⟨(preimage.move, transitions.targets preimage.move),
        StateRelation.entry_of_mem_targets member, rfl⟩
    · exact StateSet.mem_map.mpr ⟨preimage.target, member, rfl⟩

@[simp] theorem mem_filterKeys {transitions : Transitions} {selected : Move → Bool} {edge : Edge} :
    edge ∈ transitions.filterKeys selected ↔ edge ∈ transitions ∧ selected edge.move = true := by
  change edge.target ∈ (transitions.filterKeys selected).targets edge.move ↔ _
  rw [StateRelation.targets_filterKeys]
  cases selected edge.move with
  | true => exact (and_iff_left rfl).symm
  | false => simp

/-- The edges whose source belongs to a set. -/
def restrictSources (transitions : Transitions) (states : StateSet) : Transitions :=
  transitions.filterKeys fun move => states.contains move.source

@[simp] theorem mem_restrictSources {transitions : Transitions} {states : StateSet} {edge : Edge} :
    edge ∈ transitions.restrictSources states ↔ edge ∈ transitions ∧ edge.source ∈ states := by
  rw [restrictSources, mem_filterKeys, Std.ExtTreeSet.contains_iff_mem]
  rfl

/-- The same edges with their labels forgotten. -/
def adjacency (transitions : Transitions) : StateRelation StateId :=
  StateRelation.ofRows <| transitions.entries.map fun (move, targets) => (move.source, targets)

theorem mem_targets_adjacency {transitions : Transitions} {source target : StateId} :
    target ∈ transitions.adjacency.targets source ↔
      ∃ symbol, (⟨source, symbol, target⟩ : Edge) ∈ transitions := by
  rw [adjacency, StateRelation.mem_targets_ofRows]
  constructor
  · intro listed
    rcases listed with ⟨row, rowMember, rfl, member⟩
    rcases List.mem_map.mp rowMember with ⟨⟨move, targets⟩, entry, rfl⟩
    exact ⟨move.symbol, StateRelation.mem_targets_of_entry entry member⟩
  · intro edge
    rcases edge with ⟨symbol, member⟩
    exact ⟨(source, transitions.targets ⟨source, symbol⟩),
      List.mem_map.mpr ⟨(⟨source, symbol⟩, transitions.targets ⟨source, symbol⟩),
        StateRelation.entry_of_mem_targets member, rfl⟩, rfl, member⟩

end Transitions

end EpsilonAutomata
