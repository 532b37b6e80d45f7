import EpsilonAutomata.Assembly.History
import EpsilonAutomata.Proofs.Invariant.Combination
import EpsilonAutomata.Proofs.Combination.Blueprint

/-!
Blocks of an assembly stay apart.

As long as there are enough states, the states handed out follow one another without a gap
(`Assembly.History.Contiguous`). What is embedded next is therefore copied onto states that no edge
of the assembly touches and none of which accepts, and later requests do not touch the copies unless
they are for an edge or an accepting state.
-/

namespace EpsilonAutomata

/-! ## Every number is found -/

namespace Numbering

variable {numbering : Numbering} {states : StateSet} {image : StateId} {transitions : Transitions}
  {edge : Edge}

def Covers (numbering : Numbering) (states : StateSet) : Prop :=
  ∀ state ∈ states, numbering[state]? = some (numbering.copy state)

theorem mem_copies :
    image ∈ numbering.copies states ↔ ∃ state ∈ states, numbering[state]? = some image := by
  simp [copies]

theorem Covers.copies_eq_map (covers : numbering.Covers states) :
    numbering.copies states = states.map numbering.copy := by
  apply StateSet.ext
  intro image
  rw [mem_copies, StateSet.mem_map]
  exact exists_congr fun state => and_congr_right fun member => by
    rw [covers state member, Option.some.injEq]

theorem mem_copyRow {row : Move × StateSet} :
    edge ∈ numbering.copyRow transitions row ↔
      edge ∈ transitions ∨ numbering[row.1.source]? = some edge.source ∧
        row.1.symbol = edge.symbol ∧ edge.target ∈ numbering.copies row.2 := by
  rw [copyRow]
  cases numbering[row.1.source]? with
  | none => simp
  | some source =>
      simp only [Transitions.ite_isEmpty_add, Transitions.mem_add, Option.some.injEq]

theorem mem_foldl_copyRow {rows : List (Move × StateSet)} :
    edge ∈ rows.foldl numbering.copyRow transitions ↔
      edge ∈ transitions ∨ ∃ row ∈ rows, numbering[row.1.source]? = some edge.source ∧
        row.1.symbol = edge.symbol ∧ edge.target ∈ numbering.copies row.2 := by
  induction rows generalizing transitions with
  | nil => simp
  | cons row rows induction =>
      rw [List.foldl_cons, induction, mem_copyRow, or_assoc]
      simp

/-- Row by row, an edge is copied if both its ends have numbers. -/
theorem mem_foldl_copyRow_entries {copied : Transitions} :
    edge ∈ copied.entries.foldl numbering.copyRow transitions ↔
      edge ∈ transitions ∨ ∃ original ∈ copied, numbering[original.source]? = some edge.source ∧
        original.symbol = edge.symbol ∧ numbering[original.target]? = some edge.target := by
  rw [mem_foldl_copyRow]
  apply or_congr_right
  constructor
  · intro found
    rcases found with ⟨⟨move, targets⟩, entry, source, symbol, target⟩
    rcases mem_copies.mp target with ⟨original, member, numbered⟩
    exact ⟨⟨move.source, move.symbol, original⟩,
      StateRelation.mem_targets_of_entry entry member, source, symbol, numbered⟩
  · intro found
    rcases found with ⟨original, member, source, symbol, target⟩
    exact ⟨(original.move, copied.targets original.move), StateRelation.entry_of_mem_targets member,
      source, symbol, mem_copies.mpr ⟨original.target, member, target⟩⟩

/-- Where all ends have numbers, the edges are copied as they are. -/
theorem Covers.foldl_copyRow_entries (covers : numbering.Covers states) {copied : Transitions}
    (sources : ∀ edge ∈ copied, edge.source ∈ states)
    (targets : ∀ edge ∈ copied, edge.target ∈ states) :
    copied.entries.foldl numbering.copyRow transitions =
      transitions.union (copied.relabel numbering.copy) := by
  apply Transitions.ext
  intro edge
  rw [mem_foldl_copyRow_entries, Transitions.mem_union, Transitions.mem_relabel]
  apply or_congr_right
  refine exists_congr fun original => and_congr_right fun member => ?_
  rw [covers _ (sources original member), covers _ (targets original member), Option.some.injEq,
    Option.some.injEq]
  cases edge
  simp [Edge.relabel]

end Numbering

namespace Assembly

variable {assembly : Assembly} {source : Automaton} {keepAccepting : Bool} {state : StateId}

theorem covers_allocateEach (assembly : Assembly) (source : Automaton) :
    (assembly.allocateEach source.states.toList).1.Covers source.states := by
  intro state member
  have listed : state ∈ source.states.toList := Std.ExtTreeSet.mem_toList.mpr member
  rcases @exists_copy_allocateCopies state source.states.toList (∅, assembly) (.inl listed) with
    ⟨image, _, numbered⟩
  rw [allocateEach, Numbering.copy, Std.ExtTreeMap.getD_eq_getD_getElem?, numbered]
  rfl

/-- A well-formed automaton refers to no state without a number, so nothing of it is left out. -/
theorem embedByLookup_eq_embed (wellFormed : source.WellFormed) :
    assembly.embedByLookup source keepAccepting = assembly.embed source keepAccepting := by
  have covers := assembly.covers_allocateEach source
  rw [embedByLookup, embed]
  revert covers
  rcases assembly.allocateEach source.states.toList with ⟨numbering, allocated⟩
  intro covers
  change numbering.Covers source.states at covers
  have acceptingCovered : numbering.Covers source.accepting := fun state accepts =>
    covers state (wellFormed.accepting_subset state accepts)
  simp only [covers source.initial wellFormed.initial_mem, Option.getD_some,
    acceptingCovered.copies_eq_map,
    covers.foldl_copyRow_entries wellFormed.source_mem wellFormed.target_mem]

/-! ## One request -/

/-- The copies of the states in ascending order are the next states in ascending order. -/
theorem map_index_handOut_embed
    (room : assembly.next.index + source.stateCount ≤ 4294967296) :
    (assembly.handOut (.embed source keepAccepting)).map StateId.index =
      List.range' assembly.next.index source.stateCount := by
  have lengths : source.states.toList.length = source.stateCount := Std.ExtTreeSet.length_toList
  rw [handOut, List.map_map]
  apply List.ext_getElem
  · rw [List.length_map, List.length_range', lengths]
  · intro position inRange _
    have inList : position < source.states.toList.length := by rwa [List.length_map] at inRange
    have member : source.states.toList[position] ∈ source.states :=
      Std.ExtTreeSet.mem_toList.mp (List.getElem_mem inList)
    rw [List.getElem_map, Function.comp_apply, index_copy room member,
      StateSet.rank_getElem inList, List.getElem_range', Nat.one_mul]

theorem mem_handOut_embed :
    state ∈ assembly.handOut (.embed source keepAccepting) ↔
      ∃ original ∈ source.states, assembly.copy source original = state := by
  simp [handOut]

namespace History

variable {history : History} {first : StateId} {count : Nat} {request : Request} {edge : Edge}

/-! ## No gaps -/

/-- The states that were handed out are so many states from `first` on, each once, and the assembly
has these and no others. -/
structure HandsOut (history : History) (first : StateId) (count : Nat) : Prop where
  indices : history.handedOut.map StateId.index = List.range' first.index count
  states : ∀ state, state ∈ history.assembly.states ↔ state ∈ history.handedOut

theorem HandsOut.mem_iff (handsOut : history.HandsOut first count) :
    state ∈ history.handedOut ↔
      first.index ≤ state.index ∧ state.index < first.index + count := by
  rw [← List.mem_range'_1, ← handsOut.indices, List.mem_map]
  constructor
  · exact fun handed => ⟨state, handed, rfl⟩
  · intro listed
    rcases listed with ⟨other, handed, equal⟩
    exact StateId.eq_of_index_eq equal ▸ handed

/-- What is kept up from request to request. The state that is handed out next is known as long as
there is one. -/
structure Contiguous (history : History) (first : StateId) (count : Nat) : Prop
    extends history.HandsOut first count where
  next_index : first.index + count < 4294967296 →
    history.assembly.next.index = first.index + count
  wellFormed : history.assembly.WellFormed

theorem contiguous_startingAt (first : StateId) : (startingAt first).Contiguous first 0 where
  indices := rfl
  states _ := iff_of_false Std.ExtTreeSet.not_mem_empty List.not_mem_nil
  next_index _ := rfl
  wellFormed := wellFormed_startingAt first

namespace Contiguous

theorem extend (contiguous : history.Contiguous first count) {after : Assembly}
    {added : List StateId} {size : Nat}
    (indices : added.map StateId.index = List.range' (first.index + count) size)
    (states : ∀ state, state ∈ after.states ↔ state ∈ history.assembly.states ∨ state ∈ added)
    (next_index : first.index + (count + size) < 4294967296 →
      after.next.index = first.index + (count + size))
    (wellFormed : after.WellFormed) :
    (⟨after, history.handedOut ++ added⟩ : History).Contiguous first (count + size) where
  indices := by
    rw [List.map_append, contiguous.indices, indices, List.range'_append_1]
  states state := by
    rw [states, contiguous.states, List.mem_append]
  next_index := next_index
  wellFormed := wellFormed

theorem serve (contiguous : history.Contiguous first count) (admitted : history.Admits request)
    (room : first.index + count + request.size ≤ 4294967296) :
    (history.serve request).Contiguous first (count + request.size) := by
  cases request with
  | allocate =>
      have atNext := contiguous.next_index room
      apply contiguous.extend
      case indices => exact congrArg (fun index => [index]) atNext
      case states =>
        intro state
        rw [handOut, List.mem_singleton]
        exact StateSet.mem_insert.trans (or_comm.trans (or_congr_right eq_comm))
      case next_index =>
        intro more
        change history.assembly.next.next.index = first.index + (count + 1)
        rw [StateId.index_next (by rw [atNext]; exact more), atNext]
        rfl
      case wellFormed => exact contiguous.wellFormed.allocate
  | embed source keepAccepting =>
      change first.index + count + source.stateCount ≤ 4294967296 at room
      -- The block takes a state at least, so the next one to be handed out exists.
      have nonempty : 0 < source.stateCount := admitted.stateCount_pos
      have atNext := contiguous.next_index (by omega)
      have blockRoom : history.assembly.next.index + source.stateCount ≤ 4294967296 := by
        rwa [atNext]
      apply contiguous.extend
      case indices => rw [map_index_handOut_embed blockRoom, atNext]; rfl
      case states =>
        intro state
        rw [mem_handOut_embed, exists_copy_iff blockRoom]
        exact mem_states_embed blockRoom
      case next_index =>
        intro more
        change first.index + (count + source.stateCount) < 4294967296 at more
        refine (index_next_embed ?_).trans ?_
        · omega
        · rw [atNext, Nat.add_assoc]
          rfl
      case wellFormed => exact contiguous.wellFormed.embed admitted keepAccepting
  | addEpsilon source target =>
      apply contiguous.extend
      case indices => rfl
      case states => simp [Assembly.serve, handOut]
      case next_index => exact contiguous.next_index
      case wellFormed =>
        exact contiguous.wellFormed.addEpsilon ((contiguous.states source).mpr admitted.1)
          ((contiguous.states target).mpr admitted.2)
  | setAccepting state =>
      apply contiguous.extend
      case indices => rfl
      case states => simp [Assembly.serve, handOut]
      case next_index => exact contiguous.next_index
      case wellFormed =>
        exact contiguous.wellFormed.setAccepting ((contiguous.states state).mpr admitted)

/-! ## Embedding in the next block -/

section

variable (contiguous : history.Contiguous first count) (wellFormed : source.WellFormed)
  (room : first.index + count + source.stateCount ≤ 4294967296)

include contiguous wellFormed room

theorem next_index_of_room : history.assembly.next.index = first.index + count := by
  have nonempty := wellFormed.stateCount_pos
  exact contiguous.next_index (by omega)

theorem avoids_copy (handed : state ∈ history.handedOut) :
    source.Avoids (history.assembly.copy source) state := by
  have atNext := contiguous.next_index_of_room wellFormed room
  apply Assembly.avoids_copy (by rwa [atNext])
  rw [atNext]
  exact (contiguous.mem_iff.mp handed).2

theorem not_exists_copied_edge
    (touches : edge.source ∈ history.handedOut ∨ edge.target ∈ history.handedOut) :
    ¬∃ original ∈ source.transitions, original.relabel (history.assembly.copy source) = edge := by
  rcases touches with handed | handed
  · exact Automaton.not_exists_relabel wellFormed (contiguous.avoids_copy wellFormed room handed)
  · intro found
    rcases found with ⟨original, member, rfl⟩
    exact contiguous.avoids_copy wellFormed room handed original.target
      (wellFormed.target_mem original member) rfl

end

end Contiguous

end History

/-- The automaton is copied onto the block of states from `least` on, in their order. The copies
have the edges between them that the originals have and no others to or from anywhere, they accept
where the originals do if that is to be kept, and no reference of the automaton is left out. -/
structure EmbedsAsBlock (assembly : Assembly) (source : Automaton) (keepAccepting : Bool)
    (least : Nat) : Prop where
  found : assembly.embedByLookup source keepAccepting = assembly.embed source keepAccepting
  offset : (assembly.embed source keepAccepting).1.offset.index = least
  ascends : source.states.Ascends (assembly.copy source)
  block : ∀ state, (∃ original ∈ source.states, assembly.copy source original = state) ↔
    least ≤ state.index ∧ state.index < least + source.stateCount
  initial : (assembly.embed source keepAccepting).1.initial = assembly.copy source source.initial
  accepting : ∀ state, state ∈ (assembly.embed source keepAccepting).1.accepting ↔
    ∃ original ∈ source.accepting, assembly.copy source original = state
  edges : ∀ edge : Edge,
    (∃ original ∈ source.states, assembly.copy source original = edge.source ∨
      assembly.copy source original = edge.target) →
    (edge ∈ (assembly.embed source keepAccepting).2.transitions ↔
      ∃ original ∈ source.transitions, original.relabel (assembly.copy source) = edge)
  accepts : ∀ original ∈ source.states,
    (assembly.copy source original ∈ (assembly.embed source keepAccepting).2.accepting ↔
      keepAccepting = true ∧ original ∈ source.accepting)

namespace History

variable {history : History} {first : StateId} {count : Nat} {request : Request}
  {requests earlier between later : List Request} {edge : Edge}

theorem Contiguous.embedsAsBlock (contiguous : history.Contiguous first count)
    (wellFormed : source.WellFormed)
    (room : first.index + count + source.stateCount ≤ 4294967296) (keepAccepting : Bool) :
    history.assembly.EmbedsAsBlock source keepAccepting (first.index + count) := by
  have atNext := contiguous.next_index_of_room wellFormed room
  have blockRoom : history.assembly.next.index + source.stateCount ≤ 4294967296 := by rwa [atNext]
  have notHanded : ∀ original ∈ source.states,
      history.assembly.copy source original ∉ history.assembly.states :=
    fun original member handed => contiguous.avoids_copy wellFormed room
      ((contiguous.states _).mp handed) original member rfl
  constructor
  case found => exact embedByLookup_eq_embed wellFormed
  case offset => exact atNext
  case ascends => exact ascends_copy blockRoom
  case block =>
    intro state
    rw [exists_copy_iff blockRoom, atNext]
  case initial => rfl
  case accepting => exact fun state => StateSet.mem_map
  case edges =>
    intro edge touches
    rcases touches with ⟨original, member, touches⟩
    apply mem_transitions_embed.trans
    apply or_iff_right
    -- An edge that was there before has both its ends among the states handed out.
    intro old
    rcases touches with equal | equal
    · exact notHanded original member (equal ▸ contiguous.wellFormed.source_mem edge old)
    · exact notHanded original member (equal ▸ contiguous.wellFormed.target_mem edge old)
  case accepts =>
    intro original member
    rw [mem_accepting_embed, source.exists_accepting_image_iff wellFormed
      (separates_copy blockRoom) member]
    apply or_iff_right
    exact fun old => notHanded original member (contiguous.wellFormed.accepting_subset _ old)

/-! ## What later requests keep -/

/-- About the states that were handed out, the requests change nothing that they are not for: an
edge at one of them is there afterwards just if it was there before or was asked for, and so it is
with acceptance. -/
structure KeptBy (history : History) (requests : List Request) : Prop where
  edges : ∀ edge : Edge, edge.source ∈ history.handedOut ∨ edge.target ∈ history.handedOut →
    (edge ∈ (history.serveAll requests).assembly.transitions ↔
      edge ∈ history.assembly.transitions ∨
        edge.symbol = .epsilon ∧ .addEpsilon edge.source edge.target ∈ requests)
  accepting : ∀ state ∈ history.handedOut,
    (state ∈ (history.serveAll requests).assembly.accepting ↔
      state ∈ history.assembly.accepting ∨ .setAccepting state ∈ requests)

theorem keptBy_nil (history : History) : history.KeptBy [] where
  edges edge _ := by simp [serveAll]
  accepting state _ := by simp [serveAll]

theorem KeptBy.cons (kept : history.KeptBy [request])
    (keptAfter : (history.serve request).KeptBy requests) :
    history.KeptBy (request :: requests) where
  edges edge touches := by
    have still : edge.source ∈ (history.serve request).handedOut ∨
        edge.target ∈ (history.serve request).handedOut :=
      touches.imp (List.mem_append_left _) (List.mem_append_left _)
    change edge ∈ ((history.serve request).serveAll requests).assembly.transitions ↔ _
    rw [keptAfter.edges edge still]
    change (edge ∈ (history.serveAll [request]).assembly.transitions ∨ _) ↔ _
    rw [kept.edges edge touches, or_assoc, ← and_or_left, List.mem_singleton, List.mem_cons]
  accepting state handed := by
    change state ∈ ((history.serve request).serveAll requests).assembly.accepting ↔ _
    rw [keptAfter.accepting state (List.mem_append_left _ handed)]
    change (state ∈ (history.serveAll [request]).assembly.accepting ∨ _) ↔ _
    rw [kept.accepting state handed, or_assoc, List.mem_singleton, List.mem_cons]

/-- New states and copies are at no edge of the others, and edges and accepting states that are
asked for are all that is added. -/
theorem Contiguous.keptBy (contiguous : history.Contiguous first count)
    (admitted : history.Admits request)
    (room : first.index + count + request.size ≤ 4294967296) : history.KeptBy [request] := by
  cases request with
  | allocate =>
      constructor
      case edges =>
        intro edge _
        change edge ∈ history.assembly.transitions ↔ _
        simp
      case accepting =>
        intro state _
        change state ∈ history.assembly.accepting ↔ _
        simp
  | embed source keepAccepting =>
      constructor
      case edges =>
        intro edge touches
        have notCopied := contiguous.not_exists_copied_edge admitted room touches
        refine mem_transitions_embed.trans ?_
        simp [notCopied]
      case accepting =>
        intro state handed
        have notCopied := Automaton.not_exists_accepting_image admitted
          (contiguous.avoids_copy admitted room handed)
        refine mem_accepting_embed.trans ?_
        simp [notCopied]
  | addEpsilon source target =>
      constructor
      case edges =>
        intro edge _
        refine mem_transitions_addEpsilon.trans (or_congr_right ?_)
        cases edge
        simp [eq_comm, and_left_comm]
      case accepting =>
        intro state _
        change state ∈ history.assembly.accepting ↔ _
        simp
  | setAccepting state =>
      constructor
      case edges =>
        intro edge _
        change edge ∈ history.assembly.transitions ↔ _
        simp
      case accepting =>
        intro other _
        refine StateSet.mem_insert.trans (or_comm.trans (or_congr_right ?_))
        simp [eq_comm]

/-! ## Runs of requests -/

/-- The history has no gaps, and it admits the requests and has the states for them. -/
structure ReadyFor (history : History) (first : StateId) (count : Nat) (requests : List Request) :
    Prop where
  contiguous : history.Contiguous first count
  admitted : history.AdmitsAll requests
  room : first.index + count + totalSize requests ≤ 4294967296

namespace ReadyFor

theorem room_head (ready : history.ReadyFor first count (request :: requests)) :
    first.index + count + request.size + totalSize requests ≤ 4294967296 := by
  have room := ready.room
  rwa [totalSize, ← Nat.add_assoc] at room

theorem serve (ready : history.ReadyFor first count (request :: requests)) :
    (history.serve request).ReadyFor first (count + request.size) requests where
  contiguous := ready.contiguous.serve ready.admitted.1 (Nat.le_of_add_right_le ready.room_head)
  admitted := ready.admitted.2
  room := by
    rw [← Nat.add_assoc]
    exact ready.room_head

theorem serveAll (ready : history.ReadyFor first count (earlier ++ later)) :
    (history.serveAll earlier).ReadyFor first (count + totalSize earlier) later := by
  induction earlier generalizing history count with
  | nil => exact ready
  | cons request rest induction =>
      have served := induction ready.serve
      rwa [Nat.add_assoc] at served

theorem keptBy (ready : history.ReadyFor first count (between ++ later)) :
    history.KeptBy between := by
  induction between generalizing history count with
  | nil => exact history.keptBy_nil
  | cons request rest induction =>
      have step := ready.contiguous.keptBy ready.admitted.1 (Nat.le_of_add_right_le ready.room_head)
      exact step.cons (induction ready.serve)

end ReadyFor

/-- The states of an assembly are handed out one after the other, each once. Each automaton that is
embedded gets the states that come next as its block, and no request for a state or a block changes
what is there already. All this holds for any requests as long as there are states for them, at each
moment and between any two. -/
theorem blocks_exact {first : StateId} {requests : List Request}
    (admitted : (startingAt first).AdmitsAll requests)
    (room : first.index + totalSize requests ≤ 4294967296) :
    ∀ earlier between later, requests = earlier ++ between ++ later →
      ((startingAt first).serveAll earlier).HandsOut first (totalSize earlier) ∧
      ((startingAt first).serveAll earlier).KeptBy between ∧
      ∀ source keepAccepting, between = [.embed source keepAccepting] →
        ((startingAt first).serveAll earlier).assembly.EmbedsAsBlock source keepAccepting
          (first.index + totalSize earlier) := by
  rintro earlier between later rfl
  rw [List.append_assoc] at admitted room
  have start : (startingAt first).ReadyFor first 0 (earlier ++ (between ++ later)) :=
    ⟨contiguous_startingAt first, admitted, room⟩
  have ready := start.serveAll
  rw [Nat.zero_add] at ready
  refine ⟨ready.contiguous.toHandsOut, ready.keptBy, ?_⟩
  rintro source keepAccepting rfl
  exact ready.contiguous.embedsAsBlock ready.admitted.1 (Nat.le_of_add_right_le ready.room_head)
    keepAccepting

/-- A state of its own, a block of three and a block of two: six states in all. -/
def lastSix : List Request :=
  [.allocate, .embed .scattered true, .embed (.symbol 'b') false,
    .addEpsilon ⟨4294967290, by decide⟩ .last,
    .setAccepting ⟨4294967292, by decide⟩]

/-- From the sixth last state on, the second block ends with the last one. A state of the first
block accepts afterwards because that was asked for, and still has no edge to the last state. -/
theorem blocks_exact_lastSix :
    let start := startingAt ⟨4294967290, by decide⟩
    let half := start.serveAll (lastSix.take 2)
    let state : StateId := ⟨4294967292, by decide⟩
    start.AdmitsAll lastSix ∧ 4294967290 + totalSize lastSix ≤ 4294967296 ∧
      (start.serveAll lastSix).handedOut.map StateId.index =
        [4294967290, 4294967291, 4294967292, 4294967293, 4294967294, 4294967295] ∧
      half.assembly.EmbedsAsBlock (.symbol 'b') false 4294967294 ∧
      half.KeptBy (lastSix.drop 2) ∧
      state ∈ half.handedOut ∧ state ∉ half.assembly.accepting ∧
      state ∈ (start.serveAll lastSix).assembly.accepting ∧
      (⟨state, .literal 'a', .last⟩ : Edge) ∉ (start.serveAll lastSix).assembly.transitions := by
  intro start half state
  have admitted : start.AdmitsAll lastSix := by decide +kernel
  have room : 4294967290 + totalSize lastSix ≤ 4294967296 := by decide +kernel
  have handed : state ∈ half.handedOut := by decide +kernel
  have rejectsBefore : state ∉ half.assembly.accepting := by decide +kernel
  have absentBefore : (⟨state, .literal 'a', .last⟩ : Edge) ∉ half.assembly.transitions := by
    rw [Transitions.mem_iff]
    decide +kernel
  have atEnd := (blocks_exact admitted room lastSix [] [] rfl).1
  have second := (blocks_exact admitted room (lastSix.take 2) [.embed (.symbol 'b') false]
    (lastSix.drop 3) rfl).2.2
  have kept := (blocks_exact admitted room (lastSix.take 2) (lastSix.drop 2) [] rfl).2.1
  refine ⟨admitted, room, ?indices, ?block, kept, handed, rejectsBefore, ?accepts, ?absent⟩
  case indices =>
    have listed : List.range' 4294967290 (totalSize lastSix) =
        [4294967290, 4294967291, 4294967292, 4294967293, 4294967294, 4294967295] := by
      decide +kernel
    exact atEnd.indices.trans listed
  case block =>
    have least : 4294967290 + totalSize (lastSix.take 2) = 4294967294 := by decide +kernel
    exact least ▸ second (.symbol 'b') false rfl
  case accepts =>
    have asked : .setAccepting state ∈ lastSix.drop 2 := by simp [lastSix, state]
    exact (kept.accepting state handed).mpr (.inr asked)
  case absent =>
    intro present
    rcases (kept.edges _ (.inl handed)).mp present with before | ⟨isEpsilon, _⟩
    · exact absentBefore before
    · cases isEpsilon

end History

end Assembly

end EpsilonAutomata
