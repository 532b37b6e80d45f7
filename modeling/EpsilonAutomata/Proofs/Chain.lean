import EpsilonAutomata.Proofs.Simulation

/-!
Chains that read one word.

The states of a chain are the positions in its word, and each edge goes from one position to the next.
So a state is reached over one word only, a prefix of the word of the chain, and no two states are
ever active together. Where the word has more letters than there are states the chain reads its first
`2 ^ 32 - 1` letters.
-/

namespace EpsilonAutomata

/-- An edge from a position in the word to the next one, labelled by the letter in between. -/
def Word.IsLink (letters : Word) (edge : Edge) : Prop :=
  edge.target.index = edge.source.index + 1 ∧
    ∃ character, letters[edge.source.index]? = some character ∧ edge.symbol = .literal character

namespace Word

variable {letters rest : Word} {character : Char} {edge : Edge} {position : Nat}

theorem not_isLink_nil (edge : Edge) : ¬IsLink [] edge := by
  rintro ⟨_, character, found, _⟩
  cases found

theorem getElem?_concat_eq_some_iff {other : Char} :
    (letters ++ [character])[position]? = some other ↔
      letters[position]? = some other ∨ position = letters.length ∧ character = other := by
  rw [List.getElem?_append]
  by_cases inside : position < letters.length
  · simp [inside, Nat.ne_of_lt inside]
  · rw [if_neg inside, List.getElem?_singleton, List.getElem?_eq_none (Nat.le_of_not_lt inside)]
    have atEnd : position - letters.length = 0 ↔ position = letters.length := by omega
    simp [atEnd]

/-- One more letter is one more link. -/
theorem isLink_concat_iff :
    (letters ++ [character]).IsLink edge ↔
      letters.IsLink edge ∨ edge.source.index = letters.length ∧
        edge.symbol = .literal character ∧ edge.target.index = letters.length + 1 := by
  simp only [IsLink, getElem?_concat_eq_some_iff]
  constructor
  · rintro ⟨step, letter, old | ⟨atEnd, rfl⟩, label⟩
    · exact .inl ⟨step, letter, old, label⟩
    · exact .inr ⟨atEnd, label, atEnd ▸ step⟩
  · rintro (⟨step, letter, old, label⟩ | ⟨atEnd, label, step⟩)
    · exact ⟨step, letter, .inl old, label⟩
    · exact ⟨atEnd ▸ step, character, .inr ⟨atEnd, rfl⟩, label⟩

theorem cons_prefix_drop_iff :
    character :: rest <+: letters.drop position ↔
      letters[position]? = some character ∧ rest <+: letters.drop (position + 1) := by
  rw [List.cons_prefix_iff, ← List.head?_drop, ← List.tail_drop]
  cases letters.drop position with
  | nil => simp
  | cons head tail => simp [and_assoc, eq_comm]

end Word

namespace Automaton

/-- The automaton is the chain of the word: each position has a state, and the last one accepts. -/
structure IsChain (automaton : Automaton) (letters : Word) : Prop where
  fits : letters.length < 4294967296
  initial : automaton.initial = .first
  accepting : ∀ state, state ∈ automaton.accepting ↔ state.index = letters.length
  edges : ∀ edge : Edge, edge ∈ automaton.transitions ↔ letters.IsLink edge

variable {automaton : Automaton} {letters front read : Word} {source target last : StateId}

/-! ## Construction -/

theorem isChain_acceptOnly (initial : automaton.initial = .first)
    (edges : ∀ edge : Edge, edge ∈ automaton.transitions ↔ letters.IsLink edge)
    (position : last.index = letters.length) :
    IsChain { automaton with accepting := {last} } letters where
  fits := position ▸ last.index_lt
  initial := initial
  accepting state := by
    rw [StateSet.mem_singleton, ← position, StateId.index_inj]
    exact eq_comm
  edges := edges

/-- The part of the chain that is there already ends in the position that comes next. -/
theorem isChain_extendChain (initial : automaton.initial = .first)
    (edges : ∀ edge : Edge, edge ∈ automaton.transitions ↔ front.IsLink edge)
    (position : last.index = front.length) (rest : Word) :
    (automaton.extendChain last rest).IsChain (front ++ rest.take (4294967295 - front.length)) := by
  induction rest generalizing automaton last front with
  | nil =>
      rw [List.take_nil, List.append_nil]
      exact isChain_acceptOnly initial edges position
  | cons character rest induction =>
      rw [extendChain]
      cases following : last.next? with
      | none =>
          have full : 4294967295 - front.length = 0 := by
            rw [← position, StateId.next?_eq_none_iff.mp following]
          rw [full, List.take_zero, List.append_nil]
          exact isChain_acceptOnly initial edges position
      | some fresh =>
          have index := StateId.next?_eq_some_iff.mp following
          have inRange := fresh.index_lt
          have room : 4294967295 - front.length = 4294967295 - (front ++ [character]).length + 1 := by
            rw [List.length_append, List.length_singleton]
            omega
          rw [room, List.take_succ_cons, List.append_cons]
          refine induction initial (fun edge => ?_) ?_
          · rw [Transitions.mem_add, edges, Word.isLink_concat_iff]
            refine or_congr_right ?_
            rw [StateSet.mem_singleton, ← position, ← index, StateId.index_inj, StateId.index_inj]
            exact and_congr eq_comm (and_congr eq_comm eq_comm)
          · rw [index, position, List.length_append, List.length_singleton]

theorem isChain_word (letters : Word) : (word letters).IsChain (letters.take 4294967295) :=
  isChain_extendChain rfl (fun edge => iff_of_false (Transitions.not_mem_empty edge)
    (Word.not_isLink_nil edge)) rfl letters

/-! ## Reading -/

theorem eq_of_reads_nil (noEpsilon : ∀ edge ∈ automaton.transitions, edge.symbol ≠ .epsilon)
    (reads : automaton.Reads source [] target) : source = target := by
  rcases reads with ⟨symbols, path, spelling⟩
  cases path with
  | nil => rfl
  | @cons _ _ _ symbol _ edge _ =>
      cases symbol with
      | epsilon => exact absurd rfl (noEpsilon _ edge)
      | literal character => cases spelling

namespace IsChain

theorem reads_nil_iff (chain : automaton.IsChain letters) :
    automaton.Reads source [] target ↔ source = target := by
  constructor
  · refine eq_of_reads_nil fun edge member isEpsilon => ?_
    rcases (chain.edges edge).mp member with ⟨_, character, _, label⟩
    exact Symbol.noConfusion (isEpsilon.symm.trans label)
  · rintro rfl
    exact .refl automaton source

/-- From a position the chain reads what follows there, a letter for each step. -/
theorem reads_iff (chain : automaton.IsChain letters) :
    automaton.Reads source read target ↔
      target.index = source.index + read.length ∧ read <+: letters.drop source.index := by
  induction read generalizing source with
  | nil =>
      rw [chain.reads_nil_iff]
      constructor
      · rintro rfl
        exact ⟨rfl, List.nil_prefix⟩
      · exact fun same => StateId.eq_of_index_eq same.1.symm
  | cons character rest induction =>
      rw [Word.cons_prefix_drop_iff]
      constructor
      · intro reads
        rcases reads.uncons with ⟨before, after, silent, edge, following⟩
        rcases chain.reads_nil_iff.mp silent with rfl
        rcases (chain.edges _).mp edge with ⟨step, letter, found, label⟩
        rcases induction.mp following with ⟨index, continues⟩
        cases label
        change after.index = source.index + 1 at step
        rw [step] at index continues
        exact ⟨by rw [index, List.length_cons]; omega, found, continues⟩
      · rintro ⟨index, found, continues⟩
        have inside := (List.getElem?_eq_some_iff.mp found).1
        let middle : StateId := ⟨source.index + 1, Nat.lt_of_le_of_lt inside chain.fits⟩
        have link : (⟨source, .literal character, middle⟩ : Edge) ∈ automaton.transitions :=
          (chain.edges _).mpr ⟨rfl, character, found, rfl⟩
        refine .literal link (induction.mpr ⟨?_, continues⟩)
        change target.index = source.index + 1 + rest.length
        rw [index, List.length_cons]
        omega

theorem reads_initial_iff (chain : automaton.IsChain letters) :
    automaton.Reads automaton.initial read target ↔
      target.index = read.length ∧ read <+: letters := by
  rw [chain.reads_iff, chain.initial]
  change target.index = 0 + read.length ∧ read <+: letters.drop 0 ↔ _
  rw [Nat.zero_add, List.drop_zero]

/-! ## Active states -/

theorem mem_extended_initial_iff (chain : automaton.IsChain letters) :
    target ∈ automaton.simulator.extended {automaton.initial} read ↔
      target.index = read.length ∧ read <+: letters := by
  simp only [mem_extended_iff, StateSet.mem_singleton, exists_eq_left', chain.reads_initial_iff]

theorem extended_initial_of_prefix (chain : automaton.IsChain letters) {state : StateId}
    (begins : read <+: letters) (index : state.index = read.length) :
    automaton.simulator.extended {automaton.initial} read = {state} := by
  apply StateSet.ext
  intro target
  rw [chain.mem_extended_initial_iff, and_iff_left begins, StateSet.mem_singleton, ← index,
    StateId.index_inj]
  exact eq_comm

theorem extended_initial_of_not_prefix (chain : automaton.IsChain letters)
    (diverges : ¬read <+: letters) :
    automaton.simulator.extended {automaton.initial} read = ∅ := by
  rw [Std.ExtTreeSet.eq_empty_iff_forall_not_mem]
  exact fun target reached => diverges (chain.mem_extended_initial_iff.mp reached).2

theorem accepts_iff (chain : automaton.IsChain letters) :
    automaton.accepts read = true ↔ read = letters := by
  change automaton.simulator.acceptsFrom automaton.initial read = true ↔ _
  rw [acceptsFrom_iff]
  constructor
  · rintro ⟨target, accepts, reads⟩
    have atEnd := (chain.accepting target).mp accepts
    rcases chain.reads_initial_iff.mp reads with ⟨index, begins⟩
    exact begins.eq_of_length (index.symm.trans atEnd)
  · rintro rfl
    let final : StateId := ⟨read.length, chain.fits⟩
    exact ⟨final, (chain.accepting final).mpr rfl,
      chain.reads_initial_iff.mpr ⟨rfl, List.prefix_rfl⟩⟩

end IsChain

/-- The chain of a word accepts that word and no other, or its first `2 ^ 32 - 1` letters where it has
more. After a prefix of the word the position that it ends in is active and nothing else; after any
other word nothing is. -/
theorem word_exact (letters : Word) :
    (∀ read, (word letters).accepts read = true ↔ read = letters.take 4294967295) ∧
    (letters.length ≤ 4294967295 →
      (∀ read, (word letters).accepts read = true ↔ read = letters) ∧
      (∀ position ≤ letters.length, ∃ state : StateId, state.index = position ∧
        (word letters).simulator.extended {(word letters).initial} (letters.take position) =
          {state}) ∧
      ∀ read, ¬read <+: letters →
        (word letters).simulator.extended {(word letters).initial} read = ∅) := by
  have chain := isChain_word letters
  refine ⟨fun read => chain.accepts_iff, fun short => ?_⟩
  rw [List.take_of_length_le short] at chain
  refine ⟨fun read => chain.accepts_iff, fun position inside => ?_, fun read diverges => ?_⟩
  · let state : StateId := ⟨position, Nat.lt_of_le_of_lt inside chain.fits⟩
    have length : (letters.take position).length = position := List.length_take_of_le inside
    exact ⟨state, rfl, chain.extended_initial_of_prefix (List.take_prefix position letters) length.symm⟩
  · exact chain.extended_initial_of_not_prefix diverges

/-- A letter comes twice. After the first of them its neighbour is read, and not the end of the word. -/
theorem word_exact_repeated :
    ['é', 'a', 'é'].length ≤ 4294967295 ∧ (word ['é', 'a', 'é']).accepts ['é', 'a', 'é'] = true ∧
      (∃ state : StateId, state.index = 1 ∧
        (word ['é', 'a', 'é']).simulator.extended {(word ['é', 'a', 'é']).initial} ['é'] = {state}) ∧
      ¬['é', 'é'] <+: ['é', 'a', 'é'] ∧
      (word ['é', 'a', 'é']).simulator.extended {(word ['é', 'a', 'é']).initial} ['é', 'é'] = ∅ := by
  have short : ['é', 'a', 'é'].length ≤ 4294967295 := by decide
  have diverges : ¬['é', 'é'] <+: ['é', 'a', 'é'] := by decide
  rcases (word_exact ['é', 'a', 'é']).2 short with ⟨accepts, follows, loses⟩
  exact ⟨short, (accepts _).mpr rfl, follows 1 (by decide), diverges, loses _ diverges⟩

end Automaton

end EpsilonAutomata
