import EpsilonAutomata.Proofs.Language

/-!
Copies of an automaton inside another.

A host contains a copy of a guest if it has the images of all edges of the guest, and if the copy
is left by no other edges than epsilon edges from accepting states to agreed exits. A run of the
host that starts in the copy is then a run of the guest up to the first exit, so the language of a
copied state is the language it had, followed by whatever can be read on from an accepting state
(`Copy.languageFrom_eq`).
-/

namespace EpsilonAutomata

structure Copy (host guest : Automaton) (image : StateId → StateId) (exits : StateId → Prop) :
    Prop where
  copied : ∀ edge ∈ guest.transitions, edge.relabel image ∈ host.transitions
  leaving : ∀ state ∈ guest.states, ∀ symbol target,
    (⟨image state, symbol, target⟩ : Edge) ∈ host.transitions →
      (∃ next, (⟨state, symbol, next⟩ : Edge) ∈ guest.transitions ∧ image next = target) ∨
        state ∈ guest.accepting ∧ symbol = .epsilon ∧ exits target

namespace Copy

/-- The image is a copy if every other edge of the host is an exit or has its source outside of
the image. -/
theorem of_separates {host guest : Automaton} {image : StateId → StateId}
    {exits : StateId → Prop} (wellFormed : guest.WellFormed) (separates : guest.Separates image)
    (copied : ∀ edge ∈ guest.transitions, edge.relabel image ∈ host.transitions)
    (others : ∀ edge ∈ host.transitions,
      (∃ original ∈ guest.transitions, original.relabel image = edge) ∨
        (∃ state ∈ guest.accepting, ∃ exit, exits exit ∧ ⟨image state, .epsilon, exit⟩ = edge) ∨
        guest.Avoids image edge.source) :
    Copy host guest image exits := by
  refine ⟨copied, ?_⟩
  intro state member symbol target edge
  rcases others _ edge with inside | exit | outside
  · rcases inside with ⟨original, originalMember, equal⟩
    have sources : original.source = state := separates original.source
      (wellFormed.source_mem original originalMember) state member (congrArg Edge.source equal)
    have symbols : original.symbol = symbol := congrArg Edge.symbol equal
    subst sources symbols
    exact .inl ⟨original.target, originalMember, congrArg Edge.target equal⟩
  · rcases exit with ⟨accepting, accepts, exit, isExit, equal⟩
    have sources : accepting = state := separates accepting
      (wellFormed.accepting_subset accepting accepts) state member (congrArg Edge.source equal)
    have symbols : .epsilon = symbol := congrArg Edge.symbol equal
    have targets : exit = target := congrArg Edge.target equal
    subst sources symbols targets
    exact .inr ⟨accepts, rfl, isExit⟩
  · exact absurd rfl (outside state member)

variable {host guest : Automaton} {image : StateId → StateId} {exits : StateId → Prop}
  {onward : Language Char} {source target : StateId} {symbols : List Symbol} {word : Word}

theorem path (copy : Copy host guest image exits)
    (path : Path guest.transitions source symbols target) :
    Path host.transitions (image source) symbols (image target) := by
  induction path with
  | nil state => exact .nil (image state)
  | cons edge _ induction => exact .cons (copy.copied _ edge) induction

theorem reads (copy : Copy host guest image exits) (reads : guest.Reads source word target) :
    host.Reads (image source) word (image target) := by
  rcases reads with ⟨symbols, path, spelling⟩
  exact ⟨symbols, copy.path path, spelling⟩

/-- Whatever can be read on from each accepting state can be read after a word of the guest. -/
theorem mul_le_languageFrom (copy : Copy host guest image exits)
    (continues : ∀ state ∈ guest.accepting, onward ≤ host.languageFrom (image state)) :
    guest.languageFrom source * onward ≤ host.languageFrom (image source) := by
  intro word member
  rcases Language.mem_mul.mp member with ⟨front, frontMember, back, backMember, rfl⟩
  rcases frontMember with ⟨middle, accepts, first⟩
  rcases continues middle accepts backMember with ⟨final, finalAccepts, second⟩
  exact ⟨final, finalAccepts, (copy.reads first).append second⟩

/-- A path of the host that starts in the copy either stays in it, and then the guest reads the
same word, or the guest accepts what is read before the first exit. The induction follows the path
for as long as it is in the copy. -/
theorem stays_or_leaves (copy : Copy host guest image exits) (wellFormed : guest.WellFormed)
    (member : source ∈ guest.states) (path : Path host.transitions (image source) symbols target) :
    (∃ state ∈ guest.states, image state = target ∧
        guest.Reads source (Word.ofSymbols symbols) state) ∨
      ∃ front ∈ guest.languageFrom source, ∃ exit back, exits exit ∧
        Path host.transitions exit back target ∧ back.length < symbols.length ∧
        front ++ Word.ofSymbols back = Word.ofSymbols symbols := by
  generalize start : image source = first at path
  induction path generalizing source with
  | nil state => exact .inl ⟨source, member, start, .refl guest source⟩
  | @cons first middle target symbol symbols edge rest induction =>
      cases start
      rcases copy.leaving source member symbol middle edge with inside | outside
      · rcases inside with ⟨next, copied, rfl⟩
        have nextMember : next ∈ guest.states := wellFormed.target_mem _ copied
        rcases induction nextMember rfl with stays | leaves
        · rcases stays with ⟨state, stateMember, equal, reads⟩
          have step : guest.Reads source (Word.ofSymbols [symbol]) next :=
            ⟨[symbol], .single copied, rfl⟩
          have joined := step.append reads
          rw [← Word.ofSymbols_append] at joined
          exact .inl ⟨state, stateMember, equal, joined⟩
        · rcases leaves with ⟨front, frontMember, exit, back, isExit, onward, shorter, spelling⟩
          have step := Automaton.append_mem_languageFrom copied frontMember
          refine .inr ⟨_, step, exit, back, isExit, onward, Nat.lt_succ_of_lt shorter, ?_⟩
          rw [List.append_assoc, spelling, ← Word.ofSymbols_append]
          rfl
      · rcases outside with ⟨accepts, rfl, isExit⟩
        exact .inr ⟨[], Automaton.nil_mem_languageFrom accepts, middle, symbols, isExit, rest,
          Nat.lt_succ_self symbols.length, rfl⟩

theorem languageFrom_le_mul (copy : Copy host guest image exits) (wellFormed : guest.WellFormed)
    (ends : ∀ state ∈ guest.states, image state ∈ host.accepting →
      state ∈ guest.accepting ∧ [] ∈ onward)
    (continues : ∀ exit, exits exit → host.languageFrom exit ≤ onward)
    (member : source ∈ guest.states) :
    host.languageFrom (image source) ≤ guest.languageFrom source * onward := by
  intro word wordMember
  rcases wordMember with ⟨final, accepts, symbols, path, rfl⟩
  rcases copy.stays_or_leaves wellFormed member path with stays | leaves
  · rcases stays with ⟨state, stateMember, rfl, reads⟩
    rcases ends state stateMember accepts with ⟨guestAccepts, done⟩
    rw [← List.append_nil (Word.ofSymbols symbols)]
    exact Language.append_mem_mul ⟨state, guestAccepts, reads⟩ done
  · rcases leaves with ⟨front, frontMember, exit, back, isExit, rest, _, spelling⟩
    rw [← spelling]
    exact Language.append_mem_mul frontMember
      (continues exit isExit ⟨final, accepts, back, rest, rfl⟩)

theorem languageFrom_eq_mul (copy : Copy host guest image exits)
    (wellFormed : guest.WellFormed)
    (ends : ∀ state ∈ guest.states, image state ∈ host.accepting →
      state ∈ guest.accepting ∧ [] ∈ onward)
    (exitsContinue : ∀ exit, exits exit → host.languageFrom exit ≤ onward)
    (continues : ∀ state ∈ guest.accepting, onward ≤ host.languageFrom (image state))
    (member : source ∈ guest.states) :
    host.languageFrom (image source) = guest.languageFrom source * onward :=
  le_antisymm (copy.languageFrom_le_mul wellFormed ends exitsContinue member)
    (copy.mul_le_languageFrom continues)

/-- A copy that is never left keeps the language of every state. -/
theorem languageFrom_eq (copy : Copy host guest image fun _ => False)
    (wellFormed : guest.WellFormed)
    (accepting : ∀ state ∈ guest.states, image state ∈ host.accepting ↔ state ∈ guest.accepting)
    (member : source ∈ guest.states) :
    host.languageFrom (image source) = guest.languageFrom source := by
  rw [← mul_one (guest.languageFrom source)]
  apply copy.languageFrom_eq_mul wellFormed _ _ _ member
  · intro state stateMember accepts
    exact ⟨(accepting state stateMember).mp accepts, Language.nil_mem_one⟩
  · exact fun _ impossible => impossible.elim
  · intro state accepts word isNil
    cases isNil
    have stateMember := wellFormed.accepting_subset state accepts
    exact Automaton.nil_mem_languageFrom ((accepting state stateMember).mpr accepts)

end Copy

end EpsilonAutomata
