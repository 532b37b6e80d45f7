import EpsilonAutomata.Proofs.InPlace

/-!
Accepting states and edges, added in any order.

Whether a draft admits such an addition depends on its states and, if it is closed, on its alphabet.
No addition changes the states, and what a closed alphabet admits is in it already. So each addition
of a list fails or succeeds as it would at the start (`Draft.Gains.objection?_eq`), and what the list
leaves behind depends on the additions that are in it, not on where and how often
(`Draft.Gains.unique`).
-/

namespace EpsilonAutomata

/-- An edit that adds an accepting state or edges. -/
inductive Addition where
  | accepting (state : StateId)
  | edges (source : StateId) (symbol : Symbol) (targets : StateSet)

/-- What additions add. -/
inductive Item where
  | acceptingState (state : StateId)
  | edge (edge : Edge)
  | character (character : Char)

namespace Addition

def edit : Addition → Edit
  | .accepting state => .addAccepting state
  | .edges source symbol targets => .addTransition source symbol targets

/-- Without targets there are no edges, and no character comes with them. -/
def Adds : Addition → Item → Prop
  | .accepting state, .acceptingState added => state = added
  | .edges source symbol targets, .edge added =>
      source = added.source ∧ symbol = added.symbol ∧ added.target ∈ targets
  | .edges _ symbol targets, .character added =>
      symbol = .literal added ∧ ∃ target, target ∈ targets
  | _, _ => False

end Addition

namespace Draft

def Has (draft : Draft) : Item → Prop
  | .acceptingState state => state ∈ draft.accepting
  | .edge edge => edge ∈ draft.transitions
  | .character character => character ∈ draft.alphabet

/-! ## One addition -/

/-- The error of the first check that an addition does not pass. -/
def objection? (draft : Draft) : Addition → Option ConstructionError
  | .accepting state => (draft.missing? [state]).map .unknownState
  | .edges source symbol targets =>
      ((draft.missing? (source :: targets.toList)).map .unknownState).or
        ((draft.foreign? symbol).map .foreignSymbol)

/-- The draft with an addition that passes its checks. -/
def gain (draft : Draft) : Addition → Draft
  | .accepting state => { draft with accepting := draft.accepting.insert state }
  | .edges source symbol targets => draft.join source symbol targets

theorem has_gain {draft : Draft} {addition : Addition} {item : Item} :
    (draft.gain addition).Has item ↔ draft.Has item ∨ addition.Adds item := by
  cases addition with
  | accepting state => cases item <;> simp [gain, Has, Addition.Adds, or_comm]
  | edges source symbol targets =>
      cases item with
      | acceptingState state => simp [gain, join, Has, Addition.Adds]
      | edge edge => simp [gain, join, Has, Addition.Adds]
      | character character =>
          change character ∈ (draft.join source symbol targets).alphabet ↔
            character ∈ draft.alphabet ∨ symbol = .literal character ∧ ∃ target, target ∈ targets
          rw [join]
          by_cases noTargets : targets = ∅
          · -- Both sides say that the draft has the character.
            simp [noTargets]
          · have inhabited := StateSet.exists_mem_of_ne_empty noTargets
            simp [noTargets, inhabited, or_comm]

end Draft

namespace InPlace

theorem on_perform_edit (addition : Addition) (draft : Draft) :
    (perform addition.edit).on draft =
      (draft.objection? addition).elim (.ok (), draft.gain addition) fun failure =>
        (.error failure, draft) := by
  cases addition with
  | accepting state =>
      change (addAccepting state).on draft = _
      rw [on_addAccepting, Draft.addAccepting, Draft.objection?]
      cases draft.missing? [state] with
      | some missing => rfl
      | none => rfl
  | edges source symbol targets =>
      change (addTransition source symbol targets).on draft = _
      rw [on_addTransition, Draft.addTransition, Draft.objection?]
      cases draft.missing? (source :: targets.toList) with
      | some missing => rfl
      | none =>
          cases draft.foreign? symbol with
          | some character => rfl
          | none =>
              cases isEmpty : targets.isEmpty with
              | true => simp [Draft.settle, Draft.gain, Draft.join_of_isEmpty isEmpty]
              | false => simp [Draft.settle, Draft.gain, Draft.join, isEmpty]

end InPlace

namespace Draft

variable {draft current left right : Draft} {addition : Addition} {additions others : List Addition}
  {item : Item} {source : StateId} {symbol : Symbol} {targets front back : StateSet}

/-- The addition succeeds on the draft. -/
def Admits (draft : Draft) (addition : Addition) : Prop :=
  ((InPlace.perform addition.edit).on draft).1 = .ok ()

theorem admits_iff : draft.Admits addition ↔ draft.objection? addition = none := by
  rw [Admits, InPlace.on_perform_edit]
  cases draft.objection? addition with
  | some failure => simp
  | none => simp

theorem admits_edges_iff :
    draft.Admits (.edges source symbol targets) ↔
      source ∈ draft.states ∧ (∀ target ∈ targets, target ∈ draft.states) ∧
        draft.foreign? symbol = none := by
  rw [admits_iff, objection?, Option.or_eq_none_iff, Option.map_eq_none_iff, Option.map_eq_none_iff,
    missing?_cons_eq_none_iff, and_assoc]

/-! ## Any number of additions -/

/-- A draft after some additions: it has what the ones that succeed on the draft before add, and is
the same as before in all else. -/
structure Gains (draft : Draft) (additions : List Addition) (after : Draft) : Prop where
  states : after.states = draft.states
  initial : after.initial = draft.initial
  closedAlphabet : after.closedAlphabet = draft.closedAlphabet
  items : ∀ item, after.Has item ↔ draft.Has item ∨
    ∃ addition ∈ additions, draft.Admits addition ∧ addition.Adds item

namespace Gains

theorem nil (draft : Draft) : draft.Gains [] draft where
  states := rfl
  initial := rfl
  closedAlphabet := rfl
  items item := by simp

/-- A character that comes with edges was admitted, so a closed alphabet had it before. -/
theorem alphabet_eq (gains : draft.Gains additions current) (closed : draft.closedAlphabet = true) :
    current.alphabet = draft.alphabet := by
  apply Alphabet.ext
  intro character
  have gained := gains.items (.character character)
  constructor
  · intro member
    rcases gained.mp member with old | ⟨addition, _, admitted, adds⟩
    · exact old
    · cases addition with
      | accepting state => cases adds
      | edges source symbol targets =>
          have notForeign := (admits_edges_iff.mp admitted).2.2
          exact foreign?_eq_none_iff.mp notForeign closed character adds.1
  · exact fun member => gained.mpr (.inl member)

theorem objection?_eq (gains : draft.Gains additions current) (addition : Addition) :
    current.objection? addition = draft.objection? addition := by
  have missing (wanted : List StateId) : current.missing? wanted = draft.missing? wanted := by
    rw [missing?, missing?, gains.states]
  have foreign (symbol : Symbol) : current.foreign? symbol = draft.foreign? symbol := by
    cases symbol with
    | epsilon => rfl
    | literal character =>
        rw [foreign?, foreign?, gains.closedAlphabet]
        cases closed : draft.closedAlphabet with
        | true => rw [gains.alphabet_eq closed]
        | false => rfl
  cases addition with
  | accepting state => rw [objection?, objection?, missing]
  | edges source symbol targets => rw [objection?, objection?, missing, foreign]

theorem outcome_eq (gains : draft.Gains additions current) (addition : Addition) :
    ((InPlace.perform addition.edit).on current).1 =
      ((InPlace.perform addition.edit).on draft).1 := by
  rw [InPlace.on_perform_edit, InPlace.on_perform_edit, gains.objection?_eq]
  cases draft.objection? addition with
  | some failure => rfl
  | none => rfl

/-- One more addition, admitted or not. -/
theorem concat (gains : draft.Gains additions current) (addition : Addition) :
    draft.Gains (additions ++ [addition]) ((InPlace.perform addition.edit).on current).2 := by
  rw [InPlace.on_perform_edit, gains.objection?_eq]
  cases outcome : draft.objection? addition with
  | some failure =>
      -- The list has one more member, but not one that is admitted.
      have refused : ¬draft.Admits addition := by simp [admits_iff, outcome]
      refine ⟨gains.states, gains.initial, gains.closedAlphabet, fun item => ?_⟩
      rw [Option.elim_some, gains.items]
      simp [or_and_right, exists_or, refused]
  | none =>
      have admitted : draft.Admits addition := admits_iff.mpr outcome
      have rest : (current.gain addition).states = current.states ∧
          (current.gain addition).initial = current.initial ∧
          (current.gain addition).closedAlphabet = current.closedAlphabet := by
        cases addition <;> exact ⟨rfl, rfl, rfl⟩
      refine ⟨rest.1.trans gains.states, rest.2.1.trans gains.initial,
        rest.2.2.trans gains.closedAlphabet, fun item => ?_⟩
      rw [Option.elim_none, has_gain, gains.items]
      simp [or_and_right, exists_or, admitted, or_assoc]

/-- The additions made so far accumulate, and the draft before all of them stays the one that tells
which are admitted. -/
theorem afterAll (gains : draft.Gains additions current) (rest : List Addition) :
    draft.Gains (additions ++ rest) (InPlace.afterAll (rest.map Addition.edit) current) := by
  induction rest generalizing additions current with
  | nil => rwa [List.append_nil]
  | cons addition rest induction =>
      rw [List.append_cons]
      exact induction (gains.concat addition)

/-- Additions that add the same leave the same draft behind. -/
theorem unique (first : draft.Gains additions left) (second : draft.Gains others right)
    (same : ∀ item, (∃ addition ∈ additions, draft.Admits addition ∧ addition.Adds item) ↔
      ∃ addition ∈ others, draft.Admits addition ∧ addition.Adds item) :
    left = right := by
  have has (item : Item) : left.Has item ↔ right.Has item := by
    rw [first.items, second.items, same]
  have states := first.states.trans second.states.symm
  have initial := first.initial.trans second.initial.symm
  have closedAlphabet := first.closedAlphabet.trans second.closedAlphabet.symm
  have alphabet : left.alphabet = right.alphabet :=
    Alphabet.ext fun character => has (.character character)
  have accepting : left.accepting = right.accepting :=
    StateSet.ext fun state => has (.acceptingState state)
  have transitions : left.transitions = right.transitions :=
    Transitions.ext fun edge => has (.edge edge)
  cases left
  cases right
  simp_all only

end Gains

theorem gains_afterAll (draft : Draft) (additions : List Addition) :
    draft.Gains additions (InPlace.afterAll (additions.map Addition.edit) draft) :=
  (Gains.nil draft).afterAll additions

/-! ## Targets at once or one after the other -/

theorem admits_edges_union_iff :
    draft.Admits (.edges source symbol (front ∪ back)) ↔
      draft.Admits (.edges source symbol front) ∧ draft.Admits (.edges source symbol back) := by
  simp only [admits_edges_iff, Std.ExtTreeSet.mem_union_iff]
  constructor
  · intro admitted
    rcases admitted with ⟨known, targetsKnown, notForeign⟩
    exact ⟨⟨known, fun target member => targetsKnown target (.inl member), notForeign⟩,
      ⟨known, fun target member => targetsKnown target (.inr member), notForeign⟩⟩
  · intro admitted
    rcases admitted with ⟨⟨known, frontKnown, notForeign⟩, ⟨_, backKnown, _⟩⟩
    exact ⟨known, fun target member => member.elim (frontKnown target) (backKnown target), notForeign⟩

theorem adds_edges_union_iff :
    (Addition.edges source symbol (front ∪ back)).Adds item ↔
      (Addition.edges source symbol front).Adds item ∨
        (Addition.edges source symbol back).Adds item := by
  cases item with
  | acceptingState state => simp [Addition.Adds]
  | edge edge => simp only [Addition.Adds, Std.ExtTreeSet.mem_union_iff, and_or_left]
  | character character =>
      simp only [Addition.Adds, Std.ExtTreeSet.mem_union_iff, exists_or, and_or_left]

theorem afterAll_edges_union (frontAdmitted : draft.Admits (.edges source symbol front))
    (backAdmitted : draft.Admits (.edges source symbol back)) :
    InPlace.afterAll [.addTransition source symbol (front ∪ back)] draft =
      InPlace.afterAll [.addTransition source symbol front, .addTransition source symbol back]
        draft := by
  have admitted := admits_edges_union_iff.mpr ⟨frontAdmitted, backAdmitted⟩
  apply (draft.gains_afterAll [.edges source symbol (front ∪ back)]).unique
    (draft.gains_afterAll [.edges source symbol front, .edges source symbol back])
  intro item
  simp [admitted, frontAdmitted, backAdmitted, adds_edges_union_iff]

end Draft

namespace InPlace

/-- In a list of additions each one has the outcome that it has on the draft before all of them. The
list adds what the additions that succeed add, so it leaves the same behind whatever the order and
however often each of them is made. Edges to several targets can be added at once or in two parts,
and succeed at once where both parts do. -/
theorem additions_exact (draft : Draft) :
    (∀ (earlier : List Addition) (addition : Addition),
      ((perform addition.edit).on (afterAll (earlier.map Addition.edit) draft)).1 =
        ((perform addition.edit).on draft).1) ∧
    (∀ additions : List Addition,
      draft.Gains additions (afterAll (additions.map Addition.edit) draft)) ∧
    (∀ additions others : List Addition, (∀ addition, addition ∈ others ↔ addition ∈ additions) →
      afterAll (others.map Addition.edit) draft = afterAll (additions.map Addition.edit) draft) ∧
    ∀ (source : StateId) (symbol : Symbol) (front back : StateSet),
      (draft.Admits (.edges source symbol (front ∪ back)) ↔
        draft.Admits (.edges source symbol front) ∧ draft.Admits (.edges source symbol back)) ∧
      (draft.Admits (.edges source symbol front) → draft.Admits (.edges source symbol back) →
        afterAll [.addTransition source symbol (front ∪ back)] draft =
          afterAll [.addTransition source symbol front, .addTransition source symbol back] draft) := by
  refine ⟨?_, draft.gains_afterAll, ?_, ?_⟩
  · intro earlier addition
    exact (draft.gains_afterAll earlier).outcome_eq addition
  · intro additions others same
    apply (draft.gains_afterAll others).unique (draft.gains_afterAll additions)
    simp only [same, implies_true]
  · intro source symbol front back
    exact ⟨Draft.admits_edges_union_iff, Draft.afterAll_edges_union⟩

/-- A draft that admits no other letter than one. -/
def guarded : Draft :=
  ((Draft.withAlphabet ['a']).ensureState .first).ensureState .last

/-- A foreign letter fails before and after a known one, and so does an unknown state. -/
theorem additions_exact_shuffled :
    let forth : Addition := .edges .first (.literal 'a') {.last}
    let stay : Addition := .edges .first (.literal 'a') {.first}
    let foreign : Addition := .edges .first (.literal 'b') ∅
    let unknown : Addition := .accepting (.next .first)
    guarded.Admits forth ∧ guarded.Admits stay ∧ ¬guarded.Admits foreign ∧
      ¬guarded.Admits unknown ∧
      afterAll ([foreign, stay, unknown, forth, foreign, stay].map Addition.edit) guarded =
        afterAll ([forth, unknown, stay, foreign].map Addition.edit) guarded ∧
      afterAll [.addTransition .first (.literal 'a') ({.last} ∪ {.first})] guarded =
        afterAll [forth.edit, stay.edit] guarded ∧
      afterAll [forth.edit, stay.edit] guarded ≠ guarded := by
  intro forth stay foreign unknown
  rcases additions_exact guarded with ⟨_, _, sameAfter, parts⟩
  have forthAdmitted : guarded.Admits forth := rfl
  have stayAdmitted : guarded.Admits stay := rfl
  have foreignRefused : ¬guarded.Admits foreign := fun admitted => nomatch admitted
  have unknownRefused : ¬guarded.Admits unknown := fun admitted => nomatch admitted
  have members : ∀ addition, addition ∈ [foreign, stay, unknown, forth, foreign, stay] ↔
      addition ∈ [forth, unknown, stay, foreign] := by
    intro addition
    simp only [List.mem_cons, List.not_mem_nil, or_false]
    constructor
    · rintro (rfl | rfl | rfl | rfl | rfl | rfl) <;> simp
    · rintro (rfl | rfl | rfl | rfl) <;> simp
  exact ⟨forthAdmitted, stayAdmitted, foreignRefused, unknownRefused, sameAfter _ _ members,
    (parts _ _ _ _).2 forthAdmitted stayAdmitted, by decide +kernel⟩

end InPlace

end EpsilonAutomata
