import EpsilonAutomata.Automaton
import EpsilonAutomata.Exploration

/-!
Runs of an automaton as paths of edges.

A path is described by its ends and the labels along it. The word it spells is what is left of the
labels once epsilon is erased (`Word.ofSymbols`).
-/

namespace EpsilonAutomata

inductive Path (transitions : Transitions) : StateId → List Symbol → StateId → Prop
  | nil (state : StateId) : Path transitions state [] state
  | cons {source middle target : StateId} {symbol : Symbol} {symbols : List Symbol}
      (edge : (⟨source, symbol, middle⟩ : Edge) ∈ transitions)
      (rest : Path transitions middle symbols target) :
      Path transitions source (symbol :: symbols) target

namespace Path

variable {transitions : Transitions} {source middle target : StateId}
  {symbol : Symbol} {front back : List Symbol}

theorem single (edge : (⟨source, symbol, target⟩ : Edge) ∈ transitions) :
    Path transitions source [symbol] target :=
  .cons edge (.nil target)

theorem append (first : Path transitions source front middle)
    (second : Path transitions middle back target) :
    Path transitions source (front ++ back) target := by
  induction first with
  | nil => exact second
  | cons edge _ induction => exact .cons edge (induction second)

theorem split (path : Path transitions source (front ++ back) target) :
    ∃ middle, Path transitions source front middle ∧ Path transitions middle back target := by
  induction front generalizing source with
  | nil => exact ⟨source, .nil source, path⟩
  | cons head tail induction =>
      rcases path with _ | ⟨edge, rest⟩
      rcases induction rest with ⟨middle, first, second⟩
      exact ⟨middle, .cons edge first, second⟩

theorem mono {larger : Transitions} (included : ∀ edge ∈ transitions, edge ∈ larger)
    {symbols : List Symbol} (path : Path transitions source symbols target) :
    Path larger source symbols target := by
  induction path with
  | nil state => exact .nil state
  | cons edge _ induction => exact .cons (included _ edge) induction

theorem relabel (transform : StateId → StateId) {symbols : List Symbol}
    (path : Path transitions source symbols target) :
    Path (transitions.relabel transform) (transform source) symbols (transform target) := by
  induction path with
  | nil state => exact .nil (transform state)
  | cons edge _ induction =>
      exact .cons (Transitions.mem_relabel.mpr ⟨_, edge, rfl⟩) induction

end Path

namespace Automaton

/-- Some path from `source` to `target` spells the word. -/
def Reads (automaton : Automaton) (source : StateId) (word : Word) (target : StateId) : Prop :=
  ∃ symbols, Path automaton.transitions source symbols target ∧ Word.ofSymbols symbols = word

namespace Reads

variable {automaton : Automaton} {source middle target : StateId} {character : Char}
  {word front back : Word}

theorem refl (automaton : Automaton) (state : StateId) : automaton.Reads state [] state :=
  ⟨[], .nil state, rfl⟩

theorem epsilon (edge : (⟨source, .epsilon, middle⟩ : Edge) ∈ automaton.transitions)
    (rest : automaton.Reads middle word target) : automaton.Reads source word target := by
  rcases rest with ⟨symbols, path, spelling⟩
  exact ⟨.epsilon :: symbols, .cons edge path, spelling⟩

theorem literal (edge : (⟨source, .literal character, middle⟩ : Edge) ∈ automaton.transitions)
    (rest : automaton.Reads middle word target) :
    automaton.Reads source (character :: word) target := by
  rcases rest with ⟨symbols, path, spelling⟩
  exact ⟨.literal character :: symbols, .cons edge path, congrArg (character :: ·) spelling⟩

theorem append (first : automaton.Reads source front middle)
    (second : automaton.Reads middle back target) :
    automaton.Reads source (front ++ back) target := by
  rcases first with ⟨frontSymbols, firstPath, rfl⟩
  rcases second with ⟨backSymbols, secondPath, rfl⟩
  exact ⟨frontSymbols ++ backSymbols, firstPath.append secondPath, Word.ofSymbols_append _ _⟩

/-- The states between the parts of a word: where the path is cut is not determined, since epsilon
edges may belong to either part. -/
theorem split (reads : automaton.Reads source (front ++ back) target) :
    ∃ middle, automaton.Reads source front middle ∧ automaton.Reads middle back target := by
  rcases reads with ⟨symbols, path, spelling⟩
  rcases List.filterMap_eq_append_iff.mp spelling with
    ⟨frontSymbols, backSymbols, rfl, frontSpelling, backSpelling⟩
  rcases path.split with ⟨middle, first, second⟩
  exact ⟨middle, ⟨frontSymbols, first, frontSpelling⟩, ⟨backSymbols, second, backSpelling⟩⟩

/-- Before the first letter of a word only epsilon edges are taken. -/
theorem uncons (reads : automaton.Reads source (character :: word) target) :
    ∃ before after, automaton.Reads source [] before ∧
      (⟨before, .literal character, after⟩ : Edge) ∈ automaton.transitions ∧
      automaton.Reads after word target := by
  rcases reads with ⟨symbols, path, spelling⟩
  rcases List.filterMap_eq_cons_iff.mp spelling with
    ⟨silent, symbol, rest, rfl, erased, isLetter, restSpelling⟩
  rcases path.split with ⟨before, first, second⟩
  cases symbol with
  | epsilon => cases isLetter
  | literal letter =>
      cases isLetter
      rcases second with _ | ⟨edge, second⟩
      exact ⟨before, _, ⟨silent, first, List.filterMap_eq_nil_iff.mpr erased⟩, edge,
        ⟨rest, second, restSpelling⟩⟩

end Reads

/-- Reading nothing is following epsilon edges. -/
theorem reads_nil_iff {automaton : Automaton} {source target : StateId} :
    automaton.Reads source [] target ↔
      Leads (fun state => automaton.targets state .epsilon) source target := by
  constructor
  · intro reads
    rcases reads with ⟨symbols, path, spelling⟩
    induction path with
    | nil state => exact .refl state
    | @cons source middle target symbol symbols edge rest induction =>
        cases symbol with
        | epsilon => exact .step edge (induction spelling)
        | literal character => cases spelling
  · intro leads
    induction leads with
    | refl state => exact .refl automaton state
    | step next rest induction => exact .epsilon next induction

end Automaton

end EpsilonAutomata
