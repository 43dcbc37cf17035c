import BytePatterns.Proofs.Dfa.Outcome
import BytePatterns.Proofs.Tree.Automata

namespace BytePatterns

def Alphabet.orAny (a : Alphabet) (sym : Symbol) : Symbol := if sym ∈ a then sym else .any

namespace Dfa

variable {d : Dfa} {s t : Nat} {word : List Symbol}

def AcceptAlike (d : Dfa) (s t : Nat) : Prop :=
  ∀ word, d.Over word → (word ∈ d.residual s ↔ word ∈ d.residual t)

theorem WellFormed.follow?_orAny (h : d.WellFormed) (s : Nat) (sym : Symbol) :
    d.follow? s (d.alphabet.orAny sym) = d.follow? s sym := by
  rw [Alphabet.orAny]
  split
  · rfl
  · exact (h.follow?_of_not_mem (by assumption) s).symm

theorem WellFormed.walkFrom?_orAny (h : d.WellFormed) (s : Nat) (word : List Symbol) :
    d.walkFrom? s (word.map d.alphabet.orAny) = d.walkFrom? s word := by
  induction word generalizing s with
  | nil => rfl
  | cons sym word ih =>
    rw [List.map_cons, walkFrom?_cons, walkFrom?_cons, h.follow?_orAny]
    exact congrArg _ (funext fun t ↦ ih t)

theorem WellFormed.mem_residual_orAny (h : d.WellFormed) (s : Nat) (word : List Symbol) :
    word.map d.alphabet.orAny ∈ d.residual s ↔ word ∈ d.residual s := by
  simp only [mem_residual, h.walkFrom?_orAny]

/-- A word with a symbol outside the alphabet can be read only if `any` belongs to the alphabet. -/
theorem WellFormed.over_of_walkFrom? (h : d.WellFormed) (hwalk : d.walkFrom? s word = some t) :
    d.Over (word.map d.alphabet.orAny) := by
  induction word generalizing s with
  | nil => simp [Over]
  | cons sym word ih =>
    rw [walkFrom?_cons, Option.bind_eq_some_iff] at hwalk
    obtain ⟨r, hr, hrest⟩ := hwalk
    refine over_cons_iff.2 ⟨?_, ih hrest⟩
    rw [Alphabet.orAny]
    split
    · assumption
    · by_contra hany
      rw [h.follow?_of_not_mem (by assumption), h.follow?_any_of_not_mem hany] at hr
      cases hr

theorem WellFormed.residual_eq_iff (h : d.WellFormed) :
    d.residual s = d.residual t ↔ d.AcceptAlike s t := by
  have hsubset {s t : Nat} (halike : d.AcceptAlike s t) {word : List Symbol}
      (hword : word ∈ d.residual s) :
      word ∈ d.residual t := by
    obtain ⟨r, hr, -⟩ := mem_residual.1 hword
    have hover := h.over_of_walkFrom? hr
    rwa [← h.mem_residual_orAny, ← halike _ hover, h.mem_residual_orAny]
  refine ⟨fun heq word _ ↦ by rw [heq], fun halike ↦ ?_⟩
  ext word
  exact ⟨hsubset halike, hsubset fun word hword ↦ (halike word hword).symm⟩

theorem Agree.acceptAlike (h : d.Agree s t) : d.AcceptAlike s t := by
  intro word hword
  rw [← outcome_eq_accepting_iff, ← outcome_eq_accepting_iff, h word hword]

/-- Where every state leads to an accepting one, states that accept the same
words have the same outcomes. -/
theorem Trim.agree_iff_acceptAlike (h : d.Trim) (hs : s < d.stateCount) (ht : t < d.stateCount) :
    d.Agree s t ↔ d.AcceptAlike s t := by
  refine ⟨Agree.acceptAlike, fun halike ↦ ?_⟩
  rw [← h.same_stablePartition_iff_agree hs ht, h.same_stablePartition_iff hs ht, h.residual_eq_iff]
  exact halike

/-- What the passes of the refinement keep together, up to the one that splits nothing any more, and
what the last partition keeps together. -/
structure SeparatesOutcomes (d : Dfa) : Prop where
  same_iff : ∀ k p, (d.initialPartition :: d.refinements)[k]? = some p →
    ∀ s < d.stateCount, ∀ t < d.stateCount, p.Same s t ↔ d.AgreeWithin k s t
  same_stable_iff_within : ∀ k, d.refinements.length ≤ k →
    ∀ s < d.stateCount, ∀ t < d.stateCount, d.stablePartition.Same s t ↔ d.AgreeWithin k s t
  same_stable_iff : ∀ s < d.stateCount, ∀ t < d.stateCount, d.stablePartition.Same s t ↔ d.Agree s t

theorem Closed.separatesOutcomes (h : d.Closed) : d.SeparatesOutcomes where
  same_iff _ _ hp := h.same_iff_agreeWithin hp
  same_stable_iff_within _ hk _ hs _ ht := h.same_stablePartition_iff_agreeWithin hk hs ht
  same_stable_iff _ hs _ ht := h.same_stablePartition_iff_agree hs ht

end Dfa

/-- After each pass two states share a block if and only if they have the same outcome on all words
of no more symbols than passes, and in the last partition if and only if they have the same outcome
on all words; in the automata of a tree this means that they accept the same words. -/
theorem refinement_separates : (∀ d : Dfa, d.Closed → d.SeparatesOutcomes) ∧
    ∀ t : Tree, ∀ d ∈ t.automata, ∀ r < d.stateCount, ∀ s < d.stateCount,
      d.Agree r s ↔ d.AcceptAlike r s :=
  ⟨fun _ h ↦ h.separatesOutcomes, fun t _ hd _ hr _ hs ↦
    (t.trim_of_mem_automata hd).agree_iff_acceptAlike hr hs⟩

/-- The start state accepts. No word is accepted from 1, where every byte gets stuck,
or from 2, where none does. -/
def stuckOrIdle : Dfa where
  start := 0
  states := #[⟨true, .single .any 1⟩, ⟨false, .empty⟩, ⟨false, .single .any 2⟩]
  alphabet := .ofList [.any]

theorem refinement_separates_stuckOrIdle :
    stuckOrIdle.Closed ∧ ¬stuckOrIdle.stablePartition.Same 1 2 ∧
    ¬(Tree.byte 97).toNfa.toDfa.Agree 0 1 := by
  have hclosed : stuckOrIdle.Closed := (by decide : stuckOrIdle.WellFormed).toClosed
  refine ⟨hclosed, fun hsame ↦ ?_, fun hagree ↦ ?_⟩
  · have heq :=
      ((refinement_separates.1 stuckOrIdle hclosed).same_stable_iff 1 (by decide)
        2 (by decide)).1 hsame
    exact absurd (heq [.any] (by decide)) (by decide)
  · have hcount : (Tree.byte 97).toNfa.toDfa.stateCount = 2 := by decide +kernel
    have halike :=
      (refinement_separates.2 (.byte 97) _ List.mem_cons_self 0 (by omega) 1 (by omega)).1 hagree
    have hnil := halike [] (by simp [Dfa.Over])
    rw [Dfa.nil_mem_residual, Dfa.nil_mem_residual] at hnil
    exact absurd hnil (by decide +kernel)

end BytePatterns
