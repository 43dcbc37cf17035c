import BytePatterns.Proofs.Dfa.Bytes
import BytePatterns.Proofs.Dfa.Numbering
import BytePatterns.Proofs.Diagram
import BytePatterns.Proofs.Tree.Automata

namespace BytePatterns

namespace Dfa

variable {d d' : Dfa}

/-- The text shows the language of symbols and the order in which the residuals are met. -/
theorem Canonical.text_eq_iff (h : d.Canonical) (h' : d'.Canonical) :
    d.text = d'.text ↔ d.symbolLanguage = d'.symbolLanguage ∧
      SameOrder d.alphabet d'.alphabet d.symbolLanguage := by
  constructor
  · intro htext
    obtain ⟨hstart, haccepting, hedge⟩ := h.sameEdges_of_text_eq h'.toWellFormed htext
    have hresidual := residual_congr hedge haccepting
    have hl : d.symbolLanguage = d'.symbolLanguage := by
      rw [symbolLanguage, hresidual, hstart, symbolLanguage]
    have number {u w : List Symbol} (hw : u ++ w ∈ d.symbolLanguage) :
        ∃ i < d.stateCount, i < d'.stateCount ∧ d.symbolLanguage.leftQuotient u = d.residual i := by
      obtain ⟨i, hi⟩ := walk?_isSome_of_mem hw
      have hmem : w ∈ d.residual i := by
        rw [← leftQuotient_symbolLanguage hi]
        exact hw
      exact ⟨i, lt_of_mem_residual hmem, lt_of_mem_residual (hresidual i ▸ hmem),
        leftQuotient_symbolLanguage hi⟩
    refine ⟨hl, ?_⟩
    rintro u v ⟨w, hw⟩ ⟨w', hw'⟩
    obtain ⟨i, hi, hi', hu⟩ := number hw
    obtain ⟨j, hj, hj', hv⟩ := number hw'
    rw [hu, hv, ← h.lt_iff_metBefore h.toBreadthFirst hi hj, hl, hresidual, hresidual,
      ← h'.lt_iff_metBefore h'.toBreadthFirst hi' hj']
  · intro hboth
    obtain ⟨hl, horder⟩ := hboth
    exact h.text_congr h'.toWellFormed (h.start.trans h'.start.symm) (h.states_eq h' hl horder)

end Dfa

namespace Tree

variable (t t' : Tree)

theorem minimize_canonical : t.toNfa.toDfa.minimize.Canonical := t.toDfa_trim.minimize_canonical

theorem text_minimize_eq_iff :
    t.toNfa.toDfa.minimize.text = t'.toNfa.toDfa.minimize.text ↔
      t.symbolLanguage = t'.symbolLanguage ∧
      SameOrder t.toNfa.alphabet t'.toNfa.alphabet t.symbolLanguage := by
  have h := t.minimize_canonical.text_eq_iff t'.minimize_canonical
  rwa [symbolLanguage_minimize, symbolLanguage_minimize] at h

variable {t t'}

theorem symbolLanguage_subset {b : UInt8} (hb : .byte b ∉ t'.toNfa.alphabet)
    (hl : t.language = t'.language) {word : List Symbol} (hword : word ∈ t.symbolLanguage) :
    word ∈ t'.symbolLanguage := by
  have hbytes := t.mem_symbolLanguage_of_admits hword (admits_substitute b word)
  rw [map_byte_mem_symbolLanguage, hl, ← map_byte_mem_symbolLanguage,
    ← symbolLanguage_toDfa] at hbytes
  rw [← symbolLanguage_toDfa]
  exact (t'.toDfa_trim.append_substitute_mem (u := []) hb).1 hbytes

theorem symbolLanguage_eq (hb : ∃ b, .byte b ∉ t.toNfa.alphabet)
    (hb' : ∃ b, .byte b ∉ t'.toNfa.alphabet) (hl : t.language = t'.language) :
    t.symbolLanguage = t'.symbolLanguage := by
  obtain ⟨b, hb⟩ := hb
  obtain ⟨b', hb'⟩ := hb'
  ext word
  exact ⟨symbolLanguage_subset hb' hl, symbolLanguage_subset hb hl.symm⟩

/-- The minimal automata of two trees have the same text if and only if the trees describe the same
words of symbols and meet the beginnings of these words in the same order. For trees that describe
the same words of bytes and leave out some byte this is only a matter of the order, so it holds if
they mention the same symbols. -/
theorem minimize_text_eq (t t' : Tree) :
    (t.toNfa.toDfa.minimize.text = t'.toNfa.toDfa.minimize.text ↔
      t.symbolLanguage = t'.symbolLanguage ∧
      SameOrder t.toNfa.alphabet t'.toNfa.alphabet t.symbolLanguage) ∧
    ((∃ b, .byte b ∉ t.toNfa.alphabet) → (∃ b, .byte b ∉ t'.toNfa.alphabet) →
      t.language = t'.language →
      (t.toNfa.toDfa.minimize.text = t'.toNfa.toDfa.minimize.text ↔
        SameOrder t.toNfa.alphabet t'.toNfa.alphabet t.symbolLanguage) ∧
      (t.toNfa.alphabet = t'.toNfa.alphabet →
        t.toNfa.toDfa.minimize.text = t'.toNfa.toDfa.minimize.text)) := by
  refine ⟨text_minimize_eq_iff t t', ?_⟩
  intro hb hb' hl
  have hsymbols := symbolLanguage_eq hb hb' hl
  rw [text_minimize_eq_iff, and_iff_right hsymbols]
  refine ⟨Iff.rfl, ?_⟩
  intro hsame
  rw [hsame]
  exact fun _ _ _ _ ↦ Iff.rfl

def bOrTwo : Tree := altern (byte 98) (concat any any)

/-- The tree of `b|..|a.`, whose last branch adds no word. -/
def bOrTwoOrA : Tree := altern (byte 98) (altern (concat any any) (concat (byte 97) any))

theorem mem_two {word : List Symbol} :
    word ∈ (concat any any).symbolLanguage ↔ ∃ x y, word = [x, y] := by
  rw [symbolLanguage, Language.mem_mul]
  constructor
  · intro h
    obtain ⟨_, ⟨x, rfl⟩, _, ⟨y, rfl⟩, rfl⟩ := h
    exact ⟨x, y, rfl⟩
  · intro h
    obtain ⟨x, y, rfl⟩ := h
    exact ⟨[x], ⟨x, rfl⟩, [y], ⟨y, rfl⟩, rfl⟩

theorem mem_bOrTwo {word : List Symbol} :
    word ∈ bOrTwo.symbolLanguage ↔ word = [.byte 98] ∨ ∃ x y, word = [x, y] := by
  rw [bOrTwo, mem_altern, mem_two]
  exact Iff.rfl

theorem symbolLanguage_bOrTwoOrA : bOrTwoOrA.symbolLanguage = bOrTwo.symbolLanguage := by
  ext word
  rw [bOrTwoOrA, bOrTwo, mem_altern, mem_altern, mem_altern]
  refine or_congr Iff.rfl (or_iff_left_of_imp ?_)
  rw [mem_two, symbolLanguage, Language.mem_mul]
  intro h
  obtain ⟨_, rfl, _, ⟨y, rfl⟩, rfl⟩ := h
  exact ⟨.byte 97, y, rfl⟩

theorem metBefore_bOrTwoOrA : MetBefore bOrTwoOrA.toNfa.alphabet bOrTwo.symbolLanguage
    (bOrTwo.symbolLanguage.leftQuotient [.byte 97])
    (bOrTwo.symbolLanguage.leftQuotient [.byte 98]) := by
  refine ⟨[.byte 97], by decide, rfl, ?_⟩
  intro v _ hv
  have hnil : [] ∈ bOrTwo.symbolLanguage.leftQuotient v := by
    rw [hv]
    exact mem_bOrTwo.2 (.inl rfl)
  rw [Language.mem_leftQuotient, List.append_nil, mem_bOrTwo] at hnil
  rcases hnil with rfl | ⟨x, y, rfl⟩
  · exact (List.shortlex_singleton_iff _ _).2 (by decide)
  · exact .of_length_lt (by simp)

theorem not_metBefore_bOrTwo : ¬MetBefore bOrTwo.toNfa.alphabet bOrTwo.symbolLanguage
    (bOrTwo.symbolLanguage.leftQuotient [.byte 97])
    (bOrTwo.symbolLanguage.leftQuotient [.byte 98]) := by
  intro h
  obtain ⟨u, hu, heq, hbefore⟩ := h
  have hearlier := hbefore [.byte 98] (by decide) rfl
  have hmem (word : List Symbol) :
      u ++ word ∈ bOrTwo.symbolLanguage ↔ [.byte 97] ++ word ∈ bOrTwo.symbolLanguage :=
    iff_of_eq (congrArg (word ∈ ·) heq)
  match u, hu with
  | [], _ =>
    have hany := (hmem [.any]).2 (mem_bOrTwo.2 (.inr ⟨_, _, rfl⟩))
    simp [mem_bOrTwo] at hany
  | [x], hu =>
    have hsymbols : bOrTwo.toNfa.alphabet.symbols = [.byte 98, .any] := by decide
    have hx : x ∈ bOrTwo.toNfa.alphabet.symbols := hu x List.mem_cons_self
    rw [hsymbols, List.mem_cons, List.mem_singleton] at hx
    rcases hx with rfl | rfl
    · have hnil := (hmem []).1 (mem_bOrTwo.2 (.inl rfl))
      simp [mem_bOrTwo] at hnil
    · rw [Earlier, List.shortlex_singleton_iff] at hearlier
      exact absurd hearlier (by decide)
  | x :: y :: rest, _ =>
    rw [Earlier, List.shortlex_def] at hearlier
    simp at hearlier

/-- The trees describe the same words, but `a` is a symbol of only one of them
and is numbered before `b`. -/
theorem text_bOrTwoOrA_ne : bOrTwoOrA.language = bOrTwo.language ∧
    bOrTwoOrA.toNfa.toDfa.minimize.text ≠ bOrTwo.toNfa.toDfa.minimize.text := by
  constructor
  · ext word
    rw [← map_byte_mem_symbolLanguage, ← map_byte_mem_symbolLanguage, symbolLanguage_bOrTwoOrA]
  · intro htext
    obtain ⟨-, horder⟩ := (text_minimize_eq_iff _ _).1 htext
    rw [symbolLanguage_bOrTwoOrA] at horder
    have hwords := horder [.byte 97] [.byte 98] ⟨[.any], mem_bOrTwo.2 (.inr ⟨_, _, rfl⟩)⟩
      ⟨[], mem_bOrTwo.2 (.inl rfl)⟩
    exact not_metBefore_bOrTwo (hwords.1 metBefore_bOrTwoOrA)

end Tree

end BytePatterns
