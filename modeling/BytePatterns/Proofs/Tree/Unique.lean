import BytePatterns.Proofs.Tree.Canonical

namespace BytePatterns.Tree

open scoped Computability

variable {t t' : Tree}

/-- Without a wildcard all words of symbols are words of bytes. -/
theorem exists_bytes_of_mem (hany : .any ∉ t.toNfa.alphabet) {word : List Symbol}
    (h : word ∈ t.symbolLanguage) : ∃ w : List UInt8, w.map .byte = word := by
  rw [← symbolLanguage_toDfa] at h
  obtain ⟨s, hs, -⟩ := Dfa.mem_residual.1 h
  exact t.toDfa_trim.exists_bytes hany hs

theorem symbolLanguage_subset_of_any_not_mem (hany : .any ∉ t.toNfa.alphabet)
    (hl : t.language = t'.language) {word : List Symbol} (h : word ∈ t.symbolLanguage) :
    word ∈ t'.symbolLanguage := by
  obtain ⟨w, rfl⟩ := exists_bytes_of_mem hany h
  rwa [map_byte_mem_symbolLanguage, hl, ← map_byte_mem_symbolLanguage] at h

/-- Unless a tree mentions the wildcard and all bytes, its words of bytes and its symbols
determine its words of symbols. -/
theorem symbolLanguage_eq_of_alphabet_eq (hl : t.language = t'.language)
    (ha : t.toNfa.alphabet = t'.toNfa.alphabet)
    (hsome : ¬(.any ∈ t.toNfa.alphabet ∧ ∀ b, .byte b ∈ t.toNfa.alphabet)) :
    t.symbolLanguage = t'.symbolLanguage := by
  rcases not_and_or.1 hsome with hany | hbytes
  · -- Without the wildcard all words are words of bytes.
    ext word
    exact ⟨symbolLanguage_subset_of_any_not_mem hany hl,
      symbolLanguage_subset_of_any_not_mem (ha ▸ hany) hl.symm⟩
  · -- A byte that both trees leave out is read as the wildcard is.
    have hb := not_forall.1 hbytes
    exact symbolLanguage_eq hb (ha ▸ hb) hl

/-- Trees with the same words and the same symbols have the same minimal automaton, unless these
symbols are the wildcard and all bytes. -/
theorem minimize_eq_of_language_eq (hl : t.language = t'.language)
    (ha : t.toNfa.alphabet = t'.toNfa.alphabet)
    (hsome : ¬(.any ∈ t.toNfa.alphabet ∧ ∀ b, .byte b ∈ t.toNfa.alphabet)) :
    t.toNfa.toDfa.minimize = t'.toNfa.toDfa.minimize := by
  refine t.minimize_canonical.eq_of_language_eq t'.minimize_canonical ?_ ha
  rw [symbolLanguage_minimize, symbolLanguage_minimize]
  exact symbolLanguage_eq_of_alphabet_eq hl ha hsome

def anyBytes : Tree := star (altern (byte 97) any)

def anyBytesTwice : Tree := concat (star (altern any (byte 97))) (star (altern any (byte 97)))

theorem language_anyBytesTwice : anyBytesTwice.language = anyBytes.language := by
  change (any.language + (byte 97).language)∗ * (any.language + (byte 97).language)∗ =
    ((byte 97).language + any.language)∗
  rw [kstar_mul_kstar, add_comm]

theorem minimize_anyBytesTwice : anyBytesTwice.language = anyBytes.language ∧
    anyBytesTwice.toNfa.alphabet = anyBytes.toNfa.alphabet ∧
    ¬(.any ∈ anyBytesTwice.toNfa.alphabet ∧ ∀ b, .byte b ∈ anyBytesTwice.toNfa.alphabet) ∧
    anyBytesTwice.toNfa.toDfa.minimize = anyBytes.toNfa.toDfa.minimize := by
  have hsome :
      ¬(.any ∈ anyBytesTwice.toNfa.alphabet ∧ ∀ b, .byte b ∈ anyBytesTwice.toNfa.alphabet) := by
    rintro ⟨-, hbytes⟩
    exact absurd (hbytes 98) (by decide)
  exact ⟨language_anyBytesTwice, by decide, hsome,
    minimize_eq_of_language_eq language_anyBytesTwice (by decide) hsome⟩

/-- A minimal automaton is its own minimization. -/
theorem minimize_idempotent (t : Tree) :
    t.toNfa.toDfa.minimize.minimize = t.toNfa.toDfa.minimize := t.toDfa_trim.minimize_minimize

end BytePatterns.Tree
