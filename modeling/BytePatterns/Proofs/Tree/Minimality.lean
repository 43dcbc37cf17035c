import BytePatterns.Proofs.Dfa.Bytes
import BytePatterns.Proofs.Interval
import BytePatterns.Proofs.Tree.Automata

namespace BytePatterns.Tree

open BytePatterns.Interval (bytes_ne_nil mem_bytes_iff)

variable (t : Tree)

theorem minimize_mem_automata : t.toNfa.toDfa.minimize ∈ t.automata :=
  List.mem_cons_of_mem _ (List.mem_singleton_self _)

theorem byteMinimal_minimize_iff :
    t.toNfa.toDfa.minimize.ByteMinimal ↔ BytesSuffice t.symbolLanguage := by
  rw [← symbolLanguage_minimize]
  constructor
  · intro h
    exact h.bytesSuffice t.minimize_reduced.toTrim fun s hs ↦
      t.exists_acceptsFrom t.minimize_mem_automata hs
  · intro h
    exact t.minimize_reduced.byteMinimal
      (fun s hs ↦ t.exists_acceptsFrom t.minimize_mem_automata hs) h

/-- The minimal automaton of a tree is minimal for words of bytes exactly if bytes reach and tell
apart what symbols do, and always if the tree leaves out the wildcard or some byte. -/
theorem minimize_byteMinimal (t : Tree) :
    (t.toNfa.toDfa.minimize.ByteMinimal ↔ BytesSuffice t.symbolLanguage) ∧
      (.any ∉ t.toNfa.alphabet ∨ (∃ b, .byte b ∉ t.toNfa.alphabet) →
        t.toNfa.toDfa.minimize.ByteMinimal) := by
  refine ⟨t.byteMinimal_minimize_iff, fun hsym ↦ t.byteMinimal_minimize_iff.2 ?_⟩
  rw [← symbolLanguage_minimize]
  exact t.minimize_reduced.bytesSuffice hsym

/-- The tree of `x.|y[\x00-\x7f]|y[\x80-\xff]`: any byte may follow the letters, but
only after `x` by a wildcard. -/
def wildcardOrBytes : Tree :=
  altern (concat (byte 120) any)
    (altern (concat (byte 121) (alternAll ((Interval.bytes ⟨0, 127⟩).map byte)))
      (concat (byte 121) (alternAll ((Interval.bytes ⟨128, 255⟩).map byte))))

theorem cons_mem_wildcardOrBytes {sym : Symbol} {word : List Symbol} :
    sym :: word ∈ wildcardOrBytes.symbolLanguage ↔
      sym = .byte 120 ∧ (∃ next, word = [next]) ∨ sym = .byte 121 ∧ ∃ b, word = [.byte b] := by
  have hlow : (Interval.bytes ⟨0, 127⟩) ≠ [] := bytes_ne_nil (by decide)
  have hhigh : (Interval.bytes ⟨128, 255⟩) ≠ [] := bytes_ne_nil (by decide)
  rw [wildcardOrBytes, mem_altern, mem_altern, cons_mem_concat_byte, cons_mem_concat_byte,
    cons_mem_concat_byte, mem_alternAll_bytes hlow, mem_alternAll_bytes hhigh, ← and_or_left]
  refine or_congr Iff.rfl (and_congr_right fun _ ↦ ?_)
  constructor
  · intro h'
    rcases h' with ⟨b, -, rfl⟩ | ⟨b, -, rfl⟩
    · exact ⟨b, rfl⟩
    · exact ⟨b, rfl⟩
  · intro h'
    obtain ⟨b, rfl⟩ := h'
    rcases Nat.lt_or_ge b.toNat 128 with h | h
    · exact .inl ⟨b, mem_bytes_iff.2 ⟨UInt8.zero_le, UInt8.le_iff_toNat_le.2 (Nat.le_of_lt_succ h)⟩,
        rfl⟩
    · exact .inr ⟨b, mem_bytes_iff.2 ⟨UInt8.le_iff_toNat_le.2 h,
        UInt8.le_iff_toNat_le.2 (Nat.le_of_lt_succ b.toNat_lt)⟩, rfl⟩

/-- After `x` and after `y` the automaton is in different states, but they accept the same bytes. -/
theorem minimize_wildcardOrBytes :
    ∃ s < wildcardOrBytes.toNfa.toDfa.minimize.stateCount,
      ∃ t < wildcardOrBytes.toNfa.toDfa.minimize.stateCount, s ≠ t ∧
        ∀ w, wildcardOrBytes.toNfa.toDfa.minimize.acceptsFrom s w =
          wildcardOrBytes.toNfa.toDfa.minimize.acceptsFrom t w := by
  have hlanguage := wildcardOrBytes.symbolLanguage_minimize
  have htrim := wildcardOrBytes.minimize_reduced.toTrim
  generalize wildcardOrBytes.toNfa.toDfa.minimize = d at *
  have reaches {b : UInt8} (h : [.byte b, .byte 0] ∈ wildcardOrBytes.symbolLanguage) :
      ∃ s, d.run? [b] = some s := by
    rw [← hlanguage] at h
    exact Dfa.exists_run?_of_mem (u := [b]) (v := [.byte 0]) h
  obtain ⟨s, hs⟩ := reaches (cons_mem_wildcardOrBytes.2 (.inl ⟨rfl, _, rfl⟩))
  obtain ⟨t, ht⟩ := reaches (cons_mem_wildcardOrBytes.2 (.inr ⟨rfl, _, rfl⟩))
  refine ⟨s, htrim.run?_lt hs, t, htrim.run?_lt ht, ?_, fun w ↦ Bool.eq_iff_iff.2 ?_⟩
  · -- only a wildcard can be followed by `any`
    rintro rfl
    have hany : [.any] ∈ d.residual s := by
      rw [← Dfa.leftQuotient_of_run? hs, hlanguage]
      exact cons_mem_wildcardOrBytes.2 (.inl ⟨rfl, _, rfl⟩)
    rw [← Dfa.leftQuotient_of_run? ht, hlanguage] at hany
    rcases cons_mem_wildcardOrBytes.1 hany with ⟨h, -⟩ | ⟨-, b, hb⟩
    · exact absurd h (by decide)
    · simp at hb
  · rw [Dfa.acceptsFrom_of_run?_iff hs, Dfa.acceptsFrom_of_run?_iff ht, hlanguage]
    simp only [List.map_cons, List.map_nil, List.singleton_append, cons_mem_wildcardOrBytes,
      List.map_eq_singleton_iff]
    constructor
    · intro h'
      rcases h' with ⟨-, next, b, rfl, -⟩ | ⟨h, -⟩
      · exact .inr ⟨trivial, b, b, rfl, rfl⟩
      · exact absurd h (by decide)
    · intro h'
      rcases h' with ⟨h, -⟩ | ⟨-, b, _, rfl, -⟩
      · exact absurd h (by decide)
      · exact .inl ⟨trivial, _, _, rfl, rfl⟩

end BytePatterns.Tree
