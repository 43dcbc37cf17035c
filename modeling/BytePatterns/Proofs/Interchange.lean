import BytePatterns.Proofs.Scan

namespace BytePatterns

/-- The bytes are the same one, or both are outside the alphabet. -/
def Alphabet.Alike (a : Alphabet) (b b' : UInt8) : Prop := b = b' ∨ .byte b ∉ a ∧ .byte b' ∉ a

instance (a : Alphabet) (b b' : UInt8) : Decidable (a.Alike b b') :=
  inferInstanceAs (Decidable (b = b' ∨ .byte b ∉ a ∧ .byte b' ∉ a))

namespace Dfa

variable {d : Dfa} {line line' : List UInt8} {b b' : UInt8}

def MovesAlike (d : Dfa) (line line' : List UInt8) : Prop :=
  List.Forall₂ (fun b b' ↦ ∀ s, d.next? s b = d.next? s b') line line'

theorem WellFormed.next?_eq_of_alike (h : d.WellFormed) (hb : d.alphabet.Alike b b') (s : Nat) :
    d.next? s b = d.next? s b' := by
  rcases hb with rfl | ⟨hb, hb'⟩
  · rfl
  · calc d.next? s b = d.follow? s .any := h.follow?_of_not_mem hb s
      _ = d.next? s b' := (h.follow?_of_not_mem hb' s).symm

theorem WellFormed.movesAlike (h : d.WellFormed)
    (hline : List.Forall₂ d.alphabet.Alike line line') :
    d.MovesAlike line line' := hline.imp fun _ _ hb ↦ h.next?_eq_of_alike hb

theorem MovesAlike.runFrom?_eq (h : d.MovesAlike line line') (s : Nat) :
    d.runFrom? s line = d.runFrom? s line' := by
  induction h generalizing s with
  | nil => rfl
  | cons hb _ ih =>
    simp only [runFrom?, List.foldlM_cons, hb s]
    exact congrArg _ (funext ih)

theorem MovesAlike.restartFrom_eq (h : d.MovesAlike line line') (s : Nat) :
    d.restartFrom s line = d.restartFrom s line' := by
  induction h generalizing s with
  | nil => rfl
  | cons hb _ ih => rw [restartFrom, restartFrom, hb s, ih]

theorem MovesAlike.shortestFrom?_eq (h : d.MovesAlike line line') (s : Nat) :
    d.shortestFrom? s line = d.shortestFrom? s line' := by
  induction h generalizing s with
  | nil => rfl
  | cons hb _ ih =>
    rw [shortestFrom?, shortestFrom?, hb s]
    simp only [ih]

theorem MovesAlike.leftmost?_eq (h : d.MovesAlike line line') (offset : Nat) :
    d.leftmost? offset line = d.leftmost? offset line' := by
  induction h generalizing offset with
  | nil => rfl
  | cons hb hrest ih =>
    have hfirst := MovesAlike.shortestFrom?_eq (.cons hb hrest) d.start
    rw [leftmost?, leftmost?, hfirst, ih]

theorem MovesAlike.findAt?_eq (h : d.MovesAlike line line') (offset : Nat) :
    d.findAt? line offset = d.findAt? line' offset := by
  have hdrop : d.MovesAlike (line.drop offset) (line'.drop offset) := List.forall₂_drop offset h
  rw [findAt?, findAt?, h.length_eq, hdrop.leftmost?_eq]

theorem MovesAlike.findAllFrom_eq (h : d.MovesAlike line line') (offset : Nat) :
    d.findAllFrom line offset = d.findAllFrom line' offset := by
  fun_induction findAllFrom d line offset with
  | case1 offset hnone =>
    rw [h.findAt?_eq] at hnone
    rw [findAllFrom_of_none hnone]
  | case2 offset m hm ih =>
    rw [h.findAt?_eq] at hm
    rw [findAllFrom_of_some hm, ih]

structure AnswersAlike (d : Dfa) (line line' : List UInt8) : Prop where
  accepts_eq : d.accepts line = d.accepts line'
  isMatch_eq : ∀ mode, d.isMatch mode line = d.isMatch mode line'
  findAt?_eq : ∀ offset, d.findAt? line offset = d.findAt? line' offset
  find?_eq : d.find? line = d.find? line'
  findAll_eq : d.findAll line = d.findAll line'

theorem MovesAlike.answersAlike (h : d.MovesAlike line line') : d.AnswersAlike line line' where
  accepts_eq := by rw [accepts, accepts, run?, run?, h.runFrom?_eq]
  isMatch_eq mode := by
    cases mode with
    | restart => exact h.restartFrom_eq d.start
    | everyStart => rw [isMatch, isMatch, find?, find?, h.findAt?_eq]
  findAt?_eq := h.findAt?_eq
  find?_eq := h.findAt?_eq 0
  findAll_eq := h.findAllFrom_eq 0

end Dfa

namespace Tree

variable (t : Tree) {line line' : List UInt8}

theorem alphabet_of_mem_automata {d : Dfa} (h : d ∈ t.automata) :
    d.alphabet = t.toNfa.alphabet := by
  rcases List.mem_pair.1 h with rfl | rfl
  · rfl
  · rfl

theorem answersAlike_of_mem_automata {d : Dfa} (h : d ∈ t.automata)
    (hline : List.Forall₂ t.toNfa.alphabet.Alike line line') : d.AnswersAlike line line' := by
  rw [← t.alphabet_of_mem_automata h] at hline
  exact ((t.trim_of_mem_automata h).movesAlike hline).answersAlike

/-- All automata of a tree give the same answers on lines that differ only in
bytes outside its alphabet. -/
theorem automata_answersAlike (hline : List.Forall₂ t.toNfa.alphabet.Alike line line') :
    t.toNfa.accepts line = t.toNfa.accepts line' ∧ ∀ d ∈ t.automata, d.AnswersAlike line line' := by
  have hall (d : Dfa) (hd : d ∈ t.automata) : d.AnswersAlike line line' :=
    t.answersAlike_of_mem_automata hd hline
  have hsubsets := (hall t.toNfa.toDfa List.mem_cons_self).accepts_eq
  rw [t.toNfa_wellFormed.accepts_toDfa, t.toNfa_wellFormed.accepts_toDfa] at hsubsets
  exact ⟨hsubsets, hall⟩

def anyThenB : Tree := star (concat any (byte 98))

/-- Only the letters other than `b` differ. -/
theorem automata_answersAlike_anyThenB :
    List.Forall₂ anyThenB.toNfa.alphabet.Alike [97, 98, 99, 98] [120, 98, 121, 98] ∧
      anyThenB.toNfa.accepts [97, 98, 99, 98] = anyThenB.toNfa.accepts [120, 98, 121, 98] ∧
      ∀ d ∈ anyThenB.automata, d.AnswersAlike [97, 98, 99, 98] [120, 98, 121, 98] :=
  have hline : List.Forall₂ anyThenB.toNfa.alphabet.Alike [97, 98, 99, 98] [120, 98, 121, 98] := by
    simp only [List.forall₂_cons, List.forall₂_nil_left_iff, and_true]
    decide
  ⟨hline, anyThenB.automata_answersAlike hline⟩

end Tree

end BytePatterns
