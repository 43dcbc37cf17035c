import BytePatterns.Proofs.Scan

namespace BytePatterns

/-- Where a search goes on after a match: behind it, but one byte further after an empty one. -/
def Span.after (m : Span) : Nat := max m.stop (m.start + 1)

inductive Tiling (l : Language UInt8) (line : List UInt8) : Nat → List Span → Prop
  | done {offset : Nat} : NoMatch l line offset → Tiling l line offset []
  | next {offset : Nat} {m : Span} {rest : List Span} :
      FirstMatch l line offset m → Tiling l line m.after rest → Tiling l line offset (m :: rest)

section Tiling

variable {l : Language UInt8} {line : List UInt8} {offset : Nat} {m : Span} {ms ms' : List Span}

theorem Tiling.unique (h : Tiling l line offset ms) (h' : Tiling l line offset ms') : ms = ms' := by
  induction h generalizing ms' with
  | done hno =>
    cases h' with
    | done => rfl
    | next hfirst _ => exact absurd hno hfirst.not_noMatch
  | next hfirst _ ih =>
    cases h' with
    | done hno => exact absurd hno hfirst.not_noMatch
    | next hfirst' hrest' =>
      obtain rfl := hfirst.unique hfirst'
      rw [ih hrest']

theorem Tiling.offset_le (h : Tiling l line offset ms) (hm : m ∈ ms) : offset ≤ m.start := by
  induction h with
  | done => cases hm
  | @next offset first rest hfirst _ ih =>
    rcases List.mem_cons.1 hm with rfl | hm
    · exact hfirst.offset_le
    · have hafter : first.start < first.after :=
        (Nat.lt_succ_self _).trans_le (Nat.le_max_right _ _)
      exact (hfirst.offset_le.trans hafter.le).trans (ih hm)

theorem Tiling.pairwise (h : Tiling l line offset ms) :
    ms.Pairwise fun m m' ↦ m.start < m'.start ∧ m.stop ≤ m'.start := by
  induction h with
  | done => exact .nil
  | next _ hrest ih =>
    refine .cons (fun m' hm' ↦ ?_) ih
    have hle := hrest.offset_le hm'
    exact ⟨(Nat.le_max_right _ _).trans hle, (Nat.le_max_left _ _).trans hle⟩

theorem firstMatch_of_nil_mem (hl : [] ∈ l) (hoffset : offset ≤ line.length) :
    FirstMatch l line offset ⟨offset, offset⟩ where
  offset_le := Nat.le_refl _
  start_le := Nat.le_refl _
  stop_le := hoffset
  mem := by simpa [List.extract_eq_take_drop] using hl
  leftmost _ _ hle hlt := absurd hle (Nat.not_le.2 hlt)
  shortest _ hle hlt := absurd hle (Nat.not_le.2 hlt)

theorem tiling_of_nil_mem (hl : [] ∈ l) {count : Nat} (hcount : offset + count = line.length + 1) :
    Tiling l line offset ((List.range' offset count).map fun i ↦ ⟨i, i⟩) := by
  induction count generalizing offset with
  | zero =>
    refine .done fun i j hi hij hj ↦ ?_
    omega
  | succ count ih =>
    have hafter : Span.after ⟨offset, offset⟩ = offset + 1 := Nat.max_eq_right (Nat.le_succ offset)
    refine .next (firstMatch_of_nil_mem hl (by omega)) ?_
    rw [hafter]
    exact ih (by omega)

end Tiling

namespace Dfa

variable {d : Dfa} {l : Language UInt8}

theorem Recognizes.tiling (h : d.Recognizes l) (line : List UInt8) (offset : Nat) :
    Tiling l line offset (d.findAllFrom line offset) := by
  fun_induction findAllFrom d line offset with
  | case1 offset hnone => exact .done (h.findAt?_eq_none_iff.1 hnone)
  | case2 offset m hm ih => exact .next (h.findAt?_eq_some_iff.1 hm) ih

structure Tiles (d : Dfa) (l : Language UInt8) : Prop where
  findAll_eq_iff : ∀ line ms, d.findAll line = ms ↔ Tiling l line 0 ms
  apart : ∀ line, (d.findAll line).Pairwise fun m m' ↦ m.start < m'.start ∧ m.stop ≤ m'.start
  of_nil_mem : [] ∈ l → ∀ line, d.findAll line = (List.range (line.length + 1)).map fun i ↦ ⟨i, i⟩

theorem Recognizes.tiles (h : d.Recognizes l) : d.Tiles l := by
  have htiling (line : List UInt8) : Tiling l line 0 (d.findAll line) := h.tiling line 0
  refine ⟨fun line ms ↦ ⟨fun heq ↦ heq ▸ htiling line, (htiling line).unique⟩, fun line ↦ ?_,
    fun hl line ↦ ?_⟩
  · exact (htiling line).pairwise
  · rw [List.range_eq_range']
    exact (htiling line).unique (tiling_of_nil_mem hl (Nat.zero_add _))

end Dfa

/-- The matches that the automata of a tree find in a line tile it, from its beginning on, with the
words that the tree describes. -/
theorem Tree.findAll_tiles (t : Tree) :
    t.toNfa.toDfa.Tiles t.language ∧ t.toNfa.toDfa.minimize.Tiles t.language :=
  ⟨t.toDfa_recognizes.tiles, t.minimize_recognizes.tiles⟩

end BytePatterns
