import BytePatterns.Proofs.Tree.Automata
import BytePatterns.Scan

namespace BytePatterns

/-- A match that begins at or after `offset`, before which none begins, and as short as possible. -/
structure FirstMatch (l : Language UInt8) (line : List UInt8) (offset : Nat) (m : Span) : Prop where
  offset_le : offset ≤ m.start
  start_le : m.start ≤ m.stop
  stop_le : m.stop ≤ line.length
  mem : line.extract m.start m.stop ∈ l
  leftmost : ∀ i j, offset ≤ i → i < m.start → i ≤ j → j ≤ line.length → line.extract i j ∉ l
  shortest : ∀ j, m.start ≤ j → j < m.stop → line.extract m.start j ∉ l

def NoMatch (l : Language UInt8) (line : List UInt8) (offset : Nat) : Prop :=
  ∀ i j, offset ≤ i → i ≤ j → j ≤ line.length → line.extract i j ∉ l

section slices

variable {l : Language UInt8} {line : List UInt8} {offset : Nat} {m m' : Span} {b : UInt8}

theorem FirstMatch.unique (h : FirstMatch l line offset m) (h' : FirstMatch l line offset m') :
    m = m' := by
  have not_lt_start {m m' : Span} (h : FirstMatch l line offset m)
      (h' : FirstMatch l line offset m') :
      ¬m.start < m'.start := fun hlt ↦
    h'.leftmost m.start m.stop h.offset_le hlt h.start_le h.stop_le h.mem
  have hstart : m.start = m'.start :=
    Nat.le_antisymm (Nat.not_lt.1 (not_lt_start h' h)) (Nat.not_lt.1 (not_lt_start h h'))
  have not_lt_stop {m m' : Span} (hstart : m.start = m'.start) (h : FirstMatch l line offset m)
      (h' : FirstMatch l line offset m') : ¬m.stop < m'.stop := by
    intro hlt
    have hmem := h.mem
    rw [hstart] at hmem
    exact h'.shortest m.stop (hstart ▸ h.start_le) hlt hmem
  have hstop : m.stop = m'.stop :=
    Nat.le_antisymm (Nat.not_lt.1 (not_lt_stop hstart.symm h' h))
      (Nat.not_lt.1 (not_lt_stop hstart h h'))
  obtain ⟨start, stop⟩ := m
  obtain ⟨start', stop'⟩ := m'
  obtain rfl : start = start' := hstart
  obtain rfl : stop = stop' := hstop
  rfl

theorem FirstMatch.not_noMatch (h : FirstMatch l line offset m) : ¬NoMatch l line offset :=
  fun hnone ↦ hnone m.start m.stop h.offset_le h.start_le h.stop_le h.mem

theorem extract_cons_succ (i j : Nat) : (b :: line).extract (i + 1) (j + 1) = line.extract i j := by
  simp [List.extract_eq_take_drop]

theorem extract_drop (offset i j : Nat) :
    (line.drop offset).extract i j = line.extract (offset + i) (offset + j) := by
  simp [List.extract_eq_take_drop, Nat.add_sub_add_left]

theorem FirstMatch.cons {i j : Nat} (h : FirstMatch l line 0 ⟨i, j⟩)
    (hfirst : ∀ j, (b :: line).take j ∉ l) : FirstMatch l (b :: line) 0 ⟨i + 1, j + 1⟩ where
  offset_le := Nat.zero_le _
  start_le := Nat.succ_le_succ h.start_le
  stop_le := Nat.succ_le_succ h.stop_le
  mem := by
    rw [extract_cons_succ]
    exact h.mem
  leftmost i' j' _ hi hij hj := by
    cases i' with
    | zero => exact hfirst j'
    | succ i' =>
      obtain ⟨j', rfl⟩ := Nat.exists_eq_add_of_lt hij
      rw [extract_cons_succ]
      refine h.leftmost i' _ (Nat.zero_le _) (Nat.lt_of_succ_lt_succ hi) (by omega) ?_
      rw [List.length_cons] at hj
      omega
  shortest j' hij hj := by
    obtain ⟨j', rfl⟩ := Nat.exists_eq_add_of_lt hij
    rw [extract_cons_succ]
    exact h.shortest _ (Nat.le_add_right _ _) (Nat.lt_of_succ_lt_succ hj)

theorem NoMatch.cons (h : NoMatch l line 0) (hfirst : ∀ j, (b :: line).take j ∉ l) :
    NoMatch l (b :: line) 0 := by
  intro i j _ hij hj
  cases i with
  | zero => exact hfirst j
  | succ i =>
    obtain ⟨j, rfl⟩ := Nat.exists_eq_add_of_lt hij
    rw [extract_cons_succ]
    rw [List.length_cons] at hj
    exact h i _ (Nat.zero_le _) (by omega) (by omega)

theorem FirstMatch.of_drop {i j : Nat} (hoffset : offset ≤ line.length)
    (h : FirstMatch l (line.drop offset) 0 ⟨i, j⟩) :
    FirstMatch l line offset ⟨offset + i, offset + j⟩ where
  offset_le := Nat.le_add_right _ _
  start_le := Nat.add_le_add_left h.start_le _
  stop_le := by
    have hstop := h.stop_le
    simp only [List.length_drop] at hstop
    exact Nat.add_le_of_le_sub' hoffset hstop
  mem := by
    rw [← extract_drop]
    exact h.mem
  leftmost i' j' hle hi hij hj := by
    obtain ⟨i', rfl⟩ := Nat.exists_eq_add_of_le hle
    obtain ⟨j', rfl⟩ := Nat.exists_eq_add_of_le (hle.trans hij)
    rw [← extract_drop]
    refine h.leftmost i' j' (Nat.zero_le _) (Nat.lt_of_add_lt_add_left hi)
      (Nat.le_of_add_le_add_left hij) ?_
    rw [List.length_drop]
    omega
  shortest j' hij hj := by
    obtain ⟨j', rfl⟩ := Nat.exists_eq_add_of_le ((Nat.le_add_right _ _).trans hij)
    rw [← extract_drop]
    exact h.shortest j' (Nat.le_of_add_le_add_left hij) (Nat.lt_of_add_lt_add_left hj)

theorem NoMatch.of_drop (h : NoMatch l (line.drop offset) 0) : NoMatch l line offset := by
  intro i j hle hij hj
  obtain ⟨i, rfl⟩ := Nat.exists_eq_add_of_le hle
  obtain ⟨j, rfl⟩ := Nat.exists_eq_add_of_le (hle.trans hij)
  rw [← extract_drop]
  refine h i j (Nat.zero_le _) (Nat.le_of_add_le_add_left hij) ?_
  rw [List.length_drop]
  omega

theorem noMatch_iff_infix : NoMatch l line 0 ↔ ∀ word ∈ l, ¬word <:+: line := by
  constructor
  · rintro h word hword ⟨before, after, rfl⟩
    refine h before.length (before.length + word.length) (Nat.zero_le _) (Nat.le_add_right _ _)
      ?_ ?_
    · simp only [List.length_append]
      omega
    · simpa [List.extract_eq_take_drop] using hword
  · intro h i j _ _ _ hmem
    exact h _ hmem ((List.take_prefix _ _).isInfix.trans (List.drop_suffix _ _).isInfix)

end slices

namespace Dfa

variable {d : Dfa} {l : Language UInt8} {line : List UInt8} {s offset : Nat} {m : Span}

theorem acceptsFrom_cons {b : UInt8} {word : List UInt8} :
    d.acceptsFrom s (b :: word) = (d.next? s b).any (d.acceptsFrom · word) := by
  rw [acceptsFrom, runFrom?, List.foldlM_cons]
  cases d.next? s b <;> rfl

theorem shortestFrom?_eq_some {k : Nat} (h : d.shortestFrom? s line = some k) :
    k ≤ line.length ∧ d.acceptsFrom s (line.take k) = true ∧
      ∀ j < k, d.acceptsFrom s (line.take j) = false := by
  induction line generalizing s k with
  | nil =>
    rw [shortestFrom?] at h
    split at h
    · rename_i haccepting
      cases h
      exact ⟨Nat.le_refl _, haccepting, by simp⟩
    · cases h
  | cons b rest ih =>
    rw [shortestFrom?] at h
    split at h
    · rename_i haccepting
      cases h
      exact ⟨Nat.zero_le _, haccepting, by simp⟩
    · rename_i hnot
      obtain ⟨t, hnext, hrest⟩ := Option.bind_eq_some_iff.1 h
      obtain ⟨k, hk, rfl⟩ := Option.map_eq_some_iff.1 hrest
      obtain ⟨hle, haccept, hleast⟩ := ih hk
      refine ⟨Nat.succ_le_succ hle, ?_, ?_⟩
      · rw [List.take_succ_cons, acceptsFrom_cons, hnext]
        exact haccept
      · intro j hj
        cases j with
        | zero => simpa [acceptsFrom, runFrom?] using hnot
        | succ j =>
          rw [List.take_succ_cons, acceptsFrom_cons, hnext]
          exact hleast j (Nat.lt_of_succ_lt_succ hj)

theorem shortestFrom?_eq_none (h : d.shortestFrom? s line = none) (j : Nat) :
    d.acceptsFrom s (line.take j) = false := by
  induction line generalizing s j with
  | nil =>
    rw [shortestFrom?] at h
    split at h
    · cases h
    · rename_i hnot
      simpa [acceptsFrom, runFrom?] using hnot
  | cons b rest ih =>
    rw [shortestFrom?] at h
    split at h
    · cases h
    · rename_i hnot
      cases j with
      | zero => simpa [acceptsFrom, runFrom?] using hnot
      | succ j =>
        rw [List.take_succ_cons, acceptsFrom_cons]
        cases hnext : d.next? s b with
        | none => rfl
        | some t =>
          rw [hnext, Option.bind_some, Option.map_eq_none_iff] at h
          exact ih h j

theorem Recognizes.acceptsFrom_iff (h : d.Recognizes l) (word : List UInt8) :
    d.acceptsFrom d.start word = true ↔ word ∈ l := h word

theorem Recognizes.not_mem (h : d.Recognizes l) {word : List UInt8}
    (hword : d.acceptsFrom d.start word = false) : word ∉ l := by
  rw [← h.acceptsFrom_iff, hword]
  exact Bool.false_ne_true

theorem Recognizes.firstMatch_of_shortestFrom? (h : d.Recognizes l) {k : Nat}
    (hk : d.shortestFrom? d.start line = some k) : FirstMatch l line 0 ⟨0, k⟩ := by
  obtain ⟨hle, haccept, hleast⟩ := shortestFrom?_eq_some hk
  exact ⟨Nat.le_refl _, Nat.zero_le _, hle, (h.acceptsFrom_iff _).1 haccept,
    fun _ _ _ hlt ↦ absurd hlt (Nat.not_lt_zero _), fun j _ hj ↦ h.not_mem (hleast j hj)⟩

theorem Recognizes.leftmost?_eq_some (h : d.Recognizes l) (hm : d.leftmost? offset line = some m) :
    ∃ i j, m = ⟨offset + i, offset + j⟩ ∧ FirstMatch l line 0 ⟨i, j⟩ := by
  induction line generalizing offset with
  | nil =>
    obtain ⟨k, hk, rfl⟩ := Option.map_eq_some_iff.1 hm
    exact ⟨0, k, rfl, h.firstMatch_of_shortestFrom? hk⟩
  | cons b rest ih =>
    unfold leftmost? at hm
    split at hm
    · rename_i k hk
      cases hm
      exact ⟨0, k, rfl, h.firstMatch_of_shortestFrom? hk⟩
    · rename_i hnone
      obtain ⟨i, j, rfl, hfirst⟩ := ih hm
      refine ⟨i + 1, j + 1, by simp only [Nat.add_assoc, Nat.add_comm 1], hfirst.cons fun j ↦ ?_⟩
      exact h.not_mem (shortestFrom?_eq_none hnone j)

theorem Recognizes.leftmost?_eq_none (h : d.Recognizes l) (hm : d.leftmost? offset line = none) :
    NoMatch l line 0 := by
  induction line generalizing offset with
  | nil =>
    intro i j _ _ _
    have hnil : ([] : List UInt8).extract i j = ([] : List UInt8).take 0 := by simp
    rw [hnil]
    exact h.not_mem (shortestFrom?_eq_none (Option.map_eq_none_iff.1 hm) 0)
  | cons b rest ih =>
    unfold leftmost? at hm
    split at hm
    · cases hm
    · rename_i hnone
      exact (ih hm).cons fun j ↦ h.not_mem (shortestFrom?_eq_none hnone j)

theorem Recognizes.findAt?_spec (h : d.Recognizes l) (line : List UInt8) (offset : Nat) :
    (∃ m, d.findAt? line offset = some m ∧ FirstMatch l line offset m) ∨
      d.findAt? line offset = none ∧ NoMatch l line offset := by
  unfold findAt?
  split
  · rename_i hoffset
    cases hm : d.leftmost? offset (line.drop offset) with
    | some m =>
      obtain ⟨i, j, rfl, hfirst⟩ := h.leftmost?_eq_some hm
      exact .inl ⟨_, rfl, hfirst.of_drop hoffset⟩
    | none => exact .inr ⟨rfl, (h.leftmost?_eq_none hm).of_drop⟩
  · rename_i hoffset
    refine .inr ⟨rfl, ?_⟩
    intro i j hle hij hj
    exact absurd (hle.trans (hij.trans hj)) hoffset

theorem Recognizes.findAt?_eq_some_iff (h : d.Recognizes l) :
    d.findAt? line offset = some m ↔ FirstMatch l line offset m := by
  rcases h.findAt?_spec line offset with ⟨m', hm', hfirst⟩ | ⟨hnone, hno⟩
  · rw [hm', Option.some.injEq]
    exact ⟨fun heq ↦ heq ▸ hfirst, hfirst.unique⟩
  · rw [hnone]
    constructor
    · intro heq
      cases heq
    · intro hfirst
      exact absurd hno hfirst.not_noMatch

theorem Recognizes.findAt?_eq_none_iff (h : d.Recognizes l) :
    d.findAt? line offset = none ↔ NoMatch l line offset := by
  rcases h.findAt?_spec line offset with ⟨m, hm, hfirst⟩ | ⟨hnone, hno⟩
  · rw [hm]
    constructor
    · intro heq
      cases heq
    · intro hno
      exact absurd hno hfirst.not_noMatch
  · exact ⟨fun _ ↦ hno, fun _ ↦ hnone⟩

theorem Recognizes.isMatch_iff (h : d.Recognizes l) :
    d.isMatch .everyStart line = true ↔ ∃ word ∈ l, word <:+: line := by
  have hnone : d.isMatch .everyStart line = false ↔ NoMatch l line 0 := by
    rw [isMatch, find?, ← h.findAt?_eq_none_iff, Option.isSome_eq_false_iff,
      Option.isNone_iff_eq_none]
  rw [← Bool.not_eq_false, hnone, noMatch_iff_infix]
  simp only [not_forall, not_not, exists_prop]

theorem findAllFrom_of_none (h : d.findAt? line offset = none) :
    d.findAllFrom line offset = [] := by
  rw [findAllFrom]
  split
  · rfl
  · rename_i hm
    rw [h] at hm
    cases hm

theorem findAllFrom_of_some (h : d.findAt? line offset = some m) :
    d.findAllFrom line offset = m :: d.findAllFrom line (max m.stop (m.start + 1)) := by
  rw [findAllFrom]
  split
  · rename_i hnone
    rw [h] at hnone
    cases hnone
  · rename_i hm
    rw [h] at hm
    cases hm
    rfl

structure Finds (d : Dfa) (l : Language UInt8) : Prop where
  findAt?_eq_some_iff : ∀ line offset m, d.findAt? line offset = some m ↔ FirstMatch l line offset m
  findAt?_eq_none_iff : ∀ line offset, d.findAt? line offset = none ↔ NoMatch l line offset
  isMatch_iff : ∀ line, d.isMatch .everyStart line = true ↔ ∃ word ∈ l, word <:+: line

theorem Recognizes.finds (h : d.Recognizes l) : d.Finds l where
  findAt?_eq_some_iff _ _ _ := h.findAt?_eq_some_iff
  findAt?_eq_none_iff _ _ := h.findAt?_eq_none_iff
  isMatch_iff _ := h.isMatch_iff

end Dfa

/-- For every tree, the subset automaton and its minimization find the words that the tree
describes. -/
theorem Tree.automata_find_language (t : Tree) :
    t.toNfa.toDfa.Finds t.language ∧ t.toNfa.toDfa.minimize.Finds t.language :=
  ⟨t.toDfa_recognizes.finds, t.minimize_recognizes.finds⟩

end BytePatterns
