import BytePatterns.Tree.Language
import Mathlib.Algebra.BigOperators.Group.List.Basic
import Mathlib.Algebra.GroupWithZero.Nat
import Mathlib.Data.Nat.Log

namespace BytePatterns.Tree

/-- The right half is never shorter than the left one, and longer by one operand at most. -/
theorem balanced_induction {join : Tree → Tree → Tree} {motive : List Tree → Tree → Prop}
    (single : ∀ t, motive [t] t)
    (halves : ∀ {left right t u}, left.length ≤ right.length → right.length ≤ left.length + 1 →
      motive left t → motive right u → motive (left ++ right) (join t u))
    {operands : List Tree} (h : operands ≠ []) : motive operands (balanced join operands) := by
  fun_induction balanced join operands with
  | case1 => exact absurd rfl h
  | case2 t => exact single t
  | case3 t u rest operands half ihl ihr =>
    have hlength : operands.length = rest.length + 2 := rfl
    have hl : (operands.take half).length = half := by
      rw [List.length_take]
      omega
    have hr : (operands.drop half).length = operands.length - half := List.length_drop
    have hleft : operands.take half ≠ [] := by
      rw [← List.length_pos_iff]
      omega
    have hright : operands.drop half ≠ [] := by
      rw [← List.length_pos_iff]
      omega
    have hjoin := halves (by omega) (by omega) (ihl hleft) (ihr hright)
    rwa [List.take_append_drop] at hjoin

@[simp]
theorem balanced_nil (join : Tree → Tree → Tree) : balanced join [] = empty := by
  rw [balanced]

theorem language_concatAll (operands : List Tree) :
    (concatAll operands).language = (operands.map language).prod := by
  by_cases h : operands = []
  · rw [h, concatAll, balanced_nil]
    rfl
  · refine balanced_induction (motive := fun ts t ↦ t.language = (ts.map language).prod) ?_ ?_ h
    · intro t
      simp
    · intro left right t u _ _ hl hr
      rw [language, hl, hr, List.map_append, List.prod_append]

/-- An alternation of nothing is the empty word, so there has to be an operand. -/
theorem language_alternAll {operands : List Tree} (h : operands ≠ []) :
    (alternAll operands).language = (operands.map language).sum := by
  refine balanced_induction (motive := fun ts t ↦ t.language = (ts.map language).sum) ?_ ?_ h
  · intro t
    simp
  · intro left right t u _ _ hl hr
    rw [language, hl, hr, List.map_append, List.sum_append]

theorem language_literal (bytes : List UInt8) : (literal bytes).language = {bytes} := by
  rw [literal, language_concatAll]
  induction bytes with
  | nil => rfl
  | cons b rest ih =>
    rw [List.map_cons, List.map_cons, List.prod_cons, ih]
    exact Set.image2_singleton

theorem stateCount_concatAll {operands : List Tree} (h : operands ≠ []) :
    (concatAll operands).stateCount = (operands.map stateCount).sum := by
  refine balanced_induction (motive := fun ts t ↦ t.stateCount = (ts.map stateCount).sum) ?_ ?_ h
  · intro t
    simp
  · intro left right t u _ _ hl hr
    rw [stateCount, hl, hr, List.map_append, List.sum_append]

/-- Each of the joins, one fewer than the operands, adds two states. -/
theorem stateCount_alternAll {operands : List Tree} (h : operands ≠ []) :
    (alternAll operands).stateCount + 2 = (operands.map stateCount).sum + 2 * operands.length := by
  refine balanced_induction
    (motive := fun ts t ↦ t.stateCount + 2 = (ts.map stateCount).sum + 2 * ts.length)
    ?_ ?_ h
  · intro t
    simp
  · intro left right t u _ _ hl hr
    rw [stateCount, List.map_append, List.sum_append, List.length_append]
    omega

theorem alternAll_iff {P : Tree → Prop} (hP : ∀ t u, P (altern t u) ↔ P t ∨ P u)
    {operands : List Tree} (h : operands ≠ []) : P (alternAll operands) ↔ ∃ t ∈ operands, P t := by
  refine balanced_induction (motive := fun ts t ↦ P t ↔ ∃ t ∈ ts, P t) ?_ ?_ h
  · intro t
    simp
  · intro left right t u _ _ hl hr
    simp only [hP, hl, hr, List.mem_append, or_and_right, exists_or]

theorem mem_language_alternAll {operands : List Tree} (h : operands ≠ []) {w : List UInt8} :
    w ∈ (alternAll operands).language ↔ ∃ t ∈ operands, w ∈ t.language :=
  alternAll_iff (P := fun t ↦ w ∈ t.language) (fun _ _ ↦ Language.mem_add _ _ _) h

inductive Bracketing where
  | operand (t : Tree)
  | pair (left right : Bracketing)

namespace Bracketing

def tree (join : Tree → Tree → Tree) : Bracketing → Tree
  | operand t => t
  | pair left right => join (left.tree join) (right.tree join)

def places : Bracketing → List (Tree × Nat)
  | operand t => [(t, 0)]
  | pair left right => (left.places ++ right.places).map fun (t, depth) ↦ (t, depth + 1)

theorem places_ne_nil (b : Bracketing) : b.places ≠ [] := by
  induction b with
  | operand t => exact List.cons_ne_nil _ _
  | pair left right ihl _ => simp [places, ihl]

theorem map_fst_places_pair (left right : Bracketing) :
    (pair left right).places.map Prod.fst =
      left.places.map Prod.fst ++ right.places.map Prod.fst := by
  rw [places, List.map_map, List.map_append]
  rfl

end Bracketing

/-- The tree joins `n` operands in their order, each of them once and under at most `⌈log₂ n⌉`
joins. -/
def JoinsEvenly (join : Tree → Tree → Tree) (operands : List Tree) (t : Tree) : Prop :=
  ∃ b : Bracketing, b.tree join = t ∧ b.places.map Prod.fst = operands ∧
    ∀ place ∈ b.places, place.2 ≤ Nat.clog 2 operands.length

theorem clog_add_halves {i j : Nat} (hpos : 0 < i) (hle : i ≤ j) (hle' : j ≤ i + 1) :
    Nat.clog 2 (i + j) = Nat.clog 2 j + 1 := by
  have hhalf : (i + j + 2 - 1) / 2 = j := by omega
  rw [Nat.clog_of_two_le Nat.one_lt_two (by omega), hhalf]

theorem joinsEvenly_balanced (join : Tree → Tree → Tree) {operands : List Tree}
    (h : operands ≠ []) : JoinsEvenly join operands (balanced join operands) := by
  refine balanced_induction (motive := JoinsEvenly join) ?_ ?_ h
  · intro t
    exact ⟨.operand t, rfl, rfl, by simp [Bracketing.places]⟩
  · rintro left right _ _ hle hle' ⟨b, rfl, rfl, hleft⟩ ⟨c, rfl, rfl, hright⟩
    have hpos : 0 < (b.places.map Prod.fst).length := by
      simpa [List.length_pos_iff] using b.places_ne_nil
    refine ⟨.pair b c, rfl, b.map_fst_places_pair c, fun place hplace ↦ ?_⟩
    rw [List.length_append, clog_add_halves hpos hle hle']
    obtain ⟨⟨t, depth⟩, hmem, rfl⟩ := List.mem_map.1 hplace
    apply Nat.succ_le_succ
    rcases List.mem_append.1 hmem with hmem | hmem
    · exact (hleft _ hmem).trans (Nat.clog_mono_right 2 hle)
    · exact hright _ hmem

structure FoldsEvenly (operands : List Tree) : Prop where
  concatAll_joins : JoinsEvenly concat operands (concatAll operands)
  alternAll_joins : JoinsEvenly altern operands (alternAll operands)
  language_concatAll : (concatAll operands).language = (operands.map language).prod
  mem_language_alternAll : ∀ w, w ∈ (alternAll operands).language ↔ ∃ t ∈ operands, w ∈ t.language
  stateCount_concatAll : (concatAll operands).stateCount = (operands.map stateCount).sum
  stateCount_alternAll :
    (alternAll operands).stateCount = (operands.map stateCount).sum + 2 * (operands.length - 1)

/-- Folding keeps the operands in their order and puts none of them deep into the tree; a fold of
nothing describes the empty word. -/
theorem folds_evenly :
    (concatAll []).language = {[]} ∧ ∀ operands, operands ≠ [] → FoldsEvenly operands := by
  refine ⟨language_literal [], fun operands h ↦ ?_⟩
  have hlength := List.length_pos_iff.2 h
  have hcount := stateCount_alternAll h
  exact {
    concatAll_joins := joinsEvenly_balanced concat h
    alternAll_joins := joinsEvenly_balanced altern h
    language_concatAll := language_concatAll operands
    mem_language_alternAll := fun _ ↦ mem_language_alternAll h
    stateCount_concatAll := stateCount_concatAll h
    stateCount_alternAll := by omega }

/-- Of five operands the last two are under one join more than the others. -/
theorem folds_evenly_fiveBytes : [byte 97, byte 98, byte 99, byte 100, byte 101] ≠ [] ∧
    FoldsEvenly [byte 97, byte 98, byte 99, byte 100, byte 101] ∧
      alternAll [byte 97, byte 98, byte 99, byte 100, byte 101] =
        altern (altern (byte 97) (byte 98)) (altern (byte 99) (altern (byte 100) (byte 101))) := by
  have hne : [byte 97, byte 98, byte 99, byte 100, byte 101] ≠ [] := List.cons_ne_nil _ _
  exact ⟨hne, folds_evenly.2 _ hne, by decide +kernel⟩

end BytePatterns.Tree
