import BytePatterns.Proofs.Interval
import BytePatterns.Regex.Lowering
import Mathlib.Data.List.Forall2

namespace BytePatterns

section Except

variable {ε α β : Type} {x : Except ε α} {b : β}

theorem bind_eq_ok_iff {f : α → Except ε β} : x >>= f = .ok b ↔ ∃ a, x = .ok a ∧ f a = .ok b := by
  cases x with
  | error e => simp [bind, Except.bind]
  | ok a => simp [bind, Except.bind]

theorem pure_eq_ok_iff {a : β} : (pure a : Except ε β) = .ok b ↔ a = b := by
  simp [pure, Except.pure]

theorem mapError_eq_ok_iff {ε' : Type} {f : ε → ε'} {a : α} : x.mapError f = .ok a ↔ x = .ok a := by
  cases x with
  | error e => simp [Except.mapError]
  | ok a => simp [Except.mapError]

end Except

theorem Interval.firstBeyond?_eq_none_iff {i : Interval Char} :
    i.firstBeyond? = none ↔ i.last.toNat ≤ 255 := by
  simp [firstBeyond?]

namespace Regex

/-- Bounds of repetitions and intervals of classes are in order, and every alternation has a
branch. -/
inductive WellFormed : Regex → Prop
  | empty : WellFormed .empty
  | literal {word : List UInt8} : WellFormed (.literal word)
  | bytes {intervals : List (Interval UInt8)} :
      Interval.Ordered intervals → WellFormed (.bytes intervals)
  | scalars {intervals : List (Interval Char)} :
      Interval.Ordered intervals → WellFormed (.scalars intervals)
  | look {kind : Look} : WellFormed (.look kind)
  | repetition {least : Nat} {most : Option Nat} {greedy : Bool} {sub : Regex} :
      (∀ bound ∈ most, least ≤ bound) → WellFormed sub →
        WellFormed (.repetition least most greedy sub)
  | capture {index : Nat} {name : Option (List Char)} {sub : Regex} :
      WellFormed sub → WellFormed (.capture index name sub)
  | concat {items : List Regex} : (∀ r ∈ items, WellFormed r) → WellFormed (.concat items)
  | alternation {branches : List Regex} :
      branches ≠ [] → (∀ r ∈ branches, WellFormed r) → WellFormed (.alternation branches)

/-- What holds of an expression if it holds of all its parts holds of every expression. -/
@[elab_as_elim]
theorem parts_induction {motive : Regex → Prop} (empty : motive .empty)
    (literal : ∀ word, motive (.literal word)) (bytes : ∀ intervals, motive (.bytes intervals))
    (scalars : ∀ intervals, motive (.scalars intervals)) (look : ∀ kind, motive (.look kind))
    (repetition : ∀ least most greedy sub, motive sub → motive (.repetition least most greedy sub))
    (capture : ∀ index name sub, motive sub → motive (.capture index name sub))
    (concat : ∀ items, (∀ r ∈ items, motive r) → motive (.concat items))
    (alternation : ∀ branches, (∀ r ∈ branches, motive r) → motive (.alternation branches))
    (r : Regex) : motive r :=
  @Regex.rec motive (fun rs ↦ ∀ r ∈ rs, motive r) empty literal bytes scalars look repetition
    capture concat alternation (by simp)
    (fun _ _ hfirst hrest ↦ List.forall_mem_cons.2 ⟨hfirst, hrest⟩) r

variable {limit : Option Nat} {t : Tree} {ts : List Tree} {rs : List Regex}

theorem toTrees_eq_ok_iff :
    toTrees limit rs = .ok ts ↔ List.Forall₂ (fun r t ↦ r.toTree limit = .ok t) rs ts := by
  induction rs generalizing ts with
  | nil => simp [toTrees, eq_comm]
  | cons r rest ih =>
    simp only [toTrees, bind_eq_ok_iff, pure_eq_ok_iff, ih, List.forall₂_cons_left_iff]
    refine ⟨fun h ↦ ?_, fun h ↦ ?_⟩
    · obtain ⟨t, ht, ts, hts, rfl⟩ := h
      exact ⟨t, ts, ht, hts, rfl⟩
    · obtain ⟨t, ts, ht, hts, rfl⟩ := h
      exact ⟨t, ht, ts, hts, rfl⟩

theorem toTree_bytes_eq_ok_iff {intervals : List (Interval UInt8)} :
    (bytes intervals).toTree limit = .ok t ↔
      intervals ≠ [] ∧ treeOfBytes (intervals.flatMap Interval.bytes) = t := by
  cases intervals with
  | nil => simp [toTree]
  | cons i rest => simp [toTree]

theorem toTree_scalars_eq_ok_iff {intervals : List (Interval Char)} :
    (scalars intervals).toTree limit = .ok t ↔
      intervals ≠ [] ∧ treeOfScalars intervals = .ok t := by
  cases intervals with
  | nil => simp [toTree]
  | cons i rest => simp [toTree]

theorem toTree_repetition_eq_ok_iff {least : Nat} {most : Option Nat} {greedy : Bool}
    {sub : Regex} : (repetition least most greedy sub).toTree limit = .ok t ↔
      ∃ u, sub.toTree limit = .ok u ∧
        checkSize limit (repetitionSize least most u.stateCount) = .ok () ∧
        repeated least most u = t := by
  simp only [toTree, bind_eq_ok_iff, pure_eq_ok_iff, mapError_eq_ok_iff]
  refine exists_congr fun u ↦ and_congr_right fun _ ↦ ?_
  exact ⟨fun ⟨_, hsize, ht⟩ ↦ ⟨hsize, ht⟩, fun ⟨hsize, ht⟩ ↦ ⟨(), hsize, ht⟩⟩

theorem toTree_concat_eq_ok_iff {items : List Regex} :
    (concat items).toTree limit = .ok t ↔
      ∃ ts, toTrees limit items = .ok ts ∧ .concatAll ts = t := by
  simp only [toTree, bind_eq_ok_iff, pure_eq_ok_iff]

theorem toTree_alternation_eq_ok_iff {branches : List Regex} :
    (alternation branches).toTree limit = .ok t ↔
      ∃ ts, toTrees limit branches = .ok ts ∧ .alternAll ts = t := by
  simp only [toTree, bind_eq_ok_iff, pure_eq_ok_iff]

theorem treeOfScalars_cases {intervals : List (Interval Char)}
    (h : treeOfScalars intervals = .ok t) :
    (intervals = [⟨Char.ofNat 0, Char.ofNat 0x10FFFF⟩] ∧ t = .any) ∨
      (∀ i ∈ intervals, i.last.toNat ≤ 255) ∧
        t = .alternAll ((intervals.flatMap Interval.lowBytes).map .byte) := by
  rw [treeOfScalars] at h
  split at h
  case isTrue hall => exact .inl ⟨hall, (Except.ok.inj h).symm⟩
  case isFalse =>
    split at h
    · cases h
    · rename_i hnone
      refine .inr ⟨fun i hi ↦ ?_, (Except.ok.inj h).symm⟩
      exact Interval.firstBeyond?_eq_none_iff.1 (List.findSome?_eq_none_iff.1 hnone i hi)

end Regex

end BytePatterns
