import BytePatterns.Pattern
import BytePatterns.Proofs.Dfa.Subset
import BytePatterns.Proofs.Regex.Lowering
import BytePatterns.Proofs.Tree.Balanced
import Mathlib.Algebra.Order.BigOperators.Group.List
import Mathlib.Algebra.Order.Group.Nat

namespace BytePatterns

variable {limit limit' nfaLimit dfaLimit : Option Nat} {states : Nat} {t : Tree}

def Fits (limit : Option Nat) (states : Nat) : Prop := ∀ most ∈ limit, states ≤ most

def Raised (limit limit' : Option Nat) : Prop := ∀ most' ∈ limit', ∃ most ∈ limit, most ≤ most'

theorem Fits.mono (h : Fits limit states) {fewer : Nat} (hle : fewer ≤ states) : Fits limit fewer :=
  fun most hmost ↦ hle.trans (h most hmost)

theorem Fits.raise (h : Fits limit states) (hraised : Raised limit limit') :
    Fits limit' states := by
  intro most' hmost'
  obtain ⟨most, hmost, hle⟩ := hraised most' hmost'
  exact (h most hmost).trans hle

theorem raised_none : Raised limit none := by simp [Raised]

theorem fits_none : Fits none states := by simp [Fits]

theorem fits_some {most : Nat} : Fits (some most) states ↔ states ≤ most := by simp [Fits]

theorem checkSize_eq_ok_iff : checkSize limit states = .ok () ↔ Fits limit states := by
  cases limit with
  | none => simp [checkSize, fits_none]
  | some most => simp [checkSize, fits_some]

namespace Tree

theorem toNfaWithin_eq_ok_iff {n : Nfa} :
    t.toNfaWithin limit = .ok n ↔ Fits limit t.stateCount ∧ t.toNfa = n := by
  simp only [toNfaWithin, bind_eq_ok_iff, pure_eq_ok_iff, ← checkSize_eq_ok_iff]
  exact ⟨fun ⟨_, hsize, hn⟩ ↦ ⟨hsize, hn⟩, fun ⟨hsize, hn⟩ ↦ ⟨(), hsize, hn⟩⟩

theorem stateCount_le_concatAll {ts : List Tree} (h : t ∈ ts) :
    t.stateCount ≤ (concatAll ts).stateCount := by
  rw [stateCount_concatAll (List.ne_nil_of_mem h)]
  exact List.le_sum_of_mem (List.mem_map_of_mem h)

theorem stateCount_le_alternAll {ts : List Tree} (h : t ∈ ts) :
    t.stateCount ≤ (alternAll ts).stateCount := by
  have hcount := stateCount_alternAll (List.ne_nil_of_mem h)
  have hle : t.stateCount ≤ (ts.map stateCount).sum := List.le_sum_of_mem (List.mem_map_of_mem h)
  have hlength := List.length_pos_of_mem h
  omega

end Tree

theorem Nfa.toDfaWithin_eq_ok_iff {n : Nfa} {d : Dfa} :
    n.toDfaWithin limit = .ok d ↔ Fits limit n.toDfa.stateCount ∧ n.toDfa = d := by
  cases limit with
  | none => simp [toDfaWithin, fits_none]
  | some most =>
    rw [toDfaWithin_some, fits_some]
    split
    · rename_i hle
      simp [hle]
    · rename_i hgreater
      simp [hgreater]

namespace Regex

/-- The least bound of every repetition is not above its greatest one, which is not zero. -/
inductive Normal : Regex → Prop
  | empty : Normal .empty
  | literal {word : List UInt8} : Normal (.literal word)
  | bytes {intervals : List (Interval UInt8)} : Normal (.bytes intervals)
  | scalars {intervals : List (Interval Char)} : Normal (.scalars intervals)
  | look {kind : Look} : Normal (.look kind)
  | repetition {least : Nat} {most : Option Nat} {greedy : Bool} {sub : Regex} :
      (∀ bound ∈ most, least ≤ bound) → most ≠ some 0 → Normal sub →
        Normal (.repetition least most greedy sub)
  | capture {index : Nat} {name : Option (List Char)} {sub : Regex} :
      Normal sub → Normal (.capture index name sub)
  | concat {items : List Regex} : (∀ r ∈ items, Normal r) → Normal (.concat items)
  | alternation {branches : List Regex} :
      (∀ r ∈ branches, Normal r) → Normal (.alternation branches)

variable {r : Regex} {rs : List Regex} {ts : List Tree} {least : Nat} {most : Option Nat}

/-- The optional copies behind the others have two states more each than the size check counts. -/
theorem stateCount_repeated (hbounds : ∀ bound ∈ most, least ≤ bound) (hmost : most ≠ some 0) :
    (repeated least most t).stateCount = least * t.stateCount + match most with
      | none => t.stateCount + 2
      | some most => (most - least) * (t.stateCount + 4) := by
  cases most with
  | none =>
    rw [repeated, Tree.stateCount_concatAll (by simp)]
    simp [Tree.stateCount]
  | some most =>
    have hle := hbounds most rfl
    have hne : most ≠ 0 := fun hzero ↦ hmost (congrArg some hzero)
    have hcopies : List.replicate least t ++ List.replicate (most - least) t.optional ≠ [] := by
      rw [← List.length_pos_iff, List.length_append, List.length_replicate, List.length_replicate]
      omega
    rw [repeated, Tree.stateCount_concatAll hcopies]
    simp [Tree.stateCount, Tree.optional]

def optionalCopies (least : Nat) : Option Nat → Nat
  | none => 0
  | some most => most - least

/-- The size that is checked leaves out the two states of the empty
alternative in each optional copy. -/
theorem repetitionSize_eq (hbounds : ∀ bound ∈ most, least ≤ bound) (hmost : most ≠ some 0) :
    repetitionSize least most t.stateCount =
      saturated ((repeated least most t).stateCount - 2 * optionalCopies least most) := by
  rw [stateCount_repeated hbounds hmost]
  cases most with
  | none =>
    simp only [repetitionSize, optionalCopies, saturated]
    omega
  | some most =>
    simp only [repetitionSize, optionalCopies, saturated, Nat.mul_add]
    omega

theorem repetitionSize_le (hbounds : ∀ bound ∈ most, least ≤ bound) (hmost : most ≠ some 0) :
    repetitionSize least most t.stateCount ≤ (repeated least most t).stateCount := by
  rw [repetitionSize_eq hbounds hmost]
  exact (Nat.min_le_left _ _).trans (Nat.sub_le _ _)

theorem stateCount_le_repeated (hbounds : ∀ bound ∈ most, least ≤ bound) (hmost : most ≠ some 0) :
    t.stateCount ≤ (repeated least most t).stateCount := by
  rw [stateCount_repeated hbounds hmost]
  cases most with
  | none => exact (Nat.le_add_right _ 2).trans (Nat.le_add_left _ _)
  | some most =>
    have hle := hbounds most rfl
    have hne : most ≠ 0 := fun hzero ↦ hmost (congrArg some hzero)
    rcases Nat.eq_zero_or_pos least with rfl | hpos
    · have htail := Nat.le_mul_of_pos_left (t.stateCount + 4) (Nat.pos_of_ne_zero hne)
      simp only [Nat.sub_zero]
      omega
    · exact (Nat.le_mul_of_pos_left _ hpos).trans (Nat.le_add_right _ _)

theorem toTrees_mono (hr : ∀ r ∈ rs, ∀ t ∈ ts, r.toTree limit = .ok t → r.toTree limit' = .ok t)
    (h : toTrees limit rs = .ok ts) : toTrees limit' rs = .ok ts := by
  rw [toTrees_eq_ok_iff, List.forall₂_iff_zip] at h ⊢
  refine ⟨h.1, fun {r t} hmem ↦ ?_⟩
  obtain ⟨hr', ht⟩ := List.of_mem_zip hmem
  exact hr r hr' t ht (h.2 hmem)

/-- What an expression is lowered to under one limit, it is lowered to under
every limit that its tree fits. -/
theorem Normal.toTree_of_fits (h : r.Normal) (ht : r.toTree limit = .ok t)
    (hfits : Fits limit' t.stateCount) :
    r.toTree limit' = .ok t := by
  induction h generalizing t with
  | empty => simpa only [toTree] using ht
  | literal => simpa only [toTree] using ht
  | bytes => exact toTree_bytes_eq_ok_iff.2 (toTree_bytes_eq_ok_iff.1 ht)
  | scalars => exact toTree_scalars_eq_ok_iff.2 (toTree_scalars_eq_ok_iff.1 ht)
  | look => simp [toTree] at ht
  | repetition hbounds hmost _ ih =>
    obtain ⟨u, hu, -, rfl⟩ := toTree_repetition_eq_ok_iff.1 ht
    have hu' := ih hu (hfits.mono (stateCount_le_repeated hbounds hmost))
    have hsize := checkSize_eq_ok_iff.2 (hfits.mono (repetitionSize_le hbounds hmost))
    exact toTree_repetition_eq_ok_iff.2 ⟨u, hu', hsize, rfl⟩
  | capture _ ih =>
    rw [toTree] at ht ⊢
    exact ih ht hfits
  | concat _ ih =>
    obtain ⟨ts, hts, rfl⟩ := toTree_concat_eq_ok_iff.1 ht
    refine toTree_concat_eq_ok_iff.2 ⟨ts, toTrees_mono (fun r hr t ht h ↦ ih r hr h ?_) hts, rfl⟩
    exact hfits.mono (Tree.stateCount_le_concatAll ht)
  | alternation _ ih =>
    obtain ⟨ts, hts, rfl⟩ := toTree_alternation_eq_ok_iff.1 ht
    refine toTree_alternation_eq_ok_iff.2
      ⟨ts, toTrees_mono (fun r hr t ht h ↦ ih r hr h ?_) hts, rfl⟩
    exact hfits.mono (Tree.stateCount_le_alternAll ht)

structure Automata where
  tree : Tree
  nfa : Nfa
  dfa : Dfa

/-- Each limit holds for one of the automata, and the first one also for the
repetitions on the way to it. -/
def automataWithin (nfaLimit dfaLimit : Option Nat) (r : Regex) : Except BuildError Automata := do
  let t ← r.toTree nfaLimit
  let n ← (t.toNfaWithin nfaLimit).mapError .tooComplex
  let d ← (n.toDfaWithin dfaLimit).mapError .tooComplex
  return ⟨t, n, d⟩

theorem automataWithin_eq_ok_iff {a : Automata} : r.automataWithin nfaLimit dfaLimit = .ok a ↔
    ∃ t, r.toTree nfaLimit = .ok t ∧ Fits nfaLimit t.stateCount ∧
      Fits dfaLimit t.toNfa.toDfa.stateCount ∧
      ⟨t, t.toNfa, t.toNfa.toDfa⟩ = a := by
  simp only [automataWithin, bind_eq_ok_iff, pure_eq_ok_iff, mapError_eq_ok_iff,
    Tree.toNfaWithin_eq_ok_iff, Nfa.toDfaWithin_eq_ok_iff]
  refine exists_congr fun t ↦ and_congr_right fun _ ↦ ?_
  refine ⟨fun h ↦ ?_, fun h ↦ ?_⟩
  · obtain ⟨n, ⟨hnfa, rfl⟩, d, ⟨hdfa, rfl⟩, ha⟩ := h
    exact ⟨hnfa, hdfa, ha⟩
  · obtain ⟨hnfa, hdfa, ha⟩ := h
    exact ⟨t.toNfa, ⟨hnfa, rfl⟩, t.toNfa.toDfa, ⟨hdfa, rfl⟩, ha⟩

/-- Behind the first automaton only the limit on the second one can fail, and
it names one state too many. -/
theorem automataWithin_eq_error_iff {most : Nat} {e : BuildError} (ht : r.toTree nfaLimit = .ok t)
    (hfits : Fits nfaLimit t.stateCount) : r.automataWithin nfaLimit (some most) = .error e ↔
      most < t.toNfa.toDfa.stateCount ∧ e = .tooComplex ⟨most + 1, most⟩ := by
  have hnfa : t.toNfaWithin nfaLimit = .ok t.toNfa := Tree.toNfaWithin_eq_ok_iff.2 ⟨hfits, rfl⟩
  simp only [automataWithin, ht, hnfa, Nfa.toDfaWithin_some, bind, Except.bind, Except.mapError]
  by_cases hle : t.toNfa.toDfa.stateCount ≤ most
  · rw [if_pos hle]
    simp [pure, Except.pure, Nat.not_lt.2 hle]
  · rw [if_neg hle]
    simp [Nat.lt_of_not_le hle, eq_comm]

structure GatedByLimits (r : Regex) : Prop where
  built_iff : ∀ nfaLimit dfaLimit a, r.automataWithin nfaLimit dfaLimit = .ok a ↔
    ∃ t, r.toTree none = .ok t ∧ Fits nfaLimit t.stateCount ∧
      Fits dfaLimit t.toNfa.toDfa.stateCount ∧ ⟨t, t.toNfa, t.toNfa.toDfa⟩ = a
  unlimited_of_built : ∀ nfaLimit dfaLimit a, r.automataWithin nfaLimit dfaLimit = .ok a →
    r.automataWithin none none = .ok a
  lowered_of_fits : ∀ limit t, r.toTree none = .ok t → Fits limit t.stateCount →
    r.toTree limit = .ok t
  built_of_raised : ∀ nfaLimit nfaLimit' dfaLimit dfaLimit',
    Raised nfaLimit nfaLimit' → Raised dfaLimit dfaLimit' →
    ∀ a, r.automataWithin nfaLimit dfaLimit = .ok a → r.automataWithin nfaLimit' dfaLimit' = .ok a
  dfa_error_iff : ∀ nfaLimit most t,
    r.toTree nfaLimit = .ok t → t.toNfaWithin nfaLimit = .ok t.toNfa →
    ∀ e, r.automataWithin nfaLimit (some most) = .error e ↔
      most < t.toNfa.toDfa.stateCount ∧ e = .tooComplex ⟨most + 1, most⟩
  dfa_refused : ∀ nfaLimit most t,
    r.toTree nfaLimit = .ok t → t.toNfaWithin nfaLimit = .ok t.toNfa →
    most < t.toNfa.toDfa.stateCount →
    ∃ found, t.toNfa.Numbered (some most) (.error found) ∧ found.nodes.size = most ∧
      r.automataWithin nfaLimit (some most) = .error (.tooComplex ⟨found.nodes.size + 1, most⟩)

theorem Normal.automataWithin_eq_ok_iff (h : r.Normal) {a : Automata} :
    r.automataWithin nfaLimit dfaLimit = .ok a ↔
      ∃ t, r.toTree none = .ok t ∧ Fits nfaLimit t.stateCount ∧
      Fits dfaLimit t.toNfa.toDfa.stateCount ∧ ⟨t, t.toNfa, t.toNfa.toDfa⟩ = a := by
  rw [Regex.automataWithin_eq_ok_iff]
  refine ⟨fun hbuilt ↦ ?_, fun hbuilt ↦ ?_⟩
  · obtain ⟨t, ht, hrest⟩ := hbuilt
    exact ⟨t, h.toTree_of_fits ht fits_none, hrest⟩
  · obtain ⟨t, ht, hnfa, hrest⟩ := hbuilt
    exact ⟨t, h.toTree_of_fits ht hnfa, hnfa, hrest⟩

theorem Normal.automataWithin_of_raised (h : r.Normal) {nfaLimit' dfaLimit' : Option Nat}
    {a : Automata} (hnfa : Raised nfaLimit nfaLimit') (hdfa : Raised dfaLimit dfaLimit')
    (ha : r.automataWithin nfaLimit dfaLimit = .ok a) :
    r.automataWithin nfaLimit' dfaLimit' = .ok a := by
  obtain ⟨t, ht, hfits, hfits', rfl⟩ := h.automataWithin_eq_ok_iff.1 ha
  exact h.automataWithin_eq_ok_iff.2 ⟨t, ht, hfits.raise hnfa, hfits'.raise hdfa, rfl⟩

/-- The check of each repetition, that of the first automaton and that of the second one are one
threshold on the sizes of the two automata. -/
theorem Normal.gatedByLimits (h : r.Normal) : r.GatedByLimits where
  built_iff _ _ _ := h.automataWithin_eq_ok_iff
  unlimited_of_built _ _ _ ha := h.automataWithin_of_raised raised_none raised_none ha
  lowered_of_fits _ _ ht hfits := h.toTree_of_fits ht hfits
  built_of_raised _ _ _ _ hnfa hdfa _ ha := h.automataWithin_of_raised hnfa hdfa ha
  dfa_error_iff _ _ _ ht hnfa _ :=
    automataWithin_eq_error_iff ht (Tree.toNfaWithin_eq_ok_iff.1 hnfa).1
  dfa_refused _ _ _ ht hnfa hmore := by
    obtain ⟨found, hnumbered, hsize⟩ := Nfa.exists_refused hmore
    refine ⟨found, hnumbered, hsize, ?_⟩
    rw [automataWithin_eq_error_iff ht (Tree.toNfaWithin_eq_ok_iff.1 hnfa).1, hsize]
    exact ⟨hmore, rfl⟩

def twoOrThree : Regex := repetition 2 (some 3) true (literal [97])

theorem twoOrThree_normal : twoOrThree.Normal := .repetition (by simp) (by simp) .literal

/-- Its automata have ten states and four states. -/
theorem gatedByLimits_twoOrThree : twoOrThree.Normal ∧
    (∃ a, twoOrThree.automataWithin (some 10) (some 4) = .ok a) ∧
      (∀ a, twoOrThree.automataWithin (some 9) (some 4) ≠ .ok a) ∧
        twoOrThree.automataWithin (some 10) (some 3) = .error (.tooComplex ⟨4, 3⟩) := by
  have hgated := Normal.gatedByLimits twoOrThree_normal
  have htree : twoOrThree.toTree none = .ok (repeated 2 (some 3) (.literal [97])) := by
    simp only [twoOrThree, toTree]
    rfl
  have hnfa : (repeated 2 (some 3) (.literal [97])).stateCount = 10 := by decide +kernel
  have hdfa : (repeated 2 (some 3) (.literal [97])).toNfa.toDfa.stateCount = 4 := by decide +kernel
  have hfits : Fits (some 10) (repeated 2 (some 3) (.literal [97])).stateCount :=
    fits_some.2 hnfa.le
  refine ⟨twoOrThree_normal, ?_, ?_, ?_⟩
  · exact ⟨_, (hgated.built_iff _ _ _).2 ⟨_, htree, hfits, fits_some.2 hdfa.le, rfl⟩⟩
  · intro a ha
    obtain ⟨t, ht, hless, -⟩ := (hgated.built_iff _ _ _).1 ha
    obtain rfl := Except.ok.inj (htree.symm.trans ht)
    rw [fits_some, hnfa] at hless
    exact absurd hless (by decide)
  · refine (hgated.dfa_error_iff _ _ _ (hgated.lowered_of_fits _ _ htree hfits) ?_ _).2 ⟨?_, rfl⟩
    · exact Tree.toNfaWithin_eq_ok_iff.2 ⟨hfits, rfl⟩
    · rw [hdfa]
      decide

end Regex

/-- A pattern is made of the automata of the expression that its text denotes. -/
theorem Pattern.build_eq (options : PatternOptions) (text : String) :
    Pattern.build options text = do
    let r ← (Regex.ofText? options.caseless text).mapError (.syntactic text)
    let a ← (r.automataWithin options.nfaLimit options.dfaLimit).mapError .build
    return ⟨text, a.nfa, if options.minimize then a.dfa.minimize else a.dfa, options.mode⟩ := by
  unfold build Tree.ofText? Regex.automataWithin
  cases Regex.ofText? options.caseless text with
  | error fault => rfl
  | ok r =>
    simp only [Except.mapError, bind, Except.bind]
    cases r.toTree options.nfaLimit with
    | error e => rfl
    | ok t =>
      simp only
      cases t.toNfaWithin options.nfaLimit with
      | error e => rfl
      | ok n =>
        simp only
        cases n.toDfaWithin options.dfaLimit with
        | error e => rfl
        | ok d => rfl

end BytePatterns
