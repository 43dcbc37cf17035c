import BytePatterns.Proofs.Regex.Limit

namespace BytePatterns.Regex

variable {limit limit' : Option Nat} {most : Option Nat} {least bound : Nat} {greedy : Bool}
  {r sub : Regex} {t u : Tree} {e : BuildError}

theorem toTree_of_raised (hraised : Raised limit limit') (h : r.toTree limit = .ok t) :
    r.toTree limit' = .ok t := by
  induction r using parts_induction generalizing t with
  | empty => simpa only [toTree] using h
  | literal => simpa only [toTree] using h
  | bytes => exact toTree_bytes_eq_ok_iff.2 (toTree_bytes_eq_ok_iff.1 h)
  | scalars => exact toTree_scalars_eq_ok_iff.2 (toTree_scalars_eq_ok_iff.1 h)
  | look => simp [toTree] at h
  | repetition least most greedy sub ih =>
    obtain ⟨u, hu, hsize, rfl⟩ := toTree_repetition_eq_ok_iff.1 h
    have hsize' := checkSize_eq_ok_iff.2 ((checkSize_eq_ok_iff.1 hsize).raise hraised)
    exact toTree_repetition_eq_ok_iff.2 ⟨u, ih hu, hsize', rfl⟩
  | capture index name sub ih =>
    rw [toTree] at h ⊢
    exact ih h
  | concat items ih =>
    obtain ⟨ts, hts, rfl⟩ := toTree_concat_eq_ok_iff.1 h
    exact toTree_concat_eq_ok_iff.2 ⟨ts, toTrees_mono (fun r hr _ _ ↦ ih r hr) hts, rfl⟩
  | alternation branches ih =>
    obtain ⟨ts, hts, rfl⟩ := toTree_alternation_eq_ok_iff.1 h
    exact toTree_alternation_eq_ok_iff.2 ⟨ts, toTrees_mono (fun r hr _ _ ↦ ih r hr) hts, rfl⟩

/-- When the operand of a repetition is built, only the check of the repetition itself can fail. -/
theorem toTree_repetition_eq_error_iff (hu : sub.toTree (some bound) = .ok u) :
    (repetition least most greedy sub).toTree (some bound) = .error e ↔
      bound < repetitionSize least most u.stateCount ∧
        e = .tooComplex ⟨repetitionSize least most u.stateCount, bound⟩ := by
  simp only [toTree, hu, checkSize, bind, Except.bind]
  by_cases hle : repetitionSize least most u.stateCount ≤ bound
  · rw [if_pos hle]
    simp [Except.mapError, pure, Except.pure, Nat.not_lt.2 hle]
  · rw [if_neg hle]
    simp [Except.mapError, Nat.lt_of_not_le hle, eq_comm]

/-- Under the limit the expression is refused if and only if its tree has more states, and then
the error names their number. -/
def RefusedBySize (r : Regex) (bound : Nat) : Prop :=
  ∃ t, r.toTree none = .ok t ∧
    ∀ e, r.toTree (some bound) = .error e ↔
      bound < t.stateCount ∧ e = .tooComplex ⟨t.stateCount, bound⟩

/-- The check of a repetition whose operand is built counts two states fewer for each optional copy
than the tree has. So the repetition is refused by its size exactly if it has no such copy and its
tree can be counted, or if the tree fits the limit. -/
theorem repetition_refusedBySize_iff (hbounds : ∀ bound ∈ most, least ≤ bound)
    (hmost : most ≠ some 0) (hu : sub.toTree (some bound) = .ok u) :
    ((repetition least most greedy sub).RefusedBySize bound ↔
        optionalCopies least most = 0 ∧ (repeated least most u).stateCount ≤ greatestSize ∨
          (repeated least most u).stateCount ≤ bound) ∧
      (repetition least most greedy sub).toTree none = .ok (repeated least most u) ∧
      ∀ e, (repetition least most greedy sub).toTree (some bound) = .error e ↔
        bound < saturated ((repeated least most u).stateCount - 2 * optionalCopies least most) ∧
          e = .tooComplex ⟨saturated ((repeated least most u).stateCount -
            2 * optionalCopies least most), bound⟩ := by
  have htree : (repetition least most greedy sub).toTree none = .ok (repeated least most u) :=
    toTree_repetition_eq_ok_iff.2 ⟨u, toTree_of_raised raised_none hu, rfl, rfl⟩
  have herror (e : BuildError) : (repetition least most greedy sub).toTree (some bound) = .error e ↔
      bound < saturated ((repeated least most u).stateCount - 2 * optionalCopies least most) ∧
        e = .tooComplex ⟨saturated ((repeated least most u).stateCount -
          2 * optionalCopies least most), bound⟩ := by
    rw [toTree_repetition_eq_error_iff hu, repetitionSize_eq hbounds hmost]
  refine ⟨⟨fun hrefused ↦ ?_, fun hexact ↦ ⟨_, htree, fun e ↦ ?_⟩⟩, htree, herror⟩
  · obtain ⟨t, ht, hrefused⟩ := hrefused
    obtain rfl := Except.ok.inj (htree.symm.trans ht)
    rcases Nat.lt_or_ge bound (repeated least most u).stateCount with hgreater | hfits
    · -- both errors have to name the same number of states
      obtain ⟨-, heq⟩ := (herror _).1 ((hrefused _).2 ⟨hgreater, rfl⟩)
      simp only [BuildError.tooComplex.injEq, TooComplex.mk.injEq, and_true, saturated] at heq
      omega
    · exact .inr hfits
  · rw [herror]
    rcases hexact with ⟨hnone, hcounted⟩ | hfits
    · rw [hnone, Nat.mul_zero, Nat.sub_zero, saturated, Nat.min_eq_left hcounted]
    · have hle :
          saturated ((repeated least most u).stateCount - 2 * optionalCopies least most) ≤ bound :=
        (Nat.min_le_left _ _).trans ((Nat.sub_le _ _).trans hfits)
      exact iff_of_false (fun h ↦ Nat.not_lt.2 hle h.1) fun h ↦ Nat.not_lt.2 hfits h.1

def nestedRepetition : Regex :=
  repetition 1 (some 3) true (repetition 2 none true (literal [97, 98]))

/-- The operand has 14 states and the tree 50, but the check counts 46. -/
theorem refusal_nestedRepetition :
    (repetition 2 none true (literal [97, 98])).toTree (some 45) =
      .ok (repeated 2 none (.literal [97, 98])) ∧
      (∃ t, nestedRepetition.toTree none = .ok t ∧ t.stateCount = 50) ∧
        ¬nestedRepetition.RefusedBySize 45 ∧
        nestedRepetition.toTree (some 45) = .error (.tooComplex ⟨46, 45⟩) := by
  have hoperand : (repetition 2 none true (literal [97, 98])).toTree (some 45) =
      .ok (repeated 2 none (.literal [97, 98])) := by
    refine toTree_repetition_eq_ok_iff.2 ⟨.literal [97, 98], by simp only [toTree], ?_, rfl⟩
    have hcount : (Tree.literal [97, 98]).stateCount = 4 := by decide +kernel
    simp [hcount, repetitionSize, saturated_of_lt, checkSize]
  have hsize : (repeated 1 (some 3) (repeated 2 none (.literal [97, 98]))).stateCount = 50 := by
    decide +kernel
  have hchecked : saturated (50 - 2 * optionalCopies 1 (some 3)) = 46 :=
    saturated_of_lt (by decide)
  obtain ⟨hrefused, htree, herror⟩ : (nestedRepetition.RefusedBySize 45 ↔ _) ∧
      nestedRepetition.toTree none = .ok _ ∧
        ∀ e, nestedRepetition.toTree (some 45) = .error e ↔ _ :=
    repetition_refusedBySize_iff (by simp) (by simp) hoperand
  refine ⟨hoperand, ⟨_, htree, hsize⟩, fun h ↦ ?_, (herror _).2 ⟨?_, ?_⟩⟩
  · rcases hrefused.1 h with hcopies | hfits
    · exact absurd hcopies (by decide)
    · rw [hsize] at hfits
      exact absurd hfits (by decide)
  · rw [hsize, hchecked]
    decide
  · rw [hsize, hchecked]

def threeToFive : Regex := repetition 3 (some 5) true (literal [99])

/-- Its tree has 18 states but is built under a limit of 17. -/
theorem threeToFive_built : (literal [99]).toTree (some 17) = .ok (.literal [99]) ∧
    ¬threeToFive.RefusedBySize 17 ∧
      ∃ t, threeToFive.toTree (some 17) = .ok t ∧ t.stateCount = 18 := by
  have hoperand : (literal [99]).toTree (some 17) = .ok (.literal [99]) := by simp only [toTree]
  have hcount : (Tree.literal [99]).stateCount = 2 := by decide +kernel
  have hcheck :
      checkSize (some 17) (repetitionSize 3 (some 5) (Tree.literal [99]).stateCount) = .ok () := by
    simp [hcount, repetitionSize, saturated_of_lt, checkSize]
  have hbuilt : threeToFive.toTree (some 17) = .ok (repeated 3 (some 5) (.literal [99])) :=
    toTree_repetition_eq_ok_iff.2 ⟨_, hoperand, hcheck, rfl⟩
  have hsize : (repeated 3 (some 5) (.literal [99])).stateCount = 18 := by decide +kernel
  refine ⟨hoperand, fun hrefused ↦ ?_, _, hbuilt, hsize⟩
  obtain ⟨t, ht, hrefused⟩ := hrefused
  obtain rfl := Except.ok.inj ((toTree_of_raised raised_none hbuilt).symm.trans ht)
  have herror := (hrefused _).2 ⟨by rw [hsize]; decide, rfl⟩
  rw [hbuilt] at herror
  cases herror

end BytePatterns.Regex
