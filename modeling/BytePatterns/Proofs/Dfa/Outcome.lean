import BytePatterns.Proofs.Dfa.Partition

namespace BytePatterns.Dfa

variable {d : Dfa} {s t k : Nat} {sym : Symbol} {word : List Symbol}

inductive Outcome where
  | stuck
  | accepting
  | rejecting
deriving DecidableEq

def outcome (d : Dfa) (s : Nat) (word : List Symbol) : Outcome :=
  match d.walkFrom? s word with
  | none => .stuck
  | some t => if d.isAccepting t then .accepting else .rejecting

def Over (d : Dfa) (word : List Symbol) : Prop := ∀ sym ∈ word, sym ∈ d.alphabet

instance (d : Dfa) (word : List Symbol) : Decidable (d.Over word) :=
  inferInstanceAs (Decidable (∀ sym ∈ word, sym ∈ d.alphabet))

def AgreeWithin (d : Dfa) (k s t : Nat) : Prop :=
  ∀ word, d.Over word → word.length ≤ k → d.outcome s word = d.outcome t word

def Agree (d : Dfa) (s t : Nat) : Prop := ∀ word, d.Over word → d.outcome s word = d.outcome t word

theorem outcome_nil : d.outcome s [] = if d.isAccepting s then .accepting else .rejecting := rfl

theorem outcome_nil_eq_iff :
    d.outcome s [] = d.outcome t [] ↔ d.isAccepting s = d.isAccepting t := by
  rw [outcome_nil, outcome_nil]
  cases d.isAccepting s <;> cases d.isAccepting t <;> simp

theorem outcome_cons_of_none (h : d.follow? s sym = none) : d.outcome s (sym :: word) = .stuck := by
  rw [outcome, walkFrom?_cons, h, Option.bind_none]

theorem outcome_cons_of_some (h : d.follow? s sym = some t) :
    d.outcome s (sym :: word) = d.outcome t word := by
  rw [outcome, walkFrom?_cons, h, Option.bind_some, outcome]

theorem outcome_nil_ne_stuck : d.outcome s [] ≠ .stuck := by
  rw [outcome_nil]
  split <;> simp

theorem outcome_eq_accepting_iff : d.outcome s word = .accepting ↔ word ∈ d.residual s := by
  rw [outcome, mem_residual]
  cases d.walkFrom? s word with
  | none => simp
  | some t => simp

theorem over_cons_iff : d.Over (sym :: word) ↔ sym ∈ d.alphabet ∧ d.Over word :=
  List.forall_mem_cons

theorem AgreeWithin.mono {j : Nat} (h : d.AgreeWithin k s t) (hle : j ≤ k) : d.AgreeWithin j s t :=
  fun word hword hlength ↦ h word hword (hlength.trans hle)

theorem agree_iff_forall_agreeWithin : d.Agree s t ↔ ∀ k, d.AgreeWithin k s t :=
  ⟨fun h _ word hword _ ↦ h word hword, fun h word hword ↦ h word.length word hword le_rfl⟩

theorem agreeWithin_zero_iff : d.AgreeWithin 0 s t ↔ d.isAccepting s = d.isAccepting t := by
  rw [← outcome_nil_eq_iff]
  refine ⟨fun h ↦ h [] (by simp [Over]) le_rfl, fun h word _ hlength ↦ ?_⟩
  obtain rfl := List.length_eq_zero_iff.1 (Nat.le_zero.1 hlength)
  exact h

/-- Words that begin with a symbol tell apart what it leads to states that are told apart, and what
has an edge for it and what has none. -/
theorem rel_agreeWithin_iff : Option.Rel (d.AgreeWithin k) (d.follow? s sym) (d.follow? t sym) ↔
    ∀ word, d.Over word → word.length ≤ k →
      d.outcome s (sym :: word) = d.outcome t (sym :: word) := by
  constructor
  · intro hrel word hword hlength
    cases hs : d.follow? s sym with
    | none =>
      have ht := (eq_none_iff_of_rel hrel).1 hs
      rw [outcome_cons_of_none hs, outcome_cons_of_none ht]
    | some s' =>
      obtain ⟨t', ht, hagree⟩ := exists_right_of_rel hrel hs
      rw [outcome_cons_of_some hs, outcome_cons_of_some ht]
      exact hagree word hword hlength
  · intro houtcome
    have hedge := houtcome [] (by simp [Over]) (Nat.zero_le k)
    cases hs : d.follow? s sym with
    | none =>
      cases ht : d.follow? t sym with
      | none => exact .none
      | some t' =>
        rw [outcome_cons_of_none hs, outcome_cons_of_some ht] at hedge
        exact absurd hedge.symm outcome_nil_ne_stuck
    | some s' =>
      cases ht : d.follow? t sym with
      | none =>
        rw [outcome_cons_of_some hs, outcome_cons_of_none ht] at hedge
        exact absurd hedge outcome_nil_ne_stuck
      | some t' =>
        refine .some fun word hword hlength ↦ ?_
        have heq := houtcome word hword hlength
        rwa [outcome_cons_of_some hs, outcome_cons_of_some ht] at heq

theorem agreeWithin_succ_iff : d.AgreeWithin (k + 1) s t ↔ d.AgreeWithin k s t ∧
    ∀ sym ∈ d.alphabet, Option.Rel (d.AgreeWithin k) (d.follow? s sym) (d.follow? t sym) := by
  simp only [rel_agreeWithin_iff]
  constructor
  · intro h
    refine ⟨h.mono (Nat.le_succ k), fun sym hsym word hword hlength ↦ ?_⟩
    exact h _ (over_cons_iff.2 ⟨hsym, hword⟩) (Nat.succ_le_succ hlength)
  · rintro ⟨h, hcons⟩ word hword hlength
    cases word with
    | nil => exact h [] hword (Nat.zero_le k)
    | cons sym word =>
      obtain ⟨hsym, hword⟩ := over_cons_iff.1 hword
      exact hcons sym hsym word hword (Nat.le_of_succ_le_succ hlength)

theorem Closed.same_refineBy_iff (h : d.Closed) {p : Partition d.stateCount}
    (hp : ∀ s < d.stateCount, ∀ t < d.stateCount, p.Same s t ↔ d.AgreeWithin k s t)
    (hs : s < d.stateCount) (ht : t < d.stateCount) :
    (refineBy d.columns p).Same s t ↔ d.AgreeWithin (k + 1) s t := by
  rw [h.same_refineBy hs ht, agreeWithin_succ_iff, hp s hs t ht]
  refine and_congr_right fun _ ↦ forall₂_congr fun sym _ ↦ ?_
  refine rel_congr fun s' t' hs' ht' ↦ hp s' (h.follow?_lt hs') t' (h.follow?_lt ht')

theorem Closed.same_iff_agreeWithin (h : d.Closed) {p : Partition d.stateCount}
    (hp : (d.initialPartition :: d.refinements)[k]? = some p) :
    ∀ s < d.stateCount, ∀ t < d.stateCount, p.Same s t ↔ d.AgreeWithin k s t := by
  refine Partition.passes_induction
    (P := fun k p ↦ ∀ s < d.stateCount, ∀ t < d.stateCount, p.Same s t ↔ d.AgreeWithin k s t)
      ?_ ?_ hp
  · intro s hs t ht
    rw [agreeWithin_zero_iff]
    exact Partition.same_bipartition hs ht
  · intro k p ih s hs t ht
    exact h.same_refineBy_iff ih hs ht

theorem Closed.agreeWithin_of_same (h : d.Closed) (hsame : d.stablePartition.Same s t) (k : Nat) :
    d.AgreeWithin k s t := by
  induction k generalizing s t with
  | zero => exact agreeWithin_zero_iff.2 (h.isAccepting_eq_of_same hsame)
  | succ k ih =>
    refine agreeWithin_succ_iff.2 ⟨ih hsame, fun sym hsym ↦ ?_⟩
    exact rel_mono (h.follow_rel_of_same hsame sym hsym) fun _ _ ↦ ih

/-- Words of more symbols than there were passes tell no more states apart. -/
theorem Closed.same_stablePartition_iff_agreeWithin (h : d.Closed) (hk : d.refinements.length ≤ k)
    (hs : s < d.stateCount) (ht : t < d.stateCount) :
    d.stablePartition.Same s t ↔ d.AgreeWithin k s t := by
  refine ⟨fun hsame ↦ h.agreeWithin_of_same hsame k, fun hagree ↦ ?_⟩
  have hlast := Partition.getElem?_length_successors (refineBy d.columns) d.initialPartition
  exact (h.same_iff_agreeWithin hlast s hs t ht).2 (hagree.mono hk)

theorem Closed.same_stablePartition_iff_agree (h : d.Closed) (hs : s < d.stateCount)
    (ht : t < d.stateCount) :
    d.stablePartition.Same s t ↔ d.Agree s t := by
  rw [agree_iff_forall_agreeWithin]
  refine ⟨h.agreeWithin_of_same, fun hagree ↦ ?_⟩
  exact (h.same_stablePartition_iff_agreeWithin le_rfl hs ht).2 (hagree _)

end BytePatterns.Dfa
