import BytePatterns.Proofs.Dfa.Quotient
import Mathlib.Data.List.Shortlex

namespace BytePatterns

instance : Std.Asymm fun a b : Symbol ↦ a < b := ⟨fun _ _ ↦ Nat.lt_asymm⟩

abbrev Earlier (u v : List Symbol) : Prop := List.Shortlex (fun a b ↦ a < b) u v

theorem earlier_append_singleton {u v : List Symbol} (h : Earlier u v) (a b : Symbol) :
    Earlier (u ++ [a]) (v ++ [b]) := by
  rcases List.shortlex_def.1 h with hlt | ⟨heq, hlex⟩
  · exact .of_length_lt (by simpa using hlt)
  · refine .of_lex (by simpa using heq) ?_
    clear h
    induction hlex with
    | nil => simp at heq
    | cons _ ih => exact .cons (ih (Nat.succ.inj heq))
    | rel hab => exact .rel hab

theorem eq_or_earlier_append_singleton {u v : List Symbol} {a b : Symbol}
    (h : u = v ∧ ¬b < a ∨ Earlier u v) : u ++ [a] = v ++ [b] ∨ Earlier (u ++ [a]) (v ++ [b]) := by
  rcases h with ⟨rfl, hba⟩ | hearlier
  · by_cases hab : a < b
    · exact .inr (List.Shortlex.append_left ((List.shortlex_singleton_iff a b).2 hab) u)
    · rw [Symbol.eq_of_not_lt hab hba]
      exact .inl rfl
  · exact .inr (earlier_append_singleton hearlier a b)

/-- The first residual is met before the second: it has a word over the alphabet that comes before
all such words of the second. -/
def MetBefore (a : Alphabet) (l first second : Language Symbol) : Prop :=
  ∃ u, (∀ sym ∈ u, sym ∈ a) ∧ l.leftQuotient u = first ∧
    ∀ v, (∀ sym ∈ v, sym ∈ a) → l.leftQuotient v = second → Earlier u v

def SameOrder (a a' : Alphabet) (l : Language Symbol) : Prop :=
  ∀ u v, (∃ w, u ++ w ∈ l) → (∃ w, v ++ w ∈ l) →
    (MetBefore a l (l.leftQuotient u) (l.leftQuotient v) ↔
      MetBefore a' l (l.leftQuotient u) (l.leftQuotient v))

theorem SameOrder.refl (a : Alphabet) (l : Language Symbol) : SameOrder a a l :=
  fun _ _ _ _ ↦ Iff.rfl

theorem SameOrder.symm {a a' : Alphabet} {l : Language Symbol} (h : SameOrder a a' l) :
    SameOrder a' a l :=
  fun u v hu hv ↦ (h u v hu hv).symm

namespace Dfa

variable {d d' : Dfa} {i j k s t : Nat} {sym : Symbol}

structure BreadthFirst (d : Dfa) : Prop where
  start : d.start = 0
  first : ∀ k, 0 < k → k < d.stateCount →
    ∃ i sym, i < k ∧ sym ∈ d.alphabet ∧ d.follow? i sym = some k ∧
    ∀ i' sym' k', i' < d.stateCount → sym' ∈ d.alphabet → d.follow? i' sym' = some k' → k ≤ k' →
      i < i' ∨ i = i' ∧ ¬sym' < sym

/-- Numbered nodes whose edges are those that an automaton follows on its alphabet. -/
theorem breadthFirst_of_valid {α β : Type} [Ord α] [Ord β] {row : α → Row β} {node : β → α}
    {e : Exploration α β} (h : e.Valid row node) (hstart : d.start = 0)
    (hcount : d.stateCount = e.nodes.size)
    (hedge : ∀ i < d.stateCount, ∀ sym,
      Exploration.edge? e.rows i sym = if sym ∈ d.alphabet then d.follow? i sym else none) :
    d.BreadthFirst where
  start := hstart
  first k hpos hk := by
    obtain ⟨i, sym, hik, hlt, hfirst⟩ := h.first k hpos (hcount ▸ hk)
    rw [hedge i (hlt.trans hk)] at hik
    obtain ⟨hsym, hfollow⟩ := Option.ite_none_right_eq_some.1 hik
    refine ⟨i, sym, hlt, hsym, hfollow, ?_⟩
    intro i' sym' k' hi' hsym' hfollow' hle
    refine hfirst i' sym' k' ?_ hle
    rw [hedge i' hi']
    exact Option.ite_none_right_eq_some.2 ⟨hsym', hfollow'⟩

theorem Trim.minimize_breadthFirst (h : d.Trim) : d.minimize.BreadthFirst :=
  breadthFirst_of_valid numberedBlocks_valid rfl
    (stateCount_minimize (Nat.zero_lt_of_lt h.start_lt))
    fun _ hk sym ↦ h.edge?_numberedBlocks hk sym

theorem eq_or_earlier_of_walk? {u v : List Symbol} {a b : Symbol} (hi : d.walk? u = some i)
    (hj : d.walk? v = some j) (hij : i < j ∨ i = j ∧ ¬b < a)
    (hearliest : i ≤ j → u = v ∨ Earlier u v) :
    u ++ [a] = v ++ [b] ∨ Earlier (u ++ [a]) (v ++ [b]) := by
  refine eq_or_earlier_append_singleton ?_
  rcases hij with hlt | ⟨rfl, hba⟩
  · rcases hearliest hlt.le with rfl | hearlier
    · exact absurd (Option.some.inj (hi.symm.trans hj)) hlt.ne
    · exact .inr hearlier
  · exact (hearliest (Nat.le_refl i)).imp (fun heq ↦ ⟨heq, hba⟩) id

theorem BreadthFirst.exists_earliest (h : d.BreadthFirst) (htrim : d.Trim) (hk : k < d.stateCount) :
    ∃ u, (∀ sym ∈ u, sym ∈ d.alphabet) ∧ d.walk? u = some k ∧
      ∀ v, (∀ sym ∈ v, sym ∈ d.alphabet) → ∀ k', d.walk? v = some k' → k ≤ k' →
        u = v ∨ Earlier u v := by
  -- The induction goes back along first edges: each comes from a smaller number.
  induction k using Nat.strong_induction_on with
  | _ k ih =>
    have hnil : d.walk? [] = some 0 := by rw [walk?, walkFrom?_nil, h.start]
    rcases Nat.eq_zero_or_pos k with rfl | hpos
    · refine ⟨[], by simp, hnil, ?_⟩
      intro v _ _ _ _
      exact (List.shortlex_nil_or_eq_nil v).symm.imp Eq.symm id
    · obtain ⟨i, sym, hik, hsym, hfollow, hfirst⟩ := h.first k hpos hk
      obtain ⟨u, hu, hwalk, hearliest⟩ := ih i hik (hik.trans hk)
      refine ⟨u ++ [sym], by simpa [or_imp, forall_and] using ⟨hu, hsym⟩, ?_, ?_⟩
      · rw [walk?_append_singleton, hwalk, Option.bind_some, hfollow]
      · intro v hv k' hk' hle
        -- the last symbol of `v` follows an edge to a number that is not less than `k`
        rcases List.eq_nil_or_concat' v with rfl | ⟨v, x, rfl⟩
        · rw [hnil] at hk'
          cases hk'
          exact absurd hle (Nat.not_le.2 hpos)
        · have hmem : (∀ sym ∈ v, sym ∈ d.alphabet) ∧ x ∈ d.alphabet := by
            simpa [or_imp, forall_and] using hv
          rw [walk?_append_singleton, Option.bind_eq_some_iff] at hk'
          obtain ⟨i', hi', hlast⟩ := hk'
          have hi := hfirst i' x k' (htrim.walk?_lt hi') hmem.2 hlast hle
          exact eq_or_earlier_of_walk? hwalk hi' hi (hearliest v hmem.1 i' hi')

theorem Reduced.walk?_of_leftQuotient (h : d.Reduced) (hk : k < d.stateCount) {v : List Symbol}
    (hv : d.symbolLanguage.leftQuotient v = d.residual k) : d.walk? v = some k := by
  obtain ⟨w, hw⟩ := h.live k hk
  obtain ⟨k', hk'⟩ := walk?_isSome_of_mem (hv ▸ hw : w ∈ d.symbolLanguage.leftQuotient v)
  rw [leftQuotient_symbolLanguage hk'] at hv
  rw [hk', h.injective k' (h.walk?_lt hk') k hk hv]

theorem Reduced.lt_iff_metBefore (h : d.Reduced) (hfirst : d.BreadthFirst) (hi : i < d.stateCount)
    (hj : j < d.stateCount) :
    i < j ↔ MetBefore d.alphabet d.symbolLanguage (d.residual i) (d.residual j) := by
  constructor
  · intro hlt
    obtain ⟨u, hu, hwalk, hearliest⟩ := hfirst.exists_earliest h.toTrim hi
    refine ⟨u, hu, leftQuotient_symbolLanguage hwalk, ?_⟩
    intro v hv hv'
    have hwalk' := h.walk?_of_leftQuotient hj hv'
    rcases hearliest v hv j hwalk' (Nat.le_of_lt hlt) with rfl | hearlier
    · rw [hwalk] at hwalk'
      cases hwalk'
      exact absurd hlt (Nat.lt_irrefl i)
    · exact hearlier
  · intro h'
    obtain ⟨u, hu, hu', hbefore⟩ := h'
    by_contra hle
    obtain ⟨v, hv, hwalk, hearliest⟩ := hfirst.exists_earliest h.toTrim hj
    have huv := hbefore v hv (leftQuotient_symbolLanguage hwalk)
    rcases hearliest u hu i (h.walk?_of_leftQuotient hi hu') (Nat.not_lt.1 hle) with rfl | hvu
    · exact Std.Asymm.asymm _ _ huv huv
    · exact Std.Asymm.asymm _ _ huv hvu

theorem Reduced.follow?_eq_some_iff (h : d.Reduced) :
    d.follow? s sym = some t ↔
      t < d.stateCount ∧ (d.residual s).leftQuotient [sym] = d.residual t := by
  constructor
  · intro ht
    exact ⟨h.follow?_lt ht, leftQuotient_singleton ht⟩
  · intro h'
    obtain ⟨ht, heq⟩ := h'
    obtain ⟨w, hw⟩ := h.live t ht
    rw [← heq] at hw
    obtain ⟨t', ht', -⟩ := cons_mem_residual.1 hw
    rw [leftQuotient_singleton ht'] at heq
    rw [ht', h.injective t' (h.follow?_lt ht') t ht heq]

/-- A reduced automaton with breadth-first numbers and without edges for bytes
that lead where `any` leads. -/
structure Canonical (d : Dfa) : Prop extends Reduced d, BreadthFirst d where
  edge?_iff : ∀ k sym t, d.edge? k sym = some t ↔
    d.follow? k sym = some t ∧ (sym = .any ∨ d.follow? k .any ≠ some t)

theorem Trim.minimize_canonical (h : d.Trim) : d.minimize.Canonical where
  toReduced := h.minimize_reduced
  toBreadthFirst := h.minimize_breadthFirst
  edge?_iff k sym t := by
    have htrim := h.minimize_trim
    rw [h.edge?_minimize, h.edge?_numberedBlocks_iff, ne_eq, h.edge?_numberedBlocks_iff]
    constructor
    · intro h'
      obtain ⟨⟨-, hfollow⟩, hother⟩ := h'
      exact ⟨hfollow, hother.imp_right fun hne hany ↦ hne ⟨htrim.label_mem k .any t hany, hany⟩⟩
    · intro h'
      obtain ⟨hfollow, hother⟩ := h'
      refine ⟨⟨?_, hfollow⟩, hother.imp_right fun hne hany ↦ hne hany.2⟩
      by_contra hmem
      have hany := htrim.follow?_of_not_mem (d := d.minimize) hmem k
      rw [hfollow] at hany
      rcases hother with rfl | hne
      · exact hmem (htrim.label_mem k .any t hfollow)
      · exact hne hany.symm

theorem Trim.exists_residual_eq (h : d.Trim) (h' : d'.Trim)
    (hl : d.symbolLanguage = d'.symbolLanguage) (hi : i < d.stateCount) :
    ∃ j < d'.stateCount, d.residual i = d'.residual j := by
  obtain ⟨u, -, hu⟩ := h.reached i hi
  obtain ⟨w, hw⟩ := h.live i hi
  rw [← leftQuotient_symbolLanguage hu, hl] at hw
  obtain ⟨j, hj⟩ := walk?_isSome_of_mem hw
  refine ⟨j, h'.walk?_lt hj, ?_⟩
  rw [← leftQuotient_symbolLanguage hu, hl, leftQuotient_symbolLanguage hj]

theorem Canonical.lt_iff_lt (h : d.Canonical) (h' : d'.Canonical)
    (hl : d.symbolLanguage = d'.symbolLanguage)
    (horder : SameOrder d.alphabet d'.alphabet d.symbolLanguage) {i' j' : Nat}
    (hi : i < d.stateCount) (hj : j < d.stateCount) (hi' : i' < d'.stateCount)
    (hj' : j' < d'.stateCount) (hii' : d.residual i = d'.residual i')
    (hjj' : d.residual j = d'.residual j') : i < j ↔ i' < j' := by
  rw [h.lt_iff_metBefore h.toBreadthFirst hi hj, h'.lt_iff_metBefore h'.toBreadthFirst hi' hj',
    ← hii', ← hjj', ← hl]
  obtain ⟨u, -, hu⟩ := h.reached i hi
  obtain ⟨v, -, hv⟩ := h.reached j hj
  rw [← leftQuotient_symbolLanguage hu, ← leftQuotient_symbolLanguage hv]
  refine horder u v ?_ ?_
  · exact h.exists_walk?_iff.1 ⟨i, hu⟩
  · exact h.exists_walk?_iff.1 ⟨j, hv⟩

theorem Canonical.residual_eq (h : d.Canonical) (h' : d'.Canonical)
    (hl : d.symbolLanguage = d'.symbolLanguage)
    (horder : SameOrder d.alphabet d'.alphabet d.symbolLanguage) (hi : i < d.stateCount) :
    i < d'.stateCount ∧ d.residual i = d'.residual i := by
  induction i using Nat.strong_induction_on with
  | _ i ih =>
    obtain ⟨j, hj, hij⟩ := h.exists_residual_eq h'.toTrim hl hi
    have hle : i ≤ j := by
      by_contra hlt
      have hji := Nat.not_le.1 hlt
      obtain ⟨-, hjj⟩ := ih j hji (hji.trans hi)
      exact Nat.ne_of_lt hji (h.injective j (hji.trans hi) i hi (hjj.trans hij.symm))
    obtain rfl | hlt := Nat.eq_or_lt_of_le hle
    · exact ⟨hj, hij⟩
    · -- the number `i` of the other automaton would belong to a residual met before
      obtain ⟨k, hk, hik⟩ := h'.exists_residual_eq h.toTrim hl.symm (hlt.trans hj)
      have hki := (h.lt_iff_lt h' hl horder hk hi (hlt.trans hj) hj hik.symm hij).2 hlt
      obtain ⟨hk', hkk⟩ := ih k hki hk
      exact absurd (h'.injective k hk' i (hlt.trans hj) (hkk.symm.trans hik.symm))
        (Nat.ne_of_lt hki)

theorem Canonical.stateCount_le (h : d.Canonical) (h' : d'.Canonical)
    (hl : d.symbolLanguage = d'.symbolLanguage)
    (horder : SameOrder d.alphabet d'.alphabet d.symbolLanguage) :
    d.stateCount ≤ d'.stateCount := by
  by_contra hlt
  exact Nat.lt_irrefl _ (h.residual_eq h' hl horder (Nat.not_le.1 hlt)).1

theorem Canonical.states_eq (h : d.Canonical) (h' : d'.Canonical)
    (hl : d.symbolLanguage = d'.symbolLanguage)
    (horder : SameOrder d.alphabet d'.alphabet d.symbolLanguage) : d.states = d'.states := by
  have hcount : d.stateCount = d'.stateCount :=
    Nat.le_antisymm (h.stateCount_le h' hl horder) (h'.stateCount_le h hl.symm (hl ▸ horder.symm))
  have hfollow {i : Nat} (hi : i < d.stateCount) (sym : Symbol) :
      d.follow? i sym = d'.follow? i sym := by
    ext t
    rw [h.follow?_eq_some_iff, h'.follow?_eq_some_iff, ← hcount, (h.residual_eq h' hl horder hi).2]
    apply and_congr_right
    intro ht
    rw [(h.residual_eq h' hl horder ht).2]
  have hedge {i : Nat} (hi : i < d.stateCount) (sym : Symbol) : d.edge? i sym = d'.edge? i sym := by
    ext t
    rw [h.edge?_iff, h'.edge?_iff, hfollow hi, hfollow hi]
  refine states_ext hcount ?_ fun i hi sym ↦ hedge hi sym
  intro i hi
  rw [Bool.eq_iff_iff, ← nil_mem_residual, (h.residual_eq h' hl horder hi).2, nil_mem_residual]

theorem Canonical.eq_of_language_eq (h : d.Canonical) (h' : d'.Canonical)
    (hl : d.symbolLanguage = d'.symbolLanguage) (ha : d.alphabet = d'.alphabet) : d = d' := by
  have horder : SameOrder d.alphabet d'.alphabet d.symbolLanguage := ha ▸ .refl d.alphabet _
  exact Dfa.ext (h.start.trans h'.start.symm) (h.states_eq h' hl horder) ha

theorem Trim.minimize_minimize (h : d.Trim) : d.minimize.minimize = d.minimize :=
  h.minimize_trim.minimize_canonical.eq_of_language_eq h.minimize_canonical
    h.minimize_trim.symbolLanguage_minimize rfl

end Dfa

end BytePatterns
