import BytePatterns.Dfa
import BytePatterns.Proofs.Exploration
import Mathlib.Computability.MyhillNerode

namespace BytePatterns.Dfa

attribute [ext] Dfa

variable {d d' : Dfa} {s t : Nat} {sym : Symbol} {u word : List Symbol}

def walkFrom? (d : Dfa) (s : Nat) (word : List Symbol) : Option Nat := word.foldlM d.follow? s

def walk? (d : Dfa) (word : List Symbol) : Option Nat := d.walkFrom? d.start word

def residual (d : Dfa) (s : Nat) : Language Symbol :=
  {word | (d.walkFrom? s word).any d.isAccepting}

def symbolLanguage (d : Dfa) : Language Symbol := d.residual d.start

@[simp] theorem walkFrom?_nil : d.walkFrom? s [] = some s := rfl

@[simp] theorem walkFrom?_cons :
    d.walkFrom? s (sym :: word) = (d.follow? s sym).bind (d.walkFrom? · word) := rfl

theorem walkFrom?_append (u v : List Symbol) :
    d.walkFrom? s (u ++ v) = (d.walkFrom? s u).bind (d.walkFrom? · v) := List.foldlM_append

theorem walkFrom?_singleton : d.walkFrom? s [sym] = d.follow? s sym := by simp

theorem runFrom?_eq (bytes : List UInt8) :
    d.runFrom? s bytes = d.walkFrom? s (bytes.map .byte) := by
  rw [runFrom?, walkFrom?, List.foldlM_map]
  rfl

theorem mem_residual :
    word ∈ d.residual s ↔ ∃ t, d.walkFrom? s word = some t ∧ d.isAccepting t = true :=
  Option.any_eq_true _ _

theorem nil_mem_residual : [] ∈ d.residual s ↔ d.isAccepting s = true := by simp [mem_residual]

theorem cons_mem_residual :
    sym :: word ∈ d.residual s ↔ ∃ t, d.follow? s sym = some t ∧ word ∈ d.residual t := by
  simp only [mem_residual, walkFrom?_cons, Option.bind_eq_some_iff]
  constructor
  · intro h
    obtain ⟨r, ⟨t, ht, hr⟩, haccepting⟩ := h
    exact ⟨t, ht, r, hr, haccepting⟩
  · intro h
    obtain ⟨t, ht, r, hr, haccepting⟩ := h
    exact ⟨r, ⟨t, ht, hr⟩, haccepting⟩

def acceptsFrom (d : Dfa) (s : Nat) (bytes : List UInt8) : Bool :=
  (d.runFrom? s bytes).any d.isAccepting

theorem acceptsFrom_iff {bytes : List UInt8} :
    d.acceptsFrom s bytes = true ↔ bytes.map .byte ∈ d.residual s := by
  rw [acceptsFrom, runFrom?_eq]
  exact Iff.rfl

theorem accepts_iff (bytes : List UInt8) :
    d.accepts bytes = true ↔ bytes.map .byte ∈ d.symbolLanguage := by
  rw [symbolLanguage, ← acceptsFrom_iff]
  exact Iff.rfl

theorem leftQuotient_residual (h : d.walkFrom? s u = some t) :
    (d.residual s).leftQuotient u = d.residual t := by
  ext v
  rw [Language.mem_leftQuotient, mem_residual, mem_residual, walkFrom?_append, h, Option.bind_some]

theorem leftQuotient_singleton (h : d.follow? s sym = some t) :
    (d.residual s).leftQuotient [sym] = d.residual t :=
  leftQuotient_residual (walkFrom?_singleton.trans h)

theorem leftQuotient_symbolLanguage (h : d.walk? u = some t) :
    d.symbolLanguage.leftQuotient u = d.residual t := leftQuotient_residual h

theorem walk?_isSome_of_mem {v : List Symbol} (h : v ∈ d.symbolLanguage.leftQuotient u) :
    ∃ t, d.walk? u = some t := by
  obtain ⟨r, hr, -⟩ := mem_residual.1 h
  rw [walkFrom?_append, Option.bind_eq_some_iff] at hr
  obtain ⟨t, ht, -⟩ := hr
  exact ⟨t, ht⟩

theorem lt_of_isAccepting (h : d.isAccepting s = true) : s < d.stateCount := by
  obtain ⟨state, hstate, -⟩ := (Option.any_eq_true _ _).1 h
  exact (Array.getElem?_eq_some_iff.1 hstate).1

theorem lt_of_edge? (h : d.edge? s sym = some t) : s < d.stateCount := by
  obtain ⟨state, hstate, -⟩ := Option.bind_eq_some_iff.1 h
  exact (Array.getElem?_eq_some_iff.1 hstate).1

theorem exists_edge_of_follow? (h : d.follow? s sym = some t) :
    ∃ label, d.edge? s label = some t := by
  cases sym with
  | any => exact ⟨.any, h⟩
  | byte b =>
    rcases Option.or_eq_some_iff.1 h with h | ⟨-, h⟩
    · exact ⟨.byte b, h⟩
    · exact ⟨.any, h⟩

theorem lt_of_follow? (h : d.follow? s sym = some t) : s < d.stateCount := by
  obtain ⟨label, hedge⟩ := exists_edge_of_follow? h
  exact lt_of_edge? hedge

theorem follow?_of_edge? (h : d.edge? s sym = some t) : d.follow? s sym = some t := by
  cases sym with
  | any => exact h
  | byte b => exact Option.or_eq_some_iff.2 (.inl h)

theorem lt_of_mem_residual (h : word ∈ d.residual s) : s < d.stateCount := by
  cases word with
  | nil => exact lt_of_isAccepting (nil_mem_residual.1 h)
  | cons sym word =>
    obtain ⟨t, ht, -⟩ := cons_mem_residual.1 h
    exact lt_of_follow? ht

theorem residual_eq_of_rel {r : Nat → Nat → Prop}
    (hstep : ∀ s t sym, r s t → Option.Rel r (d.follow? s sym) (d'.follow? t sym))
    (haccepting : ∀ s t, r s t → d.isAccepting s = d'.isAccepting t) (h : r s t) :
    d.residual s = d'.residual t := by
  ext word
  simp only [mem_residual]
  have hrel : Option.Rel r (d.walkFrom? s word) (d'.walkFrom? t word) := rel_foldlM hstep h word
  constructor
  · intro h'
    obtain ⟨s', hs', haccept⟩ := h'
    obtain ⟨t', ht', hr⟩ := exists_right_of_rel hrel hs'
    exact ⟨t', ht', haccepting _ _ hr ▸ haccept⟩
  · intro h'
    obtain ⟨t', ht', haccept⟩ := h'
    obtain ⟨s', hs', hr⟩ := exists_left_of_rel hrel ht'
    exact ⟨s', hs', (haccepting _ _ hr).symm ▸ haccept⟩

theorem residual_congr (hedge : ∀ s sym, d.edge? s sym = d'.edge? s sym)
    (haccepting : ∀ s, d.isAccepting s = d'.isAccepting s) (s : Nat) :
    d.residual s = d'.residual s := by
  refine residual_eq_of_rel (r := Eq) ?_ (by simpa using haccepting) rfl
  rintro s _ sym rfl
  have hfollow : d.follow? s sym = d'.follow? s sym := by
    cases sym with
    | any => exact hedge s .any
    | byte b => rw [follow?, next?, hedge, hedge, ← next?, ← follow?]
  rw [hfollow]
  cases d'.follow? s sym with
  | none => exact .none
  | some t => exact .some rfl

theorem walk?_append_singleton (u : List Symbol) (sym : Symbol) :
    d.walk? (u ++ [sym]) = (d.walk? u).bind (d.follow? · sym) := by
  simp only [walk?, walkFrom?_append, walkFrom?_singleton]

/-- Numbered nodes whose edges an automaton can follow are all reached in it from the first one. -/
theorem exists_walk?_of_valid {α β : Type} [Ord α] [Ord β] {row : α → Row β} {node : β → α}
    {e : Exploration α β} (h : e.Valid row node) (hstart : d.start = 0)
    (hedge : ∀ i s k, Exploration.edge? e.rows i s = some k →
      s ∈ d.alphabet ∧ d.follow? i s = some k)
    {k : Nat} (hk : k < e.nodes.size) :
    ∃ word, (∀ sym ∈ word, sym ∈ d.alphabet) ∧ d.walk? word = some k := by
  refine h.induction
    (motive := fun k ↦ ∃ word, (∀ sym ∈ word, sym ∈ d.alphabet) ∧ d.walk? word = some k)
    ⟨[], by simp, by simp [walk?, hstart]⟩ ?_ hk
  rintro i s k hik ⟨word, hword, hwalk⟩
  obtain ⟨hs, hfollow⟩ := hedge i s k hik
  refine ⟨word ++ [s], ?_, ?_⟩
  · simpa [or_imp, forall_and] using ⟨hword, hs⟩
  · rw [walk?_append_singleton, hwalk, Option.bind_some, hfollow]

structure Closed (d : Dfa) : Prop where
  target_lt : ∀ s sym t, d.edge? s sym = some t → t < d.stateCount

theorem Closed.follow?_lt (h : d.Closed) (ht : d.follow? s sym = some t) : t < d.stateCount := by
  obtain ⟨label, hedge⟩ := exists_edge_of_follow? ht
  exact h.target_lt s label t hedge

theorem Closed.walkFrom?_lt (h : d.Closed) (hs : s < d.stateCount)
    (ht : d.walkFrom? s word = some t) :
    t < d.stateCount := by
  induction word generalizing s with
  | nil => exact Option.some.inj ht ▸ hs
  | cons sym word ih =>
    rw [walkFrom?_cons, Option.bind_eq_some_iff] at ht
    obtain ⟨r, hr, hrest⟩ := ht
    exact ih (h.follow?_lt hr) hrest

structure WellFormed (d : Dfa) : Prop extends Closed d where
  start_lt : d.start < d.stateCount
  label_mem : ∀ s sym t, d.edge? s sym = some t → sym ∈ d.alphabet

theorem wellFormed_iff : d.WellFormed ↔ d.start < d.stateCount ∧
    ∀ state ∈ d.states, ∀ e ∈ state.edges.edges, e.1 ∈ d.alphabet ∧ e.2 < d.stateCount := by
  have hedge (s : Nat) (sym : Symbol) (t : Nat) : d.edge? s sym = some t ↔
      ∃ state, d.states[s]? = some state ∧ (sym, t) ∈ state.edges.edges := by
    simp [edge?, Option.bind_eq_some_iff, Row.get?_eq_some_iff]
  constructor
  · intro h
    refine ⟨h.start_lt, ?_⟩
    intro state hstate e he
    obtain ⟨s, hs⟩ := Array.mem_iff_getElem?.1 hstate
    have hlabel := (hedge s e.1 e.2).2 ⟨state, hs, he⟩
    exact ⟨h.label_mem s e.1 e.2 hlabel, h.target_lt s e.1 e.2 hlabel⟩
  · rintro ⟨hstart, hstates⟩
    have hmem {s : Nat} {sym : Symbol} {t : Nat} (h : d.edge? s sym = some t) :
        sym ∈ d.alphabet ∧ t < d.stateCount := by
      obtain ⟨state, hs, he⟩ := (hedge s sym t).1 h
      exact hstates state (Array.mem_of_getElem? hs) _ he
    exact
      { start_lt := hstart
        target_lt := fun _ _ _ h ↦ (hmem h).2
        label_mem := fun _ _ _ h ↦ (hmem h).1 }

instance (d : Dfa) : Decidable d.WellFormed := decidable_of_iff _ wellFormed_iff.symm

theorem WellFormed.walk?_lt (h : d.WellFormed) (ht : d.walk? word = some t) : t < d.stateCount :=
  h.walkFrom?_lt h.start_lt ht

theorem WellFormed.follow?_any_of_not_mem (h : d.WellFormed) (hany : .any ∉ d.alphabet) (s : Nat) :
    d.follow? s .any = none := by
  cases hedge : d.follow? s .any with
  | none => rfl
  | some t => exact absurd (h.label_mem s .any t hedge) hany

theorem WellFormed.follow?_of_not_mem (h : d.WellFormed) (hsym : sym ∉ d.alphabet) (s : Nat) :
    d.follow? s sym = d.follow? s .any := by
  cases sym with
  | any => rfl
  | byte b =>
    cases hedge : d.edge? s (.byte b) with
    | none => rw [follow?, next?, hedge, Option.none_or, follow?]
    | some t => exact absurd (h.label_mem s (.byte b) t hedge) hsym

/-- A symbol of the alphabet moves by itself, or not at all, and other symbols move like `any`. -/
theorem WellFormed.follow?_eq_or (h : d.WellFormed) (s : Nat) (sym : Symbol) :
    d.follow? s sym = (if sym ∈ d.alphabet then d.follow? s sym else none).or
      (if .any ∈ d.alphabet then d.follow? s .any else none) := by
  have hany : (if .any ∈ d.alphabet then d.follow? s .any else none) = d.follow? s .any := by
    split
    · rfl
    · exact (h.follow?_any_of_not_mem (by assumption) s).symm
  rw [hany]
  by_cases hsym : sym ∈ d.alphabet
  · rw [if_pos hsym]
    cases sym with
    | any => exact Option.or_self.symm
    | byte b => rw [follow?, next?, follow?, Option.or_assoc, Option.or_self]
  · rw [if_neg hsym, Option.none_or, h.follow?_of_not_mem hsym]

/-- Every state is on a way from the start state, over symbols of the
alphabet, to an accepting state. -/
structure Trim (d : Dfa) : Prop extends WellFormed d where
  reached : ∀ s < d.stateCount, ∃ word, (∀ sym ∈ word, sym ∈ d.alphabet) ∧ d.walk? word = some s
  live : ∀ s < d.stateCount, ∃ word, word ∈ d.residual s

theorem Trim.follow_rel_of_residual_eq (h : d.Trim) (heq : d.residual s = d.residual t)
    (sym : Symbol) :
    Option.Rel (fun s' t' ↦ d.residual s' = d.residual t') (d.follow? s sym) (d.follow? t sym) := by
  have exists_follow? {s t s' : Nat} (heq : d.residual s = d.residual t)
      (hs : d.follow? s sym = some s') :
      ∃ t', d.follow? t sym = some t' := by
    obtain ⟨word, hword⟩ := h.live s' (h.follow?_lt hs)
    obtain ⟨t', ht', -⟩ := cons_mem_residual.1 (heq ▸ cons_mem_residual.2 ⟨s', hs, hword⟩)
    exact ⟨t', ht'⟩
  cases hs : d.follow? s sym with
  | none =>
    cases ht : d.follow? t sym with
    | none => exact .none
    | some t' =>
      obtain ⟨s', hs'⟩ := exists_follow? heq.symm ht
      rw [hs] at hs'
      cases hs'
  | some s' =>
    obtain ⟨t', ht⟩ := exists_follow? heq hs
    rw [ht]
    refine .some ?_
    rw [← leftQuotient_singleton hs, heq, leftQuotient_singleton ht]

theorem Trim.exists_walk?_iff (h : d.Trim) :
    (∃ t, d.walk? u = some t) ↔ ∃ v, v ∈ d.symbolLanguage.leftQuotient u := by
  constructor
  · intro h'
    obtain ⟨t, ht⟩ := h'
    rw [leftQuotient_symbolLanguage ht]
    exact h.live t (h.walk?_lt ht)
  · intro h'
    obtain ⟨v, hv⟩ := h'
    exact walk?_isSome_of_mem hv

structure Reduced (d : Dfa) : Prop extends Trim d where
  injective : ∀ i < d.stateCount, ∀ j < d.stateCount, d.residual i = d.residual j → i = j

/-- The states of an automaton are determined by their number, the accepting ones and the edges. -/
theorem states_ext (hcount : d.stateCount = d'.stateCount)
    (haccepting : ∀ s < d.stateCount, d.isAccepting s = d'.isAccepting s)
    (hedge : ∀ s < d.stateCount, ∀ sym, d.edge? s sym = d'.edge? s sym) : d.states = d'.states := by
  apply Array.ext hcount
  intro i hi hi'
  have hstate : d.states[i]? = some d.states[i] := Array.getElem?_eq_getElem hi
  have hstate' : d'.states[i]? = some d'.states[i] := Array.getElem?_eq_getElem hi'
  have haccepting := haccepting i hi
  have hrow : d.states[i].edges = d'.states[i].edges := by
    apply Row.ext_get?
    intro sym
    have heq := hedge i hi sym
    rwa [edge?, edge?, hstate, hstate', Option.bind_some, Option.bind_some] at heq
  rw [isAccepting, isAccepting, hstate, hstate', Option.any_some, Option.any_some] at haccepting
  generalize d.states[i] = state at *
  generalize d'.states[i] = state' at *
  obtain ⟨accepting, edges⟩ := state
  obtain ⟨accepting', edges'⟩ := state'
  simp only at haccepting hrow
  rw [haccepting, hrow]

end BytePatterns.Dfa
