import BytePatterns.Proofs.Nfa.Closure

namespace BytePatterns

theorem Symbol.admits_iff {label sym : Symbol} :
    label.admits sym = true ↔ label = any ∨ label = sym := by
  simp [admits]

theorem Symbol.admits_trans {a b c : Symbol} (h : a.admits b = true) (h' : b.admits c = true) :
    a.admits c = true := by
  rw [admits_iff] at *
  rcases h with rfl | rfl
  · exact .inl rfl
  · exact h'

theorem Symbol.forall₂_admits_refl (word : List Symbol) :
    List.Forall₂ (fun a b ↦ a.admits b = true) word word :=
  List.forall₂_same.2 fun _ _ ↦ admits_iff.2 (.inr rfl)

namespace Nfa

variable {n : Nfa} {s t u : Nat} {sym : Symbol} {word : List Symbol}

theorem mem_targets {edges : List (Symbol × Nat)} :
    t ∈ targets edges sym ↔ ∃ label, (label, t) ∈ edges ∧ label.admits sym := by
  simp only [targets, List.mem_filterMap, Prod.exists, Option.ite_none_right_eq_some,
    Option.some.injEq]
  constructor
  · intro h
    obtain ⟨label, target, hmem, hadmits, rfl⟩ := h
    exact ⟨label, hmem, hadmits⟩
  · intro h
    obtain ⟨label, hmem, hadmits⟩ := h
    exact ⟨label, t, hmem, hadmits, rfl⟩

theorem mem_moved {set : StateSet} : t ∈ n.moved set sym ↔ ∃ s ∈ set, t ∈ n.step s sym := by
  simp only [moved, step, mem_targets, List.mem_flatMap]
  constructor
  · intro h
    obtain ⟨label, ⟨s, hs, hmem⟩, hadmits⟩ := h
    exact ⟨s, hs, label, hmem, hadmits⟩
  · intro h
    obtain ⟨s, hs, label, hmem, hadmits⟩ := h
    exact ⟨label, ⟨s, hs, hmem⟩, hadmits⟩

theorem mem_step_of_any (ht : t ∈ n.step s .any) (sym : Symbol) : t ∈ n.step s sym := by
  obtain ⟨label, hmem, hadmits⟩ := mem_targets.1 ht
  have hlabel : label = .any := or_self_iff.1 (Symbol.admits_iff.1 hadmits)
  exact mem_targets.2 ⟨label, hmem, Symbol.admits_iff.2 (.inl hlabel)⟩

/-- A way from one state to another whose labelled edges can be followed by the symbols of a
word. -/
inductive Path (n : Nfa) : Nat → List Symbol → Nat → Prop
  | nil (s : Nat) : Path n s [] s
  | epsilon {s t u : Nat} {word : List Symbol} :
      t ∈ n.epsilons s → Path n t word u → Path n s word u
  | edge {s t u : Nat} {sym : Symbol} {word : List Symbol} :
      t ∈ n.step s sym → Path n t word u → Path n s (sym :: word) u

theorem Path.trans {word' : List Symbol} (h : n.Path s word t) (h' : n.Path t word' u) :
    n.Path s (word ++ word') u := by
  induction h with
  | nil => exact h'
  | epsilon hmove _ ih => exact .epsilon hmove (ih h')
  | edge hmove _ ih => exact .edge hmove (ih h')

theorem Path.admits {word' : List Symbol} (h : n.Path s word t)
    (hadmits : List.Forall₂ (fun a b ↦ a.admits b = true) word word') : n.Path s word' t := by
  induction h generalizing word' with
  | nil s =>
    cases hadmits
    exact .nil s
  | epsilon hmove _ ih => exact .epsilon hmove (ih hadmits)
  | edge hmove _ ih =>
    cases hadmits with
    | cons hsym hrest =>
      obtain ⟨label, hmem, hlabel⟩ := mem_targets.1 hmove
      exact .edge (mem_targets.2 ⟨label, hmem, Symbol.admits_trans hlabel hsym⟩) (ih hrest)

theorem Reaches.path_trans (h : n.Reaches s t) (h' : n.Path t word u) : n.Path s word u := by
  induction h using Relation.ReflTransGen.head_induction_on with
  | refl => exact h'
  | head hmove _ ih => exact .epsilon hmove ih

theorem path_nil_iff : n.Path s [] t ↔ n.Reaches s t := by
  refine ⟨fun h ↦ ?_, fun h ↦ h.path_trans (.nil t)⟩
  generalize hword : ([] : List Symbol) = word at h
  induction h with
  | nil => exact .refl
  | epsilon hmove _ ih => exact .head hmove (ih hword)
  | edge => simp at hword

theorem path_cons_iff :
    n.Path s (sym :: word) u ↔ ∃ r, n.Reaches s r ∧ ∃ t ∈ n.step r sym, n.Path t word u := by
  constructor
  · intro h
    generalize hword : sym :: word = whole at h
    induction h with
    | nil => simp at hword
    | epsilon hmove _ ih =>
      obtain ⟨r, hreach, hrest⟩ := ih hword
      exact ⟨r, .head hmove hreach, hrest⟩
    | @edge s t u sym' word' hmove hpath =>
      cases hword
      exact ⟨s, .refl, t, hmove, hpath⟩
  · intro h'
    obtain ⟨r, hreach, t, hmove, hpath⟩ := h'
    exact hreach.path_trans (.edge hmove hpath)

structure WellFormed (n : Nfa) : Prop where
  start_lt : n.start < n.stateCount
  accept_lt : n.accept < n.stateCount
  epsilon_lt : ∀ s, ∀ t ∈ n.epsilons s, t < n.stateCount
  edge_lt : ∀ s, ∀ e ∈ n.edges s, e.2 < n.stateCount
  label_mem : ∀ s, ∀ e ∈ n.edges s, e.1 ∈ n.alphabet

theorem WellFormed.step_lt (h : n.WellFormed) (ht : t ∈ n.step s sym) : t < n.stateCount := by
  obtain ⟨label, hmem, -⟩ := mem_targets.1 ht
  exact h.edge_lt s _ hmem

theorem WellFormed.moved_lt (h : n.WellFormed) {set : StateSet} (ht : t ∈ n.moved set sym) :
    t < n.stateCount := by
  obtain ⟨s, -, hstep⟩ := mem_moved.1 ht
  exact h.step_lt hstep

def Closed (n : Nfa) (set : StateSet) : Prop := ∀ s ∈ set, ∀ t, n.Reaches s t → t ∈ set

theorem WellFormed.closed_closure (h : n.WellFormed) (seeds : List Nat) :
    n.Closed (n.closure seeds) := by
  intro s hs t hreach
  obtain ⟨r, hr, hlt, hrs⟩ := (mem_closure_iff h.epsilon_lt).1 hs
  exact (mem_closure_iff h.epsilon_lt).2 ⟨r, hr, hlt, hrs.trans hreach⟩

theorem next?_eq_some_iff {set set' : StateSet} :
    n.next? set sym = some set' ↔ n.moved set sym ≠ [] ∧ n.closure (n.moved set sym) = set' := by
  unfold next?
  split
  · rename_i h
    simp [h]
  · rename_i h
    simpa using fun _ ↦ h

theorem next?_eq_none_iff {set : StateSet} : n.next? set sym = none ↔ n.moved set sym = [] := by
  unfold next?
  split
  · rename_i h
    simpa using h
  · rename_i h
    simpa using h

def runFrom? (n : Nfa) (set : StateSet) (word : List Symbol) : Option StateSet :=
  word.foldlM n.next? set

@[simp] theorem runFrom?_nil {set : StateSet} : n.runFrom? set [] = some set := rfl

@[simp] theorem runFrom?_cons {set : StateSet} :
    n.runFrom? set (sym :: word) = (n.next? set sym).bind (n.runFrom? · word) := rfl

theorem run?_eq (bytes : List UInt8) : n.run? bytes = n.runFrom? n.initial (bytes.map .byte) := by
  rw [run?, runFrom?, List.foldlM_map]

theorem WellFormed.mem_runFrom?_iff (h : n.WellFormed) {set : StateSet} (closed : n.Closed set) :
    (∃ set', n.runFrom? set word = some set' ∧ t ∈ set') ↔ ∃ s ∈ set, n.Path s word t := by
  induction word generalizing set with
  | nil =>
    simp only [runFrom?_nil, Option.some.injEq, exists_eq_left', path_nil_iff]
    exact ⟨fun ht ↦ ⟨t, ht, .refl⟩, fun ⟨s, hs, hreach⟩ ↦ closed s hs t hreach⟩
  | cons sym word ih =>
    have hpath : (∃ s ∈ n.closure (n.moved set sym), n.Path s word t) ↔
        ∃ s ∈ set, n.Path s (sym :: word) t := by
      constructor
      · intro h'
        obtain ⟨s, hs, hpath⟩ := h'
        obtain ⟨r, hr, -, hreach⟩ := (mem_closure_iff h.epsilon_lt).1 hs
        obtain ⟨q, hq, hstep⟩ := mem_moved.1 hr
        exact ⟨q, hq, .edge hstep (hreach.path_trans hpath)⟩
      · intro h'
        obtain ⟨s, hs, hpath⟩ := h'
        obtain ⟨q, hreach, r, hstep, hrest⟩ := path_cons_iff.1 hpath
        have hr : r ∈ n.moved set sym := mem_moved.2 ⟨q, closed s hs q hreach, hstep⟩
        exact ⟨r, (mem_closure_iff h.epsilon_lt).2 ⟨r, hr, h.moved_lt hr, .refl⟩, hrest⟩
    cases hnext : n.next? set sym with
    | none =>
      simp [← hpath, hnext, next?_eq_none_iff.1 hnext, mem_closure_iff h.epsilon_lt]
    | some set' =>
      obtain ⟨-, rfl⟩ := next?_eq_some_iff.1 hnext
      rw [← hpath, ← ih (h.closed_closure _)]
      simp [hnext]

theorem WellFormed.initial_closed (h : n.WellFormed) : n.Closed n.initial := h.closed_closure _

theorem WellFormed.mem_initial_iff (h : n.WellFormed) : t ∈ n.initial ↔ n.Reaches n.start t := by
  simp [initial, mem_closure_iff h.epsilon_lt, h.start_lt]

theorem WellFormed.initial_ne_nil (h : n.WellFormed) : n.initial ≠ [] :=
  List.ne_nil_of_mem (h.mem_initial_iff.2 .refl)

theorem WellFormed.mem_run_iff (h : n.WellFormed) :
    (∃ set, n.runFrom? n.initial word = some set ∧ t ∈ set) ↔ n.Path n.start word t := by
  rw [h.mem_runFrom?_iff h.initial_closed]
  constructor
  · intro h'
    obtain ⟨s, hs, hpath⟩ := h'
    exact (h.mem_initial_iff.1 hs).path_trans hpath
  · exact fun hpath ↦ ⟨n.start, h.mem_initial_iff.2 .refl, hpath⟩

theorem WellFormed.ne_nil_of_runFrom? (h : n.WellFormed) {set set' : StateSet} (hne : set ≠ [])
    (hrun : n.runFrom? set word = some set') : set' ≠ [] := by
  induction word generalizing set with
  | nil => exact Option.some.inj hrun ▸ hne
  | cons sym word ih =>
    rw [runFrom?_cons, Option.bind_eq_some_iff] at hrun
    obtain ⟨next, hnext, hrest⟩ := hrun
    obtain ⟨hmoved, rfl⟩ := next?_eq_some_iff.1 hnext
    refine ih ?_ hrest
    obtain ⟨t, ht⟩ := List.exists_mem_of_ne_nil _ hmoved
    exact List.ne_nil_of_mem ((mem_closure_iff h.epsilon_lt).2 ⟨t, ht, h.moved_lt ht, .refl⟩)

theorem WellFormed.accepts_iff (h : n.WellFormed) (bytes : List UInt8) :
    n.accepts bytes = true ↔ n.Path n.start (bytes.map .byte) n.accept := by
  rw [← h.mem_run_iff, accepts, run?_eq]
  simp [Option.any_eq_true, isAccepting]

theorem WellFormed.mem_run?_iff (h : n.WellFormed) {bytes : List UInt8} {set : StateSet}
    (hrun : n.run? bytes = some set) : t ∈ set ↔ n.Path n.start (bytes.map .byte) t := by
  rw [← h.mem_run_iff, ← run?_eq, hrun]
  simp

/-- The set becomes empty exactly on the words that no path reads. -/
theorem WellFormed.run?_eq_none_iff (h : n.WellFormed) {bytes : List UInt8} :
    n.run? bytes = none ↔ ∀ t, ¬n.Path n.start (bytes.map .byte) t := by
  constructor
  · intro hnone t hpath
    obtain ⟨set, hset, -⟩ := h.mem_run_iff.2 hpath
    rw [← run?_eq, hnone] at hset
    cases hset
  · intro hno
    cases hrun : n.run? bytes with
    | none => rfl
    | some set =>
      have hne := h.ne_nil_of_runFrom? h.initial_ne_nil (run?_eq bytes ▸ hrun)
      obtain ⟨t, ht⟩ := List.exists_mem_of_ne_nil _ hne
      exact absurd ((h.mem_run?_iff hrun).1 ht) (hno t)

theorem run?_eq_none_of_prefix {u bytes : List UInt8} (hu : u <+: bytes) (h : n.run? u = none) :
    n.run? bytes = none := by
  obtain ⟨v, rfl⟩ := hu
  rw [run?] at h ⊢
  rw [List.foldlM_append, h]
  rfl

end Nfa

end BytePatterns
