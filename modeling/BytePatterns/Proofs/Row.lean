import BytePatterns.Row
import Mathlib.Data.List.Sort

namespace BytePatterns

namespace Row

variable {α β : Type}

theorem get?_eq_some_iff (r : Row α) {s : Symbol} {x : α} :
    r.get? s = some x ↔ (s, x) ∈ r.edges := by
  constructor
  · intro h
    obtain ⟨before, after, he, -⟩ := List.lookup_eq_some_iff.1 h
    simp [he]
  · intro h
    obtain ⟨before, after, he⟩ := List.append_of_mem h
    refine List.lookup_eq_some_iff.2 ⟨before, after, he, ?_⟩
    intro p hp
    have hlt : p.1 < s := by
      have increasing := he ▸ r.increasing
      exact (List.pairwise_append.1 increasing).2.2 p hp _ List.mem_cons_self
    simpa using fun hs : s = p.1 ↦ Nat.lt_irrefl _ (hs ▸ hlt : p.1 < p.1)

theorem get?_congr_of_edges {r : Row α} {o : Option α} {s : Symbol}
    (h : ∀ x, (s, x) ∈ r.edges ↔ o = some x) : r.get? s = o :=
  Option.ext fun x ↦ r.get?_eq_some_iff.trans (h x)

theorem mem_targets (r : Row α) {x : α} : x ∈ r.targets ↔ ∃ s, r.get? s = some x := by
  simp [targets, get?_eq_some_iff]

theorem get?_single (label : Symbol) (target : α) (s : Symbol) :
    (single label target).get? s = if label = s then some target else none := by
  refine get?_congr_of_edges fun x ↦ ?_
  rw [Option.ite_none_right_eq_some, Option.some.injEq]
  simp [single, eq_comm]

theorem get?_tabulate (a : Alphabet) (target? : Symbol → Option α) (s : Symbol) :
    (tabulate a target?).get? s = if s ∈ a then target? s else none := by
  refine get?_congr_of_edges fun x ↦ ?_
  have hmem : s ∈ a ↔ s ∈ a.symbols := Iff.rfl
  simp only [tabulate, List.mem_filterMap, Option.map_eq_some_iff, Prod.mk.injEq, hmem]
  constructor
  · intro h'
    obtain ⟨t, ht, y, hy, rfl, rfl⟩ := h'
    rw [if_pos ht, hy]
  · intro h
    split at h
    · exact ⟨s, by assumption, x, h, rfl, rfl⟩
    · simp at h

theorem get?_map (f : α → β) (r : Row α) (s : Symbol) : (r.map f).get? s = (r.get? s).map f := by
  refine get?_congr_of_edges fun y ↦ ?_
  simp only [map, List.mem_map, Prod.mk.injEq, Prod.exists, Option.map_eq_some_iff,
    get?_eq_some_iff]
  constructor
  · intro h
    obtain ⟨t, x, hx, rfl, rfl⟩ := h
    exact ⟨x, hx, rfl⟩
  · intro h
    obtain ⟨x, hx, rfl⟩ := h
    exact ⟨s, x, hx, rfl, rfl⟩

theorem get?_filter (keep : Symbol → α → Bool) (r : Row α) (s : Symbol) :
    (r.filter keep).get? s = (r.get? s).filter (keep s) := by
  refine get?_congr_of_edges fun x ↦ ?_
  simp [filter, Option.filter_eq_some_iff, get?_eq_some_iff]

theorem ext_get? {r r' : Row α} (h : ∀ s, r.get? s = r'.get? s) : r = r' := by
  have hmem (e : Symbol × α) : e ∈ r.edges ↔ e ∈ r'.edges := by
    rw [← r.get?_eq_some_iff, ← r'.get?_eq_some_iff, h]
  have : Std.Irrefl fun e e' : Symbol × α ↦ e.1 < e'.1 := ⟨fun e ↦ Nat.lt_irrefl e.1.index⟩
  have : Std.Antisymm fun e e' : Symbol × α ↦ e.1 < e'.1 :=
    ⟨fun e e' he he' ↦ absurd he (Nat.lt_asymm he')⟩
  obtain ⟨edges, increasing⟩ := r
  obtain ⟨edges', increasing'⟩ := r'
  congr
  exact increasing.eq_of_mem_iff increasing' hmem

/-- A row whose labels all belong to an alphabet is found by trying the symbols of the alphabet. -/
theorem tabulate_get? {r : Row α} {a : Alphabet} (h : ∀ e ∈ r.edges, e.1 ∈ a) :
    tabulate a r.get? = r := by
  apply ext_get?
  intro s
  rw [get?_tabulate]
  split
  · rfl
  · rename_i hs
    cases hget : r.get? s with
    | none => rfl
    | some x => exact absurd (h _ (r.get?_eq_some_iff.1 hget)) hs

theorem map_edges {r : Row α} {a : Alphabet} (h : ∀ e ∈ r.edges, e.1 ∈ a) (f : Symbol × α → β) :
    r.edges.map f = a.symbols.filterMap fun s ↦ (r.get? s).map fun x ↦ f (s, x) := by
  have hedges : r.edges = a.symbols.filterMap fun s ↦ (r.get? s).map (s, ·) :=
    congrArg edges (tabulate_get? h).symm
  conv_lhs => rw [hedges]
  simp only [List.map_filterMap, Option.map_map, Function.comp_def]

theorem labels_nodup (r : Row α) : (r.edges.map (·.1)).Nodup := by
  refine List.pairwise_map.2 (r.increasing.imp ?_)
  intro e e' hlt heq
  exact Nat.lt_irrefl _ (heq ▸ hlt : e'.1 < e'.1)

theorem size_le_of_labels {r : Row α} {r' : Row β}
    (h : ∀ s x, r.get? s = some x → ∃ y, r'.get? s = some y) :
    r.size ≤ r'.size := by
  have hsubset : r.edges.map (·.1) ⊆ r'.edges.map (·.1) := by
    intro s hs
    obtain ⟨⟨_, x⟩, hx, rfl⟩ := List.mem_map.1 hs
    obtain ⟨y, hy⟩ := h _ x (r.get?_eq_some_iff.2 hx)
    exact List.mem_map.2 ⟨_, r'.get?_eq_some_iff.1 hy, rfl⟩
  simpa [size] using (List.subperm_of_subset r.labels_nodup hsubset).length_le

end Row

theorem Alphabet.ext_mem {a a' : Alphabet} (h : ∀ s, s ∈ a ↔ s ∈ a') : a = a' := by
  have : Std.Irrefl fun s t : Symbol ↦ s < t := ⟨fun s ↦ Nat.lt_irrefl s.index⟩
  have : Std.Antisymm fun s t : Symbol ↦ s < t := ⟨fun s t hs ht ↦ absurd hs (Nat.lt_asymm ht)⟩
  obtain ⟨symbols, increasing⟩ := a
  obtain ⟨symbols', increasing'⟩ := a'
  congr
  exact increasing.eq_of_mem_iff increasing' h

def Alphabet.LabelsOf (a : Alphabet) (edge? : Nat → Symbol → Option Nat) : Prop :=
  ∀ sym, sym ∈ a ↔ ∃ s t, edge? s sym = some t

theorem Alphabet.LabelsOf.eq {a a' : Alphabet} {edge? : Nat → Symbol → Option Nat}
    (h : a.LabelsOf edge?) (h' : a'.LabelsOf edge?) : a = a' :=
  ext_mem fun sym ↦ (h sym).trans (h' sym).symm

end BytePatterns
