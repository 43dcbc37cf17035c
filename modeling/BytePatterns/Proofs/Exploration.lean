import BytePatterns.Exploration
import BytePatterns.Proofs.Row
import BytePatterns.Proofs.Simulation
import Mathlib.Data.List.Basic

namespace BytePatterns

namespace Exploration

section edges

variable {α : Type} {rows : Array (Row Nat)} {i k : Nat} {s : Symbol}

theorem getElem?_push_eq_some {nodes : Array α} {a c : α} {k : Nat} :
    (nodes.push a)[k]? = some c ↔ nodes.size = k ∧ a = c ∨ nodes[k]? = some c := by
  rw [Array.getElem?_push]
  by_cases h : k = nodes.size
  · simp [h]
  · simp [h, Ne.symm h]

def edge? (rows : Array (Row Nat)) (i : Nat) (s : Symbol) : Option Nat := rows[i]?.bind (·.get? s)

/-- Some edge to `k` comes before all edges to greater numbers, and its node is numbered before
`k`. -/
def FirstEdge (rows : Array (Row Nat)) (k : Nat) : Prop :=
  ∃ i s, edge? rows i s = some k ∧ i < k ∧
    ∀ i' s' k', edge? rows i' s' = some k' → k ≤ k' → i < i' ∨ i = i' ∧ ¬s' < s

theorem edge?_push {r : Row Nat} :
    edge? (rows.push r) i s = some k ↔
      rows.size = i ∧ r.get? s = some k ∨ edge? rows i s = some k := by
  simp only [edge?, Option.bind_eq_some_iff, getElem?_push_eq_some]
  constructor
  · intro h
    obtain ⟨r', ⟨rfl, rfl⟩ | hr', hs⟩ := h
    · exact .inl ⟨rfl, hs⟩
    · exact .inr ⟨r', hr', hs⟩
  · intro h
    rcases h with ⟨rfl, hs⟩ | ⟨r', hr', hs⟩
    · exact ⟨r, .inl ⟨rfl, rfl⟩, hs⟩
    · exact ⟨r', .inr hr', hs⟩

/-- Numbers below `m`, or the next one, which counts as met from then on. -/
def Discovers (m : Nat) : List Nat → Nat → Prop
  | [], m' => m = m'
  | k :: rest, m' => k < m ∧ Discovers m rest m' ∨ k = m ∧ Discovers (m + 1) rest m'

theorem Discovers.le {m m' : Nat} {numbers : List Nat} (h : Discovers m numbers m') : m ≤ m' := by
  induction numbers generalizing m with
  | nil => exact Nat.le_of_eq h
  | cons k rest ih =>
    rcases h with ⟨-, h⟩ | ⟨-, h⟩
    · exact ih h
    · exact Nat.le_of_succ_le (ih h)

theorem Discovers.exists_first {m m' k : Nat} {edges : List (Symbol × Nat)}
    (h : Discovers m (edges.map (·.2)) m') (increasing : edges.Pairwise (·.1 < ·.1)) (hm : m ≤ k)
    (hk : k < m') : ∃ s, (s, k) ∈ edges ∧ ∀ s' k', (s', k') ∈ edges → k ≤ k' → ¬s' < s := by
  induction edges generalizing m with
  | nil =>
    exact absurd (Nat.lt_of_le_of_lt (Nat.le_trans (Nat.le_of_eq h.symm) hm) hk) (Nat.lt_irrefl _)
  | cons edge rest ih =>
    obtain ⟨s₀, k₀⟩ := edge
    obtain ⟨first, others⟩ := List.pairwise_cons.1 increasing
    have later (hrest : ∃ s, (s, k) ∈ rest ∧ ∀ s' k', (s', k') ∈ rest → k ≤ k' → ¬s' < s)
        (hlt : k₀ < k) : ∃ s, (s, k) ∈ (s₀, k₀) :: rest ∧
          ∀ s' k', (s', k') ∈ (s₀, k₀) :: rest → k ≤ k' → ¬s' < s := by
      obtain ⟨s, hs, hmin⟩ := hrest
      refine ⟨s, List.mem_cons_of_mem _ hs, ?_⟩
      intro s' k' hmem hle
      rcases List.mem_cons.1 hmem with heq | hmem
      · cases heq
        exact absurd hle (Nat.not_le.2 hlt)
      · exact hmin s' k' hmem hle
    rcases h with ⟨hlt, h⟩ | ⟨rfl, h⟩
    · exact later (ih h others hm) (Nat.lt_of_lt_of_le hlt hm)
    · rcases Nat.eq_or_lt_of_le hm with rfl | hlt
      · refine ⟨s₀, List.mem_cons_self, ?_⟩
        intro s' k' hmem _ hs
        rcases List.mem_cons.1 hmem with heq | hmem
        · cases heq
          exact Nat.lt_irrefl _ hs
        · exact Nat.lt_asymm hs (first _ hmem)
      · exact later (ih h others hlt) hlt

theorem lt_of_edge? (h : edge? rows i s = some k) : i < rows.size := by
  obtain ⟨r, hr, -⟩ := Option.bind_eq_some_iff.1 h
  exact (Array.getElem?_eq_some_iff.1 hr).1

theorem FirstEdge.push {r : Row Nat} (h : FirstEdge rows k) : FirstEdge (rows.push r) k := by
  obtain ⟨i, s, his, hik, hfirst⟩ := h
  refine ⟨i, s, edge?_push.2 (.inr his), hik, ?_⟩
  intro i' s' k' hk' hle
  rcases edge?_push.1 hk' with ⟨rfl, -⟩ | hk'
  · exact .inl (lt_of_edge? his)
  · exact hfirst i' s' k' hk' hle

/-- A row that meets the numbers from `m` to `m'` holds their first edges. -/
theorem firstEdge_push {r : Row Nat} {m m' : Nat} (h : Discovers m (r.edges.map (·.2)) m')
    (hm : m ≤ k) (hk : k < m') (hrows : rows.size < k)
    (hold : ∀ i s k', edge? rows i s = some k' → k' < m) :
    FirstEdge (rows.push r) k := by
  obtain ⟨s, hs, hfirst⟩ := h.exists_first r.increasing hm hk
  refine ⟨rows.size, s, edge?_push.2 (.inl ⟨rfl, (Row.get?_eq_some_iff _).2 hs⟩), hrows, ?_⟩
  intro i' s' k' hk' hle
  rcases edge?_push.1 hk' with ⟨rfl, hs'⟩ | hk'
  · exact .inr ⟨rfl, hfirst s' k' ((Row.get?_eq_some_iff _).1 hs') hle⟩
  · have := hold i' s' k' hk'
    omega

end edges

variable {α β : Type} [Ord α] [Ord β] {row : α → Row β} {node : β → α} {e e' : Exploration α β}

structure Coherent (node : β → α) (e : Exploration α β) : Prop where
  numbers_iff : ∀ (a : α) (k : Nat), e.numbers[a]? = some k ↔ e.nodes[k]? = some a
  node_of_name : ∀ (b : β) (k : Nat), e.names[b]? = some k → e.nodes[k]? = some (node b)
  named : ∀ (k : Nat) (a : α), e.nodes[k]? = some a → ∃ b, node b = a

theorem Coherent.index_inj (h : Coherent node e) {a : α} {i j : Nat} (hi : e.nodes[i]? = some a)
    (hj : e.nodes[j]? = some a) : i = j :=
  Option.some.inj (((h.numbers_iff a i).2 hi).symm.trans ((h.numbers_iff a j).2 hj))

theorem Coherent.nodup (h : Coherent node e) : e.nodes.toList.Nodup := by
  refine List.nodup_iff_getElem?_ne_getElem?.2 fun i j hij hj heq ↦ Nat.ne_of_lt hij ?_
  have hsome : e.nodes.toList[j]? = some e.nodes.toList[j] := List.getElem?_eq_getElem hj
  simp only [Array.getElem?_toList] at heq hsome
  exact h.index_inj (heq.trans hsome) hsome

structure Extends (e e' : Exploration α β) : Prop where
  nodes : ∀ (k : Nat) (a : α), e.nodes[k]? = some a → e'.nodes[k]? = some a
  names : ∀ (b : β) (k : Nat), e.names[b]? = some k → e'.names[b]? = some k
  rows : e'.rows = e.rows

theorem Extends.refl (e : Exploration α β) : Extends e e := ⟨fun _ _ h ↦ h, fun _ _ h ↦ h, rfl⟩

theorem Extends.trans {e'' : Exploration α β} (h : Extends e e') (h' : Extends e' e'') :
    Extends e e'' :=
  ⟨fun k a hk ↦ h'.nodes k a (h.nodes k a hk), fun b k hb ↦ h'.names b k (h.names b k hb),
    h'.rows.trans h.rows⟩

theorem prefix_of_nodes (h : ∀ (k : Nat) (a : α), e.nodes[k]? = some a → e'.nodes[k]? = some a) :
    e.nodes.toList <+: e'.nodes.toList := by
  refine List.prefix_iff_getElem?.2 fun k hk ↦ ?_
  rw [Array.getElem?_toList]
  exact h k _ (by rw [← Array.getElem?_toList, List.getElem?_eq_getElem hk])

theorem size_le_of_nodes (h : ∀ (k : Nat) (a : α), e.nodes[k]? = some a → e'.nodes[k]? = some a) :
    e.nodes.size ≤ e'.nodes.size := (prefix_of_nodes h).length_le

structure Valid (row : α → Row β) (node : β → α) (e : Exploration α β) : Prop where
  coherent : Coherent node e
  rows_le : e.rows.size ≤ e.nodes.size
  row_at : ∀ (i : Nat) (r : Row Nat), e.rows[i]? = some r → ∃ a, e.nodes[i]? = some a ∧
    ∀ s, Option.Rel (fun k b ↦ e.nodes[k]? = some (node b)) (r.get? s) ((row a).get? s)
  first : ∀ k, 0 < k → k < e.nodes.size → FirstEdge e.rows k

theorem Valid.exists_of_edge? (h : Valid row node e) {i k : Nat} {s : Symbol}
    (hk : edge? e.rows i s = some k) :
    ∃ a b, e.nodes[i]? = some a ∧ (row a).get? s = some b ∧ e.nodes[k]? = some (node b) := by
  obtain ⟨r, hr, hs⟩ := Option.bind_eq_some_iff.1 hk
  obtain ⟨a, ha, hrel⟩ := h.row_at i r hr
  obtain ⟨b, hb, hnode⟩ := exists_right_of_rel (hrel s) hs
  exact ⟨a, b, ha, hb, hnode⟩

theorem Valid.edge_lt (h : Valid row node e) {i k : Nat} {s : Symbol}
    (hk : edge? e.rows i s = some k) : i < e.rows.size ∧ k < e.nodes.size := by
  obtain ⟨a, b, -, -, hnode⟩ := h.exists_of_edge? hk
  exact ⟨lt_of_edge? hk, (Array.getElem?_eq_some_iff.1 hnode).1⟩

theorem Valid.induction (h : Valid row node e) {motive : Nat → Prop} (zero : motive 0)
    (edge : ∀ i s k, edge? e.rows i s = some k → motive i → motive k) {k : Nat}
    (hk : k < e.nodes.size) :
    motive k := by
  induction k using Nat.strong_induction_on with
  | _ k ih =>
    rcases Nat.eq_zero_or_pos k with rfl | hpos
    · exact zero
    · obtain ⟨i, s, his, hik, -⟩ := h.first k hpos hk
      exact edge i s k his (ih i hik (hik.trans hk))

theorem extend_of_none (hnone : e.nodes[e.rows.size]? = none) (fuel : Nat) :
    e.extend row node (fuel + 1) = e := by rw [Exploration.extend, hnone]

theorem extend_of_some {a : α} (ha : e.nodes[e.rows.size]? = some a) (fuel : Nat) :
    e.extend row node (fuel + 1) = (e.follow node (row a)).extend row node fuel := by
  rw [Exploration.extend, ha]

theorem follow_eq (node : β → α) (e : Exploration α β) (r : Row β) :
    e.follow node r =
      let e' := r.targets.foldl (number node) e
      ⟨e'.nodes, e'.numbers, e'.names, e'.rows.push (r.map (e'.names.getD · 0))⟩ := rfl

variable [Std.TransOrd β]

theorem number_cases (node : β → α) (e : Exploration α β) (b : β) :
    (∃ k, e.names[b]? = some k ∧ e.number node b = e) ∨
      (∃ k, e.names[b]? = none ∧ e.numbers[node b]? = some k ∧
        e.number node b = ⟨e.nodes, e.numbers, e.names.insert b k, e.rows⟩) ∨
      (e.names[b]? = none ∧ e.numbers[node b]? = none ∧
        e.number node b = ⟨e.nodes.push (node b), e.numbers.insert (node b) e.nodes.size,
          e.names.insert b e.nodes.size, e.rows⟩) := by
  obtain ⟨nodes, numbers, names, rows⟩ := e
  simp only [number, Std.TreeMap.contains_eq_isSome_getElem?]
  cases hname : names[b]? with
  | some k => exact .inl ⟨k, rfl, by simp⟩
  | none =>
    cases hnumber : numbers[node b]? with
    | some k => exact .inr (.inl ⟨k, rfl, rfl, by simp⟩)
    | none => exact .inr (.inr ⟨rfl, rfl, by simp⟩)

variable [Std.LawfulEqOrd β]

theorem getElem?_insert_eq_some {γ : Type} [Ord γ] [Std.TransOrd γ] [Std.LawfulEqOrd γ]
    {m : Std.TreeMap γ Nat} {x y : γ} {i j : Nat} :
    (m.insert x i)[y]? = some j ↔ x = y ∧ i = j ∨ x ≠ y ∧ m[y]? = some j := by
  rw [Std.TreeMap.getElem?_insert]
  by_cases h : x = y <;> simp [h]

theorem extends_number (node : β → α) (e : Exploration α β) (b : β) :
    Extends e (e.number node b) := by
  have insert_names {k : Nat} (hb : e.names[b]? = none) (c : β) (i : Nat)
      (hc : e.names[c]? = some i) :
      (e.names.insert b k)[c]? = some i := by
    refine getElem?_insert_eq_some.2 (.inr ⟨?_, hc⟩)
    rintro rfl
    simp [hb] at hc
  rcases number_cases node e b with ⟨k, -, heq⟩ | ⟨k, hname, hk, heq⟩ | ⟨hname, hnumber, heq⟩
  · rw [heq]
    exact .refl e
  · rw [heq]
    exact ⟨fun _ _ h ↦ h, insert_names hname, rfl⟩
  · rw [heq]
    exact ⟨fun i c hc ↦ getElem?_push_eq_some.2 (.inr hc), insert_names hname, rfl⟩

theorem names_number (h : Coherent node e) (b : β) :
    ∃ k, (e.number node b).names[b]? = some k ∧
      (k < e.nodes.size ∧ (e.number node b).nodes.size = e.nodes.size ∨
        k = e.nodes.size ∧ (e.number node b).nodes.size = e.nodes.size + 1) := by
  have hlt {k : Nat} {a : α} (hk : e.nodes[k]? = some a) : k < e.nodes.size :=
    (Array.getElem?_eq_some_iff.1 hk).1
  rcases number_cases node e b with ⟨k, hname, heq⟩ | ⟨k, -, hk, heq⟩ | ⟨-, -, heq⟩
  · rw [heq]
    exact ⟨k, hname, .inl ⟨hlt (h.node_of_name b k hname), rfl⟩⟩
  · rw [heq]
    exact ⟨k, by simp, .inl ⟨hlt ((h.numbers_iff _ _).1 hk), rfl⟩⟩
  · rw [heq]
    exact ⟨e.nodes.size, by simp, .inr ⟨rfl, by simp⟩⟩

theorem extends_all (node : β → α) (e : Exploration α β) (targets : List β) :
    Extends e (targets.foldl (number node) e) := by
  induction targets generalizing e with
  | nil => exact .refl e
  | cons b rest ih => exact (extends_number node e b).trans (ih _)

theorem nodes_follow (node : β → α) (e : Exploration α β) (r : Row β) {k : Nat} {a : α}
    (h : e.nodes[k]? = some a) : (e.follow node r).nodes[k]? = some a :=
  (extends_all node e r.targets).nodes k a h

theorem nodes_extend (row : α → Row β) (node : β → α) (fuel : Nat) (e : Exploration α β) {k : Nat}
    {a : α} (h : e.nodes[k]? = some a) : (e.extend row node fuel).nodes[k]? = some a := by
  induction fuel generalizing e with
  | zero => exact h
  | succ fuel ih =>
    cases ha : e.nodes[e.rows.size]? with
    | none => rwa [extend_of_none ha]
    | some b =>
      rw [extend_of_some ha]
      exact ih _ (nodes_follow node e _ h)

variable [Std.TransOrd α] [Std.LawfulEqOrd α]

theorem coherent_number (h : Coherent node e) (b : β) : Coherent node (e.number node b) := by
  rcases number_cases node e b with ⟨k, -, heq⟩ | ⟨k, -, hk, heq⟩ | ⟨hname, hnumber, heq⟩
  · rwa [heq]
  · rw [heq]
    refine ⟨h.numbers_iff, fun c i hc ↦ ?_, h.named⟩
    rcases getElem?_insert_eq_some.1 hc with ⟨rfl, rfl⟩ | ⟨-, hc⟩
    · exact (h.numbers_iff _ _).1 hk
    · exact h.node_of_name c i hc
  · rw [heq]
    refine ⟨?_, ?_, ?_⟩
    · intro c i
      rw [getElem?_insert_eq_some, getElem?_push_eq_some, h.numbers_iff]
      have hne (hi : e.nodes[i]? = some c) : node b ≠ c := by
        rintro rfl
        rw [← h.numbers_iff, hnumber] at hi
        cases hi
      constructor
      · rintro (⟨hc, hi⟩ | ⟨-, hi⟩)
        · exact .inl ⟨hi, hc⟩
        · exact .inr hi
      · rintro (⟨hi, hc⟩ | hi)
        · exact .inl ⟨hc, hi⟩
        · exact .inr ⟨hne hi, hi⟩
    · intro c i hc
      rcases getElem?_insert_eq_some.1 hc with ⟨rfl, rfl⟩ | ⟨-, hc⟩
      · exact getElem?_push_eq_some.2 (.inl ⟨rfl, rfl⟩)
      · exact getElem?_push_eq_some.2 (.inr (h.node_of_name c i hc))
    · intro i c hc
      rcases getElem?_push_eq_some.1 hc with ⟨-, rfl⟩ | hc
      · exact ⟨b, rfl⟩
      · exact h.named i c hc

/-- Numbering the targets of a row meets new numbers one after another. -/
theorem number_all (h : Coherent node e) (targets : List β) :
    Coherent node (targets.foldl (number node) e) ∧
      (∀ b ∈ targets, ∃ k, (targets.foldl (number node) e).names[b]? = some k) ∧
      Discovers e.nodes.size (targets.map ((targets.foldl (number node) e).names.getD · 0))
        (targets.foldl (number node) e).nodes.size := by
  induction targets generalizing e with
  | nil => exact ⟨h, by simp, rfl⟩
  | cons b rest ih =>
    obtain ⟨coherent, named, discovers⟩ := ih (coherent_number h b)
    obtain ⟨k, hname, hk⟩ := names_number h b
    have hb := (extends_all node _ rest).names b k hname
    refine ⟨coherent, ?_, ?_⟩
    · intro c hc
      rcases List.mem_cons.1 hc with rfl | hc
      · exact ⟨k, hb⟩
      · exact named c hc
    · simp only [List.map_cons, List.foldl_cons, Discovers]
      rw [Std.TreeMap.getD_eq_getD_getElem?, hb, Option.getD_some]
      rcases hk with ⟨hlt, hsize⟩ | ⟨rfl, hsize⟩
      · exact .inl ⟨hlt, hsize ▸ discovers⟩
      · exact .inr ⟨rfl, hsize ▸ discovers⟩

theorem rel_numbered (h : Coherent node e) (r : Row β) (s : Symbol) :
    Option.Rel (fun k b ↦ (e.follow node r).nodes[k]? = some (node b))
      ((r.map ((e.follow node r).names.getD · 0)).get? s) (r.get? s) := by
  obtain ⟨coherent, named, -⟩ := number_all h r.targets
  rw [Row.get?_map]
  cases hs : r.get? s with
  | none => exact .none
  | some b =>
    obtain ⟨k, hk⟩ := named b (r.mem_targets.2 ⟨s, hs⟩)
    refine .some ?_
    simp only [follow_eq, Std.TreeMap.getD_eq_getD_getElem?, hk, Option.getD_some]
    exact coherent.node_of_name b k hk

theorem Valid.follow (h : Valid row node e) {a : α} (ha : e.nodes[e.rows.size]? = some a) :
    Valid row node (e.follow node (row a)) := by
  obtain ⟨coherent, -, discovers⟩ := number_all h.coherent (row a).targets
  have hextends := extends_all node e (row a).targets
  have hrel := rel_numbered h.coherent (row a)
  rw [follow_eq] at hrel ⊢
  generalize (row a).targets.foldl (number node) e = e' at *
  have hlt := (Array.getElem?_eq_some_iff.1 ha).1
  have hle := discovers.le
  simp only [hextends.rows]
  refine ⟨⟨coherent.numbers_iff, coherent.node_of_name, coherent.named⟩, ?_, ?_, ?_⟩
  · simp only [Array.size_push]
    omega
  · intro i r hr
    rcases getElem?_push_eq_some.1 hr with ⟨rfl, rfl⟩ | hr
    · exact ⟨a, hextends.nodes _ a ha, hrel⟩
    · obtain ⟨c, hc, hold⟩ := h.row_at i r hr
      refine ⟨c, hextends.nodes i c hc, ?_⟩
      intro s
      exact rel_mono (hold s) fun _ _ hk ↦ hextends.nodes _ _ hk
  · intro k hpos hk
    rcases Nat.lt_or_ge k e.nodes.size with hold | hnew
    · exact (h.first k hpos hold).push
    · have htargets : ((row a).map (e'.names.getD · 0)).edges.map (·.2) =
          (row a).targets.map (e'.names.getD · 0) := by simp [Row.map, Row.targets]
      exact firstEdge_push (htargets ▸ discovers) hnew hk (Nat.lt_of_lt_of_le hlt hnew)
        fun _ _ _ hk' ↦ (h.edge_lt hk').2

omit [Std.LawfulEqOrd α] [Std.LawfulEqOrd β] in
theorem coherent_empty (node : β → α) : Coherent node (empty : Exploration α β) := by
  constructor <;> simp [empty]

theorem valid_start (row : α → Row β) (node : β → α) (start : β) :
    Valid row node (empty.number node start) ∧
      (empty.number node start).nodes[0]? = some (node start) := by
  have coherent := coherent_number (coherent_empty node) start
  have hrows : (empty.number node start).rows = #[] := (extends_number node empty start).rows
  obtain ⟨k, hk, hsize⟩ := names_number (coherent_empty node) start
  have hnode := coherent.node_of_name start k hk
  simp only [empty, Array.size_empty, Nat.not_lt_zero, false_and, false_or, Nat.zero_add] at hsize
  obtain ⟨rfl, hsize⟩ := hsize
  refine ⟨⟨coherent, by simp [hrows], by simp [hrows], fun j hpos hj ↦ ?_⟩, hnode⟩
  simp only [empty] at hj
  omega

theorem Valid.extend (h : Valid row node e) (fuel : Nat) :
    Valid row node (e.extend row node fuel) := by
  induction fuel generalizing e with
  | zero => exact h
  | succ fuel ih =>
    cases ha : e.nodes[e.rows.size]? with
    | none => rwa [extend_of_none ha]
    | some a =>
      rw [extend_of_some ha]
      exact ih (h.follow ha)

/-- Fuel for as many rows as there can be nodes is enough to follow all of them. -/
theorem Valid.extend_complete (h : Valid row node e) {count fuel : Nat}
    (bound : ∀ l : List α, l.Nodup → (∀ a ∈ l, ∃ b, node b = a) → l.length ≤ count)
    (hfuel : count ≤ e.rows.size + fuel) :
    (e.extend row node fuel).rows.size = (e.extend row node fuel).nodes.size := by
  induction fuel generalizing e with
  | zero =>
    have hcount : e.nodes.size ≤ count := by
      apply bound e.nodes.toList h.coherent.nodup
      intro a ha
      obtain ⟨k, hk⟩ := List.mem_iff_getElem?.1 ha
      exact h.coherent.named k a (by simpa using hk)
    exact Nat.le_antisymm h.rows_le (Nat.le_trans hcount hfuel)
  | succ fuel ih =>
    cases ha : e.nodes[e.rows.size]? with
    | none =>
      rw [extend_of_none ha]
      exact Nat.le_antisymm h.rows_le (Array.getElem?_eq_none_iff.1 ha)
    | some a =>
      rw [extend_of_some ha]
      refine ih (h.follow ha) ?_
      have hrows : (e.follow node (row a)).rows.size = e.rows.size + 1 := by
        simp [follow_eq, (extends_all node e (row a).targets).rows]
      omega

end Exploration

section explore

variable {α β : Type} [Ord α] [Ord β] [Std.TransOrd β] [Std.LawfulEqOrd β] [Std.TransOrd α]
  [Std.LawfulEqOrd α] (row : α → Row β) (node : β → α)

theorem explore_valid (count : Nat) (start : β) :
    Exploration.Valid row node (explore row node count start) :=
  (Exploration.valid_start row node start).1.extend count

theorem explore_start (count : Nat) (start : β) :
    (explore row node count start).nodes[0]? = some (node start) :=
  Exploration.nodes_extend row node count _ (Exploration.valid_start row node start).2

theorem explore_complete {count : Nat} (start : β)
    (bound : ∀ l : List α, l.Nodup → (∀ a ∈ l, ∃ b, node b = a) → l.length ≤ count) :
    (explore row node count start).rows.size = (explore row node count start).nodes.size :=
  (Exploration.valid_start row node start).1.extend_complete bound (Nat.le_add_left _ _)

end explore

end BytePatterns
