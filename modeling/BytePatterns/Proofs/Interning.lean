import BytePatterns.Proofs.Exploration

namespace BytePatterns.Exploration

variable {α β : Type} [Ord α] [Ord β]

/-- The nodes are followed in the order of their numbers until none is left, or until a node is
refused; a search that is over says what had been numbered. -/
inductive Search (row : α → Row β) (node : β → α) (limit : Option Nat) :
    Except (Exploration α β) (Exploration α β) → Except (Exploration α β) (Exploration α β) → Prop
  | refused (e : Exploration α β) : Search row node limit (.error e) (.error e)
  | complete {e : Exploration α β} :
      e.nodes[e.rows.size]? = none → Search row node limit (.ok e) (.ok e)
  | follow {e : Exploration α β} {a : α} {r : Except (Exploration α β) (Exploration α β)} :
      e.nodes[e.rows.size]? = some a → Search row node limit (e.followWithin node limit (row a)) r →
        Search row node limit (.ok e) r

/-- What becomes of a numbering under a limit: it is reached if it fits, and else its first nodes
are. -/
inductive Within (most : Nat) (full : Exploration α β) :
    Except (Exploration α β) (Exploration α β) → Prop
  | fits : full.nodes.size ≤ most → Within most full (.ok full)
  | exceeds {e : Exploration α β} : most < full.nodes.size → e.nodes.size = most →
      (∀ (k : Nat) (a : α), e.nodes[k]? = some a → full.nodes[k]? = some a) →
        Within most full (.error e)

variable {row : α → Row β} {node : β → α} {limit : Option Nat} {most : Nat}
  {e full : Exploration α β}
  {start r r' : Except (Exploration α β) (Exploration α β)}

theorem Search.unique (h : Search row node limit start r) (h' : Search row node limit start r') :
    r = r' := by
  induction h with
  | refused =>
    cases h'
    rfl
  | complete hnone =>
    cases h' with
    | complete => rfl
    | follow hsome _ =>
      rw [hnone] at hsome
      cases hsome
  | follow hsome _ ih =>
    cases h' with
    | complete hnone =>
      rw [hnone] at hsome
      cases hsome
    | follow hsome' hrest' =>
      rw [hsome] at hsome'
      cases hsome'
      exact ih hrest'

/-- Once a node is refused, what a longer numbering adds makes no difference. -/
theorem Within.bind {full' : Exploration α β} {r : Except (Exploration α β) (Exploration α β)}
    {f : Exploration α β → Except (Exploration α β) (Exploration α β)} (h : Within most full r)
    (hnodes : ∀ (k : Nat) (a : α), full.nodes[k]? = some a → full'.nodes[k]? = some a)
    (hf : full.nodes.size ≤ most → Within most full' (f full)) : Within most full' (r >>= f) := by
  cases h with
  | fits hfits => exact hf hfits
  | exceeds hmore hsize hfirst =>
    exact .exceeds (hmore.trans_le (size_le_of_nodes hnodes)) hsize fun k a hk ↦
      hnodes k a (hfirst k a hk)

theorem Within.eq_ok (h : Within most full r) (hfits : full.nodes.size ≤ most) : r = .ok full := by
  cases h with
  | fits => rfl
  | exceeds hmore => exact absurd hfits (Nat.not_le_of_lt hmore)

theorem Within.exists_error (h : Within most full r) (hmore : most < full.nodes.size) :
    ∃ e, r = .error e ∧ e.nodes.size = most ∧ e.nodes.toList = full.nodes.toList.take most := by
  cases h with
  | fits hfits => exact absurd hmore (Nat.not_lt_of_le hfits)
  | exceeds _ hsize hfirst =>
    exact ⟨_, rfl, hsize, hsize ▸ List.prefix_iff_eq_take.1 (prefix_of_nodes hfirst)⟩

theorem intern_none (e : Exploration α β) (name : β) :
    e.intern node none name = .ok (e.number node name) := rfl

theorem followWithin_none (e : Exploration α β) (targets : Row β) :
    e.followWithin node none targets = .ok (e.follow node targets) := by
  have hfold (l : List β) (e : Exploration α β) :
      l.foldlM (intern node none) e = .ok (l.foldl (number node) e) := by
    induction l generalizing e with
    | nil => rfl
    | cons name rest ih =>
      rw [List.foldlM_cons, intern_none]
      exact ih _
  rw [followWithin, hfold]
  rfl

theorem extendWithin_none (row : α → Row β) (node : β → α) (fuel : Nat) (e : Exploration α β) :
    e.extendWithin row node none fuel = .ok (e.extend row node fuel) := by
  induction fuel generalizing e with
  | zero => rfl
  | succ fuel ih =>
    cases ha : e.nodes[e.rows.size]? with
    | none => rw [extendWithin, ha, extend_of_none ha]
    | some a =>
      rw [extendWithin, ha, extend_of_some ha]
      simp only [followWithin_none]
      exact ih _

/-- If the fuel is enough, the loop is the search. -/
theorem search_extendWithin (fuel : Nat) (e : Exploration α β)
    (complete : ∀ found, e.extendWithin row node limit fuel = .ok found →
      found.nodes[found.rows.size]? = none) :
    Search row node limit (.ok e) (e.extendWithin row node limit fuel) := by
  induction fuel generalizing e with
  | zero => exact .complete (complete e rfl)
  | succ fuel ih =>
    rw [extendWithin] at complete ⊢
    cases ha : e.nodes[e.rows.size]? with
    | none => exact .complete ha
    | some a =>
      simp only [ha] at complete ⊢
      refine .follow ha ?_
      cases hfollow : e.followWithin node limit (row a) with
      | error e' => exact .refused e'
      | ok e' =>
        rw [hfollow] at complete
        exact ih e' complete

section limit

variable [Std.TransOrd β]

theorem nodes_number_of_known {name : β} {k : Nat}
    (hk : e.numbers[node name]? = some k) : (e.number node name).nodes = e.nodes := by
  rcases number_cases node e name with ⟨_, -, heq⟩ | ⟨_, -, -, heq⟩ | ⟨-, hnumber, -⟩
  · rw [heq]
  · rw [heq]
  · rw [hk] at hnumber
    cases hnumber

theorem Coherent.nodes_number_of_new (h : Coherent node e) {name : β}
    (hnew : e.numbers[node name]? = none) :
    (e.number node name).nodes = e.nodes.push (node name) := by
  rcases number_cases node e name with ⟨k, hname, -⟩ | ⟨k, -, hk, -⟩ | ⟨-, -, heq⟩
  · rw [(h.numbers_iff _ _).2 (h.node_of_name _ _ hname)] at hnew
    cases hnew
  · rw [hk] at hnew
    cases hnew
  · rw [heq]

variable [Std.TransOrd α]

theorem isNew_of_known {name : β} {k : Nat} (hk : e.numbers[node name]? = some k) :
    e.isNew node name = false := by
  simp only [isNew, Std.TreeMap.contains_eq_isSome_getElem?, hk, Option.isSome_some, Bool.not_true,
    Bool.and_false]

theorem Coherent.isNew_of_new (h : Coherent node e) {name : β}
    (hnew : e.numbers[node name]? = none) :
    e.isNew node name = true := by
  cases hname : e.names[name]? with
  | none =>
    simp only [isNew, Std.TreeMap.contains_eq_isSome_getElem?, hname, hnew, Option.isSome_none,
      Bool.not_false, Bool.and_self]
  | some k =>
    rw [(h.numbers_iff _ _).2 (h.node_of_name _ _ hname)] at hnew
    cases hnew

variable [Std.LawfulEqOrd β]

/-- Only a new node needs room. -/
theorem Coherent.intern_within (h : Coherent node e) (hsize : e.nodes.size ≤ most) (name : β) :
    Within most (e.number node name) (e.intern node (some most) name) := by
  cases hnumber : e.numbers[node name]? with
  | some k =>
    rw [intern, isNew_of_known hnumber, Bool.and_false, if_neg Bool.false_ne_true]
    exact .fits ((nodes_number_of_known hnumber).symm ▸ hsize)
  | none =>
    have hnodes := h.nodes_number_of_new hnumber
    rw [intern, h.isNew_of_new hnumber, Bool.and_true]
    simp only [Option.any_some, decide_eq_true_eq]
    split
    · rename_i hfull
      -- the refused node is the one that the numbering without a limit has in addition
      refine .exceeds ?_ (Nat.le_antisymm hsize hfull) (extends_number node e name).nodes
      rw [hnodes, Array.size_push]
      exact Nat.lt_succ_of_le hfull
    · rename_i hroom
      refine .fits ?_
      rw [hnodes, Array.size_push]
      exact Nat.lt_of_not_le hroom

variable [Std.LawfulEqOrd α]

theorem Coherent.foldlM_intern_within (h : Coherent node e) (hsize : e.nodes.size ≤ most)
    (targets : List β) :
    Within most (targets.foldl (number node) e) (targets.foldlM (intern node (some most)) e) := by
  induction targets generalizing e with
  | nil => exact .fits hsize
  | cons name rest ih =>
    rw [List.foldlM_cons, List.foldl_cons]
    refine (h.intern_within hsize name).bind (extends_all node _ rest).nodes fun hfits ↦ ?_
    exact ih (coherent_number h name) hfits

theorem Coherent.followWithin_within (h : Coherent node e) (hsize : e.nodes.size ≤ most)
    (targets : Row β) :
    Within most (e.follow node targets) (e.followWithin node (some most) targets) :=
  (h.foldlM_intern_within hsize targets.targets).bind (fun _ _ hk ↦ hk) fun hfits ↦ .fits hfits

/-- From a numbering that fits, the loop under the limit ends with what the one without a limit ends
with, or with its first nodes. -/
theorem Valid.extendWithin_within (h : Valid row node e) (hsize : e.nodes.size ≤ most)
    (fuel : Nat) :
    Within most (e.extend row node fuel) (e.extendWithin row node (some most) fuel) := by
  induction fuel generalizing e with
  | zero => exact .fits hsize
  | succ fuel ih =>
    rw [extendWithin]
    cases ha : e.nodes[e.rows.size]? with
    | none =>
      rw [extend_of_none ha]
      exact .fits hsize
    | some a =>
      rw [extend_of_some ha]
      refine (h.coherent.followWithin_within hsize (row a)).bind ?_ fun hfits ↦ ?_
      · exact fun _ _ ↦ nodes_extend row node fuel _
      · exact ih (h.follow ha) hfits

end limit

end BytePatterns.Exploration

namespace BytePatterns

open Exploration

variable {α β : Type} [Ord α] [Ord β] (row : α → Row β) (node : β → α)

theorem exploreWithin_none (count : Nat) (start : β) :
    exploreWithin row node none count start = .ok (explore row node count start) :=
  extendWithin_none row node count _

variable [Std.TransOrd α] [Std.LawfulEqOrd α] [Std.TransOrd β] [Std.LawfulEqOrd β]

theorem exploreWithin_within (most count : Nat) (start : β) :
    Within most (explore row node count start)
      (exploreWithin row node (some most) count start) := by
  have hstart := (coherent_empty node).intern_within (Nat.zero_le most) start
  refine hstart.bind (fun _ _ ↦ nodes_extend row node count _) fun hfits ↦ ?_
  exact (valid_start row node start).1.extendWithin_within hfits count

theorem exploreWithin_eq_ok {limit : Option Nat} {count : Nat} {start : β} {found : Exploration α β}
    (h : exploreWithin row node limit count start = .ok found) :
    found = explore row node count start := by
  cases limit with
  | none => exact Except.ok.inj (h.symm.trans (exploreWithin_none row node count start))
  | some most =>
    have hwithin := exploreWithin_within row node most count start
    rw [h] at hwithin
    cases hwithin
    rfl

/-- The search that numbers one node at a time ends under every limit, with what the loop finds. -/
theorem search_exploreWithin {count : Nat} (limit : Option Nat) (start : β)
    (bound : ∀ l : List α, l.Nodup → (∀ a ∈ l, ∃ b, node b = a) → l.length ≤ count) :
    Search row node limit (empty.intern node limit start)
      (exploreWithin row node limit count start) := by
  have hcomplete (found : Exploration α β)
      (h : exploreWithin row node limit count start = .ok found) :
      found.nodes[found.rows.size]? = none := by
    rw [exploreWithin_eq_ok row node h]
    exact Array.getElem?_eq_none (explore_complete row node start bound).ge
  unfold exploreWithin at hcomplete ⊢
  cases hstart : (empty : Exploration α β).intern node limit start with
  | error e => exact .refused e
  | ok e =>
    rw [hstart] at hcomplete
    exact search_extendWithin count e hcomplete

end BytePatterns
