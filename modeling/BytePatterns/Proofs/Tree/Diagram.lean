import BytePatterns.Proofs.Nfa.Diagram
import BytePatterns.Proofs.Tree.Trim

namespace BytePatterns

namespace Nfa

variable {n : Nfa} {s t : Nat} {sym : Symbol}

theorem Trim.exists_edge?_toDfa (h : n.Trim) (hedge : n.edge? s sym = some t) :
    ∃ k i, n.toDfa.edge? k sym = some i := by
  have hs := lt_of_move (.inr ⟨sym, hedge⟩)
  -- The way to `s` leads to a numbered set that holds `s`, and from there `sym` leads on.
  obtain ⟨word, hpath⟩ := exists_path_of_moves (h.reached s hs)
  obtain ⟨set, hrun, hmem⟩ := h.mem_run_iff.2 hpath
  obtain ⟨k, -, hset⟩ := exists_right_of_rel (h.walk_rel subsets_start word) hrun
  have hmoved : t ∈ n.moved set sym := mem_moved.2 ⟨s, hmem, mem_step_of_edge? hedge⟩
  have hnext : n.next? set sym = some (n.closure (n.moved set sym)) :=
    next?_eq_some_iff.2 ⟨List.ne_nil_of_mem hmoved, rfl⟩
  have hrel := edge_rel hset sym
  rw [if_pos (h.label_mem s _ (mem_edges_iff.2 hedge)), hnext] at hrel
  obtain ⟨i, hi, -⟩ := exists_right_of_rel hrel rfl
  exact ⟨k, i, hi⟩

end Nfa

namespace Tree

variable (t : Tree) {t' : Tree}

theorem toDfa_labelsOf : t.toNfa.toDfa.alphabet.LabelsOf t.toNfa.toDfa.edge? := by
  refine fun sym ↦ ⟨fun h ↦ ?_, fun h ↦ ?_⟩
  · obtain ⟨s, target, hedge⟩ := (t.toNfa_labelsOf sym).1 h
    exact t.toNfa_trim.exists_edge?_toDfa hedge
  · obtain ⟨s, target, hedge⟩ := h
    exact t.toDfa_trim.label_mem s sym target hedge

variable {t}

theorem toNfa_eq_of_text_eq (h : t.toNfa.text = t'.toNfa.text) : t.toNfa = t'.toNfa :=
  t.toNfa_trim.eq_of_text_eq t'.toNfa_trim t.toNfa_labelsOf t'.toNfa_labelsOf h

theorem toDfa_eq_of_text_eq (h : t.toNfa.toDfa.text = t'.toNfa.toDfa.text) :
    t.toNfa.toDfa = t'.toNfa.toDfa := by
  obtain ⟨hstart, hstates⟩ := t.toDfa_trim.states_eq_of_text_eq t'.toDfa_trim h
  obtain ⟨-, -, hedge⟩ := t.toDfa_trim.sameEdges_of_text_eq t'.toDfa_trim.toWellFormed h
  have hedge : t.toNfa.toDfa.edge? = t'.toNfa.toDfa.edge? := funext₂ hedge
  exact Dfa.ext hstart hstates (t.toDfa_labelsOf.eq (hedge ▸ t'.toDfa_labelsOf))

/-- Nothing of an automaton of a tree is lost in its text, but for the alphabet of the minimal one;
and the text of a deterministic automaton has one line for each edge. -/
theorem text_faithful (t t' : Tree) :
    (t.toNfa.text = t'.toNfa.text ↔ t.toNfa = t'.toNfa) ∧
    (t.toNfa.toDfa.text = t'.toNfa.toDfa.text ↔ t.toNfa.toDfa = t'.toNfa.toDfa) ∧
    (t.toNfa.toDfa.minimize.text = t'.toNfa.toDfa.minimize.text ↔
      t.toNfa.toDfa.minimize.start = t'.toNfa.toDfa.minimize.start ∧
      t.toNfa.toDfa.minimize.states = t'.toNfa.toDfa.minimize.states) ∧
    ∀ d : Dfa, d.WellFormed → (Diagram.edgeLines d.text).length = d.edgeCount := by
  have htrim := t.minimize_reduced.toTrim
  have htrim' := t'.minimize_reduced.toTrim
  refine ⟨⟨toNfa_eq_of_text_eq, congrArg Nfa.text⟩, ⟨toDfa_eq_of_text_eq, congrArg Dfa.text⟩,
    ⟨htrim.states_eq_of_text_eq htrim', fun h ↦ ?_⟩, fun _ h ↦ h.length_edgeLines_text⟩
  exact htrim.text_congr htrim'.toWellFormed h.1 h.2

def starThenB : Tree := concat (star (byte 97)) (byte 98)

theorem text_faithful_starThenB : starThenB.toNfa.toDfa.WellFormed ∧
    (Diagram.edgeLines starThenB.toNfa.toDfa.text).length = 4 := by
  have hwellFormed : starThenB.toNfa.toDfa.WellFormed := starThenB.toDfa_trim.toWellFormed
  have hcount : starThenB.toNfa.toDfa.edgeCount = 4 := by decide +kernel
  refine ⟨hwellFormed, ?_⟩
  rw [← hcount]
  exact (text_faithful starThenB starThenB).2.2.2 _ hwellFormed

end Tree

end BytePatterns
