import BytePatterns.Proofs.Scan

namespace BytePatterns

/-- A walk over a line that holds a word and ends well once the word belongs to the language. A
byte is added to the word if some word of the language begins like this; any other byte is
skipped and empties the word. -/
inductive RestartMatch (l : Language UInt8) : List UInt8 → List UInt8 → Prop
  | done {u line : List UInt8} : u ∈ l → RestartMatch l u line
  | extend {u rest : List UInt8} {b : UInt8} :
      (∃ word ∈ l, u ++ [b] <+: word) → RestartMatch l (u ++ [b]) rest →
        RestartMatch l u (b :: rest)
  | restart {u rest : List UInt8} {b : UInt8} :
      (¬∃ word ∈ l, u ++ [b] <+: word) → RestartMatch l [] rest → RestartMatch l u (b :: rest)

variable {l : Language UInt8} {u line rest : List UInt8} {b : UInt8}

theorem RestartMatch.exists_part (h : RestartMatch l u line) : ∃ word ∈ l, word <:+: u ++ line := by
  induction h with
  | @done u line hu => exact ⟨u, hu, (List.prefix_append u line).isInfix⟩
  | extend _ _ ih =>
    obtain ⟨word, hword, hpart⟩ := ih
    exact ⟨word, hword, by simpa using hpart⟩
  | @restart u rest b _ _ ih =>
    obtain ⟨word, hword, hpart⟩ := ih
    have hsuffix : rest <:+ u ++ b :: rest := ⟨u ++ [b], by simp⟩
    exact ⟨word, hword, hpart.trans hsuffix.isInfix⟩

theorem restartMatch_nil : RestartMatch l u [] ↔ u ∈ l := by
  refine ⟨fun h ↦ ?_, .done⟩
  cases h with
  | done hu => exact hu

theorem restartMatch_cons_of_begins (h : ∃ word ∈ l, u ++ [b] <+: word) :
    RestartMatch l u (b :: rest) ↔ u ∈ l ∨ RestartMatch l (u ++ [b]) rest := by
  refine ⟨fun h' ↦ ?_, fun h' ↦ ?_⟩
  · cases h' with
    | done hu => exact .inl hu
    | extend _ hrest => exact .inr hrest
    | restart hno _ => exact absurd h hno
  · rcases h' with hu | hrest
    · exact .done hu
    · exact .extend h hrest

theorem restartMatch_cons_of_not_begins (h : ¬∃ word ∈ l, u ++ [b] <+: word) :
    RestartMatch l u (b :: rest) ↔ u ∈ l ∨ RestartMatch l [] rest := by
  refine ⟨fun h' ↦ ?_, fun h' ↦ ?_⟩
  · cases h' with
    | done hu => exact .inl hu
    | extend hbegins _ => exact absurd hbegins h
    | restart _ hrest => exact .inr hrest
  · rcases h' with hu | hrest
    · exact .done hu
    · exact .restart h hrest

namespace Dfa

variable {d : Dfa} {s : Nat}

theorem run?_append_singleton (h : d.run? u = some s) (b : UInt8) :
    d.run? (u ++ [b]) = d.next? s b := by
  rw [run?, runFrom?] at h ⊢
  simp [h]

theorem Recognizes.isAccepting_iff (h : d.Recognizes l) (hs : d.run? u = some s) :
    d.isAccepting s = true ↔ u ∈ l := by
  rw [← h u, accepts, hs, Option.any_some]

/-- The cursor is in the state reached on the word that the walk holds. -/
theorem Tight.restartFrom_iff (h : d.Tight l) (hs : d.run? u = some s) :
    d.restartFrom s line = true ↔ RestartMatch l u line := by
  induction line generalizing u s with
  | nil => rw [restartFrom, h.recognizes.isAccepting_iff hs, restartMatch_nil]
  | cons b rest ih =>
    have hstep := run?_append_singleton hs b
    have hbegins := h.reached_iff (u ++ [b])
    rw [restartFrom, Bool.or_eq_true, h.recognizes.isAccepting_iff hs]
    cases hnext : d.next? s b with
    | some t =>
      rw [hnext] at hstep
      rw [Option.getD_some, ih hstep, restartMatch_cons_of_begins (hbegins.1 ⟨t, hstep⟩)]
    | none =>
      rw [hnext] at hstep
      have hno : ¬∃ word ∈ l, u ++ [b] <+: word := by
        rw [← hbegins, hstep]
        simp
      have hstart : d.run? [] = some d.start := rfl
      rw [Option.getD_none, ih hstart, restartMatch_cons_of_not_begins hno]

theorem Tight.isMatch_restart_iff (h : d.Tight l) :
    d.isMatch .restart line = true ↔ RestartMatch l [] line := h.restartFrom_iff rfl

theorem Tight.find?_isSome_of_restart (h : d.Tight l) (hmatch : d.isMatch .restart line = true) :
    (d.find? line).isSome = true := by
  obtain ⟨word, hword, hpart⟩ := (h.isMatch_restart_iff.1 hmatch).exists_part
  exact h.recognizes.isMatch_iff.2 ⟨word, hword, hpart⟩

end Dfa

/-- The restart walk of either automaton of a tree is the walk over the words that the
tree describes. So it is the same for every tree that describes these words, and a line
that it accepts has a match. -/
theorem Tree.isMatch_restart (t : Tree) :
    (∀ d ∈ t.automata, ∀ line, (d.isMatch .restart line = true ↔ RestartMatch t.language [] line) ∧
      (d.isMatch .restart line = true → (d.find? line).isSome = true)) ∧
    ∀ t' : Tree, t'.language = t.language → ∀ d ∈ t.automata, ∀ d' ∈ t'.automata, ∀ line,
      d'.isMatch .restart line = d.isMatch .restart line := by
  constructor
  · intro d hd line
    have htight := t.tight_of_mem_automata hd
    exact ⟨htight.isMatch_restart_iff, htight.find?_isSome_of_restart⟩
  · intro t' hl d hd d' hd' line
    have htight := t.tight_of_mem_automata hd
    have htight' := t'.tight_of_mem_automata hd'
    rw [Bool.eq_iff_iff, htight.isMatch_restart_iff, htight'.isMatch_restart_iff, hl]

/-- Neither the order of the branches matters nor whether the automaton is minimized. -/
theorem Tree.isMatch_restart_aOrB :
    (altern (byte 98) (byte 97)).language = (altern (byte 97) (byte 98)).language ∧
      ∀ line, (altern (byte 98) (byte 97)).toNfa.toDfa.minimize.isMatch .restart line =
        (altern (byte 97) (byte 98)).toNfa.toDfa.isMatch .restart line := by
  have hl : (altern (byte 98) (byte 97)).language = (altern (byte 97) (byte 98)).language :=
    add_comm _ _
  refine ⟨hl, fun line ↦ (isMatch_restart _).2 _ hl _ ?_ _ ?_ line⟩
  · exact List.mem_cons_self
  · exact List.mem_cons_of_mem _ List.mem_cons_self

end BytePatterns
