import BytePatterns.Proofs.Nfa.Structure

namespace BytePatterns

structure Construction.Part where
  tree : Tree
  states : List Nat
  start : Nat
  accept : Nat

/-- A cell for each state and symbol, the empty moves of each state, the state that is handed out
next, and what has been built for the subtrees that are done. -/
structure Construction where
  cells : Array (Option Nat)
  epsilons : Array (List Nat)
  alphabet : Alphabet
  next : Nat
  finished : List Construction.Part

structure Slot where
  target? : Symbol → Option Nat
  epsilons : List Nat

namespace Slot

def blank : Slot := ⟨fun _ ↦ none, []⟩

def withEdge (sym : Symbol) (target : Nat) (x : Slot) : Slot :=
  ⟨fun sym' ↦ if sym = sym' then some target else x.target? sym', x.epsilons⟩

def withEpsilon (target : Nat) (x : Slot) : Slot := ⟨x.target?, x.epsilons ++ [target]⟩

def state (a : Alphabet) (x : Slot) : Nfa.State := ⟨.tabulate a x.target?, x.epsilons⟩

end Slot

def Nfa.State.slot (state : Nfa.State) : Slot := ⟨state.edges.get?, state.epsilons⟩

theorem slot_empty_withEpsilon (exits : List Nat) (target : Nat) :
    (⟨.empty, exits⟩ : Nfa.State).slot.withEpsilon target =
      (⟨.empty, exits ++ [target]⟩ : Nfa.State).slot := rfl

theorem slot_empty_withEdge (sym : Symbol) (target : Nat) :
    (⟨.empty, []⟩ : Nfa.State).slot.withEdge sym target =
      (⟨.single sym target, []⟩ : Nfa.State).slot := by
  simp only [Slot.withEdge, Nfa.State.slot, Slot.mk.injEq, and_true]
  funext sym'
  rw [Row.get?_single]
  rfl

theorem blank_eq : Slot.blank = (⟨.empty, []⟩ : Nfa.State).slot := rfl

namespace Construction

def begin (size : Nat) : Construction :=
  ⟨.replicate (size * 257) none, .replicate size [], .empty, 0, []⟩

def issue (c : Construction) : Nat × Construction := (c.next, { c with next := c.next + 1 })

def cell (s : Nat) (sym : Symbol) : Nat := s * 257 + sym.index

def addEdge? (sym : Symbol) (s target : Nat) (c : Construction) : Option Construction :=
  if h : cell s sym < c.cells.size then
    some { c with
      cells := c.cells.set (cell s sym) (some target)
      alphabet := c.alphabet.insert sym }
  else none

def addEpsilon? (s target : Nat) (c : Construction) : Option Construction :=
  if h : s < c.epsilons.size then
    some { c with epsilons := c.epsilons.set s (c.epsilons[s] ++ [target]) }
  else none

def finish (part : Part) (c : Construction) : Part × Construction :=
  (part, { c with finished := c.finished ++ [part] })

def leaf (t : Tree) (connect? : Nat → Nat → Construction → Option Construction) (c : Construction) :
    Option (Part × Construction) := do
  let (start, c) := c.issue
  let (accept, c) := c.issue
  let c ← connect? start accept c
  return c.finish ⟨t, [start, accept], start, accept⟩

def slot (c : Construction) (s : Nat) : Slot :=
  ⟨fun sym ↦ c.cells[cell s sym]?.join, (c.epsilons[s]?).getD []⟩

def slots (c : Construction) : List Slot := (List.range c.epsilons.size).map c.slot

def nfa (c : Construction) (part : Part) : Nfa :=
  ⟨part.start, part.accept, (c.slots.map (Slot.state c.alphabet)).toArray, c.alphabet⟩

end Construction

namespace Tree

open Construction

def constructFrom? : Tree → Construction → Option (Part × Construction)
  | concat first second, c => do
    let (f, c) ← first.constructFrom? c
    let (g, c) ← second.constructFrom? c
    let c ← c.addEpsilon? f.accept g.start
    return c.finish ⟨concat first second, f.states ++ g.states, f.start, g.accept⟩
  | altern first second, c => do
    let (f, c) ← first.constructFrom? c
    let (g, c) ← second.constructFrom? c
    let (start, c) := c.issue
    let (accept, c) := c.issue
    let c ← c.addEpsilon? start f.start
    let c ← c.addEpsilon? start g.start
    let c ← c.addEpsilon? f.accept accept
    let c ← c.addEpsilon? g.accept accept
    return c.finish ⟨altern first second, f.states ++ g.states ++ [start, accept], start, accept⟩
  | star sub, c => do
    let (f, c) ← sub.constructFrom? c
    let (start, c) := c.issue
    let (accept, c) := c.issue
    let c ← c.addEpsilon? start f.start
    let c ← c.addEpsilon? start accept
    let c ← c.addEpsilon? f.accept f.start
    let c ← c.addEpsilon? f.accept accept
    return c.finish ⟨star sub, f.states ++ [start, accept], start, accept⟩
  | any, c => leaf any (addEdge? .any) c
  | byte value, c => leaf (byte value) (addEdge? (.byte value)) c
  | empty, c => leaf empty addEpsilon? c

/-- Nothing if a write fails, or if not all of the states that were counted are handed out. -/
def construct? (t : Tree) : Option (Part × Construction) := do
  let (part, c) ← t.constructFrom? (.begin t.stateCount)
  if c.next = t.stateCount then some (part, c) else none

def subtrees : Tree → List Tree
  | concat first second => first.subtrees ++ second.subtrees ++ [concat first second]
  | altern first second => first.subtrees ++ second.subtrees ++ [altern first second]
  | star sub => sub.subtrees ++ [star sub]
  | any => [any]
  | byte value => [byte value]
  | empty => [empty]

def part (t : Tree) (base : Nat) : Part :=
  ⟨t, List.range' base t.stateCount, t.start base, t.accept base⟩

def parts : Tree → Nat → List Part
  | concat first second, base =>
    first.parts base ++ second.parts (base + first.stateCount) ++ [(concat first second).part base]
  | altern first second, base =>
    first.parts base ++ second.parts (base + first.stateCount) ++ [(altern first second).part base]
  | star sub, base => sub.parts base ++ [(star sub).part base]
  | any, base => [any.part base]
  | byte value, base => [(byte value).part base]
  | empty, base => [empty.part base]

end Tree

namespace Construction

variable {c : Construction} {before after states : List Slot} {x : Slot} {s target room : Nat}
  {sym : Symbol} {symbols : List Symbol} {log : List Part}

theorem cell_lt_iff : cell s sym < room * 257 ↔ s < room := by
  have := sym.index_lt
  rw [cell]
  omega

theorem cell_inj {s' : Nat} {sym' : Symbol} : cell s sym = cell s' sym' ↔ s = s' ∧ sym = sym' := by
  constructor
  · intro h
    have := sym.index_lt
    have := sym'.index_lt
    rw [cell, cell] at h
    exact ⟨by omega, Symbol.index_injective (by omega)⟩
  · rintro ⟨rfl, rfl⟩
    rfl

structure Holds (c : Construction) (states : List Slot) (room : Nat) (symbols : List Symbol)
    (log : List Part) : Prop where
  size_cells : c.cells.size = c.epsilons.size * 257
  slots_eq : c.slots = states ++ List.replicate room .blank
  next_eq : c.next = states.length
  mem_alphabet : ∀ sym, sym ∈ c.alphabet ↔ sym ∈ symbols
  finished_eq : c.finished = log

theorem length_slots (c : Construction) : c.slots.length = c.epsilons.size := by simp [slots]

theorem slot_of_slots (h : c.slots = before ++ x :: after) :
    before.length < c.epsilons.size ∧ c.slot before.length = x := by
  have hlt : before.length < c.slots.length := by
    rw [h]
    simp
  have hget : c.slots[before.length] = x := by simp [h]
  rw [length_slots] at hlt
  exact ⟨hlt, by simpa [slots] using hget⟩

/-- A write changes the moves of one state. -/
theorem slots_eq_set {c' : Construction} (hsize : c'.epsilons.size = c.epsilons.size)
    (hs : c'.slot s = x) (hothers : ∀ s', s' ≠ s → c'.slot s' = c.slot s') :
    c'.slots = c.slots.set s x := by
  refine List.ext_getElem (by simp [length_slots, hsize]) fun s' _ _ ↦ ?_
  rw [List.getElem_set]
  split
  · rename_i heq
    simpa [slots, ← heq] using hs
  · rename_i hne
    simpa [slots] using hothers s' (Ne.symm hne)

theorem holds_begin (size : Nat) : (begin size).Holds [] size [] [] where
  size_cells := by simp [begin]
  slots_eq := by
    have hblank : ∀ s < size, (begin size).slot s = .blank := by
      intro s hs
      simp only [slot, begin, Slot.blank, Slot.mk.injEq, Array.getElem?_replicate]
      refine ⟨funext fun sym ↦ ?_, ?_⟩
      · rw [if_pos (cell_lt_iff.2 hs), Option.join_some]
      · rw [if_pos hs, Option.getD_some]
    refine List.eq_replicate_iff.2 ⟨by simp [length_slots, begin], fun x hx ↦ ?_⟩
    obtain ⟨s, hs, rfl⟩ := List.mem_map.1 hx
    exact hblank s (by simpa [begin] using hs)
  next_eq := rfl
  mem_alphabet _ := Iff.rfl
  finished_eq := rfl

namespace Holds

theorem issue (h : c.Holds states (room + 1) symbols log) :
    c.issue.2.Holds (states ++ [.blank]) room symbols log where
  size_cells := h.size_cells
  slots_eq := by
    rw [List.append_assoc, List.singleton_append, ← List.replicate_succ]
    exact h.slots_eq
  next_eq := by
    rw [List.length_append, ← h.next_eq]
    rfl
  mem_alphabet := h.mem_alphabet
  finished_eq := h.finished_eq

theorem finish (h : c.Holds states room symbols log) (part : Part) :
    (c.finish part).2.Holds states room symbols (log ++ [part]) where
  size_cells := h.size_cells
  slots_eq := h.slots_eq
  next_eq := h.next_eq
  mem_alphabet := h.mem_alphabet
  finished_eq := congrArg (· ++ [part]) h.finished_eq

theorem write (h : c.Holds (before ++ x :: after) room symbols log) {c' : Construction} {x' : Slot}
    {symbols' : List Symbol} (hcells : c'.cells.size = c.cells.size)
    (hsize : c'.epsilons.size = c.epsilons.size) (hnext : c'.next = c.next)
    (hslot : c'.slot before.length = x') (hothers : ∀ s, s ≠ before.length → c'.slot s = c.slot s)
    (hfinished : c'.finished = c.finished) (halphabet : ∀ sym, sym ∈ c'.alphabet ↔ sym ∈ symbols') :
    c'.Holds (before ++ x' :: after) room symbols' log where
  size_cells := by rw [hcells, hsize, h.size_cells]
  slots_eq := by
    rw [slots_eq_set hsize hslot hothers, h.slots_eq]
    simp
  next_eq := by
    rw [hnext, h.next_eq]
    simp
  mem_alphabet := halphabet
  finished_eq := hfinished.trans h.finished_eq

theorem slot_eq (h : c.Holds (before ++ x :: after) room symbols log) :
    before.length < c.epsilons.size ∧ c.slot before.length = x := by
  apply slot_of_slots
  rw [h.slots_eq, List.append_assoc, List.cons_append]

theorem addEpsilon (h : c.Holds (before ++ x :: after) room symbols log) (target : Nat) :
    ∃ c', c.addEpsilon? before.length target = some c' ∧
      c'.Holds (before ++ x.withEpsilon target :: after) room symbols log := by
  obtain ⟨hlt, hslot⟩ := h.slot_eq
  refine ⟨_, dif_pos hlt, h.write rfl (by simp) rfl ?_ ?_ rfl h.mem_alphabet⟩
  · rw [← hslot]
    simp [slot, Slot.withEpsilon, hlt]
  · intro s hs
    simp [slot, Ne.symm hs]

theorem addEdge (h : c.Holds (before ++ x :: after) room symbols log) (sym : Symbol)
    (target : Nat) :
    ∃ c', c.addEdge? sym before.length target = some c' ∧
      c'.Holds (before ++ x.withEdge sym target :: after) room (symbols ++ [sym]) log := by
  obtain ⟨hlt, hslot⟩ := h.slot_eq
  have hcell : cell before.length sym < c.cells.size := by
    rw [h.size_cells]
    exact cell_lt_iff.2 hlt
  refine ⟨_, dif_pos hcell, h.write (by simp) rfl rfl ?_ ?_ rfl ?_⟩
  · rw [← hslot]
    simp only [slot, Slot.withEdge, Slot.mk.injEq, Array.getElem?_set, cell_inj, true_and, and_true]
    funext sym'
    split <;> rfl
  · intro s hs
    simp [slot, cell_inj, Ne.symm hs]
  · intro sym'
    rw [Alphabet.mem_insert, h.mem_alphabet, List.mem_append, List.mem_singleton, or_comm]

theorem issueTwo (h : c.Holds states (room + 2) symbols log) :
    ∃ c₁ c₂, c.issue = (states.length, c₁) ∧ c₁.issue = (states.length + 1, c₂) ∧
      c₂.Holds (states ++ [.blank, .blank]) room symbols log := by
  refine ⟨c.issue.2, c.issue.2.issue.2, ?_, ?_, by simpa using h.issue.issue⟩
  · rw [← h.next_eq]
    rfl
  · rw [← h.next_eq]
    rfl

theorem leaf {t : Tree} {connect? : Nat → Nat → Construction → Option Construction}
    {symbols' : List Symbol} {moves : List Slot} (h : c.Holds states (2 + room) symbols log)
    (hconnect : ∀ {c : Construction}, c.Holds (states ++ [.blank, .blank]) room symbols log →
      ∃ c', connect? states.length (states.length + 1) c = some c' ∧
        c'.Holds (states ++ moves) room symbols' log) :
    let part : Part := ⟨t, [states.length, states.length + 1], states.length, states.length + 1⟩
    ∃ c', Construction.leaf t connect? c = some (part, c') ∧
      c'.Holds (states ++ moves) room symbols' (log ++ [part]) := by
  rw [Nat.add_comm] at h
  obtain ⟨c₁, c₂, hstart, haccept, h₂⟩ := h.issueTwo
  obtain ⟨c₃, hrun₃, h₃⟩ := hconnect h₂
  refine ⟨_, ?_, h₃.finish _⟩
  simp [Construction.leaf, hstart, haccept, hrun₃, Construction.finish]

end Holds

end Construction

namespace Tree

variable {t : Tree} {c : Construction} {before after states : List Slot} {base room : Nat}
  {exits : List Nat} {symbols : List Symbol} {log : List Construction.Part}

def slots (t : Tree) (base : Nat) (exits : List Nat) : List Slot :=
  (t.fragment base exits).map Nfa.State.slot

theorem length_slots (t : Tree) (base : Nat) (exits : List Nat) :
    (t.slots base exits).length = t.stateCount := by
  rw [slots, List.length_map, length_fragment]

theorem addExit (h : c.Holds (before ++ t.slots base exits ++ after) room symbols log)
    (hbase : before.length = base) (target : Nat) :
    ∃ c', c.addEpsilon? (t.accept base) target = some c' ∧
      c'.Holds (before ++ t.slots base (exits ++ [target]) ++ after) room symbols log := by
  obtain ⟨inner, rest, hsplits⟩ := t.exists_splits base
  have hslots (exits : List Nat) : before ++ t.slots base exits ++ after =
      (before ++ inner.map Nfa.State.slot) ++ ⟨fun _ ↦ none, exits⟩ ::
        (rest.map Nfa.State.slot ++ after) := by
    rw [slots, hsplits.fragment_eq, List.map_append, List.map_cons, List.append_assoc,
      List.append_assoc, List.append_assoc]
    rfl
  rw [hslots] at h ⊢
  have hlength : (before ++ inner.map Nfa.State.slot).length = t.accept base := by
    rw [hsplits.accept_eq, List.length_append, List.length_map, hbase]
  rw [← hlength]
  exact h.addEpsilon target

theorem range'_add_two (base count : Nat) :
    List.range' base (count + 2) = List.range' base count ++ [base + count, base + count + 1] := by
  rw [← List.range'_append_1]
  rfl

/-- From states in use the tree is built behind them, and nothing fails. -/
def Builds (t : Tree) : Prop :=
  ∀ {c : Construction} {states : List Slot} {room : Nat} {symbols : List Symbol}
      {log : List Construction.Part},
    c.Holds states (t.stateCount + room) symbols log →
    ∃ c', t.constructFrom? c = some (t.part states.length, c') ∧
      c'.Holds (states ++ t.slots states.length []) room (symbols ++ t.symbols)
        (log ++ t.parts states.length)

theorem builds_concat {first second : Tree} (hf : first.Builds) (hs : second.Builds) :
    (concat first second).Builds := by
  intro c states room symbols log h
  rw [stateCount, Nat.add_assoc] at h
  obtain ⟨c₁, hrun₁, h₁⟩ := hf h
  obtain ⟨c₂, hrun₂, h₂⟩ := hs h₁
  rw [List.length_append, length_slots] at hrun₂ h₂
  obtain ⟨c₃, hrun₃, h₃⟩ := addExit h₂ rfl (second.start (states.length + first.stateCount))
  have hdone := h₃.finish ((concat first second).part states.length)
  refine ⟨_, ?_, by simpa [slots, fragment, Tree.symbols, parts] using hdone⟩
  simp [constructFrom?, hrun₁, hrun₂, hrun₃, part, Construction.finish, stateCount, start, accept]

theorem builds_altern {first second : Tree} (hf : first.Builds) (hs : second.Builds) :
    (altern first second).Builds := by
  intro c states room symbols log h
  rw [stateCount, Nat.add_assoc, Nat.add_assoc, Nat.add_comm 2] at h
  obtain ⟨c₁, hrun₁, h₁⟩ := hf h
  obtain ⟨c₂, hrun₂, h₂⟩ := hs h₁
  obtain ⟨c₃, c₄, hstart, haccept, h₄⟩ := h₂.issueTwo
  obtain ⟨c₅, hrun₅, h₅⟩ := h₄.addEpsilon (first.start states.length)
  obtain ⟨c₆, hrun₆, h₆⟩ := h₅.addEpsilon (second.start (states.length + first.stateCount))
  -- the accept states of the operands get their moves when the states
  -- behind them are in use already
  rw [List.append_assoc] at h₆
  obtain ⟨c₇, hrun₇, h₇⟩ :=
    addExit h₆ rfl (states.length + first.stateCount + second.stateCount + 1)
  rw [← List.append_assoc] at h₇
  obtain ⟨c₈, hrun₈, h₈⟩ := addExit h₇ (by simp [length_slots])
    (states.length + first.stateCount + second.stateCount + 1)
  simp only [List.length_append, length_slots] at *
  have hdone := h₈.finish ((altern first second).part states.length)
  refine ⟨_, ?_, by
    simpa [slots, fragment, Tree.symbols, parts, blank_eq, slot_empty_withEpsilon] using hdone⟩
  simp [constructFrom?, hrun₁, hrun₂, hstart, haccept, hrun₅, hrun₆, hrun₇, hrun₈, part,
    Construction.finish, stateCount, start, accept, range'_add_two, ← List.range'_append_1]
  exact Nat.add_assoc _ _ _

theorem builds_star {sub : Tree} (hsub : sub.Builds) : (star sub).Builds := by
  intro c states room symbols log h
  rw [stateCount, Nat.add_assoc, Nat.add_comm 2] at h
  obtain ⟨c₁, hrun₁, h₁⟩ := hsub h
  obtain ⟨c₂, c₃, hstart, haccept, h₃⟩ := h₁.issueTwo
  obtain ⟨c₄, hrun₄, h₄⟩ := h₃.addEpsilon (sub.start states.length)
  obtain ⟨c₅, hrun₅, h₅⟩ := h₄.addEpsilon (states.length + sub.stateCount + 1)
  obtain ⟨c₆, hrun₆, h₆⟩ := addExit h₅ rfl (sub.start states.length)
  obtain ⟨c₇, hrun₇, h₇⟩ := addExit h₆ rfl (states.length + sub.stateCount + 1)
  simp only [List.length_append, length_slots] at *
  have hdone := h₇.finish ((star sub).part states.length)
  refine ⟨_, ?_, by
    simpa [slots, fragment, Tree.symbols, parts, blank_eq, slot_empty_withEpsilon] using hdone⟩
  simp [constructFrom?, hrun₁, hstart, haccept, hrun₄, hrun₅, hrun₆, hrun₇, part,
    Construction.finish, stateCount, start, accept, range'_add_two]

theorem addEdge_blank {sym : Symbol} (h : c.Holds (states ++ [.blank, .blank]) room symbols log) :
    let connected : Nfa.State := ⟨.single sym (states.length + 1), []⟩
    ∃ c', c.addEdge? sym states.length (states.length + 1) = some c' ∧
      c'.Holds (states ++ [connected.slot, .blank]) room (symbols ++ [sym]) log := by
  intro connected
  rw [← slot_empty_withEdge]
  exact h.addEdge sym _

theorem builds (t : Tree) : t.Builds := by
  induction t with
  | concat first second ihf ihs => exact builds_concat ihf ihs
  | altern first second ihf ihs => exact builds_altern ihf ihs
  | star sub ih => exact builds_star ih
  | any | byte _ => exact fun h ↦ h.leaf addEdge_blank
  | empty =>
    intro c states room symbols log h
    rw [Tree.symbols, List.append_nil]
    exact h.leaf fun h ↦ h.addEpsilon _

theorem exists_construct? (t : Tree) : ∃ c, t.construct? = some (t.part 0, c) ∧
    c.Holds (t.slots 0 []) 0 t.symbols (t.parts 0) := by
  have hbegin : (Construction.begin t.stateCount).Holds [] (t.stateCount + 0) [] [] :=
    Construction.holds_begin _
  obtain ⟨c, hrun, h⟩ := t.builds hbegin
  have hnext : c.next = t.stateCount := by
    rw [h.next_eq]
    exact t.length_slots 0 []
  refine ⟨c, ?_, h⟩
  rw [construct?, hrun]
  exact if_pos hnext

theorem nfa_eq (h : c.Holds (t.slots 0 []) 0 t.symbols log) : c.nfa (t.part 0) = t.toNfa := by
  have halphabet : c.alphabet = .ofList t.symbols := by
    apply Alphabet.ext_mem
    intro sym
    rw [h.mem_alphabet, Alphabet.mem_ofList]
  have hstate :
      ∀ state ∈ t.fragment 0 [], (Slot.state c.alphabet ∘ Nfa.State.slot) state = state := by
    intro state hstate
    have hlabels := (staysIn_of_mem_fragment hstate).label_mem
    have hrow : Row.tabulate c.alphabet state.edges.get? = state.edges :=
      Row.tabulate_get? fun e he ↦ (h.mem_alphabet _).2 (hlabels e he)
    exact congrArg (fun row ↦ Nfa.State.mk row state.epsilons) hrow
  have hslots : c.slots = (t.fragment 0 []).map Nfa.State.slot :=
    h.slots_eq.trans (List.append_nil _)
  rw [Construction.nfa, toNfa, hslots, List.map_map, List.map_congr_left hstate, List.map_id',
    halphabet]
  rfl

theorem map_tree_parts (t : Tree) (base : Nat) : (t.parts base).map (·.tree) = t.subtrees := by
  induction t generalizing base with
  | concat first second ihf ihs => simp [parts, subtrees, part, ihf, ihs]
  | altern first second ihf ihs => simp [parts, subtrees, part, ihf, ihs]
  | star sub ih => simp [parts, subtrees, part, ih]
  | any | byte _ | empty => rfl

theorem eq_part_of_mem_parts {p : Construction.Part} (h : p ∈ t.parts base) :
    ∃ first, p = p.tree.part first := by
  induction t generalizing base with
  | concat first second ihf ihs | altern first second ihf ihs =>
    simp only [parts, List.mem_append, List.mem_singleton, or_assoc] at h
    rcases h with h | h | rfl
    · exact ihf h
    · exact ihs h
    · exact ⟨base, rfl⟩
  | star sub ih =>
    simp only [parts, List.mem_append, List.mem_singleton] at h
    rcases h with h | rfl
    · exact ih h
    · exact ⟨base, rfl⟩
  | any | byte _ | empty =>
    obtain rfl := List.mem_singleton.1 h
    exact ⟨base, rfl⟩

end Tree

structure Construction.Part.Contiguous (p : Part) : Prop where
  states_eq : ∃ first, p.states = List.range' first p.tree.stateCount
  start_mem : p.start ∈ p.states
  accept_mem : p.accept ∈ p.states

theorem Tree.contiguous_part (t : Tree) (base : Nat) : (t.part base).Contiguous where
  states_eq := ⟨base, rfl⟩
  start_mem := List.mem_range'_1.2 (t.start_bounds base)
  accept_mem := List.mem_range'_1.2 (t.accept_bounds base)

structure Construction.Completes (t : Tree) (part : Part) (c : Construction) : Prop where
  nfa_eq : c.nfa part = t.toNfa
  states_eq : part.states = List.range t.stateCount
  next_eq : c.next = t.stateCount
  finished_trees : c.finished.map (·.tree) = t.subtrees
  contiguous : ∀ p ∈ c.finished, p.Contiguous
  thompson : (c.nfa part).Thompson

/-- Building the automaton of a tree does not fail: it hands out the states that were counted for
the tree, each once, and every subtree gets an interval of them. -/
theorem Tree.construction_completes (t : Tree) : ∃ part c, t.construct? = some (part, c) ∧
    Construction.Completes t part c := by
  obtain ⟨c, hrun, h⟩ := t.exists_construct?
  refine ⟨t.part 0, c, hrun, ?_⟩
  exact {
    nfa_eq := nfa_eq h
    states_eq := List.range_eq_range'.symm
    next_eq := h.next_eq.trans (t.length_slots 0 [])
    finished_trees := h.finished_eq ▸ t.map_tree_parts 0
    contiguous := by
      intro p hp
      rw [h.finished_eq] at hp
      obtain ⟨first, heq⟩ := eq_part_of_mem_parts hp
      rw [heq]
      exact p.tree.contiguous_part first
    thompson := (nfa_eq h).symm ▸ t.toNfa_thompson }

end BytePatterns
