import BytePatterns.Diagram
import BytePatterns.Proofs.Dfa.Run

namespace BytePatterns

theorem append_cons_inj {α : Type} {a b u v : List α} {c : α} (ha : c ∉ a) (hb : c ∉ b)
    (h : a ++ c :: u = b ++ c :: v) : a = b ∧ u = v := by
  induction a generalizing b with
  | nil =>
    cases b with
    | nil => exact ⟨rfl, (List.cons.inj h).2⟩
    | cons y b => exact absurd ((List.cons.inj h).1 ▸ List.mem_cons_self) hb
  | cons x a ih =>
    cases b with
    | nil => exact absurd ((List.cons.inj h).1 ▸ List.mem_cons_self) ha
    | cons y b =>
      obtain ⟨rfl, hrest⟩ := List.cons.inj h
      obtain ⟨rfl, rfl⟩ :=
        ih (List.not_mem_of_not_mem_cons ha) (List.not_mem_of_not_mem_cons hb) hrest
      exact ⟨rfl, rfl⟩

namespace Symbol

def ofIndex (n : Nat) : Symbol := if n < 256 then byte (UInt8.ofNat n) else any

theorem ofIndex_index (sym : Symbol) : ofIndex sym.index = sym := by
  cases sym with
  | byte value => simp [ofIndex, index, value.toNat_lt]
  | any => rfl

/-- The number of characters of the symbol that a text begins with. -/
def textLength : List Char → Nat
  | [] => 0
  | [c] => if c = '\\' then 2 else 1
  | c :: c' :: _ => if c = '\\' then if c' = 'x' then 4 else 2 else 1

theorem textLength_append {text : List Char} (h : textLength text = text.length) (hne : text ≠ [])
    (rest : List Char) : textLength (text ++ rest) = text.length := by
  match text, hne with
  | [c], _ =>
    have hc : c ≠ '\\' := by
      rintro rfl
      simp [textLength] at h
    cases rest <;> simp [textLength, hc]
  | c :: c' :: more, _ => exact h

theorem text_bounded : ∀ n < 257, textLength (ofIndex n).text = (ofIndex n).text.length ∧
    (ofIndex n).text ≠ [] ∧ '\n' ∉ (ofIndex n).text ∧ 'ε' ∉ (ofIndex n).text := by
  decide +kernel

def hexValue (c : Char) : Nat := if c.toNat < 58 then c.toNat - 48 else c.toNat - 87

def indexOfText : List Char → Nat
  | ['\\', 'x', high, low] => 16 * hexValue high + hexValue low
  | ['\\', c] => if c = 't' then 9 else if c = 'n' then 10 else if c = 'r' then 13 else c.toNat
  | [c] => if c = '.' then 256 else c.toNat
  | _ => 0

theorem indexOfText_text : ∀ n < 257, indexOfText (ofIndex n).text = n := by
  decide +kernel

theorem newline_not_mem_text (sym : Symbol) : '\n' ∉ sym.text := by
  have h := (text_bounded sym.index sym.index_lt).2.2.1
  rwa [ofIndex_index] at h

theorem text_injective {a b : Symbol} (h : a.text = b.text) : a = b := by
  have hindex (sym : Symbol) : indexOfText sym.text = sym.index := by
    have h := indexOfText_text sym.index sym.index_lt
    rwa [ofIndex_index] at h
  exact index_injective (by rw [← hindex a, h, hindex])

/-- The text of a symbol does not begin the text of another. -/
theorem text_append_inj {a b : Symbol} {u v : List Char} (h : a.text ++ u = b.text ++ v) :
    a = b ∧ u = v := by
  have hlength (sym : Symbol) (rest : List Char) :
      textLength (sym.text ++ rest) = sym.text.length := by
    obtain ⟨hlength, hne, -⟩ := text_bounded sym.index sym.index_lt
    rw [ofIndex_index] at hlength hne
    exact textLength_append hlength hne rest
  have heq : a.text.length = b.text.length := by rw [← hlength a u, h, hlength]
  obtain ⟨htext, hrest⟩ := List.append_inj h heq
  exact ⟨text_injective htext, hrest⟩

end Symbol

namespace Diagram

def labelText : Option Symbol → List Char
  | none => ['ε']
  | some sym => sym.text

theorem labelText_append_inj {a b : Option Symbol} {u v : List Char}
    (h : labelText a ++ u = labelText b ++ v) : a = b ∧ u = v := by
  have hsymbol (sym : Symbol) (u v : List Char) : sym.text ++ u ≠ 'ε' :: v := by
    obtain ⟨-, hne, -, hε⟩ := Symbol.text_bounded sym.index sym.index_lt
    rw [Symbol.ofIndex_index] at hne hε
    obtain ⟨c, rest, htext⟩ := List.exists_cons_of_ne_nil hne
    rintro heq
    rw [htext, List.cons_append] at heq
    exact hε (htext ▸ (List.cons.inj heq).1 ▸ List.mem_cons_self)
  cases a with
  | none =>
    cases b with
    | none => exact ⟨rfl, List.append_cancel_left h⟩
    | some sym => exact absurd h.symm (hsymbol sym v u)
  | some sym =>
    cases b with
    | none => exact absurd h (hsymbol sym u v)
    | some sym' =>
      obtain ⟨rfl, hrest⟩ := Symbol.text_append_inj h
      exact ⟨rfl, hrest⟩

theorem newline_not_mem_labelText (label : Option Symbol) : '\n' ∉ labelText label := by
  cases label with
  | none => decide
  | some sym => exact sym.newline_not_mem_text

theorem number_injective {m n : Nat} (h : number m = number n) : m = n := by
  have hdigits (k : Nat) : Nat.ofDigitChars 10 (number k) 0 = k := Nat.ofDigitChars_ten_toDigits
  rw [← hdigits m, h, hdigits]

theorem not_mem_number {c : Char} (hc : c.isDigit = false) (n : Nat) : c ∉ number n := by
  intro hmem
  have hdigit : c.isDigit = true := Nat.isDigit_of_mem_toDigits (by decide) (by decide) hmem
  rw [hc] at hdigit
  cases hdigit

def IsLine (l : List Char) : Prop := ∃ body, '\n' ∉ body ∧ l = body ++ ['\n']

theorem flatten_lines_injective {ls ls' : List (List Char)} (h : ∀ l ∈ ls, IsLine l)
    (h' : ∀ l ∈ ls', IsLine l) (heq : ls.flatten = ls'.flatten) : ls = ls' := by
  induction ls generalizing ls' with
  | nil =>
    cases ls' with
    | nil => rfl
    | cons l' ls' =>
      obtain ⟨body, -, rfl⟩ := h' l' List.mem_cons_self
      simp at heq
  | cons l ls ih =>
    obtain ⟨body, hbody, rfl⟩ := h l List.mem_cons_self
    cases ls' with
    | nil => simp at heq
    | cons l' ls' =>
      obtain ⟨body', hbody', rfl⟩ := h' l' List.mem_cons_self
      simp only [List.flatten_cons, List.append_assoc, List.singleton_append] at heq
      obtain ⟨rfl, hrest⟩ := append_cons_inj hbody hbody' heq
      rw [ih (fun l hl ↦ h l (List.mem_cons_of_mem _ hl))
        (fun l hl ↦ h' l (List.mem_cons_of_mem _ hl)) hrest]

theorem isLine_line {parts : List (List Char)} (h : ∀ part ∈ parts, '\n' ∉ part) :
    IsLine (line parts) := by
  refine ⟨parts.flatten, fun hmem ↦ ?_, rfl⟩
  obtain ⟨part, hpart, hnewline⟩ := List.mem_flatten.1 hmem
  exact h part hpart hnewline

theorem line_injective {title a b : List Char} (h : line [title, a] = line [title, b]) : a = b := by
  simpa only [line, List.flatten_cons, List.flatten_nil, List.append_nil, List.append_assoc,
    List.append_cancel_left_eq, List.append_cancel_right_eq] using h

theorem blank_not_mem_number (n : Nat) : ' ' ∉ number n := not_mem_number (by decide) n

theorem newline_not_mem_number (n : Nat) : '\n' ∉ number n := not_mem_number (by decide) n

theorem isLine_startLine (s : Nat) : IsLine (startLine s) := by
  refine isLine_line ?_
  simp [newline_not_mem_number]

theorem isLine_edgeLine (s : Nat) (label : Option Symbol) (target : Nat) :
    IsLine (edgeLine s (labelText label) target) := by
  refine isLine_line ?_
  simp [newline_not_mem_number, newline_not_mem_labelText]

theorem startLine_injective {s s' : Nat} (h : startLine s = startLine s') : s = s' :=
  number_injective (line_injective h)

section lines

variable {α : Type} {start start' : Nat} {final final' : List Char} {es es' : List α}
  {edge : α → List Char}

theorem isLine_of_mem_lines (hfinal : IsLine final) (hedge : ∀ e, IsLine (edge e)) {l : List Char}
    (h : l ∈ startLine start :: final :: es.map edge) : IsLine l := by
  rcases List.mem_cons.1 h with rfl | h
  · exact isLine_startLine start
  rcases List.mem_cons.1 h with rfl | h
  · exact hfinal
  · obtain ⟨e, -, rfl⟩ := List.mem_map.1 h
    exact hedge e

/-- A text in which each edge has a line of its own determines the edges and their order. -/
theorem lines_injective (hfinal : IsLine final) (hfinal' : IsLine final')
    (hedge : ∀ e, IsLine (edge e)) (hinj : Function.Injective edge)
    (h : (startLine start :: final :: es.map edge).flatten =
      (startLine start' :: final' :: es'.map edge).flatten) :
    start = start' ∧ final = final' ∧ es = es' := by
  have hlines := flatten_lines_injective (fun _ ↦ isLine_of_mem_lines hfinal hedge)
    (fun _ ↦ isLine_of_mem_lines hfinal' hedge) h
  obtain ⟨hstart, hrest⟩ := List.cons.inj hlines
  obtain ⟨hfinals, hedges⟩ := List.cons.inj hrest
  exact ⟨startLine_injective hstart, hfinals, List.map_injective_iff.2 hinj hedges⟩

end lines

theorem edgeLine_injective {s s' target target' : Nat} {label label' : Option Symbol}
    (h : edgeLine s (labelText label) target = edgeLine s' (labelText label') target') :
    s = s' ∧ label = label' ∧ target = target' := by
  have hdash : " - ".toList = ' ' :: "- ".toList := rfl
  simp only [edgeLine, line, List.flatten_cons, List.flatten_nil, List.append_nil,
    List.append_assoc, List.append_cancel_left_eq, hdash, List.cons_append] at h
  obtain ⟨hs, h⟩ := append_cons_inj (blank_not_mem_number s) (blank_not_mem_number s') h
  obtain ⟨rfl, h⟩ := labelText_append_inj (List.append_cancel_left h)
  simp only [List.append_cancel_left_eq, List.append_cancel_right_eq] at h
  exact ⟨number_injective hs, rfl, number_injective h⟩

theorem splitOn_numbers {ks : List Nat} (h : ks ≠ []) :
    ([' '].intercalate (ks.map number)).splitOn ' ' = ks.map number := by
  refine List.splitOn_intercalate ' ' ?_ (by simpa using h)
  simp [blank_not_mem_number]

theorem intercalate_numbers_ne_nil {k : Nat} {ks : List Nat} :
    [' '].intercalate ((k :: ks).map number) ≠ [] := by
  have hnumber : number k ≠ [] := Nat.toDigits_ne_nil
  cases ks with
  | nil => simpa using hnumber
  | cons k' ks => simp

theorem intercalate_numbers_injective {ks ks' : List Nat}
    (h : [' '].intercalate (ks.map number) = [' '].intercalate (ks'.map number)) : ks = ks' := by
  cases ks with
  | nil =>
    cases ks' with
    | nil => rfl
    | cons k' ks' => exact absurd h.symm intercalate_numbers_ne_nil
  | cons k ks =>
    cases ks' with
    | nil => exact absurd h intercalate_numbers_ne_nil
    | cons k' ks' =>
      have heq : (k :: ks).map number = (k' :: ks').map number := by
        rw [← splitOn_numbers (List.cons_ne_nil k ks), h, splitOn_numbers (List.cons_ne_nil k' ks')]
      exact List.map_injective_iff.2 (fun _ _ ↦ number_injective) heq

theorem flatMap_zipIdx_eq {α β : Type} {l : List α} {f : α → Nat → List β} {g : Nat → List β}
    (h : ∀ i a, l[i]? = some a → f a i = g i) :
    (l.zipIdx.flatMap fun (a, i) ↦ f a i) = (List.range l.length).flatMap g := by
  have hmap : (l.zipIdx.map fun (a, i) ↦ f a i) = (l.zipIdx.map Prod.snd).map g := by
    rw [List.map_map]
    apply List.map_congr_left
    rintro ⟨a, i⟩ hmem
    exact h i a (List.mem_zipIdx_iff_getElem?.1 hmem)
  rw [List.flatMap_def, hmap, List.zipIdx_map_snd, ← List.range_eq_range', ← List.flatMap_def]

def edgeLines (text : List Char) : List (List Char) :=
  (text.splitOn '\n').filter fun l ↦ "State ".toList.isPrefixOf l

theorem splitOn_flatten_lines {ls : List (List Char)} (h : ∀ l ∈ ls, IsLine l) :
    ls.flatten.splitOn '\n' = ls.map List.dropLast ++ [[]] := by
  induction ls with
  | nil => rfl
  | cons l ls ih =>
    obtain ⟨body, hbody, rfl⟩ := h l List.mem_cons_self
    have hrest := ih fun l hl ↦ h l (List.mem_cons_of_mem _ hl)
    rw [List.flatten_cons, List.append_assoc, List.singleton_append,
      List.splitOn_append_cons_self_of_not_mem hbody, hrest, List.map_cons, List.dropLast_concat,
      List.cons_append]

theorem dropLast_line (parts : List (List Char)) : (line parts).dropLast = parts.flatten :=
  List.dropLast_concat

theorem isPrefixOf_edgeLine (s : Nat) (label : List Char) (target : Nat) :
    "State ".toList.isPrefixOf (edgeLine s label target).dropLast = true := by
  rw [edgeLine, dropLast_line, List.isPrefixOf_iff_prefix]
  exact List.prefix_append _ _

theorem not_isPrefixOf_startLine (s : Nat) :
    "State ".toList.isPrefixOf (startLine s).dropLast = false := by
  rw [startLine, dropLast_line]
  rfl

end Diagram

namespace Dfa

open Diagram

variable {d d' : Dfa}

def transitions (d : Dfa) : List (Nat × Symbol × Nat) :=
  d.states.toList.zipIdx.flatMap fun (state, s) ↦
    state.edges.edges.map fun (sym, target) ↦ (s, sym, target)

theorem mem_transitions {s target : Nat} {sym : Symbol} :
    (s, sym, target) ∈ d.transitions ↔ d.edge? s sym = some target := by
  simp only [transitions, List.mem_flatMap, List.mem_map, Prod.exists, List.mem_zipIdx_iff_getElem?,
    Array.getElem?_toList, Prod.mk.injEq, edge?, Option.bind_eq_some_iff, Row.get?_eq_some_iff]
  constructor
  · intro h
    obtain ⟨state, s, hstate, sym, target, hmem, rfl, rfl, rfl⟩ := h
    exact ⟨state, hstate, hmem⟩
  · intro h
    obtain ⟨state, hstate, hmem⟩ := h
    exact ⟨state, s, hstate, sym, target, hmem, rfl, rfl, rfl⟩

theorem edge?_of_getElem? {s : Nat} {state : State} (h : d.states[s]? = some state) :
    d.edge? s = state.edges.get? := by
  funext sym
  rw [edge?, h, Option.bind_some]

/-- All edges are found by trying every symbol of the alphabet in every state. -/
theorem WellFormed.transitions_eq (h : d.WellFormed) :
    d.transitions = (List.range d.stateCount).flatMap fun s ↦
      d.alphabet.symbols.filterMap fun sym ↦ (d.edge? s sym).map fun target ↦ (s, sym, target) := by
  rw [stateCount, ← Array.length_toList]
  refine flatMap_zipIdx_eq (f := fun (state : State) s ↦
    state.edges.edges.map fun (sym, target) ↦ (s, sym, target)) fun s state hstate ↦ ?_
  have hget := edge?_of_getElem? (Array.getElem?_toList.symm.trans hstate)
  have hlabel (e : Symbol × Nat) (he : e ∈ state.edges.edges) : e.1 ∈ d.alphabet := by
    refine h.label_mem s e.1 e.2 ?_
    rwa [hget, Row.get?_eq_some_iff]
  rw [Row.map_edges hlabel, hget]

theorem mem_acceptingStates {s : Nat} : s ∈ d.acceptingStates ↔ d.isAccepting s = true := by
  rw [acceptingStates, List.mem_filter, List.mem_range]
  exact ⟨fun h ↦ h.2, fun h ↦ ⟨lt_of_isAccepting h, h⟩⟩

def finalLine (d : Dfa) : List Char :=
  line ["Final States : ".toList, [' '].intercalate (d.acceptingStates.map number)]

def transitionLine (e : Nat × Symbol × Nat) : List Char := edgeLine e.1 e.2.1.text e.2.2

theorem WellFormed.text_eq (h : d.WellFormed) :
    d.text = (startLine d.start :: d.finalLine :: d.transitions.map transitionLine).flatten := by
  rw [text, h.transitions_eq, List.map_flatMap, List.flatten_cons, List.flatten_cons, finalLine,
    List.append_assoc]
  simp only [labelledLines, List.map_filterMap, Option.map_map]
  rfl

theorem newline_not_mem_intercalate (ks : List Nat) : '\n' ∉ [' '].intercalate (ks.map number) := by
  induction ks with
  | nil => simp
  | cons k ks ih =>
    cases ks with
    | nil => simpa using newline_not_mem_number k
    | cons k' ks =>
      simp only [List.map_cons, List.intercalate_cons_cons] at ih ⊢
      simp [newline_not_mem_number k, ih]

theorem isLine_finalLine (d : Dfa) : IsLine d.finalLine := by
  refine isLine_line ?_
  simp [newline_not_mem_intercalate]

theorem isLine_transitionLine (e : Nat × Symbol × Nat) : IsLine (transitionLine e) :=
  isLine_edgeLine e.1 (some e.2.1) e.2.2

theorem finalLine_injective (h : d.finalLine = d'.finalLine) :
    d.acceptingStates = d'.acceptingStates :=
  intercalate_numbers_injective (line_injective h)

theorem transitionLine_injective : Function.Injective transitionLine := by
  rintro ⟨s, sym, target⟩ ⟨s', sym', target'⟩ h
  have hlines :
      edgeLine s (labelText (some sym)) target = edgeLine s' (labelText (some sym')) target' := h
  obtain ⟨rfl, hsym, rfl⟩ := edgeLine_injective hlines
  rw [Option.some.inj hsym]

theorem WellFormed.eq_of_text_eq (hd : d.WellFormed) (hd' : d'.WellFormed) (h : d.text = d'.text) :
    d.start = d'.start ∧ d.acceptingStates = d'.acceptingStates ∧
      d.transitions = d'.transitions := by
  rw [hd.text_eq, hd'.text_eq] at h
  obtain ⟨hstart, hfinal, hedges⟩ :=
    lines_injective d.isLine_finalLine d'.isLine_finalLine isLine_transitionLine
      transitionLine_injective h
  exact ⟨hstart, finalLine_injective hfinal, hedges⟩

theorem WellFormed.sameEdges_of_text_eq (hd : d.WellFormed) (hd' : d'.WellFormed)
    (h : d.text = d'.text) : d.start = d'.start ∧ (∀ s, d.isAccepting s = d'.isAccepting s) ∧
      ∀ s sym, d.edge? s sym = d'.edge? s sym := by
  obtain ⟨hstart, haccepting, htransitions⟩ := hd.eq_of_text_eq hd' h
  refine ⟨hstart, fun s ↦ ?_, fun s sym ↦ ?_⟩
  · rw [Bool.eq_iff_iff, ← mem_acceptingStates, haccepting, mem_acceptingStates]
  · ext t
    rw [← mem_transitions, htransitions, mem_transitions]

theorem Trim.stateCount_le_of_residual_eq (h : d.Trim)
    (hresidual : ∀ s, d.residual s = d'.residual s) :
    d.stateCount ≤ d'.stateCount := by
  by_contra hlt
  obtain ⟨word, hword⟩ := h.live d'.stateCount (Nat.not_le.1 hlt)
  exact Nat.lt_irrefl _ (lt_of_mem_residual (hresidual _ ▸ hword))

/-- The text leaves out no state of a trim automaton. -/
theorem Trim.states_eq_of_text_eq (h : d.Trim) (h' : d'.Trim) (htext : d.text = d'.text) :
    d.start = d'.start ∧ d.states = d'.states := by
  obtain ⟨hstart, haccepting, hedge⟩ := h.sameEdges_of_text_eq h'.toWellFormed htext
  have hresidual := residual_congr hedge haccepting
  have hcount : d.stateCount = d'.stateCount :=
    Nat.le_antisymm (h.stateCount_le_of_residual_eq hresidual)
      (h'.stateCount_le_of_residual_eq fun s ↦ (hresidual s).symm)
  exact ⟨hstart, states_ext hcount (fun s _ ↦ haccepting s) fun s _ ↦ hedge s⟩

theorem WellFormed.text_congr (hd : d.WellFormed) (hd' : d'.WellFormed)
    (hstart : d.start = d'.start) (hstates : d.states = d'.states) : d.text = d'.text := by
  have hstate : d.isAccepting = d'.isAccepting := by
    funext s
    rw [isAccepting, isAccepting, hstates]
  have haccepting : d.acceptingStates = d'.acceptingStates := by
    rw [acceptingStates, acceptingStates, stateCount, stateCount, hstate, hstates]
  rw [hd.text_eq, hd'.text_eq, hstart, finalLine, finalLine, haccepting, transitions, transitions,
    hstates]

theorem not_isPrefixOf_finalLine (d : Dfa) :
    "State ".toList.isPrefixOf d.finalLine.dropLast = false := by
  rw [finalLine, dropLast_line]
  rfl

theorem WellFormed.edgeLines_text (h : d.WellFormed) :
    edgeLines d.text = (d.transitions.map transitionLine).map List.dropLast := by
  rw [h.text_eq, edgeLines,
    splitOn_flatten_lines fun _ ↦ isLine_of_mem_lines d.isLine_finalLine isLine_transitionLine]
  have hedges (l : List Char) (hl : l ∈ (d.transitions.map transitionLine).map List.dropLast) :
      "State ".toList.isPrefixOf l = true := by
    simp only [List.mem_map, exists_exists_and_eq_and] at hl
    obtain ⟨e, -, rfl⟩ := hl
    exact isPrefixOf_edgeLine _ _ _
  -- After the last newline there is one more part, the empty one.
  have hlast : "State ".toList.isPrefixOf ([] : List Char) = false := rfl
  simp only [List.map_cons, List.cons_append, List.filter_cons, List.filter_append, List.filter_nil,
    not_isPrefixOf_startLine, not_isPrefixOf_finalLine, List.filter_eq_self.2 hedges, hlast,
    Bool.false_eq_true, if_false, List.append_nil]

theorem length_transitions (d : Dfa) : d.transitions.length = d.edgeCount := by
  have hsizes :
      d.states.toList.zipIdx.map (fun e ↦ e.1.edges.size) = d.states.toList.map (·.edges.size) := by
    conv_rhs => rw [← List.zipIdx_map_fst 0 d.states.toList, List.map_map]
    rfl
  rw [edgeCount, ← Array.foldl_toList,
    ← List.foldl_map (f := fun state : State ↦ state.edges.size) (g := (· + ·)),
    ← List.sum_eq_foldl, ← hsizes, transitions, List.length_flatMap]
  simp only [List.length_map]
  rfl

theorem WellFormed.length_edgeLines_text (h : d.WellFormed) :
    (edgeLines d.text).length = d.edgeCount := by
  rw [h.edgeLines_text, List.length_map, List.length_map, length_transitions]

end Dfa

end BytePatterns
