import BytePatterns.Proofs.Restart

namespace BytePatterns

namespace Dfa

variable {d : Dfa} {l : Language UInt8} {text word : List UInt8} {m : Span} {s t : Nat}

def move (d : Dfa) (s : Nat) (b : UInt8) : Nat := (d.next? s b).getD d.start

def cursor (d : Dfa) (read : List UInt8) : Nat := read.foldl d.move d.start

structure Reads (d : Dfa) (text : List UInt8) (i : Nat) (b : UInt8) : Prop where
  byte_eq : text[i]? = some b
  not_accepting : ∀ j ≤ i, d.isAccepting (d.cursor (text.take j)) = false

/-- The walk skips the byte at an offset: the state of the cursor has no edge for it. -/
def Skips (d : Dfa) (text : List UInt8) (i : Nat) : Prop :=
  ∃ b, d.Reads text i b ∧ d.next? (d.cursor (text.take i)) b = none

/-- The walk follows an edge for the byte at an offset, and not from the start state: the byte goes
on with bytes read before it. -/
def GoesOn (d : Dfa) (text : List UInt8) (i : Nat) : Prop :=
  ∃ b s, d.Reads text i b ∧ d.cursor (text.take i) ≠ d.start ∧
    d.next? (d.cursor (text.take i)) b = some s

theorem cursor_append (u v : List UInt8) : d.cursor (u ++ v) = v.foldl d.move (d.cursor u) :=
  List.foldl_append

theorem cursor_append_singleton (read : List UInt8) (b : UInt8) :
    d.cursor (read ++ [b]) = (d.next? (d.cursor read) b).getD d.start := cursor_append read [b]

theorem restartFrom_iff :
    d.restartFrom s text = true ↔
      ∃ i ≤ text.length, d.isAccepting ((text.take i).foldl d.move s) = true := by
  induction text generalizing s with
  | nil => simp [restartFrom]
  | cons b rest ih =>
    rw [restartFrom, Bool.or_eq_true, ← move, ih]
    refine ⟨fun h ↦ ?_, fun h ↦ ?_⟩
    · rcases h with haccepting | ⟨i, hi, haccepting⟩
      · exact ⟨0, Nat.zero_le _, haccepting⟩
      · exact ⟨i + 1, Nat.succ_le_succ hi, haccepting⟩
    · obtain ⟨i, hi, haccepting⟩ := h
      cases i with
      | zero => exact .inl haccepting
      | succ i => exact .inr ⟨i, Nat.le_of_succ_le_succ hi, haccepting⟩

theorem foldl_move_of_runFrom? (h : d.runFrom? s word = some t) : word.foldl d.move s = t := by
  induction word generalizing s with
  | nil => exact Option.some.inj h
  | cons b rest ih =>
    rw [runFrom?, List.foldlM_cons] at h
    obtain ⟨r, hr, hrest⟩ := Option.bind_eq_some_iff.1 h
    rw [List.foldl_cons, move, hr, Option.getD_some]
    exact ih hrest

/-- Since its last restart the cursor has followed an edge for each byte. -/
theorem exists_restart (d : Dfa) (read : List UInt8) :
    ∃ i ≤ read.length, d.cursor (read.take i) = d.start ∧
      d.run? (read.drop i) = some (d.cursor read) := by
  induction read using List.reverseRecOn with
  | nil => exact ⟨0, Nat.le_refl _, rfl, rfl⟩
  | append_singleton read b ih =>
    have hcursor := d.cursor_append_singleton read b
    rw [List.length_append, List.length_singleton]
    cases hnext : d.next? (d.cursor read) b with
    | none =>
      refine ⟨read.length + 1, Nat.le_refl _, ?_, ?_⟩
      · rw [List.take_of_length_le (by simp), hcursor, hnext, Option.getD_none]
      · rw [List.drop_of_length_le (by simp), hcursor, hnext, Option.getD_none]
        rfl
    | some t =>
      obtain ⟨i, hi, hstart, hrun⟩ := ih
      refine ⟨i, Nat.le_succ_of_le hi, ?_, ?_⟩
      · rwa [List.take_append_of_le_length hi]
      · rw [List.drop_append_of_le_length hi, run?_append_singleton hrun, hcursor, hnext,
          Option.getD_some]

theorem isMatch_restart_iff_exists : d.isMatch .restart text = true ↔
    ∃ i j, i ≤ j ∧ j ≤ text.length ∧ d.cursor (text.take i) = d.start ∧
      d.accepts (text.extract i j) = true := by
  have haccepts (w : List UInt8) :
      d.accepts w = true ↔ ∃ s, d.run? w = some s ∧ d.isAccepting s = true :=
    Option.any_eq_true _ _
  rw [isMatch, restartMatches, restartFrom_iff]
  refine ⟨fun h ↦ ?_, fun h ↦ ?_⟩
  · obtain ⟨j, hj, haccepting⟩ := h
    obtain ⟨i, hi, hstart, hrun⟩ := d.exists_restart (text.take j)
    rw [List.length_take, Nat.min_eq_left hj] at hi
    rw [List.take_take, Nat.min_eq_left hi] at hstart
    rw [List.drop_take, ← List.extract_eq_take_drop] at hrun
    exact ⟨i, j, hi, hj, hstart, (haccepts _).2 ⟨_, hrun, haccepting⟩⟩
  · obtain ⟨i, j, hi, hj, hstart, haccept⟩ := h
    obtain ⟨s, hrun, haccepting⟩ := (haccepts _).1 haccept
    have htake : text.take j = text.take i ++ text.extract i j := by
      rw [List.extract_eq_take_drop, ← List.take_add, Nat.add_sub_cancel' hi]
    refine ⟨j, hj, ?_⟩
    rw [htake, ← cursor, cursor_append, hstart, foldl_move_of_runFrom? hrun]
    exact haccepting

theorem not_accepting_of_restart (h : d.isMatch .restart text = false) {j : Nat}
    (hj : j ≤ text.length) :
    d.isAccepting (d.cursor (text.take j)) = false := by
  rw [← Bool.not_eq_true] at h ⊢
  exact fun haccepting ↦ h (restartFrom_iff.2 ⟨j, hj, haccepting⟩)

theorem reads_of_restart (h : d.isMatch .restart text = false) {i : Nat} (hi : i < text.length) :
    d.Reads text i text[i] :=
  ⟨List.getElem?_eq_getElem hi, fun _ hj ↦ not_accepting_of_restart h (hj.trans hi.le)⟩

theorem Recognizes.cursor_ne_start (h : d.Recognizes l) (hmiss : d.isMatch .restart text = false)
    {i j : Nat} (hij : i ≤ j) (hj : j ≤ text.length) (hmem : text.extract i j ∈ l) :
    d.cursor (text.take i) ≠ d.start := by
  intro hstart
  rw [isMatch_restart_iff_exists.2 ⟨i, j, hij, hj, hstart, (h _).2 hmem⟩] at hmiss
  cases hmiss

theorem Recognizes.nil_not_mem (h : d.Recognizes l) (hmiss : d.isMatch .restart text = false) :
    [] ∉ l := by
  intro hmem
  have hslice : text.extract 0 0 = [] := by simp [List.extract_eq_take_drop]
  exact h.cursor_ne_start hmiss (Nat.le_refl 0) (Nat.zero_le _) (hslice ▸ hmem) rfl

theorem Recognizes.skips_or_goesOn (h : d.Recognizes l) (hm : FirstMatch l text 0 m)
    (hmiss : d.isMatch .restart text = false) : d.Skips text m.start ∨ d.GoesOn text m.start := by
  have hlt : m.start < m.stop := by
    refine Nat.lt_of_le_of_ne hm.start_le fun heq ↦ h.nil_not_mem hmiss ?_
    have hslice : text.extract m.start m.stop = [] := by simp [List.extract_eq_take_drop, heq]
    exact hslice ▸ hm.mem
  have hstart := hlt.trans_le hm.stop_le
  have hreads := reads_of_restart hmiss hstart
  cases hnext : d.next? (d.cursor (text.take m.start)) text[m.start] with
  | none => exact .inl ⟨_, hreads, hnext⟩
  | some s =>
    exact .inr ⟨_, s, hreads, h.cursor_ne_start hmiss hm.start_le hm.stop_le hm.mem, hnext⟩

theorem run?_take_of_not_skips (hmiss : d.isMatch .restart text = false)
    (hskip : ∀ i, ¬d.Skips text i) :
    ∀ i ≤ text.length, d.run? (text.take i) = some (d.cursor (text.take i)) := by
  intro i hi
  induction i with
  | zero => rfl
  | succ i ih =>
    have hlt : i < text.length := hi
    have hrun := ih hlt.le
    rw [List.take_succ_eq_append_getElem hlt, run?_append_singleton hrun, cursor_append_singleton]
    cases hnext : d.next? (d.cursor (text.take i)) text[i] with
    | none => exact absurd ⟨_, reads_of_restart hmiss hlt, hnext⟩ (hskip i)
    | some s => rfl

/-- A line in which the walk skips no byte and finds no match is itself the beginning of a word. -/
theorem Tight.exists_append_mem (h : d.Tight l) (hmiss : d.isMatch .restart text = false)
    (hskip : ∀ i, ¬d.Skips text i) : ∃ rest, rest ≠ [] ∧ text ++ rest ∈ l := by
  have hrun := run?_take_of_not_skips hmiss hskip text.length (Nat.le_refl _)
  rw [List.take_length] at hrun
  obtain ⟨word, hword, rest, hrest⟩ := (h.reached_iff text).1 ⟨_, hrun⟩
  refine ⟨rest, ?_, hrest ▸ hword⟩
  intro hnil
  rw [hnil, List.append_nil] at hrest
  have haccepting := (h.recognizes.isAccepting_iff hrun).2 (hrest ▸ hword)
  have hnone := not_accepting_of_restart hmiss (Nat.le_refl text.length)
  rw [List.take_length, haccepting] at hnone
  cases hnone

structure RestartLoss (d : Dfa) (l : Language UInt8) (text : List UInt8) : Prop where
  isMatch_iff : d.isMatch .restart text = true ↔
    ∃ i j, i ≤ j ∧ j ≤ text.length ∧ d.cursor (text.take i) = d.start ∧ text.extract i j ∈ l
  missed : d.isMatch .everyStart text = true → d.isMatch .restart text = false →
    ∃ m, d.find? text = some m ∧ (d.Skips text m.start ∨ d.GoesOn text m.start)
  agree : (∀ i, ¬d.Skips text i ∧ ¬d.GoesOn text i) →
    d.isMatch .restart text = d.isMatch .everyStart text
  agree_of_not_skips : (∀ i, ¬d.Skips text i) → (∀ rest, text ++ rest ∈ l → rest = []) →
    d.isMatch .restart text = d.isMatch .everyStart text

theorem Tight.restartLoss (h : d.Tight l) (text : List UInt8) : d.RestartLoss l text := by
  have hmissed (hmatch : d.isMatch .everyStart text = true)
      (hmiss : d.isMatch .restart text = false) :
      ∃ m, d.find? text = some m ∧ (d.Skips text m.start ∨ d.GoesOn text m.start) := by
    obtain ⟨m, hm⟩ := Option.isSome_iff_exists.1 hmatch
    exact ⟨m, hm, h.recognizes.skips_or_goesOn (h.recognizes.findAt?_eq_some_iff.1 hm) hmiss⟩
  -- The walk finds nothing that is not there, so the answers differ only on a match that it misses.
  have hagree (hnot : d.isMatch .everyStart text = true → d.isMatch .restart text ≠ false) :
      d.isMatch .restart text = d.isMatch .everyStart text := by
    rw [Bool.eq_iff_iff]
    exact ⟨h.find?_isSome_of_restart, fun hmatch ↦ Bool.eq_true_of_not_eq_false (hnot hmatch)⟩
  refine ⟨?_, hmissed, fun hnone ↦ hagree ?_, fun hskip hend ↦ hagree ?_⟩
  · simp only [isMatch_restart_iff_exists, h.recognizes _]
  · intro hmatch hmiss
    obtain ⟨m, -, hbegins⟩ := hmissed hmatch hmiss
    exact not_or.2 (hnone m.start) hbegins
  · intro _ hmiss
    obtain ⟨rest, hrest, hmem⟩ := h.exists_append_mem hmiss hskip
    exact hrest (hend rest hmem)

end Dfa

namespace Tree

/-- If the restart walk misses all matches in a line, it skips the first byte of the leftmost match
or goes on there with bytes read before. -/
theorem minimize_restartLoss (t : Tree) (text : List UInt8) :
    t.toNfa.toDfa.minimize.RestartLoss t.language text :=
  (t.tight_of_mem_automata (List.mem_cons_of_mem _ List.mem_cons_self)).restartLoss text

def abcOrB : Tree := altern (literal [97, 98, 99]) (byte 98)

/-- In `ab` the walk reads the byte of the only match as the second byte of
`abc`, and skips no byte at all. -/
theorem abcOrB_missed_unskipped :
    abcOrB.toNfa.toDfa.minimize.isMatch .everyStart [97, 98] = true ∧
      abcOrB.toNfa.toDfa.minimize.isMatch .restart [97, 98] = false ∧
      abcOrB.toNfa.toDfa.minimize.find? [97, 98] = some ⟨1, 2⟩ ∧
      ∀ i, ¬abcOrB.toNfa.toDfa.minimize.Skips [97, 98] i := by
  refine ⟨by decide +kernel, by decide +kernel, by decide +kernel, ?_⟩
  have hfirst :
      abcOrB.toNfa.toDfa.minimize.next? (abcOrB.toNfa.toDfa.minimize.cursor []) 97 ≠ none := by
    decide +kernel
  have hsecond :
      abcOrB.toNfa.toDfa.minimize.next? (abcOrB.toNfa.toDfa.minimize.cursor [97]) 98 ≠ none := by
    decide +kernel
  intro i hskip
  obtain ⟨b, hreads, hnext⟩ := hskip
  match i, hreads.byte_eq with
  | 0, rfl => exact hfirst hnext
  | 1, rfl => exact hsecond hnext

end Tree

end BytePatterns
