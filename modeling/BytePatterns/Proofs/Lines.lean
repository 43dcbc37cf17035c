import BytePatterns.Lines
import Mathlib.Data.List.Basic

namespace BytePatterns

variable {condition : List UInt8 → Bool} {line segment text : List UInt8}
  {ls segs : List (List UInt8)} {k : Nat}

/-- The pieces hold no newline and one stands behind each of them, except behind a last piece that
is not empty, where there may be none. -/
inductive Divides : List (List UInt8) → List UInt8 → Prop
  | nil : Divides [] []
  | last {segment : List UInt8} : segment ≠ [] → 10 ∉ segment → Divides [segment] segment
  | cons {segment text : List UInt8} {segs : List (List UInt8)} :
      10 ∉ segment → Divides segs text → Divides (segment :: segs) (segment ++ 10 :: text)

inductive Strips : List UInt8 → List UInt8 → Prop
  | ended (line : List UInt8) : Strips (line ++ [13]) line
  | plain {line : List UInt8} : ¬[13] <:+ line → Strips line line

/-- Texts in which the lines stand one behind another, each with one of the two ends, or none behind
a last line that is not empty. -/
inductive Written : List (List UInt8) → List UInt8 → Prop
  | nil : Written [] []
  | last {line : List UInt8} : line ≠ [] → Written [line] line
  | newline {line text : List UInt8} {ls : List (List UInt8)} :
      Written ls text → Written (line :: ls) (line ++ 10 :: text)
  | returnNewline {line text : List UInt8} {ls : List (List UInt8)} :
      Written ls text → Written (line :: ls) (line ++ 13 :: 10 :: text)

def PlainLine (line : List UInt8) : Prop := 10 ∉ line ∧ ¬[13] <:+ line

instance (line : List UInt8) : Decidable (PlainLine line) := inferInstanceAs (Decidable (_ ∧ _))

theorem segments_append_newline (h : 10 ∉ segment) :
    segments (segment ++ 10 :: text) = segment :: segments text := by
  induction segment with
  | nil => rfl
  | cons b rest ih =>
    obtain ⟨hb, hrest⟩ : 10 ≠ b ∧ 10 ∉ rest := by simpa using h
    rw [List.cons_append, segments, if_neg hb.symm, ih hrest]

theorem segments_of_not_mem (hne : segment ≠ []) (h : 10 ∉ segment) :
    segments segment = [segment] := by
  induction segment with
  | nil => exact absurd rfl hne
  | cons b rest ih =>
    obtain ⟨hb, hrest⟩ : 10 ≠ b ∧ 10 ∉ rest := by simpa using h
    rw [segments, if_neg hb.symm]
    cases rest with
    | nil => rfl
    | cons c rest => rw [ih (List.cons_ne_nil c rest) hrest]

theorem Divides.cons_of_ne {b : UInt8} (hb : b ≠ 10) (h : Divides (segment :: segs) text) :
    Divides ((b :: segment) :: segs) (b :: text) := by
  have hmem (hsegment : 10 ∉ segment) : 10 ∉ b :: segment := by simpa using ⟨hb.symm, hsegment⟩
  cases h with
  | last _ hsegment => exact .last (List.cons_ne_nil _ _) (hmem hsegment)
  | cons hsegment hrest => exact .cons (hmem hsegment) hrest

theorem divides_segments (text : List UInt8) : Divides (segments text) text := by
  fun_induction segments text with
  | case1 => exact .nil
  | case2 rest ih => exact .cons List.not_mem_nil ih
  | case3 b rest hb hnil ih =>
    rw [hnil] at ih
    cases ih
    exact .last (List.cons_ne_nil _ _) (by simpa using Ne.symm hb)
  | case4 b rest hb segment others hcons ih =>
    rw [hcons] at ih
    exact ih.cons_of_ne hb

theorem divides_iff : Divides segs text ↔ segs = segments text := by
  refine ⟨fun h ↦ ?_, fun h ↦ h ▸ divides_segments text⟩
  induction h with
  | nil => rfl
  | last hne h => exact (segments_of_not_mem hne h).symm
  | cons h _ ih => rw [segments_append_newline h, ih]

theorem getLast?_eq_return_iff : segment.getLast? = some 13 ↔ [13] <:+ segment := by
  rw [List.getLast?_eq_some_iff]
  exact exists_congr fun _ ↦ eq_comm

theorem withoutReturn_eq_iff : withoutReturn segment = line ↔ Strips segment line := by
  rw [withoutReturn]
  split
  case isTrue h =>
    obtain ⟨init, rfl⟩ := getLast?_eq_return_iff.1 h
    rw [List.dropLast_concat]
    refine ⟨fun heq ↦ heq ▸ .ended init, fun hstrips ↦ ?_⟩
    generalize hsegment : init ++ [13] = segment at hstrips
    cases hstrips with
    | ended line => exact (List.append_inj' hsegment rfl).1
    | plain hnot => exact absurd ⟨init, hsegment⟩ hnot
  case isFalse h =>
    have hnot := mt getLast?_eq_return_iff.2 h
    refine ⟨fun heq ↦ heq ▸ .plain hnot, fun hstrips ↦ ?_⟩
    cases hstrips with
    | ended line => exact absurd (List.suffix_append line [13]) hnot
    | plain _ => rfl

theorem lines_append_newline (h : 10 ∉ segment) :
    lines (segment ++ 10 :: text) = withoutReturn segment :: lines text := by
  rw [lines, segments_append_newline h, List.map_cons, lines]

/-- However the lines are written, they are read again. -/
theorem lines_of_written (hplain : ∀ line ∈ ls, PlainLine line) (h : Written ls text) :
    lines text = ls := by
  induction h with
  | nil => rfl
  | @last line hne =>
    obtain ⟨hnewline, hnot⟩ := hplain line List.mem_cons_self
    rw [lines, segments_of_not_mem hne hnewline, List.map_singleton,
      withoutReturn_eq_iff.2 (.plain hnot)]
  | @newline line text ls _ ih =>
    obtain ⟨hnewline, hnot⟩ := hplain line List.mem_cons_self
    rw [lines_append_newline hnewline, withoutReturn_eq_iff.2 (.plain hnot),
      ih fun l hl ↦ hplain l (List.mem_cons_of_mem _ hl)]
  | @returnNewline line text ls _ ih =>
    -- the carriage return belongs to the piece, and is stripped from it
    obtain ⟨hnewline, -⟩ := hplain line List.mem_cons_self
    have hmem : 10 ∉ line ++ [13] := by simpa using hnewline
    rw [List.append_cons, lines_append_newline hmem, withoutReturn_eq_iff.2 (.ended line),
      ih fun l hl ↦ hplain l (List.mem_cons_of_mem _ hl)]

theorem mem_searchLines_iff : (k, line) ∈ searchLines condition text ↔
    ∃ i segment, k = i + 1 ∧ (segments text)[i]? = some segment ∧ Strips segment line ∧
      condition line = true := by
  have hline (i : Nat) : (lines text)[i]? = some line ↔
      ∃ segment, (segments text)[i]? = some segment ∧ Strips segment line := by
    simp only [lines, List.getElem?_map, Option.map_eq_some_iff, withoutReturn_eq_iff]
  simp only [searchLines, List.mem_filterMap, Prod.exists,
    List.mk_mem_zipIdx_iff_le_and_getElem?_sub, Option.ite_none_right_eq_some, Option.some.injEq,
    Prod.mk.injEq]
  constructor
  · rintro ⟨line, k, ⟨hk, hget⟩, hcondition, rfl, rfl⟩
    obtain ⟨segment, hsegment, hstrips⟩ := (hline (k - 1)).1 hget
    exact ⟨k - 1, segment, by omega, hsegment, hstrips, hcondition⟩
  · rintro ⟨i, segment, rfl, hsegment, hstrips, hcondition⟩
    exact ⟨line, i + 1, ⟨Nat.le_add_left 1 i, (hline i).2 ⟨segment, hsegment, hstrips⟩⟩, hcondition,
      rfl, rfl⟩

theorem searchLines_increasing (condition : List UInt8 → Bool) (text : List UInt8) :
    (searchLines condition text).Pairwise (·.1 < ·.1) := by
  have hnumbers : ((lines text).zipIdx 1).Pairwise (·.2 < ·.2) := by
    rw [← List.pairwise_map, List.zipIdx_map_snd]
    exact List.pairwise_lt_range'
  refine List.pairwise_filterMap.2 (hnumbers.imp fun hlt p hp q hq ↦ ?_)
  obtain ⟨-, heq⟩ := Option.ite_none_right_eq_some.1 hp
  obtain ⟨-, heq'⟩ := Option.ite_none_right_eq_some.1 hq
  rw [← Option.some.inj heq, ← Option.some.inj heq']
  exact hlt

/-- What is found in a text: the numbered pieces of it, each without a carriage return at its end,
that satisfy the condition. So it is the same for all texts in which the same lines are written. -/
structure ReportsLines (condition : List UInt8 → Bool) : Prop where
  divides_iff : ∀ text segs, Divides segs text ↔ segs = segments text
  mem_iff : ∀ text k line, (k, line) ∈ searchLines condition text ↔ ∃ i segment,
    k = i + 1 ∧ (segments text)[i]? = some segment ∧ Strips segment line ∧ condition line = true
  increasing : ∀ text, (searchLines condition text).Pairwise (·.1 < ·.1)
  lines_eq : ∀ ls text, (∀ line ∈ ls, PlainLine line) → Written ls text → lines text = ls
  eq_of_written : ∀ ls text text',
    (∀ line ∈ ls, PlainLine line) → Written ls text → Written ls text' →
    searchLines condition text = searchLines condition text'

/-- Exactly the matching lines are reported, in order, and how their ends are
written makes no difference. -/
theorem searchLines_reportsLines (condition : List UInt8 → Bool) : ReportsLines condition where
  divides_iff _ _ := divides_iff
  mem_iff _ _ _ := mem_searchLines_iff
  increasing := searchLines_increasing condition
  lines_eq _ _ hplain h := lines_of_written hplain h
  eq_of_written _ _ _ hplain h h' := by
    rw [searchLines, searchLines, lines_of_written hplain h, lines_of_written hplain h']

/-- The lines `ab`, an empty one and `b` with different ends, and with none behind the last. -/
theorem searchLines_mixedEnds : (∀ line ∈ [[97, 98], [], [98]], PlainLine line) ∧
    Written [[97, 98], [], [98]] [97, 98, 13, 10, 10, 98] ∧
    Written [[97, 98], [], [98]] [97, 98, 10, 13, 10, 98, 13, 10] ∧
    searchLines (·.contains 98) [97, 98, 13, 10, 10, 98] = [(1, [97, 98]), (3, [98])] ∧
    searchLines (·.contains 98) [97, 98, 10, 13, 10, 98, 13, 10] = [(1, [97, 98]), (3, [98])] := by
  have hplain : ∀ line ∈ [[97, 98], [], [98]], PlainLine line := by decide
  have hfirst : Written [[97, 98], [], [98]] [97, 98, 13, 10, 10, 98] :=
    .returnNewline (.newline (.last (List.cons_ne_nil _ _)))
  have hsecond : Written [[97, 98], [], [98]] [97, 98, 10, 13, 10, 98, 13, 10] :=
    .newline (.returnNewline (.returnNewline .nil))
  have hfound :
      searchLines (·.contains 98) [97, 98, 13, 10, 10, 98] = [(1, [97, 98]), (3, [98])] := by decide
  have heq := (searchLines_reportsLines (·.contains 98)).eq_of_written _ _ _ hplain hfirst hsecond
  exact ⟨hplain, hfirst, hsecond, hfound, heq ▸ hfound⟩

end BytePatterns
