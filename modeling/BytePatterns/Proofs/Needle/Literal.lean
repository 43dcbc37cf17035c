import BytePatterns.Proofs.Needle.Search
import BytePatterns.Proofs.Scan
import BytePatterns.Proofs.Tree.Balanced

namespace BytePatterns

variable {word line text : List UInt8} {offset start i j : Nat} {m : Span} {d : Dfa}

def Span.ofLength (length start : Nat) : Span := ⟨start, start + length⟩

theorem extract_eq_iff (hij : i ≤ j) (hj : j ≤ line.length) :
    line.extract i j = word ↔ j = i + word.length ∧ OccursAt word line i := by
  refine ⟨fun hslice ↦ ?_, fun h ↦ ?_⟩
  · subst hslice
    have hlength : (line.extract i j).length = j - i := by
      simp only [List.extract_eq_take_drop, List.length_take, List.length_drop]
      omega
    have hstop : j = i + (line.extract i j).length := by omega
    exact ⟨hstop, hstop ▸ hj, hstop ▸ rfl⟩
  · obtain ⟨rfl, hoccurs⟩ := h
    exact hoccurs.slice_eq

theorem firstMatch_singleton_iff :
    FirstMatch {word} line offset m ↔
      IsLeast (placesFrom word line offset) m.start ∧ m.stop = m.start + word.length := by
  refine ⟨fun h ↦ ?_, fun h ↦ ?_⟩
  · obtain ⟨hstop, hoccurs⟩ := (extract_eq_iff h.start_le h.stop_le).1 h.mem
    refine ⟨⟨⟨h.offset_le, hoccurs⟩, fun i hi ↦ ?_⟩, hstop⟩
    by_contra hlt
    refine h.leftmost i (i + word.length) hi.1 (Nat.lt_of_not_le hlt) (Nat.le_add_right _ _)
      hi.2.stop_le ?_
    exact hi.2.slice_eq
  · obtain ⟨⟨⟨hle, hoccurs⟩, hleast⟩, hstop⟩ := h
    have hstart_le : m.start ≤ m.stop := hstop ▸ Nat.le_add_right _ _
    have hstop_le : m.stop ≤ line.length := hstop ▸ hoccurs.stop_le
    have hextract := (extract_eq_iff hstart_le hstop_le).2 ⟨hstop, hoccurs⟩
    refine ⟨hle, hstart_le, hstop_le, hextract, ?_, ?_⟩
    · intro i j hi hlt hij hj hmem
      obtain ⟨-, hoccurs'⟩ := (extract_eq_iff hij hj).1 hmem
      exact absurd (hleast ⟨hi, hoccurs'⟩) (Nat.not_le_of_lt hlt)
    · intro j hij hj hmem
      obtain ⟨hj', -⟩ := (extract_eq_iff hij (hj.le.trans hstop_le)).1 hmem
      omega

namespace Needle

variable {n : Needle} {s : Nat}

theorem occurrencesFrom_of_none (h : n.findAt? text start = none) :
    n.occurrencesFrom text start = [] := by
  rw [occurrencesFrom]
  split
  · rfl
  · rename_i hs
    rw [h] at hs
    cases hs

theorem occurrencesFrom_of_some (h : n.findAt? text start = some s) :
    n.occurrencesFrom text start = s :: n.occurrencesFrom text (n.after s) := by
  rw [occurrencesFrom]
  split
  · rename_i hnone
    rw [h] at hnone
    cases hnone
  · rename_i hs
    rw [h] at hs
    cases hs
    rfl

theorem answers_of_none (count : Nat) : n.answers text count none = List.replicate count none := by
  induction count with
  | zero => rfl
  | succ count ih =>
    rw [List.replicate_succ, ← ih]
    rfl

/-- Asking for one occurrence after another yields the list of them and then nothing any more. -/
theorem answers_of_some (count start : Nat) :
    n.answers text count (some start) =
      (List.range count).map ((n.occurrencesFrom text start)[·]?) := by
  induction count generalizing start with
  | zero => rfl
  | succ count ih =>
    have hstep : n.answers text (count + 1) (some start) =
        n.findAt? text start :: n.answers text count ((n.findAt? text start).map n.after) := rfl
    rw [hstep, List.range_succ_eq_map, List.map_cons, List.map_map]
    cases hfound : n.findAt? text start with
    | none =>
      simp [occurrencesFrom_of_none hfound, answers_of_none, Function.comp_def]
    | some s =>
      simp [occurrencesFrom_of_some hfound, ih, Function.comp_def]

end Needle

namespace Dfa

theorem Recognizes.findAt?_eq_map (h : d.Recognizes {word}) (line : List UInt8) (offset : Nat) :
    d.findAt? line offset =
      ((Needle.ofWord word).findAt? line offset).map (Span.ofLength word.length) := by
  have hfirst := (Needle.guided_ofWord word).findsFirst
  apply Option.ext
  intro m
  rw [h.findAt?_eq_some_iff, firstMatch_singleton_iff, Option.map_eq_some_iff]
  refine ⟨fun hfirst' ↦ ?_, fun hfound ↦ ?_⟩
  · obtain ⟨hleast, hstop⟩ := hfirst'
    refine ⟨m.start, (hfirst.findAt?_eq_some_iff _ _ _).2 hleast, ?_⟩
    rw [Span.ofLength, ← hstop]
  · obtain ⟨s, hs, rfl⟩ := hfound
    exact ⟨(hfirst.findAt?_eq_some_iff _ _ _).1 hs, rfl⟩

theorem Recognizes.findAllFrom_eq_map (h : d.Recognizes {word}) (line : List UInt8) (offset : Nat) :
    d.findAllFrom line offset =
      ((Needle.ofWord word).occurrencesFrom line offset).map (Span.ofLength word.length) := by
  have hfind := h.findAt?_eq_map line
  fun_induction Needle.occurrencesFrom (Needle.ofWord word) line offset with
  | case1 offset hnone =>
    refine findAllFrom_of_none ?_
    rw [hfind, hnone]
    rfl
  | case2 offset s hs ih =>
    have hafter : max (s + word.length) (s + 1) = (Needle.ofWord word).after s := by
      rw [Needle.after, (Needle.guided_ofWord word).size_eq, Nat.add_max_add_left]
    have hfound : d.findAt? line offset = some (Span.ofLength word.length s) := by
      rw [hfind, hs]
      rfl
    rw [findAllFrom_of_some hfound, List.map_cons, ← ih, ← hafter]
    rfl

structure AgreesWithNeedle (d : Dfa) (word : List UInt8) : Prop where
  findAt?_eq : ∀ line offset,
    d.findAt? line offset =
      ((Needle.ofWord word).findAt? line offset).map (Span.ofLength word.length)
  find?_eq :
    ∀ line, d.find? line = ((Needle.ofWord word).find? line).map (Span.ofLength word.length)
  starts_findAll : ∀ line, (d.findAll line).map Span.start = (Needle.ofWord word).occurrences line
  stop_of_mem_findAll : ∀ line, ∀ m ∈ d.findAll line, m.stop = m.start + word.length
  answers_eq : ∀ line count, (Needle.ofWord word).answers line count (some 0) =
    (List.range count).map fun k ↦ (d.findAll line)[k]?.map Span.start
  isMatch_eq : ∀ line, d.isMatch .everyStart line = (Needle.ofWord word).isMatch line

theorem Recognizes.agreesWithNeedle (h : d.Recognizes {word}) : d.AgreesWithNeedle word := by
  have hall (line : List UInt8) : d.findAll line =
      ((Needle.ofWord word).occurrences line).map (Span.ofLength word.length) :=
        h.findAllFrom_eq_map line 0
  have hstarts (line : List UInt8) :
      (d.findAll line).map Span.start = (Needle.ofWord word).occurrences line := by
    rw [hall, List.map_map]
    exact List.map_id _
  refine ⟨h.findAt?_eq_map, fun line ↦ h.findAt?_eq_map line 0, hstarts, ?_, ?_, ?_⟩
  · intro line m hm
    rw [hall] at hm
    obtain ⟨s, -, rfl⟩ := List.mem_map.1 hm
    rfl
  · intro line count
    rw [Needle.answers_of_some, ← Needle.occurrences, ← hstarts]
    simp only [List.getElem?_map]
  · intro line
    rw [isMatch, find?, h.findAt?_eq_map, Option.isSome_map]
    rfl

end Dfa

/-- Both automata of a literal word find what its needle finds. -/
theorem Tree.literal_agreesWithNeedle (word : List UInt8) :
    (literal word).toNfa.toDfa.AgreesWithNeedle word ∧
      (literal word).toNfa.toDfa.minimize.AgreesWithNeedle word := by
  have hlanguage := language_literal word
  exact ⟨(hlanguage ▸ (literal word).toDfa_recognizes).agreesWithNeedle,
    (hlanguage ▸ (literal word).minimize_recognizes).agreesWithNeedle⟩

end BytePatterns
