import BytePatterns.Proofs.Needle.Table
import BytePatterns.Needle

namespace BytePatterns.Needle

structure Cursors where
  offset : Nat
  length : Nat

/-- What does not exist: a byte of the text or of the word, an entry of the table, or the beginning
of an occurrence that is longer than the text up to its end. -/
inductive Fault where
  | text (offset : Nat)
  | word (length : Nat)
  | entry (length : Nat)
  | start (stop length : Nat)

inductive Stage where
  | searching (cursors : Cursors)
  | ended (found : Option Nat)

def checked {α : Type} (fault : Fault) : Option α → Except Fault α
  | none => .error fault
  | some x => .ok x

def startOf (stop length : Nat) : Except Fault Nat :=
  if length ≤ stop then .ok (stop - length) else .error (.start stop length)

def step (n : Needle) (text : List UInt8) (c : Cursors) : Except Fault Stage :=
  if c.offset < text.length then do
    let b ← checked (.text c.offset) text[c.offset]?
    let expected ← checked (.word c.length) n.word[c.length]?
    if b = expected then
      if c.length + 1 = n.word.size then
        return .ended (some (← startOf (c.offset + 1) (c.length + 1)))
      else return .searching ⟨c.offset + 1, c.length + 1⟩
    -- the entry at 0 is never looked at
    else if c.length = 0 then return .searching ⟨c.offset + 1, 0⟩
    else match ← checked (.entry c.length) n.table.entries[c.length]? with
      | some shorter => return .searching ⟨c.offset, shorter⟩
      | none => return .searching ⟨c.offset + 1, 0⟩
  else return .ended none

def begin (n : Needle) (text : List UInt8) (start : Nat) : Stage :=
  if n.word.size = 0 then .ended (if start ≤ text.length then some start else none)
    else .searching ⟨start, 0⟩

/-- After so many steps, none of which fails, the search ends with an answer. -/
inductive Ends (n : Needle) (text : List UInt8) : Nat → Stage → Option Nat → Prop
  | ended (found : Option Nat) : Ends n text 0 (.ended found) found
  | step {steps : Nat} {c : Cursors} {stage : Stage} {found : Option Nat} :
      n.step text c = .ok stage → Ends n text steps stage found →
        Ends n text (steps + 1) (.searching c) found

variable {n : Needle} {word text rest : List UInt8} {length offset shorter start : Nat} {b : UInt8}
  {c : Cursors}

section scan

theorem advance_eq (t : BorderTable) (word : Array UInt8) (length : Nat) (b : UInt8) :
    t.advance word length b = if word[length]? = some b then length + 1
      else match t.border? length with
        | some shorter => t.advance word shorter b
        | none => 0 := by
  rw [BorderTable.advance]
  split
  · rfl
  · split <;> rename_i hborder <;> rw [hborder]

theorem scan?_of_match (h : n.word[length]? = some b) : n.scan? length offset (b :: rest) =
    if length + 1 = n.word.size then some (offset + 1 - (length + 1))
      else n.scan? (length + 1) (offset + 1) rest := by
  rw [scan?, advance_eq, if_pos h]

theorem scan?_of_border (h : n.word[length]? ≠ some b)
    (hborder : n.table.border? length = some shorter) :
    n.scan? length offset (b :: rest) = n.scan? shorter offset (b :: rest) := by
  rw [scan?, scan?, advance_eq, if_neg h, hborder]

theorem scan?_of_no_border (h : n.word[length]? ≠ some b) (hborder : n.table.border? length = none)
    (hword : n.word.size ≠ 0) :
    n.scan? length offset (b :: rest) = n.scan? 0 (offset + 1) rest := by
  rw [scan?, advance_eq, if_neg h, hborder, if_neg hword.symm]

end scan

namespace Stage

def Within (n : Needle) : Stage → Prop
  | searching c => c.length < n.word.size ∧ c.length ≤ c.offset
  | ended _ => True

def answer (n : Needle) (text : List UInt8) : Stage → Option Nat
  | searching c => n.scan? c.length c.offset (text.drop c.offset)
  | ended found => found

def remaining (text : List UInt8) : Stage → Nat
  | searching c => 2 * (text.length - c.offset) + c.length + 1
  | ended _ => 0

end Stage

theorem border?_zero (t : BorderTable) : t.border? 0 = none :=
  Option.eq_none_iff_forall_ne_some.2 fun _ hk ↦ Nat.not_lt_zero _ (BorderTable.lt_of_border? hk)

/-- No read fails where the cursors are within their ranges. -/
theorem step_eq (h : (Stage.searching c).Within n) (hoffset : c.offset < text.length) :
    n.step text c = .ok (
      if n.word[c.length]? = some text[c.offset] then
        if c.length + 1 = n.word.size then .ended (some (c.offset + 1 - (c.length + 1)))
        else .searching ⟨c.offset + 1, c.length + 1⟩
      else match n.table.border? c.length with
        | some shorter => .searching ⟨c.offset, shorter⟩
        | none => .searching ⟨c.offset + 1, 0⟩) := by
  obtain ⟨hlength, hle⟩ := h
  have hentry : n.table.entries[c.length]? = some (n.table.border? c.length) :=
    BorderTable.getElem?_entries (n.size_table ▸ Nat.lt_succ_of_lt hlength)
  have hstart : startOf (c.offset + 1) (c.length + 1) = .ok (c.offset + 1 - (c.length + 1)) :=
    if_pos (Nat.succ_le_succ hle)
  simp only [step, if_pos hoffset, List.getElem?_eq_getElem hoffset,
    Array.getElem?_eq_getElem hlength, hentry, hstart, checked, bind, Except.bind, pure,
    Except.pure, Option.some.injEq, eq_comm (a := text[c.offset])]
  split
  · split <;> rfl
  · split
    · rename_i hzero
      rw [hzero, border?_zero]
    · cases n.table.border? c.length <;> rfl

/-- A step stays within the ranges, does not change the answer and comes nearer to the end. -/
theorem step_advances (h : (Stage.searching c).Within n) :
    ∃ stage, n.step text c = .ok stage ∧ stage.Within n ∧
      stage.answer n text = (Stage.searching c).answer n text ∧
      stage.remaining text < (Stage.searching c).remaining text := by
  by_cases hoffset : c.offset < text.length
  · have hlength : c.length < n.word.size := h.1
    have hle : c.length ≤ c.offset := h.2
    have hrest : text.drop c.offset = text[c.offset] :: text.drop (c.offset + 1) :=
      List.drop_eq_getElem_cons hoffset
    refine ⟨_, step_eq h hoffset, ?_⟩
    rw [Stage.answer, hrest]
    by_cases hmatch : n.word[c.length]? = some text[c.offset]
    · rw [if_pos hmatch, scan?_of_match hmatch]
      by_cases hdone : c.length + 1 = n.word.size
      · rw [if_pos hdone, if_pos hdone]
        exact ⟨trivial, rfl, Nat.succ_pos _⟩
      · rw [if_neg hdone, if_neg hdone]
        refine ⟨⟨?_, Nat.succ_le_succ hle⟩, rfl, ?_⟩
        · simp only; omega
        · simp only [Stage.remaining]; omega
    · rw [if_neg hmatch]
      cases hborder : n.table.border? c.length with
      | some shorter =>
        -- the only step that stays at its byte; it makes the match shorter, whatever the table says
        have hshorter := BorderTable.lt_of_border? hborder
        rw [scan?_of_border hmatch hborder, ← hrest]
        refine ⟨⟨hshorter.trans hlength, (hshorter.trans_le hle).le⟩, rfl, ?_⟩
        simp only [Stage.remaining]
        omega
      | none =>
        rw [scan?_of_no_border hmatch hborder (by omega)]
        refine ⟨⟨by simp only; omega, Nat.zero_le _⟩, rfl, ?_⟩
        simp only [Stage.remaining]
        omega
  · have hnone : (Stage.searching c).answer n text = none := by
      rw [Stage.answer, List.drop_of_length_le (Nat.le_of_not_lt hoffset), scan?]
    exact ⟨.ended none, if_neg hoffset, trivial, hnone.symm, Nat.succ_pos _⟩

theorem ends_of_within {stage : Stage} (h : stage.Within n) :
    ∃ steps ≤ stage.remaining text, n.Ends text steps stage (stage.answer n text) := by
  induction hremaining : stage.remaining text using Nat.strong_induction_on generalizing stage with
  | _ bound ih =>
    cases stage with
    | ended found => exact ⟨0, Nat.zero_le _, .ended found⟩
    | searching c =>
      obtain ⟨stage, hstep, hwithin, hanswer, hless⟩ := step_advances h
      obtain ⟨steps, hle, hends⟩ := ih _ (hremaining ▸ hless) hwithin rfl
      exact ⟨steps + 1, by omega, .step hstep (hanswer ▸ hends)⟩

theorem begin_within (n : Needle) (text : List UInt8) (start : Nat) :
    (n.begin text start).Within n := by
  unfold begin
  split
  · trivial
  · exact ⟨by simp only; omega, Nat.zero_le _⟩

theorem answer_begin (n : Needle) (text : List UInt8) (start : Nat) :
    (n.begin text start).answer n text = n.findAt? text start := by
  unfold begin findAt?
  split <;> rfl

structure SearchesWithin (n : Needle) (word : List UInt8) : Prop where
  ends : ∀ text start, ∃ steps ≤ 2 * (text.length - start) + 1,
    n.Ends text steps (n.begin text start) (n.findAt? text start)
  bounds : ∀ text start s, n.findAt? text start = some s → start ≤ s ∧ s + word.length ≤ text.length

theorem searchesWithin (hword : n.word = word.toArray) : n.SearchesWithin word where
  ends text start := by
    have hends : ∃ steps ≤ (n.begin text start).remaining text, n.Ends text steps _ _ :=
      ends_of_within (begin_within n text start)
    rw [answer_begin] at hends
    obtain ⟨steps, hle, hends⟩ := hends
    refine ⟨steps, hle.trans ?_, hends⟩
    unfold begin
    split
    · exact Nat.zero_le _
    · exact Nat.le_refl _
  bounds text start s hs := by
    have hbounds := n.bounds_of_findAt? hs
    rwa [hword, List.size_toArray] at hbounds

/-- A word can be searched with the tables of any other word of its length. -/
theorem foreignTables_searchWithin {word other : List UInt8} (h : other.length = word.length) :
    ∃ plain sharp, withTable? word (.plain other) = some plain ∧
      withTable? word (.sharp other) = some sharp ∧
      plain.SearchesWithin word ∧ sharp.SearchesWithin word := by
  have hplain : (BorderTable.plain other).size = word.toArray.size + 1 := by
    rw [BorderTable.size_plain, h, List.size_toArray]
  have hsharp : (BorderTable.sharp other).size = word.toArray.size + 1 := by
    rw [BorderTable.size_sharp, h, List.size_toArray]
  exact ⟨_, _, dif_pos hplain, dif_pos hsharp, searchesWithin rfl, searchesWithin rfl⟩

/-- With the table of `abc` the search for `aab` in `aaab` ends, but without
the occurrence that is there. -/
theorem foreignTables_miss : ([97, 98, 99] : List UInt8).length = [97, 97, 98].length ∧
    (∃ plain sharp, withTable? [97, 97, 98] (.plain [97, 98, 99]) = some plain ∧
      withTable? [97, 97, 98] (.sharp [97, 98, 99]) = some sharp ∧
      plain.SearchesWithin [97, 97, 98] ∧ sharp.SearchesWithin [97, 97, 98]) ∧
    (withTable? [97, 97, 98] (.plain [97, 98, 99])).map (·.findAt? [97, 97, 97, 98] 0) =
      some none :=
  ⟨rfl, foreignTables_searchWithin rfl, by decide +kernel⟩

end BytePatterns.Needle
