import BytePatterns.Proofs.Regex.Lowering
import Mathlib.Data.Char
import Mathlib.Order.Bounds.Basic

namespace BytePatterns

theorem checkSize_eq_error_iff {limit : Option Nat} {states : Nat} {excess : TooComplex} :
    checkSize limit states = .error excess ↔
      ∃ bound ∈ limit, bound < states ∧ excess = ⟨states, bound⟩ := by
  cases limit with
  | none => simp [checkSize]
  | some most =>
    by_cases h : states ≤ most
    · simp [checkSize, h]
    · simp [checkSize, h, Nat.lt_of_not_le h, eq_comm]

namespace Interval

variable {i : Interval Char} {intervals rest : List (Interval Char)} {c : Char}

def scalarsOf (intervals : List (Interval Char)) : Set Char :=
  {c | ∃ i ∈ intervals, i.first.toNat ≤ c.toNat ∧ c.toNat ≤ i.last.toNat}

def beyondBytes (intervals : List (Interval Char)) : Set Char :=
  {c ∈ scalarsOf intervals | 255 < c.toNat}

def whole : Interval Char := ⟨Char.ofNat 0, Char.ofNat 0x10FFFF⟩

theorem Ordered.tail (h : Ordered (i :: rest)) : Ordered rest where
  nonempty j hj := h.nonempty j (List.mem_cons_of_mem _ hj)
  apart := h.apart.of_cons

theorem Ordered.isLeast_beyondBytes (h : Ordered (i :: rest)) (hlast : 255 < i.last.toNat) :
    IsLeast (beyondBytes (i :: rest))
      (if i.first.toNat ≤ 255 then Char.ofNat 256 else i.first) := by
  have hi : i.first.toNat ≤ i.last.toNat := h.nonempty i List.mem_cons_self
  have hfirst : ∀ d ∈ beyondBytes (i :: rest), i.first.toNat ≤ d.toNat := by
    rintro d ⟨⟨j, hj, hle, -⟩, -⟩
    rcases List.mem_cons.1 hj with rfl | hj
    · exact hle
    · have hlt : i.last.toNat < j.first.toNat := (List.pairwise_cons.1 h.apart).1 j hj
      omega
  split
  · have h256 : (Char.ofNat 256).toNat = 256 := rfl
    refine ⟨⟨⟨i, List.mem_cons_self, ?_, ?_⟩, ?_⟩, fun d hd ↦ UInt32.le_iff_toNat_le.2 ?_⟩
    · omega
    · omega
    · omega
    · exact hd.2
  · refine ⟨⟨⟨i, List.mem_cons_self, Nat.le_refl _, hi⟩, by omega⟩, fun d hd ↦ ?_⟩
    exact UInt32.le_iff_toNat_le.2 (hfirst d hd)

theorem Ordered.findSome?_firstBeyond? (h : Ordered intervals) :
    intervals.findSome? firstBeyond? = some c ↔ IsLeast (beyondBytes intervals) c := by
  induction intervals with
  | nil => simp [IsLeast, beyondBytes, scalarsOf]
  | cons i rest ih =>
    rw [List.findSome?_cons]
    by_cases hlast : i.last.toNat ≤ 255
    · have hbeyond : beyondBytes (i :: rest) = beyondBytes rest := by
        refine Set.ext fun d ↦ and_congr_left fun hd ↦
          (List.exists_mem_cons_iff _ _ _).trans (or_iff_right ?_)
        omega
      rw [firstBeyond?_eq_none_iff.2 hlast, hbeyond]
      exact ih h.tail
    -- the values of the other intervals are greater
    · have hleast := h.isLeast_beyondBytes (Nat.lt_of_not_le hlast)
      rw [firstBeyond?, if_neg hlast]
      exact ⟨fun heq ↦ Option.some.inj heq ▸ hleast, fun hc ↦ congrArg some (hleast.unique hc)⟩

end Interval

inductive FirstError {α ε : Type} (fault : α → ε → Prop) : List α → ε → Prop
  | here {a : α} {l : List α} {e : ε} : fault a e → FirstError fault (a :: l) e
  | later {a : α} {l : List α} {e : ε} :
      (∀ e', ¬fault a e') → FirstError fault l e → FirstError fault (a :: l) e

namespace FirstError

variable {α ε : Type} {fault : α → ε → Prop} {a : α} {l l' : List α} {e e' : ε}

theorem cons_iff :
    FirstError fault (a :: l) e ↔ fault a e ∨ (∀ e', ¬fault a e') ∧ FirstError fault l e := by
  constructor
  · rintro (h | ⟨hnot, h⟩)
    · exact .inl h
    · exact .inr ⟨hnot, h⟩
  · rintro (h | ⟨hnot, h⟩)
    · exact .here h
    · exact .later hnot h

theorem not_nil : ¬FirstError fault [] e := fun h ↦ by cases h

theorem singleton_iff : FirstError fault [a] e ↔ fault a e := by
  rw [cons_iff, or_iff_left fun h ↦ not_nil h.2]

theorem append_iff : FirstError fault (l ++ l') e ↔
    FirstError fault l e ∨ (∀ a ∈ l, ∀ e', ¬fault a e') ∧ FirstError fault l' e := by
  induction l with
  | nil => simp [not_nil]
  | cons a l ih =>
    rw [List.cons_append, cons_iff, cons_iff, ih, List.forall_mem_cons, and_or_left, or_assoc,
      and_assoc]

theorem exists_iff : (∃ e, FirstError fault l e) ↔ ∃ a ∈ l, ∃ e, fault a e := by
  induction l with
  | nil => simp [not_nil]
  | cons a l ih =>
    simp only [cons_iff, exists_or, exists_and_left, ih, List.exists_mem_cons_iff]
    by_cases h : ∃ e, fault a e
    · exact iff_of_true (.inl h) (.inl h)
    · exact or_congr_right (and_iff_right (not_exists.1 h))

theorem unique (hfault : ∀ a e e', fault a e → fault a e' → e = e') (h : FirstError fault l e)
    (h' : FirstError fault l e') : e = e' := by
  induction h with
  | here ha =>
    rcases cons_iff.1 h' with ha' | ⟨hnot, -⟩
    · exact hfault _ _ _ ha ha'
    · exact absurd ha (hnot _)
  | later hnot _ ih =>
    rcases cons_iff.1 h' with ha' | ⟨-, hrest⟩
    · exact absurd ha' (hnot _)
    · exact ih hrest

end FirstError

def FailsWith {α β ε : Type} (fault : α → ε → Prop) (l : List α) (x : Except ε β) : Prop :=
  ∀ e, x = .error e ↔ FirstError fault l e

namespace FailsWith

variable {α β γ ε : Type} {fault : α → ε → Prop} {l l' : List α} {x : Except ε β}
  {f : β → Except ε γ}

theorem exists_iff (h : FailsWith fault l x) : (∃ e, x = .error e) ↔ ∃ a ∈ l, ∃ e, fault a e := by
  rw [← FirstError.exists_iff]
  exact exists_congr h

theorem ok {b : β} (h : ∀ a ∈ l, ∀ e, ¬fault a e) : FailsWith fault l (.ok b : Except ε β) := by
  intro e
  refine iff_of_false (fun heq ↦ by cases heq) fun hfirst ↦ ?_
  obtain ⟨a, ha, e, hfault⟩ := FirstError.exists_iff.1 ⟨e, hfirst⟩
  exact h a ha e hfault

theorem bind (hx : FailsWith fault l x) (hf : ∀ b, x = .ok b → FailsWith fault l' (f b)) :
    FailsWith fault (l ++ l') (x >>= f) := by
  intro e
  rw [FirstError.append_iff]
  cases x with
  | error e' =>
    obtain ⟨a, ha, e'', hfault⟩ := hx.exists_iff.1 ⟨e', rfl⟩
    rw [← hx e, or_iff_left fun hnone ↦ hnone.1 a ha e'' hfault]
    simp [Bind.bind, Except.bind]
  | ok b =>
    have hnot : ∀ a ∈ l, ∀ e, ¬fault a e := by
      intro a ha e hfault
      obtain ⟨e', h⟩ := hx.exists_iff.2 ⟨a, ha, e, hfault⟩
      cases h
    rw [← hx e, or_iff_right (fun heq ↦ by cases heq), and_iff_right hnot]
    exact hf b rfl e

end FailsWith

namespace Regex

mutual

def parts : Regex → List Regex
  | empty => [empty]
  | literal word => [literal word]
  | bytes intervals => [bytes intervals]
  | scalars intervals => [scalars intervals]
  | look kind => [look kind]
  | repetition least most greedy sub => sub.parts ++ [repetition least most greedy sub]
  | capture index name sub => sub.parts ++ [capture index name sub]
  | concat items => partsAll items ++ [concat items]
  | alternation branches => partsAll branches ++ [alternation branches]

def partsAll : List Regex → List Regex
  | [] => []
  | r :: rest => r.parts ++ partsAll rest

end

/-- What the part itself is refused for, when classes with one property are exempt. A repetition is
looked at only if its operand can be lowered. -/
inductive Offends (exempt : List (Interval Char) → Prop) (limit : Option Nat) :
    Regex → BuildError → Prop
  | look (kind : Look) : Offends exempt limit (.look kind) (.lookAround kind)
  | noByte : Offends exempt limit (.bytes []) .emptyClass
  | noScalar : Offends exempt limit (.scalars []) .emptyClass
  | beyond {intervals : List (Interval Char)} {c : Char} : ¬exempt intervals →
      IsLeast (Interval.beyondBytes intervals) c →
        Offends exempt limit (.scalars intervals) (.unsupportedScalar c)
  | size {least bound : Nat} {most : Option Nat} {greedy : Bool} {sub : Regex} {t : Tree} :
      sub.toTree limit = .ok t → bound ∈ limit → bound < repetitionSize least most t.stateCount →
      Offends exempt limit (.repetition least most greedy sub)
        (.tooComplex ⟨repetitionSize least most t.stateCount, bound⟩)

def IsWhole (intervals : List (Interval Char)) : Prop := intervals = [.whole]

def HoldsAll (intervals : List (Interval Char)) : Prop := ∀ c, c ∈ Interval.scalarsOf intervals

variable {exempt exempt' : List (Interval Char) → Prop} {limit : Option Nat} {r sub : Regex}
  {rs : List Regex} {e e' : BuildError} {intervals : List (Interval Char)} {most : Option Nat}
  {least : Nat} {greedy : Bool}

theorem Offends.functional (h : Offends exempt limit r e) (h' : Offends exempt limit r e') :
    e = e' := by
  cases h with
  | look =>
    cases h'
    rfl
  | noByte =>
    cases h'
    rfl
  | noScalar =>
    cases h' with
    | noScalar => rfl
    | beyond _ hleast => simp [IsLeast, Interval.beyondBytes, Interval.scalarsOf] at hleast
  | beyond _ hleast =>
    cases h' with
    | noScalar => simp [IsLeast, Interval.beyondBytes, Interval.scalarsOf] at hleast
    | beyond _ hleast' => rw [hleast.unique hleast']
  | size ht hbound _ =>
    cases h' with
    | size ht' hbound' _ =>
      obtain rfl := Except.ok.inj (ht.symm.trans ht')
      obtain rfl := Option.some.inj (hbound.symm.trans hbound')
      rfl

theorem Offends.firstError_unique (h : FirstError (Offends exempt limit) rs e)
    (h' : FirstError (Offends exempt limit) rs e') : e = e' :=
  FirstError.unique (fun _ _ _ hr hr' ↦ hr.functional hr') h h'

theorem failsWith_error {α : Type} (h : Offends exempt limit r e) :
    FailsWith (Offends exempt limit) [r] (.error e : Except BuildError α) := by
  intro e'
  rw [FirstError.singleton_iff, Except.error.injEq]
  exact ⟨fun heq ↦ heq ▸ h, h.functional⟩

theorem failsWith_ok {α : Type} {a : α} (h : ∀ e, ¬Offends exempt limit r e) :
    FailsWith (Offends exempt limit) [r] (.ok a : Except BuildError α) :=
  .ok (List.forall_mem_singleton.2 h)

def OrderedClasses (r : Regex) : Prop :=
  ∀ intervals, scalars intervals ∈ r.parts → Interval.Ordered intervals

theorem OrderedClasses.of_subset (h : r.OrderedClasses) (hsub : sub.parts ⊆ r.parts) :
    sub.OrderedClasses :=
  fun intervals hmem ↦ h intervals (hsub hmem)

theorem parts_subset_partsAll (h : r ∈ rs) : r.parts ⊆ partsAll rs := by
  induction h with
  | head => exact List.subset_append_left _ _
  | tail _ _ ih => exact List.subset_append_of_subset_right _ ih

theorem treeOfScalars_eq_error_iff :
    treeOfScalars intervals = .error e ↔
      ¬IsWhole intervals ∧ ∃ c, intervals.findSome? Interval.firstBeyond? = some c ∧
        e = .unsupportedScalar c := by
  rw [treeOfScalars]
  split
  · rename_i hwhole
    exact iff_of_false (fun heq ↦ by cases heq) fun h ↦ h.1 hwhole
  · rename_i hwhole
    rw [and_iff_right (show ¬IsWhole intervals from hwhole)]
    split
    · rename_i c hc
      simp [hc, eq_comm]
    · rename_i hnone
      simp [hnone]

theorem failsWith_scalars (h : Interval.Ordered intervals) :
    FailsWith (Offends IsWhole limit) [scalars intervals] ((scalars intervals).toTree limit) := by
  cases intervals with
  | nil =>
    rw [toTree]
    exact failsWith_error .noScalar
  | cons i rest =>
    intro e
    rw [FirstError.singleton_iff, toTree, List.isEmpty_cons, if_neg Bool.false_ne_true,
      treeOfScalars_eq_error_iff]
    simp only [h.findSome?_firstBeyond?]
    constructor
    · rintro ⟨hwhole, c, hleast, rfl⟩
      exact .beyond hwhole hleast
    · intro hoffends
      cases hoffends with
      | beyond hwhole hleast => exact ⟨hwhole, _, hleast, rfl⟩

theorem failsWith_repetition {t : Tree} (ht : sub.toTree limit = .ok t) :
    FailsWith (Offends exempt limit) [repetition least most greedy sub] (do
      (checkSize limit (repetitionSize least most t.stateCount)).mapError .tooComplex
      return repeated least most t) := by
  cases hsize : checkSize limit (repetitionSize least most t.stateCount) with
  | error excess =>
    obtain ⟨bound, hbound, hlt, rfl⟩ := checkSize_eq_error_iff.1 hsize
    exact failsWith_error (.size ht hbound hlt)
  | ok _ =>
    refine failsWith_ok fun e h ↦ ?_
    cases h with
    | size ht' hbound hlt =>
      obtain rfl := Except.ok.inj (ht.symm.trans ht')
      have herror := checkSize_eq_error_iff.2 ⟨_, hbound, hlt, rfl⟩
      cases hsize.symm.trans herror

theorem failsWith_toTrees {fault : Regex → BuildError → Prop}
    (h : ∀ r ∈ rs, FailsWith fault r.parts (r.toTree limit)) :
    FailsWith fault (partsAll rs) (toTrees limit rs) := by
  induction rs with
  | nil =>
    simp only [partsAll, toTrees]
    exact .ok (List.forall_mem_nil _)
  | cons r rest ih =>
    obtain ⟨hr, hrest⟩ := List.forall_mem_cons.1 h
    simp only [partsAll, toTrees]
    refine hr.bind fun t _ ↦ ?_
    rw [← List.append_nil (partsAll rest)]
    exact (ih hrest).bind fun ts _ ↦ .ok (List.forall_mem_nil _)

theorem failsWith_toTree (h : r.OrderedClasses) :
    FailsWith (Offends IsWhole limit) r.parts (r.toTree limit) := by
  induction r using parts_induction with
  | empty | literal =>
    simp only [parts, toTree]
    exact failsWith_ok fun _ h ↦ by cases h
  | bytes intervals =>
    cases intervals with
    | nil =>
      rw [parts, toTree]
      exact failsWith_error .noByte
    | cons i rest =>
      rw [parts, toTree]
      exact failsWith_ok fun _ h ↦ by cases h
  | scalars intervals =>
    rw [parts]
    exact failsWith_scalars (h _ (List.mem_singleton_self _))
  | look kind =>
    rw [parts, toTree]
    exact failsWith_error (.look kind)
  | repetition least most greedy sub ih =>
    have hsub := h.of_subset (List.subset_append_left sub.parts _)
    simp only [parts, toTree]
    exact (ih hsub).bind fun t ht ↦ failsWith_repetition ht
  | capture index name sub ih =>
    have hsub := h.of_subset (List.subset_append_left sub.parts _)
    simp only [parts, toTree]
    rw [← bind_pure (sub.toTree limit)]
    exact (ih hsub).bind fun t _ ↦ failsWith_ok fun _ h ↦ by cases h
  | concat items ih | alternation branches ih =>
    simp only [parts, toTree]
    refine (failsWith_toTrees fun r hr ↦ ih r hr ?_).bind fun ts _ ↦ failsWith_ok fun _ h ↦ by
      cases h
    exact h.of_subset (List.subset_append_of_subset_left _ (parts_subset_partsAll hr))

theorem Offends.mono (himp : ∀ intervals, exempt' intervals → exempt intervals)
    (h : Offends exempt limit r e) :
    Offends exempt' limit r e := by
  cases h with
  | look kind => exact .look kind
  | noByte => exact .noByte
  | noScalar => exact .noScalar
  | beyond hexempt hleast => exact .beyond (fun h ↦ hexempt (himp _ h)) hleast
  | size ht hbound hlt => exact .size ht hbound hlt

inductive Divided : Regex → Prop
  | intro {intervals : List (Interval Char)} :
      HoldsAll intervals → ¬IsWhole intervals → Divided (.scalars intervals)

/-- There is a divided class, and no member before it offends. -/
inductive DividedFirst (limit : Option Nat) : List Regex → Prop
  | here {r : Regex} {rs : List Regex} : Divided r → DividedFirst limit (r :: rs)
  | later {r : Regex} {rs : List Regex} :
      (∀ e, ¬Offends HoldsAll limit r e) → DividedFirst limit rs → DividedFirst limit (r :: rs)

/-- The expression is refused exactly if one of its parts offends, and with
the error of the first one. -/
structure FailsAtFirst (exempt : List (Interval Char) → Prop) (limit : Option Nat) (r : Regex) :
    Prop where
  refused_iff :
    (∃ e, r.toTree limit = .error e) ↔ ∃ part ∈ r.parts, ∃ e, Offends exempt limit part e
  failsWith : FailsWith (Offends exempt limit) r.parts (r.toTree limit)

theorem toNat_le (c : Char) : c.toNat ≤ 0x10FFFF := by
  have hvalid : c.toNat < 0xD800 ∨ 0xDFFF < c.toNat ∧ c.toNat < 0x110000 := c.valid
  omega

theorem IsWhole.holdsAll (h : IsWhole intervals) : HoldsAll intervals := by
  rintro c
  rw [h]
  exact ⟨_, List.mem_singleton_self _, Nat.zero_le _, toNat_le c⟩

theorem HoldsAll.isLeast (h : HoldsAll intervals) :
    IsLeast (Interval.beyondBytes intervals) (Char.ofNat 256) :=
  ⟨⟨h _, by decide⟩, fun _ hd ↦ UInt32.le_iff_toNat_le.2 hd.2⟩

theorem offends_isWhole_iff : Offends IsWhole limit r e ↔
    Offends HoldsAll limit r e ∨ Divided r ∧ e = .unsupportedScalar (Char.ofNat 256) := by
  constructor
  · intro h
    cases h with
    | look kind => exact .inl (.look kind)
    | noByte => exact .inl .noByte
    | noScalar => exact .inl .noScalar
    | @beyond intervals c hwhole hleast =>
      by_cases hall : HoldsAll intervals
      · exact .inr ⟨.intro hall hwhole, congrArg _ (hleast.unique hall.isLeast)⟩
      · exact .inl (.beyond hall hleast)
    | size ht hbound hlt => exact .inl (.size ht hbound hlt)
  · rintro (h | ⟨⟨hall, hwhole⟩, rfl⟩)
    · exact h.mono fun _ ↦ IsWhole.holdsAll
    · exact .beyond hwhole hall.isLeast

theorem DividedFirst.firstError (h : DividedFirst limit rs) :
    FirstError (Offends IsWhole limit) rs (.unsupportedScalar (Char.ofNat 256)) := by
  induction h with
  | here hdivided => exact .here (offends_isWhole_iff.2 (.inr ⟨hdivided, rfl⟩))
  | @later r _ hnot _ ih =>
    by_cases hdivided : Divided r
    · exact .here (offends_isWhole_iff.2 (.inr ⟨hdivided, rfl⟩))
    · refine .later (fun e he ↦ ?_) ih
      exact (offends_isWhole_iff.1 he).elim (hnot e) fun h ↦ hdivided h.1

theorem firstError_isWhole_iff (h : ¬DividedFirst limit rs) :
    FirstError (Offends IsWhole limit) rs e ↔ FirstError (Offends HoldsAll limit) rs e := by
  induction rs with
  | nil => exact iff_of_false FirstError.not_nil FirstError.not_nil
  | cons r rest ih =>
    have hoffends (e : BuildError) : Offends IsWhole limit r e ↔ Offends HoldsAll limit r e := by
      rw [offends_isWhole_iff]
      exact or_iff_left fun hdivided ↦ h (.here hdivided.1)
    rw [FirstError.cons_iff, FirstError.cons_iff, hoffends]
    simp only [hoffends]
    exact or_congr_right (and_congr_right fun hnot ↦ ih fun hrest ↦ h (.later hnot hrest))

theorem failsAtFirst_of_failsWith (h : FailsWith (Offends exempt limit) r.parts (r.toTree limit)) :
    FailsAtFirst exempt limit r := ⟨h.exists_iff, h⟩

/-- Lowering fails at the first part that offends, save that a class of all scalar values is not
exempt when it is divided. This makes no difference when something offends before each such class,
or when what offends first names the same value. -/
theorem failsAtFirst_iff (h : r.OrderedClasses) :
    (FailsAtFirst HoldsAll limit r ↔ (DividedFirst limit r.parts →
        FirstError (Offends HoldsAll limit) r.parts (.unsupportedScalar (Char.ofNat 256)))) ∧
      FailsAtFirst IsWhole limit r := by
  have hfails : FailsWith (Offends IsWhole limit) r.parts (r.toTree limit) := failsWith_toTree h
  refine ⟨⟨fun hfirst hdivided ↦ ?_, fun hdivided ↦ failsAtFirst_of_failsWith fun e ↦ ?_⟩,
    failsAtFirst_of_failsWith hfails⟩
  · exact (hfirst.failsWith _).1 ((hfails _).2 hdivided.firstError)
  · rw [hfails]
    by_cases hmeets : DividedFirst limit r.parts
    · constructor
      · intro hfirst
        obtain rfl := Offends.firstError_unique hfirst hmeets.firstError
        exact hdivided hmeets
      · intro hfirst
        obtain rfl := Offends.firstError_unique hfirst (hdivided hmeets)
        exact hmeets.firstError
    · exact firstError_isWhole_iff hmeets

def dividedClass : List (Interval Char) :=
  [⟨Char.ofNat 0, Char.ofNat 0xD7FF⟩, ⟨Char.ofNat 0xE000, Char.ofNat 0x10FFFF⟩]

theorem ordered_dividedClass : Interval.Ordered dividedClass where
  nonempty := by decide
  apart := by decide

theorem holdsAll_dividedClass : HoldsAll dividedClass := by
  intro c
  have hvalid : c.toNat < 0xD800 ∨ 0xDFFF < c.toNat ∧ c.toNat < 0x110000 := c.valid
  rcases hvalid with hbefore | ⟨hbehind, -⟩
  · exact ⟨_, List.mem_cons_self, Nat.zero_le _, Nat.le_of_lt_succ hbefore⟩
  · exact ⟨_, List.mem_cons_of_mem _ (List.mem_singleton_self _), hbehind, toNat_le c⟩

/-- The class holds all scalar values and is refused for one of them. -/
theorem dividedClass_refused : (scalars dividedClass).OrderedClasses ∧
    (scalars dividedClass).toTree none = .error (.unsupportedScalar (Char.ofNat 256)) ∧
      ¬FailsAtFirst HoldsAll none (scalars dividedClass) := by
  have hrefused :
      (scalars dividedClass).toTree none = .error (.unsupportedScalar (Char.ofNat 256)) := by
    rw [toTree]
    decide
  refine ⟨?_, hrefused, fun h ↦ ?_⟩
  · intro intervals hmem
    rw [parts, List.mem_singleton] at hmem
    obtain rfl := Regex.scalars.inj hmem
    exact ordered_dividedClass
  · obtain ⟨part, hmem, e, hoffends⟩ := h.refused_iff.1 ⟨_, hrefused⟩
    rw [parts, List.mem_singleton] at hmem
    subst hmem
    cases hoffends with
    | beyond hnot _ => exact hnot holdsAll_dividedClass

/-- The class behind an assertion makes no difference. -/
theorem startThenDividedClass_refused :
    (concat [look .start, scalars dividedClass]).OrderedClasses ∧
    FailsAtFirst HoldsAll none (concat [look .start, scalars dividedClass]) ∧
      (concat [look .start, scalars dividedClass]).toTree none = .error (.lookAround .start) := by
  have hparts : (concat [look .start, scalars dividedClass]).parts =
      [look .start, scalars dividedClass, concat [look .start, scalars dividedClass]] := by
    simp only [parts, partsAll, List.append_nil, List.cons_append, List.nil_append]
  have hordered : (concat [look .start, scalars dividedClass]).OrderedClasses := by
    intro intervals hmem
    obtain rfl : intervals = dividedClass := by simpa [hparts] using hmem
    exact ordered_dividedClass
  obtain ⟨hiff, -⟩ : (FailsAtFirst HoldsAll none _ ↔ _) ∧ _ := failsAtFirst_iff hordered
  have hfirst : FailsAtFirst HoldsAll none (concat [look .start, scalars dividedClass]) := by
    refine hiff.2 fun hdivided ↦ ?_
    rw [hparts] at hdivided
    cases hdivided with
    | here hlook => cases hlook
    | later hnot _ => exact absurd (.look .start) (hnot _)
  refine ⟨hordered, hfirst, (hfirst.failsWith _).2 ?_⟩
  rw [hparts]
  exact .here (.look .start)

end Regex

end BytePatterns
