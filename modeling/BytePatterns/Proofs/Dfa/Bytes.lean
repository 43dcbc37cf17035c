import BytePatterns.Proofs.Dfa.Run
import Mathlib.Data.Fintype.Card

namespace BytePatterns

def Symbol.substitute (b : UInt8) : Symbol → UInt8
  | byte value => value
  | any => b

def substituteAny (b : UInt8) (word : List Symbol) : List UInt8 := word.map (Symbol.substitute b)

theorem admits_substitute (b : UInt8) (word : List Symbol) :
    List.Forall₂ (fun x y ↦ x.admits y = true) word ((substituteAny b word).map .byte) := by
  induction word with
  | nil => exact .nil
  | cons sym word ih =>
    refine .cons ?_ ih
    cases sym <;> simp [Symbol.admits, Symbol.substitute]

/-- What words of symbols reach and tell apart, words of bytes reach and tell apart as well. -/
structure BytesSuffice (l : Language Symbol) : Prop where
  reach : ∀ u v, u ++ v ∈ l → ∃ w : List UInt8, l.leftQuotient (w.map .byte) = l.leftQuotient u
  separate : ∀ u v : List UInt8,
    (∀ w : List UInt8, u.map .byte ++ w.map .byte ∈ l ↔ v.map .byte ++ w.map .byte ∈ l) →
      l.leftQuotient (u.map .byte) = l.leftQuotient (v.map .byte)

namespace Dfa

variable {d d' : Dfa} {s t : Nat} {word : List Symbol} {b : UInt8}

structure ByteMinimal (d : Dfa) : Prop where
  reached : ∀ s < d.stateCount, ∃ w, d.run? w = some s
  apart : ∀ s < d.stateCount, ∀ t < d.stateCount, s ≠ t → ∃ w, d.acceptsFrom s w ≠ d.acceptsFrom t w
  fewest : ∀ d' : Dfa, (∀ w, d'.accepts w = d.accepts w) → d.stateCount ≤ d'.stateCount

theorem acceptsFrom_of_run? {u v : List UInt8} (h : d.run? u = some s) :
    d.acceptsFrom s v = d.accepts (u ++ v) := by
  rw [run?, runFrom?] at h
  rw [acceptsFrom, accepts, run?, runFrom?, runFrom?, List.foldlM_append, h]
  rfl

theorem lt_of_acceptsFrom {w : List UInt8} (h : d.acceptsFrom s w = true) : s < d.stateCount :=
  lt_of_mem_residual (acceptsFrom_iff.1 h)

theorem exists_run?_of_accepts {u v : List UInt8} (h : d.accepts (u ++ v) = true) :
    ∃ s, d.run? u = some s ∧ d.acceptsFrom s v = true := by
  cases hrun : d.run? u with
  | some s =>
    rw [← acceptsFrom_of_run? hrun] at h
    exact ⟨s, rfl, h⟩
  | none =>
    rw [run?, runFrom?] at hrun
    rw [accepts, run?, runFrom?, List.foldlM_append, hrun] at h
    cases h

/-- If bytes reach all states and tell them apart, every automaton for the same words
has a state for each of them. -/
theorem stateCount_le (live : ∀ s < d.stateCount, ∃ w, d.acceptsFrom s w = true)
    (reached : ∀ s < d.stateCount, ∃ w, d.run? w = some s)
    (apart : ∀ s < d.stateCount, ∀ t < d.stateCount, s ≠ t →
      ∃ w, d.acceptsFrom s w ≠ d.acceptsFrom t w)
    (heq : ∀ w, d'.accepts w = d.accepts w) : d.stateCount ≤ d'.stateCount := by
  have himage (s : Fin d.stateCount) :
      ∃ s' : Fin d'.stateCount, ∀ w, d'.acceptsFrom s' w = d.acceptsFrom s w := by
    obtain ⟨u, hu⟩ := reached s s.isLt
    obtain ⟨v, hv⟩ := live s s.isLt
    rw [acceptsFrom_of_run? hu, ← heq] at hv
    obtain ⟨s', hs', haccept⟩ := exists_run?_of_accepts hv
    refine ⟨⟨s', lt_of_acceptsFrom haccept⟩, ?_⟩
    intro w
    rw [acceptsFrom_of_run? hs', heq, ← acceptsFrom_of_run? hu]
  choose image himage using himage
  have hinj : Function.Injective image := by
    intro s t hst
    by_contra hne
    obtain ⟨w, hw⟩ := apart s s.isLt t t.isLt (Fin.val_ne_of_ne hne)
    exact hw (by rw [← himage s, hst, himage t])
  simpa using Fintype.card_le_of_injective image hinj

theorem leftQuotient_of_run? {w : List UInt8} (h : d.run? w = some s) :
    d.symbolLanguage.leftQuotient (w.map .byte) = d.residual s := by
  refine leftQuotient_symbolLanguage ?_
  rwa [run?, runFrom?_eq] at h

theorem acceptsFrom_of_run?_iff {u w : List UInt8} (h : d.run? u = some s) :
    d.acceptsFrom s w = true ↔ u.map .byte ++ w.map .byte ∈ d.symbolLanguage := by
  rw [acceptsFrom_iff, ← leftQuotient_of_run? h]
  exact Iff.rfl

theorem exists_run?_of_mem {u : List UInt8} {v : List Symbol}
    (h : u.map .byte ++ v ∈ d.symbolLanguage) :
    ∃ s, d.run? u = some s := by
  obtain ⟨s, hs⟩ := walk?_isSome_of_mem (d := d) (u := u.map .byte) (v := v) h
  exact ⟨s, by rwa [run?, runFrom?_eq]⟩

theorem WellFormed.run?_lt (h : d.WellFormed) {w : List UInt8} (hs : d.run? w = some s) :
    s < d.stateCount := by
  rw [run?, runFrom?_eq] at hs
  exact h.walk?_lt hs

theorem ByteMinimal.bytesSuffice (h : d.ByteMinimal) (htrim : d.Trim)
    (live : ∀ s < d.stateCount, ∃ w, d.acceptsFrom s w = true) : BytesSuffice d.symbolLanguage where
  reach u v huv := by
    obtain ⟨s, hs⟩ := walk?_isSome_of_mem (u := u) huv
    obtain ⟨w, hw⟩ := h.reached s (htrim.walk?_lt hs)
    exact ⟨w, (leftQuotient_of_run? hw).trans (leftQuotient_symbolLanguage hs).symm⟩
  separate u v hagree := by
    have hsubset {u v : List UInt8}
        (hagree : ∀ w : List UInt8, u.map .byte ++ w.map .byte ∈ d.symbolLanguage ↔
        v.map .byte ++ w.map .byte ∈ d.symbolLanguage) (x : List Symbol)
        (hx : u.map .byte ++ x ∈ d.symbolLanguage) : v.map .byte ++ x ∈ d.symbolLanguage := by
      obtain ⟨s, hs⟩ := exists_run?_of_mem hx
      obtain ⟨w, hw⟩ := live s (htrim.run?_lt hs)
      rw [acceptsFrom_of_run?_iff hs, hagree] at hw
      obtain ⟨t, ht⟩ := exists_run?_of_mem hw
      have hst : s = t := by
        by_contra hne
        obtain ⟨w, hw⟩ := h.apart s (htrim.run?_lt hs) t (htrim.run?_lt ht) hne
        refine hw (Bool.eq_iff_iff.2 ?_)
        rw [acceptsFrom_of_run?_iff hs, hagree, acceptsFrom_of_run?_iff ht]
      rw [← Language.mem_leftQuotient, leftQuotient_of_run? ht, ← hst, ← leftQuotient_of_run? hs]
      exact hx
    ext x
    exact ⟨hsubset hagree x, hsubset (fun w ↦ (hagree w).symm) x⟩

theorem Reduced.byteMinimal (h : d.Reduced)
    (live : ∀ s < d.stateCount, ∃ w, d.acceptsFrom s w = true)
    (hbytes : BytesSuffice d.symbolLanguage) : d.ByteMinimal := by
  have reached : ∀ s < d.stateCount, ∃ w, d.run? w = some s := by
    intro s hs
    obtain ⟨u, -, hu⟩ := h.reached s hs
    obtain ⟨v, hv⟩ := h.live s hs
    rw [← leftQuotient_symbolLanguage hu] at hv
    obtain ⟨w, hw⟩ := hbytes.reach u v hv
    obtain ⟨t, ht⟩ := exists_run?_of_mem (hw ▸ hv : v ∈ d.symbolLanguage.leftQuotient (w.map .byte))
    rw [leftQuotient_of_run? ht, leftQuotient_symbolLanguage hu] at hw
    exact ⟨w, h.injective t (h.run?_lt ht) s hs hw ▸ ht⟩
  have apart : ∀ s < d.stateCount, ∀ t < d.stateCount, s ≠ t →
      ∃ w, d.acceptsFrom s w ≠ d.acceptsFrom t w := by
    intro s hs t ht hne
    by_contra! hagree
    obtain ⟨u, hu⟩ := reached s hs
    obtain ⟨v, hv⟩ := reached t ht
    have heq := hbytes.separate u v fun w ↦ by
      rw [← acceptsFrom_of_run?_iff hu, ← acceptsFrom_of_run?_iff hv, hagree]
    rw [leftQuotient_of_run? hu, leftQuotient_of_run? hv] at heq
    exact hne (h.injective s hs t ht heq)
  exact ⟨reached, apart, fun d' heq ↦ stateCount_le live reached apart heq⟩

theorem WellFormed.walkFrom?_substitute (h : d.WellFormed) (hb : .byte b ∉ d.alphabet) (s : Nat)
    (word : List Symbol) :
    d.walkFrom? s ((substituteAny b word).map .byte) = d.walkFrom? s word := by
  induction word generalizing s with
  | nil => rfl
  | cons sym word ih =>
    have hsym : d.follow? s (.byte (sym.substitute b)) = d.follow? s sym := by
      cases sym with
      | byte value => rfl
      | any => exact h.follow?_of_not_mem hb s
    rw [substituteAny, List.map_cons, List.map_cons, walkFrom?_cons, walkFrom?_cons, hsym]
    exact congrArg _ (funext fun t ↦ ih t)

theorem WellFormed.exists_bytes (h : d.WellFormed) (hany : .any ∉ d.alphabet)
    (hwalk : d.walkFrom? s word = some t) :
    ∃ w : List UInt8, w.map .byte = word := by
  induction word generalizing s with
  | nil => exact ⟨[], rfl⟩
  | cons sym word ih =>
    rw [walkFrom?_cons, Option.bind_eq_some_iff] at hwalk
    obtain ⟨r, hr, hrest⟩ := hwalk
    obtain ⟨w, rfl⟩ := ih hrest
    cases sym with
    | byte value => exact ⟨value :: w, rfl⟩
    | any =>
      rw [h.follow?_any_of_not_mem hany] at hr
      cases hr

theorem WellFormed.substitute_append_mem (h : d.WellFormed) (hb : .byte b ∉ d.alphabet)
    {u v : List Symbol} :
    (substituteAny b u).map .byte ++ v ∈ d.symbolLanguage ↔ u ++ v ∈ d.symbolLanguage := by
  simp only [symbolLanguage, mem_residual, walkFrom?_append, h.walkFrom?_substitute hb]

theorem WellFormed.append_substitute_mem (h : d.WellFormed) (hb : .byte b ∉ d.alphabet)
    {u v : List Symbol} :
    u ++ (substituteAny b v).map .byte ∈ d.symbolLanguage ↔ u ++ v ∈ d.symbolLanguage := by
  simp only [symbolLanguage, mem_residual, walkFrom?_append, h.walkFrom?_substitute hb]

/-- Bytes suffice unless the alphabet holds `any` and all bytes. -/
theorem WellFormed.bytesSuffice (h : d.WellFormed)
    (hsym : .any ∉ d.alphabet ∨ ∃ b, .byte b ∉ d.alphabet) :
    BytesSuffice d.symbolLanguage := by
  rcases hsym with hany | ⟨b, hb⟩
  · have hbytes {u v : List Symbol} (huv : u ++ v ∈ d.symbolLanguage) :
        (∃ w : List UInt8, w.map .byte = u) ∧ ∃ w : List UInt8, w.map .byte = v := by
      obtain ⟨t, ht, -⟩ := mem_residual.1 huv
      obtain ⟨w, hw⟩ := h.exists_bytes hany ht
      obtain ⟨w, w', rfl, rfl, rfl⟩ := List.map_eq_append_iff.1 hw
      exact ⟨⟨w, rfl⟩, w', rfl⟩
    constructor
    · intro u v huv
      obtain ⟨w, rfl⟩ := (hbytes huv).1
      exact ⟨w, rfl⟩
    · intro u v hagree
      ext x
      constructor
      · intro hx
        obtain ⟨w, rfl⟩ := (hbytes hx).2
        exact (hagree w).1 hx
      · intro hx
        obtain ⟨w, rfl⟩ := (hbytes hx).2
        exact (hagree w).2 hx
  · constructor
    · intro u _ _
      refine ⟨substituteAny b u, ?_⟩
      ext x
      exact h.substitute_append_mem hb
    · intro u v hagree
      ext x
      rw [Language.mem_leftQuotient, Language.mem_leftQuotient, ← h.append_substitute_mem hb,
        hagree, h.append_substitute_mem hb]

end Dfa

end BytePatterns
