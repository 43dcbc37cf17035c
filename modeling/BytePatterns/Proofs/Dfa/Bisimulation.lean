import BytePatterns.Proofs.Dfa.Quotient

namespace BytePatterns.Dfa

variable {d : Dfa} {word : List UInt8} {i : Nat}

def StuckAt (d : Dfa) (word : List UInt8) (i : Nat) : Prop :=
  ∃ s b, d.run? (word.take i) = some s ∧ word[i]? = some b ∧ d.next? s b = none

/-- Two runs on a word that get stuck at the same byte, or end in states that accept alike. -/
structure ReadAlike (d d' : Dfa) (word : List UInt8) : Prop where
  stuckAt_iff : ∀ i, d.StuckAt word i ↔ d'.StuckAt word i
  reached : Option.Rel (fun s t ↦ d.isAccepting s = d'.isAccepting t) (d.run? word) (d'.run? word)
  accepts_eq : d.accepts word = d'.accepts word

theorem WellFormed.run_rel_minimize (h : d.WellFormed) (word : List UInt8) :
    Option.Rel (fun s k ↦ s ∈ d.blockMembers k) (d.run? word) (d.minimize.run? word) := by
  rw [run?, run?, runFrom?_eq, runFrom?_eq]
  exact h.walk_rel_minimize _

theorem WellFormed.stuckAt_minimize_iff (h : d.WellFormed) :
    d.StuckAt word i ↔ d.minimize.StuckAt word i := by
  have hrun := h.run_rel_minimize (word.take i)
  refine ⟨fun h' ↦ ?_, fun h' ↦ ?_⟩
  · obtain ⟨s, b, hs, hb, hnext⟩ := h'
    obtain ⟨k, hk, hlt, hnode⟩ := exists_right_of_rel hrun hs
    have hstep := h.follow_rel_minimize hlt hnode (.byte b)
    exact ⟨k, b, hk, hb, (eq_none_iff_of_rel hstep).1 hnext⟩
  · obtain ⟨k, b, hk, hb, hnext⟩ := h'
    obtain ⟨s, hs, hlt, hnode⟩ := exists_left_of_rel hrun hk
    have hstep := h.follow_rel_minimize hlt hnode (.byte b)
    exact ⟨s, b, hs, hb, (eq_none_iff_of_rel hstep).2 hnext⟩

/-- Minimization changes neither where a run gets stuck nor whether it ends in an accepting
state. -/
theorem WellFormed.readAlike_minimize (h : d.WellFormed) (word : List UInt8) :
    d.ReadAlike d.minimize word := by
  have hreached : Option.Rel (fun s k ↦ d.isAccepting s = d.minimize.isAccepting k)
      (d.run? word) (d.minimize.run? word) := by
    refine rel_mono (h.run_rel_minimize word) ?_
    rintro s k ⟨hs, hk⟩
    exact h.isAccepting_minimize hs hk
  exact ⟨fun _ ↦ h.stuckAt_minimize_iff, hreached, any_eq_of_rel hreached⟩

def deadAndUnreached : Dfa where
  start := 0
  states := #[⟨false, ⟨[(.byte 97, 1), (.any, 2)], by decide⟩⟩, ⟨true, .empty⟩,
    ⟨false, .single .any 2⟩, ⟨true, .single (.byte 97) 1⟩]
  alphabet := .ofList [.byte 97, .any]

theorem readAlike_minimize_deadAndUnreached :
    deadAndUnreached.WellFormed ∧ deadAndUnreached.ReadAlike deadAndUnreached.minimize [97, 98] :=
  ⟨by decide, WellFormed.readAlike_minimize (by decide) [97, 98]⟩

end BytePatterns.Dfa
