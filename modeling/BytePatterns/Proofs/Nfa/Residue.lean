import BytePatterns.Proofs.Nfa.Fragment
import BytePatterns.Proofs.Tree.Symbolic

namespace BytePatterns

open scoped Computability

namespace Nfa

variable {n : Nfa} {s t : Nat}

/-- Every move out of a state leads to a language that begins the language of the state. -/
def Respects (n : Nfa) (languages : Nat → Language Symbol) (s : Nat) : Prop :=
  (∀ t ∈ n.epsilons s, ∀ word ∈ languages t, word ∈ languages s) ∧
    ∀ sym, ∀ t ∈ n.step s sym, ∀ word ∈ languages t, sym :: word ∈ languages s

theorem Path.append_mem {languages : Nat → Language Symbol} (h : ∀ s, n.Respects languages s)
    {word rest : List Symbol} (path : n.Path s word t) (hrest : rest ∈ languages t) :
    word ++ rest ∈ languages s := by
  induction path with
  | nil => exact hrest
  | epsilon hmove _ ih => exact (h _).1 _ hmove _ (ih hrest)
  | edge hmove _ ih => exact (h _).2 _ _ hmove _ (ih hrest)

/-- A path from `s` to `t` reads the word up to some word of `rest`. -/
def Leads (n : Nfa) (s t : Nat) (rest : Language Symbol) (word : List Symbol) : Prop :=
  ∃ u, ∃ v ∈ rest, n.Path s u t ∧ u ++ v = word

section Leads

variable {r : Nat} {rest rest' : Language Symbol} {word : List Symbol}

theorem Leads.refl (s : Nat) (h : word ∈ rest) : n.Leads s s rest word := ⟨[], word, h, .nil s, rfl⟩

theorem Leads.epsilon (hmove : t ∈ n.epsilons s) (h : n.Leads t r rest word) :
    n.Leads s r rest word := by
  obtain ⟨u, v, hv, hpath, rfl⟩ := h
  exact ⟨u, v, hv, .epsilon hmove hpath, rfl⟩

theorem Leads.trans (h : n.Leads s t rest word) (h' : ∀ v ∈ rest, n.Leads t r rest' v) :
    n.Leads s r rest' word := by
  obtain ⟨u, v, hv, hpath, rfl⟩ := h
  obtain ⟨u', v', hv', hpath', rfl⟩ := h' v hv
  exact ⟨u ++ u', v', hv', hpath.trans hpath', List.append_assoc _ _ _⟩

end Leads

end Nfa

namespace Tree

open Nfa

/-- The words that lead from a state of the fragment to its end and then on by a word of `rest`. -/
def residue : Tree → (base : Nat) → (rest : Language Symbol) → Nat → Language Symbol
  | concat first second, base, rest, s =>
    let middle := base + first.stateCount
    if s < middle then first.residue base (second.symbolLanguage * rest) s
    else second.residue middle rest s
  | altern first second, base, rest, s =>
    let middle := base + first.stateCount
    let top := middle + second.stateCount
    if s < middle then first.residue base rest s
    else if s < top then second.residue middle rest s
    else if s = top then (first.symbolLanguage + second.symbolLanguage) * rest
    else rest
  | star sub, base, rest, s =>
    let top := base + sub.stateCount
    if s < top then sub.residue base (sub.symbolLanguage∗ * rest) s
    else if s = top then sub.symbolLanguage∗ * rest
    else rest
  | any, base, rest, s => if s = base then symbolLanguage any * rest else rest
  | byte value, base, rest, s => if s = base then symbolLanguage (byte value) * rest else rest
  | empty, base, rest, s => if s = base then symbolLanguage empty * rest else rest

section residue

variable {first second sub : Tree} {base s : Nat} {rest : Language Symbol}

theorem altern_state_cases (hs : s < base + (altern first second).stateCount) :
    s < base + first.stateCount ∨
      base + first.stateCount ≤ s ∧ s < base + first.stateCount + second.stateCount ∨
      s = base + first.stateCount + second.stateCount ∨
      s = base + first.stateCount + second.stateCount + 1 := by
  simp only [stateCount] at hs
  omega

theorem star_state_cases (hs : s < base + (star sub).stateCount) :
    s < base + sub.stateCount ∨ s = base + sub.stateCount ∨ s = base + sub.stateCount + 1 := by
  simp only [stateCount] at hs
  omega

theorem residue_concat_first (h : s < base + first.stateCount) :
    (concat first second).residue base rest s =
      first.residue base (second.symbolLanguage * rest) s := if_pos h

theorem residue_concat_second (h : base + first.stateCount ≤ s) :
    (concat first second).residue base rest s = second.residue (base + first.stateCount) rest s :=
  if_neg (Nat.not_lt.2 h)

theorem residue_altern_first (h : s < base + first.stateCount) :
    (altern first second).residue base rest s = first.residue base rest s := if_pos h

theorem residue_altern_second (h : base + first.stateCount ≤ s)
    (hs : s < base + first.stateCount + second.stateCount) :
    (altern first second).residue base rest s = second.residue (base + first.stateCount) rest s :=
  (if_neg (Nat.not_lt.2 h)).trans (if_pos hs)

theorem residue_altern_start (h : s = base + first.stateCount + second.stateCount) :
    (altern first second).residue base rest s =
      (first.symbolLanguage + second.symbolLanguage) * rest :=
  (if_neg (by omega)).trans ((if_neg (by omega)).trans (if_pos h))

theorem residue_altern_accept (h : s = base + first.stateCount + second.stateCount + 1) :
    (altern first second).residue base rest s = rest :=
  (if_neg (by omega)).trans ((if_neg (by omega)).trans (if_neg (by omega)))

theorem residue_star_sub (h : s < base + sub.stateCount) :
    (star sub).residue base rest s = sub.residue base (sub.symbolLanguage∗ * rest) s := if_pos h

theorem residue_star_start (h : s = base + sub.stateCount) :
    (star sub).residue base rest s = sub.symbolLanguage∗ * rest :=
  (if_neg (by omega)).trans (if_pos h)

theorem residue_star_accept (h : s = base + sub.stateCount + 1) :
    (star sub).residue base rest s = rest := (if_neg (by omega)).trans (if_neg (by omega))

theorem exists_mem_residue {t : Tree} (h : ∃ word, word ∈ rest) :
    ∃ word, word ∈ t.residue base rest s := by
  have prepend {l : Language Symbol} (hl : ∃ u, u ∈ l) {rest : Language Symbol}
      (h : ∃ word, word ∈ rest) :
      ∃ word, word ∈ l * rest := by
    obtain ⟨u, hu⟩ := hl
    obtain ⟨v, hv⟩ := h
    exact ⟨u ++ v, Language.append_mem_mul hu hv⟩
  induction t generalizing base rest with
  | concat first second ihf ihs =>
    rw [residue]
    split
    · exact ihf (prepend second.exists_mem_symbolLanguage h)
    · exact ihs h
  | altern first second ihf ihs =>
    rw [residue]
    split_ifs
    · exact ihf h
    · exact ihs h
    · exact prepend (altern first second).exists_mem_symbolLanguage h
    · exact h
  | star sub ih =>
    have hstar := (star sub).exists_mem_symbolLanguage
    rw [residue]
    split_ifs
    · exact ih (prepend hstar h)
    · exact prepend hstar h
    · exact h
  | any | byte _ | empty =>
    rw [residue]
    split
    · exact prepend (exists_mem_symbolLanguage _) h
    · exact h

end residue

section ends

variable (t : Tree) (base : Nat)

theorem residue_start (rest : Language Symbol) :
    t.residue base rest (t.start base) = t.symbolLanguage * rest := by
  induction t generalizing base rest with
  | concat first second ihf ihs =>
    rw [start, residue_concat_first (first.start_bounds base).2, ihf, symbolLanguage, mul_assoc]
  | altern first second ihf ihs => exact residue_altern_start rfl
  | star sub ih => exact residue_star_start rfl
  | any | byte _ | empty => exact if_pos rfl

theorem residue_accept (rest : Language Symbol) : t.residue base rest (t.accept base) = rest := by
  induction t generalizing base rest with
  | concat first second ihf ihs =>
    rw [accept, residue_concat_second (second.accept_bounds _).1, ihs]
  | altern first second ihf ihs => exact residue_altern_accept rfl
  | star sub ih => exact residue_star_accept rfl
  | any | byte _ | empty => exact if_neg (Nat.succ_ne_self base)

end ends

section respects

variable {t first second sub : Tree} {base : Nat} {exits : List Nat} {n : Nfa}
  {languages : Nat → Language Symbol} {rest : Language Symbol} {s : Nat}

def Assigns (languages : Nat → Language Symbol) (t : Tree) (base : Nat) (rest : Language Symbol) :
    Prop :=
  ∀ s, base ≤ s → s < base + t.stateCount → languages s = t.residue base rest s

theorem Assigns.start (h : Assigns languages t base rest) :
    languages (t.start base) = t.symbolLanguage * rest := by
  rw [h _ (t.start_bounds base).1 (t.start_bounds base).2, residue_start]

theorem Assigns.accept (h : Assigns languages t base rest) : languages (t.accept base) = rest := by
  rw [h _ (t.accept_bounds base).1 (t.accept_bounds base).2, residue_accept]

theorem Assigns.concat (h : Assigns languages (concat first second) base rest) :
    Assigns languages first base (second.symbolLanguage * rest) ∧
      Assigns languages second (base + first.stateCount) rest := by
  simp only [Assigns, stateCount] at h ⊢
  refine ⟨?_, ?_⟩
  · intro s hs hlt
    rw [h s hs (by omega), residue_concat_first hlt]
  · intro s hs hlt
    rw [h s (by omega) (by omega), residue_concat_second hs]

theorem Assigns.altern (h : Assigns languages (altern first second) base rest) :
    Assigns languages first base rest ∧
      Assigns languages second (base + first.stateCount) rest := by
  simp only [Assigns, stateCount] at h ⊢
  refine ⟨?_, ?_⟩
  · intro s hs hlt
    rw [h s hs (by omega), residue_altern_first hlt]
  · intro s hs hlt
    rw [h s (by omega) (by omega), residue_altern_second hs hlt]

theorem Assigns.star (h : Assigns languages (star sub) base rest) :
    Assigns languages sub base (sub.symbolLanguage∗ * rest) := by
  simp only [Assigns, stateCount] at h ⊢
  intro s hs hlt
  rw [h s hs (by omega), residue_star_sub hlt]

def Exits (languages : Nat → Language Symbol) (exits : List Nat) (rest : Language Symbol) : Prop :=
  ∀ e ∈ exits, ∀ word ∈ languages e, word ∈ rest

theorem Assigns.exits_start (h : Assigns languages t base rest) :
    Exits languages [t.start base] (t.symbolLanguage * rest) := by
  intro e he word hword
  rwa [List.mem_singleton.1 he, h.start] at hword

theorem Assigns.exits_accept (h : Assigns languages t base rest) :
    Exits languages [t.accept base] rest := by
  intro e he word hword
  rwa [List.mem_singleton.1 he, h.accept] at hword

theorem Assigns.exits_star (h : Assigns languages (.star sub) base rest) :
    Exits languages [sub.start base, (Tree.star sub).accept base] (sub.symbolLanguage∗ * rest) := by
  have hstar :
      sub.symbolLanguage∗ * rest = rest + sub.symbolLanguage * (sub.symbolLanguage∗ * rest) := by
    conv_lhs => rw [← Language.one_add_self_mul_kstar_eq_kstar, add_mul, one_mul, mul_assoc]
  intro e he word hword
  rw [hstar]
  rcases List.mem_cons.1 he with rfl | he
  · rw [h.star.start] at hword
    exact .inr hword
  · rw [List.mem_singleton.1 he, h.accept] at hword
    exact .inl hword

theorem respects_of_empty {moves : List Nat} (h : n.states[s]? = some ⟨.empty, moves⟩)
    (hmoves : Exits languages moves (languages s)) : n.Respects languages s := by
  refine ⟨?_, ?_⟩
  · intro t ht
    rw [epsilons_of_getElem? h] at ht
    exact hmoves t ht
  · intro sym t ht
    simp [step_of_empty h] at ht

theorem respects_of_single {label : Symbol} {target : Nat}
    (h : n.states[s]? = some ⟨.single label target, []⟩)
    (hstep : ∀ sym, label.admits sym → ∀ word ∈ languages target, sym :: word ∈ languages s) :
    n.Respects languages s := by
  refine ⟨?_, ?_⟩
  · intro t ht
    simp [epsilons_of_getElem? h] at ht
  · intro sym t ht
    obtain ⟨hadmits, rfl⟩ := (mem_step_single h).1 ht
    exact hstep sym hadmits

def RespectsIn (n : Nfa) (languages : Nat → Language Symbol) (t : Tree) (base : Nat) : Prop :=
  ∀ s, base ≤ s → s < base + t.stateCount → n.Respects languages s

theorem respects_concat (hf : RespectsIn n languages first base)
    (hs : RespectsIn n languages second (base + first.stateCount)) :
    RespectsIn n languages (concat first second) base := by
  intro s hbase hlt
  rw [stateCount, ← Nat.add_assoc] at hlt
  rcases Nat.lt_or_ge s (base + first.stateCount) with h | h
  · exact hf s hbase h
  · exact hs s h hlt

theorem respects_altern (holds : n.Holds base ((altern first second).fragment base exits))
    (assigns : Assigns languages (altern first second) base rest)
    (hexits : Exits languages exits rest) (hf : RespectsIn n languages first base)
    (hs : RespectsIn n languages second (base + first.stateCount)) :
    RespectsIn n languages (altern first second) base := by
  obtain ⟨-, -, htop, hend⟩ := holds_altern holds
  obtain ⟨assignsf, assignss⟩ := assigns.altern
  have hstart := assigns.start
  have haccept := assigns.accept
  simp only [start, accept, symbolLanguage] at hstart haccept
  intro s hbase hlt
  rcases altern_state_cases hlt with h | ⟨h, h'⟩ | rfl | rfl
  · exact hf s hbase h
  · exact hs s h h'
  · apply respects_of_empty htop
    intro e he word hword
    rw [hstart, add_mul]
    rcases List.mem_cons.1 he with rfl | he
    · rw [assignsf.start] at hword
      exact .inl hword
    · rw [List.mem_singleton.1 he, assignss.start] at hword
      exact .inr hword
  · exact respects_of_empty hend (haccept ▸ hexits)

theorem respects_star (holds : n.Holds base ((star sub).fragment base exits))
    (assigns : Assigns languages (star sub) base rest) (hexits : Exits languages exits rest)
    (hsub : RespectsIn n languages sub base) : RespectsIn n languages (star sub) base := by
  obtain ⟨-, htop, hend⟩ := holds_star holds
  have hstart := assigns.start
  have haccept := assigns.accept
  simp only [start, accept, symbolLanguage] at hstart haccept
  intro s hbase hlt
  rcases star_state_cases hlt with h | rfl | rfl
  · exact hsub s hbase h
  · exact respects_of_empty htop (hstart ▸ assigns.exits_star)
  · exact respects_of_empty hend (haccept ▸ hexits)

/-- A fragment of two states whose start state reads one symbol. -/
theorem respects_leaf {label : Symbol} {l : Language Symbol}
    (holds : n.Holds base [⟨.single label (base + 1), []⟩, ⟨.empty, exits⟩])
    (hstart : languages base = l * rest) (haccept : languages (base + 1) = rest)
    (hexits : Exits languages exits rest) (hl : ∀ sym, label.admits sym → [sym] ∈ l)
    (hbase : base ≤ s) (hs : s < base + 2) : n.Respects languages s := by
  obtain rfl | rfl : s = base ∨ s = base + 1 := by omega
  · apply respects_of_single holds.first
    intro sym hadmits word hword
    rw [haccept] at hword
    exact hstart ▸ Language.append_mem_mul (hl sym hadmits) hword
  · exact respects_of_empty holds.second (haccept ▸ hexits)

/-- Moves inside a fragment respect the languages of its states, if its exits do. -/
theorem respects_of_assigns (holds : n.Holds base (t.fragment base exits))
    (assigns : Assigns languages t base rest) (hexits : Exits languages exits rest) :
    RespectsIn n languages t base := by
  induction t generalizing base exits rest with
  | concat first second ihf ihs =>
    obtain ⟨hfirst, hsecond⟩ := holds_concat holds
    obtain ⟨assignsf, assignss⟩ := assigns.concat
    exact respects_concat (ihf hfirst assignsf assignss.exits_start) (ihs hsecond assignss hexits)
  | altern first second ihf ihs =>
    obtain ⟨hfirst, hsecond, -⟩ := holds_altern holds
    obtain ⟨assignsf, assignss⟩ := assigns.altern
    exact respects_altern holds assigns hexits (ihf hfirst assignsf assigns.exits_accept)
      (ihs hsecond assignss assigns.exits_accept)
  | star sub ih =>
    obtain ⟨hsub, -⟩ := holds_star holds
    exact respects_star holds assigns hexits (ih hsub assigns.star assigns.exits_star)
  | any =>
    intro s
    exact respects_leaf holds assigns.start assigns.accept hexits fun sym _ ↦ ⟨sym, rfl⟩
  | byte value =>
    intro s
    apply respects_leaf holds assigns.start assigns.accept hexits
    intro sym hadmits
    have hsym : Symbol.byte value = sym := by simpa [Symbol.admits] using hadmits
    exact hsym ▸ rfl
  | empty =>
    have hstart := assigns.start
    have haccept := assigns.accept
    simp only [start, accept, symbolLanguage, one_mul] at hstart haccept
    intro s hbase hs
    simp only [stateCount] at hs
    obtain rfl | rfl : s = base ∨ s = base + 1 := by omega
    · exact respects_of_empty holds.first (by simp [Exits, hstart, haccept])
    · exact respects_of_empty holds.second (haccept ▸ hexits)

end respects

section paths

variable {t first second sub : Tree} {base : Nat} {exits : List Nat} {n : Nfa}
  {rest : Language Symbol} {s : Nat}

def LeadsIn (n : Nfa) (t : Tree) (base : Nat) (rest : Language Symbol) : Prop :=
  ∀ s, base ≤ s → s < base + t.stateCount →
    ∀ word ∈ t.residue base rest s, n.Leads s (t.accept base) rest word

theorem LeadsIn.start (h : LeadsIn n t base rest) {word : List Symbol}
    (hword : word ∈ t.symbolLanguage * rest) :
    n.Leads (t.start base) (t.accept base) rest word := by
  rw [← residue_start] at hword
  exact h _ (t.start_bounds base).1 (t.start_bounds base).2 word hword

theorem leads_concat (holds : n.Holds base ((concat first second).fragment base exits))
    (hf : LeadsIn n first base (second.symbolLanguage * rest))
    (hs : LeadsIn n second (base + first.stateCount) rest) :
    LeadsIn n (concat first second) base rest := by
  obtain ⟨hfirst, -⟩ := holds_concat holds
  intro s hbase hlt word hword
  rw [stateCount, ← Nat.add_assoc] at hlt
  rcases Nat.lt_or_ge s (base + first.stateCount) with h | h
  · rw [residue_concat_first h] at hword
    apply (hf s hbase h word hword).trans
    intro v hv
    exact .epsilon (by simp [epsilons_accept hfirst]) (hs.start hv)
  · rw [residue_concat_second h] at hword
    exact hs s h hlt word hword

theorem leads_altern (holds : n.Holds base ((altern first second).fragment base exits))
    (hf : LeadsIn n first base rest) (hs : LeadsIn n second (base + first.stateCount) rest) :
    LeadsIn n (altern first second) base rest := by
  obtain ⟨hfirst, hsecond, htop, -⟩ := holds_altern holds
  have throughFirst {s : Nat} {word : List Symbol} (h : n.Leads s (first.accept base) rest word) :
      n.Leads s ((altern first second).accept base) rest word :=
    h.trans fun v hv ↦ .epsilon (by simp [epsilons_accept hfirst, accept]) (.refl _ hv)
  have throughSecond {s : Nat} {word : List Symbol}
      (h : n.Leads s (second.accept (base + first.stateCount)) rest word) :
      n.Leads s ((altern first second).accept base) rest word :=
    h.trans fun v hv ↦ .epsilon (by simp [epsilons_accept hsecond, accept]) (.refl _ hv)
  intro s hbase hlt word hword
  rcases altern_state_cases hlt with h | ⟨h, h'⟩ | rfl | rfl
  · exact throughFirst (hf s hbase h word (residue_altern_first h ▸ hword))
  · exact throughSecond (hs s h h' word (residue_altern_second h h' ▸ hword))
  · rw [residue_altern_start rfl, add_mul] at hword
    rcases hword with hword | hword
    · exact .epsilon (by simp [epsilons_of_getElem? htop]) (throughFirst (hf.start hword))
    · exact .epsilon (by simp [epsilons_of_getElem? htop]) (throughSecond (hs.start hword))
  · rw [residue_altern_accept rfl] at hword
    exact .refl _ hword

/-- Whatever can enter the operand of a star or leave the star reads its pieces one by one. -/
theorem path_flatten {first last final : Nat} {pieces : List (List Symbol)}
    (hlast : n.epsilons last = [first, final]) (hpieces : ∀ y ∈ pieces, n.Path first y last)
    (hs : n.epsilons s = [first, final]) : n.Path s pieces.flatten final := by
  induction pieces generalizing s with
  | nil => exact .epsilon (by simp [hs]) (.nil _)
  | cons y pieces ih =>
    refine .epsilon (by simp [hs] : first ∈ n.epsilons s) ?_
    exact (hpieces y List.mem_cons_self).trans
      (ih (fun z hz ↦ hpieces z (List.mem_cons_of_mem _ hz)) hlast)

theorem leads_star (holds : n.Holds base ((star sub).fragment base exits))
    (hsub : ∀ rest, LeadsIn n sub base rest) : LeadsIn n (star sub) base rest := by
  obtain ⟨hholds, htop, -⟩ := holds_star holds
  have hpiece (y : List Symbol) (hy : y ∈ sub.symbolLanguage) :
      n.Path (sub.start base) y (sub.accept base) := by
    rw [← mul_one sub.symbolLanguage] at hy
    obtain ⟨u, v, rfl, hpath, rfl⟩ := (hsub 1).start hy
    simpa using hpath
  have hloop {s : Nat} (hexits : n.epsilons s = [sub.start base, base + sub.stateCount + 1])
      (v : List Symbol) (hv : v ∈ sub.symbolLanguage∗ * rest) :
      n.Leads s (base + sub.stateCount + 1) rest v := by
    obtain ⟨x, hx, y, hy, rfl⟩ := Language.mem_mul.1 hv
    obtain ⟨pieces, rfl, hpieces⟩ := Language.mem_kstar.1 hx
    have hpath := path_flatten (epsilons_accept hholds) (fun z hz ↦ hpiece z (hpieces z hz)) hexits
    exact ⟨_, y, hy, hpath, rfl⟩
  intro s hbase hlt word hword
  rcases star_state_cases hlt with h | rfl | rfl
  · rw [residue_star_sub h] at hword
    exact (hsub _ s hbase h word hword).trans (hloop (epsilons_accept hholds))
  · rw [residue_star_start rfl] at hword
    exact hloop (epsilons_of_getElem? htop) word hword
  · rw [residue_star_accept rfl] at hword
    exact .refl _ hword

theorem leads_leaf {label : Symbol} {l : Language Symbol} {word : List Symbol}
    (holds : n.Holds base [⟨.single label (base + 1), []⟩, ⟨.empty, exits⟩])
    (hl : ∀ u ∈ l, ∃ sym, label.admits sym ∧ u = [sym]) (hbase : base ≤ s) (hs : s < base + 2)
    (hword : word ∈ if s = base then l * rest else rest) : n.Leads s (base + 1) rest word := by
  obtain rfl | rfl : s = base ∨ s = base + 1 := by omega
  · rw [if_pos rfl] at hword
    obtain ⟨u, hu, v, hv, rfl⟩ := Language.mem_mul.1 hword
    obtain ⟨sym, hadmits, rfl⟩ := hl u hu
    have hmove : s + 1 ∈ n.step s sym := (mem_step_single holds.first).2 ⟨hadmits, rfl⟩
    exact ⟨[sym], v, hv, .edge hmove (.nil _), rfl⟩
  · rw [if_neg (Nat.succ_ne_self base)] at hword
    exact .refl _ hword

theorem leads_of_holds (holds : n.Holds base (t.fragment base exits)) : LeadsIn n t base rest := by
  induction t generalizing base exits rest with
  | concat first second ihf ihs =>
    obtain ⟨hfirst, hsecond⟩ := holds_concat holds
    exact leads_concat holds (ihf hfirst) (ihs hsecond)
  | altern first second ihf ihs =>
    obtain ⟨hfirst, hsecond, -⟩ := holds_altern holds
    exact leads_altern holds (ihf hfirst) (ihs hsecond)
  | star sub ih =>
    obtain ⟨hsub, -⟩ := holds_star holds
    exact leads_star holds fun _ ↦ ih hsub
  | any =>
    intro s hbase hs word hword
    refine leads_leaf holds ?_ hbase hs hword
    intro u hu
    obtain ⟨sym, rfl⟩ := hu
    exact ⟨sym, rfl, rfl⟩
  | byte value =>
    intro s hbase hs word hword
    refine leads_leaf holds ?_ hbase hs hword
    intro u hu
    exact ⟨.byte value, by simp [Symbol.admits], hu⟩
  | empty =>
    intro s hbase hs word hword
    simp only [residue, symbolLanguage, one_mul, ite_self] at hword
    simp only [stateCount] at hs
    obtain rfl | rfl : s = base ∨ s = base + 1 := by omega
    · exact .epsilon (by simp [epsilons_of_getElem? holds.first, accept]) (.refl _ hword)
    · exact .refl _ hword

end paths

section toNfa

variable (t : Tree)

theorem respects_toNfa (s : Nat) : t.toNfa.Respects (t.residue 0 1) s := by
  rcases Nat.lt_or_ge s t.stateCount with h | h
  · refine respects_of_assigns t.holds_toNfa (fun _ _ _ ↦ rfl) ?_ s s.zero_le ?_
    · simp [Exits]
    · simpa using h
  · have hnone : t.toNfa.states[s]? = none := Array.getElem?_eq_none (t.stateCount_toNfa.le.trans h)
    constructor
    · simp [epsilons, hnone]
    · simp [step, edges, hnone, targets]

theorem path_accept_iff {s : Nat} (h : s < t.stateCount) {word : List Symbol} :
    t.toNfa.Path s word t.toNfa.accept ↔ word ∈ t.residue 0 1 s := by
  have hone : t.residue 0 1 t.toNfa.accept = 1 := t.residue_accept 0 1
  constructor
  · intro hpath
    have hnil : [] ∈ t.residue 0 1 t.toNfa.accept := by
      rw [hone]
      exact Language.nil_mem_one
    simpa using hpath.append_mem t.respects_toNfa hnil
  · intro hword
    obtain ⟨u, v, rfl, hpath, rfl⟩ :=
      leads_of_holds t.holds_toNfa s s.zero_le (by simpa using h) word hword
    simpa [toNfa] using hpath

theorem path_start_accept_iff {word : List Symbol} :
    t.toNfa.Path t.toNfa.start word t.toNfa.accept ↔ word ∈ t.symbolLanguage := by
  have hstart := t.residue_start 0 1
  rw [mul_one] at hstart
  rw [path_accept_iff t (by simpa [toNfa] using (t.start_bounds 0).2), ← hstart]
  rfl

theorem exists_path_accept {s : Nat} (h : s < t.toNfa.stateCount) :
    ∃ word, t.toNfa.Path s word t.toNfa.accept := by
  obtain ⟨word, hword⟩ : ∃ word, word ∈ t.residue 0 1 s :=
    exists_mem_residue ⟨[], Language.nil_mem_one⟩
  exact ⟨word, (path_accept_iff t (t.stateCount_toNfa ▸ h)).2 hword⟩

theorem mem_symbolLanguage_of_admits {word word' : List Symbol} (h : word ∈ t.symbolLanguage)
    (hadmits : List.Forall₂ (fun a b ↦ a.admits b = true) word word') : word' ∈ t.symbolLanguage :=
  t.path_start_accept_iff.1 ((t.path_start_accept_iff.2 h).admits hadmits)

/-- The automaton of a tree accepts exactly the words that the tree describes. -/
theorem toNfa_accepts_iff_mem_language (word : List UInt8) :
    t.toNfa.accepts word = true ↔ word ∈ t.language := by
  rw [t.toNfa_wellFormed.accepts_iff, path_start_accept_iff, map_byte_mem_symbolLanguage]

end toNfa

end Tree

end BytePatterns
