import BytePatterns.Proofs.Tree.Balanced
import BytePatterns.Symbol

namespace BytePatterns.Tree

open scoped Computability

def symbolLanguage : Tree → Language Symbol
  | concat first second => first.symbolLanguage * second.symbolLanguage
  | altern first second => first.symbolLanguage + second.symbolLanguage
  | star sub => sub.symbolLanguage∗
  | any => {word | ∃ sym, word = [sym]}
  | byte value => {[.byte value]}
  | empty => 1

theorem append_mem_kstar {α : Type} {l : Language α} {u v : List α} (hu : u ∈ l) (hv : v ∈ l∗) :
    u ++ v ∈ l∗ := by
  have hle : l * l∗ ≤ l∗ := mul_kstar_le_kstar
  exact hle (Language.append_mem_mul hu hv)

theorem mem_kstar_of_map_eq_flatten {l : Language UInt8} {l' : Language Symbol}
    (h : ∀ w : List UInt8, w.map .byte ∈ l' → w ∈ l) {pieces : List (List Symbol)}
    (hpieces : ∀ y ∈ pieces, y ∈ l') {w : List UInt8} (hw : w.map .byte = pieces.flatten) :
    w ∈ l∗ := by
  induction pieces generalizing w with
  | nil =>
    obtain rfl : w = [] := by simpa using hw
    exact Language.nil_mem_kstar l
  | cons y rest ih =>
    obtain ⟨u, v, rfl, rfl, hv⟩ := List.map_eq_append_iff.1 hw
    exact append_mem_kstar (h u (hpieces _ List.mem_cons_self))
      (ih (fun z hz ↦ hpieces z (List.mem_cons_of_mem _ hz)) hv)

theorem map_byte_mem_symbolLanguage (t : Tree) (w : List UInt8) :
    w.map .byte ∈ t.symbolLanguage ↔ w ∈ t.language := by
  induction t generalizing w with
  | concat first second ihf ihs =>
    simp only [symbolLanguage, language, Language.mem_mul]
    constructor
    · intro h'
      obtain ⟨a, ha, b, hb, heq⟩ := h'
      obtain ⟨u, v, rfl, rfl, rfl⟩ := List.map_eq_append_iff.1 heq.symm
      exact ⟨u, (ihf u).1 ha, v, (ihs v).1 hb, rfl⟩
    · intro h'
      obtain ⟨u, hu, v, hv, rfl⟩ := h'
      exact ⟨u.map .byte, (ihf u).2 hu, v.map .byte, (ihs v).2 hv, List.map_append.symm⟩
  | altern first second ihf ihs =>
    simp only [symbolLanguage, language, Language.mem_add, ihf, ihs]
  | star sub ih =>
    constructor
    · intro h
      obtain ⟨pieces, heq, hpieces⟩ := Language.mem_kstar.1 h
      exact mem_kstar_of_map_eq_flatten (fun w ↦ (ih w).1) hpieces heq
    · intro h
      obtain ⟨pieces, rfl, hpieces⟩ := Language.mem_kstar.1 h
      rw [List.map_flatten]
      apply Language.join_mem_kstar
      intro y hy
      obtain ⟨piece, hpiece, rfl⟩ := List.mem_map.1 hy
      exact (ih piece).2 (hpieces piece hpiece)
  | any =>
    change (∃ sym, w.map Symbol.byte = [sym]) ↔ ∃ b, w = [b]
    simp [List.map_eq_singleton_iff]
  | byte value =>
    change w.map Symbol.byte = [Symbol.byte value] ↔ w = [value]
    simp [List.map_eq_singleton_iff]
  | empty =>
    simp [symbolLanguage, language]

theorem mem_altern {first second : Tree} {word : List Symbol} :
    word ∈ (altern first second).symbolLanguage ↔
      word ∈ first.symbolLanguage ∨ word ∈ second.symbolLanguage := Iff.rfl

theorem cons_mem_concat_byte {value : UInt8} {t : Tree} {sym : Symbol} {word : List Symbol} :
    sym :: word ∈ (concat (byte value) t).symbolLanguage ↔
      sym = .byte value ∧ word ∈ t.symbolLanguage := by
  rw [symbolLanguage, Language.mem_mul]
  constructor
  · intro h'
    obtain ⟨_, rfl, v, hv, heq⟩ := h'
    obtain ⟨rfl, rfl⟩ := List.cons.inj heq
    exact ⟨rfl, hv⟩
  · intro h'
    obtain ⟨rfl, h⟩ := h'
    exact ⟨[.byte value], rfl, word, h, rfl⟩

theorem mem_alternAll {operands : List Tree} (h : operands ≠ []) {word : List Symbol} :
    word ∈ (alternAll operands).symbolLanguage ↔ ∃ t ∈ operands, word ∈ t.symbolLanguage :=
  alternAll_iff (P := fun t ↦ word ∈ t.symbolLanguage) (fun _ _ ↦ mem_altern) h

theorem mem_alternAll_bytes {bytes : List UInt8} (h : bytes ≠ []) {word : List Symbol} :
    word ∈ (alternAll (bytes.map byte)).symbolLanguage ↔ ∃ b ∈ bytes, word = [.byte b] := by
  rw [mem_alternAll (by simpa using h)]
  simp only [List.mem_map, exists_exists_and_eq_and]
  rfl

theorem mem_language_alternAll_bytes {bytes : List UInt8} (h : bytes ≠ []) {w : List UInt8} :
    w ∈ (alternAll (bytes.map byte)).language ↔ ∃ b ∈ bytes, w = [b] := by
  rw [mem_language_alternAll (by simpa using h)]
  simp only [List.mem_map, exists_exists_and_eq_and]
  rfl

theorem exists_mem_symbolLanguage (t : Tree) : ∃ word, word ∈ t.symbolLanguage := by
  induction t with
  | concat first second ihf ihs =>
    obtain ⟨u, hu⟩ := ihf
    obtain ⟨v, hv⟩ := ihs
    exact ⟨u ++ v, Language.append_mem_mul hu hv⟩
  | altern first second ihf _ =>
    obtain ⟨u, hu⟩ := ihf
    exact ⟨u, .inl hu⟩
  | star sub _ => exact ⟨[], Language.nil_mem_kstar _⟩
  | any => exact ⟨[.any], .any, rfl⟩
  | byte value => exact ⟨[.byte value], rfl⟩
  | empty => exact ⟨[], rfl⟩

end BytePatterns.Tree
