namespace BytePatterns

/-- The label of an edge: a byte, or `any`, which stands for every byte that is not named
otherwise. -/
inductive Symbol where
  | byte (value : UInt8)
  | any
deriving DecidableEq

namespace Symbol

/-- The place of a symbol in the order, below 257. -/
def index : Symbol → Nat
  | byte value => value.toNat
  | any => 256

theorem index_lt (sym : Symbol) : sym.index < 257 := by
  cases sym with
  | byte value => exact Nat.lt_succ_of_lt value.toNat_lt
  | any => decide

instance : LT Symbol := ⟨fun a b ↦ a.index < b.index⟩

instance (a b : Symbol) : Decidable (a < b) := inferInstanceAs (Decidable (a.index < b.index))

theorem index_injective {a b : Symbol} (h : a.index = b.index) : a = b := by
  match a, b with
  | byte x, byte y => rw [UInt8.toNat_inj.1 h]
  | byte x, any => exact absurd h (Nat.ne_of_lt x.toNat_lt)
  | any, byte y => exact absurd h.symm (Nat.ne_of_lt y.toNat_lt)
  | any, any => rfl

theorem lt_trans {a b c : Symbol} (h : a < b) (k : b < c) : a < c := Nat.lt_trans h k

theorem eq_of_not_lt {a b : Symbol} (h : ¬a < b) (k : ¬b < a) : a = b :=
  index_injective (Nat.le_antisymm (Nat.not_lt.1 k) (Nat.not_lt.1 h))

/-- Whether a symbol can follow an edge with this label. -/
def admits (label sym : Symbol) : Bool := label = any || label = sym

def hexDigits (value : UInt8) : List Char :=
  [(value.toNat / 16).digitChar, (value.toNat % 16).digitChar]

/-- Printable ASCII stands for itself, quotes and the backslash after a backslash; tab, carriage
return and newline have their letters, and every other byte is `\x` with two hexadecimal digits. -/
def byteText (value : UInt8) : List Char :=
  if value = 9 then ['\\', 't']
  else if value = 10 then ['\\', 'n']
  else if value = 13 then ['\\', 'r']
  else if value = 34 ∨ value = 39 ∨ value = 92 then ['\\', Char.ofNat value.toNat]
  else if 32 ≤ value ∧ value ≤ 126 then [Char.ofNat value.toNat]
  else '\\' :: 'x' :: hexDigits value

/-- The dot is the text of `any`, so the byte of a dot is written after a backslash. -/
def text : Symbol → List Char
  | any => ['.']
  | byte value => if value = 46 then ['\\', '.'] else byteText value

end Symbol

/-- A set of symbols, listed in increasing order. -/
structure Alphabet where
  symbols : List Symbol
  increasing : symbols.Pairwise (· < ·)
deriving DecidableEq

namespace Alphabet

instance : Membership Symbol Alphabet := ⟨fun a s ↦ s ∈ a.symbols⟩

instance (s : Symbol) (a : Alphabet) : Decidable (s ∈ a) :=
  inferInstanceAs (Decidable (s ∈ a.symbols))

def empty : Alphabet := ⟨[], .nil⟩

def size (a : Alphabet) : Nat := a.symbols.length

def insertSorted (s : Symbol) : List Symbol → List Symbol
  | [] => [s]
  | r :: rest =>
    if s < r then s :: r :: rest else if r < s then r :: insertSorted s rest else r :: rest

theorem mem_insertSorted {s t : Symbol} {l : List Symbol} :
    t ∈ insertSorted s l ↔ t = s ∨ t ∈ l := by
  induction l with
  | nil => simp [insertSorted]
  | cons r rest ih =>
    unfold insertSorted
    split
    · simp
    · split
      · simp only [List.mem_cons, ih]; exact or_left_comm
      · rename_i h k
        simp [Symbol.eq_of_not_lt h k]

theorem insertSorted_increasing (s : Symbol) {l : List Symbol} (h : l.Pairwise (· < ·)) :
    (insertSorted s l).Pairwise (· < ·) := by
  induction l with
  | nil => simp [insertSorted]
  | cons r rest ih =>
    obtain ⟨first, others⟩ := List.pairwise_cons.1 h
    unfold insertSorted
    split
    · rename_i hs
      refine List.pairwise_cons.2 ⟨fun t ht ↦ ?_, h⟩
      rcases List.mem_cons.1 ht with rfl | ht
      · exact hs
      · exact Symbol.lt_trans hs (first t ht)
    · split
      · rename_i hr
        refine List.pairwise_cons.2 ⟨fun t ht ↦ ?_, ih others⟩
        rcases mem_insertSorted.1 ht with rfl | ht
        · exact hr
        · exact first t ht
      · exact h

def insert (s : Symbol) (a : Alphabet) : Alphabet :=
  ⟨insertSorted s a.symbols, insertSorted_increasing s a.increasing⟩

theorem mem_insert {s t : Symbol} {a : Alphabet} : t ∈ a.insert s ↔ t = s ∨ t ∈ a :=
  mem_insertSorted

def ofList (l : List Symbol) : Alphabet := l.foldr insert empty

theorem mem_ofList {s : Symbol} {l : List Symbol} : s ∈ ofList l ↔ s ∈ l := by
  induction l with
  | nil => exact Iff.rfl
  | cons r rest ih => exact mem_insert.trans ((or_congr Iff.rfl ih).trans List.mem_cons.symm)

end Alphabet

end BytePatterns
