namespace BytePatterns

/-- Entry `i` is a number below `i`, or missing. -/
structure BorderTable where
  entries : Array (Option Nat)
  lt_of_border : ∀ {i k : Nat}, entries[i]? = some (some k) → k < i

namespace BorderTable

def size (t : BorderTable) : Nat := t.entries.size

def border? (t : BorderTable) (i : Nat) : Option Nat := t.entries[i]?.join

theorem lt_of_border? {t : BorderTable} {i k : Nat} (h : t.border? i = some k) : k < i :=
  t.lt_of_border (Option.join_eq_some_iff.1 h)

def empty : BorderTable := ⟨#[], by simp⟩

def push (t : BorderTable) (value : Option Nat) (h : ∀ k ∈ value, k < t.size) : BorderTable where
  entries := t.entries.push value
  lt_of_border := by
    intro i k hk
    rw [Array.getElem?_push] at hk
    split at hk
    · rename_i hi
      exact hi ▸ h k (by simpa using hk)
    · exact t.lt_of_border hk

@[simp]
theorem size_push (t : BorderTable) (value : Option Nat) (h : ∀ k ∈ value, k < t.size) :
    (t.push value h).size = t.size + 1 := Array.size_push ..

/-- The number of bytes matched after reading `b`, when `length` bytes were matched before. As long
as the next byte of the word is another one, the table tells with how many bytes to go on. -/
def advance (t : BorderTable) (word : Array UInt8) (length : Nat) (b : UInt8) : Nat :=
  if word[length]? = some b then length + 1
  else match _h : t.border? length with
    | some shorter => advance t word shorter b
    | none => 0
termination_by length
decreasing_by exact lt_of_border? _h

theorem advance_le (t : BorderTable) (word : Array UInt8) (length : Nat) (b : UInt8) :
    t.advance word length b ≤ length + 1 := by
  fun_induction advance t word length b with
  | case1 => exact Nat.le_refl _
  | case2 length _ shorter h ih =>
    have := lt_of_border? h
    omega
  | case3 => exact Nat.zero_le _

/-- The last entry of a table that has one more entry than the word read so far has bytes. -/
def longest (t : BorderTable) : Nat := (t.border? (t.size - 1)).getD 0

theorem longest_lt {t : BorderTable} (h : 1 < t.size) : t.longest + 1 < t.size := by
  unfold longest
  cases hk : t.border? (t.size - 1) with
  | none => exact h
  | some k =>
    have := lt_of_border? hk
    simp only [Option.getD_some]
    omega

/-- The table of a word that is one byte longer. -/
def widen (t : BorderTable) (word : Array UInt8) (b : UInt8) : BorderTable :=
  if h : 1 < t.size then
    t.push (some (t.advance word t.longest b)) fun k hk ↦ by
      have := t.advance_le word t.longest b
      have := longest_lt h
      simp only [Option.mem_def, Option.some.injEq] at hk
      omega
  else if h : 0 < t.size then t.push (some 0) (by simpa using h)
  else t.push none (by simp)

theorem size_widen (t : BorderTable) (word : Array UInt8) (b : UInt8) :
    (t.widen word b).size = t.size + 1 := by
  unfold widen
  split
  · simp
  · split <;> simp

def plain (word : List UInt8) : BorderTable :=
  word.foldl (·.widen word.toArray ·) (empty.push none (by simp))

theorem size_plain (word : List UInt8) : (plain word).size = word.length + 1 := by
  have size_foldl (whole : Array UInt8) (rest : List UInt8) (t : BorderTable) :
      (rest.foldl (·.widen whole ·) t).size = t.size + rest.length := by
    induction rest generalizing t with
    | nil => rfl
    | cons b rest ih => simp only [List.foldl_cons, ih, size_widen, List.length_cons]; omega
  simp only [plain, size_foldl, size_push]
  exact Nat.add_comm 1 _

/-- The entry at the end of a sharpened table so far, where the plain table has the given one. -/
def sharpened (t : BorderTable) (word : Array UInt8) (border : Nat) : Option Nat :=
  if t.size < word.size ∧ word[t.size]? = word[border]? then t.border? border else some border

theorem lt_of_sharpened {t : BorderTable} {word : Array UInt8} {border k : Nat}
    (h : border < t.size) (hk : k ∈ t.sharpened word border) : k < t.size := by
  unfold sharpened at hk
  split at hk
  · exact Nat.lt_trans (lt_of_border? hk) h
  · cases hk; exact h

def sharpen (word : Array UInt8) (t : BorderTable) (value : Option Nat) : BorderTable :=
  match value with
  | none => t.push none (by simp)
  | some border =>
    if h : border < t.size then t.push (t.sharpened word border) fun _ hk ↦ lt_of_sharpened h hk
    else t.push none (by simp)

theorem size_sharpen (word : Array UInt8) (t : BorderTable) (value : Option Nat) :
    (sharpen word t value).size = t.size + 1 := by
  unfold sharpen
  split
  · simp
  · split <;> simp

def sharp (word : List UInt8) : BorderTable :=
  (plain word).entries.foldl (sharpen word.toArray) empty

theorem size_sharp (word : List UInt8) : (sharp word).size = word.length + 1 := by
  have size_foldl (whole : Array UInt8) (values : List (Option Nat)) (t : BorderTable) :
      (values.foldl (sharpen whole) t).size = t.size + values.length := by
    induction values generalizing t with
    | nil => rfl
    | cons value rest ih => simp only [List.foldl_cons, ih, size_sharpen, List.length_cons]; omega
  rw [sharp, ← Array.foldl_toList, size_foldl, ← size_plain]
  exact Nat.zero_add _

end BorderTable

end BytePatterns
