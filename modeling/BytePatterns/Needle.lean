import BytePatterns.Lines
import BytePatterns.Needle.Border

namespace BytePatterns

/-- A word with a table that has one entry for each of its beginnings. -/
structure Needle where
  word : Array UInt8
  table : BorderTable
  size_table : table.size = word.size + 1

namespace Needle

def ofWord (word : List UInt8) : Needle := ⟨word.toArray, .sharp word, BorderTable.size_sharp word⟩

/-- Any table of the right size can be searched with. -/
def withTable? (word : List UInt8) (table : BorderTable) : Option Needle :=
  if h : table.size = word.toArray.size + 1 then some ⟨word.toArray, table, h⟩ else none

variable (n : Needle)

/-- The first occurrence that ends in `rest`, where `rest` begins at `offset` in the text and the
`length` bytes before it are matched. -/
def scan? (length offset : Nat) : (rest : List UInt8) → Option Nat
  | [] => none
  | b :: rest =>
    let matched := n.table.advance n.word length b
    if matched = n.word.size then some (offset + 1 - matched) else scan? matched (offset + 1) rest

theorem bounds_of_scan? {start length offset s : Nat} {rest : List UInt8}
    (h : start + length ≤ offset) (hs : n.scan? length offset rest = some s) :
    start ≤ s ∧ s + n.word.size ≤ offset + rest.length := by
  induction rest generalizing length offset with
  | nil => simp [scan?] at hs
  | cons b rest ih =>
    have step := n.table.advance_le n.word length b
    simp only [scan?] at hs
    simp only [List.length_cons]
    split at hs
    · rename_i done
      simp only [Option.some.injEq] at hs
      omega
    · have := ih (Nat.le_trans (Nat.add_le_add_left step _) (Nat.succ_le_succ h)) hs
      omega

/-- The first occurrence that does not begin before `start`; the empty word occurs at every offset
up to the length of the text. -/
def findAt? (text : List UInt8) (start : Nat) : Option Nat :=
  if n.word.size = 0 then if start ≤ text.length then some start else none
  else n.scan? 0 start (text.drop start)

theorem bounds_of_findAt? {text : List UInt8} {start s : Nat} (h : n.findAt? text start = some s) :
    start ≤ s ∧ s + n.word.size ≤ text.length := by
  unfold findAt? at h
  split at h
  · split at h
    · simp only [Option.some.injEq] at h
      omega
    · simp at h
  · have b := n.bounds_of_scan? (Nat.le_refl _) h
    simp only [List.length_drop] at b
    omega

def find? (text : List UInt8) : Option Nat := n.findAt? text 0

def after (start : Nat) : Nat := start + max n.word.size 1

/-- The occurrences that do not overlap an earlier one. -/
def occurrencesFrom (text : List UInt8) (start : Nat) : List Nat :=
  match _h : n.findAt? text start with
  | none => []
  | some s => s :: occurrencesFrom text (n.after s)
termination_by text.length + 1 - start
decreasing_by
  have := n.bounds_of_findAt? _h
  simp only [after]
  omega

def occurrences (text : List UInt8) : List Nat := n.occurrencesFrom text 0

/-- One step of a search for all occurrences, which goes on at `resume` unless it has ended: the
next occurrence, and where to go on after it. -/
def next (text : List UInt8) (resume : Option Nat) : Option Nat × Option Nat :=
  let found := resume.bind (n.findAt? text)
  (found, found.map n.after)

/-- The answers to `count` questions for the next occurrence. -/
def answers (text : List UInt8) : (count : Nat) → (resume : Option Nat) → List (Option Nat)
  | 0, _ => []
  | count + 1, resume =>
    let (found, resume) := n.next text resume
    found :: answers text count resume

def isMatch (text : List UInt8) : Bool := (n.find? text).isSome

def searchLines (text : List UInt8) : List (Nat × List UInt8) :=
  BytePatterns.searchLines n.isMatch text

end Needle

end BytePatterns
