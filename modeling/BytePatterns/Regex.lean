import BytePatterns.Interval

namespace BytePatterns

/-- Assertions about a place in the text. -/
inductive Look where
  | start
  | finish
  | startLine
  | finishLine
  | startLineReturn
  | finishLineReturn
  | word
  | wordNegate
  | wordUnicode
  | wordUnicodeNegate
  | wordStart
  | wordEnd
  | wordStartUnicode
  | wordEndUnicode
  | wordStartHalf
  | wordEndHalf
  | wordStartHalfUnicode
  | wordEndHalfUnicode
deriving DecidableEq

def Look.name : Look → String
  | start => "Start"
  | finish => "End"
  | startLine => "StartLF"
  | finishLine => "EndLF"
  | startLineReturn => "StartCRLF"
  | finishLineReturn => "EndCRLF"
  | word => "WordAscii"
  | wordNegate => "WordAsciiNegate"
  | wordUnicode => "WordUnicode"
  | wordUnicodeNegate => "WordUnicodeNegate"
  | wordStart => "WordStartAscii"
  | wordEnd => "WordEndAscii"
  | wordStartUnicode => "WordStartUnicode"
  | wordEndUnicode => "WordEndUnicode"
  | wordStartHalf => "WordStartHalfAscii"
  | wordEndHalf => "WordEndHalfAscii"
  | wordStartHalfUnicode => "WordStartHalfUnicode"
  | wordEndHalfUnicode => "WordEndHalfUnicode"

def Look.all : List Look :=
  [start, finish, startLine, finishLine, startLineReturn, finishLineReturn, word, wordNegate,
    wordUnicode, wordUnicodeNegate, wordStart, wordEnd, wordStartUnicode, wordEndUnicode,
    wordStartHalf, wordEndHalf, wordStartHalfUnicode, wordEndHalfUnicode]

inductive Regex where
  | empty
  | literal (bytes : List UInt8)
  | bytes (intervals : List (Interval UInt8))
  | scalars (intervals : List (Interval Char))
  | look (kind : Look)
  | repetition (least : Nat) (most : Option Nat) (greedy : Bool) (sub : Regex)
  | capture (index : Nat) (name : Option (List Char)) (sub : Regex)
  | concat (items : List Regex)
  | alternation (branches : List Regex)

end BytePatterns
