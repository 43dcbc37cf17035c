import BytePatterns.Surface.Region

namespace BytePatterns.Surface

/-- How deep groups, classes, repetitions, sequences and choices may be nested. -/
def nestLimit : Nat := 250

inductive Cause where
  | groupUnclosed
  | groupUnopened
  | groupNameEmpty
  | groupNameInvalid
  | groupNameUnclosed
  | groupNameDuplicate
  | lookAround
  | flagUnrecognized
  | flagDuplicate
  | flagUnfinished
  | negationRepeated
  | negationDangling
  | repetitionWithoutOperand
  | countMissing
  | countTooLarge
  | countUnclosed
  | countReversed
  | escapeUnfinished
  | escapeUnrecognized
  | backreference
  | hexInvalidDigit
  | hexEmpty
  | hexNotScalar
  | propertyMalformed
  | boundaryUnclosed
  | boundaryUnrecognized
  | boundaryOrCountUnclosed
  | classUnclosed
  | rangeReversed
  | rangeEndNotLiteral
  | assertionInClass
  | nestedTooDeep
  | scalarNotAllowed
  | propertyUnknown
  | propertyValueUnknown
  | perlClassUnknown
  | caseUnknown
deriving DecidableEq

/-- The region of the fault, and that of an earlier item which it repeats. -/
structure Fault where
  cause : Cause
  region : Region
  earlier : Option Region := none
deriving DecidableEq

namespace Cause

def message : Cause → String
  | groupUnclosed => "unclosed group"
  | groupUnopened => "unopened group"
  | groupNameEmpty => "empty capture group name"
  | groupNameInvalid => "invalid capture group character"
  | groupNameUnclosed => "unclosed capture group name"
  | groupNameDuplicate => "duplicate capture group name"
  | lookAround => "look-around, including look-ahead and look-behind, is not supported"
  | flagUnrecognized => "unrecognized flag"
  | flagDuplicate => "duplicate flag"
  | flagUnfinished => "expected flag but got end of regex"
  | negationRepeated => "flag negation operator repeated"
  | negationDangling => "dangling flag negation operator"
  | repetitionWithoutOperand => "repetition operator missing expression"
  | countMissing => "repetition quantifier expects a valid decimal"
  | countTooLarge => "decimal literal invalid"
  | countUnclosed => "unclosed counted repetition"
  | countReversed => "invalid repetition count range, the start must be <= the end"
  | escapeUnfinished => "incomplete escape sequence, reached end of pattern prematurely"
  | escapeUnrecognized => "unrecognized escape sequence"
  | backreference => "backreferences are not supported"
  | hexInvalidDigit => "invalid hexadecimal digit"
  | hexEmpty => "hexadecimal literal empty"
  | hexNotScalar => "hexadecimal literal is not a Unicode scalar value"
  | propertyMalformed => "invalid Unicode character class"
  | boundaryUnclosed =>
    "special word boundary assertion is either unclosed or contains an invalid character"
  | boundaryUnrecognized =>
    "unrecognized special word boundary assertion, valid choices are: start, end, start-half or end-half"
  | boundaryOrCountUnclosed =>
    "found either the beginning of a special word boundary or a bounded repetition on a \\b with an opening brace, but no closing brace"
  | classUnclosed => "unclosed character class"
  | rangeReversed => "invalid character class range, the start must be <= the end"
  | rangeEndNotLiteral => "invalid range boundary, must be a literal"
  | assertionInClass => "invalid escape sequence found in character class"
  | nestedTooDeep =>
    "exceed the maximum number of nested parentheses/brackets (" ++ toString nestLimit ++ ")"
  | scalarNotAllowed => "Unicode not allowed here"
  | propertyUnknown => "Unicode property not found"
  | propertyValueUnknown => "Unicode property value not found"
  | perlClassUnknown =>
    "Unicode-aware Perl class not found (make sure the unicode-perl feature is enabled)"
  | caseUnknown =>
    "Unicode-aware case insensitivity matching is not available (make sure the unicode-case feature is enabled)"

end Cause

end BytePatterns.Surface
