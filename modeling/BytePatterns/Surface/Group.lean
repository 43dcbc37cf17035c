import BytePatterns.Surface
import BytePatterns.Surface.Reader
import BytePatterns.Unicode.Alphabetic
import BytePatterns.Unicode.Numeric

namespace BytePatterns.Surface

open Reader

namespace Flag

def ofLetter? (c : Char) : Option Flag :=
  match c with
  | 'i' => some .caseless
  | 'm' => some .multiLine
  | 's' => some .dotAll
  | 'U' => some .swapGreed
  | 'u' => some .unicode
  | 'R' => some .returns
  | 'x' => some .spaced
  | _ => none

/-- A flag, or the hyphen that turns off the flags behind it. -/
def item? (c : Char) : Option (Option Flag) := if c = '-' then some none else (ofLetter? c).map some

/-- The items written from `p` on, behind those already seen; none may be repeated. -/
def items (seen : List (Option Flag × Region)) (p : Position) :
    List Char → Except Fault (List (Option Flag × Region))
  | [] => .ok seen
  | c :: rest =>
    let region : Region := ⟨p, p.past c⟩
    match item? c with
    | none => .error ⟨.flagUnrecognized, region, none⟩
    | some item =>
      match seen.lookup item with
      | some earlier =>
        .error ⟨if item.isNone then .negationRepeated else .flagDuplicate, region, some earlier⟩
      | none => items (seen ++ [(item, region)]) (p.past c) rest

def settings (value : Bool) : List (Option Flag × Region) → FlagSettings
  | [] => []
  | (none, _) :: rest => settings false rest
  | (some flag, _) :: rest => (flag, value) :: settings value rest

end Flag

def flagSettings : Reader FlagSettings := do
  let start ← position
  let letters ← charsWhile fun c ↦ c != ':' && c != ')'
  match Flag.items [] start letters with
  | .error fault => fun _ ↦ .error fault
  | .ok items =>
    if (← peek?).isNone then failHere .flagUnfinished
    match items.getLast? with
    | some (none, region) => fail .negationDangling region
    | _ => return Flag.settings true items

def startsName (c : Char) : Bool := c = '_' || Unicode.isAlphabetic c

def inName (c : Char) : Bool :=
  startsName c || Unicode.isNumeric c || c = '.' || c = '[' || c = ']'

/-- The name of a group, up to the angle bracket that closes it. -/
def groupName (taken : List (List Char × Region)) : Reader (List Char × Region) := do
  let start ← position
  match ← peek? with
  | none => failHere .groupNameUnclosed
  | some c =>
    if c != '>' && !startsName c then failChar .groupNameInvalid
    let name ← charsWhile inName
    match ← peek? with
    | none => failHere .groupNameUnclosed
    | some '>' =>
      let region ← regionFrom start
      advance
      if name.isEmpty then fail .groupNameEmpty (.point start)
      match taken.lookup name with
      | some earlier => fun _ ↦ .error ⟨.groupNameDuplicate, region, some earlier⟩
      | none => return (name, region)
    | some _ => failChar .groupNameInvalid

/-- What an opening parenthesis begins. -/
inductive Opening where
  | numbered
  | named (name : List Char) (region : Region)
  | flagged (settings : FlagSettings)
  | settings (settings : FlagSettings)

def lookAround : Reader Bool := do
  for mark in ["?=", "?!", "?<=", "?<!"] do
    if ← tryText mark.toList then return true
  return false

/-- The opening of a group behind the parenthesis at `first`; names already taken are given. -/
def opening (taken : List (List Char × Region)) (first : Position) : Reader Opening := do
  skipBlanks
  if ← lookAround then failFrom .lookAround first
  let mark ← position
  if ← tryText ['?', 'P', '<'] then
    let (name, region) ← groupName taken
    return .named name region
  if ← tryText ['?', '<'] then
    let (name, region) ← groupName taken
    return .named name region
  if !(← tryText ['?']) then return .numbered
  if (← peek?).isNone then fail .groupUnclosed ⟨first, first.past '('⟩
  let settings ← flagSettings
  let closed := (← peek?) = some ')'
  advance
  if !closed then return .flagged settings
  if settings.isEmpty then fail .repetitionWithoutOperand (.point mark)
  return .settings settings

end BytePatterns.Surface
