import BytePatterns.Surface.Fault

namespace BytePatterns.Surface.Property

/-- A name without the two letters `is` in front. -/
def withoutIs : List Char → List Char
  | c :: d :: rest => if c.toLower = 'i' ∧ d.toLower = 's' then rest else c :: d :: rest
  | name => name

/-- Whether a character makes a difference in a name. -/
def counts (c : Char) : Bool := c.toNat < 128 && c != ' ' && c != '-' && c != '_'

/-- A name as it is compared with others. -/
def canonical (name : List Char) : List Char := ((withoutIs name).filter counts).map Char.toLower

/-- Format characters, cased letters and currency symbols. The short names of these categories are
also short for properties, but stand for the categories. -/
def categories : List (List Char) := [['c', 'f'], ['l', 'c'], ['s', 'c']]

/-- What is wrong with a name. There are no tables of properties, so none has a meaning. -/
def cause (name : List Char) : Cause :=
  if canonical name ∈ categories then .propertyValueUnknown else .propertyUnknown

end BytePatterns.Surface.Property
