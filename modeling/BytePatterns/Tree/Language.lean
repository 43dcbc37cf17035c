import BytePatterns.Tree
import Mathlib.Computability.Language

namespace BytePatterns.Tree

open scoped Computability

def language : Tree → Language UInt8
  | concat first second => first.language * second.language
  | altern first second => first.language + second.language
  | star sub => sub.language∗
  | any => {w | ∃ b, w = [b]}
  | byte value => {[value]}
  | empty => 1

end BytePatterns.Tree
