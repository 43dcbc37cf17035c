import BytePatterns.Journal
import BytePatterns.Main
import BytePatterns.Proofs.Cursor
import BytePatterns.Proofs.Dfa.Bisimulation
import BytePatterns.Proofs.Dfa.Size
import BytePatterns.Proofs.Interchange
import BytePatterns.Proofs.Lines
import BytePatterns.Proofs.Needle.Bounds
import BytePatterns.Proofs.Needle.Occurrences
import BytePatterns.Proofs.Nfa.Construction
import BytePatterns.Proofs.Nfa.Worklist
import BytePatterns.Proofs.Passes
import BytePatterns.Proofs.Regex.Language
import BytePatterns.Proofs.Regex.Limit
import BytePatterns.Proofs.Regex.Offence
import BytePatterns.Proofs.Regex.Repetition
import BytePatterns.Proofs.Tree.Access
import BytePatterns.Proofs.Tree.Diagram
import BytePatterns.Proofs.Tree.Minimality
import BytePatterns.Proofs.Tree.Refinement
import BytePatterns.Proofs.Tree.Shadowing
import BytePatterns.Proofs.Tree.Subsets
import BytePatterns.Proofs.Tree.Trim
import BytePatterns.Proofs.Tree.Unique
