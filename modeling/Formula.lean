import Formula.Document.SymbolFile
import Formula.Proofs.Chain
import Formula.Proofs.Comparable
import Formula.Proofs.Cosmetic
import Formula.Proofs.Depths
import Formula.Proofs.Detection
import Formula.Proofs.Enclosed
import Formula.Proofs.ExtendedText
import Formula.Proofs.Families
import Formula.Proofs.Grouped
import Formula.Proofs.History
import Formula.Proofs.Loading
import Formula.Proofs.Parentheses
import Formula.Proofs.Progress
import Formula.Proofs.Redeclaration
import Formula.Proofs.Remembering
import Formula.Proofs.Requests
import Formula.Proofs.Rows
import Formula.Proofs.ScriptOrder
import Formula.Proofs.SecondTrip
import Formula.Rendering.Render
