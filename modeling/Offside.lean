import Offside.Command.Disk
import Offside.Command.Run
import Offside.Main
import Offside.Proofs.Binary64.Rounding
import Offside.Proofs.CText.Precedence
import Offside.Proofs.Grammar.Accounting
import Offside.Proofs.Grammar.MachineComplete
import Offside.Proofs.Scanner.Indentation
import Offside.Proofs.Grammar.Interleaving
import Offside.Proofs.Grammar.Progress
import Offside.Proofs.Grammar.Recovery
import Offside.Proofs.Resolution.Mentions
import Offside.Proofs.Resolution.Targets
import Offside.Proofs.Resolution.Traversal
import Offside.Proofs.Scanner.Payload
import Offside.Proofs.CText.Body
import Offside.Proofs.CText.Declarations
import Offside.Proofs.CText.Nesting
import Offside.Proofs.CText.Program
import Offside.Proofs.Grammar.Locality
import Offside.Proofs.Scanner.Parts
import Offside.Proofs.Scanner.Partition
import Offside.Proofs.Scanner.Lines
import Offside.Proofs.Compilation.LineEnds
import Offside.Proofs.Scanner.Places
import Offside.Proofs.Compilation.Quoting
import Offside.Proofs.Grammar.Relocation
import Offside.Proofs.Scanner.Relocation
import Offside.Proofs.Compilation.IdleText
import Offside.Proofs.Binary64.Interval
import Offside.Proofs.Binary64.ReadBack
import Offside.Proofs.CText.Constant
import Offside.Proofs.CText.Evaluation
import Offside.Proofs.Scanner.Limit
import Offside.Proofs.Scanner.Margins
import Offside.Proofs.Compilation.Margins
import Offside.Proofs.Resolution.Independence
import Offside.Proofs.Compilation.ReadBack
import Offside.Proofs.EditDistance
import Offside.Proofs.Scanner.Order
import Offside.Proofs.Compilation.FaultOrder
import Offside.Proofs.Command.Delivery
import Offside.Proofs.Scanner.Seam
import Offside.Proofs.Grammar.Framing
import Offside.Proofs.Grammar.Joining
import Offside.Proofs.Compilation.Joining
import Offside.Proofs.Scanner.DigitRuns
import Offside.Proofs.Scanner.Integers
import Offside.Proofs.CText.Numbers
import Offside.Proofs.Compilation.IntegerLiterals
import Offside.Proofs.Tree.Chains
