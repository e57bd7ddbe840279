import TernLang.Main
import TernLang.Proofs.Batch.Schedule
import TernLang.Proofs.Binary.Half
import TernLang.Proofs.Core.Correctness
import TernLang.Proofs.Ir.Placement
import TernLang.Proofs.Lowering.Interface
import TernLang.Proofs.Lowering.Voidless
import TernLang.Proofs.Machine.Allocating
import TernLang.Proofs.Machine.History
import TernLang.Proofs.Machine.Limits
import TernLang.Proofs.Machine.Pointers
import TernLang.Proofs.Machine.Soundness
import TernLang.Proofs.Machine.Storing
import TernLang.Proofs.Program.ImportOrder
import TernLang.Proofs.Program.Termination
import TernLang.Proofs.Session.CacheCalls
import TernLang.Proofs.Session.Closure
import TernLang.Proofs.Session.Fresh
import TernLang.Proofs.Session.Linking
import TernLang.Proofs.Syntax.Numerals
import TernLang.Proofs.Syntax.Precedence
import TernLang.Proofs.Token.Placing
import TernLang.Proofs.Token.Relexing
import TernLang.Proofs.Typing.Importing
import TernLang.Proofs.Typing.Resolution
import TernLang.Proofs.Syntax.Copying
import TernLang.Proofs.Program.Callables
