import StackScript.Tree.Outline
import StackScript.Value.Tagged
import StackScript.Editor.Request
import StackScript.Main
import StackScript.Proofs.Code.WellFormed
import StackScript.Proofs.Meaning.Preserved
import StackScript.Proofs.Machine.Assignment
import StackScript.Proofs.Machine.Literal
import StackScript.Proofs.Machine.Conversation
import StackScript.Proofs.Machine.Agreement
import StackScript.Proofs.Machine.Operands
import StackScript.Proofs.Machine.Return
import StackScript.Proofs.Code.Truncated
import StackScript.Proofs.Token.Width
import StackScript.Proofs.Token.Reindentation
import StackScript.Proofs.Token.Rendering
import StackScript.Proofs.Tree.Results
import StackScript.Proofs.Machine.Callee
import StackScript.Proofs.Code.Flow
import StackScript.Proofs.Machine.PastEnd
import StackScript.Proofs.Tree.Formatted
import StackScript.Proofs.Machine.Iteration
import StackScript.Proofs.Machine.Instance
import StackScript.Proofs.Meaning.Rendered
import StackScript.Proofs.Machine.LastBlock
import StackScript.Proofs.Machine.MethodOperand
import StackScript.Proofs.Code.Relocation
import StackScript.Proofs.Machine.Import
