import Shellwright.Main
import Shellwright.Proofs.Cli.Execute
import Shellwright.Proofs.Compile.Crossing
import Shellwright.Proofs.Compile.Layout
import Shellwright.Proofs.Compile.Names
import Shellwright.Proofs.Compile.Quoting
import Shellwright.Proofs.Compile.Unterminated
import Shellwright.Proofs.Descent.Bounds
import Shellwright.Proofs.Program.End
import Shellwright.Proofs.Program.Faults
import Shellwright.Proofs.Program.Pipe
import Shellwright.Proofs.Program.Plain
import Shellwright.Proofs.Program.Refusal
import Shellwright.Proofs.Script.Demands
import Shellwright.Proofs.Script.Splitting
