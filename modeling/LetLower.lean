import LetLower.Compile
import LetLower.Config.Files
import LetLower.Eval
import LetLower.Typing
import LetLower.Expr.Alpha
import LetLower.Expr.Normal
import LetLower.Code.Eval
import LetLower.Code.WellFormed
import LetLower.Llvm.Names
import LetLower.Proofs.Compile
import LetLower.Proofs.Compile.Invariance
import LetLower.Proofs.Compile.Reports
import LetLower.Proofs.Compile.Straight
import LetLower.Proofs.Flatten.Bindings
import LetLower.Proofs.Inline.Calls
import LetLower.Proofs.Inline.Inference
import LetLower.Proofs.Inline.Normal
import LetLower.Proofs.Inline.Termination
import LetLower.Proofs.Lower
import LetLower.Proofs.Names.Distinct
import LetLower.Proofs.Generalization
import LetLower.Proofs.Renaming
import LetLower.Proofs.Unification
import LetLower.Proofs.Unification.Symmetry
import LetLower.Proofs.Unification.Termination
import LetLower.Proofs.Substitution
import LetLower.Proofs.Infer.Solved
import LetLower.Proofs.Infer.Supply
import LetLower.Proofs.Infer.Undefined
import LetLower.Proofs.Infer.Capture
import LetLower.Proofs.Expr.Source
import LetLower.Proofs.Ty.Render
import LetLower.Proofs.Ty.Alpha
