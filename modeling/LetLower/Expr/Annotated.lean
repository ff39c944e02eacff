import LetLower.Expr.Source
import LetLower.Text.Padding

/-!
# Annotated trees

Types are put in through a substitution, listed line by line, and taken away again.
-/

namespace LetLower.Expr

def substitute (s : Subst) (e : Expr) : Expr :=
  e.mapMark fun m => { m with ty := m.ty.map (Ty.apply s) }

def substitute? (s : Subst) (e : Expr) : Except Fault Expr :=
  if e.isAnnotated then .ok (e.substitute s) else .error .notAnnotated

/-- Take the types away, from the root down to the first nodes that have none. -/
def strip : Expr → Expr
  | int m n => int { m with ty := none } n
  | bool m b => bool { m with ty := none } b
  | var m x => var { m with ty := none } x
  | lam m x b => if m.ty.isSome then lam { m with ty := none } x b.strip else lam m x b
  | app m f a =>
    if m.ty.isSome then app { m with ty := none } f.strip a.strip else app m f a
  | letIn m x v b =>
    if m.ty.isSome then letIn { m with ty := none } x v.strip b.strip else letIn m x v b
  | letRec m x v b =>
    if m.ty.isSome then letRec { m with ty := none } x v.strip b.strip else letRec m x v b
  | binary m op l r =>
    if m.ty.isSome then binary { m with ty := none } op l.strip r.strip else binary m op l r
  | cond m c t e =>
    if m.ty.isSome then cond { m with ty := none } c.strip t.strip e.strip else cond m c t e
  | bare m => bare m

def parts (e : Expr) : Except Fault (List String) :=
  if e.hasTy then
    .ok <| match e with
      | int .. | bool .. | var .. | bare .. => []
      | lam .. => ["body"]
      | app .. => ["callee", "argument"]
      | letIn .. | letRec .. => ["value", "body"]
      | binary .. => ["left", "right"]
      | cond .. => ["condition", "then", "otherwise"]
  else .error .notAnnotated

def headline (e : Expr) : String :=
  match e with
  | int .. | bool .. | var .. => e.kind ++ " " ++ e.source
  | lam _ x _ | letIn _ x _ _ | letRec _ x _ _ => e.kind ++ " " ++ x
  | binary _ op _ _ => e.kind ++ " " ++ op.symbol
  | app .. | cond .. | bare .. => e.kind

def typedLine (e : Expr) (indent : Int) : Except Fault String := do
  let t ← e.getTy
  let text ← t.render?
  return String.ofList (List.replicate (2 * indent.toNat) ' ') ++ e.headline ++ " : " ++ text

/-- A listing with one node a line and its type, its parts below it and further in. -/
def typedLines (indent : Int) : Expr → Except Fault (List String)
  | e@(int ..) | e@(bool ..) | e@(var ..) | e@(bare _) => do return [← e.typedLine indent]
  | e@(lam _ _ b) => do
    let head ← e.typedLine indent
    return head :: (← b.typedLines (indent + 1))
  | e@(app _ a b) | e@(letIn _ _ a b) | e@(letRec _ _ a b) | e@(binary _ _ a b) => do
    let head ← e.typedLine indent
    let first ← a.typedLines (indent + 1)
    return head :: first ++ (← b.typedLines (indent + 1))
  | e@(cond _ a b c) => do
    let head ← e.typedLine indent
    let first ← a.typedLines (indent + 1)
    let second ← b.typedLines (indent + 1)
    return head :: first ++ second ++ (← c.typedLines (indent + 1))

def typedText (e : Expr) (indent : Int := 0) : Except Fault String := do
  Text.checkPadding 2 indent
  return "\n".intercalate (← e.typedLines indent)

end LetLower.Expr
