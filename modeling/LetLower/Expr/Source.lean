import LetLower.Expr.Basic

/-!
# The source text of an expression

Literals, names and applications stand without parentheses where a function is called or an
operator applied, and only literals and names do where they are an argument. A `let`, a function
and a conditional reach as far to the right as they can.
-/

namespace LetLower.Expr

def isAtom : Expr → Bool
  | int .. | bool .. | var .. => true
  | _ => false

def isApp : Expr → Bool
  | app .. => true
  | _ => false

def parens (s : String) : String := "(" ++ s ++ ")"

/-- The text of a tree. A bare node has none; `source?` refuses it. Integers are idealised: they are
written at any length, and the limit of `Text.integerText` is not applied. -/
def source : Expr → String
  | int _ n => toString n
  | bool _ b => if b then "true" else "false"
  | var _ x => x
  | lam _ x b => x ++ " -> " ++ b.source
  | app _ f a =>
    (if f.isAtom || f.isApp then f.source else parens f.source) ++ " "
      ++ (if a.isAtom then a.source else parens a.source)
  | letRec _ x v b => "let rec " ++ x ++ " = " ++ v.source ++ " in " ++ b.source
  | letIn _ x v b => "let " ++ x ++ " = " ++ v.source ++ " in " ++ b.source
  | binary _ op l r =>
    (if l.isAtom || l.isApp then l.source else parens l.source) ++ " " ++ op.symbol ++ " "
      ++ (if r.isAtom || r.isApp then r.source else parens r.source)
  | cond _ c t e => "if " ++ c.source ++ " then " ++ t.source ++ " else " ++ e.source
  | bare _ => "?"

def source? (e : Expr) : Except Fault String :=
  if e.isKnown then .ok e.source else .error .unknownNode

end LetLower.Expr
