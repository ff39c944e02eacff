import LetLower.Ty.Subst

/-!
# Expressions

Literals, names, functions of one parameter, application, `let` and `let rec`, three operators on
integers, and a conditional. A node may carry the place it was read from and a type. Both source
trees and annotated trees are values of `Expr`; so is any mixture, and `IsAnnotated` says that
every node has its type. `bare` is a node of no kind at all.
-/

namespace LetLower

structure Location where
  line : Int
  column : Int
  file : String := "<stdin>"
deriving DecidableEq, Repr

def Location.render (l : Location) : String := s!"{l.file}:{l.line}:{l.column}"

structure Mark where
  loc : Option Location := none
  ty : Option Ty := none
deriving DecidableEq, Repr, Inhabited

inductive Operator where
  | add
  | sub
  | less
deriving DecidableEq, Repr

namespace Operator

def symbol : Operator → String
  | add => "+"
  | sub => "-"
  | less => "<"

def ofSymbol? (s : String) : Except Fault Operator :=
  if s = "+" then .ok add
  else if s = "-" then .ok sub
  else if s = "<" then .ok less
  else .error (.unknownOperator s)

def resultTy : Operator → Ty
  | add | sub => .int
  | less => .bool

end Operator

inductive Expr where
  | int (mark : Mark) (value : Int)
  | bool (mark : Mark) (value : Bool)
  | var (mark : Mark) (name : String)
  | lam (mark : Mark) (parameter : String) (body : Expr)
  | app (mark : Mark) (callee argument : Expr)
  | letIn (mark : Mark) (name : String) (value body : Expr)
  | letRec (mark : Mark) (name : String) (value body : Expr)
  | binary (mark : Mark) (op : Operator) (left right : Expr)
  | cond (mark : Mark) (condition thenBranch elseBranch : Expr)
  | bare (mark : Mark)
deriving DecidableEq, Repr, Inhabited

namespace Expr

def mark : Expr → Mark
  | int m _ | bool m _ | var m _ | lam m _ _ | app m _ _ | letIn m _ _ _ | letRec m _ _ _
  | binary m _ _ _ | cond m _ _ _ | bare m => m

def loc (e : Expr) : Option Location := e.mark.loc

def ty? (e : Expr) : Option Ty := e.mark.ty

def mapMark (f : Mark → Mark) : Expr → Expr
  | int m n => int (f m) n
  | bool m b => bool (f m) b
  | var m x => var (f m) x
  | lam m x b => lam (f m) x (b.mapMark f)
  | app m g a => app (f m) (g.mapMark f) (a.mapMark f)
  | letIn m x v b => letIn (f m) x (v.mapMark f) (b.mapMark f)
  | letRec m x v b => letRec (f m) x (v.mapMark f) (b.mapMark f)
  | binary m op l r => binary (f m) op (l.mapMark f) (r.mapMark f)
  | cond m c t e => cond (f m) (c.mapMark f) (t.mapMark f) (e.mapMark f)
  | bare m => bare (f m)

def unplaced (e : Expr) : Expr := e.mapMark fun m => { m with loc := none }

def sameAs (a b : Expr) : Bool := a.unplaced = b.unplaced

def size : Expr → Nat
  | int .. | bool .. | var .. | bare .. => 1
  | lam _ _ b => b.size + 1
  | app _ a b | letIn _ _ a b | letRec _ _ a b | binary _ _ a b => a.size + b.size + 1
  | cond _ a b c => a.size + b.size + c.size + 1

/-- No node is bare. -/
def isKnown : Expr → Bool
  | bare _ => false
  | int .. | bool .. | var .. => true
  | lam _ _ b => b.isKnown
  | app _ a b | letIn _ _ a b | letRec _ _ a b | binary _ _ a b => a.isKnown && b.isKnown
  | cond _ a b c => a.isKnown && b.isKnown && c.isKnown

/-- A node of a kind that has a type, and has it. -/
def hasTy : Expr → Bool
  | bare _ => false
  | e => e.ty?.isSome

/-- Every node has its type. -/
def isAnnotated : Expr → Bool
  | int m _ | bool m _ | var m _ => m.ty.isSome
  | lam m _ b => m.ty.isSome && b.isAnnotated
  | app m a b | letIn m _ a b | letRec m _ a b | binary m _ a b =>
    m.ty.isSome && a.isAnnotated && b.isAnnotated
  | cond m a b c => m.ty.isSome && a.isAnnotated && b.isAnnotated && c.isAnnotated
  | bare _ => false

def kind : Expr → String
  | int .. => "IntLiteral"
  | bool .. => "BoolLiteral"
  | var .. => "Identifier"
  | lam .. => "Abstraction"
  | app .. => "Application"
  | letIn .. => "Let"
  | letRec .. => "RecursiveLet"
  | binary .. => "BinaryOp"
  | cond .. => "IfElse"
  | bare .. => "Expr"

/-- The kind under which a node is reported: one with a type has a kind of its own. -/
def reportedKind (e : Expr) : String := if e.hasTy then "Typed" ++ e.kind else e.kind

def getTy (e : Expr) : Except Fault Ty :=
  match e, e.ty? with
  | bare _, _ | _, none => .error (.untypedNode e.reportedKind)
  | _, some t => .ok t

/-- The names that occur free: a `let` binds in its body, a `let rec` in its value too. -/
def free : Expr → NameSet
  | var _ x => .single x
  | int .. | bool .. | bare .. => ∅
  | lam _ x b => b.free.erase x
  | app _ a b | binary _ _ a b => a.free.union b.free
  | letIn _ x v b => v.free.union (b.free.erase x)
  | letRec _ x v b => (v.free.union b.free).erase x
  | cond _ c t e => (c.free.union t.free).union e.free

def free? (e : Expr) : Except Fault NameSet :=
  if e.isKnown then .ok e.free else .error .unknownNode

end Expr
end LetLower
