import LetLower.Log

/-!
# Passes

A pass over a program draws fresh names, keeps the log, and may fail. A failure keeps the names
that were drawn and what was logged before it.
-/

namespace LetLower

/-- A mistake in the program, or an operation used outside its domain. -/
inductive Failure where
  | diagnostic (d : Diagnostic)
  | fault (f : Fault)
deriving Repr

def Failure.configError (key message : String) : Failure :=
  .diagnostic (.configError key message)

structure PassState where
  names : NameSupply
  /-- The newest entry first. -/
  log : List LogEntry := []

abbrev Pass := EStateM Failure PassState

namespace Pass

variable {α : Type}

def fail (f : Failure) : Pass α := fun s => .error f s

def report (d : Diagnostic) : Pass α := fail (.diagnostic d)

def fault (f : Fault) : Pass α := fail (.fault f)

def orFault : Except Fault α → Pass α
  | .ok a => pure a
  | .error f => fault f

def orFailure : Except Failure α → Pass α
  | .ok a => pure a
  | .error f => fail f

def note (e : Event) : Pass Unit := fun s =>
  .ok () { s with log := ⟨e, s.names⟩ :: s.log }

def draw (f : NameSupply → α × NameSupply) : Pass α := fun s =>
  let (a, names) := f s.names
  .ok a { s with names }

def fresh : Pass String := draw NameSupply.fresh

def freshFrom (base : String) : Pass String := draw (NameSupply.freshFrom base)

def freshVar : Pass Ty := return .var (← fresh)

/-- Run a part of the work on a supply of its own; the other supply waits meanwhile. -/
def withNames (names : NameSupply) (x : Pass α) : Pass α := fun s =>
  let resume (t : PassState) : PassState :=
    { names := s.names, log := t.log.map (fun e => { e with names := s.names }) ++ s.log }
  match x { names } with
  | .ok a t => .ok a (resume t)
  | .error f t => .error f (resume t)

def compose (newer older : Subst) : Pass Subst := do
  note (.composed newer older)
  return Subst.compose newer older

def composeAll (ss : List Subst) : Pass Subst :=
  ss.foldlM (fun acc s => compose s acc) ∅

def generalize (env : TyEnv) (t : Ty) : Pass Scheme := do
  let c := env.generalize t
  if !c.bound.isEmpty then note (.generalized c)
  return c

def instantiate (c : Scheme) : Pass Ty := draw c.instantiate

/-- The failure that a problem without solution is. The place is that of the node at fault. -/
def ofUnifyError (loc : Option Location) : UnifyError → Failure
  | .mismatch expected actual =>
    match Diagnostic.typeMismatch expected actual loc with
    | .ok d => .diagnostic d
    | .error f => .fault f
  | .occurs x t =>
    match Diagnostic.infiniteType x t loc with
    | .ok d => .diagnostic d
    | .error f => .fault f
  | .quantified actual expected =>
    match actual.render?, expected.render? with
    | .ok a, .ok e => .fault (.schemeInUnification a e)
    | .error f, _ | _, .error f => .fault f
  | .unknown => .fault .unknownType

def unify (actual expected : Ty) (loc : Option Location) : Pass Ty.Unifier := do
  note (.unified actual expected)
  match Ty.unify actual expected with
  | .ok u => return u
  | .error e => fail (ofUnifyError loc e)

/-- Solve one problem more, under a solution of those before it: the common type, and the solution
of all. -/
def unifyUnder (solution : Subst) (actual expected : Ty) : Pass Ty.Unifier := do
  let u ← unify (actual.apply solution) (expected.apply solution) none
  return ⟨u.type, ← compose u.subst solution⟩

def run (x : Pass α) (names : NameSupply) : Except Failure α × NameSupply × List LogEntry :=
  match EStateM.run x { names } with
  | .ok a s => (.ok a, s.names, s.log.reverse)
  | .error f s => (.error f, s.names, s.log.reverse)

end Pass
end LetLower
