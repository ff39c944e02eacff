import LetLower.Diagnostic
import LetLower.Expr.Annotated
import LetLower.Ty.Unify

/-!
# The log of a compilation

What the phases report about their work, as events. Events are always recorded and read later at
some level, so what a phase does never depends on who listens. Only reading needs the texts of
types and trees; where one has none, reading stops, see `Log.read`.
-/

namespace LetLower

inductive LogLevel where
  | debug
  | info
deriving DecidableEq, Repr

inductive Channel where
  | types
  | unification
  | inference
  | inlining
  | lowering
  | pipeline
deriving DecidableEq, Repr

inductive Event where
  | composed (newer older : Subst)
  | generalized (scheme : Scheme)
  | unified (actual expected : Ty)
  | bound (recursive : Bool) (name : String) (scheme : Scheme)
  | inferred (type : Ty) (subst : Subst)
  | inlined (callee : Expr) (parameter : String) (argument : Expr)
  | eliminated (name : String) (value : Expr)
  | rotated (name nested fresh : String)
  | reassociated (name parameter fresh : String)
  | renamed (name fresh : String)
  | assigned (slot : Nat) (name : String)
  | lowered (name : String) (parameters locals : Nat)
  | typed (type : String)
  | annotated (tree : Expr)
  | flattened (tree : Expr)
  | failed (report : String)
  | generated (functions : Nat)
deriving Repr

/-- A line of the log. The text is missing where it would have to show what has no text. -/
structure LogLine where
  channel : Channel
  level : LogLevel
  text : Except Fault String

namespace Event

def composedText (newer older : Subst) : Except Fault String := do
  let n ← newer.render?
  let o ← older.render?
  let c ← (Subst.compose newer older).render?
  return s!"compose {n} into {o} = {c}"

def composedLines (newer older : Subst) : List LogLine :=
  if newer.isEmpty || older.isEmpty then []
  else [⟨.types, .debug, composedText newer older⟩]

def unifiedText (a b : Ty) : Except Fault String := do
  let a ← a.render?
  let b ← b.render?
  return s!"unify {a} ~ {b}"

/-- A line for each problem on the way, and one for each composition of solutions. -/
def unifiedLines (a b : Ty) : List LogLine :=
  ⟨.unification, .debug, unifiedText a b⟩ ::
    match a, b with
    | .fn a a', .fn b b' =>
      unifiedLines a b ++
        match Ty.solve a b with
        | .error _ => []
        | .ok s =>
          unifiedLines (a'.apply s.1) (b'.apply s.1) ++
            match Ty.solve (a'.apply s.1) (b'.apply s.1) with
            | .error _ => []
            | .ok s' => composedLines s'.1 s.1
    | _, _ => []
termination_by Ty.measure a b
decreasing_by
  · exact Ty.measure_arguments_lt a a' b b'
  · exact Ty.measure_results_lt a' b' s.2

def lines : Event → List LogLine
  | composed newer older => composedLines newer older
  | generalized c => [⟨.types, .debug, c.toTy.render?.map ("generalized " ++ ·)⟩]
  | unified a b => unifiedLines a b
  | bound recursive x c =>
    let head := if recursive then "let rec " else "let "
    [⟨.inference, .debug, c.toTy.render?.map (head ++ x ++ " : " ++ ·)⟩]
  | inferred t s => [⟨.inference, .debug, do
      let t ← t.render?
      let s ← s.render?
      return s!"inferred {t} with {s}"⟩]
  | inlined f x a => [⟨.inlining, .debug, do
      let f ← f.source?
      let a ← a.source?
      return s!"inline {f} with {x} := {a}"⟩]
  | eliminated x v => [⟨.inlining, .debug, v.source?.map fun v => s!"eliminate let {x} = {v}"⟩]
  | rotated x y z => [⟨.inlining, .debug, .ok s!"rotate let {x}: rename {y} to {z}"⟩]
  | reassociated x y z =>
    [⟨.inlining, .debug, .ok s!"reassociate let {x} over {y} (renamed {z})"⟩]
  | renamed x y => [⟨.inlining, .debug, .ok s!"alpha-rename {x} to {y}"⟩]
  | assigned slot x => [⟨.lowering, .debug, .ok s!"slot {slot} <- {x}"⟩]
  | lowered x parameters locals =>
    [⟨.lowering, .debug,
      .ok s!"generated {x} with {parameters} param(s) and {locals} local(s)"⟩]
  | typed t => [⟨.pipeline, .info, .ok s!"inferred {t}"⟩]
  | annotated e => [⟨.pipeline, .debug, e.typedText.map ("annotated tree:\n" ++ ·)⟩]
  | flattened e => [⟨.pipeline, .info, e.source?.map ("down-levelled to " ++ ·)⟩]
  | failed report => [⟨.pipeline, .info, .ok s!"compilation failed: {report}"⟩]
  | generated n => [⟨.pipeline, .info, .ok s!"generated IR module with {n} function(s)"⟩]

end Event

structure LogEntry where
  event : Event
  names : NameSupply

namespace Log

/-- The lines that are heard at a level, each with the supply of its moment. -/
def heard (level : LogLevel) (log : List LogEntry) : List (LogLine × NameSupply) :=
  log.flatMap fun entry =>
    (entry.event.lines.filter fun l => level = .debug || l.level = .info).map (·, entry.names)

/-- The lines up to the first whose text is missing; its fault and moment come with them. -/
def untilFault : List (LogLine × NameSupply) →
    List (Channel × LogLevel × String) × Option (Fault × NameSupply)
  | [] => ([], none)
  | (l, names) :: rest =>
    match l.text with
    | .error f => ([], some (f, names))
    | .ok t =>
      let (lines, stop) := untilFault rest
      ((l.channel, l.level, t) :: lines, stop)

/-- Read a log at a level. -/
def read (level : LogLevel) (log : List LogEntry) :
    List (Channel × LogLevel × String) × Option (Fault × NameSupply) :=
  untilFault (heard level log)

end Log
end LetLower
