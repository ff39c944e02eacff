import LetLower.Data.Yaml.Node
import LetLower.Data.Yaml.Scalar

/-!
# Reading YAML

One document of scalars, lists and mappings. The fields of a mapping may be taken over from others
under the name `<<`; those it has itself come after them and count. Lists and mappings are no names
of fields.

What is wrong with a document is looked for level by level: first in all scalars of the outermost
list or mapping, then in those of the lists and mappings that are its items or values, and so on.
-/

namespace LetLower.Data.Yaml

def Node.isMerge : Node → Bool
  | plain s => s.toList = mergeWord
  | _ => false

def Node.name : Node → Reading Data
  | plain s => if s.toList = valueWord then .ok (text s) else ofPlain s.toList
  | quoted ss => .ok (ofSymbols ss)
  | list _ | map _ => refuse

mutual

def mergeFields : Nat → List (Node × Node) → Reading (List (Node × Node) × List (Node × Node))
  | 0, _ => refuse
  | _, [] => .ok ([], [])
  | fuel + 1, (k, v) :: fields => do
    if k.isMerge then
      let taken ← fieldsOf fuel v
      let (merged, own) ← mergeFields fuel fields
      return (taken ++ merged, own)
    else
      let (merged, own) ← mergeFields fuel fields
      return (merged, (k, v) :: own)

/-- The fields that a value has to give; of several mappings, the first one has the last word. -/
def fieldsOf : Nat → Node → Reading (List (Node × Node))
  | 0, _ => refuse
  | fuel + 1, n =>
    match n with
    | .map fields => allFields fuel fields
    | .list items => do
      let parts ← mappingsOf fuel items
      return parts.reverse.flatten
    | .plain _ | .quoted _ => refuse

def mappingsOf : Nat → List Node → Reading (List (List (Node × Node)))
  | 0, _ => refuse
  | _, [] => .ok []
  | fuel + 1, n :: ns => do
    let .map fields := n | refuse
    let first ← allFields fuel fields
    return first :: (← mappingsOf fuel ns)

def allFields : Nat → List (Node × Node) → Reading (List (Node × Node))
  | 0, _ => refuse
  | fuel + 1, fields => do
    let (merged, own) ← mergeFields fuel fields
    return merged ++ own

end

mutual

def Node.size : Node → Nat
  | .plain _ | .quoted _ => 1
  | .list items => 1 + sizeItems items
  | .map fields => 1 + sizeFields fields

def sizeItems : List Node → Nat
  | [] => 0
  | n :: ns => n.size + sizeItems ns

def sizeFields : List (Node × Node) → Nat
  | [] => 0
  | (k, v) :: fs => k.size + v.size + sizeFields fs

end

def Node.steps (n : Node) : Nat := 4 * n.size + 4

def fullFields (fields : List (Node × Node)) : Reading (List (Node × Node)) :=
  allFields (Node.map fields).steps fields

/-- A scalar has a value; anything else is left for the next level. -/
def checkValue (n : Node) : Reading (List Node) :=
  match n with
  | .plain s => (ofPlain s.toList).map fun _ => []
  | .quoted _ => .ok []
  | .list _ | .map _ => .ok [n]

def checkLevel (n : Node) : Reading (List Node) :=
  match n with
  | .plain _ | .quoted _ => checkValue n
  | .list items => return (← items.mapM checkValue).flatten
  | .map fields => do
    let below ← (← fullFields fields).mapM fun (k, v) => do
      let _ ← k.name
      checkValue v
    return below.flatten

def checkLevels : Nat → List Node → Reading Unit
  | 0, _ => .ok ()
  | fuel + 1, ns => do
    if ns.isEmpty then return ()
    else checkLevels fuel (← ns.mapM checkLevel).flatten

mutual

def value : Nat → Node → Reading Data
  | 0, _ => refuse
  | fuel + 1, n =>
    match n with
    | .plain s => ofPlain s.toList
    | .quoted ss => .ok (ofSymbols ss)
    | .list items => (values fuel items).map list
    | .map fields => do return object (← named fuel [] (← fullFields fields))

def values : Nat → List Node → Reading (List Data)
  | 0, _ => refuse
  | _, [] => .ok []
  | fuel + 1, n :: ns => do return (← value fuel n) :: (← values fuel ns)

def named : Nat → List (Data × Data) → List (Node × Node) → Reading (List (Data × Data))
  | 0, _, _ => refuse
  | _, acc, [] => .ok acc
  | fuel + 1, acc, (k, v) :: fields => do
    let x ← k.name
    let d ← value fuel v
    named fuel (setField acc x d) fields

end

def isAllowed (c : Char) : Bool :=
  c = '\t' || c = '\n' || (' ' ≤ c && c ≤ '~') || c = '\u0085'
    || ('\u00a0' ≤ c && c.toNat ≤ 0xfffd) || 0x10000 ≤ c.toNat

/-- The one document of a text whose lines end in newlines; a text without a document is null. -/
def read (s : String) : Reading Data := do
  let cs := s.toList
  if !cs.all isAllowed then refuse
  else
    match ← Node.ofTokens (Token.ofText cs) with
    | none => return null
    | some n =>
      checkLevels n.steps [n]
      value n.steps n

end LetLower.Data.Yaml
