import LetLower.Data.Yaml.Token

/-!
# The tree of a document

Scalars, lists and mappings, as the tokens put them. A value that is left out is an empty plain
scalar.
-/

namespace LetLower.Data.Yaml

inductive Node where
  | plain (text : String)
  | quoted (symbols : List Text.Symbol)
  | list (items : List Node)
  | map (fields : List (Node × Node))
deriving Repr, Inhabited

namespace Node

def empty : Node := plain ""

def unexpected {α : Type} : List Token → Reading α
  | .failed e :: _ => .error e
  | _ => refuse

def nextIs (choices : List Token) (ts : List Token) : Bool :=
  match ts with
  | t :: _ => choices.contains t
  | [] => false

mutual

/-- A node. Lists and mappings told by indentation may stand where `inBlock` is, and items without
an indent of their own where `isIndentless` is. -/
def node (inBlock isIndentless : Bool) : Nat → List Token → Reading (Node × List Token)
  | 0, _ => refuse
  | fuel + 1, ts =>
    match ts with
    | .plain s :: ts => .ok (plain s, ts)
    | .quoted ss :: ts => .ok (quoted ss, ts)
    | .openList :: ts => flowItems true fuel [] ts
    | .openMap :: ts => flowFields true fuel [] ts
    | .blockList :: rest => if inBlock then blockItems fuel [] rest else unexpected ts
    | .blockMap :: rest => if inBlock then blockFields fuel [] rest else unexpected ts
    | .dash :: _ => if isIndentless then indentlessItems fuel [] ts else unexpected ts
    | _ => unexpected ts

def nodeOr (ends : List Token) (inBlock isIndentless : Bool) :
    Nat → List Token → Reading (Node × List Token)
  | 0, _ => refuse
  | fuel + 1, ts =>
    if nextIs ends ts then .ok (empty, ts) else node inBlock isIndentless fuel ts

def blockItems : Nat → List Node → List Token → Reading (Node × List Token)
  | 0, _, _ => refuse
  | fuel + 1, acc, ts =>
    match ts with
    | .dash :: ts => do
      let (n, ts) ← nodeOr [.dash, .blockEnd] true false fuel ts
      blockItems fuel (n :: acc) ts
    | .blockEnd :: ts => .ok (list acc.reverse, ts)
    | _ => unexpected ts

/-- Items that stand as far left as the key before them. -/
def indentlessItems : Nat → List Node → List Token → Reading (Node × List Token)
  | 0, _, _ => refuse
  | fuel + 1, acc, ts =>
    match ts with
    | .dash :: ts => do
      let (n, ts) ← nodeOr [.dash, .key, .value, .blockEnd] true false fuel ts
      indentlessItems fuel (n :: acc) ts
    | _ => .ok (list acc.reverse, ts)

def fieldValue (ends : List Token) (inBlock : Bool) : Nat → List Token → Reading (Node × List Token)
  | 0, _ => refuse
  | fuel + 1, ts =>
    match ts with
    | .value :: ts => nodeOr ends inBlock inBlock fuel ts
    | _ => .ok (empty, ts)

def blockFields : Nat → List (Node × Node) → List Token → Reading (Node × List Token)
  | 0, _, _ => refuse
  | fuel + 1, acc, ts =>
    match ts with
    | .key :: ts => do
      let (k, ts) ← nodeOr [.key, .value, .blockEnd] true true fuel ts
      let (v, ts) ← fieldValue [.key, .value, .blockEnd] true fuel ts
      blockFields fuel ((k, v) :: acc) ts
    | .blockEnd :: ts => .ok (map acc.reverse, ts)
    | _ => unexpected ts

/-- The items of a list between brackets. A field among them is a mapping of its own. -/
def flowItems (isFirst : Bool) : Nat → List Node → List Token → Reading (Node × List Token)
  | 0, _, _ => refuse
  | fuel + 1, acc, ts =>
    match ts with
    | .closeList :: ts => .ok (list acc.reverse, ts)
    | .comma :: rest => if isFirst then unexpected ts else flowItem fuel acc rest
    | _ => if isFirst then flowItem fuel acc ts else unexpected ts

def flowItem : Nat → List Node → List Token → Reading (Node × List Token)
  | 0, _, _ => refuse
  | fuel + 1, acc, ts =>
    match ts with
    | .closeList :: ts => .ok (list acc.reverse, ts)
    | .key :: ts => do
      let (k, ts) ← nodeOr [.value, .comma, .closeList] false false fuel ts
      let (v, ts) ← fieldValue [.comma, .closeList] false fuel ts
      flowItems false fuel (map [(k, v)] :: acc) ts
    | _ => do
      let (n, ts) ← node false false fuel ts
      flowItems false fuel (n :: acc) ts

def flowFields (isFirst : Bool) :
    Nat → List (Node × Node) → List Token → Reading (Node × List Token)
  | 0, _, _ => refuse
  | fuel + 1, acc, ts =>
    match ts with
    | .closeMap :: ts => .ok (map acc.reverse, ts)
    | .comma :: rest => if isFirst then unexpected ts else flowField fuel acc rest
    | _ => if isFirst then flowField fuel acc ts else unexpected ts

/-- A field between brackets; a node without a colon is a key without a value. -/
def flowField : Nat → List (Node × Node) → List Token → Reading (Node × List Token)
  | 0, _, _ => refuse
  | fuel + 1, acc, ts =>
    match ts with
    | .closeMap :: ts => .ok (map acc.reverse, ts)
    | .key :: ts => do
      let (k, ts) ← nodeOr [.value, .comma, .closeMap] false false fuel ts
      let (v, ts) ← fieldValue [.comma, .closeMap] false fuel ts
      flowFields false fuel ((k, v) :: acc) ts
    | _ => do
      let (k, ts) ← node false false fuel ts
      flowFields false fuel ((k, empty) :: acc) ts

end

def ofTokens (ts : List Token) : Reading (Option Node) := do
  let fuel := 4 * ts.length + 4
  match ts with
  | [.streamEnd] => return none
  | _ =>
    let (n, rest) ← match ts with
      | .documentStart :: ts =>
        nodeOr [.documentStart, .documentEnd, .streamEnd] true false fuel ts
      | _ => node true false fuel ts
    match rest.dropWhile (· = .documentEnd) with
    | [.streamEnd] => return some n
    | rest => unexpected rest

end Node
end LetLower.Data.Yaml
