import LetLower.Pass

/-!
# What a supply is asked for

A name, a name made from a base, or a type variable, which is known by its name. All of them take
their numbers from one counter.
-/

namespace LetLower

inductive Request where
  | name
  | nameFrom (base : String)
  | typeVar
deriving DecidableEq, Repr

namespace Pass

def serve : Request → Pass String
  | .name => fresh
  | .nameFrom base => freshFrom base
  | .typeVar => return (← freshVar).render

def serveAll (rs : List Request) : Pass (List String) := rs.mapM serve

end Pass
end LetLower
