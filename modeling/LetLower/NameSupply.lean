/-!
# Fresh names

One counter feeds two kinds of names: the stem followed by the number, and a base followed by
`$` and the number. A base is cut at its first `$`, so renaming a renamed name does not pile up
marks, and a name without `$` is never handed out for a base.
-/

namespace LetLower

structure NameSupply where
  stem : String := "t"
  next : Int := 0
deriving DecidableEq, Repr, Inhabited

namespace NameSupply

def advance (s : NameSupply) : NameSupply := { s with next := s.next + 1 }

/-- The number is idealised: it is written at any length here and in `freshFrom`, and the limit of
`Text.integerText` is not applied. -/
def fresh (s : NameSupply) : String × NameSupply := (s.stem ++ toString s.next, s.advance)

/-- The part of a name before its first `$`. -/
def root (base : String) : String := String.ofList (base.toList.takeWhile (· ≠ '$'))

def freshFrom (base : String) (s : NameSupply) : String × NameSupply :=
  (root base ++ "$" ++ toString s.next, s.advance)

end NameSupply
end LetLower
