import LetLower.NameSupply
import LetLower.Ty.Subst

/-!
# Type environments, generalisation and instantiation

A type is generalised over the variables that the environment does not mention, and a scheme is
instantiated by handing out fresh variables to its bound names in their order.
-/

namespace LetLower

abbrev TyEnv := Bindings Scheme

namespace TyEnv

def free (env : TyEnv) : NameSet := env.values.foldl (fun vs c => vs.union c.free) ∅

def apply (s : Subst) (env : TyEnv) : TyEnv := env.map (Scheme.apply s)

def generalize (env : TyEnv) (t : Ty) : Scheme := ⟨t.free.diff env.free, t⟩

theorem mem_free {env : TyEnv} {z : String} :
    z ∈ env.free ↔ ∃ x c, env.get? x = some c ∧ z ∈ c.free := by
  have key : ∀ (cs : List Scheme) (vs : NameSet),
      z ∈ cs.foldl (fun vs c => vs.union c.free) vs ↔ z ∈ vs ∨ ∃ c ∈ cs, z ∈ c.free := by
    intro cs
    induction cs with
    | nil => simp
    | cons c cs ih => intro vs; rw [List.foldl_cons, ih]; simp [or_assoc]
  rw [free, key]
  simp only [NameSet.not_mem_empty, false_or, Bindings.values, List.mem_map]
  constructor
  · rintro ⟨c, ⟨⟨x, d⟩, he, rfl⟩, hz⟩
    exact ⟨x, d, Bindings.get?_eq_some_iff.2 he, hz⟩
  · rintro ⟨x, c, hx, hz⟩
    exact ⟨c, ⟨_, Bindings.get?_eq_some_iff.1 hx, rfl⟩, hz⟩

def builtins : TyEnv := .single "add" (.mono (.arrows [.int, .int] .int))

def ofBuiltins (names : List String) : Except Fault TyEnv :=
  names.foldlM (fun env x =>
    match builtins.get? x with
    | some c => .ok (env.insert x c)
    | none => .error (.unknownBuiltin x)) ∅

end TyEnv

namespace Scheme

def freshVars : List String → NameSupply → List (String × Ty) × NameSupply
  | [], names => ([], names)
  | x :: xs, names =>
    let (y, names) := names.fresh
    let (es, names) := freshVars xs names
    ((x, .var y) :: es, names)

theorem map_fst_freshVars (xs : List String) (names : NameSupply) :
    (freshVars xs names).1.map Prod.fst = xs := by
  induction xs generalizing names with
  | nil => rfl
  | cons x xs ih => simp [freshVars, ih]

def freshSubst (c : Scheme) (names : NameSupply) : Subst :=
  ⟨(freshVars c.bound.names names).1, by rw [map_fst_freshVars]; exact c.bound.nodup⟩

def instantiate (c : Scheme) (names : NameSupply) : Ty × NameSupply :=
  (c.body.apply (c.freshSubst names), (freshVars c.bound.names names).2)

end Scheme

/-- The type of a function of several arguments, the result last. -/
def Ty.ofList (ts : List Ty) : Except Fault Ty :=
  match ts.getLast? with
  | some result => .ok (arrows ts.dropLast result)
  | none => .error .noTypes

end LetLower
