import LetLower.Code.Lower
import LetLower.Config.Basic
import LetLower.Typing
import LetLower.Proofs.Ty.Bind

/-!
# The predefined names

A valid configuration gives a closed environment, in which the only name is that of the sum.
-/

namespace LetLower

namespace TyEnv

def sumTy : Ty := .arrows [.int, .int] .int

/-- Only the predefined function has a type. -/
def IsBuiltin (env : TyEnv) : Prop := ∀ x c, env.get? x = some c → x = addName ∧ c = .mono sumTy

theorem IsBuiltin.isClosed {env : TyEnv} (h : env.IsBuiltin) : env.IsClosed := by
  intro x c hx
  obtain ⟨_, rfl⟩ := h x c hx
  exact ⟨fun z hz => absurd ((Scheme.free_mono _).1 hz) (by simp [sumTy, Ty.arrows, Ty.free]),
    ⟨trivial, trivial, trivial⟩⟩

theorem exists_ofBuiltins {names : List String} (h : ∀ x ∈ names, x ∈ builtins) :
    ∃ env, ofBuiltins names = .ok env ∧ env.IsBuiltin := by
  have key : ∀ {f : TyEnv → String → Except Fault TyEnv} {names : List String} {env : TyEnv},
      (∀ env, f env addName = .ok (env.insert addName (.mono sumTy))) →
      (∀ x ∈ names, x ∈ builtins) → env.IsBuiltin →
      ∃ env', names.foldlM f env = .ok env' ∧ env'.IsBuiltin := by
    intro f names env hf
    induction names generalizing env with
    | nil => exact fun _ henv => ⟨_, rfl, henv⟩
    | cons x xs ih =>
      intro hnames henv
      obtain ⟨hx, hxs⟩ := List.forall_mem_cons.1 hnames
      obtain rfl : x = addName := List.mem_singleton.1 hx
      rw [List.foldlM_cons, hf]
      refine ih hxs fun z c hz => ?_
      rw [Bindings.get?_insert] at hz
      split at hz
      · exact ⟨‹_›, (Option.some.inj hz).symm⟩
      · exact henv z c hz
  refine key (fun _ => rfl) h fun x c hx => ?_
  rw [Bindings.get?_empty] at hx
  cases hx

end TyEnv

theorem Config.exists_environment {c : Config} (h : c.validate = .ok ()) :
    ∃ env, c.environment = .ok env ∧ env.IsBuiltin := by
  refine TyEnv.exists_ofBuiltins fun x hx => ?_
  cases hfind : c.builtins.find? (fun x => decide (x ∉ TyEnv.builtins)) with
  | none => exact Decidable.not_not.1 fun hn => by simpa [hn] using List.find?_eq_none.1 hfind x hx
  | some y =>
    unfold Config.validate at h
    simp only [hfind] at h
    split at h
    · cases h
    · cases h

end LetLower
