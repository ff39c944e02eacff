import LetLower.Proofs.Compile
import LetLower.Proofs.Flatten

/-!
# Functions bound in a flattened program

Whether a `let` is taken out is decided by the type that inference found for its value. In the body
of a polymorphic function this type can be a variable, and where the body is put in for a use the
variable may stand for the type of a function. Then the `let` is kept, and the types that are found
again show a function in it. This is the only way in which a flattened program can bind a function.
-/

namespace LetLower

open LetLower.Expr

namespace Expr

variable {φ : String → Ty} {L : String → Prop} {e : Expr}

/-- A function in a `let` that had a value of another type was first given an open type. -/
theorem bindsOpen_of_alike {N : String → String → Prop} {f g : Expr}
    (h : Alike (fun m m' => ∃ t, Fits m t ∧ MarkedUnder φ L m' t) N f g)
    (hf : f.bindsFunction = false) (hg : g.bindsFunction) : f.bindsOpen := by
  cases h with
  | @letIn _ _ _ _ _ v w _ _ _ hv _ =>
    obtain ⟨t, ⟨u, hu, k, hk⟩, u', hu', _, _, ht⟩ := hv.mark
    change w.ty? = some u' at hu'
    change v.ty? = some u at hu
    change (w.ty?.any Ty.isFunction : Bool) = true at hg
    change v.ty?.any Ty.isFunction = false at hf
    change v.isOpen = true
    rw [hu'] at hg
    rw [hu] at hf
    rw [isOpen, hu]
    cases u' with
    | fn a r =>
      rw [hk] at ht
      cases u with
      | var => rfl
      | fn => cases hf
      | int | bool | scheme | unknown => cases ht
    | int | bool | var | scheme | unknown => cases hg
  | int | bool | var | lam | app | letRec | binary | cond => cases hg

theorem bindsOpen_of_not_isOpen (h : e.Everywhere fun s => s.isOpen = false) :
    e.Everywhere fun s => s.bindsOpen = false := by
  refine h.below.imp fun s hs => ?_
  cases s with
  | letIn => exact (everywhere_letIn.1 hs).2.1.self
  | int | bool | var | lam | app | letRec | binary | cond | bare => rfl

end Expr

/-- No `let` of the inlined tree binds a function by the types found first. By the types found again
one can, but only a `let` whose value was first given a variable for its type; and none does if the
first inference gives no node a variable for its type. -/
theorem flatten_bindsOpen {c : Config} {e flat : Expr} {names : NameSupply} {depth : Nat}
    (he : e.HasPlainNames)
    (h : ((({ config := c, depth } : Options).flatten e).run names).1 = .ok flat) :
    ∃ env typed d s s', c.environment = .ok env ∧ (e.inferTypes env).Returns names typed s ∧
      (inlineIn depth typed ∅).Returns s d s' ∧ d.BindsData ∧
      List.Forall₂ (fun f g => g.bindsFunction → f.bindsOpen) d.subtrees flat.subtrees ∧
      ((∀ f ∈ typed.subtrees, f.isOpen = false) → flat.BindsData) := by
  obtain ⟨env, typed, d, s, s', henv, hbuiltin, htyped, hd, hflat⟩ := flattens_of_run he h
  have hsettled := hflat.settled
  have hdata : d.Everywhere fun f => f.bindsFunction = false := hsettled.imp fun _ h => h.2
  obtain ⟨_, _, φ, L, _, _, _, hann⟩ := hflat.annotates hbuiltin.isClosed
  refine ⟨env, typed, d, s, s', henv, htyped, hd, hdata, ?_, fun hopen => ?_⟩
  · refine ((List.forall₂_and_left _ _).2 ⟨hdata, hann.subtrees⟩).imp ?_
    rintro f g ⟨hf, N, hfg⟩ hg
    exact bindsOpen_of_alike hfg hf hg
  · have hclosed := bindsOpen_of_not_isOpen
      (hflat.inlined.everywhere shallow_not_isOpen InlineEnv.everywhere_empty hopen)
    have hboth : d.Everywhere fun f => f.bindsFunction = false ∧ f.bindsOpen = false :=
      fun f hf => ⟨hdata f hf, hclosed f hf⟩
    refine hann.everywhere (fun N f g hfg hf => ?_) hboth
    cases hg : g.bindsFunction with
    | false => rfl
    | true =>
      rw [bindsOpen_of_alike hfg hf.1 hg] at hf
      cases hf.2

-- the evaluations below run through a recursion on the size of the tree
attribute [local semireducible] letOver

theorem flatten_bindsOpen_increment :
    let e : Expr := .letIn {} "inc" (.app {} (.var {} "add") (.int {} 1))
      (.letIn {} "n" (.app {} (.var {} "inc") (.int {} 2)) (.var {} "n"))
    let c : Config := {}
    let m : Mark := ⟨none, some .int⟩
    let flat : Expr := .letIn m "n"
      (.app m (.app ⟨none, some (.fn .int .int)⟩
        (.var ⟨none, some (.fn .int (.fn .int .int))⟩ "add") (.int m 1)) (.int m 2))
      (.var m "n")
    e.HasPlainNames ∧ ((({ config := c, depth := 9 } : Options).flatten e).run {}).1 = .ok flat ∧
      ∃ env typed d s s', c.environment = .ok env ∧ (e.inferTypes env).Returns {} typed s ∧
        (inlineIn 9 typed ∅).Returns s d s' ∧ d.BindsData ∧
        List.Forall₂ (fun f g => g.bindsFunction → f.bindsOpen) d.subtrees flat.subtrees ∧
        ((∀ f ∈ typed.subtrees, f.isOpen = false) → flat.BindsData) := by
  intro e c m flat
  let m' : Mark := ⟨none, some (.fn .int .int)⟩
  let m'' : Mark := ⟨none, some (.fn .int (.fn .int .int))⟩
  let typed : Expr := .letIn m "inc" (.app m' (.var m'' "add") (.int m 1))
    (.letIn m "n" (.app m (.var m' "inc") (.int m 2)) (.var m "n"))
  let env : TyEnv := .single "add" (.mono TyEnv.sumTy)
  have he : e.HasPlainNames := by decide
  have hvalid : c.validate = .ok () := validate_default (by decide)
  have htyped : (e.inferTypes env).Gives {} typed { next := 2 } := by
    intro log
    exact ⟨_, by cbv⟩
  have hinlined : (inlineIn 9 typed ∅).Gives { next := 2 } flat { next := 2 } := by
    intro log
    exact ⟨_, by cbv⟩
  have hagain : (flat.strip.inferTypes env).Gives { next := 2 } flat { next := 4 } := by
    intro log
    exact ⟨_, by cbv⟩
  have hflat : ((({ config := c, depth := 9 } : Options).flatten e).run {}).1 = .ok flat :=
    (gives_flatten hvalid rfl htyped rfl rfl hinlined hagain).run_ok
  exact ⟨he, hflat, flatten_bindsOpen he hflat⟩

/-- The body of `h` has an open type, so the function that comes of `h add` is bound in a `let`. -/
theorem flatten_bindsFunction :
    let e : Expr := .letIn {} "h" (.lam {} "g" (.app {} (.var {} "g") (.int {} 1)))
      (.letIn {} "z" (.app {} (.var {} "h") (.var {} "add"))
        (.app {} (.var {} "z") (.int {} 2)))
    let c : Config := {}
    let m : Mark := ⟨none, some .int⟩
    let m' : Mark := ⟨none, some (.fn .int .int)⟩
    let m'' : Mark := ⟨none, some (.fn .int (.fn .int .int))⟩
    let flat : Expr := .letIn m "z" (.app m' (.var m'' "add") (.int m 1))
      (.app m (.var m' "z") (.int m 2))
    e.HasPlainNames ∧ c.validate = .ok () ∧
      (∀ depth, 9 ≤ depth →
        ((({ config := c, depth } : Options).flatten e).run {}).1 = .ok flat) ∧
      ¬ flat.BindsData := by
  intro e c m m' m'' flat
  let mark : Mark := ⟨none, some (.var "t1")⟩
  let typed : Expr := .letIn m "h"
    (.lam ⟨none, some (.fn (.fn .int (.var "t1")) (.var "t1"))⟩ "g"
      (.app mark (.var ⟨none, some (.fn .int (.var "t1"))⟩ "g") (.int m 1)))
    (.letIn m "z"
      (.app m' (.var ⟨none, some (.fn (.fn .int (.fn .int .int)) (.fn .int .int))⟩ "h")
        (.var m'' "add"))
      (.app m (.var m' "z") (.int m 2)))
  let d : Expr := .letIn m "z" (.app mark (.var m'' "add") (.int m 1))
    (.app m (.var m' "z") (.int m 2))
  let env : TyEnv := .single "add" (.mono TyEnv.sumTy)
  have hvalid : c.validate = .ok () := validate_default (by decide)
  have htyped : (e.inferTypes env).Gives {} typed { next := 5 } := by
    intro log
    exact ⟨_, by cbv⟩
  have hinlined : ∀ k, (inlineIn (k + 9) typed ∅).Gives { next := 5 } d { next := 5 } := by
    intro k log
    exact ⟨_, by cbv⟩
  have hagain : (d.strip.inferTypes env).Gives { next := 5 } flat { next := 7 } := by
    intro log
    exact ⟨_, by cbv⟩
  refine ⟨by decide, hvalid, fun depth hdepth => ?_, by decide⟩
  obtain ⟨k, rfl⟩ := Nat.exists_eq_add_of_le' hdepth
  exact (gives_flatten hvalid rfl htyped rfl rfl (hinlined k) hagain).run_ok

end LetLower
