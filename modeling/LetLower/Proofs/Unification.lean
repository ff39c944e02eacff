import LetLower.Proofs.Ty.Alike
import LetLower.Proofs.Infer.Scope

/-!
# Unification

Making two types equal succeeds exactly when something makes them equal. What is returned is in
solved form, and whatever makes the types equal goes through it. Where nothing does, the types are
reported as a mismatch or as an infinite type. Plain types have a text, so the report can be made.
-/

namespace LetLower

/-- The problem has no solution, and the types that tell why are plain. -/
def UnifyError.IsMistake : UnifyError → Prop
  | .mismatch expected actual => expected.IsPlain ∧ actual.IsPlain
  | .occurs _ t => t.IsPlain
  | .quantified .. | .unknown => False

namespace Ty

theorem isMistake_of_bindVar {x : String} {t : Ty} (ht : t.IsPlain) {e : UnifyError}
    (h : bindVar x t = .error e) : e.IsMistake := by
  unfold bindVar at h
  split at h
  · cases h
  · split at h
    · cases h
      exact ht
    · cases h

theorem isMistake_of_solve {a b : Ty} (ha : a.IsPlain) (hb : b.IsPlain) {e : UnifyError}
    (h : solve a b = .error e) : e.IsMistake := by
  fun_induction solve a b generalizing e with
  | case1 | case13 => exact ha.elim
  | case2 => exact hb.elim
  | case3 x b _ => exact isMistake_of_bindVar hb h
  | case4 a x _ _ =>
    cases hx : bindVar x a with
    | error e' =>
      rw [hx] at h
      cases h
      exact isMistake_of_bindVar ha hx
    | ok s =>
      rw [hx] at h
      cases h
  | case5 | case6 | case9 => cases h
  | case7 a a' b b' e' he ih =>
    cases h
    exact ih ha.1 hb.1 he
  | case8 a a' b b' s hs e' he ih ih' =>
    cases h
    have hd := solve_decides a b ha.1 hb.1
    rw [hs] at hd
    exact ih' (ha.2.apply hd.isPlain) (hb.2.apply hd.isPlain) he
  | case10 | case11 | case12 =>
    cases h
    exact ⟨hb, ha⟩

theorem isMistake_of_unify {a b : Ty} (ha : a.IsPlain) (hb : b.IsPlain) {x : UnifyError}
    (h : unify a b = .error x) : x.IsMistake := by
  unfold unify at h
  cases hs : solve a b with
  | error y =>
    rw [hs] at h
    cases h
    exact isMistake_of_solve ha hb hs
  | ok s =>
    rw [hs] at h
    cases h

end Ty

namespace Diagnostic

theorem typeMismatch_of_isPlain {expected actual : Ty} (he : expected.IsPlain)
    (ha : actual.IsPlain) (loc : Option Location) :
    ∃ d, typeMismatch expected actual loc = .ok d ∧ d.loc = loc ∧ d.kind = .typeMismatch := by
  have he' : expected.render? = .ok expected.render := if_pos he.isKnown
  have ha' : actual.render? = .ok actual.render := if_pos ha.isKnown
  rw [typeMismatch, he', ha']
  exact ⟨_, rfl, rfl, rfl⟩

theorem infiniteType_of_isPlain (x : String) {t : Ty} (ht : t.IsPlain) (loc : Option Location) :
    ∃ d, infiniteType x t loc = .ok d ∧ d.loc = loc ∧ d.kind = .infiniteType := by
  have ht' : t.render? = .ok t.render := if_pos ht.isKnown
  rw [infiniteType, ht']
  exact ⟨_, rfl, rfl, rfl⟩

end Diagnostic

namespace Pass

theorem run_unify (a b : Ty) (loc : Option Location) (names : NameSupply) :
    ((unify a b loc).run names).1 = (Ty.unify a b).mapError (ofUnifyError loc) := by
  cases h : Ty.unify a b with
  | ok u => exact (gives_unify h loc names).run_ok
  | error e =>
    have hrun : unify a b loc { names }
        = .error (ofUnifyError loc e) { names, log := [⟨.unified a b, names⟩] } := by
      unfold unify
      rw [h]
      rfl
    rw [Pass.run, EStateM.run, hrun]
    rfl

theorem run_unify_ok {a b : Ty} {loc : Option Location} {names : NameSupply} {u : Ty.Unifier} :
    ((unify a b loc).run names).1 = .ok u ↔ Ty.unify a b = .ok u := by
  rw [run_unify]
  cases Ty.unify a b with
  | ok v =>
    constructor
    · intro h
      cases h
      rfl
    · intro h
      cases h
      rfl
  | error e =>
    constructor
    · intro h
      cases h
    · intro h
      cases h

theorem ofUnifyError_of_isMistake {e : UnifyError} (h : e.IsMistake) (loc : Option Location) :
    ∃ d, ofUnifyError loc e = .diagnostic d ∧ d.loc = loc ∧
      (d.kind = .typeMismatch ∨ d.kind = .infiniteType) := by
  cases e with
  | mismatch expected actual =>
    obtain ⟨d, hd, hloc, hkind⟩ := Diagnostic.typeMismatch_of_isPlain h.1 h.2 loc
    refine ⟨d, ?_, hloc, .inl hkind⟩
    rw [ofUnifyError, hd]
  | occurs x t =>
    obtain ⟨d, hd, hloc, hkind⟩ := Diagnostic.infiniteType_of_isPlain x h loc
    refine ⟨d, ?_, hloc, .inr hkind⟩
    rw [ofUnifyError, hd]
  | quantified | unknown => exact h.elim

theorem sameKindAt_ofUnifyError {κ : Option Location → Option Location → Prop} {x y : UnifyError}
    (h : x.Alike y) (hx : x.IsMistake) (hy : y.IsMistake) {loc loc' : Option Location}
    (hloc : κ loc loc') : Failure.SameKindAt κ (ofUnifyError loc x) (ofUnifyError loc' y) := by
  cases x with
  | mismatch expected actual =>
    cases y with
    | mismatch expected' actual' =>
      obtain ⟨d, hd, rfl, hk⟩ := Diagnostic.typeMismatch_of_isPlain hx.1 hx.2 loc
      obtain ⟨d', hd', rfl, hk'⟩ := Diagnostic.typeMismatch_of_isPlain hy.1 hy.2 loc'
      exact ⟨d, d', by rw [ofUnifyError, hd], by rw [ofUnifyError, hd'], hk.trans hk'.symm, hloc⟩
    | occurs | quantified | unknown => exact h.elim
  | occurs z t =>
    cases y with
    | occurs w u =>
      obtain ⟨d, hd, rfl, hk⟩ := Diagnostic.infiniteType_of_isPlain z hx loc
      obtain ⟨d', hd', rfl, hk'⟩ := Diagnostic.infiniteType_of_isPlain w hy loc'
      exact ⟨d, d', by rw [ofUnifyError, hd], by rw [ofUnifyError, hd'], hk.trans hk'.symm, hloc⟩
    | mismatch | quantified | unknown => exact h.elim
  | quantified | unknown => exact hx.elim

theorem sameKind_ofUnifyError {x y : UnifyError} (h : x.Alike y) (hx : x.IsMistake)
    (hy : y.IsMistake) (loc loc' : Option Location) :
    Failure.SameKind (ofUnifyError loc x) (ofUnifyError loc' y) :=
  (sameKindAt_ofUnifyError (κ := fun _ _ => True) h hx hy trivial).sameKind

end Pass

namespace Ty

variable {a b : Ty} {loc : Option Location} {names : NameSupply}

/-- A unifier makes the two types equal and is in solved form: none of its variables is left in what
it puts in, and it speaks of the variables of the two types only. -/
theorem unifier_solves {u : Unifier} (ha : a.IsPlain) (hb : b.IsPlain)
    (h : ((Pass.unify a b loc).run names).1 = .ok u) :
    a.apply u.subst = u.type ∧ b.apply u.subst = u.type ∧
      (∀ x ∈ u.subst, x ∉ u.subst.range) ∧
      (∀ t : Ty, t.IsPlain → (t.apply u.subst).apply u.subst = t.apply u.subst) ∧
      (∀ x, u.subst.get? x ≠ some (.var x)) ∧
      ∀ x, x ∈ u.subst ∨ x ∈ u.subst.range → x ∈ a.free ∨ x ∈ b.free := by
  have hu := unifies_of_unify ha hb (Pass.run_unify_ok.1 h)
  have hs := hu.solvesIn
  have hvars : ∀ x, x ∈ vars a b → x ∈ a.free ∨ x ∈ b.free := fun x hx => NameSet.mem_union.1 hx
  have hta : a.apply u.subst = u.type := by rw [hu.type_eq, apply_eq_bind _ ha]
  have htb : b.apply u.subst = u.type := (hu.mostGeneral.apply_eq ha hb).symm.trans hta
  refine ⟨hta, htb, hs.solved, fun t ht => ?_, fun x hx => ?_, fun x hx => ?_⟩
  · rw [apply_eq_bind _ (ht.apply hs.isPlain)]
    refine bind_eq_self fun z hz => Subst.image_of_not_mem fun hm => ?_
    rcases mem_free_apply hz with ⟨_, hn⟩ | hr
    · exact Bindings.get?_eq_none_iff.1 hn hm
    · exact hs.solved z hm hr
  · have hm : x ∈ u.subst := Bindings.mem_iff_get?.2 ⟨_, hx⟩
    exact hs.solved x hm (Subst.mem_range.2 ⟨x, _, hx, mem_free_var.2 rfl⟩)
  · exact hvars x (hx.elim (hs.domain x) (hs.range x))

/-- What the second problem solves is put into the solution of the first. -/
theorem unifier_solves_argument_first :
    let a : Ty := .fn (.var "a") (.var "b")
    let b : Ty := .fn (.fn (.var "b") .int) .bool
    let u : Unifier := ⟨.fn (.fn .bool .int) .bool,
      ⟨[("a", .fn .bool .int), ("b", .bool)], by decide⟩⟩
    a.IsPlain ∧ b.IsPlain ∧ ((Pass.unify a b none).run {}).1 = .ok u ∧
      a.apply u.subst = u.type ∧ b.apply u.subst = u.type := by
  intro a b u
  have ha : a.IsPlain := by decide
  have hb : b.IsPlain := by decide
  have hu : ((Pass.unify a b none).run {}).1 = .ok u := by cbv
  have h := unifier_solves ha hb hu
  exact ⟨ha, hb, hu, h.1, h.2.1⟩

/-- The unifier that is found makes the types equal, whatever makes them equal goes through it, and
a mistake is reported exactly when nothing does. -/
theorem unifier_mostGeneral (ha : a.IsPlain) (hb : b.IsPlain) (loc : Option Location)
    (names : NameSupply) :
    (∀ θ : Subst, a.apply θ = b.apply θ →
      ∃ u, ((Pass.unify a b loc).run names).1 = .ok u ∧ u.subst.IsPlain ∧
        a.apply u.subst = b.apply u.subst ∧
        ∀ t : Ty, t.IsPlain → (t.apply u.subst).apply θ = t.apply θ) ∧
    ((∃ d, ((Pass.unify a b loc).run names).1 = .error (.diagnostic d) ∧ d.loc = loc ∧
        (d.kind = .typeMismatch ∨ d.kind = .infiniteType)) ↔
      ∀ θ : Subst, θ.IsPlain → a.apply θ ≠ b.apply θ) := by
  refine ⟨fun θ hθ => ?_, fun ⟨d, hd, _⟩ θ _ hθ => ?_, fun hnone => ?_⟩
  · rw [apply_eq_bind θ ha, apply_eq_bind θ hb] at hθ
    obtain ⟨u, hu⟩ := exists_unify ha hb hθ
    have hg := (unifies_of_unify ha hb hu).mostGeneral
    refine ⟨u, Pass.run_unify_ok.2 hu, hg.isPlain, hg.apply_eq ha hb, fun t ht => ?_⟩
    rw [apply_eq_bind θ (ht.apply hg.isPlain), apply_eq_bind θ ht, hg.bind_apply hθ ht]
  · rw [apply_eq_bind θ ha, apply_eq_bind θ hb] at hθ
    obtain ⟨u, hu⟩ := exists_unify ha hb hθ
    rw [Pass.run_unify_ok.2 hu] at hd
    cases hd
  · have hrun := Pass.run_unify a b loc names
    unfold unify at hrun
    cases hs : solve a b with
    | ok s =>
      have hg := solve_decides a b ha hb
      rw [hs] at hg
      exact absurd (hg.apply_eq ha hb) (hnone s.1 hg.isPlain)
    | error e =>
      obtain ⟨d, hd, hkind⟩ := Pass.ofUnifyError_of_isMistake (isMistake_of_solve ha hb hs) loc
      rw [hs] at hrun
      exact ⟨d, hrun.trans (congrArg Except.error hd), hkind⟩

theorem unifier_mostGeneral_function :
    let a : Ty := .fn (.var "a") (.var "a")
    let b : Ty := .fn (.fn (.var "b") .int) (.var "c")
    let θ : Subst :=
      ⟨[("a", .fn .bool .int), ("b", .bool), ("c", .fn .bool .int)], by decide⟩
    a.IsPlain ∧ b.IsPlain ∧ a.apply θ = b.apply θ ∧
      ∃ u, ((Pass.unify a b none).run {}).1 = .ok u ∧ u.subst.IsPlain ∧
        a.apply u.subst = b.apply u.subst ∧
        ∀ t : Ty, t.IsPlain → (t.apply u.subst).apply θ = t.apply θ := by
  intro a b θ
  have ha : a.IsPlain := by decide
  have hb : b.IsPlain := by decide
  have hθ : a.apply θ = b.apply θ := by decide
  exact ⟨ha, hb, hθ, (unifier_mostGeneral ha hb none {}).1 θ hθ⟩

end Ty
end LetLower
