import LetLower.Ty.Unify
import LetLower.Proofs.Ty.Bind

/-!
# Most general unifiers

A solution makes the two types equal, and whatever else makes them equal goes through it. Where
there is none, nothing makes them equal: a variable that occurs in a function type stands for
something smaller than that type, whatever is put in.
-/

namespace LetLower.Ty

/-- Everything that makes two types equal does so after the substitution. -/
structure MostGeneral (a b : Ty) (s : Subst) : Prop where
  isPlain : s.IsPlain
  unifies : a.bind s.image = b.bind s.image
  factors : ∀ f : String → Ty, a.bind f = b.bind f → ∀ x, (s.image x).bind f = f x

/-- The outcome is the right one: a most general solution, or a failure where there is none. -/
def Decides (a b : Ty) : Except UnifyError { s : Subst // Solves a b s } → Prop
  | .ok s => MostGeneral a b s.1
  | .error _ => ∀ f : String → Ty, a.bind f ≠ b.bind f

theorem size_image_le {f : String → Ty} {x : String} {t : Ty} (ht : t.IsPlain) (hx : x ∈ t.free) :
    (f x).size ≤ (t.bind f).size := by
  induction t with
  | var y =>
    rw [mem_free_var.1 hx]
    exact Nat.le_refl _
  | fn a r iha ihr =>
    simp only [bind_fn, size]
    rcases mem_free_fn.1 hx with hx | hx
    · have := iha ht.1 hx
      omega
    · have := ihr ht.2 hx
      omega
  | bool | int => exact absurd hx (NameSet.not_mem_empty x)
  | scheme _ _ | unknown => exact ht.elim

/-- The occurs check is right on finite types. -/
theorem bind_ne_of_occurs {f : String → Ty} {x : String} {t : Ty} (ht : t.IsPlain)
    (hx : x ∈ t.free) (hv : t ≠ var x) : f x ≠ t.bind f := by
  intro he
  cases t with
  | var y => exact hv (congrArg var (mem_free_var.1 hx).symm)
  | fn a r =>
    have hs : (f x).size = (a.bind f).size + (r.bind f).size + 1 := by
      rw [he]
      rfl
    rcases mem_free_fn.1 hx with hx | hx
    · have := size_image_le (f := f) ht.1 hx
      omega
    · have := size_image_le (f := f) ht.2 hx
      omega
  | bool | int => exact absurd hx (NameSet.not_mem_empty x)
  | scheme _ _ | unknown => exact ht.elim

theorem mostGeneral_refl (a : Ty) : MostGeneral a a ∅ :=
  ⟨Subst.isPlain_empty, rfl, fun _ _ _ => rfl⟩

theorem MostGeneral.symm {a b : Ty} {s : Subst} (h : MostGeneral a b s) : MostGeneral b a s :=
  ⟨h.isPlain, h.unifies.symm, fun f hf => h.factors f hf.symm⟩

theorem mostGeneral_single {x : String} {t : Ty} (ht : t.IsPlain) (hx : x ∉ t.free) :
    MostGeneral (var x) t (.single x t) where
  isPlain := Subst.isPlain_single ht
  unifies := by
    rw [bind_var, Subst.image_single, if_pos rfl]
    refine (bind_eq_self fun y hy => ?_).symm
    rw [Subst.image_single, if_neg]
    rintro rfl
    exact hx hy
  factors f hf y := by
    rw [Subst.image_single]
    split
    · rename_i hy
      rw [hy, ← hf]
      rfl
    · rfl

theorem bindVar_decides (x : String) (t : Ty) (ht : t.IsPlain) :
    Decides (var x) t (bindVar x t) := by
  unfold bindVar
  split
  · rename_i hv
    rw [hv]
    exact mostGeneral_refl _
  · rename_i hv
    split
    · rename_i hx
      exact fun f => bind_ne_of_occurs ht hx hv
    · rename_i hx
      exact mostGeneral_single ht hx

theorem bindVar_decides_symm (x : String) (t : Ty) (ht : t.IsPlain) :
    Decides t (var x) ((bindVar x t).map fun s => ⟨s.1, s.2.symm⟩) := by
  have h := bindVar_decides x t ht
  cases hb : bindVar x t with
  | ok s =>
    rw [hb] at h
    exact MostGeneral.symm h
  | error e =>
    rw [hb] at h
    exact fun f he => h f he.symm

theorem MostGeneral.apply_eq {a b : Ty} {s : Subst} (h : MostGeneral a b s) (ha : a.IsPlain)
    (hb : b.IsPlain) : a.apply s = b.apply s := by
  rw [apply_eq_bind s ha, apply_eq_bind s hb, h.unifies]

theorem MostGeneral.bind_apply {a b : Ty} {s : Subst} (h : MostGeneral a b s) {f : String → Ty}
    (hf : a.bind f = b.bind f) {t : Ty} (ht : t.IsPlain) : (t.apply s).bind f = t.bind f := by
  rw [apply_eq_bind s ht, bind_bind]
  exact bind_congr fun x _ => h.factors f hf x

theorem MostGeneral.compose {a b a' b' : Ty} {s s' : Subst} (ha' : a'.IsPlain) (hb' : b'.IsPlain)
    (h : MostGeneral a b s) (h' : MostGeneral (a'.apply s) (b'.apply s) s') :
    MostGeneral (fn a a') (fn b b') (Subst.compose s' s) where
  isPlain := h'.isPlain.compose h.isPlain
  unifies := by
    have hr := h'.unifies
    rw [apply_eq_bind s ha', apply_eq_bind s hb'] at hr
    rw [bind_image_compose h.isPlain, bind_image_compose h.isPlain, bind_fn, bind_fn, bind_fn,
      bind_fn, h.unifies, hr]
  factors f hf x := by
    have hfn := Ty.fn.inj hf
    have hr : (a'.apply s).bind f = (b'.apply s).bind f := by
      rw [h.bind_apply hfn.1 ha', h.bind_apply hfn.1 hb']
      exact hfn.2
    rw [Subst.image_compose, h'.bind_apply hr (h.isPlain.image x)]
    exact h.factors f hfn.1 x

theorem solve_decides (a b : Ty) (ha : a.IsPlain) (hb : b.IsPlain) : Decides a b (solve a b) := by
  fun_induction solve a b with
  | case1 | case13 => exact ha.elim
  | case2 => exact hb.elim
  | case3 x b _ => exact bindVar_decides x b hb
  | case4 a x _ _ => exact bindVar_decides_symm x a ha
  | case5 | case6 => exact mostGeneral_refl _
  | case7 a a' b b' e he ih =>
    have harg := ih ha.1 hb.1
    rw [he] at harg
    exact fun f hf => harg f (Ty.fn.inj hf).1
  | case8 a a' b b' s hs e he ih ih' =>
    have harg := ih ha.1 hb.1
    rw [hs] at harg
    have hres := ih' (ha.2.apply harg.isPlain) (hb.2.apply harg.isPlain)
    rw [he] at hres
    intro f hf
    have hfn := Ty.fn.inj hf
    apply hres f
    rw [harg.bind_apply hfn.1 ha.2, harg.bind_apply hfn.1 hb.2]
    exact hfn.2
  | case9 a a' b b' s hs s' hs' ih ih' =>
    have harg := ih ha.1 hb.1
    rw [hs] at harg
    have hres := ih' (ha.2.apply harg.isPlain) (hb.2.apply harg.isPlain)
    rw [hs'] at hres
    exact harg.compose ha.2 hb.2 hres
  | case10 b hns hnv hn | case11 b hns hnv hn =>
    cases b with
    | var x => exact (hnv x rfl).elim
    | scheme bound body => exact (hns bound body rfl).elim
    | bool | int => first | exact (hn rfl).elim | exact fun f hf => Ty.noConfusion hf
    | fn _ _ => exact fun f hf => Ty.noConfusion hf
    | unknown => exact hb.elim
  | case12 b a r hns hnv hn =>
    cases b with
    | var x => exact (hnv x rfl).elim
    | scheme bound body => exact (hns bound body rfl).elim
    | fn c d => exact (hn c d rfl).elim
    | bool | int => exact fun f hf => Ty.noConfusion hf
    | unknown => exact hb.elim

structure Unifies (a b : Ty) (u : Unifier) : Prop where
  type_eq : u.type = a.bind u.subst.image
  solves : Solves a b u.subst
  mostGeneral : MostGeneral a b u.subst

theorem unifies_of_unify {a b : Ty} {u : Unifier} (ha : a.IsPlain) (hb : b.IsPlain)
    (h : unify a b = .ok u) : Unifies a b u := by
  have hd := solve_decides a b ha hb
  unfold unify at h
  cases hs : solve a b with
  | error e =>
    rw [hs] at h
    exact absurd h (by simp [Except.map])
  | ok s =>
    rw [hs] at h hd
    obtain rfl : (⟨a.apply s.1, s.1⟩ : Unifier) = u := by simpa [Except.map] using h
    exact ⟨apply_eq_bind s.1 ha, s.2, hd⟩

/-- Where anything makes two plain types equal, unification succeeds. -/
theorem exists_unify {a b : Ty} (ha : a.IsPlain) (hb : b.IsPlain) {f : String → Ty}
    (hf : a.bind f = b.bind f) : ∃ u, unify a b = .ok u := by
  have hd := solve_decides a b ha hb
  unfold unify
  cases hs : solve a b with
  | error e =>
    rw [hs] at hd
    exact absurd hf (hd f)
  | ok s => exact ⟨⟨a.apply s.1, s.1⟩, rfl⟩

end LetLower.Ty
