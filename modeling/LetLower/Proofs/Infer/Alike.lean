import LetLower.Proofs.Unification
import LetLower.Proofs.Infer.Local
import LetLower.Proofs.Infer.Paired

/-!
# Inference up to names

Two runs of inference, of trees that differ in the names of their binders and from supplies that
differ in the names of variables, go in step: they fail with mistakes of one kind, or they return
trees that differ in names only. The induction is over the tree and carries the pairing of the
variables that both runs have drawn. It grows on the way; what was found before keeps being alike.
-/

namespace LetLower

open LetLower.Expr Pass TyEnv

/-- Both nodes have types, and these are alike. -/
def Mark.Alike (ρ : String → String → Prop) (m m' : Mark) : Prop :=
  ∃ t u, m.ty = some t ∧ m'.ty = some u ∧ t.Alike ρ u

theorem Mark.Alike.mono {ρ ρ' : String → String → Prop} {m m' : Mark} (h : m.Alike ρ m')
    (hρ : ∀ x y, ρ x y → ρ' x y) : m.Alike ρ' m' := by
  obtain ⟨t, u, ht, hu, h⟩ := h
  exact ⟨t, u, ht, hu, h.mono hρ⟩

theorem Mark.Alike.flip {ρ : String → String → Prop} {m m' : Mark} (h : m.Alike ρ m') :
    m'.Alike (flip ρ) m := by
  obtain ⟨t, u, ht, hu, h⟩ := h
  exact ⟨u, t, hu, ht, h.symm⟩

theorem Mark.Alike.exists_left {ρ : String → String → Prop} {m m' : Mark} (h : m.Alike ρ m') :
    ∃ loc t, m = ⟨loc, some t⟩ := by
  obtain ⟨loc, ty⟩ := m
  obtain ⟨t, _, ht, _⟩ := h
  obtain rfl : ty = some t := ht
  exact ⟨loc, t, rfl⟩

theorem Mark.Alike.exists_right {ρ : String → String → Prop} {m m' : Mark} (h : m.Alike ρ m') :
    ∃ loc t, m' = ⟨loc, some t⟩ :=
  h.flip.exists_left

/-- What two runs return is alike: the trees with the types in them, the types, and what was
solved. -/
structure Inferred.Alike (ρ N : String → String → Prop) (r r' : Inferred) : Prop where
  tree : r.tree.Alike (Mark.Alike ρ) N r'.tree
  ty : r.ty.Alike ρ r'.ty
  subst : r.subst.Alike ρ r'.subst

namespace Expr

variable {env env' : TyEnv} {e e' : Expr} {s s' t t' q q' : NameSupply} {r r' : Inferred}
  {ρ ρ' N : String → String → Prop} {κ : Option Location → Option Location → Prop}
  {μ : Mark → Mark → Prop}

theorem Alike.isAnnotated {N : String → String → Prop} (h : e.Alike (Mark.Alike ρ) N e') :
    e.isAnnotated := by
  have some : ∀ {m m' : Mark}, m.Alike ρ m' → m.ty.isSome := by
    rintro m m' ⟨t, _, ht, _⟩
    rw [ht]
    rfl
  induction h with
  | int hm | bool hm | var hm => exact some hm
  | lam hm _ ih => simp only [Expr.isAnnotated, some hm, ih, Bool.and_self]
  | app hm _ _ iha ihb | letIn hm _ _ iha ihb | letRec hm _ _ iha ihb | binary hm _ _ iha ihb =>
    simp only [Expr.isAnnotated, some hm, iha, ihb, Bool.and_self]
  | cond hm _ _ _ iha ihb ihc => simp only [Expr.isAnnotated, some hm, iha, ihb, ihc, Bool.and_self]

theorem Alike.exists_getTy {N : String → String → Prop} (h : e.Alike (Mark.Alike ρ) N e') :
    ∃ t t', e.getTy = .ok t ∧ e'.getTy = .ok t' ∧ t.Alike ρ t' := by
  cases h with
  | int hm | bool hm | var hm | lam hm | app hm | letIn hm | letRec hm | binary hm | cond hm =>
    obtain ⟨t, t', ht, ht', htt⟩ := hm
    refine ⟨t, t', ?_, ?_, htt⟩
    · unfold getTy
      simp only [ty?, Expr.mark, ht]
    · unfold getTy
      simp only [ty?, Expr.mark, ht']

theorem infers_of_returns (h : (e.inferIn env).Returns s r t) : Infers env e s r t := by
  obtain ⟨_, _, h⟩ := h
  exact infers_of_inferIn h

theorem unify_of_returns {a b : Ty} {loc : Option Location} {u : Ty.Unifier}
    (h : (Pass.unify a b loc).Returns s u t) : Ty.unify a b = .ok u := by
  obtain ⟨_, _, h⟩ := h
  exact (unify_ok h).1

theorem unify_agree_at (hρ : Relator.BiUnique ρ) {a b a' b' : Ty} (ha : a.Alike ρ a')
    (hb : b.Alike ρ b') {loc loc' : Option Location} (hloc : κ loc loc') (s s' : NameSupply) :
    Agree (Failure.SameKindAt κ) (fun u t u' t' => u.Alike ρ u' ∧ t = s ∧ t' = s')
      (Pass.unify a b loc) s (Pass.unify a' b' loc') s' := by
  have hu := Ty.unify_alike hρ ha hb
  unfold Pass.unify
  refine (gives_note _ s).bind_agree (gives_note _ s') ?_
  generalize hx : Ty.unify a b = o at hu ⊢
  generalize hy : Ty.unify a' b' = o' at hu ⊢
  cases hu with
  | ok h => exact agree_pure ⟨h, rfl, rfl⟩
  | error h =>
    exact agree_fail (sameKindAt_ofUnifyError h (Ty.isMistake_of_unify ha.isPlain hb.isPlain hx)
      (Ty.isMistake_of_unify ha.symm.isPlain hb.symm.isPlain hy) hloc)

theorem unify_agree (hρ : Relator.BiUnique ρ) {a b a' b' : Ty} (ha : a.Alike ρ a')
    (hb : b.Alike ρ b') (loc loc' : Option Location) (s s' : NameSupply) :
    Agree Failure.SameKind (fun u t u' t' => u.Alike ρ u' ∧ t = s ∧ t' = s')
      (Pass.unify a b loc) s (Pass.unify a' b' loc') s' :=
  (unify_agree_at (κ := fun _ _ => True) hρ ha hb trivial s s').imp_failure fun _ _ h => h.sameKind

/-- What two runs start from: environments of variables drawn before, alike as the pairing has
them. -/
structure Starts (ρ N : String → String → Prop) (env : TyEnv) (s : NameSupply) (env' : TyEnv)
    (s' : NameSupply) : Prop where
  paired : Paired ρ s s'
  left : env.Ready s
  right : env'.Ready s'
  alike : TyEnv.Alike ρ N env env'

/-- How far two runs have come: the pairing has grown to `ρ'`, and what each run has solved is alike
under it. -/
structure Abreast (ρ : String → String → Prop) (env : TyEnv) (s : NameSupply) (env' : TyEnv)
    (s' : NameSupply) (ρ' : String → String → Prop) (S : Subst) (t : NameSupply) (S' : Subst)
    (t' : NameSupply) : Prop where
  grows : Grows ρ s s' ρ' t t'
  left : Reached env s S t
  right : Reached env' s' S' t'
  subst : S.Alike ρ' S'

namespace Starts

theorem insert_fresh (h : Starts ρ N env s env' s') (x y : String) :
    ∃ ρ', Grows ρ s s' ρ' s.advance s'.advance ∧ ρ' s.fresh.1 s'.fresh.1 ∧
      Starts ρ' (Under N x y) (env.insert x (.mono (.var s.fresh.1))) s.advance
        (env'.insert y (.mono (.var s'.fresh.1))) s'.advance := by
  obtain ⟨ρ', hg, hfresh⟩ := h.paired.fresh
  exact ⟨ρ', hg, hfresh, hg.paired, h.left.insert_fresh x, h.right.insert_fresh y,
    (h.alike.mono hg.mono fun _ _ => id).insert (Scheme.alike_mono (.var hfresh)) x y⟩

theorem abreast (h : Starts ρ N env s env' s') (hr : Infers env e s r t)
    (hr' : Infers env' e' s' r' t') (hg : Grows ρ s s' ρ' t t') (ha : r.subst.Alike ρ' r'.subst) :
    Abreast ρ env s env' s' ρ' r.subst t r'.subst t' :=
  ⟨hg, (hr.returns h.left.toUnissued).reached, (hr'.returns h.right.toUnissued).reached, ha⟩

end Starts

namespace Abreast

variable {ρ'' : String → String → Prop} {S S' T T' : Subst} {a b a' b' : Ty}

theorem starts (h : Abreast ρ env s env' s' ρ' S t S' t') (hs : Starts ρ N env s env' s') :
    Starts ρ' N (env.apply S) t (env'.apply S') t' where
  paired := h.grows.paired
  left := h.left.ready hs.left
  right := h.right.ready hs.right
  alike := (hs.alike.mono h.grows.mono fun _ _ => id).apply hs.left.isPlain hs.right.isPlain h.subst
    (hs.left.avoids (fun _ => And.left) h.left.subst)
    (hs.right.avoids (fun _ => And.left) h.right.subst)

/-- What the body of a binding starts from. -/
theorem starts_generalize (h : Abreast ρ env s env' s' ρ' S t S' t')
    (hs : Starts ρ N env s env' s') (ha : a.Unsolved (InScope env s t) S)
    (ha' : a'.Unsolved (InScope env' s' t') S')
    (hc : (TyEnv.generalize (env.apply S) a).Alike ρ' (TyEnv.generalize (env'.apply S') a'))
    (x y : String) :
    Starts ρ' (Under N x y)
      (Bindings.insert (env.apply S) x (TyEnv.generalize (env.apply S) a)) t
      (Bindings.insert (env'.apply S') y (TyEnv.generalize (env'.apply S') a')) t' where
  paired := h.grows.paired
  left := h.left.ready_generalize hs.left ha x
  right := h.right.ready_generalize hs.right ha' y
  alike := (h.starts hs).alike.insert hc x y

theorem grow (h : Abreast ρ env s env' s' ρ' S t S' t') (hg : Grows ρ' t t' ρ'' q q') :
    S.Alike ρ'' S' :=
  h.subst.grow hg (fun z hz => (h.left.subst.domain z hz).2)
    fun z hz => (h.right.subst.domain z hz).2

theorem infer (h : Abreast ρ env s env' s' ρ' S t S' t') (hs : Starts ρ N env s env' s')
    (h' : Abreast ρ' (env.apply S) t (env'.apply S') t' ρ'' T q T' q') :
    Abreast ρ env s env' s' ρ'' (Subst.compose T S) q (Subst.compose T' S') q' where
  grows := h.grows.trans h'.grows
  left := h.left.infer (h.left.mem_free_apply hs.left.toUnissued) h'.left
  right := h.right.infer (h.right.mem_free_apply hs.right.toUnissued) h'.right
  subst := h'.subst.compose (h.grow h'.grows)

theorem unify (h : Abreast ρ env s env' s' ρ' S t S' t') {u u' : Ty.Unifier}
    (ha : a.Unsolved (InScope env s t) S) (hb : b.Unsolved (InScope env s t) S)
    (hu : Ty.Unifies a b u) (ha' : a'.Unsolved (InScope env' s' t') S')
    (hb' : b'.Unsolved (InScope env' s' t') S') (hu' : Ty.Unifies a' b' u') (huu : u.Alike ρ' u') :
    Abreast ρ env s env' s' ρ' (Subst.compose u.subst S) t (Subst.compose u'.subst S') t' where
  grows := h.grows
  left := h.left.unify ha hb hu
  right := h.right.unify ha' hb' hu'
  subst := huu.subst.compose h.subst

end Abreast

theorem Alike.substitute {S S' : Subst} (h : e.Alike (Mark.Alike ρ) N e') (hS : S.Alike ρ S') :
    (e.substitute S).Alike (Mark.Alike ρ) N (e'.substitute S') := by
  refine h.mapMark ?_
  rintro m m' ⟨t, u, ht, hu, htu⟩
  exact ⟨_, _, by rw [ht]; rfl, by rw [hu]; rfl, htu.apply hS⟩

/-- Types generalise alike if what they leave free can be seen from names that correspond. -/
theorem alike_generalize_of_read (hρ : Relator.BiUnique ρ) (henv : TyEnv.Alike ρ N env env')
    {a b : Ty} (h : a.Alike ρ b)
    (hread : ∀ z ∈ a.free, z ∈ env.free →
      ∃ x y c, N x y ∧ env.get? x = some c ∧ z ∈ c.free)
    (hread' : ∀ z ∈ b.free, z ∈ env'.free →
      ∃ x y c, N x y ∧ env'.get? y = some c ∧ z ∈ c.free) :
    (env.generalize a).Alike ρ (env'.generalize b) := by
  refine Scheme.alike_generalize hρ h fun z hz w hw hzw => ⟨fun hm => ?_, fun hm => ?_⟩
  · obtain ⟨x, y, c, hxy, hx, hzc⟩ := hread z hz hm
    exact henv.mem_free hρ hxy hx hzc hzw
  · obtain ⟨x, y, c, hxy, hy, hwc⟩ := hread' w hw hm
    exact henv.symm.mem_free (biUnique_flip hρ) hxy hy hwc hzw

/-- Related places stay related where one stands in for another that is missing. -/
def JoinsPlaces (κ : Option Location → Option Location → Prop) : Prop :=
  ∀ a a' b b', κ a a' → κ b b' → κ (a.or b) (a'.or b')

/-- The two runs of a part end alike, and a mistake is reported at related places. -/
def InferAlike (κ : Option Location → Option Location → Prop) (N : String → String → Prop)
    (e e' : Expr) : Prop :=
  ∀ {ρ : String → String → Prop} {s s' : NameSupply} {env env' : TyEnv}, Paired ρ s s' →
    env.Ready s → env'.Ready s' → TyEnv.Alike ρ N env env' →
    Agree (Failure.SameKindAt κ) (fun r t r' t' => ∃ ρ', Grows ρ s s' ρ' t t' ∧ r.Alike ρ' N r')
      (e.inferIn env) s (e'.inferIn env') s'

namespace InferAlike

section Steps

variable {α β : Type} {Q : α → NameSupply → β → NameSupply → Prop} {x y : String}

theorem bind (h : InferAlike κ N e e') (hs : Starts ρ N env s env' s') {F : Inferred → Pass α}
    {F' : Inferred → Pass β}
    (hF : ∀ ρ' r t r' t', Infers env e s r t → Infers env' e' s' r' t' →
      Abreast ρ env s env' s' ρ' r.subst t r'.subst t' → r.Alike ρ' N r' →
      Agree (Failure.SameKindAt κ) Q (F r) t (F' r') t') :
    Agree (Failure.SameKindAt κ) Q (e.inferIn env >>= F) s (e'.inferIn env' >>= F') s' := by
  refine (h hs.paired hs.left hs.right hs.alike).bind ?_
  rintro r t r' t' hrun hrun' ⟨ρ', hg, hr⟩
  have hv := infers_of_returns hrun
  have hv' := infers_of_returns hrun'
  exact hF ρ' r t r' t' hv hv' (hs.abreast hv hv' hg hr.subst) hr

theorem bind_own (h : InferAlike κ (Under N x y) e e') (hs : Starts ρ N env s env' s')
    {F : Ty → Inferred → Pass α} {F' : Ty → Inferred → Pass β}
    (hF : ∀ ρ' r t r' t', Infers (env.insert x (.mono (.var s.fresh.1))) e s.advance r t →
      Infers (env'.insert y (.mono (.var s'.fresh.1))) e' s'.advance r' t' →
      ρ' s.fresh.1 s'.fresh.1 → Abreast ρ env s env' s' ρ' r.subst t r'.subst t' →
      r.Alike ρ' (Under N x y) r' →
      Agree (Failure.SameKindAt κ) Q (F (.var s.fresh.1) r) t (F' (.var s'.fresh.1) r') t') :
    Agree (Failure.SameKindAt κ) Q
      (Pass.freshVar >>= fun a => e.inferIn (env.insert x (.mono a)) >>= F a) s
      (Pass.freshVar >>= fun a => e'.inferIn (env'.insert y (.mono a)) >>= F' a) s' := by
  obtain ⟨ρ₀, hg₀, hfresh, hs₀⟩ := hs.insert_fresh x y
  refine (gives_freshVar s).bind_agree (gives_freshVar s') (h.bind hs₀ ?_)
  intro ρ' r t r' t' hv hv' hab hr
  obtain ⟨hreach, _⟩ := (hv.returns hs₀.left.toUnissued).own hs.left.toUnissued
  obtain ⟨hreach', _⟩ := (hv'.returns hs₀.right.toUnissued).own hs.right.toUnissued
  exact hF ρ' r t r' t' hv hv' (hab.grows.mono _ _ hfresh)
    ⟨hg₀.trans hab.grows, hreach, hreach', hr.subst⟩ hr

theorem bind_operand (h : InferAlike κ N e e') (hs : Starts ρ N env s env' s') {a : Ty}
    (ha : a.IsPlain) (hfree : ∀ z, z ∉ a.free) {loc loc' : Option Location} (hloc : κ loc loc')
    {F : Inferred → Subst → Pass α} {F' : Inferred → Subst → Pass β}
    (hF : ∀ ρ' r S t r' S' t', Abreast ρ env s env' s' ρ' S t S' t' → r.Alike ρ' N r' →
      Agree (Failure.SameKindAt κ) Q (F r S) t (F' r' S') t') :
    Agree (Failure.SameKindAt κ) Q
      (e.inferIn env >>= fun r => Pass.unify r.ty a loc >>= fun u =>
        Pass.compose u.subst r.subst >>= F r) s
      (e'.inferIn env' >>= fun r => Pass.unify r.ty a loc' >>= fun u =>
        Pass.compose u.subst r.subst >>= F' r) s' := by
  refine h.bind hs fun ρ' r t r' t' hv hv' hab hr => ?_
  have hrt := (hv.returns hs.left.toUnissued).ty
  have hrt' := (hv'.returns hs.right.toUnissued).ty
  have haa : a.Alike ρ' a := Ty.alike_refl ha fun z hz => absurd hz (hfree z)
  refine (unify_agree_at hab.grows.paired.biUnique hr.ty haa hloc t t').bind ?_
  rintro u _ u' _ hrun hrun' ⟨hu, rfl, rfl⟩
  refine (gives_compose _ _ _).bind_agree (gives_compose _ _ _) (hF ρ' r _ _ r' _ _ ?_ hr)
  exact hab.unify hrt ⟨ha, fun z hz => absurd hz (hfree z)⟩
    (Ty.unifies_of_unify hrt.isPlain ha (unify_of_returns hrun)) hrt'
    ⟨ha, fun z hz => absurd hz (hfree z)⟩
    (Ty.unifies_of_unify hrt'.isPlain ha (unify_of_returns hrun')) hu

theorem bind_body (h : InferAlike κ (Under N x y) e e') (hs : Starts ρ N env s env' s')
    {S S' : Subst} (hab : Abreast ρ env s env' s' ρ' S t S' t') {a a' : Ty}
    (ha : a.Unsolved (InScope env s t) S) (ha' : a'.Unsolved (InScope env' s' t') S')
    (hc : (TyEnv.generalize (env.apply S) a).Alike ρ' (TyEnv.generalize (env'.apply S') a'))
    (recursive : Bool) {F : Inferred → Subst → Pass α} {F' : Inferred → Subst → Pass β}
    (hF : ∀ ρ'' r q r' q', Grows ρ' t t' ρ'' q q' → r.Alike ρ'' (Under N x y) r' →
      (Subst.compose r.subst S).Alike ρ'' (Subst.compose r'.subst S') →
      Agree (Failure.SameKindAt κ) Q (F r (Subst.compose r.subst S)) q
        (F' r' (Subst.compose r'.subst S')) q') :
    Agree (Failure.SameKindAt κ) Q
      (Pass.generalize (env.apply S) a >>= fun c => Pass.note (.bound recursive x c) >>= fun _ =>
        e.inferIn (Bindings.insert (env.apply S) x c) >>= fun r =>
        Pass.compose r.subst S >>= F r) t
      (Pass.generalize (env'.apply S') a' >>= fun c => Pass.note (.bound recursive y c) >>= fun _ =>
        e'.inferIn (Bindings.insert (env'.apply S') y c) >>= fun r =>
        Pass.compose r.subst S' >>= F' r) t' := by
  refine (gives_generalize _ _ _).bind_agree (gives_generalize _ _ _) ?_
  refine (gives_note _ _).bind_agree (gives_note _ _) ?_
  refine h.bind (hab.starts_generalize hs ha ha' hc x y) fun ρ'' r q r' q' _ _ hab' hr => ?_
  refine (gives_compose _ _ _).bind_agree (gives_compose _ _ _) ?_
  exact hF ρ'' r q r' q' hab'.grows hr (hr.subst.compose (hab.grow hab'.grows))

end Steps

/-! One step for each rule, from the runs of the parts to that of the whole. -/

variable {m m' : Mark} {x y : String}

theorem int (m m' : Mark) (n : Int) : InferAlike κ N (.int m n) (.int m' n) :=
  fun hρ _ _ _ =>
    agree_pure ⟨_, hρ.grows, .int ⟨_, _, rfl, rfl, .int⟩, .int, Subst.alike_empty _⟩

theorem bool (m m' : Mark) (b : Bool) : InferAlike κ N (.bool m b) (.bool m' b) :=
  fun hρ _ _ _ =>
    agree_pure ⟨_, hρ.grows, .bool ⟨_, _, rfl, rfl, .bool⟩, .bool, Subst.alike_empty _⟩

theorem var (hm : κ m.loc m'.loc) (hxy : N x y) : InferAlike κ N (.var m x) (.var m' y) := by
  intro ρ s s' env env' hρ henv henv' h
  rw [inferIn, inferIn, inferVar, inferVar]
  have hget := h x y hxy
  generalize hx : env.get? x = o at hget ⊢
  generalize hy : env'.get? y = o' at hget ⊢
  cases hget with
  | none => exact agree_fail ⟨_, _, rfl, rfl, rfl, hm⟩
  | some hc =>
    obtain ⟨ρ', hg, ht⟩ := hc.instantiate (henv.isPlain x _ hx) (henv'.isPlain y _ hy) hρ
    refine (gives_instantiate _ s).bind_agree (gives_instantiate _ s') (agree_pure ?_)
    exact ⟨ρ', hg, .var ⟨_, _, rfl, rfl, ht⟩ hxy, ht, Subst.alike_empty ρ'⟩

theorem lam {b b' : Expr} (h : InferAlike κ (Under N x y) b b') (m m' : Mark) :
    InferAlike κ N (.lam m x b) (.lam m' y b') := by
  intro ρ s s' env env' hρ henv henv' henvs
  rw [inferIn, inferIn, inferLam, inferLam]
  refine h.bind_own ⟨hρ, henv, henv', henvs⟩ fun ρ₁ r t r' t' _ _ hfresh hab hr => ?_
  have ht := Ty.Alike.fn ((Ty.Alike.var hfresh).apply hr.subst) hr.ty
  exact agree_pure ⟨ρ₁, hab.grows, .lam ⟨_, _, rfl, rfl, ht⟩ hr.tree, ht, hr.subst⟩

theorem app {f f' a a' : Expr} (hm : κ m.loc m'.loc) (hf : InferAlike κ N f f')
    (ha : InferAlike κ N a a') : InferAlike κ N (.app m f a) (.app m' f' a') := by
  intro ρ s s' env env' hρ henv henv' henvs
  rw [inferIn, inferIn, inferApp, inferApp]
  have hs : Starts ρ N env s env' s' := ⟨hρ, henv, henv', henvs⟩
  refine hf.bind hs fun ρ₁ r s₁ r' s₁' _ _ hab₁ hr => ?_
  refine ha.bind (hab₁.starts hs) fun ρ₂ q s₂ q' s₂' _ _ hab₂ hq => ?_
  obtain ⟨ρ₃, hg₃, hfresh⟩ := hab₂.grows.paired.fresh
  have hlater := hab₂.grows.trans hg₃
  refine (gives_freshVar s₂).bind_agree (gives_freshVar s₂') ?_
  have hcallee := ((hr.ty.mono hab₂.grows.mono).apply hq.subst).mono hg₃.mono
  have hexpected := Ty.Alike.fn (hq.ty.mono hg₃.mono) (.var hfresh)
  refine (unify_agree_at hg₃.paired.biUnique hcallee hexpected hm _ _).bind ?_
  rintro u _ u' _ _ _ ⟨hu, rfl, rfl⟩
  refine (gives_composeAll _ _).bind_agree (gives_composeAll _ _) ?_
  have ht := (Ty.Alike.var hfresh).apply hu.subst
  have hS := hu.subst.compose ((hab₂.grow hg₃).compose
    ((hab₁.grow hlater).compose (Subst.alike_empty ρ₃)))
  refine agree_pure ⟨ρ₃, hab₁.grows.trans hlater, .app ⟨_, _, rfl, rfl, ht⟩ ?_ ?_, ht, hS⟩
  · exact hr.tree.monoMark fun _ _ hm => hm.mono hlater.mono
  · exact hq.tree.monoMark fun _ _ hm => hm.mono hg₃.mono

/-- The value of a `let` shares with the environment only variables that it has read off a name
which occurs in it, so both runs leave the same ones free. -/
theorem letIn {v v' b b' : Expr} (hN : v.Alike μ N v') (hv : InferAlike κ N v v')
    (hb : InferAlike κ (Under N x y) b b') (m m' : Mark) :
    InferAlike κ N (.letIn m x v b) (.letIn m' y v' b') := by
  intro ρ s s' env env' hρ henv henv' henvs
  rw [inferIn, inferIn, inferLet, inferLet]
  have hs : Starts ρ N env s env' s' := ⟨hρ, henv, henv', henvs⟩
  refine hv.bind hs fun ρ₁ r s₁ r' s₁' hr hr' hab hrr => ?_
  have ht := (hr.returns henv.toUnissued).ty
  have ht' := (hr'.returns henv'.toUnissued).ty
  rw [ht.apply_eq, ht'.apply_eq]
  have hc := alike_generalize_of_read hab.grows.paired.biUnique (hab.starts hs).alike hrr.ty
    (fun z hzt hz => by
      obtain ⟨a, c, ha, hac, hzc⟩ := hr.exists_get?_of_value henv.toUnissued hzt hz
      obtain ⟨b, _, hab⟩ := hN.exists_mem_free ha
      exact ⟨a, b, c, hab, hac, hzc⟩)
    (fun z hzt hz => by
      obtain ⟨b, c, hb, hbc, hzc⟩ := hr'.exists_get?_of_value henv'.toUnissued hzt hz
      obtain ⟨a, _, hab⟩ := hN.symm.exists_mem_free hb
      exact ⟨a, b, c, hab, hbc, hzc⟩)
  refine hb.bind_body hs hab ht ht' hc false fun ρ₂ q s₂ q' s₂' hg hq hS => agree_pure ?_
  refine ⟨ρ₂, hab.grows.trans hg, .letIn ⟨_, _, rfl, rfl, hq.ty⟩ ?_ hq.tree, hq.ty, hS⟩
  exact hrr.tree.monoMark fun _ _ hm => hm.mono hg.mono

/-- As for a `let`, but the name itself occurs in the value: what is read off it is its own
variable, which is solved by then. -/
theorem letRec {v v' b b' : Expr} (hm : κ m.loc m'.loc) (hN : v.Alike μ (Under N x y) v')
    (hv : InferAlike κ (Under N x y) v v') (hb : InferAlike κ (Under N x y) b b') :
    InferAlike κ N (.letRec m x v b) (.letRec m' y v' b') := by
  intro ρ s s' env env' hρ henv henv' henvs
  rw [inferIn, inferIn, inferLetRec, inferLetRec]
  have hs : Starts ρ N env s env' s' := ⟨hρ, henv, henv', henvs⟩
  refine hv.bind_own hs fun ρ₁ r s₁ r' s₁' hr hr' hfresh hab hrr => ?_
  obtain ⟨_, hval, hown⟩ := (hr.returns (henv.insert_fresh x).toUnissued).own henv.toUnissued
  obtain ⟨_, hval', hown'⟩ := (hr'.returns (henv'.insert_fresh y).toUnissued).own henv'.toUnissued
  have hexpected := (Ty.Alike.var hfresh).apply hrr.subst
  refine (unify_agree_at hab.grows.paired.biUnique hrr.ty hexpected hm _ _).bind ?_
  rintro u _ u' _ hrun hrun' ⟨huu, rfl, rfl⟩
  have hu := unify_of_returns hrun
  have hu' := unify_of_returns hrun'
  have hun := Ty.unifies_of_unify hval.isPlain hown.isPlain hu
  have hun' := Ty.unifies_of_unify hval'.isPlain hown'.isPlain hu'
  have hfound := hab.unify hval hown hun hval' hown' hun' huu
  have hut := (hun.unsolved hval.isPlain).later (hval.mem_vars hown)
  have hut' := (hun'.unsolved hval'.isPlain).later (hval'.mem_vars hown')
  refine (gives_compose _ _ _).bind_agree (gives_compose _ _ _) ?_
  have hc := alike_generalize_of_read hab.grows.paired.biUnique (hfound.starts hs).alike huu.type
    (fun z hzt hz => by
      obtain ⟨a, c, ha, hne, hac, hzc⟩ := hr.exists_get?_of_recursive henv.toUnissued hu hzt hz
      obtain ⟨b, _, ⟨he, _⟩ | ⟨_, _, hab⟩⟩ := hN.exists_mem_free ha
      · exact absurd he hne
      · exact ⟨a, b, c, hab, hac, hzc⟩)
    (fun z hzt hz => by
      obtain ⟨b, c, hb, hne, hbc, hzc⟩ := hr'.exists_get?_of_recursive henv'.toUnissued hu' hzt hz
      obtain ⟨a, _, ⟨_, he⟩ | ⟨_, _, hab⟩⟩ := hN.symm.exists_mem_free hb
      · exact absurd he hne
      · exact ⟨a, b, c, hab, hbc, hzc⟩)
  refine hb.bind_body hs hfound hut hut' hc true fun ρ₂ q s₂ q' s₂' hg hq hS => agree_pure ?_
  refine ⟨ρ₂, hab.grows.trans hg, .letRec ⟨_, _, rfl, rfl, hq.ty⟩ ?_ hq.tree, hq.ty, hS⟩
  exact (hrr.tree.substitute huu.subst).monoMark fun _ _ hm => hm.mono hg.mono

theorem binary {op : Operator} {l l' r r' : Expr} (hlocl : κ (l.loc.or m.loc) (l'.loc.or m'.loc))
    (hlocr : κ (r.loc.or m.loc) (r'.loc.or m'.loc)) (hl : InferAlike κ N l l')
    (hr : InferAlike κ N r r') :
    InferAlike κ N (.binary m op l r) (.binary m' op l' r') := by
  intro ρ s s' env env' hρ henv henv' henvs
  rw [inferIn, inferIn, inferBinary, inferBinary]
  have hs : Starts ρ N env s env' s' := ⟨hρ, henv, henv', henvs⟩
  refine hl.bind_operand hs Ty.isPlain_int Ty.not_mem_free_int hlocl ?_
  intro ρ₁ p S s₁ p' S' s₁' hab hp
  refine hr.bind (hab.starts hs) fun ρ₂ q s₂ q' s₂' _ _ hab₂ hq => ?_
  refine (unify_agree_at hab₂.grows.paired.biUnique hq.ty .int hlocr _ _).bind ?_
  rintro w _ w' _ _ _ ⟨hw, rfl, rfl⟩
  refine (gives_compose _ _ _).bind_agree (gives_compose _ _ _) ?_
  refine (gives_compose _ _ _).bind_agree (gives_compose _ _ _) ?_
  have ht : op.resultTy.Alike ρ₂ op.resultTy := by
    cases op with
    | add | sub => exact .int
    | less => exact .bool
  have hfound := hab.infer hs hab₂
  refine agree_pure ⟨ρ₂, hfound.grows, .binary ⟨_, _, rfl, rfl, ht⟩ ?_ hq.tree, ht,
    hw.subst.compose hfound.subst⟩
  exact hp.tree.monoMark fun _ _ hm => hm.mono hab₂.grows.mono

theorem cond {c c' a a' b b' : Expr} (hloc : κ (c.loc.or m.loc) (c'.loc.or m'.loc))
    (hm : κ m.loc m'.loc) (hc : InferAlike κ N c c') (ha : InferAlike κ N a a')
    (hb : InferAlike κ N b b') : InferAlike κ N (.cond m c a b) (.cond m' c' a' b') := by
  intro ρ s s' env env' hρ henv henv' henvs
  rw [inferIn, inferIn, inferCond, inferCond]
  have hs : Starts ρ N env s env' s' := ⟨hρ, henv, henv', henvs⟩
  refine hc.bind_operand hs Ty.isPlain_bool Ty.not_mem_free_bool hloc ?_
  intro ρ₁ p S s₁ p' S' s₁' hab₁ hp
  refine ha.bind (hab₁.starts hs) fun ρ₂ q s₂ q' s₂' _ _ hab₂ hq => ?_
  refine (gives_compose _ _ _).bind_agree (gives_compose _ _ _) ?_
  have hfound₂ := hab₁.infer hs hab₂
  refine hb.bind (hfound₂.starts hs) fun ρ₃ r s₃ r' s₃' _ _ hab₃ hr => ?_
  refine (gives_compose _ _ _).bind_agree (gives_compose _ _ _) ?_
  have hfound₃ := hfound₂.infer hs hab₃
  have hyes := (hq.ty.mono hab₃.grows.mono).apply hr.subst
  refine (unify_agree_at hab₃.grows.paired.biUnique hyes hr.ty hm _ _).bind ?_
  rintro w _ w' _ _ _ ⟨hw, rfl, rfl⟩
  refine (gives_compose _ _ _).bind_agree (gives_compose _ _ _) ?_
  refine agree_pure ⟨ρ₃, hfound₃.grows, .cond ⟨_, _, rfl, rfl, hw.type⟩ ?_ ?_ hr.tree, hw.type,
    hw.subst.compose hfound₃.subst⟩
  · exact hp.tree.monoMark fun _ _ hm => hm.mono (hab₂.grows.trans hab₃.grows).mono
  · exact hq.tree.monoMark fun _ _ hm => hm.mono hab₃.grows.mono

end InferAlike

theorem Alike.inferIn_agree (he : Alike μ N e e') (hμ : ∀ m m', μ m m' → κ m.loc m'.loc)
    (hκ : JoinsPlaces κ) : InferAlike κ N e e' := by
  induction he with
  | int => exact InferAlike.int _ _ _
  | bool => exact InferAlike.bool _ _ _
  | var hm hxy => exact InferAlike.var (hμ _ _ hm) hxy
  | lam _ _ ih => exact ih.lam _ _
  | app hm _ _ ihf iha => exact InferAlike.app (hμ _ _ hm) ihf iha
  | letIn _ hv _ ihv ihb => exact InferAlike.letIn hv ihv ihb _ _
  | letRec hm hv _ ihv ihb => exact InferAlike.letRec (hμ _ _ hm) hv ihv ihb
  | binary hm hl hr ihl ihr =>
    exact InferAlike.binary (hκ _ _ _ _ (hμ _ _ hl.mark) (hμ _ _ hm))
      (hκ _ _ _ _ (hμ _ _ hr.mark) (hμ _ _ hm)) ihl ihr
  | cond hm hc _ _ ihc iha ihb =>
    exact InferAlike.cond (hκ _ _ _ _ (hμ _ _ hc.mark) (hμ _ _ hm)) (hμ _ _ hm) ihc iha ihb

theorem Alike.inferTypes_agree_at {μ : Mark → Mark → Prop} (he : Alike μ Eq e e')
    (hμ : ∀ m m', μ m m' → κ m.loc m'.loc) (hκ : JoinsPlaces κ) (henv : env.IsClosed)
    (s s' : NameSupply) :
    Agree (Failure.SameKindAt κ)
      (fun r _ r' _ => ∃ ρ, Relator.BiUnique ρ ∧ r.Alike (Mark.Alike ρ) Eq r')
      (e.inferTypes env) s (e'.inferTypes env) s' := by
  have hρ : Paired (fun _ _ => False) s s' :=
    ⟨⟨fun _ _ _ h => h.elim, fun _ _ _ h => h.elim⟩, fun _ _ h => h.elim, fun _ _ h => h.elim⟩
  have hinfer : Agree (Failure.SameKindAt κ)
      (fun r _ r' _ => ∃ ρ, Relator.BiUnique ρ ∧ r.Alike ρ Eq r')
      (e.infer env) s (e'.infer env) s' := by
    rw [infer, infer]
    refine (he.inferIn_agree hμ hκ hρ (henv.ready s) (henv.ready s') henv.alike).bind ?_
    rintro r t r' t' _ _ ⟨ρ, hg, hr⟩
    refine (gives_note _ t).bind_agree (gives_note _ t') (agree_pure ?_)
    exact ⟨ρ, hg.paired.biUnique, hr⟩
  rw [inferTypes, inferTypes]
  refine hinfer.bind ?_
  rintro r t r' t' _ _ ⟨ρ, hρ, hr⟩
  exact agree_pure ⟨ρ, hρ, hr.tree.substitute hr.subst⟩

theorem Alike.inferTypes_agree {μ : Mark → Mark → Prop} (he : Alike μ Eq e e')
    (henv : env.IsClosed) (s s' : NameSupply) :
    Agree Failure.SameKind
      (fun r _ r' _ => ∃ ρ, Relator.BiUnique ρ ∧ r.Alike (Mark.Alike ρ) Eq r')
      (e.inferTypes env) s (e'.inferTypes env) s' :=
  (he.inferTypes_agree_at (κ := fun _ _ => True) (fun _ _ _ => trivial)
    (fun _ _ _ _ _ _ => trivial) henv s s').imp_failure fun _ _ h => h.sameKind

end Expr
end LetLower
