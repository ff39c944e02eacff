import LetLower.Proofs.Infer.Scope

/-!
# A part of a run inside the whole

What a part returns is completed by what is solved after it. The variables that a part drew and
does not return die with it: nothing that is solved later speaks of them. This is what keeps a
generalised variable apart from everything outside its `let`.
-/

namespace LetLower

namespace Subst

/-- Do a substitution, then put types in for what it leaves. -/
def andThen (s : Subst) (f : String → Ty) (x : String) : Ty := (s.image x).bind f

theorem empty_andThen (f : String → Ty) : andThen ∅ f = f := rfl

theorem andThen_of_not_mem {s : Subst} {x : String} (h : x ∉ s) (f : String → Ty) :
    s.andThen f x = f x := by
  rw [andThen, image_of_not_mem h, Ty.bind_var]

theorem andThen_compose {older newer : Subst} (h : older.IsPlain) (f : String → Ty) :
    (compose newer older).andThen f = older.andThen (newer.andThen f) := by
  funext x
  rw [andThen, image_compose, Ty.apply_eq_bind _ (h.image x), Ty.bind_bind]
  rfl

theorem andThen_isPlain {s : Subst} (hs : s.IsPlain) {f : String → Ty} (hf : ∀ x, (f x).IsPlain)
    (x : String) : (s.andThen f x).IsPlain :=
  (hs.image x).bind fun y _ => hf y

/-- The substitution speaks of variables in `L` only. -/
structure Within (L : String → Prop) (s : Subst) : Prop where
  isPlain : s.IsPlain
  domain : ∀ x ∈ s, L x
  range : ∀ z ∈ s.range, L z

namespace Within

variable {L : String → Prop} {s s' : Subst}

theorem empty (L : String → Prop) : Within L ∅ :=
  ⟨isPlain_empty, (SolvesIn.empty L).domain, (SolvesIn.empty L).range⟩

theorem compose (h : Within L s) (h' : Within L s') : Within L (Subst.compose s' s) where
  isPlain := h'.isPlain.compose h.isPlain
  domain x hx := (mem_compose.1 hx).elim (h.domain x) (h'.domain x)
  range z hz := (mem_range_compose hz).elim (fun hz => h.range z hz.1) (h'.range z)

theorem mem_image (h : Within L s) {x z : String} (hx : L x) (hz : z ∈ (s.image x).free) :
    L z := by
  rcases Subst.mem_image hz with ⟨rfl, _⟩ | hr
  · exact hx
  · exact h.range z hr

theorem mem_apply (h : Within L s) {t : Ty} (ht : t.IsPlain) (hL : ∀ z ∈ t.free, L z) :
    ∀ z ∈ (t.apply s).free, L z := by
  intro z hz
  rw [Ty.apply_eq_bind s ht, Ty.mem_free_bind ht] at hz
  obtain ⟨x, hx, hz⟩ := hz
  exact h.mem_image (hL x hx) hz

end Within

theorem SolvesIn.within {L L' : String → Prop} {s : Subst} (h : SolvesIn L s)
    (hL : ∀ z, L z → L' z) : Within L' s :=
  ⟨h.isPlain, fun x hx => hL x (h.domain x hx), fun z hz => hL z (h.range z hz)⟩

end Subst

theorem Ty.bind_apply {s : Subst} {t : Ty} (ht : t.IsPlain) (f : String → Ty) :
    (t.apply s).bind f = t.bind (s.andThen f) := by
  rw [Ty.apply_eq_bind s ht, Ty.bind_bind]
  rfl

namespace Ty.Unifies

variable {L : String → Prop} {a b : Ty} {u : Unifier}

theorem within (h : Unifies a b u) (ha : ∀ z ∈ a.free, L z) (hb : ∀ z ∈ b.free, L z) :
    u.subst.Within L :=
  h.solvesIn.within fun z hz => (NameSet.mem_union.1 hz).elim (ha z) (hb z)

theorem mem_type (h : Unifies a b u) (hp : a.IsPlain) (ha : ∀ z ∈ a.free, L z)
    (hb : ∀ z ∈ b.free, L z) : ∀ z ∈ u.type.free, L z := by
  intro z hz
  rw [h.type_eq, mem_free_bind hp] at hz
  obtain ⟨x, hx, hz⟩ := hz
  exact (h.within ha hb).mem_image (ha x hx) hz

theorem bind_andThen (h : Unifies a b u) (f : String → Ty) :
    a.bind (u.subst.andThen f) = b.bind (u.subst.andThen f) := by
  change a.bind (fun x => _) = b.bind fun x => _
  have hu := congrArg (Ty.bind f) h.mostGeneral.unifies
  rwa [Ty.bind_bind, Ty.bind_bind] at hu

theorem bind_type (h : Unifies a b u) (f : String → Ty) :
    u.type.bind f = a.bind (u.subst.andThen f) := by
  rw [h.type_eq, Ty.bind_bind]
  rfl

theorem bind_type_eq (h : Unifies a b u) {f : String → Ty} (hf : a.bind f = b.bind f) :
    u.type.bind f = a.bind f := by
  rw [h.bind_type]
  exact Ty.bind_congr fun x _ => h.mostGeneral.factors f hf x

end Ty.Unifies

/-- Completing a type with a unifier first changes nothing where the unifier is done anyway. -/
theorem image_bind_unifier {L : String → Prop} {S : Subst} (hS : S.SolvesIn L)
    {g : String → Ty} {k : String → Ty}
    (hg : ∀ z, L z → g z = S.andThen k z) (z : String) : (S.image z).bind g = g z := by
  by_cases hz : z ∈ S
  · rw [hg z (hS.domain z hz)]
    refine Ty.bind_congr fun w hw => ?_
    have hw' := hS.mem_image (hS.domain z hz) hw
    rw [hg w hw'.1, Subst.andThen_of_not_mem hw'.2]
  · rw [Subst.image_of_not_mem hz, Ty.bind_var]

/-- Types put in that leave the names in `D` alone and do not mention them elsewhere. -/
structure Keeps (D : String → Prop) (f : String → Ty) : Prop where
  isPlain : ∀ x, (f x).IsPlain
  fixes : ∀ z, D z → f z = .var z
  avoids : ∀ z, D z → ∀ x, z ∈ (f x).free → x = z

theorem keeps_var (D : String → Prop) : Keeps D .var :=
  ⟨fun _ => trivial, fun _ _ => rfl, fun _ _ _ hz => (Ty.mem_free_var.1 hz).symm⟩

theorem Keeps.andThen {D D' : String → Prop} {f : String → Ty} (h : Keeps D f)
    (hD : ∀ z, D' z → D z) {L : String → Prop} {s : Subst} (hs : s.Within L)
    (hL : ∀ z, L z → ¬ D' z) : Keeps D' (s.andThen f) where
  isPlain := Subst.andThen_isPlain hs.isPlain h.isPlain
  fixes z hz := by
    rw [Subst.andThen_of_not_mem fun hm => hL z (hs.domain z hm) hz]
    exact h.fixes z (hD z hz)
  avoids z hz x hm := by
    obtain ⟨y, hy, hzy⟩ := (Ty.mem_free_bind (hs.isPlain.image x)).1 hm
    rw [h.avoids z (hD z hz) y hzy] at hy
    rcases Subst.mem_image hy with ⟨he, _⟩ | hr
    · exact he.symm
    · exact absurd hz (hL z (hs.range z hr))

namespace Expr

open Infers

/-- A variable that may still be spoken of after a part of the run. -/
def Survives (env : TyEnv) (s : NameSupply) (r : Inferred) (s' : NameSupply) (z : String) : Prop :=
  s.Issues z → z ∈ r.ty.free ∨ (∃ y ∈ env.free, z ∈ (r.subst.image y).free) ∨ s'.Issues z

section

variable {env : TyEnv} {s s' : NameSupply} {r : Inferred}

theorem survives_ty : ∀ z ∈ r.ty.free, Survives env s r s' z := fun _ hz _ => .inl hz

theorem survives_of_issues {z : String} (hz : s'.Issues z) : Survives env s r s' z :=
  fun _ => .inr (.inr hz)

theorem Infers.Returns.survives_image (hr : Returns env s r s') {y z : String} (hy : ¬ s.Issues y)
    (hz : z ∈ (r.subst.image y).free) : Survives env s r s' z := by
  intro hi
  by_cases hm : y ∈ r.subst
  · have hf : y ∈ env.free := (hr.reached.subst.domain y hm).1.resolve_right hy
    exact .inr (.inl ⟨y, hf, hz⟩)
  · rw [Subst.image_of_not_mem hm] at hz
    rw [Ty.mem_free_var.1 hz] at hi
    exact absurd hi hy

theorem Infers.Returns.survives_apply (hr : Returns env s r s') {t : Ty} (ht : t.IsPlain)
    (hn : ∀ y ∈ t.free, ¬ s.Issues y) : ∀ z ∈ (t.apply r.subst).free, Survives env s r s' z := by
  intro z hz
  rw [Ty.apply_eq_bind _ ht, Ty.mem_free_bind ht] at hz
  obtain ⟨y, hy, hz⟩ := hz
  exact hr.survives_image (hn y hy) hz

theorem Infers.Returns.survives_compose (hr : Returns env s r s') {S S' : Subst} (hS : S.IsPlain)
    (hS' : S'.Within (Survives env s r s')) {y z : String}
    (hy : ∀ w ∈ (S.image y).free, ¬ s.Issues w)
    (hz : z ∈ ((Subst.compose S' (Subst.compose r.subst S)).image y).free) :
    Survives env s r s' z := by
  have hr' := hr.reached.subst.isPlain
  rw [Subst.image_compose, Ty.apply_eq_bind _ ((hr'.compose hS).image y),
    Ty.mem_free_bind ((hr'.compose hS).image y)] at hz
  obtain ⟨x, hx, hz⟩ := hz
  rw [Subst.image_compose, Ty.apply_eq_bind _ (hS.image y), Ty.mem_free_bind (hS.image y)] at hx
  obtain ⟨w, hw, hx⟩ := hx
  exact hS'.mem_image (hr.survives_image (hy w hw) hx) hz

theorem Infers.Returns.survives_env (hr : Returns env s r s') {env₀ : TyEnv} {s₀ : NameSupply}
    {S S' : Subst} (henv : env₀.Ready s₀) (h : Reached env₀ s₀ S s)
    (hS' : S'.Within (Survives env s r s')) :
    ∀ z ∈ (env₀.apply (Subst.compose S' (Subst.compose r.subst S))).free,
      Survives env s r s' z := by
  intro z hz
  rw [TyEnv.apply_eq_bind henv.isPlain] at hz
  obtain ⟨y, hy, hz⟩ := TyEnv.exists_of_mem_free_bind henv.isPlain hz
  have hyL : InScope env₀ s₀ s y :=
    ⟨.inl hy, fun hi => henv.drawn y hy (hi.of_reaches h.supply)⟩
  exact hr.survives_compose h.subst.isPlain hS'
    (fun w hw => (h.subst.mem_image hyL hw).1.2) hz

/-- A part that comes after speaks of survivors, if its environment speaks of what is left of the
first one. -/
theorem Infers.Returns.survives_later (hr : Returns env s r s') {env₀ : TyEnv} {s₀ : NameSupply}
    {S S' T : Subst} (henv : env₀.Ready s₀) (h : Reached env₀ s₀ S s)
    (hS' : S'.Within (Survives env s r s')) (hT : T = Subst.compose S' (Subst.compose r.subst S))
    {env' : TyEnv} (henv' : ∀ z ∈ env'.free, z ∈ (env₀.apply T).free) {s₁ : NameSupply}
    (hs : s'.Reaches s₁) (s₂ : NameSupply) :
    ∀ z, InScope env' s₁ s₂ z → Survives env s r s' z := by
  intro z hz
  subst hT
  exact hz.1.elim (fun hf => hr.survives_env henv h hS' z (henv' z hf)) fun hi =>
    survives_of_issues (hi.of_reaches hs)

end

/-- A part of a run: `S` was solved before it, `S'` is solved after it. -/
structure Part (env : TyEnv) (s : NameSupply) (whole : Inferred) (s₃ : NameSupply) (S : Subst)
    (env' : TyEnv) (s₁ : NameSupply) (r : Inferred) (s₂ : NameSupply) (S' : Subst) : Prop where
  reached : Reached env s S s₁
  scope : ∀ z ∈ env'.free, InScope env s s₁ z ∧ z ∉ S
  returns : Returns env' s₁ r s₂
  later : S'.Within (Survives env' s₁ r s₂)
  subst : whole.subst = Subst.compose S' (Subst.compose r.subst S)
  ty : ∀ z ∈ whole.ty.free, Survives env' s₁ r s₂ z
  supply : s₂.Reaches s₃

/-- The mark has a type of variables in `L`, which becomes the type of the node. -/
def MarkedUnder (g : String → Ty) (L : String → Prop) (m : Mark) (t : Ty) : Prop :=
  ∃ u, m.ty = some u ∧ u.IsPlain ∧ (∀ z ∈ u.free, L z) ∧ t = u.bind g

theorem MarkedUnder.substitute {g : String → Ty} {L : String → Prop} {S : Subst} {m : Mark}
    {t : Ty} (h : MarkedUnder g L m t) (hS : S.Within L) (hg : ∀ z, (S.image z).bind g = g z) :
    MarkedUnder g L { m with ty := m.ty.map (Ty.apply S) } t := by
  obtain ⟨u, hu, hup, huL, rfl⟩ := h
  refine ⟨u.apply S, by rw [hu]; rfl, hup.apply hS.isPlain, hS.mem_apply hup huL, ?_⟩
  rw [Ty.bind_apply hup]
  exact Ty.bind_congr fun z _ => (hg z).symm

theorem Infers.Returns.bind_ty {env : TyEnv} {s s' : NameSupply} {r : Inferred}
    (h : Returns env s r s') (f : String → Ty) : r.ty.bind f = r.ty.bind (r.subst.andThen f) := by
  change _ = r.ty.bind fun x => (r.subst.image x).bind f
  rw [← Ty.bind_bind, h.ty.bind_image]

theorem Infers.Returns.marked {env : TyEnv} {s s' : NameSupply} {r : Inferred}
    (h : Returns env s r s') (m : Mark) (f : String → Ty) :
    MarkedUnder (r.subst.andThen f) (InScope env s s') { m with ty := some r.ty } (r.ty.bind f) :=
  ⟨r.ty, rfl, h.ty.isPlain, fun z hz => (h.ty.free z hz).1, h.bind_ty f⟩

namespace Part

variable {env env' : TyEnv} {s s₁ s₂ s₃ : NameSupply} {S S' : Subst} {whole r : Inferred}
  {f : String → Ty}

theorem andThen_eq (h : Part env s whole s₃ S env' s₁ r s₂ S') (f : String → Ty) :
    whole.subst.andThen f = S.andThen (r.subst.andThen (S'.andThen f)) := by
  have hr := h.returns.reached.subst.isPlain
  rw [h.subst, Subst.andThen_compose (hr.compose h.reached.subst.isPlain),
    Subst.andThen_compose h.reached.subst.isPlain]

/-- What survives the whole run has survived the part. -/
theorem survives (h : Part env s whole s₃ S env' s₁ r s₂ S') (henv : env.Ready s) {z : String}
    (hz : Survives env s whole s₃ z) : Survives env' s₁ r s₂ z := by
  intro hi
  rcases hz (hi.of_reaches h.reached.supply) with hz | ⟨y, hy, hz⟩ | hz
  · exact h.ty z hz hi
  · have hyL : InScope env s s₁ y :=
      ⟨.inl hy, fun hi => henv.drawn y hy (hi.of_reaches h.reached.supply)⟩
    rw [h.subst] at hz
    exact h.returns.survives_compose h.reached.subst.isPlain h.later
      (fun w hw => (h.reached.subst.mem_image hyL hw).1.2) hz hi
  · exact survives_of_issues (hz.of_reaches h.supply) hi

theorem keeps (h : Part env s whole s₃ S env' s₁ r s₂ S') (henv : env.Ready s)
    (hf : Keeps (fun z => ¬ Survives env s whole s₃ z) f) :
    Keeps (fun z => ¬ Survives env' s₁ r s₂ z) (S'.andThen f) :=
  hf.andThen (fun _ hn hz => hn (h.survives henv hz)) h.later fun _ hz hn => hn hz

theorem marked (h : Part env s whole s₃ S env' s₁ r s₂ S') {m : Mark} {t : Ty}
    (hm : MarkedUnder (r.subst.andThen (S'.andThen f)) (InScope env' s₁ s₂) m t) :
    MarkedUnder (whole.subst.andThen f) (InScope env s s₃) m t := by
  obtain ⟨u, hu, hp, hL, ht⟩ := hm
  have hL' := fun z hz => h.reached.inScope h.scope z (hL z hz)
  refine ⟨u, hu, hp, fun z hz => (hL' z hz).1.mono h.supply, ?_⟩
  rw [ht, h.andThen_eq]
  exact Ty.bind_congr fun z hz => (Subst.andThen_of_not_mem (hL' z hz).2 _).symm

end Part
end Expr
end LetLower
