import LetLower.Proofs.Bindings
import LetLower.Proofs.Ty.Bind

/-!
# Schemes and environments under a change of variables

A change of variables reaches the free variables of a scheme and leaves the bound ones. It is
harmless where nothing that it puts in mentions a bound name; then two changes are one, instances
go to instances, and the variables that remain are those put in for the free ones.
-/

namespace LetLower

namespace Scheme

def bind (f : String → Ty) (c : Scheme) : Scheme :=
  ⟨c.bound, c.body.bind fun x => if x ∈ c.bound then .var x else f x⟩

/-- What is put in for the free variables mentions no bound one. -/
def Avoids (c : Scheme) (f : String → Ty) : Prop := ∀ x ∈ c.free, ∀ z ∈ (f x).free, z ∉ c.bound

theorem avoids_mono (t : Ty) (f : String → Ty) : (mono t).Avoids f :=
  fun _ _ z _ => NameSet.not_mem_empty z

theorem apply_eq_bind {c : Scheme} (hc : c.body.IsPlain) (s : Subst) :
    c.apply s = c.bind s.image := by
  rw [Scheme.apply, Ty.apply_eq_bind _ hc, bind]
  congr 2
  funext x
  exact Subst.image_without s c.bound x

theorem bind_mono (t : Ty) (f : String → Ty) : (mono t).bind f = mono (t.bind f) := by
  have ht : (mono t).body.bind (fun x => if x ∈ (mono t).bound then .var x else f x) = t.bind f :=
    Ty.bind_congr fun x _ => if_neg (NameSet.not_mem_empty x)
  rw [bind, ht]
  rfl

theorem bind_congr {c : Scheme} {f g : String → Ty} (h : ∀ x ∈ c.free, f x = g x) :
    c.bind f = c.bind g := by
  rw [bind, bind]
  congr 1
  refine Ty.bind_congr fun x hx => ?_
  by_cases hb : x ∈ c.bound
  · rw [if_pos hb, if_pos hb]
  · rw [if_neg hb, if_neg hb, h x (mem_free.2 ⟨hx, hb⟩)]

theorem bind_eq_self {c : Scheme} {f : String → Ty} (h : ∀ x ∈ c.free, f x = .var x) :
    c.bind f = c := by
  rw [bind_congr (g := .var) h, bind]
  congr 1
  exact Ty.bind_eq_self fun x _ => ite_self _

theorem IsClosed.bind {c : Scheme} (h : c.IsClosed) (f : String → Ty) : (c.bind f).IsClosed := by
  intro z hz
  rw [bind_eq_self fun y hy => absurd hy (h y)] at hz
  exact h z hz

theorem body_bind_isPlain {c : Scheme} {f : String → Ty} (hc : c.body.IsPlain)
    (hf : ∀ x, (f x).IsPlain) : (c.bind f).body.IsPlain := by
  refine hc.bind fun x _ => ?_
  split
  · trivial
  · exact hf x

theorem exists_of_mem_free_bind {c : Scheme} {f : String → Ty} (hc : c.body.IsPlain) {z : String}
    (hz : z ∈ (c.bind f).free) : ∃ x ∈ c.free, z ∈ (f x).free := by
  rw [mem_free, bind, Ty.mem_free_bind hc] at hz
  obtain ⟨⟨x, hx, hz⟩, hn⟩ := hz
  by_cases hb : x ∈ c.bound
  · rw [if_pos hb] at hz
    rw [Ty.mem_free_var.1 hz] at hn
    exact absurd hb hn
  · rw [if_neg hb] at hz
    exact ⟨x, mem_free.2 ⟨hx, hb⟩, hz⟩

theorem mem_free_bind_of {c : Scheme} {f : String → Ty} (hc : c.body.IsPlain) {x z : String}
    (hx : x ∈ c.free) (hz : z ∈ (f x).free) (hn : z ∉ c.bound) : z ∈ (c.bind f).free := by
  have hx' := mem_free.1 hx
  rw [mem_free, bind, Ty.mem_free_bind hc]
  refine ⟨⟨x, hx'.1, ?_⟩, hn⟩
  rwa [if_neg hx'.2]

theorem mem_free_bind {c : Scheme} {f : String → Ty} (hc : c.body.IsPlain) (h : c.Avoids f)
    {z : String} : z ∈ (c.bind f).free ↔ ∃ x ∈ c.free, z ∈ (f x).free := by
  refine ⟨exists_of_mem_free_bind hc, ?_⟩
  rintro ⟨x, hx, hz⟩
  exact mem_free_bind_of hc hx hz (h x hx z hz)

theorem bind_bind {c : Scheme} {f g : String → Ty} (h : c.Avoids f) :
    (c.bind f).bind g = c.bind fun x => (f x).bind g := by
  change Scheme.mk c.bound (Ty.bind _ (Ty.bind _ _)) = ⟨c.bound, _⟩
  rw [Ty.bind_bind]
  congr 1
  refine Ty.bind_congr fun x hx => ?_
  by_cases hb : x ∈ c.bound
  · rw [if_pos hb, if_pos hb]
    exact if_pos hb
  · rw [if_neg hb, if_neg hb]
    exact Ty.bind_congr fun z hz => if_neg (h x (mem_free.2 ⟨hx, hb⟩) z hz)

/-- Avoiding the bound names with two changes at once, seen after the first. -/
theorem Avoids.bind {c : Scheme} {f g : String → Ty} (hc : c.body.IsPlain)
    (hf : ∀ x, (f x).IsPlain) (h : c.Avoids f) (hfg : c.Avoids fun x => (f x).bind g) :
    (c.bind f).Avoids g := by
  intro z hz w hw
  obtain ⟨x, hx, hzx⟩ := (mem_free_bind hc h).1 hz
  exact hfg x hx w ((Ty.mem_free_bind (hf x)).2 ⟨z, hzx, hw⟩)

theorem HasInstance.bind {c : Scheme} {f : String → Ty} (hc : c.body.IsPlain)
    (hf : ∀ x, (f x).IsPlain) (h : c.Avoids f) {t : Ty} (ht : c.HasInstance t) :
    (c.bind f).HasInstance (t.bind f) := by
  obtain ⟨g, hg, hb, rfl⟩ := (hasInstance_iff hc).1 ht
  refine (hasInstance_iff (body_bind_isPlain hc hf)).2
    ⟨fun x => if x ∈ c.bound then (g x).bind f else .var x, fun x => ?_, fun x hx => if_neg hx, ?_⟩
  · dsimp only
    split
    · exact (hg x).bind fun y _ => hf y
    · trivial
  · simp only [Scheme.bind]
    rw [Ty.bind_bind, Ty.bind_bind]
    refine Ty.bind_congr fun x hx => ?_
    by_cases hx' : x ∈ c.bound
    · rw [if_pos hx', Ty.bind_var, if_pos hx']
    · rw [if_neg hx', hb x hx', Ty.bind_var]
      exact (Ty.bind_eq_self fun z hz => if_neg (h x (mem_free.2 ⟨hx, hx'⟩) z hz)).symm

end Scheme

namespace TyEnv

def bind (f : String → Ty) (env : TyEnv) : TyEnv := env.map (Scheme.bind f)

def IsPlain (env : TyEnv) : Prop := ∀ x c, env.get? x = some c → c.body.IsPlain

def Avoids (env : TyEnv) (f : String → Ty) : Prop := ∀ x c, env.get? x = some c → c.Avoids f

theorem mem_free_of_get? {env : TyEnv} {x z : String} {c : Scheme} (h : env.get? x = some c)
    (hz : z ∈ c.free) : z ∈ env.free :=
  mem_free.2 ⟨x, c, h, hz⟩

theorem get?_bind {env : TyEnv} {f : String → Ty} {x : String} :
    (env.bind f).get? x = (env.get? x).map (Scheme.bind f) :=
  Bindings.get?_map

theorem get?_bind_eq_some {env : TyEnv} {f : String → Ty} {x : String} {c : Scheme} :
    (env.bind f).get? x = some c ↔ ∃ d, env.get? x = some d ∧ d.bind f = c := by
  rw [get?_bind, Option.map_eq_some_iff]

theorem bind_insert {env : TyEnv} {f : String → Ty} {x : String} {c : Scheme} :
    bind f (env.insert x c) = (env.bind f).insert x (c.bind f) :=
  Bindings.map_insert

theorem mem_free_insert {env : TyEnv} {x z : String} {c : Scheme}
    (h : z ∈ free (env.insert x c)) : z ∈ c.free ∨ z ∈ env.free := by
  obtain ⟨y, d, hy, hz⟩ := mem_free.1 h
  rw [Bindings.get?_insert] at hy
  split at hy
  · rw [Option.some.inj hy]
    exact .inl hz
  · exact .inr (mem_free_of_get? hy hz)

theorem bind_eq_self {env : TyEnv} {f : String → Ty} (h : ∀ x ∈ env.free, f x = .var x) :
    env.bind f = env := by
  refine Eq.trans (Bindings.map_congr (g := fun c => c) fun x c hx => ?_) Bindings.map_id
  exact Scheme.bind_eq_self fun z hz => h z (mem_free_of_get? hx hz)

theorem apply_eq_bind {env : TyEnv} (henv : env.IsPlain) (s : Subst) :
    env.apply s = env.bind s.image :=
  Bindings.map_congr fun x c hx => Scheme.apply_eq_bind (henv x c hx) s

theorem IsPlain.insert {env : TyEnv} (henv : env.IsPlain) {c : Scheme} (hc : c.body.IsPlain)
    (x : String) : TyEnv.IsPlain (env.insert x c) := by
  intro y d hy
  rw [Bindings.get?_insert] at hy
  split at hy
  · rwa [← Option.some.inj hy]
  · exact henv y d hy

theorem IsPlain.bind {env : TyEnv} (henv : env.IsPlain) {f : String → Ty}
    (hf : ∀ x, (f x).IsPlain) : (env.bind f).IsPlain := by
  intro x c hx
  obtain ⟨d, hd, rfl⟩ := get?_bind_eq_some.1 hx
  exact Scheme.body_bind_isPlain (henv x d hd) hf

theorem IsPlain.apply {env : TyEnv} (henv : env.IsPlain) {s : Subst} (hs : s.IsPlain) :
    TyEnv.IsPlain (env.apply s) := by
  rw [apply_eq_bind henv]
  exact henv.bind hs.image

theorem isPlain_single {x : String} {c : Scheme} (h : c.body.IsPlain) :
    TyEnv.IsPlain (.single x c) := by
  intro y d hy
  rw [Bindings.get?_single] at hy
  split at hy
  · exact Option.some.inj hy ▸ h
  · cases hy

theorem isClosed_single {x : String} {c : Scheme} (h : c.free = ∅) (hc : c.body.IsPlain) :
    TyEnv.IsClosed (.single x c) := by
  intro y d hy
  rw [Bindings.get?_single] at hy
  split at hy
  · obtain rfl := Option.some.inj hy
    exact ⟨fun z hz => NameSet.not_mem_empty z (h ▸ hz), hc⟩
  · cases hy

theorem exists_of_mem_free_bind {env : TyEnv} {f : String → Ty} (henv : env.IsPlain) {z : String}
    (hz : z ∈ (env.bind f).free) : ∃ x ∈ env.free, z ∈ (f x).free := by
  obtain ⟨x, c, hx, hz⟩ := mem_free.1 hz
  obtain ⟨d, hd, rfl⟩ := get?_bind_eq_some.1 hx
  obtain ⟨y, hy, hz⟩ := Scheme.exists_of_mem_free_bind (henv x d hd) hz
  exact ⟨y, mem_free_of_get? hd hy, hz⟩

theorem mem_free_bind_of {env : TyEnv} {f : String → Ty} (henv : env.IsPlain) {x y z : String}
    {c : Scheme} (hc : env.get? x = some c) (hy : y ∈ c.free) (hz : z ∈ (f y).free)
    (hn : z ∉ c.bound) : z ∈ (env.bind f).free :=
  mem_free.2 ⟨x, c.bind f, get?_bind_eq_some.2 ⟨c, hc, rfl⟩,
    Scheme.mem_free_bind_of (henv x c hc) hy hz hn⟩

theorem mem_free_bind {env : TyEnv} {f : String → Ty} (henv : env.IsPlain) (h : env.Avoids f)
    {z : String} : z ∈ (env.bind f).free ↔ ∃ x ∈ env.free, z ∈ (f x).free := by
  refine ⟨exists_of_mem_free_bind henv, ?_⟩
  rintro ⟨y, hy, hz⟩
  obtain ⟨x, c, hc, hyc⟩ := mem_free.1 hy
  exact mem_free_bind_of henv hc hyc hz (h x c hc y hyc z hz)

theorem bind_bind {env : TyEnv} {f g : String → Ty} (h : env.Avoids f) :
    (env.bind f).bind g = env.bind fun x => (f x).bind g := by
  refine Eq.trans Bindings.map_map (Bindings.map_congr fun x c hx => ?_)
  exact Scheme.bind_bind (h x c hx)

theorem Avoids.bind {env : TyEnv} {f g : String → Ty} (henv : env.IsPlain)
    (hf : ∀ x, (f x).IsPlain) (h : env.Avoids f) (hfg : env.Avoids fun x => (f x).bind g) :
    (env.bind f).Avoids g := by
  intro x c hx
  obtain ⟨d, hd, rfl⟩ := get?_bind_eq_some.1 hx
  exact (h x d hd).bind (henv x d hd) hf (hfg x d hd)

theorem Avoids.insert {env : TyEnv} {f : String → Ty} (h : env.Avoids f) {c : Scheme}
    (hc : c.Avoids f) (x : String) : TyEnv.Avoids (env.insert x c) f := by
  intro y d hy
  rw [Bindings.get?_insert] at hy
  split at hy
  · rwa [← Option.some.inj hy]
  · exact h y d hy

theorem mem_bound_generalize {env : TyEnv} {t : Ty} {z : String} :
    z ∈ (env.generalize t).bound ↔ z ∈ t.free ∧ z ∉ env.free :=
  NameSet.mem_diff

theorem mem_free_generalize {env : TyEnv} {t : Ty} {z : String} :
    z ∈ (env.generalize t).free ↔ z ∈ t.free ∧ z ∈ env.free := by
  rw [Scheme.mem_free, mem_bound_generalize]
  change z ∈ t.free ∧ ¬(z ∈ t.free ∧ z ∉ env.free) ↔ _
  by_cases hz : z ∈ env.free <;> simp [hz]

theorem mem_free_insert_generalize {env : TyEnv} {x z : String} {t : Ty}
    (h : z ∈ free (env.insert x (env.generalize t))) : z ∈ env.free :=
  (mem_free_insert h).elim (fun h => (mem_free_generalize.1 h).2) id

/-- Generalising commutes with a change of variables that keeps the generalised ones and puts none
of them into the environment. -/
theorem bind_generalize {env : TyEnv} {t : Ty} {f : String → Ty} (henv : env.IsPlain)
    (ht : t.IsPlain) (h : env.Avoids f)
    (hfix : ∀ x ∈ (env.generalize t).bound, f x = .var x)
    (hav : ∀ x ∈ env.free, ∀ z ∈ (f x).free, z ∉ (env.generalize t).bound) :
    (env.generalize t).bind f = (env.bind f).generalize (t.bind f) := by
  have hbody : ((env.generalize t).bind f).body = t.bind f := by
    refine Ty.bind_congr fun x _ => ?_
    split
    · rename_i hx
      exact (hfix x hx).symm
    · rfl
  have hbound : (env.generalize t).bound = ((env.bind f).generalize (t.bind f)).bound := by
    refine NameSet.eq_of_mem_iff fun z => ?_
    rw [mem_bound_generalize, mem_bound_generalize, mem_free_bind henv h, Ty.mem_free_bind ht]
    constructor
    · intro hz
      have hzb := mem_bound_generalize.2 hz
      refine ⟨⟨z, hz.1, ?_⟩, ?_⟩
      · rw [hfix z hzb]
        exact Ty.mem_free_var.2 rfl
      · rintro ⟨x, hx, hzx⟩
        exact hav x hx z hzx hzb
    · rintro ⟨⟨x, hx, hzx⟩, hn⟩
      have hxe : x ∉ env.free := fun hxe => hn ⟨x, hxe, hzx⟩
      rw [hfix x (mem_bound_generalize.2 ⟨hx, hxe⟩)] at hzx
      rw [Ty.mem_free_var.1 hzx]
      exact ⟨hx, hxe⟩
  calc (env.generalize t).bind f
      = ⟨(env.generalize t).bound, ((env.generalize t).bind f).body⟩ := rfl
    _ = ⟨((env.bind f).generalize (t.bind f)).bound, t.bind f⟩ := by rw [hbody, hbound]
    _ = (env.bind f).generalize (t.bind f) := rfl

end TyEnv
end LetLower
