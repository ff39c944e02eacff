import LetLower.Proofs.Names
import LetLower.Proofs.Ty.Env
import LetLower.Proofs.Ty.Unify
import LetLower.Proofs.Infer.Rules

/-!
# The variables of a run

A part of the run speaks of the free variables of its environment and of those that it draws
itself, and of no others. What it solves is gone from everything that it returns. Nothing that a
scheme binds is spoken of again, so no substitution captures a bound name.
-/

namespace LetLower

namespace Subst

theorem mem_compose {s s' : Subst} {x : String} : x ∈ compose s' s ↔ x ∈ s ∨ x ∈ s' :=
  Bindings.mem_append.trans (or_congr_left Bindings.mem_map)

theorem mem_range_compose {s s' : Subst} {z : String} (hz : z ∈ (compose s' s).range) :
    z ∈ s.range ∧ z ∉ s' ∨ z ∈ s'.range := by
  obtain ⟨x, t, ht, hzt⟩ := mem_range.1 hz
  rw [get?_compose] at ht
  cases hs : s.get? x with
  | some u =>
    rw [hs] at ht
    obtain rfl : u.apply s' = t := by simpa using ht
    rcases Ty.mem_free_apply hzt with ⟨hzu, hn⟩ | hr
    · exact .inl ⟨mem_range.2 ⟨x, u, hs, hzu⟩, Bindings.get?_eq_none_iff.1 hn⟩
    · exact .inr hr
  | none =>
    rw [hs] at ht
    exact .inr (mem_range.2 ⟨x, t, by simpa using ht, hzt⟩)

theorem not_mem_range_empty (z : String) : z ∉ Subst.range ∅ := by
  intro h
  obtain ⟨x, t, hx, _⟩ := mem_range.1 h
  rw [Bindings.get?_empty] at hx
  exact absurd hx (by simp)

/-- The substitution speaks of the variables of `L` only, and what it solves is gone. -/
structure SolvesIn (L : String → Prop) (s : Subst) : Prop where
  isPlain : s.IsPlain
  domain : ∀ x ∈ s, L x
  range : ∀ z ∈ s.range, L z
  solved : ∀ x ∈ s, x ∉ s.range

namespace SolvesIn

variable {L L' : String → Prop} {s s' : Subst}

theorem empty (L : String → Prop) : SolvesIn L ∅ where
  isPlain := isPlain_empty
  domain x hx := absurd hx (Bindings.not_mem_empty x)
  range z hz := absurd hz (not_mem_range_empty z)
  solved x hx := absurd hx (Bindings.not_mem_empty x)

theorem mono (h : SolvesIn L s) (hL : ∀ z, L z → L' z) : SolvesIn L' s :=
  ⟨h.isPlain, fun x hx => hL x (h.domain x hx), fun z hz => hL z (h.range z hz), h.solved⟩

theorem mem_image (h : SolvesIn L s) {x z : String} (hx : L x) (hz : z ∈ (s.image x).free) :
    L z ∧ z ∉ s := by
  rcases Subst.mem_image hz with ⟨rfl, hn⟩ | hr
  · exact ⟨hx, hn⟩
  · exact ⟨h.range z hr, fun hm => h.solved z hm hr⟩

theorem compose (h : SolvesIn L s) (hL : ∀ z, L' z → L z ∧ z ∉ s) (h' : SolvesIn L' s') :
    SolvesIn L (Subst.compose s' s) := by
  refine ⟨h'.isPlain.compose h.isPlain, fun x hx => ?_, fun z hz => ?_, fun x hx hr => ?_⟩
  · rcases mem_compose.1 hx with hx | hx
    · exact h.domain x hx
    · exact (hL x (h'.domain x hx)).1
  · rcases mem_range_compose hz with ⟨hz, _⟩ | hz
    · exact h.range z hz
    · exact (hL z (h'.range z hz)).1
  · rcases mem_compose.1 hx with hx | hx
    · rcases mem_range_compose hr with ⟨hr, _⟩ | hr
      · exact h.solved x hx hr
      · exact (hL x (h'.range x hr)).2 hx
    · rcases mem_range_compose hr with ⟨_, hn⟩ | hr
      · exact hn hx
      · exact h'.solved x hx hr

end SolvesIn
end Subst

namespace Ty

/-- A plain type of variables in `L` that the substitution leaves alone. -/
structure Unsolved (L : String → Prop) (s : Subst) (t : Ty) : Prop where
  isPlain : t.IsPlain
  free : ∀ z ∈ t.free, L z ∧ z ∉ s

namespace Unsolved

variable {L L' : String → Prop} {s s' : Subst} {t : Ty}

theorem mono (h : Unsolved L s t) (hL : ∀ z, L z → L' z) : Unsolved L' s t :=
  ⟨h.isPlain, fun z hz => (h.free z hz).imp_left (hL z)⟩

theorem bind_image (h : Unsolved L s t) : t.bind s.image = t :=
  bind_eq_self fun x hx => Subst.image_of_not_mem (h.free x hx).2

theorem apply_eq (h : Unsolved L s t) : t.apply s = t := by
  rw [apply_eq_bind s h.isPlain, h.bind_image]

theorem apply (h : Unsolved L s t) (hL : ∀ z, L' z → L z ∧ z ∉ s) (hs : s'.SolvesIn L') :
    Unsolved L (Subst.compose s' s) (t.apply s') := by
  refine ⟨h.isPlain.apply hs.isPlain, fun z hz => ?_⟩
  rw [apply_eq_bind s' h.isPlain, mem_free_bind h.isPlain] at hz
  obtain ⟨x, hx, hz⟩ := hz
  rcases Subst.mem_image hz with ⟨rfl, hn⟩ | hr
  · exact ⟨(h.free z hx).1, fun hm => (Subst.mem_compose.1 hm).elim (h.free z hx).2 hn⟩
  · have hz' := hL z (hs.range z hr)
    exact ⟨hz'.1, fun hm => (Subst.mem_compose.1 hm).elim hz'.2 fun hm => hs.solved z hm hr⟩

theorem later (hL : ∀ z, L' z → L z ∧ z ∉ s) (h : Unsolved L' s' t) :
    Unsolved L (Subst.compose s' s) t := by
  refine ⟨h.isPlain, fun z hz => ?_⟩
  have hz' := h.free z hz
  exact ⟨(hL z hz'.1).1, fun hm => (Subst.mem_compose.1 hm).elim (hL z hz'.1).2 hz'.2⟩

theorem var {x : String} (hx : L x) (hn : x ∉ s) : Unsolved L s (.var x) :=
  ⟨trivial, fun z hz => by rw [mem_free_var.1 hz]; exact ⟨hx, hn⟩⟩

theorem int : Unsolved L s .int := ⟨trivial, fun z hz => absurd hz (not_mem_free_int z)⟩

theorem bool : Unsolved L s .bool := ⟨trivial, fun z hz => absurd hz (not_mem_free_bool z)⟩

theorem fn {a r : Ty} (ha : Unsolved L s a) (hr : Unsolved L s r) : Unsolved L s (.fn a r) :=
  ⟨⟨ha.isPlain, hr.isPlain⟩, fun z hz => (mem_free_fn.1 hz).elim (ha.free z) (hr.free z)⟩

end Unsolved

theorem Unifies.solvesIn {a b : Ty} {u : Unifier} (h : Unifies a b u) :
    u.subst.SolvesIn (· ∈ vars a b) where
  isPlain := h.mostGeneral.isPlain
  domain x hx :=
    have ⟨t, ht⟩ := Subst.exists_get?_of_mem hx
    h.solves.domain x t ht
  range := h.solves.range
  solved x hx :=
    have ⟨t, ht⟩ := Subst.exists_get?_of_mem hx
    h.solves.solved x t ht

theorem Unifies.unsolved {a b : Ty} {u : Unifier} (ha : a.IsPlain) (h : Unifies a b u) :
    Unsolved (· ∈ vars a b) u.subst u.type := by
  rw [h.type_eq]
  refine ⟨ha.bind fun x _ => h.mostGeneral.isPlain.image x, fun z hz => ?_⟩
  obtain ⟨x, hx, hz⟩ := (mem_free_bind ha).1 hz
  exact h.solvesIn.mem_image (NameSet.mem_union.2 (.inl hx)) hz

theorem Unsolved.mem_vars {L : String → Prop} {s : Subst} {a b : Ty} (ha : Unsolved L s a)
    (hb : Unsolved L s b) : ∀ z, z ∈ vars a b → L z ∧ z ∉ s :=
  fun z hz => (NameSet.mem_union.1 hz).elim (ha.free z) (hb.free z)

end Ty

/-- The environment can be used from here: no free variable of it is still to be drawn, and what a
scheme binds is not drawn either, unless the scheme is closed. -/
structure TyEnv.Unissued (env : TyEnv) (s : NameSupply) : Prop where
  isPlain : env.IsPlain
  drawn : ∀ z ∈ env.free, ¬ s.Issues z
  bound : ∀ x c, env.get? x = some c → c.IsClosed ∨ ∀ z ∈ c.bound, ¬ s.Issues z

/-- Moreover, what an open scheme binds is free nowhere else, so that nothing is captured. -/
structure TyEnv.Ready (env : TyEnv) (s : NameSupply) : Prop extends TyEnv.Unissued env s where
  apart : ∀ x c, env.get? x = some c → c.IsClosed ∨ ∀ z ∈ c.bound, z ∉ env.free

namespace Expr

/-- The variables that a part of a run may return. -/
def InScope (env : TyEnv) (s s' : NameSupply) (z : String) : Prop :=
  (z ∈ env.free ∨ s.Issues z) ∧ ¬ s'.Issues z

theorem InScope.mono {env : TyEnv} {s s' s'' : NameSupply} (h : s'.Reaches s'') {z : String}
    (hz : InScope env s s' z) : InScope env s s'' z :=
  ⟨hz.1, fun hi => hz.2 (hi.of_reaches h)⟩

end Expr

namespace TyEnv

open LetLower.Expr

theorem IsClosed.not_mem_free {env : TyEnv} (h : env.IsClosed) (z : String) : z ∉ env.free := by
  intro hz
  obtain ⟨x, c, hx, hz⟩ := mem_free.1 hz
  exact (h x c hx).1 z hz

theorem IsClosed.ready {env : TyEnv} (h : env.IsClosed) (s : NameSupply) : env.Ready s where
  isPlain x c hx := (h x c hx).2
  drawn z hz := absurd hz (h.not_mem_free z)
  bound x c hx := .inl (h x c hx).1
  apart x c hx := .inl (h x c hx).1

namespace Unissued

variable {env : TyEnv} {s s' : NameSupply}

theorem mono (h : env.Unissued s) (hs : s.Reaches s') : env.Unissued s' where
  isPlain := h.isPlain
  drawn z hz hi := h.drawn z hz (hi.of_reaches hs)
  bound x c hx := (h.bound x c hx).imp_right fun hb z hz hi => hb z hz (hi.of_reaches hs)

theorem mem_free_apply (h : env.Unissued s) (hs : s.Reaches s') {S : Subst}
    (hS : S.SolvesIn (InScope env s s')) {z : String} (hz : z ∈ free (env.apply S)) :
    InScope env s s' z ∧ z ∉ S := by
  rw [apply_eq_bind h.isPlain] at hz
  obtain ⟨x, hx, hz⟩ := exists_of_mem_free_bind h.isPlain hz
  exact hS.mem_image ⟨.inl hx, fun hi => h.drawn x hx (hi.of_reaches hs)⟩ hz

theorem apply (h : env.Unissued s) (hs : s.Reaches s') {S : Subst}
    (hS : S.SolvesIn (InScope env s s')) : TyEnv.Unissued (env.apply S) s' where
  isPlain := h.isPlain.apply hS.isPlain
  drawn z hz := (h.mem_free_apply hs hS hz).1.2
  bound x c hx := by
    rw [apply_eq_bind h.isPlain, get?_bind_eq_some] at hx
    obtain ⟨d, hd, rfl⟩ := hx
    exact (h.bound x d hd).imp (·.bind _) fun hb z hz hi => hb z hz (hi.of_reaches hs)

theorem insert (h : env.Unissued s) {c : Scheme} (hc : c.body.IsPlain)
    (hd : ∀ z ∈ c.free, ¬ s.Issues z) (hb : c.IsClosed ∨ ∀ z ∈ c.bound, ¬ s.Issues z)
    (x : String) : TyEnv.Unissued (env.insert x c) s where
  isPlain := h.isPlain.insert hc x
  drawn z hz := (mem_free_insert hz).elim (hd z) (h.drawn z)
  bound y d hy := by
    rw [Bindings.get?_insert] at hy
    split at hy
    · exact Option.some.inj hy ▸ hb
    · exact h.bound y d hy

theorem insert_fresh (h : env.Unissued s) (x : String) :
    TyEnv.Unissued (env.insert x (.mono (.var s.fresh.1))) s.advance := by
  refine (h.mono s.reaches_advance).insert (Ty.isPlain_var _) (fun z hz => ?_)
    (.inr fun z hz => absurd hz (NameSet.not_mem_empty z)) x
  rw [Ty.mem_free_var.1 ((Scheme.free_mono _).1 hz)]
  exact s.not_issues_fresh

theorem insert_generalize (h : env.Unissued s) {t : Ty} (ht : t.IsPlain)
    (hd : ∀ z ∈ t.free, ¬ s.Issues z) (x : String) :
    TyEnv.Unissued (env.insert x (env.generalize t)) s :=
  h.insert ht (fun z hz => hd z (mem_free_generalize.1 hz).1)
    (.inr fun z hz => hd z (mem_bound_generalize.1 hz).1) x

theorem inScope (h : env.Unissued s) :
    ∀ z ∈ env.free, InScope env s s z ∧ z ∉ (∅ : Subst) :=
  fun z hz => ⟨⟨.inl hz, h.drawn z hz⟩, Bindings.not_mem_empty z⟩

end Unissued

namespace Ready

variable {env : TyEnv} {s s' : NameSupply}

theorem mono (h : env.Ready s) (hs : s.Reaches s') : env.Ready s' :=
  ⟨h.toUnissued.mono hs, h.apart⟩

/-- A substitution of variables in scope captures nothing. -/
theorem avoids (h : env.Ready s) {L : String → Prop} (hL : ∀ z, L z → z ∈ env.free ∨ s.Issues z)
    {S : Subst} (hS : S.SolvesIn L) : env.Avoids S.image := by
  intro x c hx y hy z hz hb
  rcases h.bound x c hx, h.apart x c hx with ⟨hc | hc, hc' | hc'⟩
  · exact hc y hy
  · exact hc y hy
  · exact hc' y hy
  · rcases Subst.mem_image hz with ⟨rfl, _⟩ | hr
    · exact (Scheme.mem_free.1 hy).2 hb
    · exact (hL z (hS.range z hr)).elim (hc' z hb) (hc z hb)

theorem apply (h : env.Ready s) (hs : s.Reaches s') {S : Subst}
    (hS : S.SolvesIn (InScope env s s')) : TyEnv.Ready (env.apply S) s' where
  toUnissued := h.toUnissued.apply hs hS
  apart x c hx := by
    rw [apply_eq_bind h.isPlain, get?_bind_eq_some] at hx
    obtain ⟨d, hd, rfl⟩ := hx
    rcases h.bound x d hd, h.apart x d hd with ⟨hc | hc, hc' | hc'⟩
    · exact .inl (hc.bind _)
    · exact .inl (hc.bind _)
    · exact .inl (hc'.bind _)
    · exact .inr fun z hz hf => (h.mem_free_apply hs hS hf).1.1.elim (hc' z hz) (hc z hz)

theorem insert (h : env.Ready s) {c : Scheme} (hc : c.body.IsPlain)
    (hd : ∀ z ∈ c.free, ¬ s.Issues z)
    (hb : c.IsClosed ∨ ∀ z ∈ c.bound, ¬ s.Issues z ∧ z ∉ env.free)
    (hf : ∀ z ∈ c.free, z ∉ c.bound ∧ ∀ y d, env.get? y = some d → d.IsClosed ∨ z ∉ d.bound)
    (x : String) : TyEnv.Ready (env.insert x c) s where
  toUnissued := h.toUnissued.insert hc hd (hb.imp_right fun hb z hz => (hb z hz).1) x
  apart y d hy := by
    rw [Bindings.get?_insert] at hy
    split at hy
    · obtain rfl := Option.some.inj hy
      refine hb.imp_right fun hb z hz hm => ?_
      exact (mem_free_insert hm).elim (fun hm => (hf z hm).1 hz) (hb z hz).2
    · by_cases hcl : d.IsClosed
      · exact .inl hcl
      · refine .inr fun z hz hm => (mem_free_insert hm).elim (fun hm => ?_)
          ((h.apart y d hy).resolve_left hcl z hz)
        exact ((hf z hm).2 y d hy).elim hcl fun hn => hn hz

theorem insert_fresh (h : env.Ready s) (x : String) :
    TyEnv.Ready (env.insert x (.mono (.var s.fresh.1))) s.advance := by
  have hz : ∀ z ∈ (Scheme.mono (.var s.fresh.1)).free, z = s.fresh.1 := fun z hz =>
    Ty.mem_free_var.1 ((Scheme.free_mono _).1 hz)
  have hp : (Scheme.mono (.var s.fresh.1)).body.IsPlain := trivial
  refine (h.mono s.reaches_advance).insert hp (fun z hm => ?_)
    (.inr fun z hm => absurd hm (NameSet.not_mem_empty z)) (fun z hm => ?_) x
  · rw [hz z hm]
    exact s.not_issues_fresh
  · refine ⟨NameSet.not_mem_empty z, fun y d hy => (h.bound y d hy).imp_right fun hb hm' => ?_⟩
    rw [hz z hm] at hm'
    exact hb _ hm' s.issues_fresh

theorem insert_generalize (h : env.Ready s) {t : Ty} (ht : t.IsPlain)
    (hd : ∀ z ∈ t.free, ¬ s.Issues z) (x : String) :
    TyEnv.Ready (env.insert x (env.generalize t)) s := by
  refine h.insert ht (fun z hz => hd z (mem_free_generalize.1 hz).1) (.inr fun z hz => ?_)
    (fun z hz => ⟨(Scheme.mem_free.1 hz).2, fun y d hy => ?_⟩) x
  · have hz' := mem_bound_generalize.1 hz
    exact ⟨hd z hz'.1, hz'.2⟩
  · exact (h.apart y d hy).imp_right fun hb hm => hb z hm (mem_free_generalize.1 hz).2

end Ready
end TyEnv

namespace Expr

/-- What has been solved so far, and the supply that is left. -/
structure Reached (env : TyEnv) (s : NameSupply) (S : Subst) (s' : NameSupply) : Prop where
  supply : s.Reaches s'
  subst : S.SolvesIn (InScope env s s')

namespace Reached

variable {env env' : TyEnv} {s s₁ s₂ : NameSupply} {S S' : Subst}

theorem inScope (h : Reached env s S s₁)
    (henv : ∀ z ∈ env'.free, InScope env s s₁ z ∧ z ∉ S) :
    ∀ z, InScope env' s₁ s₂ z → InScope env s s₂ z ∧ z ∉ S := by
  rintro z ⟨hz | hz, hn⟩
  · exact (henv z hz).imp_left fun h' => ⟨h'.1, hn⟩
  · refine ⟨⟨.inr (hz.of_reaches h.supply), hn⟩, fun hm => (h.subst.domain z hm).2 hz⟩

theorem infer (h : Reached env s S s₁) (henv : ∀ z ∈ env'.free, InScope env s s₁ z ∧ z ∉ S)
    (h' : Reached env' s₁ S' s₂) : Reached env s (Subst.compose S' S) s₂ where
  supply := h.supply.trans h'.supply
  subst := (h.subst.mono fun _ => .mono h'.supply).compose (h.inScope henv) h'.subst

theorem unify (h : Reached env s S s₁) {a b : Ty} {u : Ty.Unifier}
    (ha : a.Unsolved (InScope env s s₁) S) (hb : b.Unsolved (InScope env s s₁) S)
    (hu : Ty.Unifies a b u) : Reached env s (Subst.compose u.subst S) s₁ where
  supply := h.supply
  subst := h.subst.compose (ha.mem_vars hb) hu.solvesIn

theorem advance (h : Reached env s S s₁) : Reached env s S s₁.advance where
  supply := h.supply.trans s₁.reaches_advance
  subst := h.subst.mono fun _ => .mono s₁.reaches_advance

theorem fresh (h : Reached env s S s₁) :
    (Ty.var s₁.fresh.1).Unsolved (InScope env s s₁.advance) S :=
  .var ⟨.inr (s₁.issues_fresh.of_reaches h.supply), s₁.not_issues_fresh⟩
    fun hm => (h.subst.domain _ hm).2 s₁.issues_fresh

theorem mem_free_apply (h : Reached env s S s₁) (henv : env.Unissued s) :
    ∀ z ∈ (env.apply S).free, InScope env s s₁ z ∧ z ∉ S :=
  fun _ hz => henv.mem_free_apply h.supply h.subst hz

theorem mem_free_insert {c : Scheme} (henv : ∀ z ∈ env'.free, InScope env s s₁ z ∧ z ∉ S)
    (hc : ∀ z ∈ c.free, InScope env s s₁ z ∧ z ∉ S) (x : String) :
    ∀ z ∈ TyEnv.free (env'.insert x c), InScope env s s₁ z ∧ z ∉ S :=
  fun z hz => (TyEnv.mem_free_insert hz).elim (hc z) (henv z)

theorem mem_free_insert_fresh (h : Reached env s S s₁)
    (henv : ∀ z ∈ env'.free, InScope env s s₁ z ∧ z ∉ S) (x : String) :
    ∀ z ∈ TyEnv.free (env'.insert x (.mono (.var s₁.fresh.1))),
      InScope env s s₁.advance z ∧ z ∉ S :=
  mem_free_insert (fun z hz => (henv z hz).imp_left (.mono s₁.reaches_advance))
    (fun z hz => h.fresh.free z ((Scheme.free_mono _).1 hz)) x

theorem unissued (h : Reached env s S s₁) (henv : env.Unissued s) :
    TyEnv.Unissued (env.apply S) s₁ :=
  henv.apply h.supply h.subst

theorem ready (h : Reached env s S s₁) (henv : env.Ready s) : TyEnv.Ready (env.apply S) s₁ :=
  henv.apply h.supply h.subst

theorem unissued_generalize (h : Reached env s S s₁) (henv : env.Unissued s) {t : Ty}
    (ht : t.Unsolved (InScope env s s₁) S) (x : String) :
    TyEnv.Unissued (Bindings.insert (env.apply S) x ((env.apply S).generalize t)) s₁ :=
  (h.unissued henv).insert_generalize ht.isPlain (fun z hz => (ht.free z hz).1.2) x

theorem ready_generalize (h : Reached env s S s₁) (henv : env.Ready s) {t : Ty}
    (ht : t.Unsolved (InScope env s s₁) S) (x : String) :
    TyEnv.Ready (Bindings.insert (env.apply S) x ((env.apply S).generalize t)) s₁ :=
  (h.ready henv).insert_generalize ht.isPlain (fun z hz => (ht.free z hz).1.2) x

theorem mem_free_generalize (h : Reached env s S s₁) (henv : env.Unissued s) {t : Ty}
    (ht : t.Unsolved (InScope env s s₁) S) (x : String) :
    ∀ z ∈ TyEnv.free (Bindings.insert (env.apply S) x ((env.apply S).generalize t)),
      InScope env s s₁ z ∧ z ∉ S :=
  mem_free_insert (h.mem_free_apply henv)
    (fun z hz => ht.free z (TyEnv.mem_free_generalize.1 hz).1) x

end Reached

theorem reached_refl (env : TyEnv) (s : NameSupply) : Reached env s ∅ s :=
  ⟨.refl s, .empty _⟩

/-- What is returned is of the variables in scope, and completed. -/
structure Infers.Returns (env : TyEnv) (s : NameSupply) (r : Inferred) (s' : NameSupply) :
    Prop where
  reached : Reached env s r.subst s'
  ty : r.ty.Unsolved (InScope env s s') r.subst

theorem Infers.Returns.unify {env : TyEnv} {s s₁ : NameSupply} {r : Inferred} {a : Ty}
    {u : Ty.Unifier} (h : Returns env s r s₁) (ha : a.Unsolved (InScope env s s₁) r.subst)
    (hu : Ty.unify r.ty a = .ok u) : Reached env s (Subst.compose u.subst r.subst) s₁ :=
  h.reached.unify h.ty ha (Ty.unifies_of_unify h.ty.isPlain ha.isPlain hu)

theorem Reached.keep {env env' : TyEnv} {s s₁ s₂ : NameSupply} {S : Subst} {r : Inferred}
    (h : Reached env s S s₁) (henv : ∀ z ∈ env'.free, InScope env s s₁ z ∧ z ∉ S)
    (hr : Infers.Returns env' s₁ r s₂) {t : Ty} (ht : t.Unsolved (InScope env s s₁) S) :
    (t.apply r.subst).Unsolved (InScope env s s₂) (Subst.compose r.subst S) :=
  (ht.mono fun _ => InScope.mono hr.reached.supply).apply (h.inScope henv) hr.reached.subst

end Expr

namespace Scheme

theorem reaches_freshVars (xs : List String) (s : NameSupply) :
    s.Reaches (freshVars xs s).2 := by
  induction xs generalizing s with
  | nil => exact .refl s
  | cons x xs ih => exact s.reaches_advance.trans (ih s.advance)

theorem mem_freshVars {xs : List String} {s : NameSupply} {e : String × Ty}
    (he : e ∈ (freshVars xs s).1) :
    ∃ y, e.2 = .var y ∧ s.Issues y ∧ ¬ (freshVars xs s).2.Issues y := by
  induction xs generalizing s with
  | nil => exact absurd he (List.not_mem_nil)
  | cons x xs ih =>
    rcases List.mem_cons.1 he with rfl | he
    · exact ⟨s.fresh.1, rfl, s.issues_fresh,
        fun hi => s.not_issues_fresh (hi.of_reaches (reaches_freshVars xs s.advance))⟩
    · obtain ⟨y, hy, hi, hn⟩ := ih he
      exact ⟨y, hy, hi.of_reaches s.reaches_advance, hn⟩

theorem mem_freshSubst {c : Scheme} {s : NameSupply} {x : String} :
    x ∈ c.freshSubst s ↔ x ∈ c.bound := by
  rw [Bindings.mem_def, Bindings.keys, freshSubst, map_fst_freshVars]
  exact Iff.rfl

theorem image_freshSubst {c : Scheme} {s : NameSupply} {x : String} (hx : x ∈ c.bound) :
    ∃ y, (c.freshSubst s).image x = .var y ∧ s.Issues y ∧ ¬ (c.instantiate s).2.Issues y := by
  obtain ⟨t, ht⟩ := Subst.exists_get?_of_mem (mem_freshSubst (s := s).2 hx)
  obtain ⟨y, hy, hi⟩ := mem_freshVars (Bindings.get?_eq_some_iff.1 ht)
  exact ⟨y, (Subst.image_of_get? ht).trans hy, hi⟩

theorem image_freshSubst_of_not_mem {c : Scheme} {s : NameSupply} {x : String} (hx : x ∉ c.bound) :
    (c.freshSubst s).image x = .var x :=
  Subst.image_of_not_mem fun h => hx (mem_freshSubst.1 h)

theorem isPlain_freshSubst (c : Scheme) (s : NameSupply) : (c.freshSubst s).IsPlain := by
  intro x t ht
  obtain ⟨y, hy, _⟩ := mem_freshVars (Bindings.get?_eq_some_iff.1 ht)
  obtain rfl : t = .var y := hy
  trivial

end Scheme

namespace Expr

open TyEnv

theorem Infers.Returns.own {env : TyEnv} {x : String} {s s₁ : NameSupply} {r : Inferred}
    (henv : env.Unissued s)
    (hr : Returns (Bindings.insert env x (.mono (.var s.fresh.1))) s.advance r s₁) :
    Reached env s r.subst s₁ ∧ r.ty.Unsolved (InScope env s s₁) r.subst ∧
      ((Ty.var s.fresh.1).apply r.subst).Unsolved (InScope env s s₁) r.subst := by
  have h₀ := (reached_refl env s).advance
  have hin := (reached_refl env s).mem_free_insert_fresh henv.inScope x
  have h₁ := h₀.infer hin hr.reached
  have hown := h₀.keep hin hr (reached_refl env s).fresh
  have hval := hr.ty.later (h₀.inScope hin)
  rw [Subst.compose_empty] at h₁ hown hval
  exact ⟨h₁, hval, hown⟩

/-- The value of a `let rec`, once its type is that of its own name. -/
theorem Infers.Returns.own_unify {env : TyEnv} {x : String} {s s₁ : NameSupply} {r : Inferred}
    {u : Ty.Unifier} (henv : env.Unissued s)
    (hr : Returns (Bindings.insert env x (.mono (.var s.fresh.1))) s.advance r s₁)
    (hu : Ty.unify r.ty ((Ty.var s.fresh.1).apply r.subst) = .ok u) :
    Reached env s (Subst.compose u.subst r.subst) s₁ ∧
      u.type.Unsolved (InScope env s s₁) (Subst.compose u.subst r.subst) := by
  obtain ⟨h, hval, hown⟩ := hr.own henv
  have hu := Ty.unifies_of_unify hval.isPlain hown.isPlain hu
  exact ⟨h.unify hval hown hu, (hu.unsolved hval.isPlain).later (hval.mem_vars hown)⟩

theorem unsolved_instantiate {env : TyEnv} {s : NameSupply} (henv : env.Unissued s) {x : String}
    {c : Scheme} (hx : env.get? x = some c) :
    (c.instantiate s).1.Unsolved (InScope env s (c.instantiate s).2) ∅ := by
  have hc := henv.isPlain x c hx
  refine ⟨hc.apply (c.isPlain_freshSubst s), fun z hz => ⟨?_, Bindings.not_mem_empty z⟩⟩
  rw [Scheme.instantiate, Ty.apply_eq_bind _ hc, Ty.mem_free_bind hc] at hz
  obtain ⟨y, hy, hz⟩ := hz
  by_cases hb : y ∈ c.bound
  · obtain ⟨w, hw, hi, hn⟩ := Scheme.image_freshSubst (s := s) hb
    rw [hw] at hz
    rw [Ty.mem_free_var.1 hz]
    exact ⟨.inr hi, hn⟩
  · rw [Scheme.image_freshSubst_of_not_mem hb] at hz
    rw [Ty.mem_free_var.1 hz]
    have hf : y ∈ env.free := mem_free_of_get? hx (Scheme.mem_free.2 ⟨hy, hb⟩)
    exact ⟨.inl hf, fun hi => henv.drawn y hf (hi.of_reaches (Scheme.reaches_freshVars _ s))⟩

/-- One step for each rule: a part runs in what the parts before it have left. -/
theorem Infers.returns {env : TyEnv} {e : Expr} {s : NameSupply} {r : Inferred} {s' : NameSupply}
    (h : Infers env e s r s') (henv : env.Unissued s) : Infers.Returns env s r s' := by
  induction h with
  | int => exact ⟨⟨.refl _, .empty _⟩, .int⟩
  | bool => exact ⟨⟨.refl _, .empty _⟩, .bool⟩
  | var hx =>
    exact ⟨⟨Scheme.reaches_freshVars _ _, .empty _⟩, unsolved_instantiate henv hx⟩
  | @lam env m x b s r s' t hb ht ih =>
    obtain ⟨h, hbody, hown⟩ := (ih (henv.insert_fresh x)).own henv
    rw [ht]
    exact ⟨h, hown.fn hbody⟩
  | @app env m f a s r s₁ q s₂ u t hf ha hu ht ihf iha =>
    have hr := ihf henv
    have hin := hr.reached.mem_free_apply henv
    have hq := iha (hr.reached.unissued henv)
    have h₂ := hr.reached.infer hin hq.reached
    have hrt := (hr.reached.keep hin hq hr.ty).mono fun _ => InScope.mono s₂.reaches_advance
    have hqt := (hq.ty.later (hr.reached.inScope hin)).mono fun _ => InScope.mono s₂.reaches_advance
    have hfn := hqt.fn h₂.fresh
    have hu' := Ty.unifies_of_unify hrt.isPlain hfn.isPlain hu
    rw [ht]
    exact ⟨h₂.advance.unify hrt hfn hu', h₂.fresh.apply (hrt.mem_vars hfn) hu'.solvesIn⟩
  | @letIn env m x v b s r s₁ q s₂ c hv hc hb ihv ihb =>
    have hr := ihv henv
    rw [hr.ty.apply_eq] at hc
    rw [hc] at ihb
    have hin := hr.reached.mem_free_generalize henv hr.ty x
    have hq := ihb (hr.reached.unissued_generalize henv hr.ty x)
    exact ⟨hr.reached.infer hin hq.reached, hq.ty.later (hr.reached.inScope hin)⟩
  | @letRec env m x v b s r s₁ u found q s₂ c hv hu hs hc hb ihv ihb =>
    obtain ⟨h₂, hut⟩ := (ihv (henv.insert_fresh x)).own_unify henv hu
    rw [← hs] at h₂ hut
    rw [hc] at ihb
    have hin := h₂.mem_free_generalize henv hut x
    have hq := ihb (h₂.unissued_generalize henv hut x)
    exact ⟨h₂.infer hin hq.reached, hq.ty.later (h₂.inScope hin)⟩
  | @binary env m op l r s p s₁ u found q s₂ u' hl hu hs hr hu' ihl ihr =>
    have h₁ := (ihl henv).unify .int hu
    rw [← hs] at h₁
    have hin := h₁.mem_free_apply henv
    have hq := ihr (h₁.unissued henv)
    have h₂ := h₁.infer hin hq.reached
    have hqt := hq.ty.later (h₁.inScope hin)
    have hu' := Ty.unifies_of_unify hqt.isPlain Ty.isPlain_int hu'
    refine ⟨h₂.unify hqt .int hu', ?_⟩
    cases op with
    | add | sub => exact .int
    | less => exact .bool
  | @cond env m c y n s p s₁ u found q s₂ r s₃ u' hc hu hs hy hn hu' ihc ihy ihn =>
    have h₁ := (ihc henv).unify .bool hu
    rw [← hs] at h₁
    have hin₁ := h₁.mem_free_apply henv
    have hq := ihy (h₁.unissued henv)
    have h₂ := h₁.infer hin₁ hq.reached
    have hqt := hq.ty.later (h₁.inScope hin₁)
    have hin₂ := h₂.mem_free_apply henv
    have hr := ihn (h₂.unissued henv)
    have h₃ := h₂.infer hin₂ hr.reached
    have hqt' := h₂.keep hin₂ hr hqt
    have hrt := hr.ty.later (h₂.inScope hin₂)
    have hu' := Ty.unifies_of_unify hqt'.isPlain hrt.isPlain hu'
    exact ⟨h₃.unify hqt' hrt hu', (hu'.unsolved hqt'.isPlain).later (hqt'.mem_vars hrt)⟩

end Expr
end LetLower
