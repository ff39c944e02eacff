import LetLower.Proofs.Ty.Alike
import LetLower.Proofs.Expr.Alike
import LetLower.Proofs.Infer.Complete

/-!
# The variables of two runs in pairs

Two runs draw variables from supplies of their own, so the pairing of their variables grows with
each variable that both draw. The names that two schemes bind are paired as well, by a pairing of
their own; it says which of the variables that are drawn for them belong together, in whatever order
the two schemes list their names.
-/

namespace LetLower

open Relator

/-- The variables paired so far have been drawn in both runs. -/
structure Paired (ρ : String → String → Prop) (s s' : NameSupply) : Prop where
  biUnique : BiUnique ρ
  left : ∀ x y, ρ x y → ¬ s.Issues x
  right : ∀ x y, ρ x y → ¬ s'.Issues y

/-- The pairing `ρ'` extends `ρ` by variables drawn meanwhile. -/
structure Grows (ρ : String → String → Prop) (s s' : NameSupply) (ρ' : String → String → Prop)
    (t t' : NameSupply) : Prop where
  paired : Paired ρ' t t'
  mono : ∀ x y, ρ x y → ρ' x y
  new : ∀ x y, ρ' x y → ρ x y ∨ s.Issues x ∧ s'.Issues y
  left : s.Reaches t
  right : s'.Reaches t'

section

variable {ρ ρ' ρ'' : String → String → Prop} {s s' t t' q q' : NameSupply}

theorem Paired.grows (h : Paired ρ s s') : Grows ρ s s' ρ s s' :=
  ⟨h, fun _ _ => id, fun _ _ => .inl, .refl s, .refl s'⟩

theorem Grows.trans (h : Grows ρ s s' ρ' t t') (h' : Grows ρ' t t' ρ'' q q') :
    Grows ρ s s' ρ'' q q' where
  paired := h'.paired
  mono x y hxy := h'.mono x y (h.mono x y hxy)
  new x y hxy := by
    rcases h'.new x y hxy with hxy | ⟨hx, hy⟩
    · exact h.new x y hxy
    · exact .inr ⟨hx.of_reaches h.left, hy.of_reaches h.right⟩
  left := h.left.trans h'.left
  right := h.right.trans h'.right

theorem Paired.extend (h : Paired ρ s s') {ν : String → String → Prop} (hν : BiUnique ν)
    (hleft : s.Reaches t) (hright : s'.Reaches t')
    (hdrawn : ∀ x y, ν x y → (s.Issues x ∧ ¬ t.Issues x) ∧ s'.Issues y ∧ ¬ t'.Issues y) :
    Grows ρ s s' (fun x y => ρ x y ∨ ν x y) t t' where
  paired := by
    refine ⟨⟨?_, ?_⟩, ?_, ?_⟩
    · rintro x y z (hx | hx) (hy | hy)
      · exact h.biUnique.1 hx hy
      · exact absurd (hdrawn y z hy).2.1 (h.right x z hx)
      · exact absurd (hdrawn x z hx).2.1 (h.right y z hy)
      · exact hν.1 hx hy
    · rintro x y z (hy | hy) (hz | hz)
      · exact h.biUnique.2 hy hz
      · exact absurd (hdrawn x z hz).1.1 (h.left x y hy)
      · exact absurd (hdrawn x y hy).1.1 (h.left x z hz)
      · exact hν.2 hy hz
    · rintro x y (hxy | hxy) hi
      · exact h.left x y hxy (hi.of_reaches hleft)
      · exact (hdrawn x y hxy).1.2 hi
    · rintro x y (hxy | hxy) hi
      · exact h.right x y hxy (hi.of_reaches hright)
      · exact (hdrawn x y hxy).2.2 hi
  mono _ _ := .inl
  new x y := .imp_right fun hxy => ⟨(hdrawn x y hxy).1.1, (hdrawn x y hxy).2.1⟩
  left := hleft
  right := hright

theorem Paired.fresh (h : Paired ρ s s') : ∃ ρ', Grows ρ s s' ρ' s.advance s'.advance ∧
    ρ' s.fresh.1 s'.fresh.1 := by
  refine ⟨_, h.extend (ν := fun x y => x = s.fresh.1 ∧ y = s'.fresh.1) ⟨?_, ?_⟩
    s.reaches_advance s'.reaches_advance ?_, .inr ⟨rfl, rfl⟩⟩
  · rintro x y z ⟨rfl, _⟩ ⟨rfl, _⟩
    rfl
  · rintro x y z ⟨_, rfl⟩ ⟨_, rfl⟩
    rfl
  · rintro x y ⟨rfl, rfl⟩
    exact ⟨⟨s.issues_fresh, s.not_issues_fresh⟩, s'.issues_fresh, s'.not_issues_fresh⟩

theorem Subst.Alike.grow {S S' : Subst} (h : S.Alike ρ S') (hg : Grows ρ s s' ρ' t t')
    (hS : ∀ x ∈ S, ¬ s.Issues x) (hS' : ∀ x ∈ S', ¬ s'.Issues x) : S.Alike ρ' S' := by
  intro x y hxy
  rcases hg.new x y hxy with hρ | ⟨hx, hy⟩
  · exact (h x y hρ).mono hg.mono
  · rw [Subst.image_of_not_mem fun hm => hS x hm hx, Subst.image_of_not_mem fun hm => hS' y hm hy]
    exact .var hxy

end

namespace Scheme

/-- The pairing below two schemes: `β` pairs the bound names, and `ρ` the others. -/
def Pairs (c c' : Scheme) (β ρ : String → String → Prop) (x y : String) : Prop :=
  x ∈ c.bound ∧ y ∈ c'.bound ∧ β x y ∨ x ∉ c.bound ∧ y ∉ c'.bound ∧ ρ x y

def Alike (ρ : String → String → Prop) (c c' : Scheme) : Prop :=
  ∃ β, BiUnique β ∧ c.body.Alike (Pairs c c' β ρ) c'.body

variable {ρ ρ' : String → String → Prop} {c c' : Scheme} {t u : Ty}

theorem Alike.mono (h : c.Alike ρ c') (hρ : ∀ x y, ρ x y → ρ' x y) : c.Alike ρ' c' := by
  obtain ⟨β, hβ, hb⟩ := h
  exact ⟨β, hβ, hb.mono fun x y => .imp_right fun ⟨hx, hy, hxy⟩ => ⟨hx, hy, hρ x y hxy⟩⟩

theorem Alike.symm (h : c.Alike ρ c') : c'.Alike (flip ρ) c := by
  obtain ⟨β, hβ, hb⟩ := h
  refine ⟨flip β, biUnique_flip hβ, hb.symm.mono fun y x => ?_⟩
  exact .imp (fun ⟨hx, hy, hxy⟩ => ⟨hy, hx, hxy⟩) fun ⟨hx, hy, hxy⟩ => ⟨hy, hx, hxy⟩

theorem alike_mono (h : t.Alike ρ u) : (mono t).Alike ρ (mono u) :=
  ⟨Eq, ⟨fun _ _ _ hx hy => hx.trans hy.symm, fun _ _ _ hx hy => hx.symm.trans hy⟩,
    h.mono fun x y hxy => .inr ⟨NameSet.not_mem_empty x, NameSet.not_mem_empty y, hxy⟩⟩

theorem alike_of_isClosed (hc : c.body.IsPlain) (h : c.IsClosed) : c.Alike ρ c := by
  refine ⟨Eq, ⟨fun _ _ _ hx hy => hx.trans hy.symm, fun _ _ _ hx hy => hx.symm.trans hy⟩,
    Ty.alike_refl hc fun x hx => ?_⟩
  have hb : x ∈ c.bound := Decidable.not_not.1 fun hn => h x (mem_free.2 ⟨hx, hn⟩)
  exact .inl ⟨hb, hb, rfl⟩

theorem Alike.exists_mem_free (h : c.Alike ρ c') {z : String} (hz : z ∈ c.free) :
    ∃ w ∈ c'.free, ρ z w := by
  obtain ⟨β, _, hb⟩ := h
  have hz := mem_free.1 hz
  obtain ⟨w, hw, ⟨hzb, _⟩ | ⟨_, hwb, hzw⟩⟩ := hb.exists_mem_free hz.1
  · exact absurd hzb hz.2
  · exact ⟨w, mem_free.2 ⟨hw, hwb⟩, hzw⟩

theorem Alike.bind (h : c.Alike ρ c') {f g : String → Ty} (hf : c.Avoids f) (hg : c'.Avoids g)
    (hfg : ∀ x y, ρ x y → (f x).Alike ρ' (g y)) : (c.bind f).Alike ρ' (c'.bind g) := by
  obtain ⟨β, hβ, hb⟩ := h
  refine ⟨β, hβ, hb.bind ?_⟩
  rintro x hx y hy (⟨hxb, hyb, hxy⟩ | ⟨hxb, hyb, hxy⟩)
  · rw [if_pos hxb, if_pos hyb]
    exact .var (.inl ⟨hxb, hyb, hxy⟩)
  · rw [if_neg hxb, if_neg hyb]
    exact (hfg x y hxy).congr fun z hz w hw hzw =>
      .inr ⟨hf x (mem_free.2 ⟨hx, hxb⟩) z hz, hg y (mem_free.2 ⟨hy, hyb⟩) w hw, hzw⟩

theorem alike_generalize {env env' : TyEnv} (hρ : BiUnique ρ) (h : t.Alike ρ u)
    (henv : ∀ x ∈ t.free, ∀ y ∈ u.free, ρ x y → (x ∈ env.free ↔ y ∈ env'.free)) :
    (env.generalize t).Alike ρ (env'.generalize u) := by
  refine ⟨ρ, hρ, Ty.Alike.congr h fun x hx y hy hxy => ?_⟩
  have hiff := henv x hx y hy hxy
  by_cases hm : x ∈ env.free
  · exact .inr ⟨fun hb => (TyEnv.mem_bound_generalize.1 hb).2 hm,
      fun hb => (TyEnv.mem_bound_generalize.1 hb).2 (hiff.1 hm), hxy⟩
  · exact .inl ⟨TyEnv.mem_bound_generalize.2 ⟨hx, hm⟩,
      TyEnv.mem_bound_generalize.2 ⟨hy, fun hy' => hm (hiff.2 hy')⟩, hxy⟩

theorem image_freshSubst_injective {s : NameSupply} {x y : String} (hx : x ∈ c.bound)
    (hy : y ∈ c.bound) (h : (c.freshSubst s).image x = (c.freshSubst s).image y) : x = y := by
  obtain ⟨k, _, _, hk⟩ := exists_freshVars c.bound.names s Ty.isPlain_var Ty.isPlain_var
  have hback : ∀ z ∈ c.bound, ((c.freshSubst s).image z).bind k = .var z := fun z hz => by
    obtain ⟨v, hv⟩ := Subst.exists_get?_of_mem (mem_freshSubst (s := s).2 hz)
    rw [Subst.image_of_get? hv]
    exact hk (z, v) (Bindings.get?_eq_some_iff.1 hv)
  have he := hback x hx
  rw [h, hback y hy] at he
  exact (Ty.var.inj he).symm

/-- Instances of alike schemes are alike, once the variables drawn for the bound names are paired as
these names are. -/
theorem Alike.instantiate (h : c.Alike ρ c') (hc : c.body.IsPlain) (hc' : c'.body.IsPlain)
    {s s' : NameSupply} (hp : Paired ρ s s') :
    ∃ ρ', Grows ρ s s' ρ' (c.instantiate s).2 (c'.instantiate s').2 ∧
      (c.instantiate s).1.Alike ρ' (c'.instantiate s').1 := by
  obtain ⟨β, hβ, hb⟩ := h
  refine ⟨_, hp.extend (ν := fun v w => ∃ x y, x ∈ c.bound ∧ y ∈ c'.bound ∧ β x y ∧
    (c.freshSubst s).image x = .var v ∧ (c'.freshSubst s').image y = .var w) ⟨?_, ?_⟩
    (reaches_freshVars _ s) (reaches_freshVars _ s') ?_, ?_⟩
  · rintro v v' w ⟨x, y, hx, hy, hxy, hv, hw⟩ ⟨x', y', hx', hy', hxy', hv', hw'⟩
    obtain rfl := image_freshSubst_injective hy hy' (hw.trans hw'.symm)
    obtain rfl := hβ.1 hxy hxy'
    exact Ty.var.inj (hv.symm.trans hv')
  · rintro v w w' ⟨x, y, hx, hy, hxy, hv, hw⟩ ⟨x', y', hx', hy', hxy', hv', hw'⟩
    obtain rfl := image_freshSubst_injective hx hx' (hv.trans hv'.symm)
    obtain rfl := hβ.2 hxy hxy'
    exact Ty.var.inj (hw.symm.trans hw')
  · rintro v w ⟨x, y, hx, hy, _, hv, hw⟩
    obtain ⟨v', hv', hdrawn⟩ := image_freshSubst (s := s) hx
    obtain ⟨w', hw', hdrawn'⟩ := image_freshSubst (s := s') hy
    obtain rfl := Ty.var.inj (hv.symm.trans hv')
    obtain rfl := Ty.var.inj (hw.symm.trans hw')
    exact ⟨hdrawn, hdrawn'⟩
  · rw [Scheme.instantiate, Scheme.instantiate, Ty.apply_eq_bind _ hc, Ty.apply_eq_bind _ hc']
    refine hb.bind ?_
    rintro x _ y _ (⟨hx, hy, hxy⟩ | ⟨hx, hy, hxy⟩)
    · obtain ⟨v, hv, _⟩ := image_freshSubst (s := s) hx
      obtain ⟨w, hw, _⟩ := image_freshSubst (s := s') hy
      rw [hv, hw]
      exact .var (.inr ⟨x, y, hx, hy, hxy, hv, hw⟩)
    · rw [image_freshSubst_of_not_mem hx, image_freshSubst_of_not_mem hy]
      exact .var (.inl hxy)

end Scheme

namespace TyEnv

def Alike (ρ N : String → String → Prop) (env env' : TyEnv) : Prop :=
  ∀ x y, N x y → Option.Rel (Scheme.Alike ρ) (env.get? x) (env'.get? y)

variable {ρ ρ' N N' : String → String → Prop} {env env' : TyEnv} {s s' : NameSupply}

theorem Alike.mono (h : Alike ρ N env env') (hρ : ∀ x y, ρ x y → ρ' x y)
    (hN : ∀ x y, N' x y → N x y) : Alike ρ' N' env env' := by
  intro x y hxy
  have hget := h x y (hN x y hxy)
  generalize env.get? x = o at hget ⊢
  generalize env'.get? y = o' at hget ⊢
  cases hget with
  | some hc => exact .some (hc.mono hρ)
  | none => exact .none

theorem Alike.symm (h : Alike ρ N env env') : Alike (flip ρ) (flip N) env' env := by
  intro y x hxy
  have hget := h x y hxy
  generalize env.get? x = o at hget ⊢
  generalize env'.get? y = o' at hget ⊢
  cases hget with
  | some hc => exact .some hc.symm
  | none => exact .none

theorem Alike.mem_free (h : Alike ρ N env env') (hρ : BiUnique ρ) {a b x y : String} {c : Scheme}
    (hab : N a b) (ha : env.get? a = some c) (hx : x ∈ c.free) (hxy : ρ x y) : y ∈ env'.free := by
  have hget := h a b hab
  rw [ha] at hget
  generalize hb : env'.get? b = o at hget
  cases hget with
  | some hc =>
    obtain ⟨w, hw, hxw⟩ := hc.exists_mem_free hx
    rw [hρ.2 hxy hxw]
    exact mem_free_of_get? hb hw

theorem IsClosed.alike (h : env.IsClosed) : Alike ρ Eq env env := by
  rintro x _ rfl
  cases hx : env.get? x with
  | none => exact .none
  | some c => exact .some (Scheme.alike_of_isClosed (h x c hx).2 (h x c hx).1)

theorem Alike.insert (h : Alike ρ N env env') {c c' : Scheme} (hc : c.Alike ρ c')
    (x y : String) : Alike ρ (Under N x y) (env.insert x c) (env'.insert y c') := by
  rintro u v (⟨rfl, rfl⟩ | ⟨hu, hv, huv⟩)
  · rw [Bindings.get?_insert, Bindings.get?_insert, if_pos rfl, if_pos rfl]
    exact .some hc
  · rw [Bindings.get?_insert, Bindings.get?_insert, if_neg hu, if_neg hv]
    exact h u v huv

theorem Alike.apply (h : Alike ρ N env env') (henv : env.IsPlain) (henv' : env'.IsPlain)
    {S S' : Subst} (hS : S.Alike ρ S') (hav : env.Avoids S.image) (hav' : env'.Avoids S'.image) :
    Alike ρ N (env.apply S) (env'.apply S') := by
  intro x y hxy
  rw [apply_eq_bind henv, apply_eq_bind henv', get?_bind, get?_bind]
  have hget := h x y hxy
  generalize hx : env.get? x = o at hget ⊢
  generalize hy : env'.get? y = o' at hget ⊢
  cases hget with
  | none => exact .none
  | some hc => exact .some (hc.bind (hav x _ hx) (hav' y _ hy) fun z w hzw => hS z w hzw)

end TyEnv
end LetLower
