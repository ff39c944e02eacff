import LetLower.Proofs.Inline.Rules
import LetLower.Proofs.Expr.Parts

/-!
# Runs of inlining follow the rules

A run keeps an environment clean: no name of it is still to be made, and none of its keys is free in
what the keys stand for. So no key is free in a result either, and going through a result again with
the same environment puts nothing in.
-/

namespace LetLower

/-- Names that stand for expressions which mention none of these names. -/
structure InlineEnv.Clean (env : InlineEnv) (s : NameSupply) : Prop where
  keys : ∀ x ∈ env, ¬ s.Marks x
  unmarked : ∀ x w, env.get? x = some w → w.Unmarked s
  apart : ∀ x w, env.get? x = some w → ∀ z ∈ w.free, z ∉ env

namespace InlineEnv.Clean

variable {env : InlineEnv} {s s' : NameSupply}

theorem empty (s : NameSupply) : InlineEnv.Clean ∅ s where
  keys x hx := absurd hx (Bindings.not_mem_empty x)
  unmarked x w h := by
    rw [Bindings.get?_empty] at h
    cases h
  apart x w h := by
    rw [Bindings.get?_empty] at h
    cases h

theorem mono (h : InlineEnv.Clean env s) (hs : s.Reaches s') : InlineEnv.Clean env s' where
  keys x hx hm := h.keys x hx (hm.of_reaches hs)
  unmarked x w hx := (h.unmarked x w hx).mono hs
  apart := h.apart

theorem erase (h : InlineEnv.Clean env s) (x : String) : InlineEnv.Clean (env.erase x) s where
  keys y hy := h.keys y (Bindings.mem_erase.1 hy).2
  unmarked y w hy := by
    rw [Bindings.get?_erase] at hy
    split at hy
    · cases hy
    · exact h.unmarked y w hy
  apart y w hy z hz hm := by
    rw [Bindings.get?_erase] at hy
    split at hy
    · cases hy
    · exact h.apart y w hy z hz (Bindings.mem_erase.1 hm).2

end InlineEnv.Clean

/-- A tree can be gone through: what stands for the names around it is clean, and no name of it is
still to be made. -/
structure InlineEnv.Admits (env : InlineEnv) (e : Expr) (s : NameSupply) : Prop where
  clean : env.Clean s
  unmarked : e.Unmarked s

/-- A name that can be free in a result: one of the tree for which nothing stands, or one of what
stands for a name. -/
def InlineEnv.Yields (env : InlineEnv) (N : String → Prop) (z : String) : Prop :=
  N z ∧ z ∉ env ∨ ∃ x w, env.get? x = some w ∧ z ∈ w.free

namespace InlineEnv.Yields

variable {env : InlineEnv} {N N' : String → Prop} {x y z : String}

theorem mono (h : InlineEnv.Yields env N z) (hN : N z → N' z) : InlineEnv.Yields env N' z :=
  h.imp_left fun h => ⟨hN h.1, h.2⟩

theorem erase (h : InlineEnv.Yields (env.erase x) N z) (hN : N z → N' z ∧ z ≠ x) :
    InlineEnv.Yields env N' z := by
  rcases h with ⟨hz, hn⟩ | ⟨k, w, hk, hw⟩
  · exact .inl ⟨(hN hz).1, fun hm => hn (Bindings.mem_erase.2 ⟨(hN hz).2, hm⟩)⟩
  · rw [Bindings.get?_erase] at hk
    split at hk
    · cases hk
    · exact .inr ⟨k, w, hk, hw⟩

theorem insert {v : Expr} (h : InlineEnv.Yields ((env.erase x).insert y v) N z)
    (hv : z ∈ v.free → InlineEnv.Yields env N' z) (hN : N z → N' z ∧ z ≠ x ∨ z = y) :
    InlineEnv.Yields env N' z := by
  rcases h with ⟨hz, hn⟩ | ⟨k, w, hk, hw⟩
  · rcases hN hz with ⟨hz', hx⟩ | rfl
    · refine .inl ⟨hz', fun hm => hn (Bindings.mem_insert.2 (.inr ?_))⟩
      exact Bindings.mem_erase.2 ⟨hx, hm⟩
    · exact absurd (Bindings.mem_insert.2 (.inl rfl)) hn
  · rw [Bindings.get?_insert] at hk
    split at hk
    · rw [← Option.some.inj hk] at hw
      exact hv hw
    · rw [Bindings.get?_erase] at hk
      split at hk
      · cases hk
      · exact .inr ⟨k, w, hk, hw⟩

end InlineEnv.Yields

namespace Expr

open Pass

/-- What is known of a binder that was entered, and of the expression that it stands for. -/
structure EnteredAt (env : InlineEnv) (x : String) (value : Option Expr) (s : NameSupply)
    (b : Entered) (s' : NameSupply) : Prop where
  env_eq : b.env = match value with
    | some v => (env.erase x).insert b.name v
    | none => env.erase x
  supply : s.Reaches s'
  renamed : b.renamed = none ∧ b.name = x ∨ b.renamed = some (x, b.name)
  fresh : b.name = x ∨ s.Marks b.name ∧ ¬ s'.Marks b.name
  apart : b.name = x → ∀ e ∈ (env.erase x).values ++ value.toList, x ∉ e.free

theorem enter_ok {env : InlineEnv} {x : String} {value : Option Expr} {b : Entered}
    {st st' : PassState} (h : enter env x value st = .ok b st')
    (hx : ¬ st.names.Marks x) : EnteredAt env x value st.names b st'.names := by
  unfold enter at h
  dsimp only at h
  obtain ⟨clash, st₁, hclash, h⟩ := bind_ok.1 h
  obtain ⟨hc, rfl⟩ := orFault_ok.1 hclash
  cases clash with
  | true =>
    rw [if_pos rfl] at h
    obtain ⟨y, st₂, hy, h⟩ := bind_ok.1 h
    obtain ⟨_, st₃, hn, h⟩ := bind_ok.1 h
    obtain ⟨rfl, rfl⟩ := pure_ok.1 h
    cases hy
    cases hn
    refine ⟨?_, st.names.reaches_advance, .inr rfl,
      .inr ⟨st.names.marks_freshFrom x, st.names.not_marks_freshFrom x⟩, fun he => ?_⟩
    · cases value <;> rfl
    · refine absurd (st.names.marks_freshFrom x) ?_
      rw [show (st.names.freshFrom x).1 = x from he]
      exact hx
  | false =>
    rw [if_neg Bool.false_ne_true] at h
    obtain ⟨rfl, rfl⟩ := pure_ok.1 h
    refine ⟨?_, .refl _, .inl ⟨rfl, rfl⟩, .inl rfl, fun _ => ?_⟩
    · cases value <;> rfl
    · exact not_mem_free_of_mentionedIn hc

theorem scope_ok {b : Entered} {x : String} {e e' : Expr}
    {st st' : PassState} (hb : b.renamed = none ∧ b.name = x ∨ b.renamed = some (x, b.name))
    (h : b.scope e st = .ok e' st') : e' = e.rename x b.name ∧ st = st' := by
  unfold Entered.scope at h
  rcases hb with ⟨hr, hn⟩ | hr
  · rw [hr] at h
    obtain ⟨rfl, rfl⟩ := pure_ok.1 h
    rw [hn, rename_self]
    exact ⟨rfl, rfl⟩
  · rw [hr] at h
    obtain ⟨hr', rfl⟩ := orFault_ok.1 h
    exact ⟨rename?_ok hr', rfl⟩

namespace EnteredAt

variable {env : InlineEnv} {x : String} {value : Option Expr} {s s' : NameSupply} {b : Entered}

theorem not_marks (h : EnteredAt env x value s b s') (hx : ¬ s.Marks x) : ¬ s'.Marks b.name := by
  rcases h.fresh with he | hm
  · rw [he]
    exact fun hm => hx (hm.of_reaches h.supply)
  · exact hm.2

theorem scope (h : EnteredAt env x value s b s') {names : List String}
    (hn : ∀ z ∈ names, ¬ s.Marks z) : b.name = x ∨ b.name ∉ names :=
  h.fresh.imp_right fun hm hmem => hn _ hmem hm.1

theorem not_mem_free (h : EnteredAt env x value s b s') {w : Expr}
    (hw : w ∈ (env.erase x).values ++ value.toList) (hu : w.Unmarked s) : b.name ∉ w.free := by
  rcases h.fresh with he | hm
  · rw [he]
    exact h.apart he w hw
  · exact fun hf => hu _ (mem_names_of_mem_free hf) hm.1

theorem mem_erase_values {z : String} {w : Expr} (hz : z ≠ x) (hw : env.get? z = some w) :
    w ∈ (env.erase x).values ++ value.toList :=
  List.mem_append_left _ (Bindings.mem_values.2 ⟨z, by rw [Bindings.get?_erase, if_neg hz, hw]⟩)

theorem enters (h : EnteredAt env x value s b s') (henv : env.Clean s) {names : List String}
    (hn : ∀ z ∈ names, ¬ s.Marks z) : Enters env x b.name names where
  scope := h.scope hn
  key := h.fresh.imp_right fun hm hmem => henv.keys _ hmem hm.1
  values z w hz hw := h.not_mem_free (mem_erase_values hz hw) (henv.unmarked z w hw)

theorem clean_none (h : EnteredAt env x none s b s') (henv : env.Clean s) :
    InlineEnv.Clean b.env s' := by
  rw [h.env_eq]
  exact (henv.mono h.supply).erase x

theorem clean_some {v : Expr} (h : EnteredAt env x (some v) s b s') (hx : ¬ s.Marks x)
    (henv : env.Clean s) (hv : v.Unmarked s) (hf : ∀ z ∈ v.free, z ∉ env) :
    InlineEnv.Clean b.env s' := by
  have hinner := (henv.mono h.supply).erase x
  have hvalue : v ∈ (env.erase x).values ++ (some v).toList :=
    List.mem_append_right _ (List.mem_singleton.2 rfl)
  have hget : ∀ {y w}, Bindings.get? b.env y = some w →
      w = v ∨ y ≠ x ∧ env.get? y = some w := by
    intro y w hy
    rw [h.env_eq] at hy
    change ((env.erase x).insert b.name v).get? y = _ at hy
    rw [Bindings.get?_insert, Bindings.get?_erase] at hy
    split at hy
    · exact .inl (Option.some.inj hy).symm
    · split at hy
      · cases hy
      · rename_i hyx
        exact .inr ⟨hyx, hy⟩
  have hmem : ∀ {z}, z ∈ b.env → z = b.name ∨ z ∈ env := by
    intro z hz
    rw [h.env_eq] at hz
    exact (Bindings.mem_insert.1 hz).imp_right fun hz => (Bindings.mem_erase.1 hz).2
  refine ⟨fun y hy => ?_, fun y w hy => ?_, fun y w hy z hz hm => ?_⟩
  · rcases hmem hy with rfl | hy
    · exact h.not_marks hx
    · exact fun hm => henv.keys y hy (hm.of_reaches h.supply)
  · rcases hget hy with rfl | ⟨_, hy⟩
    · exact hv.mono h.supply
    · exact (henv.unmarked y w hy).mono h.supply
  · rcases hget hy with rfl | ⟨hyx, hy⟩
    · rcases hmem hm with rfl | hm
      · exact h.not_mem_free hvalue hv hz
      · exact hf z hz hm
    · rcases hmem hm with rfl | hm
      · exact h.not_mem_free (mem_erase_values hyx hy) (henv.unmarked y w hy) hz
      · exact henv.apart y w hy z hz hm

end EnteredAt

end Expr

open LetLower.Expr

namespace InlineEnv.Admits

variable {env : InlineEnv} {e b : Expr} {x : String} {s s' : NameSupply} {inside : Entered}

theorem mono (h : InlineEnv.Admits env e s) (hs : s.Reaches s') : InlineEnv.Admits env e s' :=
  ⟨h.clean.mono hs, h.unmarked.mono hs⟩

theorem name (h : InlineEnv.Admits env e s) (hb : Inside x b e) : ¬ s.Marks x :=
  h.unmarked x hb.name

theorem outside (h : InlineEnv.Admits env e s) (hb : Outside b e) : InlineEnv.Admits env b s :=
  ⟨h.clean, fun z hz => h.unmarked z (hb.names hz)⟩

theorem unmarked_inside (h : InlineEnv.Admits env e s) (hb : Inside x b e) {value : Option Expr}
    (hin : EnteredAt env x value s inside s') : (b.rename x inside.name).Unmarked s' := by
  have hu : b.Unmarked s := fun z hz => h.unmarked z (hb.names hz)
  exact (hu.mono hin.supply).rename (hin.not_marks (h.name hb))

theorem kept (h : InlineEnv.Admits env e s) (hb : Inside x b e)
    (hin : EnteredAt env x none s inside s') :
    InlineEnv.Admits inside.env (b.rename x inside.name) s' :=
  ⟨hin.clean_none h.clean, h.unmarked_inside hb hin⟩

theorem put {v : Expr} (h : InlineEnv.Admits env e s) (hb : Inside x b e)
    (hin : EnteredAt env x (some v) s inside s') (hv : v.Unmarked s) (hf : ∀ z ∈ v.free, z ∉ env) :
    InlineEnv.Admits inside.env (b.rename x inside.name) s' :=
  ⟨hin.clean_some (h.name hb) h.clean hv hf, h.unmarked_inside hb hin⟩

theorem rotated {m n n' : Mark} {y z : String} {v w : Expr}
    (h : InlineEnv.Admits env (letIn m x (.letIn n y v w) b) s) (hs : s.Reaches s')
    (hz : ¬ s'.Marks z) :
    InlineEnv.Admits env (.letIn n' z v (.letIn m x (w.rename y z) b)) s' :=
  ⟨h.clean.mono hs, h.unmarked.rotated hs hz⟩

end InlineEnv.Admits

namespace Expr

open Pass

structure LetOver.Built (m : Mark) (x : String) (v body : Expr) (s : NameSupply) (r : Expr)
    (s' : NameSupply) : Prop where
  rules : LetOver m x v body r
  supply : s.Reaches s'
  unmarked : r.Unmarked s'
  free : ∀ z ∈ r.free, z ∈ v.free ∨ z ∈ body.free ∧ z ≠ x

theorem letOver_ok {m : Mark} {x : String} {v body r : Expr} {st st' : PassState}
    (h : letOver m x v body st = .ok r st') (hx : ¬ st.names.Marks x)
    (hv : v.Unmarked st.names) (hb : body.Unmarked st.names) :
    LetOver.Built m x v body st.names r st'.names := by
  induction body using letOver.induct generalizing r st st' with
  | case1 fm p b hfm ih =>
    rw [letOver, if_pos hfm] at h
    obtain ⟨q, st₁, hq, h⟩ := bind_ok.1 h
    obtain ⟨_, st₂, hn, h⟩ := bind_ok.1 h
    split at h
    · obtain ⟨inner, st₃, hi, h⟩ := bind_ok.1 h
      obtain ⟨rfl, rfl⟩ := pure_ok.1 h
      cases hq
      cases hn
      have hs := st.names.reaches_advance
      have hmq := st.names.marks_freshFrom p
      have hnq := st.names.not_marks_freshFrom p
      have hbu : b.Unmarked st.names := fun z hz => hb z (.tail _ hz)
      obtain ⟨hrules, hsup, hun, hfree⟩ := ih _ hi (fun hm => hx (hm.of_reaches hs)) (hv.mono hs)
        ((hbu.mono hs).rename hnq)
      refine ⟨.lam hfm (fun he => hx (he ▸ hmq)) (fun hf => hv _ (mem_names_of_mem_free hf) hmq)
        (fun hf => hbu _ hf hmq) hrules, hs.trans hsup, fun z hz => ?_, fun z hz => ?_⟩
      · rcases List.mem_cons.1 hz with rfl | hz
        · exact fun hm => hnq (hm.of_reaches hsup)
        · exact hun z hz
      · have hz' := NameSet.mem_erase.1 hz
        refine (hfree z hz'.1).imp_right fun hz => ?_
        rcases mem_free_rename hz.1 with hz'' | rfl
        · exact ⟨NameSet.mem_erase.2 hz'', hz.2⟩
        · exact absurd rfl hz'.2
    · exact absurd h not_fail_ok
  | case2 fm p b hfm =>
    rw [letOver, if_neg hfm] at h
    exact absurd h not_fail_ok
  | case3 body hlam =>
    have hl : body.isLam = false := by
      cases body with
      | lam fm p b => exact (hlam fm p b rfl).elim
      | _ => rfl
    unfold letOver at h
    split at h
    · exact (hlam _ _ _ rfl).elim
    · obtain ⟨t, st₁, hty, h⟩ := bind_ok.1 h
      obtain ⟨ht, rfl⟩ := orFault_ok.1 hty
      obtain ⟨rfl, rfl⟩ := pure_ok.1 h
      refine ⟨.here hl ht, .refl _, fun z hz => ?_, fun z hz => ?_⟩
      · rcases List.mem_cons.1 hz with rfl | hz
        · exact hx
        · exact (List.mem_append.1 hz).elim (hv z) (hb z)
      · exact (NameSet.mem_union.1 hz).imp_right NameSet.mem_erase.1

structure Inlines.Result (env : InlineEnv) (e : Expr) (s : NameSupply) (r : Expr)
    (s' : NameSupply) : Prop where
  rules : Inlines env e r
  supply : s.Reaches s'
  unmarked : r.Unmarked s'
  free : ∀ z ∈ r.free, env.Yields (· ∈ e.free) z

namespace Inlines.Result

variable {env : InlineEnv} {m fm : Mark} {x : String} {e e' f a a' v v' b r : Expr} {t : Ty}
  {s s₁ s₂ s₃ s₄ : NameSupply} {inside : Entered}

/-- Going through the result again puts nothing in. -/
theorem not_mem_env (h : Inlines.Result env e s r s₁) (henv : env.Clean s) :
    ∀ z ∈ r.free, z ∉ env := by
  intro z hz
  rcases h.free z hz with ⟨_, hn⟩ | ⟨x, w, hx, hw⟩
  · exact hn
  · exact henv.apart x w hx z hw

theorem admits (h : Inlines.Result env e s r s₁) (henv : env.Clean s) : env.Admits r s₁ :=
  ⟨henv.mono h.supply, h.unmarked⟩

theorem var (henv : env.Clean s) (he : (Expr.var m x).Unmarked s) :
    Inlines.Result env (.var m x) s ((env.get? x).getD (.var m x)) s := by
  have h : Inlines env (.var m x) ((env.get? x).getD (.var m x)) := .var
  cases hx : env.get? x with
  | none =>
    rw [hx] at h
    refine ⟨h, .refl s, he, fun z hz => .inl ⟨hz, ?_⟩⟩
    rw [NameSet.mem_single.1 hz]
    exact Bindings.get?_eq_none_iff.1 hx
  | some w =>
    rw [hx] at h
    exact ⟨h, .refl s, henv.unmarked x w hx, fun z hz => .inr ⟨x, w, hx, hz⟩⟩

/-- The scope of a binder, seen from outside. -/
theorem scope_free (hin : EnteredAt env x none s inside s₁)
    (hb : Inlines.Result inside.env (b.rename x inside.name) s₂ r s₃) {N : String → Prop}
    (hN : ∀ z, z ∈ b.free → z ≠ x → N z) {z : String} (hz : z ∈ r.free) (hne : z ≠ inside.name) :
    env.Yields N z := by
  have hy := hb.free z hz
  rw [hin.env_eq] at hy
  refine hy.erase fun hm => ?_
  have hm' := (mem_free_rename hm).resolve_right hne
  exact ⟨hN z hm'.1 hm'.2, hm'.2⟩

theorem value_scope_free (hin : EnteredAt env x (some v) s inside s₁)
    (hb : Inlines.Result inside.env (b.rename x inside.name) s₁ r s₂) {N : String → Prop}
    (hN : ∀ z, z ∈ b.free → z ≠ x → N z) (hv : ∀ z ∈ v.free, env.Yields N z) :
    ∀ z ∈ r.free, env.Yields N z := by
  intro z hz
  have hy := hb.free z hz
  rw [hin.env_eq] at hy
  exact hy.insert (hv z) fun hm =>
    (mem_free_rename hm).imp_left fun hm' => ⟨hN z hm'.1 hm'.2, hm'.2⟩

theorem lam (henv : env.Clean s) (he : (Expr.lam m x b).Unmarked s)
    (hin : EnteredAt env x none s inside s₁)
    (hb : Inlines.Result inside.env (b.rename x inside.name) s₁ r s₂) :
    Inlines.Result env (.lam m x b) s (.lam m inside.name r) s₂ := by
  have hx := he x List.mem_cons_self
  have hrules := hb.rules
  rw [hin.env_eq] at hrules
  refine ⟨.lam (hin.enters henv fun z hz => he z (.tail _ hz)) hrules,
    hin.supply.trans hb.supply, fun z hz => ?_, fun z hz => ?_⟩
  · rcases List.mem_cons.1 hz with rfl | hz
    · exact fun hm => hin.not_marks hx (hm.of_reaches hb.supply)
    · exact hb.unmarked z hz
  · have hz' := NameSet.mem_erase.1 hz
    exact scope_free hin hb (fun w hw hne => Inside.lam.free ⟨hw, hne⟩) hz'.1 hz'.2

theorem letRec (henv : env.Clean s) (he : (Expr.letRec m x v b).Unmarked s)
    (hin : EnteredAt env x none s inside s₁)
    (hv : Inlines.Result inside.env (v.rename x inside.name) s₁ v' s₂)
    (hb : Inlines.Result inside.env (b.rename x inside.name) s₂ r s₃) :
    Inlines.Result env (.letRec m x v b) s (.letRec m inside.name v' r) s₃ := by
  have hx := he x List.mem_cons_self
  have hrv := hv.rules
  have hrb := hb.rules
  rw [hin.env_eq] at hrv hrb
  refine ⟨.letRec (hin.enters henv fun z hz => he z (.tail _ hz)) hrv hrb,
    hin.supply.trans (hv.supply.trans hb.supply), fun z hz => ?_, fun z hz => ?_⟩
  · rcases List.mem_cons.1 hz with rfl | hz
    · exact fun hm => hin.not_marks hx ((hm.of_reaches hb.supply).of_reaches hv.supply)
    · exact (List.mem_append.1 hz).elim (fun hz => (hv.unmarked.mono hb.supply) z hz)
        (hb.unmarked z)
  · have hz' := NameSet.mem_erase.1 hz
    rcases NameSet.mem_union.1 hz'.1 with hz | hz
    · exact scope_free hin hv (fun w hw hne => Inside.recursive.free ⟨hw, hne⟩) hz hz'.2
    · exact scope_free hin hb (fun w hw hne => Inside.letRec.free ⟨hw, hne⟩) hz hz'.2

theorem binary {op : Operator} (ha : Inlines.Result env a s a' s₁)
    (hb : Inlines.Result env b s₁ r s₂) :
    Inlines.Result env (.binary m op a b) s (.binary m op a' r) s₂ where
  rules := .binary ha.rules hb.rules
  supply := ha.supply.trans hb.supply
  unmarked z hz := (List.mem_append.1 hz).elim (ha.unmarked.mono hb.supply z) (hb.unmarked z)
  free z hz := (NameSet.mem_union.1 hz).elim
    (fun hz => (ha.free z hz).mono Outside.left.free)
    fun hz => (hb.free z hz).mono Outside.right.free

theorem app (hf : Inlines.Result env f s e' s₁) (ha : Inlines.Result env a s₁ a' s₂)
    (hn : e'.function? = none) : Inlines.Result env (.app m f a) s (.app m e' a') s₂ where
  rules := .app hf.rules ha.rules hn
  supply := hf.supply.trans ha.supply
  unmarked z hz := (List.mem_append.1 hz).elim (hf.unmarked.mono ha.supply z) (ha.unmarked z)
  free z hz := (NameSet.mem_union.1 hz).elim
    (fun hz => (hf.free z hz).mono Outside.callee.free)
    fun hz => (ha.free z hz).mono Outside.argument.free

theorem cond (hc : Inlines.Result env e s e' s₁) (ha : Inlines.Result env a s₁ a' s₂)
    (hb : Inlines.Result env b s₂ r s₃) :
    Inlines.Result env (.cond m e a b) s (.cond m e' a' r) s₃ where
  rules := .cond hc.rules ha.rules hb.rules
  supply := hc.supply.trans (ha.supply.trans hb.supply)
  unmarked z hz := by
    rcases List.mem_append.1 hz with hz | hz
    · rcases List.mem_append.1 hz with hz | hz
      · exact hc.unmarked.mono (ha.supply.trans hb.supply) z hz
      · exact ha.unmarked.mono hb.supply z hz
    · exact hb.unmarked z hz
  free z hz := by
    rcases NameSet.mem_union.1 hz with hz | hz
    · rcases NameSet.mem_union.1 hz with hz | hz
      · exact (hc.free z hz).mono Outside.condition.free
      · exact (ha.free z hz).mono Outside.thenBranch.free
    · exact (hb.free z hz).mono Outside.elseBranch.free

theorem beta (henv : env.Clean s) (hf : Inlines.Result env f s (.lam fm x b) s₁)
    (hm : fm.ty.isSome) (ha : Inlines.Result env a s₁ a' s₂)
    (hin : EnteredAt env x (some a') s₂ inside s₃)
    (hb : Inlines.Result inside.env (b.rename x inside.name) s₃ r s₄) :
    Inlines.Result env (.app m f a) s r s₄ := by
  have hrules := hb.rules
  rw [hin.env_eq] at hrules
  have hbody : ∀ z ∈ b.names, ¬ s₂.Marks z := fun z hz =>
    hf.unmarked.mono ha.supply z (.tail _ hz)
  refine ⟨.beta hf.rules ha.rules hm (hf.not_mem_env henv) (hin.scope hbody) hrules,
    hf.supply.trans (ha.supply.trans (hin.supply.trans hb.supply)), hb.unmarked, ?_⟩
  have hN : ∀ z ∈ r.free, env.Yields (fun z => env.Yields (· ∈ f.free) z ∨ z ∈ a.free) z := by
    refine value_scope_free hin hb (fun z hz hne => .inl ?_) fun z hz => ?_
    · exact hf.free z (Inside.lam.free ⟨hz, hne⟩)
    · exact (ha.free z hz).mono .inr
  intro z hz
  rcases hN z hz with ⟨hz | hz, hn⟩ | hz
  · exact hz.mono Outside.callee.free
  · exact .inl ⟨Outside.argument.free hz, hn⟩
  · exact .inr hz

theorem eliminate (he : (Expr.letIn m x v b).Unmarked s) (hv : Inlines.Result env v s v' s₁)
    (ht : v'.getTy = .ok t) (hf : t.isFunction = true)
    (hin : EnteredAt env x (some v') s₁ inside s₂)
    (hb : Inlines.Result inside.env (b.rename x inside.name) s₂ r s₃) :
    Inlines.Result env (.letIn m x v b) s r s₃ := by
  have hrules := hb.rules
  rw [hin.env_eq] at hrules
  have hbody : ∀ z ∈ b.names, ¬ s₁.Marks z := fun z hz hm =>
    he z (Inside.letIn.names hz) (hm.of_reaches hv.supply)
  refine ⟨.eliminate hv.rules ht hf (hin.scope hbody) hrules,
    hv.supply.trans (hin.supply.trans hb.supply), hb.unmarked, ?_⟩
  refine value_scope_free hin hb (fun z hz hne => ?_) fun z hz => ?_
  · exact Inside.letIn.free ⟨hz, hne⟩
  · exact (hv.free z hz).mono Outside.value.free

theorem keep (henv : env.Clean s) (he : (Expr.letIn m x v b).Unmarked s)
    (hv : Inlines.Result env v s v' s₁) (ht : v'.getTy = .ok t) (hf : t.isFunction = false)
    (hin : EnteredAt env x none s₁ inside s₂)
    (hb : Inlines.Result inside.env (b.rename x inside.name) s₂ e' s₃)
    (hl : LetOver.Built m inside.name v' e' s₃ r s₄) :
    Inlines.Result env (.letIn m x v b) s r s₄ := by
  have hrules := hb.rules
  rw [hin.env_eq] at hrules
  have hbody : ∀ z ∈ b.names, ¬ s₁.Marks z := fun z hz hm =>
    he z (Inside.letIn.names hz) (hm.of_reaches hv.supply)
  refine ⟨.keep hv.rules ht hf (hin.enters (henv.mono hv.supply) hbody) hrules hl.rules,
    hv.supply.trans (hin.supply.trans (hb.supply.trans hl.supply)), hl.unmarked, fun z hz => ?_⟩
  rcases hl.free z hz with hz | ⟨hz, hne⟩
  · exact (hv.free z hz).mono Outside.value.free
  · exact scope_free hin hb (fun w hw hne => Inside.letIn.free ⟨hw, hne⟩) hz hne

end Inlines.Result

theorem rotate_ok {m n : Mark} {x y : String} {v w b r : Expr} {st st' : PassState}
    (h : rotate m x n y v w b st = .ok r st') :
    ∃ z, r = .letIn { n with ty := m.ty } z v (.letIn m x (w.rename y z) b) ∧
      st.names.Reaches st'.names ∧ st.names.Marks z ∧ ¬ st'.names.Marks z := by
  unfold rotate at h
  obtain ⟨z, st₁, hz, h⟩ := bind_ok.1 h
  obtain ⟨_, st₂, hn, h⟩ := bind_ok.1 h
  obtain ⟨w', st₃, hw, h⟩ := bind_ok.1 h
  obtain ⟨hw', rfl⟩ := orFault_ok.1 hw
  obtain ⟨rfl, rfl⟩ := pure_ok.1 h
  cases hz
  cases hn
  rw [rename?_ok hw']
  exact ⟨_, rfl, st.names.reaches_advance, st.names.marks_freshFrom y,
    st.names.not_marks_freshFrom y⟩

theorem Inlines.Result.rotate {env : InlineEnv} {m : Mark} {x y z : String} {loc : Option Location}
    {t : Ty} {v w b r : Expr} {s s₁ s₂ : NameSupply}
    (he : (letIn m x (.letIn ⟨loc, some t⟩ y v w) b).Unmarked s) (hs : s.Reaches s₁)
    (hz : s.Marks z)
    (h : Inlines.Result env (.letIn ⟨loc, m.ty⟩ z v (.letIn m x (w.rename y z) b)) s₁ r s₂) :
    Inlines.Result env (letIn m x (.letIn ⟨loc, some t⟩ y v w) b) s r s₂ where
  rules := .rotate (fun hm => he z hm hz) h.rules
  supply := hs.trans h.supply
  unmarked := h.unmarked
  free u hu := (h.free u hu).mono mem_free_of_rotated

/-- On a tree that its environment admits, what is returned follows the rules. -/
def Inliner.Follows (run : Inliner) : Prop :=
  ∀ ⦃e r env st st'⦄, run e env st = .ok r st' → env.Admits e st.names →
    Inlines.Result env e st.names r st'.names

namespace Inliner.Follows

variable {run : Inliner} {env : InlineEnv} {m : Mark} {x : String} {e f a v b c y n l r r' : Expr}
  {st st' : PassState}

theorem lam (h : run.Follows) (hr : inlineLam run m x b env st = .ok r st')
    (he : env.Admits (Expr.lam m x b) st.names) :
    Inlines.Result env (Expr.lam m x b) st.names r st'.names := by
  obtain ⟨inside, st₁, hi, hr⟩ := bind_ok.1 hr
  obtain ⟨b', st₂, hs, hr⟩ := bind_ok.1 hr
  obtain ⟨r', st₃, hb, hr⟩ := bind_ok.1 hr
  obtain ⟨rfl, rfl⟩ := pure_ok.1 hr
  have hin := enter_ok hi (he.name .lam)
  obtain ⟨rfl, rfl⟩ := scope_ok hin.renamed hs
  exact .lam he.clean he.unmarked hin (h hb (he.kept .lam hin))

theorem put (h : run.Follows) (hr : inlinePut run x v b env st = .ok r st')
    (he : env.Admits e st.names) (hb : Inside x b e) (hv : v.Unmarked st.names)
    (hf : ∀ z ∈ v.free, z ∉ env) :
    ∃ inside s, EnteredAt env x (some v) st.names inside s ∧
      Inlines.Result inside.env (b.rename x inside.name) s r st'.names := by
  obtain ⟨inside, st₁, hi, hr⟩ := bind_ok.1 hr
  obtain ⟨b', st₂, hs, hr⟩ := bind_ok.1 hr
  have hin := enter_ok hi (he.name hb)
  obtain ⟨rfl, rfl⟩ := scope_ok hin.renamed hs
  exact ⟨inside, st₁.names, hin, h hr (he.put hb hin hv hf)⟩

theorem app (h : run.Follows) (hr : inlineApp run m f a env st = .ok r st')
    (he : env.Admits (Expr.app m f a) st.names) :
    Inlines.Result env (Expr.app m f a) st.names r st'.names := by
  obtain ⟨f', st₁, hf, hr⟩ := bind_ok.1 hr
  obtain ⟨a', st₂, ha, hr⟩ := bind_ok.1 hr
  have hfr := h hf (he.outside .callee)
  have har := h ha ((he.outside .argument).mono hfr.supply)
  cases hfun : f'.function? with
  | none =>
    rw [hfun] at hr
    obtain ⟨rfl, rfl⟩ := pure_ok.1 hr
    exact .app hfr har hfun
  | some xb =>
    obtain ⟨x, b⟩ := xb
    rw [hfun] at hr
    obtain ⟨fm, rfl, hfm⟩ := function?_eq_some hfun
    obtain ⟨_, st₃, hn, hr⟩ := bind_ok.1 hr
    have hfun := (hfr.admits he.clean).mono har.supply
    have hfree := har.not_mem_env (he.clean.mono hfr.supply)
    rw [← names_of_note hn] at hfun har
    obtain ⟨inside, s, hin, hbr⟩ := h.put hr hfun .lam har.unmarked hfree
    exact .beta he.clean hfr hfm har hin hbr

theorem letRec (h : run.Follows) (hr : inlineLetRec run m x v b env st = .ok r st')
    (he : env.Admits (Expr.letRec m x v b) st.names) :
    Inlines.Result env (Expr.letRec m x v b) st.names r st'.names := by
  obtain ⟨inside, st₁, hi, hr⟩ := bind_ok.1 hr
  obtain ⟨v', st₂, hsv, hr⟩ := bind_ok.1 hr
  obtain ⟨b', st₃, hsb, hr⟩ := bind_ok.1 hr
  obtain ⟨v'', st₄, hv, hr⟩ := bind_ok.1 hr
  obtain ⟨b'', st₅, hb, hr⟩ := bind_ok.1 hr
  obtain ⟨rfl, rfl⟩ := pure_ok.1 hr
  have hin := enter_ok hi (he.name .letRec)
  obtain ⟨rfl, rfl⟩ := scope_ok hin.renamed hsv
  obtain ⟨rfl, rfl⟩ := scope_ok hin.renamed hsb
  have hvr := h hv (he.kept .recursive hin)
  exact .letRec he.clean he.unmarked hin hvr (h hb ((he.kept .letRec hin).mono hvr.supply))

theorem letIn (h : run.Follows) (hr : inlineLet run m x v b env st = .ok r st')
    (he : env.Admits (Expr.letIn m x v b) st.names) :
    Inlines.Result env (Expr.letIn m x v b) st.names r st'.names := by
  obtain ⟨v', st₁, hv, hr⟩ := bind_ok.1 hr
  obtain ⟨t, st₂, ht, hr⟩ := bind_ok.1 hr
  obtain ⟨ht', rfl⟩ := orFault_ok.1 ht
  have hvr := h hv (he.outside .value)
  have he' := he.mono hvr.supply
  split at hr
  · rename_i hfun
    obtain ⟨_, st₃, hn, hr⟩ := bind_ok.1 hr
    rw [← names_of_note hn] at he' hvr
    obtain ⟨inside, s, hin, hbr⟩ :=
      h.put hr he' .letIn hvr.unmarked (hvr.not_mem_env he.clean)
    exact .eliminate he.unmarked hvr ht' hfun hin hbr
  · rename_i hfun
    obtain ⟨inside, st₃, hi, hr⟩ := bind_ok.1 hr
    obtain ⟨b', st₄, hs, hr⟩ := bind_ok.1 hr
    obtain ⟨b'', st₅, hb, hl⟩ := bind_ok.1 hr
    have hx := he'.name .letIn
    have hin := enter_ok hi hx
    obtain ⟨rfl, rfl⟩ := scope_ok hin.renamed hs
    have hbr := h hb (he'.kept .letIn hin)
    have hlr := letOver_ok hl (fun hm => hin.not_marks hx (hm.of_reaches hbr.supply))
      (hvr.unmarked.mono (hin.supply.trans hbr.supply)) hbr.unmarked
    exact .keep he.clean he.unmarked hvr ht' (Bool.eq_false_iff.2 hfun) hin hbr hlr

theorem binary {op : Operator} (h : run.Follows)
    (hr : inlineBinary run m op l r env st = .ok r' st')
    (he : env.Admits (Expr.binary m op l r) st.names) :
    Inlines.Result env (Expr.binary m op l r) st.names r' st'.names := by
  obtain ⟨l', st₁, hl, hr⟩ := bind_ok.1 hr
  obtain ⟨r'', st₂, hright, hr⟩ := bind_ok.1 hr
  obtain ⟨rfl, rfl⟩ := pure_ok.1 hr
  have hlr := h hl (he.outside .left)
  exact .binary hlr (h hright ((he.outside .right).mono hlr.supply))

theorem cond (h : run.Follows) (hr : inlineCond run m c y n env st = .ok r st')
    (he : env.Admits (Expr.cond m c y n) st.names) :
    Inlines.Result env (Expr.cond m c y n) st.names r st'.names := by
  obtain ⟨c', st₁, hc, hr⟩ := bind_ok.1 hr
  obtain ⟨y', st₂, hy, hr⟩ := bind_ok.1 hr
  obtain ⟨n', st₃, hn, hr⟩ := bind_ok.1 hr
  obtain ⟨rfl, rfl⟩ := pure_ok.1 hr
  have hcr := h hc (he.outside .condition)
  have hyr := h hy ((he.outside .thenBranch).mono hcr.supply)
  exact .cond hcr hyr (h hn ((he.outside .elseBranch).mono (hcr.supply.trans hyr.supply)))

theorem step (h : run.Follows) : Inliner.Follows (inlineStep run) := by
  intro e r env st st' hr he
  unfold inlineStep at hr
  split at hr
  · exact absurd hr not_fail_ok
  rename_i hty
  split at hr
  · obtain ⟨rfl, rfl⟩ := pure_ok.1 hr
    exact ⟨.int, .refl _, he.unmarked, fun z hz => absurd hz (NameSet.not_mem_empty z)⟩
  · obtain ⟨rfl, rfl⟩ := pure_ok.1 hr
    exact ⟨.bool, .refl _, he.unmarked, fun z hz => absurd hz (NameSet.not_mem_empty z)⟩
  · exact absurd rfl hty
  · obtain ⟨rfl, rfl⟩ := pure_ok.1 hr
    exact .var he.clean he.unmarked
  · exact h.lam hr he
  · exact h.app hr he
  · exact h.letRec hr he
  · obtain ⟨e', st₁, hrotate, hr⟩ := bind_ok.1 hr
    obtain ⟨z, rfl, hs, hz, hnz⟩ := rotate_ok hrotate
    exact .rotate he.unmarked hs hz (h hr (he.rotated hs hnz))
  · exact h.letIn hr he
  · exact h.binary hr he
  · exact h.cond hr he

end Inliner.Follows

theorem inlineIn_follows (depth : Nat) : Inliner.Follows (inlineIn depth) := by
  induction depth with
  | zero => exact fun _ _ _ _ _ h => absurd h not_fail_ok
  | succ depth ih => exact ih.step

theorem inlines_of_inlineIn {depth : Nat} {e r : Expr} {env : InlineEnv} {st st' : PassState}
    (h : inlineIn depth e env st = .ok r st') (he : env.Admits e st.names) :
    Inlines.Result env e st.names r st'.names := inlineIn_follows depth h he

/-- A run of inlining on its own, from no names that stand for anything. -/
theorem inlines_of_run {depth : Nat} {e r : Expr} {names : NameSupply} (he : e.HasPlainNames)
    (h : ((inlineIn depth e ∅).run names).1 = .ok r) : Inlines ∅ e r := by
  obtain ⟨st, h⟩ := Pass.run_ok.1 h
  exact (inlines_of_inlineIn h ⟨.empty _, he.not_marks _⟩).rules

end Expr
end LetLower
