import LetLower.Proofs.Inline.Reduction
import LetLower.Proofs.Inline.Success
import LetLower.Proofs.Infer.Principal
import LetLower.Proofs.Typing.Normalization

/-!
# Inlining ends

Inlining goes on with trees whose terms are parts of the term of the tree that it was given, or come
from it by steps of reduction. The term of a typed expression normalizes, so there is no endless
sequence of these, and some depth is enough.
-/

namespace LetLower.Expr

open Term Pass

/-- What inlining a tree needs so that it can go on, and how the terms of its names reduce to those
of what is put in for them. -/
structure Runs (env : InlineEnv) (e : Expr) (s : NameSupply) (σ τ : String → Term) : Prop where
  clean : env.Clean s
  values : env.IsAnnotated
  unmarked : e.Unmarked s
  annotated : e.isAnnotated
  follows : Follows env (· ∈ e.free) σ τ

/-- The same for the scope of a binder that is still to be entered. -/
structure RunsBelow (env : InlineEnv) (x : String) (b : Expr) (s : NameSupply)
    (σ τ : String → Term) : Prop where
  clean : env.Clean s
  values : env.IsAnnotated
  name : ¬ s.Marks x
  unmarked : b.Unmarked s
  annotated : b.isAnnotated
  follows : Follows env (fun z => z ∈ b.free ∧ z ≠ x) σ τ

section

variable {env : InlineEnv} {m fm : Mark} {x y : String} {e f a b v v' r : Expr} {u u' : Term}
  {s s₁ s₂ : NameSupply} {entered : Entered} {t : Ty} {σ τ : String → Term}

namespace RunsBelow

theorem shift (h : RunsBelow env x b s σ τ) :
    RunsBelow env x b s (fun z => (σ z).shift) fun z => (τ z).shift where
  clean := h.clean
  values := h.values
  name := h.name
  unmarked := h.unmarked
  annotated := h.annotated
  follows := h.follows.shift

theorem term_eq (h : RunsBelow env x b s σ τ) {value : Option Expr}
    (hin : EnteredAt env x value s entered s₁) :
    (b.rename x entered.name).term (Function.update σ entered.name u)
      = b.term (Function.update σ x u) :=
  term_update_rename (hin.scope h.unmarked)

theorem kept (h : RunsBelow env x b s σ τ) (hin : EnteredAt env x none s entered s₁)
    (hu : Reduces u u') : Runs entered.env (b.rename x entered.name) s₁
      (Function.update σ entered.name u) (Function.update τ entered.name u') where
  clean := hin.clean_none h.clean
  values := by
    rw [hin.env_eq]
    exact h.values.erase
  unmarked := (h.unmarked.mono hin.supply).rename (hin.not_marks h.name)
  annotated := isAnnotated_rename h.annotated
  follows := by
    rw [hin.env_eq]
    exact h.follows.keep (hin.enters h.clean h.unmarked) hu

theorem put (h : RunsBelow env x b s σ τ) (hin : EnteredAt env x (some v) s entered s₁)
    (hv : v.Unmarked s) (hva : v.isAnnotated) (hvf : ∀ z ∈ v.free, z ∉ env)
    (hu : Reduces u (v.term τ)) : Runs entered.env (b.rename x entered.name) s₁
      (Function.update σ entered.name u) τ where
  clean := hin.clean_some h.name h.clean hv hvf
  values := by
    rw [hin.env_eq]
    exact h.values.erase.insert hva
  unmarked := (h.unmarked.mono hin.supply).rename (hin.not_marks h.name)
  annotated := isAnnotated_rename h.annotated
  follows := by
    rw [hin.env_eq]
    exact h.follows.put hu

end RunsBelow

namespace Runs

theorem mono (h : Runs env e s σ τ) (hs : s.Reaches s₁) : Runs env e s₁ σ τ where
  clean := h.clean.mono hs
  values := h.values
  unmarked := h.unmarked.mono hs
  annotated := h.annotated
  follows := h.follows

theorem outside (h : Runs env e s σ τ) (hb : Outside b e) : Runs env b s σ τ where
  clean := h.clean
  values := h.values
  unmarked _ hz := h.unmarked _ (hb.names hz)
  annotated := hb.isAnnotated h.annotated
  follows := h.follows.outside hb

theorem inside (h : Runs env e s σ τ) (hb : Inside x b e) : RunsBelow env x b s σ τ where
  clean := h.clean
  values := h.values
  name := h.unmarked x hb.name
  unmarked _ hz := h.unmarked _ (hb.names hz)
  annotated := hb.isAnnotated h.annotated
  follows := h.follows.inside hb

theorem hasTy (h : Runs env e s σ τ) : e.hasTy := hasTy_of_isAnnotated h.annotated

theorem result (h : Runs env e s σ τ) (he : Ends env e s r s₁) : Inlines.Result env e s r s₁ := by
  obtain ⟨depth, hr⟩ := he
  obtain ⟨log, hrun⟩ := hr depth (Nat.le_refl depth) []
  exact inlines_of_inlineIn hrun ⟨h.clean, h.unmarked⟩

theorem isAnnotated_result (h : Runs env e s σ τ) (he : Ends env e s r s₁) : r.isAnnotated :=
  (h.result he).rules.isAnnotated h.values h.annotated

theorem reduces_result (h : Runs env e s σ τ) (he : Ends env e s r s₁) :
    Reduces (e.term σ) (r.term τ) :=
  (h.result he).rules.reduces h.follows

theorem after (h : Runs env e s σ τ) (hb : Outside b e) (hr : Ends env b s r s₁) :
    Runs env e s₁ σ τ :=
  h.mono ((h.outside hb).result hr).supply

end Runs

def EndsBelow (T : Term) : Prop :=
  ∀ {env e s σ τ}, Runs env e s σ τ → Relation.TransGen Below (e.term σ) T →
    ∃ r s', Ends env e s r s'

namespace Runs

theorem exists_outside (h : Runs env e s σ τ) (ih : EndsBelow (e.term σ)) (hb : Outside b e) :
    ∃ r s', Ends env b s r s' :=
  ih (h.outside hb) hb.below

theorem exists_lam (h : Runs env (.lam m x b) s σ τ) (ih : EndsBelow ((lam m x b).term σ)) :
    ∃ r s', Ends env (.lam m x b) s r s' := by
  have hb := (h.inside .lam).shift
  obtain ⟨entered, s₁, hi, hin⟩ := gives_enter none h.values nofun hb.name
  have hbelow : Relation.TransGen Below ((b.rename x entered.name).term (under σ entered.name))
      ((lam m x b).term σ) := by
    rw [under, hb.term_eq hin]
    exact .single (.inr .lam)
  obtain ⟨r, s₂, hr⟩ := ih (hb.kept hin .refl) hbelow
  exact ⟨_, s₂, .lam h.hasTy hi (hin.gives_scope hb.annotated) hr⟩

theorem exists_app (h : Runs env (.app m f a) s σ τ) (ih : EndsBelow ((app m f a).term σ)) :
    ∃ r s', Ends env (.app m f a) s r s' := by
  obtain ⟨f', s₁, hf⟩ := h.exists_outside ih .callee
  have hfr := (h.outside .callee).result hf
  have h₁ := h.after .callee hf
  obtain ⟨a', s₂, ha⟩ := h₁.exists_outside ih .argument
  have har := (h₁.outside .argument).result ha
  cases hfun : f'.function? with
  | none => exact ⟨_, s₂, .app h.hasTy hf ha hfun⟩
  | some xb =>
    obtain ⟨x, b⟩ := xb
    obtain ⟨fm, rfl, _⟩ := function?_eq_some hfun
    have hfu := hfr.unmarked.mono har.supply
    have hb : RunsBelow env x b s₂ τ τ :=
      ⟨h₁.clean.mono har.supply, h.values, hfu x List.mem_cons_self, fun z hz => hfu z (.tail _ hz),
        Inside.lam.isAnnotated ((h.outside .callee).isAnnotated_result hf),
        .of_not_mem fun z hz => hfr.not_mem_env h.clean z (NameSet.mem_erase.2 hz)⟩
    have hva := (h₁.outside .argument).isAnnotated_result ha
    obtain ⟨entered, s₃, hi, hin⟩ :=
      gives_enter (some a') h.values (fun v hv => Option.some.inj hv ▸ hva) hb.name
    have hbelow : Relation.TransGen Below ((b.rename x entered.name).term
        (Function.update τ entered.name (a'.term τ))) ((app m f a).term σ) := by
      rw [hb.term_eq hin, ← term_inst]
      have hred : Reduces ((app m f a).term σ) (.app (.lam (b.term (under τ x))) (a'.term τ)) :=
        .app ((h.outside .callee).reduces_result hf) ((h₁.outside .argument).reduces_result ha)
      exact below_of_steps (.tail' hred .beta)
    obtain ⟨r, s₄, hr⟩ :=
      ih (hb.put hin har.unmarked hva (har.not_mem_env h₁.clean) .refl) hbelow
    exact ⟨r, s₄, .beta h.hasTy hf ha hfun hi (hin.gives_scope hb.annotated) hr⟩

theorem exists_letRec (h : Runs env (.letRec m x v b) s σ τ)
    (ih : EndsBelow ((letRec m x v b).term σ)) : ∃ r s', Ends env (.letRec m x v b) s r s' := by
  have hv := h.inside .recursive
  have hb := h.inside .letRec
  obtain ⟨entered, s₁, hi, hin⟩ := gives_enter none h.values nofun hv.name
  have hvb : Relation.TransGen Below ((v.rename x entered.name).term
      (Function.update σ entered.name .atom)) ((letRec m x v b).term σ) := by
    rw [hv.term_eq hin]
    exact .head (.inr .argument) (.single (.inr .callee))
  have hbb : Relation.TransGen Below ((b.rename x entered.name).term
      (Function.update σ entered.name .atom)) ((letRec m x v b).term σ) := by
    rw [hb.term_eq hin]
    exact .single (.inr .argument)
  have hvr := hv.kept hin (u := .atom) .refl
  obtain ⟨v', s₂, hv'⟩ := ih hvr hvb
  obtain ⟨r, s₃, hr⟩ := ih ((hb.kept hin .refl).mono (hvr.result hv').supply) hbb
  exact ⟨_, s₃, .letRec h.hasTy hi (hin.gives_scope hv.annotated) (hin.gives_scope hb.annotated)
    hv' hr⟩

theorem exists_rotate {loc : Option Location} {w : Expr}
    (h : Runs env (.letIn m x (.letIn ⟨loc, some t⟩ y v w) b) s σ τ)
    (ih : EndsBelow ((letIn m x (.letIn ⟨loc, some t⟩ y v w) b).term σ)) :
    ∃ r s', Ends env (.letIn m x (.letIn ⟨loc, some t⟩ y v w) b) s r s' := by
  have ha := h.annotated
  simp only [isAnnotated, Bool.and_eq_true] at ha
  have hs := s.reaches_advance
  have hz : (s.freshFrom y).1 ∉ (letIn m x (.letIn ⟨loc, some t⟩ y v w) b).names :=
    fun hm => h.unmarked _ hm (s.marks_freshFrom y)
  have hr : Runs env (.letIn ⟨loc, m.ty⟩ (s.freshFrom y).1 v
      (.letIn m x (w.rename y (s.freshFrom y).1) b)) s.advance σ τ := by
    refine ⟨h.clean.mono hs, h.values, h.unmarked.rotated hs (s.not_marks_freshFrom y), ?_,
      h.follows.mono fun z hz => mem_free_of_rotated hz⟩
    simp only [isAnnotated, Bool.and_eq_true]
    exact ⟨⟨ha.1.1, ha.1.2.1.2⟩, ⟨ha.1.1, isAnnotated_rename ha.1.2.2⟩, ha.2⟩
  obtain ⟨r, s₁, hr'⟩ := ih hr (below_of_steps (reduces_rotated hz))
  exact ⟨r, s₁, .rotate h.hasTy (gives_rotate ha.1.2.2) hr'⟩

theorem exists_letIn (h : Runs env (.letIn m x v b) s σ τ) (hl : ∀ n y w c, v ≠ .letIn n y w c)
    (ih : EndsBelow ((letIn m x v b).term σ)) : ∃ r s', Ends env (.letIn m x v b) s r s' := by
  obtain ⟨v', s₁, hv⟩ := h.exists_outside ih .value
  have hvr := (h.outside .value).result hv
  have hva := (h.outside .value).isAnnotated_result hv
  have hb := (h.after .value hv).inside .letIn
  obtain ⟨t, ht⟩ := exists_getTy (hasTy_of_isAnnotated hva)
  cases hf : t.isFunction with
  | true =>
    obtain ⟨entered, s₂, hi, hin⟩ :=
      gives_enter (some v') h.values (fun w hw => Option.some.inj hw ▸ hva) hb.name
    have hbelow : Relation.TransGen Below ((b.rename x entered.name).term
        (Function.update σ entered.name (v.term σ))) ((letIn m x v b).term σ) := by
      rw [hb.term_eq hin]
      exact .single (.inl .drop)
    obtain ⟨r, s₃, hr⟩ := ih (hb.put hin hvr.unmarked hva (hvr.not_mem_env h.clean)
      ((h.outside .value).reduces_result hv)) hbelow
    exact ⟨r, s₃, .eliminate h.hasTy hl hv ht hf hi (hin.gives_scope hb.annotated) hr⟩
  | false =>
    obtain ⟨entered, s₂, hi, hin⟩ := gives_enter none h.values nofun hb.name
    have hbelow : Relation.TransGen Below ((b.rename x entered.name).term
        (Function.update σ entered.name (v.term σ))) ((letIn m x v b).term σ) := by
      rw [hb.term_eq hin]
      exact .single (.inr .body)
    have hbr := hb.kept hin (u := v.term σ) .refl
    obtain ⟨c, s₃, hc⟩ := ih hbr hbelow
    obtain ⟨r, s₄, hr⟩ := gives_letOver (m := m) (x := entered.name) (v := v')
      (hbr.isAnnotated_result hc) s₃
    exact ⟨r, s₄, .keep h.hasTy hl hv ht hf hi (hin.gives_scope hb.annotated) hc hr⟩

theorem exists_binary {op : Operator} (h : Runs env (.binary m op a b) s σ τ)
    (ih : EndsBelow ((binary m op a b).term σ)) : ∃ r s', Ends env (.binary m op a b) s r s' := by
  obtain ⟨a', s₁, ha⟩ := h.exists_outside ih .left
  obtain ⟨b', s₂, hb⟩ := (h.after .left ha).exists_outside ih .right
  exact ⟨_, s₂, .binary h.hasTy ha hb⟩

theorem exists_cond (h : Runs env (.cond m e a b) s σ τ)
    (ih : EndsBelow ((cond m e a b).term σ)) : ∃ r s', Ends env (.cond m e a b) s r s' := by
  obtain ⟨e', s₁, he⟩ := h.exists_outside ih .condition
  have h₁ := h.after .condition he
  obtain ⟨a', s₂, ha⟩ := h₁.exists_outside ih .thenBranch
  obtain ⟨b', s₃, hb⟩ := (h₁.after .thenBranch ha).exists_outside ih .elseBranch
  exact ⟨_, s₃, .cond h.hasTy he ha hb⟩

/-- Where inlining ends on all trees below, it ends on the tree. -/
theorem exists_step (h : Runs env e s σ τ) (ih : EndsBelow (e.term σ)) :
    ∃ r s', Ends env e s r s' := by
  have hty := h.hasTy
  cases e with
  | int m n =>
    refine ⟨int m n, s, .leaf fun d => ?_⟩
    rw [inlineIn, inlineStep, hty]
    rfl
  | bool m n =>
    refine ⟨bool m n, s, .leaf fun d => ?_⟩
    rw [inlineIn, inlineStep, hty]
    rfl
  | var m x =>
    refine ⟨(env.get? x).getD (var m x), s, .leaf fun d => ?_⟩
    rw [inlineIn, inlineStep, hty]
    rfl
  | bare => cases hty
  | lam m x b => exact h.exists_lam ih
  | app m f a => exact h.exists_app ih
  | letRec m x v b => exact h.exists_letRec ih
  | letIn m x v b =>
    cases v with
    | letIn n y v w =>
      obtain ⟨loc, ty⟩ := n
      cases ty with
      | none => cases (h.outside .value).hasTy
      | some t => exact h.exists_rotate ih
    | int | bool | var | lam | app | letRec | binary | cond | bare =>
      refine h.exists_letIn (fun n y w c hv => ?_) ih
      cases hv
  | binary m op l r => exact h.exists_binary ih
  | cond m c y n => exact h.exists_cond ih

/-- Inlining ends where the term normalizes. From call to call the terms that names stand for change,
and only the term of the tree goes down. -/
theorem exists_ends (h : Runs env e s σ τ) (hn : Normalizes (e.term σ)) :
    ∃ r s', Ends env e s r s' := by
  have hacc := hn.acc_below.transGen
  clear hn
  generalize hT : e.term σ = T at hacc
  induction hacc generalizing env e s σ τ with
  | intro T _ ih =>
    subst hT
    exact h.exists_step fun h' hb => ih _ hb h' rfl

end Runs
end

/-- Inlining an inferred program ends: from some depth on it gives one and the same result. -/
theorem inlineIn_terminates {e t : Expr} {env : TyEnv} {names : NameSupply} (he : e.HasPlainNames)
    (henv : env.IsClosed) (h : ((e.inferTypes env).run names).1 = .ok t) (names' : NameSupply) :
    ∃ depth r, ∀ d, depth ≤ d → ((inlineIn d t ∅).run names').1 = .ok r := by
  obtain ⟨ht, a, hd⟩ := isDerivation_of_run henv h
  have hn := hd.hasType.normalizes fun x c hx => (henv x c hx).2
  have hr : Runs ∅ t names' (fun _ => .atom) (fun _ => .atom) :=
    ⟨.empty names', .empty, (he.congr ht).not_marks names', hd.isAnnotated,
      .of_not_mem fun z _ => Bindings.not_mem_empty z⟩
  obtain ⟨r, s', depth, hends⟩ := hr.exists_ends hn
  exact ⟨depth, r, fun d hle => (hends d hle).run_ok⟩

/-- A polymorphic function that is applied to itself, and a recursive function as an argument. -/
theorem inlineIn_terminates_twice_twice :
    let k (a : Ty) : Mark := ⟨none, some a⟩
    let f (a : Ty) : Ty := .fn a a
    let a : Ty := .var "t3"
    let u : Ty := .var "t5"
    let v : Ty := .var "t6"
    let twice : Expr := .lam (k (f (f a))) "g" (.lam (k (f a)) "y" (.app (k a) (.var (k (f a)) "g")
      (.app (k a) (.var (k (f a)) "g") (.var (k a) "y"))))
    let loop : Expr := .lam (k (.fn u v)) "n" (.app (k v) (.var (k (.fn u v)) "f") (.var (k u) "n"))
    let t : Expr := .letIn (k .int) "twice" twice (.letRec (k .int) "f" loop
      (.app (k .int) (.app (k (f .int)) (.app (k (f (f .int))) (.var (k (f (f (f .int)))) "twice")
        (.var (k (f (f .int))) "twice")) (.var (k (f .int)) "f")) (.int (k .int) 5)))
    let e : Expr := t.strip
    e.HasPlainNames ∧ TyEnv.IsClosed ∅ ∧ ((e.inferTypes ∅).run {}).1 = .ok t ∧
      ∃ depth r, ∀ d, depth ≤ d → ((inlineIn d t ∅).run {}).1 = .ok r := by
  intro k f a u v twice loop t e
  have he : e.HasPlainNames := by decide
  have henv : TyEnv.IsClosed ∅ := fun x _ h => by
    rw [Bindings.get?_empty] at h
    cases h
  have ht : ((e.inferTypes ∅).run {}).1 = .ok t := by cbv
  exact ⟨he, henv, ht, inlineIn_terminates he henv ht {}⟩

end LetLower.Expr
