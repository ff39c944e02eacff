import LetLower.Proofs.Expr.Marks
import LetLower.Proofs.Inline.Run

/-!
# Steps of inlining that succeed

Inlining fails only where a node has no type or the depth is used up. So on annotated trees each
step of it succeeds, and what it makes of an annotated tree is annotated again, where the names in
its environment stand for annotated trees. `Ends` says that a result is found from some depth on;
there is one lemma for each thing that can happen at a node.
-/

namespace LetLower

def InlineEnv.IsAnnotated (env : InlineEnv) : Prop := ∀ x w, env.get? x = some w → w.isAnnotated

namespace InlineEnv.IsAnnotated

variable {env : InlineEnv} {x y : String} {v : Expr}

theorem empty : InlineEnv.IsAnnotated ∅ := fun x w h => by
  rw [Bindings.get?_empty] at h
  cases h

theorem erase (h : env.IsAnnotated) : InlineEnv.IsAnnotated (env.erase x) :=
  Bindings.forall_erase h x

theorem insert (h : env.IsAnnotated) (hv : v.isAnnotated) :
    InlineEnv.IsAnnotated (env.insert y v) :=
  Bindings.forall_insert h hv y

end InlineEnv.IsAnnotated

namespace Expr

open Pass

theorem LetOver.isAnnotated {m : Mark} {x : String} {v b r : Expr} (h : LetOver m x v b r)
    (hv : v.isAnnotated) (hb : b.isAnnotated) : r.isAnnotated := by
  induction h with
  | here =>
    simp only [Expr.isAnnotated, Bool.and_eq_true]
    exact ⟨⟨rfl, hv⟩, hb⟩
  | lam _ _ _ _ _ ih =>
    simp only [Expr.isAnnotated, Bool.and_eq_true] at hb ⊢
    exact ⟨hb.1, ih (isAnnotated_rename hb.2)⟩

theorem Inlines.isAnnotated {env : InlineEnv} {e r : Expr} (h : Inlines env e r)
    (henv : env.IsAnnotated) (he : e.isAnnotated) : r.isAnnotated := by
  induction h with
  | int | bool => exact he
  | @var env m x =>
    cases hw : env.get? x with
    | none => exact he
    | some w => exact henv x w hw
  | lam _ _ ih =>
    simp only [Expr.isAnnotated, Bool.and_eq_true] at he ⊢
    exact ⟨he.1, ih henv.erase (isAnnotated_rename he.2)⟩
  | app _ _ _ ihf iha =>
    simp only [Expr.isAnnotated, Bool.and_eq_true] at he ⊢
    exact ⟨⟨he.1.1, ihf henv he.1.2⟩, iha henv he.2⟩
  | beta _ _ _ _ _ _ ihf iha ihb =>
    simp only [Expr.isAnnotated, Bool.and_eq_true] at he
    have hf := ihf henv he.1.2
    simp only [Expr.isAnnotated, Bool.and_eq_true] at hf
    exact ihb (henv.erase.insert (iha henv he.2)) (isAnnotated_rename hf.2)
  | letRec _ _ _ ihv ihb =>
    simp only [Expr.isAnnotated, Bool.and_eq_true] at he ⊢
    exact ⟨⟨he.1.1, ihv henv.erase (isAnnotated_rename he.1.2)⟩,
      ihb henv.erase (isAnnotated_rename he.2)⟩
  | rotate _ _ ih =>
    simp only [Expr.isAnnotated, Bool.and_eq_true] at he ih
    exact ih henv ⟨⟨he.1.1, he.1.2.1.2⟩, ⟨he.1.1, isAnnotated_rename he.1.2.2⟩, he.2⟩
  | eliminate _ _ _ _ _ ihv ihb =>
    simp only [Expr.isAnnotated, Bool.and_eq_true] at he
    exact ihb (henv.erase.insert (ihv henv he.1.2)) (isAnnotated_rename he.2)
  | keep _ _ _ _ _ hl ihv ihb =>
    simp only [Expr.isAnnotated, Bool.and_eq_true] at he
    exact hl.isAnnotated (ihv henv he.1.2) (ihb henv.erase (isAnnotated_rename he.2))
  | binary _ _ ihl ihr =>
    simp only [Expr.isAnnotated, Bool.and_eq_true] at he ⊢
    exact ⟨⟨he.1.1, ihl henv he.1.2⟩, ihr henv he.2⟩
  | cond _ _ _ ihc ihy ihn =>
    simp only [Expr.isAnnotated, Bool.and_eq_true] at he ⊢
    exact ⟨⟨⟨he.1.1.1, ihc henv he.1.1.2⟩, ihy henv he.1.2⟩, ihn henv he.2⟩

theorem exists_mentionedIn {x : String} {es : List Expr} (h : ∀ e ∈ es, e.isAnnotated) :
    ∃ b, mentionedIn x es = .ok b := by
  induction es with
  | nil => exact ⟨false, rfl⟩
  | cons e es ih =>
    obtain ⟨he, hes⟩ := List.forall_mem_cons.1 h
    rw [mentionedIn, free?, if_pos (isKnown_of_isAnnotated he)]
    dsimp only
    split
    · exact ⟨true, rfl⟩
    · exact ih hes

theorem gives_enter {env : InlineEnv} {x : String} (value : Option Expr) {s : NameSupply}
    (henv : env.IsAnnotated) (hv : ∀ v ∈ value, v.isAnnotated) (hx : ¬ s.Marks x) :
    ∃ b s', (enter env x value).Gives s b s' ∧ EnteredAt env x value s b s' := by
  have hvalues : ∀ e ∈ (env.erase x).values ++ value.toList, e.isAnnotated := by
    intro e he
    rcases List.mem_append.1 he with he | he
    · obtain ⟨z, hz⟩ := Bindings.mem_values.1 he
      exact henv.erase z e hz
    · exact hv e (Option.mem_toList.1 he)
  obtain ⟨clash, hclash⟩ := exists_mentionedIn (x := x) hvalues
  have hgives : ∃ b s', (enter env x value).Gives s b s' := by
    unfold enter
    dsimp only
    rw [hclash]
    cases clash with
    | true => exact ⟨_, _, (gives_pure _ _).bind ((gives_freshFrom x s).bind
        ((gives_note _ _).bind (gives_pure _ _)))⟩
    | false => exact ⟨_, _, (gives_pure _ _).bind (gives_pure _ _)⟩
  obtain ⟨b, s', h⟩ := hgives
  obtain ⟨log, hrun⟩ := h []
  exact ⟨b, s', h, enter_ok hrun hx⟩

theorem EnteredAt.gives_scope {env : InlineEnv} {x : String} {value : Option Expr}
    {s s' t : NameSupply} {b : Entered} {e : Expr} (h : EnteredAt env x value s b s')
    (he : e.isAnnotated) : (b.scope e).Gives t (e.rename x b.name) t := by
  unfold Entered.scope
  rcases h.renamed with ⟨hr, hn⟩ | hr
  · rw [hr, hn, rename_self]
    exact gives_pure e t
  · rw [hr]
    dsimp only
    rw [rename?_eq he]
    exact gives_pure _ t

theorem gives_rotate {m n : Mark} {x y : String} {v w b : Expr} {s : NameSupply}
    (hw : w.isAnnotated) :
    (rotate m x n y v w b).Gives s (.letIn { n with ty := m.ty } (s.freshFrom y).1 v
      (.letIn m x (w.rename y (s.freshFrom y).1) b)) s.advance := by
  unfold rotate
  refine (gives_freshFrom y s).bind ((gives_note _ _).bind ?_)
  rw [rename?_eq hw]
  exact (gives_pure _ _).bind (gives_pure _ _)

theorem gives_letOver {m : Mark} {x : String} {v body : Expr} (hb : body.isAnnotated)
    (s : NameSupply) : ∃ r s', (letOver m x v body).Gives s r s' := by
  induction body using letOver.induct generalizing s with
  | case1 fm p b hfm ih =>
    simp only [Expr.isAnnotated, Bool.and_eq_true] at hb
    obtain ⟨r, s', hr⟩ := ih (s.freshFrom p).1 (isAnnotated_rename hb.2) s.advance
    refine ⟨.lam fm (s.freshFrom p).1 r, s', ?_⟩
    rw [letOver, if_pos hfm]
    refine (gives_freshFrom p s).bind ((gives_note _ _).bind ?_)
    rw [if_pos (isAnnotatedFor_of_isAnnotated hb.2)]
    exact hr.bind (gives_pure _ _)
  | case2 fm p b hfm =>
    simp only [Expr.isAnnotated, Bool.and_eq_true] at hb
    exact absurd hb.1 hfm
  | case3 body hlam =>
    obtain ⟨t, ht⟩ := exists_getTy (hasTy_of_isAnnotated hb)
    refine ⟨.letIn { m with ty := some t } x v body, s, ?_⟩
    unfold letOver
    split
    · exact (hlam _ _ _ rfl).elim
    · rw [ht]
      exact (gives_pure _ _).bind (gives_pure _ _)

/-- From some depth on, inlining gives the result. -/
def Ends (env : InlineEnv) (e : Expr) (s : NameSupply) (r : Expr) (s' : NameSupply) : Prop :=
  ∃ depth, ∀ d, depth ≤ d → (inlineIn d e env).Gives s r s'

namespace Ends

variable {env : InlineEnv} {m fm : Mark} {x y : String} {e e' f f' a a' b b' c c' v v' v'' r : Expr}
  {s s₁ s₂ s₃ s₄ : NameSupply} {inside : Entered} {t : Ty}

theorem of_succ (depth : Nat) (h : ∀ d, depth ≤ d → (inlineIn (d + 1) e env).Gives s r s') :
    Ends env e s r s' := by
  refine ⟨depth + 1, fun d hd => ?_⟩
  cases d with
  | zero => exact absurd hd (Nat.not_succ_le_zero depth)
  | succ d => exact h d (Nat.le_of_succ_le_succ hd)

theorem leaf (h : ∀ d, inlineIn (d + 1) e env = pure r) : Ends env e s r s :=
  of_succ 0 fun d _ => h d ▸ gives_pure r s

theorem lam (he : (Expr.lam m x b).hasTy) (hi : (enter env x none).Gives s inside s₁)
    (hb : (inside.scope b).Gives s₁ b' s₁) (h : Ends inside.env b' s₁ r s₂) :
    Ends env (.lam m x b) s (.lam m inside.name r) s₂ := by
  obtain ⟨depth, h⟩ := h
  refine of_succ depth fun d hd => ?_
  rw [inlineIn, inlineStep, he]
  exact hi.bind (hb.bind ((h d hd).bind (gives_pure _ s₂)))

theorem app (he : (Expr.app m f a).hasTy) (hf : Ends env f s f' s₁) (ha : Ends env a s₁ a' s₂)
    (hn : f'.function? = none) : Ends env (.app m f a) s (.app m f' a') s₂ := by
  obtain ⟨n, hf⟩ := hf
  obtain ⟨k, ha⟩ := ha
  refine of_succ (max n k) fun d hd => ?_
  rw [inlineIn, inlineStep, he]
  refine (hf d (by omega)).bind ((ha d (by omega)).bind ?_)
  rw [hn]
  exact gives_pure _ s₂

theorem beta (he : (Expr.app m f a).hasTy) (hf : Ends env f s f' s₁) (ha : Ends env a s₁ a' s₂)
    (hn : f'.function? = some (x, b)) (hi : (enter env x (some a')).Gives s₂ inside s₃)
    (hb : (inside.scope b).Gives s₃ b' s₃) (h : Ends inside.env b' s₃ r s₄) :
    Ends env (.app m f a) s r s₄ := by
  obtain ⟨n, hf⟩ := hf
  obtain ⟨k, ha⟩ := ha
  obtain ⟨l, h⟩ := h
  refine of_succ (max (max n k) l) fun d hd => ?_
  rw [inlineIn, inlineStep, he]
  refine (hf d (by omega)).bind ((ha d (by omega)).bind ?_)
  rw [hn]
  exact (gives_note _ s₂).bind (hi.bind (hb.bind (h d (by omega))))

theorem letRec (he : (Expr.letRec m x v b).hasTy) (hi : (enter env x none).Gives s inside s₁)
    (hv : (inside.scope v).Gives s₁ v' s₁) (hb : (inside.scope b).Gives s₁ b' s₁)
    (hv' : Ends inside.env v' s₁ v'' s₂) (hb' : Ends inside.env b' s₂ r s₃) :
    Ends env (.letRec m x v b) s (.letRec m inside.name v'' r) s₃ := by
  obtain ⟨n, hv'⟩ := hv'
  obtain ⟨k, hb'⟩ := hb'
  refine of_succ (max n k) fun d hd => ?_
  rw [inlineIn, inlineStep, he]
  exact hi.bind (hv.bind (hb.bind ((hv' d (by omega)).bind
    ((hb' d (by omega)).bind (gives_pure _ s₃)))))

theorem rotate {loc : Option Location} {w : Expr}
    (he : (Expr.letIn m x (.letIn ⟨loc, some t⟩ y v w) b).hasTy)
    (hr : (Expr.rotate m x ⟨loc, some t⟩ y v w b).Gives s e s₁) (h : Ends env e s₁ r s₂) :
    Ends env (.letIn m x (.letIn ⟨loc, some t⟩ y v w) b) s r s₂ := by
  obtain ⟨n, h⟩ := h
  refine of_succ n fun d hd => ?_
  rw [inlineIn, inlineStep, he]
  exact hr.bind (h d hd)

theorem letIn (he : (Expr.letIn m x v b).hasTy) (hl : ∀ n y w c, v ≠ .letIn n y w c) (depth : Nat)
    (h : ∀ d, depth ≤ d → (inlineLet (inlineIn d) m x v b env).Gives s r s₁) :
    Ends env (.letIn m x v b) s r s₁ := by
  refine of_succ depth fun d hd => ?_
  rw [inlineIn, inlineStep, he]
  · exact h d hd
  · exact fun loc u y w c hvl => hl _ y w c hvl

theorem eliminate (he : (Expr.letIn m x v b).hasTy) (hl : ∀ n y w c, v ≠ .letIn n y w c)
    (hv : Ends env v s v' s₁) (ht : v'.getTy = .ok t) (hf : t.isFunction = true)
    (hi : (enter env x (some v')).Gives s₁ inside s₂) (hb : (inside.scope b).Gives s₂ b' s₂)
    (h : Ends inside.env b' s₂ r s₃) : Ends env (.letIn m x v b) s r s₃ := by
  obtain ⟨n, hv⟩ := hv
  obtain ⟨k, h⟩ := h
  refine .letIn he hl (max n k) fun d hd => (hv d (by omega)).bind ?_
  rw [ht]
  refine (gives_pure t s₁).bind ?_
  rw [if_pos hf]
  exact (gives_note _ s₁).bind (hi.bind (hb.bind (h d (by omega))))

theorem keep (he : (Expr.letIn m x v b).hasTy) (hl : ∀ n y w c, v ≠ .letIn n y w c)
    (hv : Ends env v s v' s₁) (ht : v'.getTy = .ok t) (hf : t.isFunction = false)
    (hi : (enter env x none).Gives s₁ inside s₂) (hb : (inside.scope b).Gives s₂ b' s₂)
    (h : Ends inside.env b' s₂ c s₃) (hr : (letOver m inside.name v' c).Gives s₃ r s₄) :
    Ends env (.letIn m x v b) s r s₄ := by
  obtain ⟨n, hv⟩ := hv
  obtain ⟨k, h⟩ := h
  refine .letIn he hl (max n k) fun d hd => (hv d (by omega)).bind ?_
  rw [ht]
  refine (gives_pure t s₁).bind ?_
  rw [if_neg (Bool.eq_false_iff.1 hf)]
  exact hi.bind (hb.bind ((h d (by omega)).bind hr))

theorem binary {op : Operator} (he : (Expr.binary m op a b).hasTy) (ha : Ends env a s a' s₁)
    (hb : Ends env b s₁ b' s₂) : Ends env (.binary m op a b) s (.binary m op a' b') s₂ := by
  obtain ⟨n, ha⟩ := ha
  obtain ⟨k, hb⟩ := hb
  refine of_succ (max n k) fun d hd => ?_
  rw [inlineIn, inlineStep, he]
  exact (ha d (by omega)).bind ((hb d (by omega)).bind (gives_pure _ s₂))

theorem cond (he : (Expr.cond m c a b).hasTy) (hc : Ends env c s c' s₁) (ha : Ends env a s₁ a' s₂)
    (hb : Ends env b s₂ b' s₃) : Ends env (.cond m c a b) s (.cond m c' a' b') s₃ := by
  obtain ⟨n, hc⟩ := hc
  obtain ⟨k, ha⟩ := ha
  obtain ⟨l, hb⟩ := hb
  refine of_succ (max (max n k) l) fun d hd => ?_
  rw [inlineIn, inlineStep, he]
  exact (hc d (by omega)).bind ((ha d (by omega)).bind
    ((hb d (by omega)).bind (gives_pure _ s₃)))

end Ends
end Expr
end LetLower
