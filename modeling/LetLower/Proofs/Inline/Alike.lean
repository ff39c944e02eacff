import LetLower.Proofs.Infer.Alike
import LetLower.Proofs.Inline.Calls
import LetLower.Proofs.Inline.Success

/-!
# Inlining up to names

Two runs of inlining on trees that differ in names only go in step: at each node both do the same
thing, because the types in the trees are alike, and what they return differs in names only. They
may rename different binders. So there are two correspondences of names, one for the trees that go
in and one for those that come out; names for which nothing stands correspond in both.
-/

namespace LetLower

open LetLower.Expr Pass

variable {ρ P Q : String → String → Prop}

/-- For two names that correspond nothing stands, or alike trees do. -/
def InlineEnv.Alike (ρ P Q : String → String → Prop) (env env' : InlineEnv) : Prop :=
  ∀ u v, P u v → u ∉ env ∧ v ∉ env' ∧ Q u v ∨
    ∃ w w', env.get? u = some w ∧ env'.get? v = some w' ∧ w.Alike (Mark.Alike ρ) Q w'

/-- The correspondence outside a pair of binders. -/
def Beyond (P : String → String → Prop) (x y u v : String) : Prop := u ≠ x ∧ v ≠ y ∧ P u v

namespace InlineEnv.Alike

variable {env env' : InlineEnv} {x y x' y' : String} {a a' : Expr} {names names' : List String}

theorem keep (h : InlineEnv.Alike ρ P Q env env') (hy : Enters env x y names)
    (hy' : Enters env' x' y' names') :
    InlineEnv.Alike ρ (Under (Beyond P x x') y y') (Under Q y y') (env.erase x)
      (env'.erase x') := by
  rintro u v (⟨rfl, rfl⟩ | ⟨hu, hv, hux, hvx, huv⟩)
  · refine .inl ⟨fun hm => ?_, fun hm => ?_, under_self Q _ _⟩
    · have hm := Bindings.mem_erase.1 hm
      exact hy.key.elim hm.1 fun h => h hm.2
    · have hm := Bindings.mem_erase.1 hm
      exact hy'.key.elim hm.1 fun h => h hm.2
  · rcases h u v huv with ⟨hue, hve, huv⟩ | ⟨w, w', hw, hw', hww⟩
    · exact .inl ⟨fun hm => hue (Bindings.mem_erase.1 hm).2,
        fun hm => hve (Bindings.mem_erase.1 hm).2, .inr ⟨hu, hv, huv⟩⟩
    · refine .inr ⟨w, w', ?_, ?_, hww.congr fun z hz z' hz' hzz => .inr ⟨?_, ?_, hzz⟩⟩
      · rw [Bindings.get?_erase, if_neg hux, hw]
      · rw [Bindings.get?_erase, if_neg hvx, hw']
      · rintro rfl
        exact hy.values u w hux hw hz
      · rintro rfl
        exact hy'.values v w' hvx hw' hz'

theorem put (h : InlineEnv.Alike ρ P Q env env') (ha : a.Alike (Mark.Alike ρ) Q a') (x x' y y') :
    InlineEnv.Alike ρ (Under (Beyond P x x') y y') Q ((env.erase x).insert y a)
      ((env'.erase x').insert y' a') := by
  rintro u v (⟨rfl, rfl⟩ | ⟨hu, hv, hux, hvx, huv⟩)
  · exact .inr ⟨a, a', by rw [Bindings.get?_insert, if_pos rfl],
      by rw [Bindings.get?_insert, if_pos rfl], ha⟩
  · rcases h u v huv with ⟨hue, hve, huv⟩ | ⟨w, w', hw, hw', hww⟩
    · exact .inl
        ⟨fun hm => hue (Bindings.mem_erase.1 ((Bindings.mem_insert.1 hm).resolve_left hu)).2,
          fun hm => hve (Bindings.mem_erase.1 ((Bindings.mem_insert.1 hm).resolve_left hv)).2, huv⟩
    · refine .inr ⟨w, w', ?_, ?_, hww⟩
      · rw [Bindings.get?_insert, if_neg hu, Bindings.get?_erase, if_neg hux, hw]
      · rw [Bindings.get?_insert, if_neg hv, Bindings.get?_erase, if_neg hvx, hw']

end InlineEnv.Alike

namespace Expr

variable {env env' : InlineEnv} {m m' : Mark} {x y x' y' : String} {e e' a a' b b' v v' r r' : Expr}

theorem Alike.scope {μ : Mark → Mark → Prop} (h : b.Alike μ (Under P x x') b')
    (hy : y = x ∨ y ∉ b.names) (hy' : y' = x' ∨ y' ∉ b'.names) :
    (b.rename x y).Alike μ (Under (Beyond P x x') y y') (b'.rename x' y') := by
  refine h.rename hy hy' ?_
  rintro u hu v hv (⟨rfl, rfl⟩ | ⟨hux, hvx, huv⟩)
  · rw [renamed_self, renamed_self]
    exact under_self _ _ _
  · rw [renamed_of_ne y hux, renamed_of_ne y' hvx]
    refine .inr ⟨?_, ?_, hux, hvx, huv⟩
    · rintro rfl
      exact hy.elim hux fun hn => hn (mem_names_of_mem_free hu)
    · rintro rfl
      exact hy'.elim hvx fun hn => hn (mem_names_of_mem_free hv)

theorem LetOver.alike (h : LetOver m x v b r) (h' : LetOver m' x' v' b' r')
    (hv : v.Alike (Mark.Alike ρ) Q v') (hb : b.Alike (Mark.Alike ρ) (Under Q x x') b') :
    r.Alike (Mark.Alike ρ) Q r' := by
  induction h generalizing Q b' r' with
  | here hl ht =>
    obtain ⟨t, t', hbt, hbt', htt⟩ := hb.exists_getTy
    cases h' with
    | here hl' ht' =>
      obtain rfl := Except.ok.inj (ht.symm.trans hbt)
      obtain rfl := Except.ok.inj (ht'.symm.trans hbt')
      exact .letIn ⟨_, _, rfl, rfl, htt⟩ hv hb
    | lam =>
      cases hb
      cases hl
  | @lam fm p q b r hm hx hq hn _ ih =>
    cases hb with
    | @lam _ _ fm' _ p' _ b' hfm hb =>
      cases h' with
      | here hl' => cases hl'
      | @lam _ _ q' _ r' hm' hx' hq' hn' h' =>
        refine .lam hfm (ih h' (hv.congr fun u hu w hw huw => .inr ⟨?_, ?_, huw⟩) ?_)
        · rintro rfl
          exact hq hu
        · rintro rfl
          exact hq' hw
        · refine hb.rename (.inr hn) (.inr hn') ?_
          rintro u hu w hw (⟨rfl, rfl⟩ | ⟨hup, hwp, ⟨rfl, rfl⟩ | ⟨hux, hwx, huw⟩⟩)
          · rw [renamed_self, renamed_self]
            exact .inr ⟨hx, hx', under_self _ _ _⟩
          · rw [renamed_of_ne q hup, renamed_of_ne q' hwp]
            exact under_self _ _ _
          · rw [renamed_of_ne q hup, renamed_of_ne q' hwp]
            refine .inr ⟨hux, hwx, .inr ⟨?_, ?_, huw⟩⟩
            · rintro rfl
              exact hn (mem_names_of_mem_free hu)
            · rintro rfl
              exact hn' (mem_names_of_mem_free hw)

theorem alike_rotated {loc loc' : Option Location} {t t' : Option Ty} {z z' : String}
    {w w' : Expr} (hm : m.Alike ρ m') (hv : v.Alike (Mark.Alike ρ) P v')
    (hw : w.Alike (Mark.Alike ρ) (Under P y y') w')
    (hb : b.Alike (Mark.Alike ρ) (Under P x x') b')
    (hz : z ∉ (letIn m x (.letIn ⟨loc, t⟩ y v w) b).names)
    (hz' : z' ∉ (letIn m' x' (.letIn ⟨loc', t'⟩ y' v' w') b').names) :
    Alike (Mark.Alike ρ) P (.letIn ⟨loc, m.ty⟩ z v (.letIn m x (w.rename y z) b))
      (.letIn ⟨loc', m'.ty⟩ z' v' (.letIn m' x' (w'.rename y' z') b')) := by
  simp only [names, List.mem_cons, List.mem_append, not_or] at hz hz'
  refine .letIn hm hv (.letIn hm ?_ (hb.congr fun u hu v hv => .imp_right ?_))
  · refine (hw.scope (.inr hz.2.1.2.2) (.inr hz'.2.1.2.2)).mono fun u v => .imp_right ?_
    rintro ⟨hu, hv, huv⟩
    exact ⟨hu, hv, huv.2.2⟩
  · rintro ⟨hux, hvx, huv⟩
    refine ⟨hux, hvx, .inr ⟨?_, ?_, huv⟩⟩
    · rintro rfl
      exact hz.2.2 (mem_names_of_mem_free hu)
    · rintro rfl
      exact hz'.2.2 (mem_names_of_mem_free hv)

/-- A tree that can be inlined, with an environment for its names and a supply for new ones. -/
structure Inlinable (env : InlineEnv) (e : Expr) (s : NameSupply) : Prop where
  clean : env.Clean s
  values : env.IsAnnotated
  unmarked : e.Unmarked s
  annotated : e.isAnnotated

namespace Inlinable

variable {s s₁ s' : NameSupply} {entered : Entered} {depth : Nat}

theorem admits (h : Inlinable env e s) : env.Admits e s := ⟨h.clean, h.unmarked⟩

theorem mono (h : Inlinable env e s) (hs : s.Reaches s₁) : Inlinable env e s₁ :=
  ⟨h.clean.mono hs, h.values, h.unmarked.mono hs, h.annotated⟩

theorem outside (h : Inlinable env e s) (hb : Outside b e) : Inlinable env b s :=
  ⟨h.clean, h.values, (h.admits.outside hb).unmarked, hb.isAnnotated h.annotated⟩

theorem result (h : Inlinable env e s) (hr : (inlineIn depth e env).Returns s r s₁) :
    Inlines.Result env e s r s₁ := by
  obtain ⟨_, _, hr⟩ := hr
  exact inlines_of_inlineIn hr h.admits

theorem of_result (h : Inlinable env e s) (hr : Inlines.Result env e s r s₁) :
    Inlinable env r s₁ :=
  ⟨h.clean.mono hr.supply, h.values, hr.unmarked, hr.rules.isAnnotated h.values h.annotated⟩

theorem exists_letOver (h : Inlinable env e s) (hb : Inside x b e)
    (hin : EnteredAt env x none s entered s₁) (hv : v.Unmarked s)
    (hr : Inlines.Result entered.env (b.rename x entered.name) s₁ a s') (ha : a.isAnnotated) :
    ∃ r t, (letOver m entered.name v a).Gives s' r t ∧ LetOver m entered.name v a r := by
  obtain ⟨r, t, hgives⟩ := gives_letOver (m := m) (x := entered.name) (v := v) ha s'
  obtain ⟨log, hrun⟩ := hgives []
  have hx := hin.not_marks (h.unmarked x hb.name)
  exact ⟨r, t, hgives, (letOver_ok hrun (fun hm => hx (hm.of_reaches hr.supply))
    (hv.mono (hin.supply.trans hr.supply)) hr.unmarked).rules⟩

theorem not_mem_names_freshFrom (h : Inlinable env e s) (base : String) :
    (s.freshFrom base).1 ∉ e.names :=
  fun hm => h.unmarked _ hm (s.marks_freshFrom base)

theorem rotated {loc : Option Location} {t : Ty} {w : Expr}
    (h : Inlinable env (letIn m x (.letIn ⟨loc, some t⟩ y v w) b) s) :
    Inlinable env (.letIn ⟨loc, m.ty⟩ (s.freshFrom y).1 v
      (.letIn m x (w.rename y (s.freshFrom y).1) b)) s.advance where
  clean := h.clean.mono s.reaches_advance
  values := h.values
  unmarked := h.unmarked.rotated s.reaches_advance (s.not_marks_freshFrom y)
  annotated := by
    have ha := h.annotated
    simp only [isAnnotated, Bool.and_eq_true] at ha ⊢
    exact ⟨⟨ha.1.1, ha.1.2.1.2⟩, ⟨ha.1.1, isAnnotated_rename ha.1.2.2⟩, ha.2⟩

theorem hasTy (h : Inlinable env e s) : e.hasTy := hasTy_of_isAnnotated h.annotated

theorem kept (h : Inlinable env e s) (hb : Inside x b e)
    (hin : EnteredAt env x none s entered s₁) :
    Inlinable entered.env (b.rename x entered.name) s₁ where
  clean := (h.admits.kept hb hin).clean
  values := by
    rw [hin.env_eq]
    exact h.values.erase
  unmarked := (h.admits.kept hb hin).unmarked
  annotated := isAnnotated_rename (hb.isAnnotated h.annotated)

theorem put (h : Inlinable env e s) (hb : Inside x b e)
    (hin : EnteredAt env x (some v) s entered s₁) (hv : Inlinable env v s)
    (hf : ∀ z ∈ v.free, z ∉ env) : Inlinable entered.env (b.rename x entered.name) s₁ where
  clean := (h.admits.put hb hin hv.unmarked hf).clean
  values := by
    rw [hin.env_eq]
    exact h.values.erase.insert hv.annotated
  unmarked := (h.admits.put hb hin hv.unmarked hf).unmarked
  annotated := isAnnotated_rename (hb.isAnnotated h.annotated)

theorem scope (h : Inlinable env e s) (hb : Inside x b e) {value : Option Expr}
    (hin : EnteredAt env x value s entered s₁) : entered.name = x ∨ entered.name ∉ b.names :=
  hin.scope fun _ hz => h.unmarked _ (hb.names hz)

end Inlinable

/-- Trees that are alike and can be inlined, each with an environment and a supply of its own. -/
structure BothInlinable (ρ P Q : String → String → Prop) (env : InlineEnv) (e : Expr)
    (s : NameSupply) (env' : InlineEnv) (e' : Expr) (s' : NameSupply) : Prop where
  left : Inlinable env e s
  right : Inlinable env' e' s'
  tree : e.Alike (Mark.Alike ρ) P e'
  env : InlineEnv.Alike ρ P Q env env'

namespace BothInlinable

variable {s s₁ s' s₁' : NameSupply} {i i' : Entered}

theorem mono (h : BothInlinable ρ P Q env e s env' e' s') (hs : s.Reaches s₁)
    (hs' : s'.Reaches s₁') : BothInlinable ρ P Q env e s₁ env' e' s₁' :=
  ⟨h.left.mono hs, h.right.mono hs', h.tree, h.env⟩

theorem part (h : BothInlinable ρ P Q env e s env' e' s') (hb : Outside b e) (hb' : Outside b' e')
    (hbb : b.Alike (Mark.Alike ρ) P b') : BothInlinable ρ P Q env b s env' b' s' :=
  ⟨h.left.outside hb, h.right.outside hb', hbb, h.env⟩

theorem kept (h : BothInlinable ρ P Q env e s env' e' s') (hb : Inside x b e)
    (hb' : Inside x' b' e') (hbb : b.Alike (Mark.Alike ρ) (Under P x x') b')
    (hin : EnteredAt env x none s i s₁) (hin' : EnteredAt env' x' none s' i' s₁') :
    BothInlinable ρ (Under (Beyond P x x') i.name i'.name) (Under Q i.name i'.name) i.env
      (b.rename x i.name) s₁ i'.env (b'.rename x' i'.name) s₁' where
  left := h.left.kept hb hin
  right := h.right.kept hb' hin'
  tree := hbb.scope (h.left.scope hb hin) (h.right.scope hb' hin')
  env := by
    have he : i.env = env.erase x := hin.env_eq
    have he' : i'.env = env'.erase x' := hin'.env_eq
    rw [he, he']
    exact h.env.keep (hin.enters h.left.clean fun _ hz => h.left.unmarked _ (hb.names hz))
      (hin'.enters h.right.clean fun _ hz => h.right.unmarked _ (hb'.names hz))

theorem put (h : BothInlinable ρ P Q env e s env' e' s') (hb : Inside x b e)
    (hb' : Inside x' b' e') (hbb : b.Alike (Mark.Alike ρ) (Under P x x') b')
    (hv : Inlinable env v s) (hv' : Inlinable env' v' s') (hvv : v.Alike (Mark.Alike ρ) Q v')
    (hf : ∀ z ∈ v.free, z ∉ env) (hf' : ∀ z ∈ v'.free, z ∉ env')
    (hin : EnteredAt env x (some v) s i s₁) (hin' : EnteredAt env' x' (some v') s' i' s₁') :
    BothInlinable ρ (Under (Beyond P x x') i.name i'.name) Q i.env (b.rename x i.name) s₁
      i'.env (b'.rename x' i'.name) s₁' where
  left := h.left.put hb hin hv hf
  right := h.right.put hb' hin' hv' hf'
  tree := hbb.scope (h.left.scope hb hin) (h.right.scope hb' hin')
  env := by
    have he : i.env = (env.erase x).insert i.name v := hin.env_eq
    have he' : i'.env = (env'.erase x').insert i'.name v' := hin'.env_eq
    rw [he, he']
    exact h.env.put hvv x x' i.name i'.name

end BothInlinable

theorem Alike.function? {N : String → String → Prop} (h : e.Alike (Mark.Alike ρ) N e') :
    e.function? = none ∧ e'.function? = none ∨
      ∃ fm x b fm' x' b', e = .lam fm x b ∧ e' = .lam fm' x' b' ∧
        e.function? = some (x, b) ∧ e'.function? = some (x', b') := by
  cases h with
  | lam hm =>
    obtain ⟨t, t', ht, ht', _⟩ := hm
    refine .inr ⟨_, _, _, _, _, _, rfl, rfl, ?_, ?_⟩
    · simp only [Expr.function?, ht, Option.isSome_some, if_true]
    · simp only [Expr.function?, ht', Option.isSome_some, if_true]
  | int | bool | var | app | letIn | letRec | binary | cond => exact .inl ⟨rfl, rfl⟩

def BothTooDeep (f g : Failure) : Prop := f = .fault .tooDeep ∧ g = .fault .tooDeep

theorem Alike.isTypedLet_eq {N : String → String → Prop} (h : e.Alike (Mark.Alike ρ) N e') :
    e'.isTypedLet = e.isTypedLet := by
  cases h with
  | letIn hm =>
    obtain ⟨t, t', ht, ht', _⟩ := hm
    rw [isTypedLet, isTypedLet, ht, ht']
    rfl
  | _ => rfl

def InlinesAlike (ρ Q : String → String → Prop) (depth : Nat) (env : InlineEnv) (e : Expr)
    (s : NameSupply) (env' : InlineEnv) (e' : Expr) (s' : NameSupply) : Prop :=
  Agree BothTooDeep (fun r _ r' _ => r.Alike (Mark.Alike ρ) Q r') (inlineIn depth e env) s
    (inlineIn depth e' env') s'

/-- Runs of the depth on trees that are alike agree. -/
def InlineAgreement (ρ : String → String → Prop) (depth : Nat) : Prop :=
  ∀ ⦃P Q : String → String → Prop⦄ ⦃env e s env' e' s'⦄,
    BothInlinable ρ P Q env e s env' e' s' → InlinesAlike ρ Q depth env e s env' e' s'

namespace InlineAgreement

variable {depth : Nat} {s s' : NameSupply}

section Steps

variable {α β : Type} {R : α → NameSupply → β → NameSupply → Prop}

theorem bind (ih : InlineAgreement ρ depth) (h : BothInlinable ρ P Q env e s env' e' s')
    {F : Expr → Pass α} {F' : Expr → Pass β}
    (hF : ∀ r t r' t', Inlines.Result env e s r t → Inlines.Result env' e' s' r' t' →
      r.Alike (Mark.Alike ρ) Q r' → Agree BothTooDeep R (F r) t (F' r') t') :
    Agree BothTooDeep R (inlineIn depth e env >>= F) s (inlineIn depth e' env' >>= F') s' :=
  Agree.bind (ih h) fun r t r' t' hrun hrun' hr =>
    hF r t r' t' (h.left.result hrun) (h.right.result hrun') hr

theorem enter_kept (h : BothInlinable ρ P Q env e s env' e' s') (hb : Inside x b e)
    (hb' : Inside x' b' e') {F : Entered → Pass α} {F' : Entered → Pass β}
    (hF : ∀ i s₁ i' s₁', EnteredAt env x none s i s₁ → EnteredAt env' x' none s' i' s₁' →
      Agree BothTooDeep R (F i) s₁ (F' i') s₁') :
    Agree BothTooDeep R (enter env x none >>= F) s (enter env' x' none >>= F') s' := by
  obtain ⟨i, s₁, hi, hin⟩ :=
    gives_enter none h.left.values nofun (h.left.unmarked x hb.name)
  obtain ⟨i', s₁', hi', hin'⟩ :=
    gives_enter none h.right.values nofun (h.right.unmarked x' hb'.name)
  exact hi.bind_agree hi' (hF i s₁ i' s₁' hin hin')

theorem scope {value value' : Option Expr} {t t' : NameSupply} {s₁ s₁' : NameSupply}
    {i i' : Entered} (h : BothInlinable ρ P Q env e s env' e' s') (hb : Inside x b e)
    (hb' : Inside x' b' e') (hin : EnteredAt env x value s i s₁)
    (hin' : EnteredAt env' x' value' s' i' s₁') {F : Expr → Pass α} {F' : Expr → Pass β}
    (hF : Agree BothTooDeep R (F (b.rename x i.name)) t (F' (b'.rename x' i'.name)) t') :
    Agree BothTooDeep R (i.scope b >>= F) t (i'.scope b' >>= F') t' :=
  (hin.gives_scope (hb.isAnnotated h.left.annotated)).bind_agree
    (hin'.gives_scope (hb'.isAnnotated h.right.annotated)) hF

/-- A tree is put into a scope, and the scope is gone through: the end of an application of a known
function, and of a `let` that binds a function. -/
theorem put (ih : InlineAgreement ρ depth) (h : BothInlinable ρ P Q env e s env' e' s')
    (hb : Inside x b e) (hb' : Inside x' b' e') (hbb : b.Alike (Mark.Alike ρ) (Under P x x') b')
    (hv : Inlinable env v s) (hv' : Inlinable env' v' s') (hvv : v.Alike (Mark.Alike ρ) Q v')
    (hf : ∀ z ∈ v.free, z ∉ env) (hf' : ∀ z ∈ v'.free, z ∉ env') (event event' : Event) :
    Agree BothTooDeep (fun r _ r' _ => r.Alike (Mark.Alike ρ) Q r')
      (Pass.note event >>= fun _ => enter env x (some v) >>= fun i => i.scope b >>= fun b =>
        inlineIn depth b i.env) s
      (Pass.note event' >>= fun _ => enter env' x' (some v') >>= fun i => i.scope b' >>= fun b =>
        inlineIn depth b i.env) s' := by
  obtain ⟨i, s₁, hi, hin⟩ := gives_enter (some v) h.left.values
    (fun _ hw => Option.some.inj hw ▸ hv.annotated) (h.left.unmarked x hb.name)
  obtain ⟨i', s₁', hi', hin'⟩ := gives_enter (some v') h.right.values
    (fun _ hw => Option.some.inj hw ▸ hv'.annotated) (h.right.unmarked x' hb'.name)
  refine (gives_note event s).bind_agree (gives_note event' s') (hi.bind_agree hi' ?_)
  exact scope h hb hb' hin hin' (ih (h.put hb hb' hbb hv hv' hvv hf hf' hin hin'))

end Steps

/-! One step for each kind of node, from the runs of one depth to those of the next. -/

variable {f f' c c' : Expr}

theorem var (h : BothInlinable ρ P Q env (.var m x) s env' (.var m' y) s') :
    InlinesAlike ρ Q (depth + 1) env (.var m x) s env' (.var m' y) s' := by
  unfold InlinesAlike inlineIn inlineStep
  rw [h.left.hasTy, h.right.hasTy]
  refine agree_pure ?_
  cases h.tree with
  | var hm hxy =>
    rcases h.env x y hxy with ⟨hx, hy, hxy⟩ | ⟨w, w', hw, hw', hww⟩
    · rw [Bindings.get?_eq_none_iff.2 hx, Bindings.get?_eq_none_iff.2 hy]
      exact .var hm hxy
    · rw [hw, hw']
      exact hww

theorem lam (ih : InlineAgreement ρ depth)
    (h : BothInlinable ρ P Q env (.lam m x b) s env' (.lam m' x' b') s') (hm : m.Alike ρ m')
    (hb : b.Alike (Mark.Alike ρ) (Under P x x') b') :
    InlinesAlike ρ Q (depth + 1) env (.lam m x b) s env' (.lam m' x' b') s' := by
  unfold InlinesAlike inlineIn inlineStep
  rw [h.left.hasTy, h.right.hasTy]
  refine enter_kept h .lam .lam fun i s₁ i' s₁' hin hin' => scope h .lam .lam hin hin' ?_
  exact ih.bind (h.kept .lam .lam hb hin hin') fun r t r' t' _ _ hr => agree_pure (.lam hm hr)

/-- The callee has been gone through when its body is taken, so nothing stands for its free names
any more. -/
theorem app (ih : InlineAgreement ρ depth)
    (h : BothInlinable ρ P Q env (.app m f a) s env' (.app m' f' a') s') (hm : m.Alike ρ m')
    (hf : f.Alike (Mark.Alike ρ) P f') (ha : a.Alike (Mark.Alike ρ) P a') :
    InlinesAlike ρ Q (depth + 1) env (.app m f a) s env' (.app m' f' a') s' := by
  unfold InlinesAlike inlineIn inlineStep
  rw [h.left.hasTy, h.right.hasTy]
  have hcallee := h.part .callee .callee hf
  refine ih.bind hcallee fun g s₁ g' s₁' hG hG' hg => ?_
  have hargument := (h.part .argument .argument ha).mono hG.supply hG'.supply
  refine ih.bind hargument fun c s₂ c' s₂' hC hC' hc => ?_
  rcases hg.function? with ⟨hn, hn'⟩ | ⟨fm, x, b, fm', x', b', rfl, rfl, hn, hn'⟩
  · rw [hn, hn']
    exact agree_pure (.app hm hg hc)
  · rw [hn, hn']
    have hg₀ : Alike (Mark.Alike ρ) (fun u w => Q u w ∧ u ∉ env ∧ w ∉ env') (.lam fm x b)
        (.lam fm' x' b') := hg.congr fun u hu w hw huw =>
      ⟨huw, hG.not_mem_env h.left.clean u hu, hG'.not_mem_env h.right.clean w hw⟩
    have hfun : BothInlinable ρ (fun u w => Q u w ∧ u ∉ env ∧ w ∉ env') Q env (.lam fm x b) s₂
        env' (.lam fm' x' b') s₂' :=
      ⟨(hcallee.left.of_result hG).mono hC.supply, (hcallee.right.of_result hG').mono hC'.supply,
        hg₀, fun u w huw => .inl ⟨huw.2.1, huw.2.2, huw.1⟩⟩
    cases hg₀ with
    | lam _ hb =>
      exact ih.put hfun .lam .lam hb (hargument.left.of_result hC) (hargument.right.of_result hC')
        hc (hC.not_mem_env hargument.left.clean) (hC'.not_mem_env hargument.right.clean) _ _

theorem rotate (ih : InlineAgreement ρ depth) {loc loc' : Option Location} {t t' : Ty} {w w' : Expr}
    (h : BothInlinable ρ P Q env (letIn m x (.letIn ⟨loc, some t⟩ y v w) b) s env'
      (letIn m' x' (.letIn ⟨loc', some t'⟩ y' v' w') b') s') (hm : m.Alike ρ m')
    (hv : v.Alike (Mark.Alike ρ) P v') (hw : w.Alike (Mark.Alike ρ) (Under P y y') w')
    (hb : b.Alike (Mark.Alike ρ) (Under P x x') b') :
    InlinesAlike ρ Q (depth + 1) env (.letIn m x (.letIn ⟨loc, some t⟩ y v w) b) s
      env' (.letIn m' x' (.letIn ⟨loc', some t'⟩ y' v' w') b') s' := by
  unfold InlinesAlike inlineIn inlineStep
  rw [h.left.hasTy, h.right.hasTy]
  refine (gives_rotate hw.isAnnotated).bind_agree
    (gives_rotate (hw.symm.monoMark fun _ _ => Mark.Alike.flip).isAnnotated) ?_
  exact ih ⟨h.left.rotated, h.right.rotated, alike_rotated hm hv hw hb
    (h.left.not_mem_names_freshFrom y) (h.right.not_mem_names_freshFrom y'), h.env⟩

/-- A `let` whose value has been gone through goes away or is built again; the types of the values
are alike, so both runs take the same way. -/
theorem letIn (ih : InlineAgreement ρ depth)
    (h : BothInlinable ρ P Q env (.letIn m x v b) s env' (.letIn m' x' v' b') s')
    (hv : v.Alike (Mark.Alike ρ) P v') (hb : b.Alike (Mark.Alike ρ) (Under P x x') b')
    (hl : v.isTypedLet = false) :
    InlinesAlike ρ Q (depth + 1) env (.letIn m x v b) s env' (.letIn m' x' v' b') s' := by
  unfold InlinesAlike
  rw [inlineIn, inlineIn, inlineStep_letIn h.left.hasTy hl,
    inlineStep_letIn h.right.hasTy (hv.isTypedLet_eq.trans hl)]
  have hvalue := h.part .value .value hv
  refine ih.bind hvalue fun u s₁ u' s₁' hU hU' hu => ?_
  have h₁ := h.mono hU.supply hU'.supply
  have huv := hvalue.left.of_result hU
  have huv' := hvalue.right.of_result hU'
  obtain ⟨t, t', ht, ht', htt⟩ := hu.exists_getTy
  rw [ht, ht']
  refine (gives_pure t s₁).bind_agree (gives_pure t' s₁') ?_
  rw [htt.isFunction_eq]
  cases hf : t'.isFunction with
  | true =>
    rw [if_pos rfl, if_pos rfl]
    exact ih.put h₁ .letIn .letIn hb huv huv' hu (hU.not_mem_env h.left.clean)
      (hU'.not_mem_env h.right.clean) _ _
  | false =>
    rw [if_neg Bool.false_ne_true, if_neg Bool.false_ne_true]
    refine enter_kept h₁ .letIn .letIn fun i s₂ i' s₂' hin hin' =>
      scope h₁ .letIn .letIn hin hin' ?_
    refine ih.bind (h₁.kept .letIn .letIn hb hin hin') fun d s₃ d' s₃' hD hD' hd => ?_
    obtain ⟨r, s₄, hr, hrules⟩ := h₁.left.exists_letOver (m := m) .letIn hin huv.unmarked hD
      hd.isAnnotated
    obtain ⟨r', s₄', hr', hrules'⟩ := h₁.right.exists_letOver (m := m') .letIn hin' huv'.unmarked
      hD' (hd.symm.monoMark fun _ _ => Mark.Alike.flip).isAnnotated
    exact hr.agree hr' (hrules.alike hrules' hu hd)

theorem letRec (ih : InlineAgreement ρ depth)
    (h : BothInlinable ρ P Q env (.letRec m x v b) s env' (.letRec m' x' v' b') s')
    (hm : m.Alike ρ m') (hv : v.Alike (Mark.Alike ρ) (Under P x x') v')
    (hb : b.Alike (Mark.Alike ρ) (Under P x x') b') :
    InlinesAlike ρ Q (depth + 1) env (.letRec m x v b) s env' (.letRec m' x' v' b') s' := by
  unfold InlinesAlike inlineIn inlineStep
  rw [h.left.hasTy, h.right.hasTy]
  refine enter_kept h .letRec .letRec fun i s₁ i' s₁' hin hin' =>
    scope h .recursive .recursive hin hin' (scope h .letRec .letRec hin hin' ?_)
  refine ih.bind (h.kept .recursive .recursive hv hin hin') fun w s₂ w' s₂' hW hW' hw => ?_
  refine ih.bind ((h.kept .letRec .letRec hb hin hin').mono hW.supply hW'.supply) ?_
  exact fun r t r' t' _ _ hr => agree_pure (.letRec hm hw hr)

theorem binary (ih : InlineAgreement ρ depth) {op : Operator} {l l' r r' : Expr}
    (h : BothInlinable ρ P Q env (.binary m op l r) s env' (.binary m' op l' r') s')
    (hm : m.Alike ρ m') (hl : l.Alike (Mark.Alike ρ) P l') (hr : r.Alike (Mark.Alike ρ) P r') :
    InlinesAlike ρ Q (depth + 1) env (.binary m op l r) s env' (.binary m' op l' r') s' := by
  unfold InlinesAlike inlineIn inlineStep
  rw [h.left.hasTy, h.right.hasTy]
  refine ih.bind (h.part .left .left hl) fun a s₁ a' s₁' hA hA' ha => ?_
  refine ih.bind ((h.part .right .right hr).mono hA.supply hA'.supply) ?_
  exact fun r t r' t' _ _ hr => agree_pure (.binary hm ha hr)

theorem cond (ih : InlineAgreement ρ depth)
    (h : BothInlinable ρ P Q env (.cond m c a b) s env' (.cond m' c' a' b') s')
    (hm : m.Alike ρ m') (hc : c.Alike (Mark.Alike ρ) P c') (ha : a.Alike (Mark.Alike ρ) P a')
    (hb : b.Alike (Mark.Alike ρ) P b') :
    InlinesAlike ρ Q (depth + 1) env (.cond m c a b) s env' (.cond m' c' a' b') s' := by
  unfold InlinesAlike inlineIn inlineStep
  rw [h.left.hasTy, h.right.hasTy]
  refine ih.bind (h.part .condition .condition hc) fun u s₁ u' s₁' hU hU' hu => ?_
  have h₁ := h.mono hU.supply hU'.supply
  refine ih.bind (h₁.part .thenBranch .thenBranch ha) fun w s₂ w' s₂' hW hW' hw => ?_
  refine ih.bind ((h₁.part .elseBranch .elseBranch hb).mono hW.supply hW'.supply) ?_
  exact fun r t r' t' _ _ hr => agree_pure (.cond hm hu hw hr)

end InlineAgreement

theorem inlineAgreement (ρ : String → String → Prop) (depth : Nat) : InlineAgreement ρ depth := by
  induction depth with
  | zero => exact fun _ _ _ _ _ _ _ _ _ => agree_fail ⟨rfl, rfl⟩
  | succ depth ih =>
    intro P Q env e s env' e' s' h
    cases h.tree with
    | int hm =>
      unfold InlinesAlike inlineIn inlineStep
      rw [h.left.hasTy, h.right.hasTy]
      exact agree_pure (.int hm)
    | bool hm =>
      unfold InlinesAlike inlineIn inlineStep
      rw [h.left.hasTy, h.right.hasTy]
      exact agree_pure (.bool hm)
    | var => exact InlineAgreement.var h
    | lam hm hb => exact ih.lam h hm hb
    | app hm hf ha => exact ih.app h hm hf ha
    | @letIn _ m m' x x' v v' b b' hm hv hb =>
      cases hl : v.isTypedLet with
      | true =>
        obtain ⟨loc, t, y, w, c, rfl⟩ := isTypedLet_eq_true hl
        cases hv with
        | letIn hn hw hc =>
          obtain ⟨loc', t', rfl⟩ := hn.exists_right
          exact ih.rotate h hm hw hc hb
      | false => exact ih.letIn h hv hb hl
    | letRec hm hv hb => exact ih.letRec h hm hv hb
    | binary hm hl hr => exact ih.binary h hm hl hr
    | cond hm hc ha hb => exact ih.cond h hm hc ha hb

theorem Alike.inlineIn_agree {depth : Nat} {s s' : NameSupply} (h : Inlinable env e s)
    (h' : Inlinable env' e' s') (he : e.Alike (Mark.Alike ρ) P e')
    (henv : InlineEnv.Alike ρ P Q env env') :
    Agree BothTooDeep (fun r _ r' _ => r.Alike (Mark.Alike ρ) Q r') (inlineIn depth e env) s
      (inlineIn depth e' env') s' :=
  inlineAgreement ρ depth ⟨h, h', he, henv⟩

end Expr
end LetLower
