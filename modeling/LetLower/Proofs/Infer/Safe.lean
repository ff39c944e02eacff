import LetLower.Proofs.Expr.Everywhere
import LetLower.Proofs.Expr.Parts
import LetLower.Proofs.Log
import LetLower.Proofs.Reports
import LetLower.Proofs.Unification
import LetLower.Proofs.Unification.Termination
import Mathlib.Logic.Relation

/-!
# Inference does not fault

Schemes stay in environments. Everything that goes from one part of a run to the next is plain: the
types, what is put in for variables, and the bodies of schemes. So each problem that comes up can be
solved or is a mistake in the program, and a mistake is reported at a node of the tree: a name at
the place of the name, a mismatch at that of an operand or of the node that it is an operand of.
-/

namespace LetLower

open LetLower.Expr

/-- A node with a type is marked with a plain one. -/
def Expr.MarksPlain (e : Expr) : Prop := ∀ t, e.ty? = some t → t.IsPlain

structure Inferred.IsPlain (r : Inferred) : Prop where
  tree : r.tree.Everywhere MarksPlain
  ty : r.ty.IsPlain
  subst : r.subst.IsPlain

/-- The mistakes of typing that an expression can have in an environment. -/
inductive Expr.Mistake (e : Expr) (env : TyEnv) : Diagnostic → Prop
  | undefined {m : Mark} {x : String} (hmem : .var m x ∈ e.subtrees) (hfree : x ∈ e.free)
      (hx : x ∉ env) : Mistake e env (.undefinedVariable x m.loc)
  | mismatch {d : Diagnostic} (hkind : d.kind = .typeMismatch ∨ d.kind = .infiniteType)
      (hloc : ∃ n ∈ e.subtrees, n.loc = d.loc) : Mistake e env d

namespace Pass

variable {α β : Type} {P : α → Prop} {Q : β → Prop} {E E' : Diagnostic → Prop} {x : Pass α}
  {f : α → Pass β}

def LogsPlain (s : PassState) : Prop := ∀ e ∈ s.log, e.event.IsPlain

/-- The run has ended in a value of one kind or in a mistake of another, and not in a fault. -/
def EndsIn (P : α → Prop) (E : Diagnostic → Prop) : EStateM.Result Failure PassState α → Prop
  | .ok a s => P a ∧ LogsPlain s
  | .error f s => (∃ d, f = .diagnostic d ∧ E d) ∧ LogsPlain s

/-- The pass ends so on every log of plain types. -/
def Safe (x : Pass α) (P : α → Prop) (E : Diagnostic → Prop) : Prop :=
  ∀ s, LogsPlain s → EndsIn P E (x s)

theorem safe_pure {a : α} (h : P a) : (pure a : Pass α).Safe P E := fun _ hs => ⟨h, hs⟩

theorem safe_report {d : Diagnostic} (h : E d) : (report d : Pass α).Safe P E :=
  fun _ hs => ⟨⟨d, rfl, h⟩, hs⟩

theorem Safe.mistake (h : x.Safe P E) (hE : ∀ d, E d → E' d) : x.Safe P E' := by
  intro s hs
  have hx := h s hs
  cases hr : x s with
  | ok a t =>
    rw [hr] at hx
    exact hx
  | error f t =>
    rw [hr] at hx
    obtain ⟨⟨d, hf, hd⟩, ht⟩ := hx
    exact ⟨⟨d, hf, hE d hd⟩, ht⟩

/-- What follows a step is run on a value of the kind that the step ends in. -/
theorem Safe.bind (hx : x.Safe P E) (hf : ∀ a, P a → (f a).Safe Q E) : (x >>= f).Safe Q E := by
  intro s hs
  have hx := hx s hs
  change EndsIn Q E (EStateM.bind x f s)
  unfold EStateM.bind
  cases hr : x s with
  | ok a t =>
    rw [hr] at hx
    exact hf a hx.1 t hx.2
  | error e t =>
    rw [hr] at hx
    exact hx

theorem safe_note {e : Event} (h : e.IsPlain) : (note e).Safe (fun _ => True) E :=
  fun _ hs => ⟨trivial, List.forall_mem_cons.2 ⟨h, hs⟩⟩

theorem safe_draw {g : NameSupply → α × NameSupply} (h : ∀ s, P (g s).1) : (draw g).Safe P E :=
  fun s hs => ⟨h s.names, hs⟩

theorem safe_freshVar : freshVar.Safe Ty.IsPlain E :=
  (safe_draw (P := fun _ => True) fun _ => trivial).bind fun x _ => safe_pure (Ty.isPlain_var x)

theorem safe_instantiate {c : Scheme} (h : c.body.IsPlain) : (instantiate c).Safe Ty.IsPlain E :=
  safe_draw fun s => h.apply (c.isPlain_freshSubst s)

theorem safe_compose {newer older : Subst} (hn : newer.IsPlain) (ho : older.IsPlain) :
    (compose newer older).Safe Subst.IsPlain E :=
  (safe_note (.composed hn ho)).bind fun _ _ => safe_pure (hn.compose ho)

theorem safe_composeAll {a b c : Subst} (ha : a.IsPlain) (hb : b.IsPlain) (hc : c.IsPlain) :
    (composeAll [a, b, c]).Safe Subst.IsPlain E :=
  (safe_compose ha Subst.isPlain_empty).bind fun _ h => (safe_compose hb h).bind fun _ h =>
    (safe_compose hc h).bind fun _ h => safe_pure h

theorem safe_generalize {env : TyEnv} {t : Ty} (h : t.IsPlain) :
    (generalize env t).Safe (fun c => c.body.IsPlain) E := by
  have hc : (env.generalize t).body.IsPlain := h
  unfold generalize
  dsimp only
  split
  · exact (safe_note (.generalized hc)).bind fun _ _ => safe_pure hc
  · exact safe_pure hc

theorem safe_unify {a b : Ty} (ha : a.IsPlain) (hb : b.IsPlain) {loc : Option Location}
    (hE : ∀ d : Diagnostic, d.kind = .typeMismatch ∨ d.kind = .infiniteType → d.loc = loc → E d) :
    (unify a b loc).Safe (fun u => u.type.IsPlain ∧ u.subst.IsPlain) E := by
  refine (safe_note (.unified ha hb)).bind fun _ _ => ?_
  cases hu : Ty.unify a b with
  | ok u =>
    have hu := Ty.unifies_of_unify ha hb hu
    exact safe_pure ⟨(hu.unsolved ha).isPlain, hu.mostGeneral.isPlain⟩
  | error e =>
    obtain ⟨d, hd, hloc, hkind⟩ := ofUnifyError_of_isMistake (Ty.isMistake_of_unify ha hb hu) loc
    exact fun s hs => ⟨⟨d, hd, hE d hkind hloc⟩, hs⟩

theorem Safe.run (h : x.Safe P E) (names : NameSupply) :
    ((∃ a, (x.run names).1 = .ok a ∧ P a) ∨
      ∃ d, (x.run names).1 = .error (.diagnostic d) ∧ E d) ∧
      ∀ entry ∈ (x.run names).2.2, entry.event.IsPlain := by
  have hx := h { names } fun _ h => absurd h List.not_mem_nil
  unfold Pass.run EStateM.run
  cases hr : x { names } with
  | ok a s =>
    rw [hr] at hx
    exact ⟨.inl ⟨a, rfl, hx.1⟩, fun entry he => hx.2 entry (List.mem_reverse.1 he)⟩
  | error f s =>
    rw [hr] at hx
    obtain ⟨⟨d, rfl, hd⟩, hs⟩ := hx
    exact ⟨.inr ⟨d, rfl, hd⟩, fun entry he => hs entry (List.mem_reverse.1 he)⟩

end Pass

theorem Ty.Calls.isPlain {p q : Ty × Ty} (h : Calls p q) (hp : p.1.IsPlain ∧ p.2.IsPlain) :
    q.1.IsPlain ∧ q.2.IsPlain := by
  cases h with
  | arguments => exact ⟨hp.1.1, hp.2.1⟩
  | results hu =>
    have hs := (Ty.unifies_of_unify hp.1.1 hp.2.1 hu).mostGeneral.isPlain
    exact ⟨hp.1.2.apply hs, hp.2.2.apply hs⟩

theorem Ty.isPlain_of_calls {p q : Ty × Ty} (h : Relation.ReflTransGen Calls p q)
    (hp : p.1.IsPlain ∧ p.2.IsPlain) : q.1.IsPlain ∧ q.2.IsPlain := by
  induction h with
  | refl => exact hp
  | tail _ h ih => exact h.isPlain ih

namespace Expr

open Pass

variable {e e' : Expr} {env env' : TyEnv}

namespace Mistake

variable {d : Diagnostic} {c : Scheme} {S : Subst} {x : String}

theorem outside (h : Mistake e env d) (he : Outside e e') : Mistake e' env d := by
  cases h with
  | undefined hmem hx hn => exact .undefined (he.subtrees hmem) (he.free hx) hn
  | mismatch hkind hloc =>
    obtain ⟨n, hn, hloc⟩ := hloc
    exact .mismatch hkind ⟨n, he.subtrees hn, hloc⟩

/-- A name that is undefined below a binder is another one. -/
theorem inside (h : Mistake e (Bindings.insert env x c) d) (he : Inside x e e') :
    Mistake e' env d := by
  cases h with
  | undefined hmem hy hn =>
    obtain ⟨hne, hn⟩ := not_or.1 fun hor => hn (Bindings.mem_insert.2 hor)
    exact .undefined (he.subtrees hmem) (he.free ⟨hy, hne⟩) hn
  | mismatch hkind hloc =>
    obtain ⟨n, hn, hloc⟩ := hloc
    exact .mismatch hkind ⟨n, he.subtrees hn, hloc⟩

theorem of_apply (h : Mistake e (env.apply S) d) : Mistake e env d := by
  cases h with
  | undefined hmem hx hn => exact .undefined hmem hx fun hm => hn (Bindings.mem_map.2 hm)
  | mismatch hkind hloc => exact .mismatch hkind hloc

theorem whole (hkind : d.kind = .typeMismatch ∨ d.kind = .infiniteType) (hloc : d.loc = e.loc) :
    Mistake e env d :=
  .mismatch hkind ⟨e, mem_subtrees_self e, hloc.symm⟩

/-- An operand is reported at its own place, or at that of the node if it has none. -/
theorem operand (he' : e' ∈ e.subtrees) (hkind : d.kind = .typeMismatch ∨ d.kind = .infiniteType)
    (hloc : d.loc = e'.loc.or e.loc) : Mistake e env d := by
  cases hl : e'.loc with
  | none => exact .whole hkind (by rw [hloc, hl, Option.none_or])
  | some l =>
    refine .mismatch hkind ⟨e', he', ?_⟩
    rw [hloc, hl, Option.some_or]

theorem kind_mem (h : Mistake e env d) : d.kind ∈ typingKinds := by
  cases h with
  | undefined => exact .head _
  | mismatch hkind => rcases hkind with h | h <;> (rw [h]; decide)

theorem exists_loc (h : Mistake e env d) : ∃ n ∈ e.subtrees, n.loc = d.loc := by
  cases h with
  | undefined hmem => exact ⟨_, hmem, rfl⟩
  | mismatch _ hloc => exact hloc

end Mistake

theorem marksPlain_of_ty? {t : Ty} (h : e.ty? = some t) (ht : t.IsPlain) : e.MarksPlain := by
  intro u hu
  rwa [← Option.some.inj (h.symm.trans hu)]

theorem everywhere_marksPlain_substitute {S : Subst} (h : e.Everywhere MarksPlain)
    (hS : S.IsPlain) : (e.substitute S).Everywhere MarksPlain := by
  unfold Everywhere Expr.substitute
  rw [subtrees_mapMark, List.forall_mem_map]
  intro n hn t ht
  rw [ty?, mark_mapMark] at ht
  obtain ⟨u, hu, rfl⟩ := Option.map_eq_some_iff.1 ht
  exact (h n hn u hu).apply hS

/-- In a plain environment an inference gives a plain result or a mistake of the expression. -/
def SafeBy (e : Expr) (run : Inference) : Prop :=
  ∀ ⦃env : TyEnv⦄, env.IsPlain → (run env).Safe Inferred.IsPlain (Mistake e env)

/-! One step for each rule. The environment of a part is that of the whole with what earlier parts
found put in, and with the scheme of a binder: plain again, and with no name less. -/

namespace SafeBy

variable {m : Mark} {x : String} {f a v b l r c y n : Expr}
  {callee argument value body left right condition yes no : Inference}

theorem leaf {t : Ty} {node : Mark → Expr}
    (hnode : (node { m with ty := some t }).subtrees = [node { m with ty := some t }])
    (hty : (node { m with ty := some t }).ty? = some t) (ht : t.IsPlain) :
    (inferLeaf m t node).Safe Inferred.IsPlain (Mistake e env) := by
  refine safe_pure ⟨fun n hn => ?_, ht, Subst.isPlain_empty⟩
  rw [hnode] at hn
  rw [List.mem_singleton.1 hn]
  exact marksPlain_of_ty? hty ht

theorem int (i : Int) : (Expr.int m i).SafeBy fun _ => inferLeaf m .int (Expr.int · i) :=
  fun _ _ => leaf rfl rfl Ty.isPlain_int

theorem bool (i : Bool) : (Expr.bool m i).SafeBy fun _ => inferLeaf m .bool (Expr.bool · i) :=
  fun _ _ => leaf rfl rfl Ty.isPlain_bool

theorem var : (Expr.var m x).SafeBy (inferVar m x) := by
  intro env henv
  rw [inferVar]
  cases hx : env.get? x with
  | none =>
    have hn : x ∉ env := Bindings.get?_eq_none_iff.1 hx
    exact safe_report (.undefined List.mem_cons_self (NameSet.mem_single.2 rfl) hn)
  | some c => exact (safe_instantiate (henv x c hx)).bind fun t ht => leaf rfl rfl ht

theorem lam (hb : b.SafeBy body) : (Expr.lam m x b).SafeBy (inferLam m x body) := by
  intro env henv
  refine safe_freshVar.bind fun a ha => ?_
  have henv' := TyEnv.IsPlain.insert henv (c := .mono a) ha x
  refine ((hb henv').mistake fun d hd => hd.inside .lam).bind fun r hr => ?_
  have ht : (Ty.fn (a.apply r.subst) r.ty).IsPlain := ⟨ha.apply hr.subst, hr.ty⟩
  exact safe_pure ⟨everywhere_lam.2 ⟨marksPlain_of_ty? rfl ht, hr.tree⟩, ht, hr.subst⟩

theorem app (hf : f.SafeBy callee) (ha : a.SafeBy argument) :
    (Expr.app m f a).SafeBy (inferApp TyEnv.apply m callee argument) := by
  intro env henv
  refine ((hf henv).mistake fun d hd => hd.outside .callee).bind fun r hr => ?_
  have henv' := henv.apply hr.subst
  refine ((ha henv').mistake fun d hd => hd.of_apply.outside .argument).bind fun q hq => ?_
  refine safe_freshVar.bind fun t ht => ?_
  have hfn : (Ty.fn q.ty t).IsPlain := ⟨hq.ty, ht⟩
  refine (safe_unify (hr.ty.apply hq.subst) hfn fun d hkind hloc => ?_).bind fun u hu => ?_
  · exact .whole hkind hloc
  refine (safe_composeAll hr.subst hq.subst hu.2).bind fun whole hwhole => ?_
  have ht' := ht.apply hu.2
  exact safe_pure ⟨everywhere_app.2 ⟨marksPlain_of_ty? rfl ht', hr.tree, hq.tree⟩, ht', hwhole⟩

theorem letIn (hv : v.SafeBy value) (hb : b.SafeBy body) :
    (Expr.letIn m x v b).SafeBy (inferLet TyEnv.apply m x value body) := by
  intro env henv
  refine ((hv henv).mistake fun d hd => hd.outside .value).bind fun r hr => ?_
  have henv' := henv.apply hr.subst
  refine (safe_generalize (hr.ty.apply hr.subst)).bind fun c hc => ?_
  refine (safe_note (.bound hc)).bind fun _ _ => ?_
  have hbody := hb (henv'.insert hc x)
  refine (hbody.mistake fun d hd => (hd.inside .letIn).of_apply).bind fun q hq => ?_
  refine (safe_compose hq.subst hr.subst).bind fun whole hwhole => ?_
  exact safe_pure
    ⟨everywhere_letIn.2 ⟨marksPlain_of_ty? rfl hq.ty, hr.tree, hq.tree⟩, hq.ty, hwhole⟩

theorem letRec (hv : v.SafeBy value) (hb : b.SafeBy body) :
    (Expr.letRec m x v b).SafeBy (inferLetRec TyEnv.apply m x value body) := by
  intro env henv
  refine safe_freshVar.bind fun own hown => ?_
  have hvalue := hv (TyEnv.IsPlain.insert henv (c := .mono own) hown x)
  refine (hvalue.mistake fun d hd => hd.inside .recursive).bind fun r hr => ?_
  refine (safe_unify hr.ty (hown.apply hr.subst) fun d hkind hloc => ?_).bind fun u hu => ?_
  · exact .whole hkind hloc
  refine (safe_compose hu.2 hr.subst).bind fun found hfound => ?_
  have henv' := henv.apply hfound
  refine (safe_generalize hu.1).bind fun c hc => (safe_note (.bound hc)).bind fun _ _ => ?_
  have hbody := hb (henv'.insert hc x)
  refine (hbody.mistake fun d hd => (hd.inside .letRec).of_apply).bind fun q hq => ?_
  refine (safe_compose hq.subst hfound).bind fun whole hwhole => ?_
  have htree := everywhere_marksPlain_substitute hr.tree hu.2
  exact safe_pure
    ⟨everywhere_letRec.2 ⟨marksPlain_of_ty? rfl hq.ty, htree, hq.tree⟩, hq.ty, hwhole⟩

theorem binary {op : Operator} (hl : l.SafeBy left) (hr : r.SafeBy right) :
    (Expr.binary m op l r).SafeBy (inferBinary TyEnv.apply m op l.loc r.loc left right) := by
  intro env henv
  have hleft : l ∈ (Expr.binary m op l r).subtrees := Outside.left.subtrees (mem_subtrees_self l)
  have hright : r ∈ (Expr.binary m op l r).subtrees :=
    Outside.right.subtrees (mem_subtrees_self r)
  refine ((hl henv).mistake fun d hd => hd.outside .left).bind fun p hp => ?_
  refine (safe_unify hp.ty Ty.isPlain_int fun d => .operand hleft).bind fun u hu => ?_
  refine (safe_compose hu.2 hp.subst).bind fun found hfound => ?_
  have henv' := henv.apply hfound
  refine ((hr henv').mistake fun d hd => hd.of_apply.outside .right).bind fun q hq => ?_
  refine (safe_unify hq.ty Ty.isPlain_int fun d => .operand hright).bind fun w hw => ?_
  refine (safe_compose hq.subst hfound).bind fun found' hfound' => ?_
  refine (safe_compose hw.2 hfound').bind fun whole hwhole => ?_
  have ht : op.resultTy.IsPlain := by cases op <;> trivial
  exact safe_pure ⟨everywhere_binary.2 ⟨marksPlain_of_ty? rfl ht, hp.tree, hq.tree⟩, ht, hwhole⟩

theorem cond (hc : c.SafeBy condition) (hy : y.SafeBy yes) (hn : n.SafeBy no) :
    (Expr.cond m c y n).SafeBy (inferCond TyEnv.apply m c.loc condition yes no) := by
  intro env henv
  have hmem : c ∈ (Expr.cond m c y n).subtrees := Outside.condition.subtrees (mem_subtrees_self c)
  refine ((hc henv).mistake fun d hd => hd.outside .condition).bind fun p hp => ?_
  refine (safe_unify hp.ty Ty.isPlain_bool fun d => .operand hmem).bind fun u hu => ?_
  refine (safe_compose hu.2 hp.subst).bind fun found hfound => ?_
  have henv' := henv.apply hfound
  refine ((hy henv').mistake fun d hd => hd.of_apply.outside .thenBranch).bind fun q hq => ?_
  refine (safe_compose hq.subst hfound).bind fun found' hfound' => ?_
  have henv'' := henv.apply hfound'
  refine ((hn henv'').mistake fun d hd => hd.of_apply.outside .elseBranch).bind fun r hr => ?_
  refine (safe_compose hr.subst hfound').bind fun both hboth => ?_
  refine (safe_unify (hq.ty.apply hr.subst) hr.ty fun d hkind hloc => ?_).bind fun w hw => ?_
  · exact .whole hkind hloc
  refine (safe_compose hw.2 hboth).bind fun whole hwhole => ?_
  exact safe_pure
    ⟨everywhere_cond.2 ⟨marksPlain_of_ty? rfl hw.1, ⟨hp.tree, hq.tree⟩, hr.tree⟩, hw.1, hwhole⟩

end SafeBy

theorem inferIn_safe {e : Expr} (he : e.isKnown) : e.SafeBy e.inferIn := by
  induction e with
  | int m i => exact .int i
  | bool m i => exact .bool i
  | var => exact .var
  | lam m x b ih => exact .lam (ih he)
  | app m f a ihf iha =>
    obtain ⟨hf, ha⟩ := Bool.and_eq_true_iff.1 he
    exact .app (ihf hf) (iha ha)
  | letIn m x v b ihv ihb =>
    obtain ⟨hv, hb⟩ := Bool.and_eq_true_iff.1 he
    exact .letIn (ihv hv) (ihb hb)
  | letRec m x v b ihv ihb =>
    obtain ⟨hv, hb⟩ := Bool.and_eq_true_iff.1 he
    exact .letRec (ihv hv) (ihb hb)
  | binary m op l r ihl ihr =>
    obtain ⟨hl, hr⟩ := Bool.and_eq_true_iff.1 he
    exact .binary (ihl hl) (ihr hr)
  | cond m c y n ihc ihy ihn =>
    obtain ⟨hcy, hn⟩ := Bool.and_eq_true_iff.1 he
    obtain ⟨hc, hy⟩ := Bool.and_eq_true_iff.1 hcy
    exact .cond (ihc hc) (ihy hy) (ihn hn)
  | bare m => cases he

theorem infer_ends {e : Expr} {env : TyEnv} (he : e.isKnown) (henv : env.IsPlain) :
    (e.infer env).Safe Inferred.IsPlain (Mistake e env) :=
  (inferIn_safe he henv).bind fun _ hr =>
    (safe_note (.inferred hr.ty hr.subst)).bind fun _ _ => safe_pure hr

/-- Inference gives a plain result or reports a mistake of typing, at the place of some node if that
has one. Every problem that it solves, and every one that this leads to, is between plain types,
and its log can be read to the end. -/
theorem infer_safe {e : Expr} {env : TyEnv} (he : e.isKnown) (henv : env.IsPlain)
    (names : NameSupply) :
    ((∃ r, ((e.infer env).run names).1 = .ok r ∧ r.IsPlain) ∨
      ∃ d, ((e.infer env).run names).1 = .error (.diagnostic d) ∧ d.kind ∈ typingKinds ∧
        ∃ n ∈ e.subtrees, n.loc = d.loc) ∧
    (∀ entry ∈ ((e.infer env).run names).2.2, ∀ p, entry.event = .unified p.1 p.2 →
      ∀ q, Relation.ReflTransGen Ty.Calls p q → q.1.IsPlain ∧ q.2.IsPlain) ∧
    ∀ level, (Log.read level ((e.infer env).run names).2.2).2 = none := by
  obtain ⟨hend, hlog⟩ := (infer_ends he henv).run names
  refine ⟨hend.imp_right ?_, fun entry hentry p hp q hq => ?_, Log.read_of_isPlain hlog⟩
  · rintro ⟨d, hd, hmistake⟩
    exact ⟨d, hd, hmistake.kind_mem, hmistake.exists_loc⟩
  · have hplain := hlog entry hentry
    rw [hp] at hplain
    cases hplain with
    | unified ha hb => exact Ty.isPlain_of_calls hq ⟨ha, hb⟩

/-- What `f` returns is open, and so is what its instance `g` returns. That becomes an integer, and
the other operand is reported at its own place. -/
theorem infer_safe_operand :
    let env : TyEnv := .single "f" ⟨.single "a", .fn (.var "a") (.var "b")⟩
    let e : Expr := .letIn {} "g" (.var {} "f") (.binary { loc := some ⟨1, 9, "p"⟩ } .less
      (.app {} (.var {} "g") (.int {} 1)) (.bool { loc := some ⟨1, 15, "p"⟩ } true))
    e.isKnown ∧ env.IsPlain ∧
      (∃ d, ((e.infer env).run {}).1 = .error (.diagnostic d) ∧ d.loc = some ⟨1, 15, "p"⟩ ∧
        d.kind ∈ typingKinds ∧ ∃ n ∈ e.subtrees, n.loc = d.loc) ∧
      (Log.read .debug ((e.infer env).run {}).2.2).2 = none := by
  intro env e
  have he : e.isKnown := by decide
  have henv : env.IsPlain := TyEnv.isPlain_single (by decide)
  obtain ⟨d, hloc, hd⟩ : ∃ d : Diagnostic, d.loc = some ⟨1, 15, "p"⟩ ∧
      ((e.infer env).run {}).1 = .error (.diagnostic d) := ⟨_, rfl, by cbv⟩
  obtain ⟨⟨r, hr, _⟩ | ⟨d', hd', hkind, hnode⟩, _, hlog⟩ := infer_safe he henv {}
  · rw [hd] at hr
    cases hr
  · rw [hd] at hd'
    cases hd'
    exact ⟨he, henv, ⟨d, hd, hloc, hkind, hnode⟩, hlog .debug⟩

end Expr
end LetLower
