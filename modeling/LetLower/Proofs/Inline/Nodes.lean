import LetLower.Proofs.Expr.Everywhere
import LetLower.Proofs.Inline.Rules

/-!
# The nodes of an inlined tree

Inlining makes no nodes of a new kind or with a new type: a shallow property of all nodes of the
tree, and of all that stands for names, holds of all nodes of the result. And it leaves nothing to
do: as long as functions are marked with the types of functions, no function is applied in the
result, none is the value or the body of a `let`, and no value of a `let` is marked with the type of
a function. A `let` that is kept has the type of its body. The induction for each is over the rules.
-/

namespace LetLower

def InlineEnv.Everywhere (P : Expr → Prop) (env : InlineEnv) : Prop :=
  ∀ x w, env.get? x = some w → w.Everywhere P

namespace InlineEnv

variable {P : Expr → Prop} {env : InlineEnv} {v : Expr}

theorem everywhere_empty : InlineEnv.Everywhere P ∅ := fun x w h => by
  rw [Bindings.get?_empty] at h
  cases h

theorem Everywhere.erase (h : env.Everywhere P) (x : String) :
    InlineEnv.Everywhere P (env.erase x) :=
  Bindings.forall_erase h x

theorem Everywhere.insert (h : env.Everywhere P) (hv : v.Everywhere P) (y : String) :
    InlineEnv.Everywhere P (env.insert y v) :=
  Bindings.forall_insert h hv y

end InlineEnv

namespace Expr

variable {P : Expr → Prop} {env : InlineEnv} {m : Mark} {x : String} {v b e r : Expr}

theorem LetOver.everywhere (h : LetOver m x v b r) (hP : Shallow P) (hm : P (letIn m x v b))
    (hv : v.Everywhere P) (hb : b.Everywhere P) : r.Everywhere P := by
  induction h with
  | lam _ _ _ _ _ ih =>
    obtain ⟨hself, hbody⟩ := everywhere_lam.1 hb
    exact everywhere_lam.2
      ⟨hP.lam hself, ih (hP.letIn hm rfl) (hbody.rename fun _ => hP.rename _ _)⟩
  | here _ ht =>
    exact everywhere_letIn.2 ⟨hP.retype hm hb.self (ty?_of_getTy ht), hv, hb⟩

theorem Inlines.everywhere (h : Inlines env e r) (hP : Shallow P) (henv : env.Everywhere P)
    (he : e.Everywhere P) : r.Everywhere P := by
  have hrename : ∀ {b : Expr} {x y : String}, b.Everywhere P → (b.rename x y).Everywhere P :=
    fun hb => hb.rename fun _ => hP.rename _ _
  induction h with
  | int | bool => exact he
  | @var env m x =>
    cases hw : env.get? x with
    | none => exact he
    | some w => exact henv x w hw
  | lam _ _ ih =>
    obtain ⟨hself, hb⟩ := everywhere_lam.1 he
    exact everywhere_lam.2 ⟨hP.lam hself, ih (henv.erase _) (hrename hb)⟩
  | app _ _ _ ihf iha =>
    obtain ⟨hself, hf, ha⟩ := everywhere_app.1 he
    exact everywhere_app.2 ⟨hP.app hself, ihf henv hf, iha henv ha⟩
  | beta _ _ _ _ _ _ ihf iha ihb =>
    obtain ⟨_, hf, ha⟩ := everywhere_app.1 he
    have hb := (everywhere_lam.1 (ihf henv hf)).2
    exact ihb ((henv.erase _).insert (iha henv ha) _) (hrename hb)
  | letRec _ _ _ ihv ihb =>
    obtain ⟨hself, hv, hb⟩ := everywhere_letRec.1 he
    exact everywhere_letRec.2 ⟨hP.letRec hself, ihv (henv.erase _) (hrename hv),
      ihb (henv.erase _) (hrename hb)⟩
  | rotate _ _ ih =>
    obtain ⟨hself, hvalue, hb⟩ := everywhere_letIn.1 he
    obtain ⟨_, hv, hw⟩ := everywhere_letIn.1 hvalue
    exact ih henv (everywhere_letIn.2 ⟨hP.letIn hself rfl, hv,
      everywhere_letIn.2 ⟨hP.letIn hself rfl, hrename hw, hb⟩⟩)
  | eliminate _ _ _ _ _ ihv ihb =>
    obtain ⟨_, hv, hb⟩ := everywhere_letIn.1 he
    exact ihb ((henv.erase _).insert (ihv henv hv) _) (hrename hb)
  | keep _ _ _ _ _ hl ihv ihb =>
    obtain ⟨hself, hv, hb⟩ := everywhere_letIn.1 he
    exact hl.everywhere hP (hP.letIn hself rfl) (ihv henv hv) (ihb (henv.erase _) (hrename hb))
  | binary _ _ ihl ihr =>
    obtain ⟨hself, hl, hr⟩ := everywhere_binary.1 he
    exact everywhere_binary.2 ⟨hP.binary hself, ihl henv hl, ihr henv hr⟩
  | cond _ _ _ ihc iht ihe =>
    obtain ⟨hself, ⟨hc, ht⟩, he⟩ := everywhere_cond.1 he
    exact everywhere_cond.2 ⟨hP.cond hself, ⟨ihc henv hc, iht henv ht⟩, ihe henv he⟩

def MarksFunction (e : Expr) : Prop := e.isLam → ∃ t, e.ty? = some t ∧ t.isFunction

theorem marksFunction_of_isLam (h : e.isLam = false) : e.MarksFunction :=
  fun hl => absurd hl (Bool.eq_false_iff.1 h)

theorem shallow_marksFunction : Shallow MarksFunction where
  var _ := marksFunction_of_isLam rfl
  lam h := h
  app _ := marksFunction_of_isLam rfl
  letIn _ _ := marksFunction_of_isLam rfl
  retype _ _ _ := marksFunction_of_isLam rfl
  letRec _ := marksFunction_of_isLam rfl
  binary _ := marksFunction_of_isLam rfl
  cond _ := marksFunction_of_isLam rfl

theorem shallow_isStraight : Shallow fun e => e.isStraight where
  var h := h
  lam h := h
  app h := h
  letIn h _ := h
  retype h _ _ := h
  letRec h := h
  binary {_ op} _ _ _ _ h := by
    cases op with
    | add => exact h
    | sub | less => cases h
  cond h := h

theorem shallow_not_isOpen : Shallow fun e => e.isOpen = false where
  var h := h
  lam h := h
  app h := h
  letIn h ht := by
    unfold isOpen ty? mark at h ⊢
    rwa [ht]
  retype _ h ht := by
    unfold isOpen at h ⊢
    rwa [ht] at h
  letRec h := h
  binary h := h
  cond h := h

/-- Nothing is left to do at a node, and no function is bound there, going by its type. -/
def IsSettled (e : Expr) : Prop := e.isReducible = false ∧ e.bindsFunction = false

theorem isLam_rename (x y : String) (e : Expr) : (e.rename x y).isLam = e.isLam := by
  cases e with
  | var =>
    rw [rename_var]
    rfl
  | lam =>
    rw [rename_lam]
    rfl
  | letRec =>
    rw [rename_letRec]
    rfl
  | int | bool | app | letIn | binary | cond | bare => rfl

theorem ty?_rename (x y : String) (e : Expr) : (e.rename x y).ty? = e.ty? := by
  cases e with
  | var =>
    rw [rename_var]
    rfl
  | lam =>
    rw [rename_lam]
    rfl
  | letRec =>
    rw [rename_letRec]
    rfl
  | int | bool | app | letIn | binary | cond | bare => rfl

theorem IsSettled.rename (h : e.IsSettled) (x y : String) : (e.rename x y).IsSettled := by
  cases e with
  | var =>
    rw [rename_var]
    exact ⟨rfl, rfl⟩
  | lam =>
    rw [rename_lam]
    exact ⟨rfl, rfl⟩
  | letRec =>
    rw [rename_letRec]
    exact ⟨rfl, rfl⟩
  | app m f a =>
    refine ⟨?_, rfl⟩
    change (f.rename x y).isLam = false
    rw [isLam_rename]
    exact h.1
  | letIn m z v b =>
    rw [rename_letIn]
    refine ⟨?_, ?_⟩
    · change ((v.rename x y).isLam || (b.rename x _).isLam) = false
      rw [isLam_rename, isLam_rename]
      exact h.1
    · change (v.rename x y).ty?.any Ty.isFunction = false
      rw [ty?_rename]
      exact h.2
  | int | bool | binary | cond | bare => exact ⟨rfl, rfl⟩

def MarksBody : Expr → Prop
  | letIn m _ _ b => m.ty = b.ty?
  | _ => True

/-- Nothing is left to do, and each `let` goes by the type of its body. -/
structure IsFinished (e : Expr) : Prop where
  settled : e.IsSettled
  marksBody : e.MarksBody

theorem IsFinished.rename (h : e.IsFinished) (x y : String) : (e.rename x y).IsFinished := by
  refine ⟨h.settled.rename x y, ?_⟩
  cases e with
  | var =>
    rw [rename_var]
    trivial
  | lam =>
    rw [rename_lam]
    trivial
  | letRec =>
    rw [rename_letRec]
    trivial
  | letIn m z v b =>
    rw [rename_letIn]
    exact h.marksBody.trans (ty?_rename x _ b).symm
  | int | bool | app | binary | cond | bare => trivial

theorem isLam_of_getTy {t : Ty} (hv : v.MarksFunction) (ht : v.getTy = .ok t)
    (hf : t.isFunction = false) : v.isLam = false := by
  cases hl : v.isLam with
  | false => rfl
  | true =>
    obtain ⟨u, hu, huf⟩ := hv hl
    rw [ty?_of_getTy ht] at hu
    rw [Option.some.inj hu, huf] at hf
    cases hf

theorem LetOver.finished (h : LetOver m x v b r) (hlet : v.isLam = false)
    (hdata : v.ty?.any Ty.isFunction = false) (hv : v.Everywhere IsFinished)
    (hb : b.Everywhere IsFinished) : r.Everywhere IsFinished := by
  induction h with
  | lam _ _ _ _ _ ih =>
    have hbody := (everywhere_lam.1 hb).2
    exact everywhere_lam.2 ⟨⟨⟨rfl, rfl⟩, trivial⟩, ih (hbody.rename fun _ h => h.rename _ _)⟩
  | here hlam ht =>
    refine everywhere_letIn.2 ⟨⟨⟨?_, hdata⟩, (ty?_of_getTy ht).symm⟩, hv, hb⟩
    change (v.isLam || Expr.isLam _) = false
    rw [hlet, hlam]
    rfl

theorem Inlines.finished (h : Inlines env e r) (henv : env.Everywhere IsFinished)
    (henv' : env.Everywhere MarksFunction) (he : e.Everywhere MarksFunction) :
    r.Everywhere IsFinished := by
  have hrename : ∀ {b : Expr} {x y : String}, b.Everywhere MarksFunction →
      (b.rename x y).Everywhere MarksFunction :=
    fun hb => hb.rename fun _ => shallow_marksFunction.rename _ _
  induction h with
  | int | bool => exact List.forall_mem_singleton.2 ⟨⟨rfl, rfl⟩, trivial⟩
  | @var env m x =>
    cases hw : env.get? x with
    | none => exact List.forall_mem_singleton.2 ⟨⟨rfl, rfl⟩, trivial⟩
    | some w => exact henv x w hw
  | lam _ _ ih =>
    have hb := (everywhere_lam.1 he).2
    exact everywhere_lam.2 ⟨⟨⟨rfl, rfl⟩, trivial⟩, ih (henv.erase _) (henv'.erase _) (hrename hb)⟩
  | @app _ _ _ f' _ _ hf _ hn ihf iha =>
    obtain ⟨_, hfm, ha⟩ := everywhere_app.1 he
    have hmarks := (hf.everywhere shallow_marksFunction henv' hfm).self
    refine everywhere_app.2 ⟨⟨⟨?_, rfl⟩, trivial⟩, ihf henv henv' hfm, iha henv henv' ha⟩
    change f'.isLam = false
    cases f' with
    | lam fm y b =>
      obtain ⟨t, ht, _⟩ := hmarks rfl
      have hsome : fm.ty.isSome := Option.isSome_iff_exists.2 ⟨t, ht⟩
      rw [function?, if_pos hsome] at hn
      cases hn
    | int | bool | var | app | letIn | letRec | binary | cond | bare => rfl
  | beta hf ha _ _ _ _ ihf iha ihb =>
    obtain ⟨_, hfm, ham⟩ := everywhere_app.1 he
    have hb := (everywhere_lam.1 (hf.everywhere shallow_marksFunction henv' hfm)).2
    have ha' := ha.everywhere shallow_marksFunction henv' ham
    exact ihb ((henv.erase _).insert (iha henv henv' ham) _) ((henv'.erase _).insert ha' _)
      (hrename hb)
  | letRec _ _ _ ihv ihb =>
    obtain ⟨_, hv, hb⟩ := everywhere_letRec.1 he
    exact everywhere_letRec.2 ⟨⟨⟨rfl, rfl⟩, trivial⟩,
      ihv (henv.erase _) (henv'.erase _) (hrename hv),
      ihb (henv.erase _) (henv'.erase _) (hrename hb)⟩
  | rotate _ _ ih =>
    obtain ⟨_, hvalue, hb⟩ := everywhere_letIn.1 he
    obtain ⟨_, hv, hw⟩ := everywhere_letIn.1 hvalue
    exact ih henv henv' (everywhere_letIn.2 ⟨marksFunction_of_isLam rfl, hv,
      everywhere_letIn.2 ⟨marksFunction_of_isLam rfl, hrename hw, hb⟩⟩)
  | eliminate hv _ _ _ _ ihv ihb =>
    obtain ⟨_, hvm, hb⟩ := everywhere_letIn.1 he
    have hv' := hv.everywhere shallow_marksFunction henv' hvm
    exact ihb ((henv.erase _).insert (ihv henv henv' hvm) _) ((henv'.erase _).insert hv' _)
      (hrename hb)
  | keep hv ht hf _ _ hl ihv ihb =>
    obtain ⟨_, hvm, hb⟩ := everywhere_letIn.1 he
    have hmarks := (hv.everywhere shallow_marksFunction henv' hvm).self
    refine hl.finished (isLam_of_getTy hmarks ht hf) ?_ (ihv henv henv' hvm)
      (ihb (henv.erase _) (henv'.erase _) (hrename hb))
    rw [ty?_of_getTy ht]
    exact hf
  | binary _ _ ihl ihr =>
    obtain ⟨_, hl, hr⟩ := everywhere_binary.1 he
    exact everywhere_binary.2 ⟨⟨⟨rfl, rfl⟩, trivial⟩, ihl henv henv' hl, ihr henv henv' hr⟩
  | cond _ _ _ ihc iht ihe =>
    obtain ⟨_, ⟨hc, ht⟩, he⟩ := everywhere_cond.1 he
    exact everywhere_cond.2
      ⟨⟨⟨rfl, rfl⟩, trivial⟩, ⟨ihc henv henv' hc, iht henv henv' ht⟩, ihe henv henv' he⟩

end Expr
end LetLower
