import LetLower.Inline.Calls
import LetLower.Proofs.Inline.Run

/-!
# No call of inlining captures a name

The environment of a call is clean and admits its tree. This is so of the first call of a run, and
it passes from a call to those that it makes, whether a binder was renamed for them, something was
put in for its name, or a `let` was taken out of another. What holds of the result follows from it.
-/

namespace LetLower

open Pass

namespace Expr

variable {answer : Inliner} {depth : Nat} {e : Expr} {env : InlineEnv}
  {s : PassState}

theorem inlineStep_letIn {m : Mark} {x : String} {v b : Expr} (he : (letIn m x v b).hasTy)
    (hl : v.isTypedLet = false) :
    inlineStep answer (letIn m x v b) env = inlineLet answer m x v b env := by
  rw [inlineStep, he]
  · rfl
  · rintro loc t y w c rfl
    cases hl

theorem isTypedLet_eq_true (h : e.isTypedLet = true) :
    ∃ loc t y v w, e = letIn ⟨loc, some t⟩ y v w := by
  cases e with
  | letIn m y v w =>
    obtain ⟨t, ht⟩ := Option.isSome_iff_exists.1 h
    obtain ⟨loc, t'⟩ := m
    cases ht
    exact ⟨loc, t, y, v, w, rfl⟩
  | _ => cases h

/-- The answers to the listed calls are all that matters. -/
theorem inlineStep_eq
    (h : ∀ c, InlineCall.Makes ⟨depth + 1, e, env, s⟩ c → answer c.tree c.env c.state = c.run) :
    inlineStep answer e env s = inlineIn (depth + 1) e env s := by
  rw [inlineIn]
  cases hty : e.hasTy with
  | false =>
    unfold inlineStep
    rw [hty]
    rfl
  | true =>
    cases e with
    | int | bool | bare | var => rfl
    | lam m x b =>
      rw [inlineStep, inlineStep, hty]
      refine bind_congr_ok rfl fun inside s₁ hi => bind_congr_ok rfl fun b' s₂ hb => ?_
      exact bind_congr_ok (h _ (.lam hty hi hb)) fun _ _ _ => rfl
    | app m f a =>
      rw [inlineStep, inlineStep, hty]
      refine bind_congr_ok (h _ (.callee hty)) fun f' s₁ hf => ?_
      refine bind_congr_ok (h _ (.argument hty hf)) fun a' s₂ ha => ?_
      cases hx : f'.function? with
      | none => rfl
      | some xb =>
        obtain ⟨x, b⟩ := xb
        refine bind_congr_ok rfl fun _ s₃ hn => bind_congr_ok rfl fun inside s₄ hi => ?_
        exact bind_congr_ok rfl fun b' s₅ hb => h _ (.beta hty hf ha hx hn hi hb)
    | letRec m x v b =>
      rw [inlineStep, inlineStep, hty]
      refine bind_congr_ok rfl fun inside s₁ hi => bind_congr_ok rfl fun v' s₂ hv => ?_
      refine bind_congr_ok rfl fun b' s₃ hb => ?_
      refine bind_congr_ok (h _ (.recValue hty hi hv hb)) fun v'' s₄ hr => ?_
      exact bind_congr_ok (h _ (.recBody hty hi hv hb hr)) fun _ _ _ => rfl
    | letIn m x v b =>
      cases hl : v.isTypedLet with
      | true =>
        obtain ⟨loc, t, y, v, w, rfl⟩ := isTypedLet_eq_true hl
        rw [inlineStep, inlineStep, hty]
        exact bind_congr_ok rfl fun e' s₁ hr => h _ (.rotated hty hr)
      | false =>
        rw [inlineStep_letIn hty hl, inlineStep_letIn hty hl]
        refine bind_congr_ok (h _ (.value hty hl)) fun v' s₁ hv => ?_
        refine bind_congr_ok rfl fun t s₂ ht => ?_
        obtain ⟨ht', rfl⟩ := orFault_ok.1 ht
        cases hf : t.isFunction with
        | true =>
          refine bind_congr_ok rfl fun _ s₂ hn => bind_congr_ok rfl fun inside s₃ hi => ?_
          exact bind_congr_ok rfl fun b' s₄ hb => h _ (.eliminated hty hl hv ht' hf hn hi hb)
        | false =>
          refine bind_congr_ok rfl fun inside s₂ hi => bind_congr_ok rfl fun b' s₃ hb => ?_
          exact bind_congr_ok (h _ (.kept hty hl hv ht' hf hi hb)) fun _ _ _ => rfl
    | binary m op l r =>
      rw [inlineStep, inlineStep, hty]
      refine bind_congr_ok (h _ (.left hty)) fun l' s₁ hl => ?_
      exact bind_congr_ok (h _ (.right hty hl)) fun _ _ _ => rfl
    | cond m c t e =>
      rw [inlineStep, inlineStep, hty]
      refine bind_congr_ok (h _ (.condition hty)) fun c' s₁ hc => ?_
      refine bind_congr_ok (h _ (.yes hty hc)) fun t' s₂ ht => ?_
      exact bind_congr_ok (h _ (.no hty hc ht)) fun _ _ _ => rfl

theorem fill_eq_self (h : ∀ z ∈ e.free, z ∉ env) : e.fill env = e := by
  induction e generalizing env with
  | int | bool | bare => rfl
  | var m x =>
    rw [fill, Bindings.get?_eq_none_iff.2 (h x (NameSet.mem_single.2 rfl)), Option.getD_none]
  | lam m x b ih =>
    rw [fill, ih fun z hz hm => ?_]
    obtain ⟨hx, hm⟩ := Bindings.mem_erase.1 hm
    exact h z (Inside.lam.free ⟨hz, hx⟩) hm
  | app m f a ihf iha =>
    rw [fill, ihf fun z hz => h z (Outside.callee.free hz),
      iha fun z hz => h z (Outside.argument.free hz)]
  | letIn m x v b ihv ihb =>
    rw [fill, ihv fun z hz => h z (Outside.value.free hz), ihb fun z hz hm => ?_]
    obtain ⟨hx, hm⟩ := Bindings.mem_erase.1 hm
    exact h z (Inside.letIn.free ⟨hz, hx⟩) hm
  | letRec m x v b ihv ihb =>
    rw [fill, ihv fun z hz hm => ?_, ihb fun z hz hm => ?_]
    · obtain ⟨hx, hm⟩ := Bindings.mem_erase.1 hm
      exact h z (Inside.letRec.free ⟨hz, hx⟩) hm
    · obtain ⟨hx, hm⟩ := Bindings.mem_erase.1 hm
      exact h z (Inside.recursive.free ⟨hz, hx⟩) hm
  | binary m op l r ihl ihr =>
    rw [fill, ihl fun z hz => h z (Outside.left.free hz),
      ihr fun z hz => h z (Outside.right.free hz)]
  | cond m c t e ihc iht ihe =>
    rw [fill, ihc fun z hz => h z (Outside.condition.free hz),
      iht fun z hz => h z (Outside.thenBranch.free hz),
      ihe fun z hz => h z (Outside.elseBranch.free hz)]

end Expr

open LetLower.Expr

namespace InlineCall

variable {c : InlineCall}

/-- The environment of the call is clean and admits its tree. -/
def IsReady (c : InlineCall) : Prop := c.env.Admits c.tree c.state.names

theorem IsReady.isApart (h : c.IsReady) : c.IsApart where
  values x hx y w hy hw := h.clean.apart y w hy x hw hx
  free _ _ hr := (inlines_of_inlineIn hr h).free
  keys _ _ hr x hx hz := (inlines_of_inlineIn hr h).not_mem_env h.clean x hz hx
  again _ _ hr := fill_eq_self ((inlines_of_inlineIn hr h).not_mem_env h.clean)

theorem runWith_eq {answer : Inliner}
    (h : ∀ c', c.Makes c' → answer c'.tree c'.env c'.state = c'.run) :
    c.runWith answer = c.run := by
  obtain ⟨depth, e, env, s⟩ := c
  cases depth with
  | zero => rfl
  | succ depth => exact inlineStep_eq h

section Scope

variable {env : InlineEnv} {e v v' b b' : Expr} {x : String} {inside : Entered}
  {s s₁ s₂ s₃ : PassState}

theorem admits_kept (he : env.Admits e s.names) (hp : Inside x b e)
    (hi : enter env x none s = .ok inside s₁) (hb : inside.scope b s₁ = .ok b' s₂) :
    inside.env.Admits b' s₂.names := by
  have hin := enter_ok hi (he.name hp)
  obtain ⟨rfl, rfl⟩ := scope_ok hin.renamed hb
  exact he.kept hp hin

theorem admits_put (he : env.Admits e s.names) (hp : Inside x b e)
    (hv : v.Unmarked s.names) (hf : ∀ z ∈ v.free, z ∉ env)
    (hi : enter env x (some v) s = .ok inside s₁) (hb : inside.scope b s₁ = .ok b' s₂) :
    inside.env.Admits b' s₂.names := by
  have hin := enter_ok hi (he.name hp)
  obtain ⟨rfl, rfl⟩ := scope_ok hin.renamed hb
  exact he.put hp hin hv hf

theorem admits_letRec {m : Mark} (he : env.Admits (.letRec m x v b) s.names)
    (hi : enter env x none s = .ok inside s₁) (hv : inside.scope v s₁ = .ok v' s₂)
    (hb : inside.scope b s₂ = .ok b' s₃) :
    inside.env.Admits v' s₃.names ∧ inside.env.Admits b' s₃.names := by
  have hin := enter_ok hi (he.name .letRec)
  obtain ⟨rfl, rfl⟩ := scope_ok hin.renamed hv
  obtain ⟨rfl, rfl⟩ := scope_ok hin.renamed hb
  exact ⟨he.kept .recursive hin, he.kept .letRec hin⟩

end Scope

theorem Makes.isReady {c' : InlineCall} (h : c.Makes c') (hready : c.IsReady) : c'.IsReady := by
  have he : c.env.Admits c.tree c.state.names := hready
  cases h with
  | lam _ hi hb => exact admits_kept he .lam hi hb
  | callee => exact he.outside .callee
  | argument _ hf =>
    have hfr := inlines_of_inlineIn hf (he.outside .callee)
    exact (he.outside .argument).mono hfr.supply
  | beta _ hf ha hx hn hi hb =>
    have hfr := inlines_of_inlineIn hf (he.outside .callee)
    have har := inlines_of_inlineIn ha ((he.outside .argument).mono hfr.supply)
    obtain ⟨fm, rfl, _⟩ := function?_eq_some hx
    have hfun := (hfr.admits he.clean).mono har.supply
    have hput := har.not_mem_env (he.clean.mono hfr.supply)
    rw [← names_of_note hn] at hfun har
    exact admits_put hfun .lam har.unmarked hput hi hb
  | recValue _ hi hv hb => exact (admits_letRec he hi hv hb).1
  | recBody _ hi hv hb hr =>
    obtain ⟨hvalue, hbody⟩ := admits_letRec he hi hv hb
    exact hbody.mono (inlines_of_inlineIn hr hvalue).supply
  | rotated _ hr =>
    obtain ⟨z, rfl, hs, _, hz⟩ := rotate_ok hr
    exact he.rotated hs hz
  | value => exact he.outside .value
  | eliminated _ _ hv _ _ hn hi hb =>
    have hvr := inlines_of_inlineIn hv (he.outside .value)
    have he' := he.mono hvr.supply
    rw [← names_of_note hn] at he' hvr
    exact admits_put he' .letIn hvr.unmarked (hvr.not_mem_env he.clean) hi hb
  | kept _ _ hv _ _ hi hb =>
    have hvr := inlines_of_inlineIn hv (he.outside .value)
    exact admits_kept (he.mono hvr.supply) .letIn hi hb
  | left => exact he.outside .left
  | right _ hl =>
    have hlr := inlines_of_inlineIn hl (he.outside .left)
    exact (he.outside .right).mono hlr.supply
  | condition => exact he.outside .condition
  | yes _ hc =>
    have hcr := inlines_of_inlineIn hc (he.outside .condition)
    exact (he.outside .thenBranch).mono hcr.supply
  | no _ hc ht =>
    have hcr := inlines_of_inlineIn hc (he.outside .condition)
    have htr := inlines_of_inlineIn ht ((he.outside .thenBranch).mono hcr.supply)
    exact (he.outside .elseBranch).mono (hcr.supply.trans htr.supply)

theorem IsReady.of_reaches {c' : InlineCall} (hc : c.IsReady) (h : c.Reaches c') : c'.IsReady := by
  induction h with
  | refl => exact hc
  | tail _ h ih => exact h.isReady ih

end InlineCall

namespace Expr

/-- In a run of its own no call captures a name, and what it returns has no free names but those of
the tree. -/
theorem inlineIn_isApart {e : Expr} (he : e.HasPlainNames) (depth : Nat) (names : NameSupply) :
    (∀ c, (InlineCall.first depth e names).Reaches c →
      c.IsApart ∧ ∀ answer, (∀ c', c.Makes c' → answer c'.tree c'.env c'.state = c'.run) →
        c.runWith answer = c.run) ∧
    ∀ r, ((inlineIn depth e ∅).run names).1 = .ok r → ∀ z ∈ r.free, z ∈ e.free := by
  have hfirst : (InlineCall.first depth e names).IsReady := ⟨.empty _, he.not_marks _⟩
  refine ⟨fun c hc => ?_, fun r hr z hz => ?_⟩
  · exact ⟨(hfirst.of_reaches hc).isApart, fun answer h => InlineCall.runWith_eq h⟩
  · obtain ⟨s, hr⟩ := run_ok.1 hr
    rcases hfirst.isApart.free r s hr z hz with ⟨hz, _⟩ | ⟨y, w, hy, _⟩
    · exact hz
    · rw [InlineCall.first, Bindings.get?_empty] at hy
      cases hy

/-- The parameter of a function gives way to a name that is put into its body. -/
theorem inlineIn_isApart_shadowing :
    let i : Mark := ⟨none, some .int⟩
    let f : Mark := ⟨none, some (.fn .int .int)⟩
    let g : Mark := ⟨none, some (.fn .int (.fn .int .int))⟩
    let difference (x y : String) : Expr := .binary i .sub (.var i x) (.var i y)
    let e : Expr := .app f (.lam g "x" (.lam f "y" (difference "x" "y"))) (.var i "y")
    let d : Expr := .lam f "y$0" (difference "y" "y$0")
    e.HasPlainNames ∧ ((inlineIn 9 e ∅).run {}).1 = .ok d ∧ (∀ z ∈ d.free, z ∈ e.free) ∧
      ∃ c, (InlineCall.first 9 e {}).Reaches c ∧
        c.tree = difference "x" "y$0" ∧ c.env.get? "x" = some (.var i "y") ∧ c.IsApart := by
  intro i f g difference e d
  have he : e.HasPlainNames := by decide
  have hd : ((inlineIn 9 e ∅).run {}).1 = .ok d := rfl
  obtain ⟨hcalls, hfree⟩ := inlineIn_isApart he 9 {}
  obtain ⟨c, hc, htree, henv⟩ :
      ∃ c, (InlineCall.first 9 e {}).Reaches c ∧
        c.tree = difference "x" "y$0" ∧ c.env.get? "x" = some (.var i "y") :=
    ⟨_, .tail (.single (.beta rfl rfl rfl rfl rfl rfl rfl)) (.lam rfl rfl rfl), rfl, rfl⟩
  exact ⟨he, hd, hfree d hd, c, hc, htree, henv, (hcalls c hc).1⟩

end Expr
end LetLower
