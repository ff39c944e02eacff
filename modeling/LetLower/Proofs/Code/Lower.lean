import LetLower.Code.Lower
import LetLower.Expr.Normal
import LetLower.Proofs.Bindings
import LetLower.Proofs.Pass

/-!
# Lowering as rules

`Lowers slot e layout scope n layout'` says that `n` is the code for `e` where the names in scope
have the slots there, and that it takes the row of slots from the one layout to the other. There is
one rule for each kind of node that has code.
-/

namespace LetLower

def Layout.count (l : Layout) : Nat := l.params.length + l.locals.length

theorem Layout.count_allocate (l : Layout) (t : SlotType) :
    (l.allocate t).1.count = l.count + 1 := by
  simp only [allocate, count, List.length_append, List.length_singleton, Nat.add_assoc]

namespace Expr

inductive Lowers (slot : SlotType) : Expr → Layout → Scope → Code.Node → Layout → Prop
  | int {m n layout scope} : Lowers slot (.int m n) layout scope (.const n) layout
  | bool {m b layout scope} :
      Lowers slot (.bool m b) layout scope (.const (if b then 1 else 0)) layout
  | var {m x i layout} {scope : Scope} (hx : scope.get? x = some i) :
      Lowers slot (.var m x) layout scope (.get i) layout
  | letIn {m x v b n n' layout layout₁ layout₂ scope} (hv : Lowers slot v layout scope n layout₁)
      (hb : Lowers slot b (layout₁.allocate slot).1 (scope.insert x layout₁.count) n' layout₂) :
      Lowers slot (.letIn m x v b) layout scope (.block [.set layout₁.count n, n'] "") layout₂
  | add {m l r n n' layout layout₁ layout₂ scope} (hl : Lowers slot l layout scope n layout₁)
      (hr : Lowers slot r layout₁ scope n' layout₂) :
      Lowers slot (.binary m .add l r) layout scope (.add n n') layout₂
  | sum {m m' m'' l r n n' layout layout₁ layout₂ scope} (hx : addName ∉ scope)
      (hl : Lowers slot l layout scope n layout₁) (hr : Lowers slot r layout₁ scope n' layout₂) :
      Lowers slot (.app m (.app m' (.var m'' addName) l) r) layout scope (.add n n') layout₂

/-- What has no code can be named in the report, unless part of it is no known expression. -/
theorem exists_unsupportedConstruct {e : Expr} (h : e.isKnown) :
    ∃ d, Diagnostic.unsupportedConstruct e = .ok d ∧ d.kind = .unsupportedConstruct := by
  have hs : e.source? = .ok e.source := if_pos h
  rw [Diagnostic.unsupportedConstruct, hs]
  exact ⟨_, rfl, rfl⟩

theorem not_unsupported_ok {e : Expr} {r : Code.Node × Layout} {s s' : PassState} :
    unsupported e s ≠ .ok r s' := by
  intro h
  obtain ⟨d, t, _, h⟩ := Pass.bind_ok.1 h
  exact Pass.not_fail_ok h

theorem lowers_of_lowerIn {slot : SlotType} {e : Expr} {layout layout' : Layout} {scope : Scope}
    {n : Code.Node} {s s' : PassState}
    (h : e.lowerIn slot layout scope s = .ok (n, layout') s') :
    Lowers slot e layout scope n layout' := by
  fun_induction lowerIn slot e layout scope generalizing n layout' s s' with
  | case1 =>
    obtain ⟨hr, _⟩ := Pass.pure_ok.1 h
    cases hr
    exact .int
  | case2 =>
    obtain ⟨hr, _⟩ := Pass.pure_ok.1 h
    cases hr
    exact .bool
  | case3 loc t x layout scope i hx =>
    obtain ⟨hr, _⟩ := Pass.pure_ok.1 h
    cases hr
    exact .var hx
  | case4 => exact absurd h Pass.not_fail_ok
  | case5 loc t x v b layout scope ihv ihb =>
    obtain ⟨⟨nv, layout₁⟩, s₁, hv, h⟩ := Pass.bind_ok.1 h
    obtain ⟨_, s₂, _, h⟩ := Pass.bind_ok.1 h
    obtain ⟨⟨nb, layout₂⟩, s₃, hb, h⟩ := Pass.bind_ok.1 h
    obtain ⟨hr, _⟩ := Pass.pure_ok.1 h
    cases hr
    exact .letIn (ihv hv) (ihb _ _ hb)
  | case6 loc t l r layout scope ihl ihr =>
    obtain ⟨⟨nl, layout₁⟩, s₁, hl₁, h⟩ := Pass.bind_ok.1 h
    obtain ⟨⟨nr, layout₂⟩, s₂, hr₁, h⟩ := Pass.bind_ok.1 h
    obtain ⟨hr, _⟩ := Pass.pure_ok.1 h
    cases hr
    exact .add (ihl hl₁) (ihr _ hr₁)
  | case7 loc t loc' t' loc'' t'' x l r layout scope hx ihl ihr =>
    obtain ⟨rfl, hx⟩ := hx
    obtain ⟨⟨nl, layout₁⟩, s₁, hl₁, h⟩ := Pass.bind_ok.1 h
    obtain ⟨⟨nr, layout₂⟩, s₂, hr₁, h⟩ := Pass.bind_ok.1 h
    obtain ⟨hr, _⟩ := Pass.pure_ok.1 h
    cases hr
    exact .sum hx (ihl hl₁) (ihr _ hr₁)
  | case8 => exact absurd h not_unsupported_ok
  | case9 => exact absurd h not_unsupported_ok

/-- Lowering adds locals of the one type, and nothing else. -/
theorem Lowers.layout {slot : SlotType} {e : Expr} {layout layout' : Layout} {scope : Scope}
    {n : Code.Node} (h : Lowers slot e layout scope n layout') :
    layout'.params = layout.params ∧
      ∃ k, layout'.locals = layout.locals ++ List.replicate k slot := by
  induction h with
  | int | bool | var => exact ⟨rfl, 0, (List.append_nil _).symm⟩
  | letIn _ _ ihv ihb =>
    obtain ⟨hp, j, hj⟩ := ihv
    obtain ⟨hp', k, hk⟩ := ihb
    refine ⟨hp'.trans hp, j + (1 + k), ?_⟩
    rw [hk, Layout.allocate, hj, List.append_assoc, List.append_assoc,
      List.replicate_append_replicate.symm, List.replicate_append_replicate.symm]
    rfl
  | add _ _ ihl ihr | sum _ _ _ ihl ihr =>
    obtain ⟨hp, j, hj⟩ := ihl
    obtain ⟨hp', k, hk⟩ := ihr
    refine ⟨hp'.trans hp, j + k, ?_⟩
    rw [hk, hj, List.append_assoc, List.replicate_append_replicate]

theorem Lowers.count_le {slot : SlotType} {e : Expr} {layout layout' : Layout} {scope : Scope}
    {n : Code.Node} (h : Lowers slot e layout scope n layout') : layout.count ≤ layout'.count := by
  obtain ⟨hp, k, hk⟩ := h.layout
  simp only [Layout.count, hp, hk, List.length_append]
  omega

/-- What is lowered of a program: the body of a function of one parameter, or all of it. -/
inductive Entry (slot : SlotType) : Expr → Layout → Scope → Expr → Prop
  | function {m x b} : Entry slot (.lam m x b) { params := [slot] } (.single x 0) b
  | value {e} (he : e.isLam = false) : Entry slot e {} ∅ e

theorem entry_ok {slot : SlotType} {e body : Expr} {layout : Layout} {scope : Scope}
    {s s' : PassState} (h : e.entry slot s = .ok (layout, scope, body) s') :
    Entry slot e layout scope body := by
  unfold entry at h
  split at h
  · obtain ⟨_, _, _, h⟩ := Pass.bind_ok.1 h
    obtain ⟨h, rfl⟩ := Pass.pure_ok.1 h
    cases h
    exact .function
  · rename_i hlam
    obtain ⟨t, _, ht, h⟩ := Pass.bind_ok.1 h
    obtain ⟨_, _, _, h⟩ := Pass.bind_ok.1 h
    obtain ⟨h, rfl⟩ := Pass.pure_ok.1 h
    obtain ⟨ht, _⟩ := Pass.orFault_ok.1 ht
    cases h
    refine .value ?_
    cases e with
    | lam m x b =>
      obtain ⟨loc, ty⟩ := m
      cases ty with
      | none => cases ht
      | some t => exact absurd rfl (hlam loc t x b)
    | _ => rfl

theorem entry_of_not_isLam {slot : SlotType} {e : Expr} (h : e.isLam = false) :
    e.entry slot = (do
      let t ← Pass.orFault e.getTy
      let _ ← Pass.unify t .int e.loc
      return ({}, ∅, e)) := by
  cases e with
  | lam => cases h
  | int | bool | var | app | letIn | letRec | binary | cond | bare => rfl

def entryFunction (slot : SlotType) (name : String) (exported : Bool) (layout : Layout)
    (n : Code.Node) : Code.Function where
  name := name
  params := layout.params
  returnType := slot
  locals := layout.locals
  body := .block [n] ""
  exported := exported

theorem lower_ok {slot : SlotType} {name : String} {exported : Bool} {e : Expr} {m : Code.Module}
    {s s' : PassState} (h : e.lower slot name exported s = .ok m s') :
    ∃ layout scope body n layout', Entry slot e layout scope body ∧
      Lowers slot body layout scope n layout' ∧
      m = { name := name, functions := [entryFunction slot name exported layout' n] } := by
  obtain ⟨⟨layout, scope, body⟩, _, he, h⟩ := Pass.bind_ok.1 h
  obtain ⟨⟨n, layout'⟩, _, hn, h⟩ := Pass.bind_ok.1 h
  obtain ⟨_, _, _, h⟩ := Pass.bind_ok.1 h
  obtain ⟨rfl, _⟩ := Pass.pure_ok.1 h
  exact ⟨layout, scope, body, n, layout', entry_ok he, lowers_of_lowerIn hn, rfl⟩

end Expr
end LetLower
