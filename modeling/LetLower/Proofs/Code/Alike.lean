import LetLower.Proofs.Code.Lower
import LetLower.Proofs.Infer.Alike

/-!
# Lowering up to names

Names are looked up in a scope and leave no trace in the code, so trees that differ in names are
lowered to the same code, or reported as the same kind of mistake. What a name without a slot means
is decided by its spelling; such names correspond to themselves.
-/

namespace LetLower

open LetLower.Expr Pass

/-- Names that correspond have the same slot, or none, and are then equal. -/
def Scope.Alike (N : String → String → Prop) (scope scope' : Scope) : Prop :=
  ∀ x y, N x y → scope.get? x = scope'.get? y ∧ (x ∉ scope → x = y)

namespace Scope

variable {N : String → String → Prop} {scope scope' : Scope}

theorem alike_empty : Scope.Alike Eq ∅ ∅ := fun _ _ h => ⟨by rw [h], fun _ => h⟩

theorem Alike.insert (h : scope.Alike N scope') (x y : String) (i : Nat) :
    Scope.Alike (Under N x y) (scope.insert x i) (scope'.insert y i) := by
  rintro u v (⟨rfl, rfl⟩ | ⟨hu, hv, huv⟩)
  · rw [Bindings.get?_insert, Bindings.get?_insert, if_pos rfl, if_pos rfl]
    exact ⟨rfl, fun hn => absurd (Bindings.mem_insert.2 (.inl rfl)) hn⟩
  · rw [Bindings.get?_insert, Bindings.get?_insert, if_neg hu, if_neg hv]
    exact ⟨(h u v huv).1, fun hn => (h u v huv).2 fun hm => hn (Bindings.mem_insert.2 (.inr hm))⟩

theorem Alike.mem_iff (h : scope.Alike N scope') {x y : String} (hxy : N x y) :
    x ∈ scope ↔ y ∈ scope' := by
  rw [Bindings.mem_iff_get?, Bindings.mem_iff_get?, (h x y hxy).1]

theorem Alike.isSum_iff (h : scope.Alike N scope') {x y : String} (hxy : N x y) :
    x = addName ∧ x ∉ scope ↔ y = addName ∧ y ∉ scope' := by
  rw [← h.mem_iff hxy]
  exact and_congr_left fun hn => by rw [(h x y hxy).2 hn]

end Scope

namespace Expr

variable {ρ N : String → String → Prop} {e e' : Expr}

theorem unsupported_agree {R : Code.Node × Layout → NameSupply → Code.Node × Layout →
      NameSupply → Prop} (h : e.isKnown) (h' : e'.isKnown) (s s' : NameSupply) :
    Agree Failure.SameKind R (unsupported e) s (unsupported e') s' := by
  obtain ⟨d, hd, hk⟩ := exists_unsupportedConstruct h
  obtain ⟨d', hd', hk'⟩ := exists_unsupportedConstruct h'
  rw [unsupported, unsupported, hd, hd']
  refine (gives_pure d s).bind_agree (gives_pure d' s') (agree_fail ?_)
  exact ⟨d, d', rfl, rfl, hk.trans hk'.symm⟩

theorem sum_agree {slot : SlotType} {layout : Layout} {scope scope' : Scope} {l l' r r' : Expr}
    (hl : ∀ s s', Agree Failure.SameKind (fun p _ p' _ => p = p') (l.lowerIn slot layout scope) s
      (l'.lowerIn slot layout scope') s')
    (hr : ∀ layout s s', Agree Failure.SameKind (fun p _ p' _ => p = p')
      (r.lowerIn slot layout scope) s (r'.lowerIn slot layout scope') s')
    (s s' : NameSupply) :
    Agree Failure.SameKind (fun p _ p' _ => p = p')
      (do
        let (left, layout) ← l.lowerIn slot layout scope
        let (right, layout) ← r.lowerIn slot layout scope
        return (Code.Node.add left right, layout)) s
      (do
        let (left, layout) ← l'.lowerIn slot layout scope'
        let (right, layout) ← r'.lowerIn slot layout scope'
        return (Code.Node.add left right, layout)) s' := by
  refine (hl s s').bind ?_
  rintro ⟨n, layout₁⟩ s₁ _ s₁' _ _ rfl
  refine (hr layout₁ s₁ s₁').bind ?_
  rintro ⟨n', layout₂⟩ s₂ _ s₂' _ _ rfl
  exact agree_pure rfl

/-- Whether a tree has code shows in the kinds of its first nodes, which trees that are alike
share. -/
theorem Alike.lowerIn_eq_unsupported {slot : SlotType} {layout : Layout} {scope' : Scope}
    (he : e.Alike (Mark.Alike ρ) N e') (hint : ∀ loc t n, e = .int ⟨loc, some t⟩ n → False)
    (hbool : ∀ loc t b, e = .bool ⟨loc, some t⟩ b → False)
    (hvar : ∀ loc t x, e = .var ⟨loc, some t⟩ x → False)
    (hlet : ∀ loc t x v b, e = .letIn ⟨loc, some t⟩ x v b → False)
    (hadd : ∀ loc t l r, e = .binary ⟨loc, some t⟩ .add l r → False)
    (hsum : ∀ loc t loc' t' loc'' t'' x l r, e = .app ⟨loc, some t⟩ (.app ⟨loc', some t'⟩
      (.var ⟨loc'', some t''⟩ x) l) r → False) :
    e'.lowerIn slot layout scope' = unsupported e' := by
  cases he with
  | int hm =>
    obtain ⟨_, _, rfl⟩ := hm.exists_left
    exact (hint _ _ _ rfl).elim
  | bool hm =>
    obtain ⟨_, _, rfl⟩ := hm.exists_left
    exact (hbool _ _ _ rfl).elim
  | var hm =>
    obtain ⟨_, _, rfl⟩ := hm.exists_left
    exact (hvar _ _ _ rfl).elim
  | letIn hm =>
    obtain ⟨_, _, rfl⟩ := hm.exists_left
    exact (hlet _ _ _ _ _ rfl).elim
  | @binary _ _ _ op _ _ _ _ hm =>
    obtain ⟨_, _, rfl⟩ := hm.exists_left
    obtain ⟨_, _, rfl⟩ := hm.exists_right
    cases op with
    | add => exact (hadd _ _ _ _ rfl).elim
    | sub | less => rfl
  | app hm hf =>
    obtain ⟨_, _, rfl⟩ := hm.exists_left
    obtain ⟨_, _, rfl⟩ := hm.exists_right
    cases hf with
    | app hn hg =>
      obtain ⟨_, _, rfl⟩ := hn.exists_left
      obtain ⟨_, _, rfl⟩ := hn.exists_right
      cases hg with
      | var hv =>
        obtain ⟨_, _, rfl⟩ := hv.exists_left
        exact (hsum _ _ _ _ _ _ _ _ _ rfl).elim
      | int | bool | lam | app | letIn | letRec | binary | cond => rfl
    | int | bool | var | lam | letIn | letRec | binary | cond => rfl
  | lam | letRec | cond => rfl

theorem Alike.lowerIn_agree {slot : SlotType} {layout : Layout} {scope scope' : Scope}
    (he : e.Alike (Mark.Alike ρ) N e') (hscope : scope.Alike N scope') (s s' : NameSupply) :
    Agree Failure.SameKind (fun p _ p' _ => p = p') (e.lowerIn slot layout scope) s
      (e'.lowerIn slot layout scope') s' := by
  have hknown := he.isKnown
  have hknown' := he.symm.isKnown
  fun_induction lowerIn slot e layout scope generalizing N e' scope' s s' with
  | case1 loc t n layout scope =>
    cases he with
    | @int _ _ m' _ hm =>
      obtain ⟨loc', t', rfl⟩ := hm.exists_right
      exact agree_pure rfl
  | case2 loc t b layout scope =>
    cases he with
    | @bool _ _ m' _ hm =>
      obtain ⟨loc', t', rfl⟩ := hm.exists_right
      exact agree_pure rfl
  | case3 loc t x layout scope i hx =>
    cases he with
    | @var _ _ m' _ y hm hxy =>
      obtain ⟨loc', t', rfl⟩ := hm.exists_right
      rw [lowerIn, ← (hscope x y hxy).1, hx]
      exact agree_pure rfl
  | case4 loc t x layout scope hx =>
    cases he with
    | @var _ _ m' _ y hm hxy =>
      obtain ⟨loc', t', rfl⟩ := hm.exists_right
      rw [lowerIn, ← (hscope x y hxy).1, hx]
      exact agree_fail ⟨_, _, rfl, rfl, rfl⟩
  | case5 loc t x v b layout scope ihv ihb =>
    cases he with
    | @letIn _ _ m' _ y _ v' _ b' hm hv hb =>
      obtain ⟨loc', t', rfl⟩ := hm.exists_right
      rw [lowerIn]
      refine (ihv hv hscope s s' hv.isKnown hv.symm.isKnown).bind ?_
      rintro ⟨n, layout₁⟩ s₁ _ s₁' _ _ rfl
      refine (gives_note _ _).bind_agree (gives_note _ _) ?_
      refine (ihb _ _ hb (hscope.insert x y _) s₁ s₁' hb.isKnown hb.symm.isKnown).bind ?_
      rintro ⟨n', layout₂⟩ s₂ _ s₂' _ _ rfl
      exact agree_pure rfl
  | case6 loc t l r layout scope ihl ihr =>
    cases he with
    | @binary _ _ m' _ _ _ l' r' hm hl hr =>
      obtain ⟨loc', t', rfl⟩ := hm.exists_right
      exact sum_agree (fun t t' => ihl hl hscope t t' hl.isKnown hl.symm.isKnown)
        (fun _ t t' => ihr _ hr hscope t t' hr.isKnown hr.symm.isKnown) s s'
  | case7 loc t loc' t' loc'' t'' x l r layout scope hx ihl ihr =>
    cases he with | app hm hf hr =>
    cases hf with | app hn hg hl =>
    cases hg with | @var _ _ _ _ y hv hxy =>
    obtain ⟨_, _, rfl⟩ := hm.exists_right
    obtain ⟨_, _, rfl⟩ := hn.exists_right
    obtain ⟨_, _, rfl⟩ := hv.exists_right
    rw [lowerIn, if_pos ((hscope.isSum_iff hxy).1 hx)]
    exact sum_agree (fun t t' => ihl hl hscope t t' hl.isKnown hl.symm.isKnown)
      (fun _ t t' => ihr _ hr hscope t t' hr.isKnown hr.symm.isKnown) s s'
  | case8 loc t loc' t' loc'' t'' x l r layout scope hx =>
    cases he with | app hm hf hr =>
    cases hf with | app hn hg hl =>
    cases hg with | @var _ _ _ _ y hv hxy =>
    obtain ⟨_, _, rfl⟩ := hm.exists_right
    obtain ⟨_, _, rfl⟩ := hn.exists_right
    obtain ⟨_, _, rfl⟩ := hv.exists_right
    rw [lowerIn, if_neg fun hy => hx ((hscope.isSum_iff hxy).2 hy)]
    exact unsupported_agree hknown hknown' s s'
  | case9 e layout scope hint hbool hvar hlet hadd hsum =>
    rw [he.lowerIn_eq_unsupported hint hbool hvar hlet hadd hsum]
    exact unsupported_agree hknown hknown' s s'

theorem Alike.entry_agree {slot : SlotType} (hρ : Relator.BiUnique ρ)
    (he : e.Alike (Mark.Alike ρ) Eq e') (s s' : NameSupply) :
    Agree Failure.SameKind (fun p _ p' _ => p.1 = p'.1 ∧ ∃ N, p.2.1.Alike N p'.2.1 ∧
      p.2.2.Alike (Mark.Alike ρ) N p'.2.2) (e.entry slot) s (e'.entry slot) s' := by
  cases hl : e.isLam with
  | true =>
    cases he with
    | @lam _ m m' x y b b' hm hb =>
      obtain ⟨loc, ty⟩ := m
      obtain ⟨loc', ty'⟩ := m'
      obtain ⟨t, t', ht, ht', htt⟩ := hm
      obtain rfl : ty = some t := ht
      obtain rfl : ty' = some t' := ht'
      rw [entry, entry]
      refine (unify_agree hρ htt (.fn .int .int) loc loc' s s').bind ?_
      rintro u t u' t' _ _ -
      exact agree_pure ⟨rfl, _, Scope.alike_empty.insert x y 0, hb⟩
    | int | bool | var | app | letIn | letRec | binary | cond => cases hl
  | false =>
    have hl' : e'.isLam = false := by
      cases he with
      | lam => cases hl
      | int | bool | var | app | letIn | letRec | binary | cond => rfl
    obtain ⟨t, t', ht, ht', htt⟩ := he.exists_getTy
    rw [entry_of_not_isLam hl, entry_of_not_isLam hl', ht, ht']
    refine (gives_pure t s).bind_agree (gives_pure t' s') ?_
    refine (unify_agree hρ htt .int e.loc e'.loc s s').bind ?_
    rintro u t u' t' _ _ -
    exact agree_pure ⟨rfl, Eq, Scope.alike_empty, he⟩

/-- Programs that differ in names are lowered to one module, or reported as one kind of mistake. -/
theorem Alike.lower_agree {slot : SlotType} {name : String} {exported : Bool}
    (hρ : Relator.BiUnique ρ) (he : e.Alike (Mark.Alike ρ) Eq e') (s s' : NameSupply) :
    Agree Failure.SameKind (fun m _ m' _ => m = m') (e.lower slot name exported) s
      (e'.lower slot name exported) s' := by
  rw [lower, lower]
  refine (he.entry_agree hρ s s').bind ?_
  rintro ⟨layout, scope, body⟩ t ⟨_, scope', body'⟩ t' _ _ ⟨rfl, N, hscope, hbody⟩
  refine (hbody.lowerIn_agree hscope t t').bind ?_
  rintro ⟨n, layout₁⟩ t₁ _ t₁' _ _ rfl
  exact (gives_note _ _).bind_agree (gives_note _ _) (agree_pure rfl)

end Expr
end LetLower
