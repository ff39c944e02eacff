import LetLower.Expr.Alpha
import LetLower.Proofs.Expr.Marks
import LetLower.Proofs.Expr.Parts

/-!
# Trees up to the names of binders

`Alike μ N e e'` says that the trees have the same shape, that the marks of the nodes are related by
`μ` pair by pair, and that free names correspond by `N`. Below a pair of binders the two names
correspond to each other and to nothing else, so it does not matter which names the binders have.
Renaming a free name to one that does not occur yields an alike tree, and such steps compose.
-/

namespace LetLower

/-- The correspondence of names below a pair of binders. -/
def Under (N : String → String → Prop) (x y u v : String) : Prop :=
  u = x ∧ v = y ∨ u ≠ x ∧ v ≠ y ∧ N u v

theorem under_self (N : String → String → Prop) (x y : String) : Under N x y x y :=
  .inl ⟨rfl, rfl⟩

theorem Under.flip {N : String → String → Prop} {x y u v : String} (h : Under N x y u v) :
    Under (flip N) y x v u :=
  h.imp And.symm fun ⟨hu, hv, h⟩ => ⟨hv, hu, h⟩

namespace Expr

inductive Alike (μ : Mark → Mark → Prop) : (String → String → Prop) → Expr → Expr → Prop
  | int {N m m' n} (hm : μ m m') : Alike μ N (.int m n) (.int m' n)
  | bool {N m m' b} (hm : μ m m') : Alike μ N (.bool m b) (.bool m' b)
  | var {N m m' x y} (hm : μ m m') (hx : N x y) : Alike μ N (.var m x) (.var m' y)
  | lam {N m m' x y b c} (hm : μ m m') (hb : Alike μ (Under N x y) b c) :
      Alike μ N (.lam m x b) (.lam m' y c)
  | app {N m m' f g a b} (hm : μ m m') (hf : Alike μ N f g) (ha : Alike μ N a b) :
      Alike μ N (.app m f a) (.app m' g b)
  | letIn {N m m' x y v w b c} (hm : μ m m') (hv : Alike μ N v w)
      (hb : Alike μ (Under N x y) b c) : Alike μ N (.letIn m x v b) (.letIn m' y w c)
  | letRec {N m m' x y v w b c} (hm : μ m m') (hv : Alike μ (Under N x y) v w)
      (hb : Alike μ (Under N x y) b c) : Alike μ N (.letRec m x v b) (.letRec m' y w c)
  | binary {N m m' op l r l' r'} (hm : μ m m') (hl : Alike μ N l l') (hr : Alike μ N r r') :
      Alike μ N (.binary m op l r) (.binary m' op l' r')
  | cond {N m m' c t e c' t' e'} (hm : μ m m') (hc : Alike μ N c c') (ht : Alike μ N t t')
      (he : Alike μ N e e') : Alike μ N (.cond m c t e) (.cond m' c' t' e')

namespace Alike

variable {μ μ' : Mark → Mark → Prop} {N N' : String → String → Prop} {e e' : Expr}

theorem mark (h : Alike μ N e e') : μ e.mark e'.mark := by
  cases h with
  | int hm | bool hm | var hm | lam hm | app hm | letIn hm | letRec hm | binary hm | cond hm =>
    exact hm

/-- Only what corresponds to the free names matters. -/
theorem congr (h : Alike μ N e e') (hN : ∀ u ∈ e.free, ∀ v ∈ e'.free, N u v → N' u v) :
    Alike μ N' e e' := by
  have below : ∀ {N N' : String → String → Prop} {x y : String} {b c : Expr},
      (∀ u ∈ b.free, u ≠ x → ∀ v ∈ c.free, v ≠ y → N u v → N' u v) →
      ∀ u ∈ b.free, ∀ v ∈ c.free, Under N x y u v → Under N' x y u v :=
    fun h u hu v hv => .imp_right fun ⟨hux, hvy, huv⟩ => ⟨hux, hvy, h u hu hux v hv hvy huv⟩
  induction h generalizing N' with
  | int hm => exact .int hm
  | bool hm => exact .bool hm
  | var hm hx => exact .var hm (hN _ (NameSet.mem_single.2 rfl) _ (NameSet.mem_single.2 rfl) hx)
  | lam hm _ ih =>
    simp only [free, NameSet.mem_erase, and_imp] at hN
    exact .lam hm (ih (below hN))
  | app hm _ _ ihf iha =>
    simp only [free, NameSet.mem_union] at hN
    exact .app hm (ihf fun u hu v hv => hN u (.inl hu) v (.inl hv))
      (iha fun u hu v hv => hN u (.inr hu) v (.inr hv))
  | letIn hm _ _ ihv ihb =>
    simp only [free, NameSet.mem_union, NameSet.mem_erase] at hN
    exact .letIn hm (ihv fun u hu v hv => hN u (.inl hu) v (.inl hv))
      (ihb (below fun u hu hx v hv hy => hN u (.inr ⟨hu, hx⟩) v (.inr ⟨hv, hy⟩)))
  | letRec hm _ _ ihv ihb =>
    simp only [free, NameSet.mem_union, NameSet.mem_erase] at hN
    exact .letRec hm
      (ihv (below fun u hu hx v hv hy => hN u ⟨.inl hu, hx⟩ v ⟨.inl hv, hy⟩))
      (ihb (below fun u hu hx v hv hy => hN u ⟨.inr hu, hx⟩ v ⟨.inr hv, hy⟩))
  | binary hm _ _ ihl ihr =>
    simp only [free, NameSet.mem_union] at hN
    exact .binary hm (ihl fun u hu v hv => hN u (.inl hu) v (.inl hv))
      (ihr fun u hu v hv => hN u (.inr hu) v (.inr hv))
  | cond hm _ _ _ ihc iht ihe =>
    simp only [free, NameSet.mem_union] at hN
    exact .cond hm (ihc fun u hu v hv => hN u (.inl (.inl hu)) v (.inl (.inl hv)))
      (iht fun u hu v hv => hN u (.inl (.inr hu)) v (.inl (.inr hv)))
      (ihe fun u hu v hv => hN u (.inr hu) v (.inr hv))

theorem mono (h : Alike μ N e e') (hN : ∀ u v, N u v → N' u v) : Alike μ N' e e' :=
  h.congr fun u _ v _ => hN u v

theorem symm (h : Alike μ N e e') : Alike (flip μ) (flip N) e' e := by
  induction h with
  | int hm => exact .int hm
  | bool hm => exact .bool hm
  | var hm hx => exact .var hm hx
  | lam hm _ ih => exact .lam hm (ih.mono fun _ _ => .flip)
  | app hm _ _ ihf iha => exact .app hm ihf iha
  | letIn hm _ _ ihv ihb => exact .letIn hm ihv (ihb.mono fun _ _ => .flip)
  | letRec hm _ _ ihv ihb =>
    exact .letRec hm (ihv.mono fun _ _ => .flip) (ihb.mono fun _ _ => .flip)
  | binary hm _ _ ihl ihr => exact .binary hm ihl ihr
  | cond hm _ _ _ ihc iht ihe => exact .cond hm ihc iht ihe

theorem mapMark (h : Alike μ N e e') {f g : Mark → Mark}
    (hf : ∀ m m', μ m m' → μ' (f m) (g m')) : Alike μ' N (e.mapMark f) (e'.mapMark g) := by
  induction h with
  | int hm => exact .int (hf _ _ hm)
  | bool hm => exact .bool (hf _ _ hm)
  | var hm hx => exact .var (hf _ _ hm) hx
  | lam hm _ ih => exact .lam (hf _ _ hm) ih
  | app hm _ _ ihf iha => exact .app (hf _ _ hm) ihf iha
  | letIn hm _ _ ihv ihb => exact .letIn (hf _ _ hm) ihv ihb
  | letRec hm _ _ ihv ihb => exact .letRec (hf _ _ hm) ihv ihb
  | binary hm _ _ ihl ihr => exact .binary (hf _ _ hm) ihl ihr
  | cond hm _ _ _ ihc iht ihe => exact .cond (hf _ _ hm) ihc iht ihe

theorem monoMark (h : Alike μ N e e') (hμ : ∀ m m', μ m m' → μ' m m') : Alike μ' N e e' := by
  have hm := h.mapMark (f := id) (g := id) hμ
  rwa [mapMark_id, mapMark_id] at hm

theorem exists_mem_free (h : Alike μ N e e') {u : String} (hu : u ∈ e.free) :
    ∃ v ∈ e'.free, N u v := by
  have below : ∀ {N : String → String → Prop} {x y : String} {c : Expr}, u ≠ x →
      (∃ v ∈ c.free, Under N x y u v) → ∃ v, (v ∈ c.free ∧ v ≠ y) ∧ N u v := by
    rintro N x y c hux ⟨v, hv, ⟨h, _⟩ | ⟨_, hvy, huv⟩⟩
    · exact absurd h hux
    · exact ⟨v, ⟨hv, hvy⟩, huv⟩
  induction h with
  | int | bool => exact absurd hu (NameSet.not_mem_empty u)
  | var _ hx =>
    rw [NameSet.mem_single.1 hu]
    exact ⟨_, NameSet.mem_single.2 rfl, hx⟩
  | lam _ _ ih =>
    simp only [free, NameSet.mem_erase] at hu ⊢
    exact below hu.2 (ih hu.1)
  | app _ _ _ iha ihb | binary _ _ _ iha ihb =>
    simp only [free, NameSet.mem_union] at hu ⊢
    rcases hu with hu | hu
    · exact (iha hu).imp fun v h => ⟨.inl h.1, h.2⟩
    · exact (ihb hu).imp fun v h => ⟨.inr h.1, h.2⟩
  | letIn _ _ _ ihv ihb =>
    simp only [free, NameSet.mem_union, NameSet.mem_erase] at hu ⊢
    rcases hu with hu | hu
    · exact (ihv hu).imp fun v h => ⟨.inl h.1, h.2⟩
    · exact (below hu.2 (ihb hu.1)).imp fun v h => ⟨.inr h.1, h.2⟩
  | letRec _ _ _ ihv ihb =>
    simp only [free, NameSet.mem_union, NameSet.mem_erase] at hu ⊢
    rcases hu.1 with h | h
    · exact (below hu.2 (ihv h)).imp fun v h => ⟨⟨.inl h.1.1, h.1.2⟩, h.2⟩
    · exact (below hu.2 (ihb h)).imp fun v h => ⟨⟨.inr h.1.1, h.1.2⟩, h.2⟩
  | cond _ _ _ _ ihc iht ihe =>
    simp only [free, NameSet.mem_union] at hu ⊢
    rcases hu with (hu | hu) | hu
    · exact (ihc hu).imp fun v h => ⟨.inl (.inl h.1), h.2⟩
    · exact (iht hu).imp fun v h => ⟨.inl (.inr h.1), h.2⟩
    · exact (ihe hu).imp fun v h => ⟨.inr h.1, h.2⟩

theorem trans {μ₁ μ₂ : Mark → Mark → Prop} {N₁ N₂ : String → String → Prop} {a b c : Expr}
    (h₁ : Alike μ₁ N₁ a b) (h₂ : Alike μ₂ N₂ b c)
    (hμ : ∀ m m' m'', μ₁ m m' → μ₂ m' m'' → μ m m'') :
    Alike μ (fun u w => ∃ v, N₁ u v ∧ N₂ v w) a c := by
  have below : ∀ {N₁ N₂ : String → String → Prop} {x y z u w : String},
      (∃ v, Under N₁ x y u v ∧ Under N₂ y z v w) →
      Under (fun u w => ∃ v, N₁ u v ∧ N₂ v w) x z u w := by
    rintro N₁ N₂ x y z u w ⟨v, ⟨hu, hv⟩ | ⟨hu, hv, h₁⟩, ⟨hv', hw⟩ | ⟨hv', hw, h₂⟩⟩
    · exact .inl ⟨hu, hw⟩
    · exact absurd hv hv'
    · exact absurd hv' hv
    · exact .inr ⟨hu, hw, v, h₁, h₂⟩
  induction h₁ generalizing N₂ c with
  | int hm =>
    cases h₂ with
    | int hm' => exact .int (hμ _ _ _ hm hm')
  | bool hm =>
    cases h₂ with
    | bool hm' => exact .bool (hμ _ _ _ hm hm')
  | var hm hx =>
    cases h₂ with
    | var hm' hx' => exact .var (hμ _ _ _ hm hm') ⟨_, hx, hx'⟩
  | lam hm _ ih =>
    cases h₂ with
    | lam hm' hb => exact .lam (hμ _ _ _ hm hm') ((ih hb).mono fun _ _ => below)
  | app hm _ _ ihf iha =>
    cases h₂ with
    | app hm' hf ha => exact .app (hμ _ _ _ hm hm') (ihf hf) (iha ha)
  | letIn hm _ _ ihv ihb =>
    cases h₂ with
    | letIn hm' hv hb =>
      exact .letIn (hμ _ _ _ hm hm') (ihv hv) ((ihb hb).mono fun _ _ => below)
  | letRec hm _ _ ihv ihb =>
    cases h₂ with
    | letRec hm' hv hb =>
      exact .letRec (hμ _ _ _ hm hm') ((ihv hv).mono fun _ _ => below)
        ((ihb hb).mono fun _ _ => below)
  | binary hm _ _ ihl ihr =>
    cases h₂ with
    | binary hm' hl hr => exact .binary (hμ _ _ _ hm hm') (ihl hl) (ihr hr)
  | cond hm _ _ _ ihc iht ihe =>
    cases h₂ with
    | cond hm' hc ht he => exact .cond (hμ _ _ _ hm hm') (ihc hc) (iht ht) (ihe he)

end Alike

def renamed (x y z : String) : String := if z = x then y else z

theorem renamed_self (x y : String) : renamed x y x = y := if_pos rfl

theorem renamed_of_ne {x z : String} (y : String) (h : z ≠ x) : renamed x y z = z := if_neg h

theorem under_renamed {x y z u w : String} (hy : y = x ∨ y ≠ z)
    (h : w = renamed x (if z = x then x else y) u) :
    Under (fun u w => w = renamed x y u) z z u w := by
  unfold renamed at h
  by_cases hu : u = z
  · subst hu
    refine .inl ⟨rfl, ?_⟩
    by_cases hx : u = x
    · simpa [hx] using h
    · simpa [hx] using h
  · refine .inr ⟨hu, ?_, ?_⟩
    · grind
    · unfold renamed
      grind

theorem alike_rename {e : Expr} {x y : String} (he : e.isKnown) (hy : y = x ∨ y ∉ e.names) :
    Alike Eq (fun u w => w = renamed x y u) e (e.rename x y) := by
  induction e generalizing y with
  | int => exact .int rfl
  | bool => exact .bool rfl
  | bare => cases he
  | var m z =>
    rw [rename_var]
    exact .var rfl rfl
  | lam m z b ih =>
    rw [rename_lam]
    exact .lam rfl ((ih he (fresh_inside hy .lam)).mono fun u w =>
      under_renamed (fresh_name hy .lam))
  | app m a b iha ihb =>
    simp only [isKnown, Bool.and_eq_true] at he
    exact .app rfl (iha he.1 (fresh_outside hy .callee)) (ihb he.2 (fresh_outside hy .argument))
  | letIn m z a b iha ihb =>
    rw [rename_letIn]
    simp only [isKnown, Bool.and_eq_true] at he
    exact .letIn rfl (iha he.1 (fresh_outside hy .value))
      ((ihb he.2 (fresh_inside hy .letIn)).mono fun u w => under_renamed (fresh_name hy .letIn))
  | letRec m z a b iha ihb =>
    rw [rename_letRec]
    simp only [isKnown, Bool.and_eq_true] at he
    have ha := iha he.1 (fresh_inside hy .recursive)
    have hb := ihb he.2 (fresh_inside hy .letRec)
    exact .letRec rfl (ha.mono fun u w => under_renamed (fresh_name hy .recursive))
      (hb.mono fun u w => under_renamed (fresh_name hy .letRec))
  | binary m op a b iha ihb =>
    simp only [isKnown, Bool.and_eq_true] at he
    exact .binary rfl (iha he.1 (fresh_outside hy .left)) (ihb he.2 (fresh_outside hy .right))
  | cond m a b c iha ihb ihc =>
    simp only [isKnown, Bool.and_eq_true] at he
    exact .cond rfl (iha he.1.1 (fresh_outside hy .condition))
      (ihb he.1.2 (fresh_outside hy .thenBranch)) (ihc he.2 (fresh_outside hy .elseBranch))

namespace Alike

variable {μ : Mark → Mark → Prop} {N N' : String → String → Prop} {e e' : Expr}

theorem isKnown (h : Alike μ N e e') : e.isKnown := by
  induction h with
  | int | bool | var => rfl
  | lam _ _ ih => exact ih
  | app _ _ _ iha ihb | letIn _ _ _ iha ihb | letRec _ _ _ iha ihb | binary _ _ _ iha ihb =>
    simp only [Expr.isKnown, iha, ihb, Bool.and_self]
  | cond _ _ _ _ iha ihb ihc => simp only [Expr.isKnown, iha, ihb, ihc, Bool.and_self]

/-- Both sides may be renamed, as long as the new names correspond where the old ones did. -/
theorem rename (h : Alike μ N e e') {x y x' y' : String} (hy : y = x ∨ y ∉ e.names)
    (hy' : y' = x' ∨ y' ∉ e'.names)
    (hN : ∀ u ∈ e.free, ∀ v ∈ e'.free, N u v → N' (renamed x y u) (renamed x' y' v)) :
    Alike μ N' (e.rename x y) (e'.rename x' y') := by
  have hl := (alike_rename h.isKnown hy).symm
  have hr := alike_rename h.symm.isKnown hy'
  have hfree : Alike μ (fun u v => N u v ∧ u ∈ e.free ∧ v ∈ e'.free) e e' :=
    h.congr fun u hu v hv huv => ⟨huv, hu, hv⟩
  have hmid := hl.trans (μ := μ) hfree fun m m' m'' he hm => by
    rwa [show m' = m from he] at hm
  have hall := hmid.trans (μ := μ) hr fun m m' m'' hm he => he ▸ hm
  refine hall.mono ?_
  rintro _ _ ⟨v, ⟨u, rfl, huv, hu, hv⟩, rfl⟩
  exact hN u hu v hv huv

end Alike

theorem alike_self {e : Expr} (he : e.isKnown) : Alike Eq Eq e e := by
  have h := alike_rename he (.inl (rfl : "" = ""))
  rw [rename_self] at h
  refine h.mono fun u w hw => ?_
  unfold renamed at hw
  split at hw
  · rename_i hu
    exact hu.trans hw.symm
  · exact hw.symm

theorem alike_of_alphaUnder {pairs : List (String × String)} {e e' : Expr} (he : e.isKnown)
    (h : alphaUnder pairs e e') :
    Alike (fun _ _ => True) (fun x y => nameAgrees pairs x y) e e' := by
  have below : ∀ {pairs : List (String × String)} {x y u v : String},
      nameAgrees ((x, y) :: pairs) u v → Under (fun u v => nameAgrees pairs u v) x y u v := by
    intro pairs x y u v h
    rw [nameAgrees] at h
    split at h
    · exact .inl ⟨‹_›, of_decide_eq_true h⟩
    · simp only [Bool.and_eq_true, decide_eq_true_eq] at h
      exact .inr ⟨‹_›, h.1, h.2⟩
  fun_induction alphaUnder pairs e e' with
  | case1 =>
    obtain rfl := of_decide_eq_true h
    exact .int trivial
  | case2 =>
    obtain rfl := of_decide_eq_true h
    exact .bool trivial
  | case3 => exact .var trivial h
  | case4 pairs m x b n y c ih => exact .lam trivial ((ih he h).mono fun _ _ => below)
  | case5 pairs m f a n g b ihf iha =>
    simp only [isKnown, Bool.and_eq_true] at he h
    exact .app trivial (ihf he.1 h.1) (iha he.2 h.2)
  | case6 pairs m x v b n y w c ihv ihb =>
    simp only [isKnown, Bool.and_eq_true] at he h
    exact .letIn trivial (ihv he.1 h.1) ((ihb he.2 h.2).mono fun _ _ => below)
  | case7 pairs m x v b n y w c ihv ihb =>
    simp only [isKnown, Bool.and_eq_true] at he h
    exact .letRec trivial ((ihv he.1 h.1).mono fun _ _ => below)
      ((ihb he.2 h.2).mono fun _ _ => below)
  | case8 pairs m op l r n op' l' r' ihl ihr =>
    simp only [isKnown, Bool.and_eq_true, decide_eq_true_eq] at he h
    obtain ⟨⟨rfl, hl⟩, hr⟩ := h
    exact .binary trivial (ihl he.1 hl) (ihr he.2 hr)
  | case9 pairs m c t e n c' t' e' ihc iht ihe =>
    simp only [isKnown, Bool.and_eq_true] at he h
    exact .cond trivial (ihc he.1.1 h.1.1) (iht he.1.2 h.1.2) (ihe he.2 h.2)
  | case10 => cases he
  | case11 => cases h

/-- Trees that are equal up to the names of binders have the same free names. -/
theorem AlphaEq.alike {e e' : Expr} (h : AlphaEq e e') (he : e.isKnown) :
    Alike (fun _ _ => True) Eq e e' :=
  (alike_of_alphaUnder he h).mono fun _ _ hxy => of_decide_eq_true hxy

end Expr
end LetLower
