import LetLower.Proofs.Expr.Marks
import LetLower.Proofs.Pass
import LetLower.Proofs.Ty.Compose

/-!
# Substitutions act on types and trees

Substitutions without quantified parts are closed under composition, which is associative and has
the empty one for its neutral element. A composition acts as its members do, the oldest first, on
types and on annotated trees alike.
-/

namespace LetLower

namespace Expr

/-- No type in the tree has a quantified part. -/
def IsUnquantified (e : Expr) : Prop := ∀ m ∈ e.marks, ∀ t ∈ m.ty, t.IsUnquantified

instance (e : Expr) : Decidable e.IsUnquantified :=
  inferInstanceAs (Decidable (∀ m ∈ e.marks, ∀ t ∈ m.ty, t.IsUnquantified))

theorem isAnnotated_substitute {s : Subst} {e : Expr} (h : e.isAnnotated) :
    (e.substitute s).isAnnotated := by
  unfold substitute
  induction e with
  | int | bool | var => simpa only [mapMark, isAnnotated, Option.isSome_map] using h
  | bare => cases h
  | lam m x b ih =>
    simp only [mapMark, isAnnotated, Option.isSome_map, Bool.and_eq_true] at h ⊢
    exact ⟨h.1, ih h.2⟩
  | app m a b iha ihb | letIn m x a b iha ihb | letRec m x a b iha ihb
  | binary m op a b iha ihb =>
    simp only [mapMark, isAnnotated, Option.isSome_map, Bool.and_eq_true] at h ⊢
    exact ⟨⟨h.1.1, iha h.1.2⟩, ihb h.2⟩
  | cond m a b c iha ihb ihc =>
    simp only [mapMark, isAnnotated, Option.isSome_map, Bool.and_eq_true] at h ⊢
    exact ⟨⟨⟨h.1.1.1, iha h.1.1.2⟩, ihb h.1.2⟩, ihc h.2⟩

theorem substitute_empty (e : Expr) : e.substitute ∅ = e := by
  refine mapMark_eq_self fun m _ => ?_
  cases m with
  | mk loc ty => cases ty <;> simp

theorem substitute_compose {newer older : Subst} {e : Expr} (h : e.IsUnquantified) :
    e.substitute (Subst.compose newer older) = (e.substitute older).substitute newer := by
  unfold substitute
  rw [mapMark_mapMark]
  refine mapMark_congr fun m hm => ?_
  cases ht : m.ty with
  | none => rfl
  | some t => simp only [Option.map_some, Ty.apply_compose (h m hm t ht)]

theorem substitute?_eq {s : Subst} {e : Expr} (h : e.isAnnotated) :
    e.substitute? s = .ok (e.substitute s) :=
  if_pos h

theorem foldlM_substitute? (ss : List Subst) {e : Expr} (h : e.isAnnotated) :
    ss.foldlM (fun e s => e.substitute? s) e = .ok (ss.foldl (fun e s => e.substitute s) e) := by
  induction ss generalizing e with
  | nil => rfl
  | cons s ss ih =>
    rw [List.foldlM_cons, substitute?_eq h, List.foldl_cons]
    exact ih (isAnnotated_substitute h)

end Expr

/-- The laws of a monoid, and of its action on types and on trees. Keys, types and the order of
insertion are equal where two substitutions are. -/
theorem Subst.compose_acts {a b c : Subst} (ha : a.IsUnquantified) (hb : b.IsUnquantified)
    (hc : c.IsUnquantified) {t : Ty} (ht : t.IsUnquantified) {e : Expr} (he : e.isAnnotated)
    (hq : e.IsUnquantified) (ss : List Subst) (names : NameSupply) :
    ((Pass.compose a b).run names).1 = .ok (compose a b) ∧ (compose a b).IsUnquantified ∧
      compose ∅ a = a ∧ compose a ∅ = a ∧
      compose a (compose b c) = compose (compose a b) c ∧
      t.apply (compose a b) = (t.apply b).apply a ∧
      (∃ e₁ e₂, e.substitute? b = .ok e₁ ∧ e₁.substitute? a = .ok e₂ ∧
        e.substitute? (compose a b) = .ok e₂) ∧
      ∃ u e', ((Pass.composeAll ss).run names).1 = .ok u ∧
        t.apply u = ss.foldl (fun t s => t.apply s) t ∧
        ss.foldlM (fun e s => e.substitute? s) e = .ok e' ∧ e.substitute? u = .ok e' := by
  have hty : t.apply (composeAll ss) = ss.foldl (fun t s => t.apply s) t :=
    act_composeAll (fun (t : Ty) s => t.apply s) (fun _ _ => Ty.apply_compose ht)
      (Ty.apply_empty t) ss
  have htree : e.substitute (composeAll ss) = ss.foldl (fun e s => e.substitute s) e :=
    act_composeAll (fun (e : Expr) s => e.substitute s) (fun _ _ => Expr.substitute_compose hq)
      (Expr.substitute_empty e) ss
  refine ⟨(Pass.gives_compose a b names).run_ok, ha.compose hb, empty_compose a, compose_empty a,
    compose_assoc hc, Ty.apply_compose ht, ?_, ?_⟩
  · refine ⟨_, _, Expr.substitute?_eq he,
      Expr.substitute?_eq (Expr.isAnnotated_substitute he), ?_⟩
    rw [Expr.substitute?_eq he, Expr.substitute_compose hq]
  · refine ⟨_, _, (Pass.gives_composeAll ss names).run_ok, hty,
      Expr.foldlM_substitute? ss he, ?_⟩
    rw [Expr.substitute?_eq he, htree]

/-- Two variables that are swapped, a variable that two members replace, and one that is put in
and replaced. -/
theorem Subst.compose_acts_overlapping :
    let swap : Subst := ⟨[("a", .var "b"), ("b", .var "a")], by decide⟩
    let grow : Subst := ⟨[("b", .fn (.var "a") (.var "b"))], by decide⟩
    let drop : Subst := ⟨[("c", .var "b"), ("a", .int)], by decide⟩
    let t : Ty := .fn (.var "b") (.var "c")
    let e : Expr := .lam { ty := some (.fn (.var "c") (.var "c")) } "x"
      (.var { ty := some (.var "c") } "x")
    swap.IsUnquantified ∧ grow.IsUnquantified ∧ drop.IsUnquantified ∧ t.IsUnquantified ∧
      e.isAnnotated ∧ e.IsUnquantified ∧
      compose swap (compose grow drop) = compose (compose swap grow) drop ∧
      t.apply (compose swap grow) = (t.apply grow).apply swap ∧
      t.apply (compose swap grow) ≠ (t.apply swap).apply grow ∧
      ∃ u e', ((Pass.composeAll [drop, grow, swap]).run {}).1 = .ok u ∧
        t.apply u = ((t.apply drop).apply grow).apply swap ∧ e.substitute? u = .ok e' := by
  intro swap grow drop t e
  have hs : swap.IsUnquantified := by decide
  have hg : grow.IsUnquantified := by decide
  have hd : drop.IsUnquantified := by decide
  have ht : t.IsUnquantified := by decide
  have he : e.isAnnotated := by decide
  have hq : e.IsUnquantified := by decide
  obtain ⟨_, _, _, _, hassoc, hty, _, u, e', hu, htu, _, heu⟩ :=
    compose_acts hs hg hd ht he hq [drop, grow, swap] {}
  exact ⟨hs, hg, hd, ht, he, hq, hassoc, hty, by decide, u, e', hu, htu, heu⟩

end LetLower
