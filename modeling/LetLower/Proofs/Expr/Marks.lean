import LetLower.Expr.Annotated
import LetLower.Proofs.Expr.Rename

/-!
# What the nodes carry

Trees that differ in what their nodes carry have the same names. Taking the types away from a tree
leaves one that differs in nothing else. An annotated tree has a type at its root, can be renamed,
and stays annotated.
-/

namespace LetLower.Expr

def IsUntyped (e : Expr) : Prop := ∀ m ∈ e.marks, m.ty = none

instance (e : Expr) : Decidable e.IsUntyped :=
  inferInstanceAs (Decidable (∀ m ∈ e.marks, m.ty = none))

def untyped (e : Expr) : Expr := e.mapMark fun m => { m with ty := none }

theorem mapMark_mapMark (f g : Mark → Mark) (e : Expr) :
    (e.mapMark f).mapMark g = e.mapMark fun m => g (f m) := by
  induction e <;> simp_all only [mapMark]

theorem mark_mapMark (f : Mark → Mark) (e : Expr) : (e.mapMark f).mark = f e.mark := by
  cases e <;> rfl

theorem subtrees_mapMark (f : Mark → Mark) (e : Expr) :
    (e.mapMark f).subtrees = e.subtrees.map (mapMark f) := by
  induction e <;> simp_all only [mapMark, subtrees, List.map_cons, List.map_nil, List.map_append]

theorem marks_mapMark (f : Mark → Mark) (e : Expr) : (e.mapMark f).marks = e.marks.map f := by
  rw [marks, subtrees_mapMark, marks, List.map_map, List.map_map]
  exact List.map_congr_left fun s _ => mark_mapMark f s

theorem untyped_substitute (s : Subst) (e : Expr) : (e.substitute s).untyped = e.untyped :=
  mapMark_mapMark _ _ e

theorem marks_lam (m : Mark) (x : String) (b : Expr) : (lam m x b).marks = m :: b.marks := rfl

theorem marks_app (m : Mark) (f a : Expr) : (app m f a).marks = m :: (f.marks ++ a.marks) := by
  simp only [marks, subtrees, mark, List.map_cons, List.map_append]

theorem marks_letIn (m : Mark) (x : String) (v b : Expr) :
    (letIn m x v b).marks = m :: (v.marks ++ b.marks) := by
  simp only [marks, subtrees, mark, List.map_cons, List.map_append]

theorem marks_letRec (m : Mark) (x : String) (v b : Expr) :
    (letRec m x v b).marks = m :: (v.marks ++ b.marks) := by
  simp only [marks, subtrees, mark, List.map_cons, List.map_append]

theorem marks_binary (m : Mark) (op : Operator) (l r : Expr) :
    (binary m op l r).marks = m :: (l.marks ++ r.marks) := by
  simp only [marks, subtrees, mark, List.map_cons, List.map_append]

theorem marks_cond (m : Mark) (c t e : Expr) :
    (cond m c t e).marks = m :: (c.marks ++ t.marks ++ e.marks) := by
  simp only [marks, subtrees, mark, List.map_cons, List.map_append]

theorem mapMark_congr {f g : Mark → Mark} {e : Expr} (h : ∀ m ∈ e.marks, f m = g m) :
    e.mapMark f = e.mapMark g := by
  induction e with
  | int m _ | bool m _ | var m _ | bare m =>
    rw [mapMark, mapMark, h m List.mem_cons_self]
  | lam m x b ih =>
    rw [marks_lam, List.forall_mem_cons] at h
    rw [mapMark, mapMark, h.1, ih h.2]
  | app m a b iha ihb =>
    rw [marks_app, List.forall_mem_cons, List.forall_mem_append] at h
    rw [mapMark, mapMark, h.1, iha h.2.1, ihb h.2.2]
  | letIn m x a b iha ihb =>
    rw [marks_letIn, List.forall_mem_cons, List.forall_mem_append] at h
    rw [mapMark, mapMark, h.1, iha h.2.1, ihb h.2.2]
  | letRec m x a b iha ihb =>
    rw [marks_letRec, List.forall_mem_cons, List.forall_mem_append] at h
    rw [mapMark, mapMark, h.1, iha h.2.1, ihb h.2.2]
  | binary m op a b iha ihb =>
    rw [marks_binary, List.forall_mem_cons, List.forall_mem_append] at h
    rw [mapMark, mapMark, h.1, iha h.2.1, ihb h.2.2]
  | cond m a b c iha ihb ihc =>
    rw [marks_cond, List.forall_mem_cons, List.forall_mem_append, List.forall_mem_append] at h
    rw [mapMark, mapMark, h.1, iha h.2.1.1, ihb h.2.1.2, ihc h.2.2]

theorem mapMark_id (e : Expr) : e.mapMark id = e := by
  induction e <;> simp_all only [mapMark, id]

theorem mapMark_eq_self {f : Mark → Mark} {e : Expr} (h : ∀ m ∈ e.marks, f m = m) :
    e.mapMark f = e :=
  (mapMark_congr h).trans (mapMark_id e)

theorem IsUntyped.untyped_eq {e : Expr} (h : e.IsUntyped) : e.untyped = e :=
  mapMark_eq_self fun m hm => by rw [← h m hm]

/-- From an annotated tree, `strip` takes every type. -/
theorem strip_of_isAnnotated {e : Expr} (h : e.isAnnotated) : e.strip = e.untyped := by
  unfold untyped
  induction e with
  | int | bool | var => rfl
  | bare => cases h
  | lam m x b ih =>
    simp only [isAnnotated, Bool.and_eq_true] at h
    rw [strip, if_pos h.1, mapMark, ih h.2]
  | app m a b iha ihb | letIn m x a b iha ihb | letRec m x a b iha ihb
  | binary m op a b iha ihb =>
    simp only [isAnnotated, Bool.and_eq_true] at h
    rw [strip, if_pos h.1.1, mapMark, iha h.1.2, ihb h.2]
  | cond m a b c iha ihb ihc =>
    simp only [isAnnotated, Bool.and_eq_true] at h
    rw [strip, if_pos h.1.1.1, mapMark, iha h.1.1.2, ihb h.1.2, ihc h.2]

theorem names_mapMark (f : Mark → Mark) (e : Expr) : (e.mapMark f).names = e.names := by
  induction e <;> simp_all only [mapMark, names]

theorem HasPlainNames.congr {e e' : Expr} (h : e.HasPlainNames) (he : e'.untyped = e.untyped) :
    e'.HasPlainNames := by
  have hn : e'.names = e.names :=
    calc e'.names = e'.untyped.names := (names_mapMark _ e').symm
      _ = e.untyped.names := by rw [he]
      _ = e.names := names_mapMark _ e
  intro x hx
  exact h x (hn ▸ hx)

theorem untyped_strip (e : Expr) : e.strip.untyped = e.untyped := by
  unfold untyped
  induction e with
  | int | bool | var | bare => rfl
  | lam m x b ih =>
    rw [strip]
    split
    · simp only [mapMark, ih]
    · rfl
  | app m a b iha ihb | letIn m x a b iha ihb | letRec m x a b iha ihb
  | binary m op a b iha ihb =>
    rw [strip]
    split
    · simp only [mapMark, iha, ihb]
    · rfl
  | cond m a b c iha ihb ihc =>
    rw [strip]
    split
    · simp only [mapMark, iha, ihb, ihc]
    · rfl

theorem isAnnotated_rename {x y : String} {e : Expr} (h : e.isAnnotated) :
    (e.rename x y).isAnnotated := by
  induction e generalizing y with
  | int | bool => exact h
  | bare => cases h
  | var => rwa [rename_var]
  | lam m z b ih =>
    simp only [rename_lam, isAnnotated, Bool.and_eq_true] at h ⊢
    exact ⟨h.1, ih h.2⟩
  | app m a b iha ihb | binary m op a b iha ihb =>
    simp only [rename, isAnnotated, Bool.and_eq_true] at h ⊢
    exact ⟨⟨h.1.1, iha h.1.2⟩, ihb h.2⟩
  | letIn m z a b iha ihb =>
    simp only [rename_letIn, isAnnotated, Bool.and_eq_true] at h ⊢
    exact ⟨⟨h.1.1, iha h.1.2⟩, ihb h.2⟩
  | letRec m z a b iha ihb =>
    simp only [rename_letRec, isAnnotated, Bool.and_eq_true] at h ⊢
    exact ⟨⟨h.1.1, iha h.1.2⟩, ihb h.2⟩
  | cond m a b c iha ihb ihc =>
    simp only [rename, isAnnotated, Bool.and_eq_true] at h ⊢
    exact ⟨⟨⟨h.1.1.1, iha h.1.1.2⟩, ihb h.1.2⟩, ihc h.2⟩

theorem isKnown_of_isAnnotated {e : Expr} (h : e.isAnnotated) : e.isKnown := by
  induction e with
  | int | bool | var => rfl
  | bare => cases h
  | lam m z b ih =>
    simp only [isAnnotated, Bool.and_eq_true] at h
    exact ih h.2
  | app m a b iha ihb | letIn m z a b iha ihb | letRec m z a b iha ihb
  | binary m op a b iha ihb =>
    simp only [isAnnotated, isKnown, Bool.and_eq_true] at h ⊢
    exact ⟨iha h.1.2, ihb h.2⟩
  | cond m a b c iha ihb ihc =>
    simp only [isAnnotated, isKnown, Bool.and_eq_true] at h ⊢
    exact ⟨⟨iha h.1.1.2, ihb h.1.2⟩, ihc h.2⟩

theorem hasTy_of_isAnnotated {e : Expr} (h : e.isAnnotated) : e.hasTy := by
  cases e with
  | int | bool | var => exact h
  | bare => cases h
  | lam | app | letIn | letRec | binary | cond =>
    simp only [isAnnotated, Bool.and_eq_true, and_assoc] at h
    exact h.1

theorem exists_getTy {e : Expr} (h : e.hasTy) : ∃ t, e.getTy = .ok t := by
  cases e with
  | bare => cases h
  | int | bool | var | lam | app | letIn | letRec | binary | cond =>
    obtain ⟨t, ht⟩ := Option.isSome_iff_exists.1 h
    refine ⟨t, ?_⟩
    unfold getTy
    rw [ht]

theorem ty?_of_getTy {e : Expr} {t : Ty} (h : e.getTy = .ok t) : e.ty? = some t := by
  unfold getTy at h
  split at h
  · cases h
  · cases h
  · rename_i ht
    rw [ht, Except.ok.inj h]

theorem rename?_eq {x y : String} {e : Expr} (h : e.isAnnotated) :
    e.rename? x y = .ok (e.rename x y) :=
  if_pos (isAnnotatedFor_of_isAnnotated h)

end LetLower.Expr
