import LetLower.Expr.Rename
import LetLower.Expr.Subtrees

/-!
# Renaming a free name

Renaming a name to itself changes nothing, and a renamed tree mentions no name besides those of the
tree and the new one.
-/

namespace LetLower.Expr

theorem rename_self (x : String) (e : Expr) : e.rename x x = e := by
  induction e with
  | int | bool | bare => rfl
  | var m z =>
    rw [rename]
    split
    · rename_i hz
      rw [hz]
    · rfl
  | lam m z b ih => rw [rename, ih, ite_self]
  | app m f a ihf iha => rw [rename, ihf, iha]
  | letIn m z v b ihv ihb => rw [rename, ihv, ihb, ite_self]
  | letRec m z v b ihv ihb => rw [rename, ihv, ihb, ite_self]
  | binary m op l r ihl ihr => rw [rename, ihl, ihr]
  | cond m c t e ihc iht ihe => rw [rename, ihc, iht, ihe]

theorem rename_var (x y : String) (m : Mark) (z : String) :
    (var m z).rename x y = var m (if z = x then y else z) := by
  rw [rename]
  split <;> rfl

theorem rename_lam (x y : String) (m : Mark) (z : String) (b : Expr) :
    (lam m z b).rename x y = lam m z (b.rename x (if z = x then x else y)) := by
  rw [rename]
  split
  · rw [rename_self]
  · rfl

theorem rename_letIn (x y : String) (m : Mark) (z : String) (v b : Expr) :
    (letIn m z v b).rename x y =
      letIn m z (v.rename x y) (b.rename x (if z = x then x else y)) := by
  rw [rename]
  split
  · rw [rename_self]
  · rfl

theorem rename_letRec (x y : String) (m : Mark) (z : String) (v b : Expr) :
    (letRec m z v b).rename x y = letRec m z (v.rename x (if z = x then x else y))
      (b.rename x (if z = x then x else y)) := by
  rw [rename]
  split
  · rw [rename_self, rename_self]
  · rfl

theorem mem_names_rename {x y z : String} {e : Expr} (h : z ∈ (e.rename x y).names) :
    z ∈ e.names ∨ z = y := by
  induction e with
  | int | bool | bare => exact .inl h
  | var m w =>
    rw [rename] at h
    split at h
    · exact .inr (List.mem_singleton.1 h)
    · exact .inl h
  | lam m w b ih =>
    rw [rename] at h
    split at h
    · exact .inl h
    · rcases List.mem_cons.1 h with rfl | h
      · exact .inl List.mem_cons_self
      · exact (ih h).imp_left (List.mem_cons_of_mem _)
  | app m a b iha ihb | binary m op a b iha ihb =>
    simp only [rename, names, List.mem_append] at h ⊢
    rcases h with h | h
    · exact (iha h).imp_left .inl
    · exact (ihb h).imp_left .inr
  | letIn m w a b iha ihb =>
    simp only [rename, names, List.mem_cons, List.mem_append] at h ⊢
    rcases h with h | h | h
    · exact .inl (.inl h)
    · exact (iha h).imp_left fun h => .inr (.inl h)
    · split at h
      · exact .inl (.inr (.inr h))
      · exact (ihb h).imp_left fun h => .inr (.inr h)
  | letRec m w a b iha ihb =>
    rw [rename] at h
    split at h
    · exact .inl h
    · simp only [names, List.mem_cons, List.mem_append] at h ⊢
      rcases h with h | h | h
      · exact .inl (.inl h)
      · exact (iha h).imp_left fun h => .inr (.inl h)
      · exact (ihb h).imp_left fun h => .inr (.inr h)
  | cond m a b c iha ihb ihc =>
    simp only [rename, names, List.mem_append] at h ⊢
    rcases h with (h | h) | h
    · exact (iha h).imp_left fun h => .inl (.inl h)
    · exact (ihb h).imp_left fun h => .inl (.inr h)
    · exact (ihc h).imp_left .inr

/-- A free name of a renamed tree is the new name, or was free and is not the old one. -/
theorem mem_free_rename {x y z : String} {e : Expr} (h : z ∈ (e.rename x y).free) :
    z ∈ e.free ∧ z ≠ x ∨ z = y := by
  induction e with
  | int | bool | bare => exact absurd h (NameSet.not_mem_empty z)
  | var m w =>
    rw [rename] at h
    split at h
    · exact .inr (NameSet.mem_single.1 h)
    · rename_i hw
      have hz := NameSet.mem_single.1 h
      exact .inl ⟨h, hz ▸ hw⟩
  | lam m w b ih =>
    rw [rename] at h
    split at h
    · rename_i hw
      exact .inl ⟨h, hw ▸ (NameSet.mem_erase.1 h).2⟩
    · have h := NameSet.mem_erase.1 h
      exact (ih h.1).imp_left fun hz => ⟨NameSet.mem_erase.2 ⟨hz.1, h.2⟩, hz.2⟩
  | app m a b iha ihb | binary m op a b iha ihb =>
    simp only [rename, free, NameSet.mem_union] at h ⊢
    rcases h with h | h
    · exact (iha h).imp_left fun hz => ⟨.inl hz.1, hz.2⟩
    · exact (ihb h).imp_left fun hz => ⟨.inr hz.1, hz.2⟩
  | letIn m w a b iha ihb =>
    simp only [rename, free, NameSet.mem_union, NameSet.mem_erase] at h ⊢
    rcases h with h | ⟨h, hw⟩
    · exact (iha h).imp_left fun hz => ⟨.inl hz.1, hz.2⟩
    · split at h
      · rename_i he
        exact .inl ⟨.inr ⟨h, hw⟩, he ▸ hw⟩
      · exact (ihb h).imp_left fun hz => ⟨.inr ⟨hz.1, hw⟩, hz.2⟩
  | letRec m w a b iha ihb =>
    rw [rename] at h
    split at h
    · rename_i hw
      exact .inl ⟨h, hw ▸ (NameSet.mem_erase.1 h).2⟩
    · simp only [free, NameSet.mem_union, NameSet.mem_erase] at h ⊢
      rcases h with ⟨h | h, hw⟩
      · exact (iha h).imp_left fun hz => ⟨⟨.inl hz.1, hw⟩, hz.2⟩
      · exact (ihb h).imp_left fun hz => ⟨⟨.inr hz.1, hw⟩, hz.2⟩
  | cond m a b c iha ihb ihc =>
    simp only [rename, free, NameSet.mem_union] at h ⊢
    rcases h with (h | h) | h
    · exact (iha h).imp_left fun hz => ⟨.inl (.inl hz.1), hz.2⟩
    · exact (ihb h).imp_left fun hz => ⟨.inl (.inr hz.1), hz.2⟩
    · exact (ihc h).imp_left fun hz => ⟨.inr hz.1, hz.2⟩

end LetLower.Expr
