import LetLower.Expr.Subtrees

/-!
# The direct parts of a node

A part lies outside the scope of the name that its node binds, or inside it. The names of a part are
names of the node, and so are the free ones but for the name that is bound. A name that does not
occur in the node does not occur in its parts.
-/

namespace LetLower.Expr

/-- A part outside the scope of what its node binds. -/
inductive Outside : Expr → Expr → Prop
  | callee {m f a} : Outside f (.app m f a)
  | argument {m f a} : Outside a (.app m f a)
  | value {m x v b} : Outside v (.letIn m x v b)
  | left {m op l r} : Outside l (.binary m op l r)
  | right {m op l r} : Outside r (.binary m op l r)
  | condition {m c t e} : Outside c (.cond m c t e)
  | thenBranch {m c t e} : Outside t (.cond m c t e)
  | elseBranch {m c t e} : Outside e (.cond m c t e)

/-- A part in the scope of the name that its node binds. -/
inductive Inside (x : String) : Expr → Expr → Prop
  | lam {m b} : Inside x b (.lam m x b)
  | letIn {m v b} : Inside x b (.letIn m x v b)
  | recursive {m v b} : Inside x v (.letRec m x v b)
  | letRec {m v b} : Inside x b (.letRec m x v b)

variable {e b : Expr} {x y w z : String}

namespace Outside

theorem subtrees (h : Outside b e) : b.subtrees ⊆ e.subtrees := by
  intro n hn
  cases h with
  | callee | value | left => exact .tail _ (List.mem_append.2 (.inl hn))
  | argument | right | elseBranch => exact .tail _ (List.mem_append.2 (.inr hn))
  | condition => exact .tail _ (List.mem_append.2 (.inl (List.mem_append.2 (.inl hn))))
  | thenBranch => exact .tail _ (List.mem_append.2 (.inl (List.mem_append.2 (.inr hn))))

theorem names (h : Outside b e) (hz : z ∈ b.names) : z ∈ e.names := by
  cases h with
  | callee | left => exact List.mem_append.2 (.inl hz)
  | argument | right | elseBranch => exact List.mem_append.2 (.inr hz)
  | value => exact .tail _ (List.mem_append.2 (.inl hz))
  | condition => exact List.mem_append.2 (.inl (List.mem_append.2 (.inl hz)))
  | thenBranch => exact List.mem_append.2 (.inl (List.mem_append.2 (.inr hz)))

theorem free (h : Outside b e) (hz : z ∈ b.free) : z ∈ e.free := by
  cases h with
  | callee | left | value => exact NameSet.mem_union.2 (.inl hz)
  | argument | right | elseBranch => exact NameSet.mem_union.2 (.inr hz)
  | condition => exact NameSet.mem_union.2 (.inl (NameSet.mem_union.2 (.inl hz)))
  | thenBranch => exact NameSet.mem_union.2 (.inl (NameSet.mem_union.2 (.inr hz)))

theorem isAnnotated (h : Outside b e) (he : e.isAnnotated) : b.isAnnotated := by
  cases h <;> simp only [Expr.isAnnotated, Bool.and_eq_true] at he
  case callee | left | value | thenBranch => exact he.1.2
  case argument | right | elseBranch => exact he.2
  case condition => exact he.1.1.2

end Outside

namespace Inside

theorem subtrees (h : Inside x b e) : b.subtrees ⊆ e.subtrees := by
  intro n hn
  cases h with
  | lam => exact .tail _ hn
  | letIn | letRec => exact .tail _ (List.mem_append.2 (.inr hn))
  | recursive => exact .tail _ (List.mem_append.2 (.inl hn))

theorem name (h : Inside x b e) : x ∈ e.names := by
  cases h with
  | lam | letIn | recursive | letRec => exact List.mem_cons_self

theorem names (h : Inside x b e) (hz : z ∈ b.names) : z ∈ e.names := by
  cases h with
  | lam => exact .tail _ hz
  | letIn | letRec => exact .tail _ (List.mem_append.2 (.inr hz))
  | recursive => exact .tail _ (List.mem_append.2 (.inl hz))

theorem free (h : Inside x b e) (hz : z ∈ b.free ∧ z ≠ x) : z ∈ e.free := by
  cases h with
  | lam => exact NameSet.mem_erase.2 hz
  | letIn => exact NameSet.mem_union.2 (.inr (NameSet.mem_erase.2 hz))
  | recursive => exact NameSet.mem_erase.2 ⟨NameSet.mem_union.2 (.inl hz.1), hz.2⟩
  | letRec => exact NameSet.mem_erase.2 ⟨NameSet.mem_union.2 (.inr hz.1), hz.2⟩

theorem isAnnotated (h : Inside x b e) (he : e.isAnnotated) : b.isAnnotated := by
  cases h <;> simp only [Expr.isAnnotated, Bool.and_eq_true] at he
  case lam | letIn | letRec => exact he.2
  case recursive => exact he.1.2

end Inside

theorem fresh_outside (hy : y = x ∨ y ∉ e.names) (hb : Outside b e) : y = x ∨ y ∉ b.names :=
  hy.imp_right fun hn hm => hn (hb.names hm)

theorem fresh_inside (hy : y = x ∨ y ∉ e.names) (hb : Inside w b e) :
    (if w = x then x else y) = x ∨ (if w = x then x else y) ∉ b.names := by
  split
  · exact .inl rfl
  · exact hy.imp_right fun hn hm => hn (hb.names hm)

theorem fresh_name (hy : y = x ∨ y ∉ e.names) (hb : Inside w b e) : y = x ∨ y ≠ w :=
  hy.imp_right fun hn he => hn (he ▸ hb.name)

end LetLower.Expr
