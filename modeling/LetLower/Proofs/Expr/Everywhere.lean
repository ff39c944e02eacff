import LetLower.Expr.Normal
import LetLower.Proofs.Expr.Alike
import LetLower.Proofs.Expr.Rename
import Mathlib.Data.List.Forall2

/-!
# Properties of all nodes

What holds everywhere in a tree holds at the root and everywhere in the parts. Most properties that
are asked of all nodes are shallow: they go by the kind of a node and by its type, not by what
stands below it, and so they survive when parts are replaced.
-/

namespace LetLower.Expr

/-- The property holds at every node of the tree. -/
def Everywhere (P : Expr → Prop) (e : Expr) : Prop := ∀ s ∈ e.subtrees, P s

section

variable {P Q : Expr → Prop} {m : Mark} {op : Operator} {x y : String} {a b c e e' : Expr}

theorem Everywhere.self (h : e.Everywhere P) : P e := h e (mem_subtrees_self e)

theorem Everywhere.imp (h : e.Everywhere P) (hPQ : ∀ s, P s → Q s) : e.Everywhere Q :=
  fun s hs => hPQ s (h s hs)

theorem everywhere_lam :
    (lam m x b).Everywhere P ↔ P (lam m x b) ∧ b.Everywhere P :=
  List.forall_mem_cons

theorem everywhere_app :
    (app m a b).Everywhere P ↔ P (app m a b) ∧ a.Everywhere P ∧ b.Everywhere P :=
  List.forall_mem_cons.trans (and_congr_right fun _ => List.forall_mem_append)

theorem everywhere_letIn :
    (letIn m x a b).Everywhere P ↔ P (letIn m x a b) ∧ a.Everywhere P ∧ b.Everywhere P :=
  List.forall_mem_cons.trans (and_congr_right fun _ => List.forall_mem_append)

theorem everywhere_letRec :
    (letRec m x a b).Everywhere P ↔ P (letRec m x a b) ∧ a.Everywhere P ∧ b.Everywhere P :=
  List.forall_mem_cons.trans (and_congr_right fun _ => List.forall_mem_append)

theorem everywhere_binary :
    (binary m op a b).Everywhere P ↔ P (binary m op a b) ∧ a.Everywhere P ∧ b.Everywhere P :=
  List.forall_mem_cons.trans (and_congr_right fun _ => List.forall_mem_append)

theorem everywhere_cond :
    (cond m a b c).Everywhere P ↔
      P (cond m a b c) ∧ (a.Everywhere P ∧ b.Everywhere P) ∧ c.Everywhere P :=
  List.forall_mem_cons.trans (and_congr_right fun _ =>
    List.forall_mem_append.trans (and_congr_left fun _ => List.forall_mem_append))

theorem Everywhere.rename (hP : ∀ s, P s → P (s.rename x y)) (h : e.Everywhere P) :
    (e.rename x y).Everywhere P := by
  induction e with
  | int | bool | bare => exact h
  | var m z =>
    have hself := hP _ h.self
    rw [rename_var] at hself ⊢
    exact List.forall_mem_singleton.2 hself
  | lam m z b ih =>
    have hself := hP _ h.self
    have hparts := (everywhere_lam.1 h).2
    rw [Expr.rename] at hself ⊢
    split at hself
    · rw [if_pos ‹_›]
      exact h
    · rw [if_neg ‹_›]
      exact everywhere_lam.2 ⟨hself, ih hparts⟩
  | app m f a ihf iha =>
    have hparts := (everywhere_app.1 h).2
    exact everywhere_app.2 ⟨hP _ h.self, ihf hparts.1, iha hparts.2⟩
  | letIn m z v b ihv ihb =>
    have hself := hP _ h.self
    have hparts := (everywhere_letIn.1 h).2
    rw [Expr.rename] at hself ⊢
    refine everywhere_letIn.2 ⟨hself, ihv hparts.1, ?_⟩
    split
    · exact hparts.2
    · exact ihb hparts.2
  | letRec m z v b ihv ihb =>
    have hself := hP _ h.self
    have hparts := (everywhere_letRec.1 h).2
    rw [Expr.rename] at hself ⊢
    split at hself
    · rw [if_pos ‹_›]
      exact h
    · rw [if_neg ‹_›]
      exact everywhere_letRec.2 ⟨hself, ihv hparts.1, ihb hparts.2⟩
  | binary m op l r ihl ihr =>
    have hparts := (everywhere_binary.1 h).2
    exact everywhere_binary.2 ⟨hP _ h.self, ihl hparts.1, ihr hparts.2⟩
  | cond m c t e ihc iht ihe =>
    have hparts := (everywhere_cond.1 h).2
    exact everywhere_cond.2
      ⟨hP _ h.self, ⟨ihc hparts.1.1, iht hparts.1.2⟩, ihe hparts.2⟩

theorem Everywhere.below (h : e.Everywhere P) : e.Everywhere fun s => s.Everywhere P := by
  induction e with
  | int | bool | var | bare => exact List.forall_mem_singleton.2 h
  | lam m x b ih => exact everywhere_lam.2 ⟨h, ih (everywhere_lam.1 h).2⟩
  | app m f a ihf iha =>
    obtain ⟨_, hf, ha⟩ := everywhere_app.1 h
    exact everywhere_app.2 ⟨h, ihf hf, iha ha⟩
  | letIn m x v b ihv ihb =>
    obtain ⟨_, hv, hb⟩ := everywhere_letIn.1 h
    exact everywhere_letIn.2 ⟨h, ihv hv, ihb hb⟩
  | letRec m x v b ihv ihb =>
    obtain ⟨_, hv, hb⟩ := everywhere_letRec.1 h
    exact everywhere_letRec.2 ⟨h, ihv hv, ihb hb⟩
  | binary m op l r ihl ihr =>
    obtain ⟨_, hl, hr⟩ := everywhere_binary.1 h
    exact everywhere_binary.2 ⟨h, ihl hl, ihr hr⟩
  | cond m c t e ihc iht ihe =>
    obtain ⟨_, ⟨hc, ht⟩, he⟩ := everywhere_cond.1 h
    exact everywhere_cond.2 ⟨h, ⟨ihc hc, iht ht⟩, ihe he⟩

theorem Alike.subtrees {μ : Mark → Mark → Prop} {N : String → String → Prop}
    (h : Alike μ N e e') :
    List.Forall₂ (fun s s' => ∃ N, Alike μ N s s') e.subtrees e'.subtrees := by
  induction h with
  | int hm => exact .cons ⟨N, .int hm⟩ .nil
  | bool hm => exact .cons ⟨N, .bool hm⟩ .nil
  | var hm hx => exact .cons ⟨_, .var hm hx⟩ .nil
  | lam hm hb ih => exact .cons ⟨_, .lam hm hb⟩ ih
  | app hm hf ha ihf iha => exact .cons ⟨_, .app hm hf ha⟩ (List.rel_append ihf iha)
  | letIn hm hv hb ihv ihb => exact .cons ⟨_, .letIn hm hv hb⟩ (List.rel_append ihv ihb)
  | letRec hm hv hb ihv ihb => exact .cons ⟨_, .letRec hm hv hb⟩ (List.rel_append ihv ihb)
  | binary hm hl hr ihl ihr => exact .cons ⟨_, .binary hm hl hr⟩ (List.rel_append ihl ihr)
  | cond hm hc ht he ihc iht ihe =>
    exact .cons ⟨_, .cond hm hc ht he⟩ (List.rel_append (List.rel_append ihc iht) ihe)

theorem Alike.everywhere {μ : Mark → Mark → Prop} {N : String → String → Prop}
    (h : Alike μ N e e') (hPQ : ∀ N s s', Alike μ N s s' → P s → Q s') (he : e.Everywhere P) :
    e'.Everywhere Q := by
  have key : ∀ {l l' : List Expr}, List.Forall₂ (fun s s' => ∃ N, Alike μ N s s') l l' →
      (∀ s ∈ l, P s) → ∀ s ∈ l', Q s := by
    intro l l' hl
    induction hl with
    | nil => exact fun _ s hs => absurd hs List.not_mem_nil
    | cons hs _ ih =>
      intro hP
      obtain ⟨hself, hrest⟩ := List.forall_mem_cons.1 hP
      obtain ⟨N, hs⟩ := hs
      exact List.forall_mem_cons.2 ⟨hPQ N _ _ hs hself, ih hrest⟩
  exact key h.subtrees he

end

theorem Everywhere.congr {P : Expr → Prop} {e e' : Expr} (h : e.Everywhere P)
    (hP : ∀ s, P s.untyped ↔ P s) (he : e'.untyped = e.untyped) : e'.Everywhere P := by
  have key : ∀ t : Expr, t.untyped.Everywhere P ↔ t.Everywhere P := by
    intro t
    unfold Everywhere untyped
    rw [subtrees_mapMark, List.forall_mem_map]
    exact forall₂_congr fun s _ => hP s
  rwa [← key, he, key]

/-- The property goes by the kind of a node and by its type only, and a `let` may take the type of
its body. -/
structure Shallow (P : Expr → Prop) : Prop where
  var : ∀ {m x y}, P (.var m x) → P (.var m y)
  lam : ∀ {m x y b c}, P (.lam m x b) → P (.lam m y c)
  app : ∀ {m f g a b}, P (.app m f a) → P (.app m g b)
  letIn : ∀ {m n x y v w b c}, P (.letIn m x v b) → n.ty = m.ty → P (.letIn n y w c)
  retype : ∀ {m x v b d t}, P (.letIn m x v b) → P d → d.ty? = some t →
    P (.letIn { m with ty := some t } x v d)
  letRec : ∀ {m x y v w b c}, P (.letRec m x v b) → P (.letRec m y w c)
  binary : ∀ {m op l l' r r'}, P (.binary m op l r) → P (.binary m op l' r')
  cond : ∀ {m c c' t t' e e'}, P (.cond m c t e) → P (.cond m c' t' e')

theorem Shallow.rename {P : Expr → Prop} (hP : Shallow P) {e : Expr} (x y : String) (h : P e) :
    P (e.rename x y) := by
  cases e with
  | int | bool | bare => exact h
  | var =>
    rw [rename_var]
    exact hP.var h
  | lam =>
    rw [rename_lam]
    exact hP.lam h
  | app => exact hP.app h
  | letIn => exact hP.letIn h rfl
  | letRec =>
    rw [rename_letRec]
    exact hP.letRec h
  | binary => exact hP.binary h
  | cond => exact hP.cond h

end LetLower.Expr
