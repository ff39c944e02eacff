import LetLower.Diagnostic
import LetLower.Proofs.Text.Pieces
import LetLower.Proofs.Ty.Bind

/-!
# The text of a type determines the type

A text is cut into pieces, and the pieces are compared from the left. An argument ends where its
parentheses close, so no longer one begins with it; a type ends where no arrow follows.
-/

namespace LetLower

open Text

namespace Ty

/-- A variable may have any word for its name that is not the name of another type. -/
structure IsVarName (x : String) : Prop where
  isWord : IsWord x
  ne_int : x ≠ "int"
  ne_bool : x ≠ "bool"

instance (x : String) : Decidable (IsVarName x) :=
  decidable_of_iff (IsWord x ∧ x ≠ "int" ∧ x ≠ "bool")
    ⟨fun h => ⟨h.1, h.2.1, h.2.2⟩, fun h => ⟨h.1, h.2, h.3⟩⟩

/-- A plain type of variables with such names. -/
def IsReadable : Ty → Prop
  | bool | int => True
  | var x => IsVarName x
  | fn a r => a.IsReadable ∧ r.IsReadable
  | scheme .. | unknown => False

theorem IsPlain.isReadable {t : Ty} (h : t.IsPlain) (hn : ∀ x ∈ t.free, IsVarName x) :
    t.IsReadable := by
  induction t with
  | bool | int => trivial
  | var x => exact hn x (mem_free_var.2 rfl)
  | fn a r iha ihr =>
    exact ⟨iha h.1 fun x hx => hn x (mem_free_fn.2 (.inl hx)),
      ihr h.2 fun x hx => hn x (mem_free_fn.2 (.inr hx))⟩
  | scheme | unknown => cases h

def pieces : Ty → List Piece
  | bool => [.word "bool"]
  | int => [.word "int"]
  | var x => [.word x]
  | fn a r =>
    (if a.isFunction then .opened :: a.pieces ++ [.closed] else a.pieces) ++ .word "->" :: r.pieces
  | scheme .. | unknown => []

def argumentPieces (t : Ty) : List Piece :=
  if t.isFunction then .opened :: t.pieces ++ [.closed] else t.pieces

theorem argumentPieces_of_word {t : Ty} (h : t.isFunction = false) :
    t.argumentPieces = t.pieces := by
  rw [argumentPieces, h]
  rfl

theorem pieces_fn (a r : Ty) : (fn a r).pieces = a.argumentPieces ++ .word "->" :: r.pieces := rfl

theorem cuts_render {t : Ty} (h : t.IsReadable) : Cuts t.render t.pieces := by
  induction t with
  | bool | int => exact .word (by decide)
  | var x => exact .word h.isWord
  | fn a r iha ihr =>
    have harg : Cuts (if a.isFunction then "(" ++ a.render ++ ")" else a.render)
        a.argumentPieces := by
      unfold argumentPieces
      split
      · exact (iha h.1).parens
      · exact iha h.1
    exact .between rfl (by decide) harg (ihr h.2)
  | scheme | unknown => cases h

def ofWord (w : String) : Ty := if w = "bool" then bool else if w = "int" then int else var w

theorem exists_word {t : Ty} (h : t.IsReadable) (ht : t.isFunction = false) :
    ∃ w, t.pieces = [.word w] ∧ ofWord w = t := by
  cases t with
  | bool | int => exact ⟨_, rfl, rfl⟩
  | var x => exact ⟨x, rfl, by rw [ofWord, if_neg h.ne_bool, if_neg h.ne_int]⟩
  | fn => cases ht
  | scheme | unknown => cases h

def Stops (ps : List Piece) : Prop := ∀ p ∈ ps.head?, p ≠ .word "->"

theorem stops_closed (ps : List Piece) : Stops (.closed :: ps) := by
  rintro p ⟨⟩
  decide

/-- The pieces of a type, up to where it stops, are those of no other type. -/
def IsDetermined (a : Ty) : Prop :=
  ∀ b ps qs, b.IsReadable → Stops ps → Stops qs → a.pieces ++ ps = b.pieces ++ qs → a = b ∧ ps = qs

theorem argumentPieces_append_inj {a b : Ty} {ps qs : List Piece} (ha : a.IsReadable)
    (hb : b.IsReadable) (hdet : a.isFunction → a.IsDetermined)
    (h : a.argumentPieces ++ ps = b.argumentPieces ++ qs) : a = b ∧ ps = qs := by
  unfold argumentPieces at h
  cases hfa : a.isFunction with
  | true =>
    cases hfb : b.isFunction with
    | true =>
      simp only [hfa, hfb, if_true, List.cons_append, List.append_assoc, List.cons.injEq] at h
      obtain ⟨hab, hps⟩ := hdet hfa b _ _ hb (stops_closed _) (stops_closed _) h.2
      exact ⟨hab, List.tail_eq_of_cons_eq hps⟩
    | false =>
      obtain ⟨w, hw, _⟩ := exists_word hb hfb
      simp [hfa, hfb, hw] at h
  | false =>
    obtain ⟨w, hw, rfl⟩ := exists_word ha hfa
    cases hfb : b.isFunction with
    | true => simp [hfa, hfb, hw] at h
    | false =>
      obtain ⟨v, hv, rfl⟩ := exists_word hb hfb
      simp only [hfa, hfb, hw, hv, Bool.false_eq_true, if_false, List.singleton_append,
        List.cons.injEq, Piece.word.injEq] at h
      exact ⟨by rw [h.1], h.2⟩

theorem isDetermined_of_word {a : Ty} (ha : a.IsReadable) (hfa : a.isFunction = false) :
    a.IsDetermined := by
  intro b ps qs hb hps hqs h
  have hdet : a.isFunction → a.IsDetermined := fun ht => by cases hfa.symm.trans ht
  rw [← argumentPieces_of_word hfa] at h
  cases hfb : b.isFunction with
  | false =>
    rw [← argumentPieces_of_word hfb] at h
    exact argumentPieces_append_inj ha hb hdet h
  | true =>
    cases b with
    | fn c d =>
      rw [pieces_fn, List.append_assoc] at h
      obtain ⟨_, rfl⟩ := argumentPieces_append_inj ha hb.1 hdet h
      exact absurd rfl (hps _ rfl)
    | _ => cases hfb

theorem isDetermined {a : Ty} (ha : a.IsReadable) : a.IsDetermined := by
  induction a with
  | bool | int | var => exact isDetermined_of_word ha rfl
  | fn a r iha ihr =>
    intro b ps qs hb hps hqs h
    cases hfb : b.isFunction with
    | false =>
      obtain ⟨hab, hpq⟩ := isDetermined_of_word hb hfb _ qs ps ha hqs hps h.symm
      exact ⟨hab.symm, hpq.symm⟩
    | true =>
      cases b with
      | fn b s =>
        rw [pieces_fn, pieces_fn, List.append_assoc, List.append_assoc] at h
        obtain ⟨rfl, hrest⟩ := argumentPieces_append_inj ha.1 hb.1 (fun _ => iha ha.1) h
        have hrs := List.tail_eq_of_cons_eq hrest
        obtain ⟨rfl, hpq⟩ := ihr ha.2 s ps qs hb.2 hps hqs hrs
        exact ⟨rfl, hpq⟩
      | _ => cases hfb
  | scheme | unknown => cases ha

theorem render_inj {a b : Ty} (ha : a.IsReadable) (hb : b.IsReadable) (h : a.render = b.render) :
    a = b := by
  have hp : a.pieces ++ [] = b.pieces ++ [] := by
    rw [← (cuts_render ha).pieces_eq, h, (cuts_render hb).pieces_eq]
  exact (isDetermined ha b [] [] hb nofun nofun hp).1

end Ty

/-- The diagnostic has a field with the text of the type. -/
inductive Diagnostic.Shows : Diagnostic → Ty → String → Prop
  | expected {t actual : Ty} {loc : Option Location} {d : Diagnostic} {s : String}
      (hd : typeMismatch t actual loc = .ok d) (hs : ("expected_type", .text s) ∈ d.details) :
      Shows d t s
  | actual {expected t : Ty} {loc : Option Location} {d : Diagnostic} {s : String}
      (hd : typeMismatch expected t loc = .ok d) (hs : ("actual_type", .text s) ∈ d.details) :
      Shows d t s
  | infinite {x : String} {t : Ty} {loc : Option Location} {d : Diagnostic} {s : String}
      (hd : infiniteType x t loc = .ok d) (hs : ("type", .text s) ∈ d.details) : Shows d t s
  | occurs {x : String} {t : Ty} {loc : Option Location} {d : Diagnostic} {s : String}
      (hd : infiniteType x t loc = .ok d) (hs : ("variable", .text s) ∈ d.details) :
      Shows d (.var x) s

namespace Diagnostic

variable {a b t : Ty} {loc : Option Location} {d : Diagnostic} {s x : String}

theorem details_typeMismatch (h : typeMismatch a b loc = .ok d) :
    d.details = [("expected_type", .text a.render), ("actual_type", .text b.render)] := by
  unfold typeMismatch Ty.render? at h
  cases ha : a.isKnown <;> cases hb : b.isKnown <;> rw [ha, hb] at h <;> cases h
  rfl

theorem details_infiniteType (h : infiniteType x t loc = .ok d) :
    d.details = [("variable", .text x), ("type", .text t.render)] := by
  unfold infiniteType Ty.render? at h
  cases ht : t.isKnown <;> rw [ht] at h <;> cases h
  rfl

theorem Shows.render_eq (h : d.Shows t s) : t.render = s := by
  cases h with
  | expected hd hs =>
    rw [details_typeMismatch hd] at hs
    simpa [eq_comm] using hs
  | actual hd hs =>
    rw [details_typeMismatch hd] at hs
    simpa [eq_comm] using hs
  | infinite hd hs =>
    rw [details_infiniteType hd] at hs
    simpa [eq_comm] using hs
  | occurs hd hs =>
    rw [details_infiniteType hd] at hs
    simpa [Ty.render, eq_comm] using hs

end Diagnostic

namespace Ty

/-- Plain types whose variables have the names of variables are equal if their texts are, and so
are those that two diagnostics show alike. -/
theorem render_injective {a b : Ty} (ha : a.IsPlain) (hb : b.IsPlain)
    (hna : ∀ x ∈ a.free, IsVarName x) (hnb : ∀ x ∈ b.free, IsVarName x) :
    (∀ s, a.render? = .ok s → b.render? = .ok s → a = b) ∧
      ∀ (d d' : Diagnostic) s, d.Shows a s → d'.Shows b s → a = b := by
  have hinj := render_inj (ha.isReadable hna) (hb.isReadable hnb)
  refine ⟨fun s hs hs' => hinj ?_, fun d d' s hs hs' => hinj ?_⟩
  · unfold render? at hs hs'
    rw [if_pos ha.isKnown] at hs
    rw [if_pos hb.isKnown] at hs'
    exact Except.ok.inj (hs.trans hs'.symm)
  · exact hs.render_eq.trans hs'.render_eq.symm

/-- Two ways to group three arrows. -/
theorem render_injective_grouping :
    let a : Ty := .fn (.fn (.var "t0") .int) (.fn (.var "t1") .bool)
    let b : Ty := .fn (.var "t0") (.fn .int (.fn (.var "t1") .bool))
    a.IsPlain ∧ b.IsPlain ∧ (∀ x ∈ a.free, IsVarName x) ∧ (∀ x ∈ b.free, IsVarName x) ∧
      (∃ s, a.render? = .ok s ∧ b.render? ≠ .ok s) ∧
      ∃ (d : Diagnostic) (s : String), d.Shows a s ∧ ∀ d' : Diagnostic, ¬ d'.Shows b s := by
  intro a b
  have ha : a.IsPlain := by decide
  have hb : b.IsPlain := by decide
  have hna : ∀ x ∈ a.free, IsVarName x := by decide
  have hnb : ∀ x ∈ b.free, IsVarName x := by decide
  have hne : a ≠ b := by decide
  obtain ⟨hrender, hshows⟩ := render_injective ha hb hna hnb
  obtain ⟨d, hd⟩ : ∃ d, Diagnostic.typeMismatch a .int none = .ok d := ⟨_, rfl⟩
  have hs : d.Shows a a.render := by
    refine .expected hd ?_
    rw [Diagnostic.details_typeMismatch hd]
    exact .head _
  exact ⟨ha, hb, hna, hnb, ⟨a.render, rfl, fun h => hne (hrender _ rfl h)⟩,
    d, a.render, hs, fun d' hs' => hne (hshows d d' _ hs hs')⟩

end Ty
end LetLower
