import LetLower.Expr.Source
import LetLower.Proofs.Expr.Marks
import LetLower.Proofs.Text.Pieces

/-!
# Reading the source text back

A reader goes through the pieces of a text once. It keeps what it is reading and the constructs
around it that are not complete yet. A piece that ends a construct completes all those inside it
that reach as far to the right as they can. The text of an expression is read back to that
expression, but for what its nodes are marked with.
-/

namespace LetLower

open Text

namespace Expr

inductive Token where
  | opened
  | closed
  | leaf (e : Expr)
  | operator (op : Operator)
  | arrow
  | equals
  | bind
  | recursive
  | inside
  | test
  | yes
  | no

namespace Token

def keywords : List (String × Token) := [
  ("let", bind), ("rec", recursive), ("in", inside), ("if", test), ("then", yes), ("else", no),
  ("true", leaf (.bool {} true)), ("false", leaf (.bool {} false))
]

def signs : List (String × Token) := [
  ("->", arrow), ("=", equals), ("+", operator .add), ("-", operator .sub), ("<", operator .less)
]

def startsNumber (w : String) : Bool := w.toList.head?.any fun c => c.isDigit || c = '-'

def ofWord (w : String) : Token :=
  match (keywords ++ signs).lookup w with
  | some t => t
  | none => .leaf (if startsNumber w then .int {} (readInt w.toList) else .var {} w)

def ofPiece : Piece → Token
  | .opened => .opened
  | .closed => .closed
  | .word w => ofWord w

end Token

/-- A construct around what is being read. -/
inductive Construct where
  | group (callee : Option Expr)
  | body (x : String)
  | value (recursive : Bool) (x : String)
  | scope (recursive : Bool) (x : String) (v : Expr)
  | right (l : Expr) (op : Operator)
  | test
  | yes (c : Expr)
  | no (c t : Expr)

/-- What has been read since the innermost construct began. -/
inductive Cursor where
  | start
  | read (e : Expr)
  | binder (recursive : Bool)
  | named (recursive : Bool) (x : String)

namespace Construct

def letOf (recursive : Bool) (x : String) (v b : Expr) : Expr :=
  if recursive then letRec {} x v b else letIn {} x v b

/-- Complete a construct that has no end of its own. -/
def fill? : Construct → Expr → Option Expr
  | body x, e => some (lam {} x e)
  | scope r x v, e => some (letOf r x v e)
  | right l op, e => some (binary {} op l e)
  | no c t, e => some (cond {} c t e)
  | group _, _ | value .., _ | test, _ | yes _, _ => none

def close (e : Expr) : List Construct → Expr × List Construct
  | [] => (e, [])
  | f :: fs =>
    match f.fill? e with
    | some e' => close e' fs
    | none => (e, f :: fs)

end Construct

open Construct in
def readEnd : Token → Expr × List Construct → Option (Cursor × List Construct)
  | .closed, (e, group none :: fs) => some (.read e, fs)
  | .closed, (e, group (some f) :: fs) => some (.read (app {} f e), fs)
  | .inside, (v, value r x :: fs) => some (.start, scope r x v :: fs)
  | .yes, (c, test :: fs) => some (.start, yes c :: fs)
  | .no, (t, yes c :: fs) => some (.start, no c t :: fs)
  | _, _ => none

open Construct in
def readToken : Token → Cursor × List Construct → Option (Cursor × List Construct)
  | .leaf e, (.start, fs) => some (.read e, fs)
  | .leaf e, (.read f, fs) => some (.read (app {} f e), fs)
  | .leaf (var _ x), (.binder r, fs) => some (.named r x, fs)
  | .opened, (.start, fs) => some (.start, group none :: fs)
  | .opened, (.read f, fs) => some (.start, group (some f) :: fs)
  | .arrow, (.read (var _ x), fs) => some (.start, body x :: fs)
  | .operator op, (.read l, fs) => some (.start, right l op :: fs)
  | .bind, (.start, fs) => some (.binder false, fs)
  | .recursive, (.binder false, fs) => some (.binder true, fs)
  | .equals, (.named r x, fs) => some (.start, value r x :: fs)
  | .test, (.start, fs) => some (.start, test :: fs)
  | t, (.read e, fs) => readEnd t (close e fs)
  | _, _ => none

def readPieces (ps : List Piece) (s : Cursor × List Construct) : Option (Cursor × List Construct) :=
  ps.foldlM (fun s p => readToken (.ofPiece p) s) s

/-- The expression with a given text. -/
def ofSource? (s : String) : Option Expr :=
  match readPieces (pieces s) (.start, []) with
  | some (.read e, fs) =>
    match Construct.close e fs with
    | (e, []) => some e
    | _ => none
  | _ => none

/-- Any word may be a name that is no part of the syntax and does not begin as a number does. Words
of letters, digits, `_` and `$` are such if no digit comes first and they are no keywords. -/
structure IsName (x : String) : Prop where
  isWord : IsWord x
  not_number : Token.startsNumber x = false
  not_reserved : x ∉ (Token.keywords ++ Token.signs).map Prod.fst

instance (x : String) : Decidable (IsName x) :=
  decidable_of_iff (IsWord x ∧ Token.startsNumber x = false ∧
    x ∉ (Token.keywords ++ Token.signs).map Prod.fst)
    ⟨fun h => ⟨h.1, h.2.1, h.2.2⟩, fun h => ⟨h.1, h.2, h.3⟩⟩

namespace Token

theorem ofWord_of_not_reserved {w : String} (h : w ∉ (keywords ++ signs).map Prod.fst) :
    ofWord w = .leaf (if startsNumber w then .int {} (readInt w.toList) else .var {} w) := by
  have hnone : (keywords ++ signs).lookup w = none := by
    rw [List.lookup_eq_none_iff]
    intro p hp
    exact bne_iff_ne.2 fun he => h (List.mem_map.2 ⟨p, hp, he.symm⟩)
  rw [ofWord, hnone]

theorem ofWord_name {x : String} (h : IsName x) : ofWord x = .leaf (.var {} x) := by
  rw [ofWord_of_not_reserved h.not_reserved, h.not_number]
  rfl

theorem startsNumber_toString (n : Int) : startsNumber (toString n) = true := by
  unfold startsNumber
  cases hn : (toString n).toList with
  | nil => exact absurd (String.toList_eq_nil_iff.1 hn) (isWord_toString n).ne_empty
  | cons c cs =>
    have hc : c.isDigit ∨ c = '-' := isDigit_or_sign_of_mem_toString (hn ▸ List.mem_cons_self)
    simpa using hc

theorem ofWord_toString (n : Int) : ofWord (toString n) = .leaf (.int {} n) := by
  have hno : ∀ w ∈ (keywords ++ signs).map Prod.fst, toString (readInt w.toList) ≠ w := by decide
  have hn : toString n ∉ (keywords ++ signs).map Prod.fst := fun h => ne_toString (hno _ h) n rfl
  rw [ofWord_of_not_reserved hn, startsNumber_toString, readInt_toString]
  rfl

theorem ofWord_symbol (op : Operator) : ofWord op.symbol = .operator op := by
  cases op <;> rfl

end Token

def groupedPieces (bare : Bool) (ps : List Piece) : List Piece :=
  if bare then ps else .opened :: ps ++ [.closed]

/-- The pieces that the source text is made of. -/
def pieces : Expr → List Piece
  | int _ n => [.word (toString n)]
  | bool _ b => [.word (if b then "true" else "false")]
  | var _ x => [.word x]
  | lam _ x b => .word x :: .word "->" :: b.pieces
  | app _ f a => groupedPieces (f.isAtom || f.isApp) f.pieces ++ groupedPieces a.isAtom a.pieces
  | letRec _ x v b =>
    .word "let" :: .word "rec" :: .word x :: .word "=" :: v.pieces ++ .word "in" :: b.pieces
  | letIn _ x v b => .word "let" :: .word x :: .word "=" :: v.pieces ++ .word "in" :: b.pieces
  | binary _ op l r =>
    groupedPieces (l.isAtom || l.isApp) l.pieces ++
      .word op.symbol :: groupedPieces (r.isAtom || r.isApp) r.pieces
  | cond _ c t e =>
    .word "if" :: c.pieces ++ .word "then" :: t.pieces ++ .word "else" :: e.pieces
  | bare _ => []

theorem cuts_grouped {s : String} {ps : List Piece} (h : Cuts s ps) (bare : Bool) :
    Cuts (if bare then s else parens s) (groupedPieces bare ps) := by
  cases bare with
  | true => exact h
  | false => exact h.parens

theorem cuts_source {e : Expr} (he : e.isKnown) (hn : ∀ x ∈ e.names, IsWord x) :
    Cuts e.source e.pieces := by
  induction e with
  | int m n => exact .word (isWord_toString n)
  | bool m b =>
    have hw : IsWord (if b then "true" else "false") := by cases b <;> decide
    exact .word hw
  | var m x => exact .word (hn x (.head _))
  | lam m x b ih =>
    obtain ⟨hx, hb⟩ := List.forall_mem_cons.1 hn
    exact Cuts.between (m := " -> ") (w := "->") rfl (by decide) (.word hx) (ih he hb)
  | app m f a ihf iha =>
    obtain ⟨hkf, hka⟩ := Bool.and_eq_true_iff.1 he
    obtain ⟨hf, ha⟩ := List.forall_mem_append.1 hn
    exact .blank (cuts_grouped (ihf hkf hf) _) (cuts_grouped (iha hka ha) _)
  | letIn m x v b ihv ihb =>
    obtain ⟨hkv, hkb⟩ := Bool.and_eq_true_iff.1 he
    obtain ⟨hx, hvb⟩ := List.forall_mem_cons.1 hn
    obtain ⟨hv, hb⟩ := List.forall_mem_append.1 hvb
    have hhead : Cuts ("let " ++ x) [.word "let", .word x] := .before rfl (by decide) (.word hx)
    have hvalue := Cuts.between (m := " = ") (w := "=") rfl (by decide) hhead (ihv hkv hv)
    exact Cuts.between (m := " in ") (w := "in") rfl (by decide) hvalue (ihb hkb hb)
  | letRec m x v b ihv ihb =>
    obtain ⟨hkv, hkb⟩ := Bool.and_eq_true_iff.1 he
    obtain ⟨hx, hvb⟩ := List.forall_mem_cons.1 hn
    obtain ⟨hv, hb⟩ := List.forall_mem_append.1 hvb
    have hhead : Cuts ("let rec " ++ x) [.word "let", .word "rec", .word x] := by
      have htext : "let rec " ++ x = "let " ++ ("rec " ++ x) := by
        rw [← String.append_assoc]
        rfl
      rw [htext]
      exact .before rfl (by decide) (.before rfl (by decide) (.word hx))
    have hvalue := Cuts.between (m := " = ") (w := "=") rfl (by decide) hhead (ihv hkv hv)
    exact Cuts.between (m := " in ") (w := "in") rfl (by decide) hvalue (ihb hkb hb)
  | binary m op l r ihl ihr =>
    obtain ⟨hkl, hkr⟩ := Bool.and_eq_true_iff.1 he
    obtain ⟨hl, hr⟩ := List.forall_mem_append.1 hn
    have hop : IsWord op.symbol := by cases op <;> decide
    have h := ((cuts_grouped (ihl hkl hl) (l.isAtom || l.isApp)).blank (.word hop)).blank
      (cuts_grouped (ihr hkr hr) (r.isAtom || r.isApp))
    rw [List.append_assoc] at h
    exact h
  | cond m c t e ihc iht ihe =>
    obtain ⟨hkct, hke⟩ := Bool.and_eq_true_iff.1 he
    obtain ⟨hkc, hkt⟩ := Bool.and_eq_true_iff.1 hkct
    obtain ⟨hct, he⟩ := List.forall_mem_append.1 hn
    obtain ⟨hc, ht⟩ := List.forall_mem_append.1 hct
    have hhead : Cuts ("if " ++ c.source) (.word "if" :: c.pieces) :=
      .before rfl (by decide) (ihc hkc hc)
    have hyes := Cuts.between (m := " then ") (w := "then") rfl (by decide) hhead (iht hkt ht)
    exact Cuts.between (m := " else ") (w := "else") rfl (by decide) hyes (ihe hke he)
  | bare m => cases he

def skeleton (e : Expr) : Expr := e.mapMark fun _ => {}

section Reading

open Construct

variable {ps qs : List Piece} {p : Piece} {w x : String} {e e' f a b c l t v : Expr}
  {g : Construct}

theorem readPieces_append (ps qs : List Piece) (s : Cursor × List Construct) :
    readPieces (ps ++ qs) s = (readPieces ps s).bind (readPieces qs) :=
  List.foldlM_append

theorem readPieces_cons (p : Piece) (ps : List Piece) (s : Cursor × List Construct) :
    readPieces (p :: ps) s = (readToken (.ofPiece p) s).bind (readPieces ps) :=
  List.foldlM_cons

theorem close_of_fill? (h : g.fill? e = some e') (fs : List Construct) :
    close e (g :: fs) = close e' fs := by
  rw [close, h]

theorem close_of_fill?_eq_none (h : g.fill? e = none) (fs : List Construct) :
    close e (g :: fs) = (e, g :: fs) := by
  rw [close, h]

/-- Something is read that is complete once the constructs in it are. -/
def Reads (ps : List Piece) (e : Expr) : Prop :=
  ∀ fs, ∃ l gs, readPieces ps (.start, fs) = some (.read l, gs) ∧ close l gs = close e fs

def ReadsUnit (ps : List Piece) (e : Expr) : Prop :=
  ∀ fs, readPieces ps (.start, fs) = some (.read e, fs)

def ReadsArgument (ps : List Piece) (a : Expr) : Prop :=
  ∀ f fs, readPieces ps (.read f, fs) = some (.read (app {} f a), fs)

/-- A construct is begun. -/
def Opens (r : Cursor) (ps : List Piece) (g : Construct) : Prop :=
  ∀ fs, readPieces ps (r, fs) = some (.start, g :: fs)

theorem ReadsUnit.reads (h : ReadsUnit ps e) : Reads ps e := fun fs => ⟨e, fs, h fs, rfl⟩

theorem readsUnit_leaf (h : Token.ofWord w = .leaf e) : ReadsUnit [.word w] e := by
  intro fs
  rw [readPieces_cons, Token.ofPiece, h]
  rfl

theorem readsArgument_leaf (h : Token.ofWord w = .leaf e) : ReadsArgument [.word w] e := by
  intro f fs
  rw [readPieces_cons, Token.ofPiece, h]
  rfl

theorem ReadsUnit.app (hf : ReadsUnit ps f) (ha : ReadsArgument qs a) :
    ReadsUnit (ps ++ qs) (.app {} f a) := by
  intro fs
  rw [readPieces_append, hf]
  exact ha f fs

theorem Opens.reads (h : Opens .start qs g) (he : Reads ps e) (hg : g.fill? e = some e') :
    Reads (qs ++ ps) e' := by
  intro fs
  obtain ⟨l, gs, hread, hclose⟩ := he (g :: fs)
  refine ⟨l, gs, ?_, hclose.trans (close_of_fill? hg fs)⟩
  rw [readPieces_append, h]
  exact hread

theorem Opens.part {r : Cursor} (h : Opens r qs g) (he : Reads ps e) (hg : g.fill? e = none)
    {t : Token} (hp : Token.ofPiece p = t)
    (ht : ∀ l gs, readToken t (.read l, gs) = readEnd t (close l gs)) (fs : List Construct) :
    readPieces (qs ++ ps ++ [p]) (r, fs) = readEnd t (e, g :: fs) := by
  obtain ⟨l, gs, hread, hclose⟩ := he (g :: fs)
  rw [readPieces_append, readPieces_append, h, Option.bind_some, hread, Option.bind_some,
    readPieces_cons, hp, ht, hclose, close_of_fill?_eq_none hg]
  exact Option.bind_fun_some _

theorem opens_group : Opens .start [.opened] (.group none) := fun _ => rfl

theorem opens_argument (f : Expr) : Opens (.read f) [.opened] (.group (some f)) := fun _ => rfl

theorem opens_body (hx : IsName x) : Opens .start [.word x, .word "->"] (.body x) := by
  intro fs
  rw [readPieces_cons, Token.ofPiece, Token.ofWord_name hx]
  rfl

theorem readPieces_named (hx : IsName x) (r : Bool) (fs : List Construct) :
    readPieces [.word x, .word "="] (.binder r, fs) = some (.start, value r x :: fs) := by
  rw [readPieces_cons, Token.ofPiece, Token.ofWord_name hx]
  rfl

theorem opens_value (hx : IsName x) :
    Opens .start [.word "let", .word x, .word "="] (.value false x) :=
  readPieces_named hx false

theorem opens_value_rec (hx : IsName x) :
    Opens .start [.word "let", .word "rec", .word x, .word "="] (.value true x) :=
  readPieces_named hx true

theorem opens_test : Opens .start [.word "if"] .test := fun _ => rfl

theorem ReadsUnit.opens (hl : ReadsUnit ps l) (op : Operator) :
    Opens .start (ps ++ [.word op.symbol]) (.right l op) := by
  intro fs
  rw [readPieces_append, hl, Option.bind_some, readPieces_cons, Token.ofPiece,
    Token.ofWord_symbol]
  rfl

theorem Opens.scope {r : Bool} (h : Opens .start qs (.value r x)) (hv : Reads ps v) :
    Opens .start (qs ++ ps ++ [.word "in"]) (.scope r x v) :=
  h.part (t := .inside) hv rfl rfl fun _ _ => rfl

theorem Opens.reads_let {r : Bool} (h : Opens .start qs (.value r x)) (hv : Reads ps v)
    {ps' : List Piece} (hb : Reads ps' b) :
    Reads (qs ++ ps ++ ([.word "in"] ++ ps')) (letOf r x v b) := by
  rw [← List.append_assoc]
  exact (h.scope hv).reads hb rfl

theorem Opens.yes (h : Opens .start qs .test) (hc : Reads ps c) :
    Opens .start (qs ++ ps ++ [.word "then"]) (.yes c) :=
  h.part (t := .yes) hc rfl rfl fun _ _ => rfl

theorem Opens.no (h : Opens .start qs (.yes c)) (ht : Reads ps t) :
    Opens .start (qs ++ ps ++ [.word "else"]) (.no c t) :=
  h.part (t := .no) ht rfl rfl fun _ _ => rfl

theorem Reads.unit (h : Reads ps e) : ReadsUnit (.opened :: ps ++ [.closed]) e :=
  opens_group.part (t := .closed) h rfl rfl fun _ _ => rfl

theorem Reads.argument (h : Reads ps a) : ReadsArgument (.opened :: ps ++ [.closed]) a :=
  fun f => (opens_argument f).part (t := .closed) h rfl rfl fun _ _ => rfl

/-- The pieces of an expression are read to it. Where it stands without parentheses, it is complete
as it stands. -/
structure IsReadBack (e : Expr) : Prop where
  reads : Reads e.pieces e.skeleton
  unit : e.isAtom || e.isApp → ReadsUnit e.pieces e.skeleton
  argument : e.isAtom → ReadsArgument e.pieces e.skeleton

namespace IsReadBack

theorem leaf (hp : e.pieces = [.word w]) (hw : Token.ofWord w = .leaf e.skeleton) :
    IsReadBack e where
  reads := hp ▸ (readsUnit_leaf hw).reads
  unit _ := hp ▸ readsUnit_leaf hw
  argument _ := hp ▸ readsArgument_leaf hw

/-- What is neither a leaf nor a call is read in parentheses where it has to be complete. -/
theorem of_reads (h : Reads e.pieces e.skeleton) (he : (e.isAtom || e.isApp) = false) :
    IsReadBack e where
  reads := h
  unit hu := absurd hu (by rw [he]; decide)
  argument ha := absurd ha (by rw [(Bool.or_eq_false_iff.1 he).1]; decide)

theorem grouped (h : IsReadBack e) :
    ReadsUnit (groupedPieces (e.isAtom || e.isApp) e.pieces) e.skeleton := by
  unfold groupedPieces
  split
  · exact h.unit ‹_›
  · exact h.reads.unit

theorem groupedArgument (h : IsReadBack a) :
    ReadsArgument (groupedPieces a.isAtom a.pieces) a.skeleton := by
  unfold groupedPieces
  split
  · exact h.argument ‹_›
  · exact h.reads.argument

end IsReadBack

theorem isReadBack (he : e.isKnown) (hn : ∀ x ∈ e.names, IsName x) : IsReadBack e := by
  induction e with
  | int m n => exact .leaf rfl (Token.ofWord_toString n)
  | bool m b => exact .leaf rfl (by cases b <;> rfl)
  | var m x => exact .leaf rfl (Token.ofWord_name (hn x (.head _)))
  | lam m x b ih =>
    obtain ⟨hx, hb⟩ := List.forall_mem_cons.1 hn
    exact .of_reads ((opens_body hx).reads (ih he hb).reads rfl) rfl
  | app m f a ihf iha =>
    obtain ⟨hkf, hka⟩ := Bool.and_eq_true_iff.1 he
    obtain ⟨hf, ha⟩ := List.forall_mem_append.1 hn
    have hunit := (ihf hkf hf).grouped.app (iha hka ha).groupedArgument
    exact ⟨hunit.reads, fun _ => hunit, nofun⟩
  | letIn m x v b ihv ihb =>
    obtain ⟨hkv, hkb⟩ := Bool.and_eq_true_iff.1 he
    obtain ⟨hx, hvb⟩ := List.forall_mem_cons.1 hn
    obtain ⟨hv, hb⟩ := List.forall_mem_append.1 hvb
    exact .of_reads ((opens_value hx).reads_let (ihv hkv hv).reads (ihb hkb hb).reads) rfl
  | letRec m x v b ihv ihb =>
    obtain ⟨hkv, hkb⟩ := Bool.and_eq_true_iff.1 he
    obtain ⟨hx, hvb⟩ := List.forall_mem_cons.1 hn
    obtain ⟨hv, hb⟩ := List.forall_mem_append.1 hvb
    exact .of_reads ((opens_value_rec hx).reads_let (ihv hkv hv).reads (ihb hkb hb).reads) rfl
  | binary m op l r ihl ihr =>
    obtain ⟨hkl, hkr⟩ := Bool.and_eq_true_iff.1 he
    obtain ⟨hl, hr⟩ := List.forall_mem_append.1 hn
    have hreads := ((ihl hkl hl).grouped.opens op).reads (ihr hkr hr).grouped.reads rfl
    rw [List.append_assoc] at hreads
    exact .of_reads hreads rfl
  | cond m c t e ihc iht ihe =>
    obtain ⟨hkct, hke⟩ := Bool.and_eq_true_iff.1 he
    obtain ⟨hkc, hkt⟩ := Bool.and_eq_true_iff.1 hkct
    obtain ⟨hct, he⟩ := List.forall_mem_append.1 hn
    obtain ⟨hc, ht⟩ := List.forall_mem_append.1 hct
    have hno := (opens_test.yes (ihc hkc hc).reads).no (iht hkt ht).reads
    have hreads := hno.reads (ihe hke he).reads rfl
    have hpieces : (cond m c t e).pieces = [.word "if"] ++ c.pieces ++ [.word "then"] ++ t.pieces
        ++ [.word "else"] ++ e.pieces := by simp [pieces]
    exact .of_reads (hpieces ▸ hreads) rfl
  | bare m => cases he

end Reading

theorem source_of_source? {e : Expr} {s : String} (h : e.source? = .ok s) :
    e.isKnown ∧ e.source = s := by
  unfold source? at h
  split at h
  · exact ⟨‹_›, Except.ok.inj h⟩
  · cases h

/-- The source text of an expression is read back to it. -/
theorem ofSource?_source {e : Expr} (he : e.isKnown) (hn : ∀ x ∈ e.names, IsName x) :
    ofSource? e.source = some e.skeleton := by
  have hcuts := cuts_source he fun x hx => (hn x hx).isWord
  obtain ⟨l, gs, hread, hclose⟩ := (isReadBack he hn).reads []
  have hend : Construct.close l gs = (e.skeleton, []) := hclose
  rw [ofSource?, hcuts.pieces_eq, hread]
  dsimp only
  rw [hend]

theorem IsUntyped.unplaced_eq {e : Expr} (h : e.IsUntyped) : e.unplaced = e.skeleton :=
  mapMark_congr fun m hm => by rw [h m hm]

/-- Untyped expressions with the same source text differ in places only. -/
theorem source_injective {a b : Expr} (ha : a.IsUntyped) (hb : b.IsUntyped)
    (hna : ∀ x ∈ a.names, IsName x) (hnb : ∀ x ∈ b.names, IsName x) {s : String}
    (hsa : a.source? = .ok s) (hsb : b.source? = .ok s) : a.unplaced = b.unplaced := by
  obtain ⟨hka, rfl⟩ := source_of_source? hsa
  obtain ⟨hkb, hs⟩ := source_of_source? hsb
  have hread := ofSource?_source hka hna
  rw [← hs, ofSource?_source hkb hnb] at hread
  rw [ha.unplaced_eq, hb.unplaced_eq]
  exact (Option.some.inj hread).symm

/-- The same text in another file, where not every node has a place. -/
theorem source_injective_moved :
    let e (loc : Option Location) : Expr :=
      .letRec { loc } "f$1" (.lam {} "_x" (.app { loc } (.var {} "f$1") (.int {} (-1))))
        (.binary {} .sub (.app {} (.var { loc } "f$1") (.lam {} "in0" (.var {} "in0")))
          (.cond { loc } (.bool {} true) (.int {} 1) (.lam {} "y" (.var {} "y"))))
    let a := e none
    let b := e (some ⟨3, 7, "q"⟩)
    a ≠ b ∧ a.IsUntyped ∧ b.IsUntyped ∧ (∀ x ∈ a.names, IsName x) ∧ (∀ x ∈ b.names, IsName x) ∧
      (∃ s, a.source? = .ok s ∧ b.source? = .ok s) ∧ a.unplaced = b.unplaced := by
  intro e a b
  have ha : a.IsUntyped := by decide
  have hb : b.IsUntyped := by decide
  have hna : ∀ x ∈ a.names, IsName x := by decide
  have hnb : ∀ x ∈ b.names, IsName x := by decide
  have hsa : a.source? = .ok
      "let rec f$1 = _x -> f$1 -1 in f$1 (in0 -> in0) - (if true then 1 else y -> y)" := rfl
  have hsb : b.source? = a.source? := rfl
  exact ⟨by decide, ha, hb, hna, hnb, ⟨_, hsa, hsb.trans hsa⟩,
    source_injective ha hb hna hnb hsa (hsb.trans hsa)⟩

example : ofSource? "f -1" = some (.app {} (.var {} "f") (.int {} (-1))) ∧
    ofSource? "f - 1" = some (.binary {} .sub (.var {} "f") (.int {} 1)) := by
  decide

end Expr
end LetLower
