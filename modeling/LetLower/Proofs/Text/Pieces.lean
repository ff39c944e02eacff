import LetLower.Proofs.Names

/-!
# The pieces of a text

Texts of types and of expressions are made of words, blanks between them, and parentheses.
`Text.pieces` finds these again, and `Cuts s ps` says that it does so wherever `s` stands between
separators.
-/

namespace LetLower.Text

inductive Piece where
  | opened
  | closed
  | word (w : String)
deriving DecidableEq, Repr

def separators : List Char := [' ', '(', ')']

/-- Something that is cut out of a text as one piece. -/
structure IsWord (w : String) : Prop where
  ne_empty : w ≠ ""
  not_separator : ∀ c ∈ w.toList, c ∉ separators

instance (w : String) : Decidable (IsWord w) :=
  decidable_of_iff (w ≠ "" ∧ w.toList.all fun c => c ∉ separators)
    ⟨fun h => ⟨h.1, fun c hc => of_decide_eq_true (List.all_eq_true.1 h.2 c hc)⟩,
      fun h => ⟨h.1, List.all_eq_true.2 fun c hc => decide_eq_true (h.2 c hc)⟩⟩

def flush (w : List Char) : List Piece := if w.isEmpty then [] else [.word (String.ofList w)]

def piecesFrom : List Char → List Char → List Piece
  | w, [] => flush w
  | w, ' ' :: cs => flush w ++ piecesFrom [] cs
  | w, '(' :: cs => flush w ++ .opened :: piecesFrom [] cs
  | w, ')' :: cs => flush w ++ .closed :: piecesFrom [] cs
  | w, c :: cs => piecesFrom (w ++ [c]) cs

def pieces (s : String) : List Piece := piecesFrom [] s.toList

/-- A word ends before such a text. -/
def EndsWord (cs : List Char) : Prop := ∀ c ∈ cs.head?, c ∈ separators

theorem piecesFrom_append {v : List Char} (hv : ∀ c ∈ v, c ∉ separators) (w cs : List Char) :
    piecesFrom w (v ++ cs) = piecesFrom (w ++ v) cs := by
  induction v generalizing w with
  | nil => rw [List.nil_append, List.append_nil]
  | cons c v ih =>
    obtain ⟨hc, hv⟩ := List.forall_mem_cons.1 hv
    have hstep : piecesFrom w (c :: (v ++ cs)) = piecesFrom (w ++ [c]) (v ++ cs) := by
      rw [piecesFrom] <;> (rintro rfl; exact hc (by decide))
    rw [List.cons_append, hstep, ih hv, List.append_assoc, List.singleton_append]

theorem piecesFrom_of_endsWord {cs : List Char} (h : EndsWord cs) (w : List Char) :
    piecesFrom w cs = flush w ++ piecesFrom [] cs := by
  cases cs with
  | nil => simp [piecesFrom, flush]
  | cons c cs =>
    have hc := h c rfl
    simp only [separators, List.mem_cons, List.not_mem_nil, or_false] at hc
    rcases hc with rfl | rfl | rfl <;> simp [piecesFrom, flush]

/-- Between separators, the text is cut into these pieces. -/
def Cuts (s : String) (ps : List Piece) : Prop :=
  ∀ cs, EndsWord cs → piecesFrom [] (s.toList ++ cs) = ps ++ piecesFrom [] cs

namespace Cuts

variable {s s' : String} {ps ps' : List Piece}

theorem pieces_eq (h : Cuts s ps) : pieces s = ps := by
  have hs := h [] nofun
  rw [List.append_nil] at hs
  rw [pieces, hs]
  exact List.append_nil ps

theorem word {w : String} (hw : IsWord w) : Cuts w [.word w] := by
  intro cs hcs
  have hne : w.toList.isEmpty = false := by
    rw [List.isEmpty_eq_false_iff]
    exact fun h => hw.ne_empty (String.toList_eq_nil_iff.1 h)
  rw [piecesFrom_append hw.not_separator, List.nil_append, piecesFrom_of_endsWord hcs, flush, hne,
    String.ofList_toList]
  rfl

theorem blank (h : Cuts s ps) (h' : Cuts s' ps') : Cuts (s ++ " " ++ s') (ps ++ ps') := by
  intro cs hcs
  have hblank : EndsWord (' ' :: (s'.toList ++ cs)) := by
    rintro c ⟨⟩
    decide
  have htext : (s ++ " " ++ s').toList ++ cs = s.toList ++ ' ' :: (s'.toList ++ cs) := by simp
  rw [htext, h _ hblank, List.append_assoc, ← h' cs hcs]
  rfl

theorem before {m w : String} (hm : m = w ++ " ") (hw : IsWord w) (h : Cuts s ps) :
    Cuts (m ++ s) (.word w :: ps) := by
  rw [hm]
  exact (word hw).blank h

theorem between {m w : String} (hm : m = " " ++ w ++ " ") (hw : IsWord w) (h : Cuts s ps)
    (h' : Cuts s' ps') : Cuts (s ++ m ++ s') (ps ++ .word w :: ps') := by
  have htext : s ++ m ++ s' = s ++ " " ++ (w ++ " " ++ s') := by
    rw [hm]
    simp only [String.append_assoc]
  rw [htext]
  exact h.blank ((word hw).blank h')

theorem parens (h : Cuts s ps) : Cuts ("(" ++ s ++ ")") (.opened :: ps ++ [.closed]) := by
  intro cs hcs
  have hclosed : EndsWord (')' :: cs) := by
    rintro c ⟨⟩
    decide
  have htext : ("(" ++ s ++ ")").toList ++ cs = '(' :: (s.toList ++ ')' :: cs) := by simp
  have hcut : piecesFrom [] ('(' :: (s.toList ++ ')' :: cs))
      = .opened :: piecesFrom [] (s.toList ++ ')' :: cs) := rfl
  rw [htext, hcut, h _ hclosed, List.cons_append, List.cons_append, List.append_assoc]
  rfl

end Cuts

theorem isDigit_or_sign_of_mem_toString {n : Int} {c : Char} (h : c ∈ (toString n).toList) :
    c.isDigit ∨ c = '-' := by
  cases n with
  | ofNat m =>
    rw [toList_toString_ofNat] at h
    exact .inl (Nat.isDigit_of_mem_toDigits (by decide) (by decide) h)
  | negSucc m =>
    rw [toList_toString_negSucc] at h
    rcases List.mem_cons.1 h with rfl | h
    · exact .inr rfl
    · exact .inl (Nat.isDigit_of_mem_toDigits (by decide) (by decide) h)

def readInt : List Char → Int
  | '-' :: cs => -Nat.ofDigitChars 10 cs 0
  | cs => Nat.ofDigitChars 10 cs 0

theorem readInt_toString (n : Int) : readInt (toString n).toList = n := by
  cases n with
  | ofNat m =>
    rw [toList_toString_ofNat, readInt.eq_def]
    split
    · rename_i h
      exact absurd h (sign_ne_toDigits m _)
    · rw [Nat.ofDigitChars_ten_toDigits]
      rfl
  | negSucc m =>
    rw [toList_toString_negSucc, readInt, Nat.ofDigitChars_ten_toDigits]
    rfl

theorem ne_toString {w : String} (h : toString (readInt w.toList) ≠ w) (n : Int) :
    toString n ≠ w := by
  rintro rfl
  rw [readInt_toString] at h
  exact h rfl

theorem isWord_toString (n : Int) : IsWord (toString n) where
  ne_empty := ne_toString (by decide) n
  not_separator c hc hs := by
    simp only [separators, List.mem_cons, List.not_mem_nil, or_false] at hs
    rcases isDigit_or_sign_of_mem_toString hc with hd | rfl
    · rcases hs with rfl | rfl | rfl <;> exact absurd hd (by decide)
    · exact absurd hs (by decide)

end LetLower.Text
