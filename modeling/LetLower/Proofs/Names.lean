import LetLower.NameSupply
import LetLower.Expr.Subtrees

/-!
# Names that a supply has still to hand out

A number is read back from its text, so a supply never draws one name twice. `Issues` are the
variables still to come, and `Marks` the names still to come for a base. Both sets only shrink as
the supply advances.
-/

namespace LetLower

namespace Text

theorem toDigits_injective {m n : Nat} (h : Nat.toDigits 10 m = Nat.toDigits 10 n) : m = n := by
  have hm := @Nat.ofDigitChars_ten_toDigits m
  rw [h, Nat.ofDigitChars_ten_toDigits] at hm
  exact hm.symm

theorem not_mem_toDigits {c : Char} (hc : c.isDigit = false) (m : Nat) : c ∉ Nat.toDigits 10 m := by
  intro h
  have hd := Nat.isDigit_of_mem_toDigits (by decide) (by decide) h
  rw [hc] at hd
  cases hd

theorem sign_ne_toDigits (m : Nat) (cs : List Char) : Nat.toDigits 10 m ≠ '-' :: cs :=
  fun h => not_mem_toDigits (by decide) m (h ▸ List.mem_cons_self)

theorem toList_toString_ofNat (m : Nat) :
    (toString (Int.ofNat m)).toList = Nat.toDigits 10 m := by
  change (Nat.repr m).toList = _
  exact Nat.toList_repr

theorem toList_toString_negSucc (m : Nat) :
    (toString (Int.negSucc m)).toList = '-' :: Nat.toDigits 10 (m + 1) := by
  change ("-" ++ Nat.repr (m + 1)).toList = _
  rw [String.toList_append, Nat.toList_repr]
  rfl

theorem toString_int_injective {m n : Int} (h : toString m = toString n) : m = n := by
  have hl : (toString m).toList = (toString n).toList := congrArg String.toList h
  cases m with
  | ofNat m =>
    cases n with
    | ofNat n =>
      rw [toList_toString_ofNat, toList_toString_ofNat] at hl
      rw [toDigits_injective hl]
    | negSucc n =>
      rw [toList_toString_ofNat, toList_toString_negSucc] at hl
      exact absurd hl (sign_ne_toDigits _ _)
  | negSucc m =>
    cases n with
    | ofNat n =>
      rw [toList_toString_ofNat, toList_toString_negSucc] at hl
      exact absurd hl.symm (sign_ne_toDigits _ _)
    | negSucc n =>
      rw [toList_toString_negSucc, toList_toString_negSucc] at hl
      have hmn : m + 1 = n + 1 := toDigits_injective (List.tail_eq_of_cons_eq hl)
      rw [Nat.succ.inj hmn]

end Text

namespace NameSupply

/-- The supply `s'` is `s` after some draws. -/
structure Reaches (s s' : NameSupply) : Prop where
  stem : s'.stem = s.stem
  next : s.next ≤ s'.next

/-- The name of a variable that has not been drawn. -/
def Issues (s : NameSupply) (x : String) : Prop := ∃ k, s.next ≤ k ∧ x = s.stem ++ toString k

/-- A name that has not been made from a base. -/
def Marks (s : NameSupply) (x : String) : Prop :=
  ∃ base k, s.next ≤ k ∧ x = root base ++ "$" ++ toString k

theorem Reaches.refl (s : NameSupply) : s.Reaches s := ⟨rfl, Int.le_refl _⟩

theorem Reaches.trans {s s' s'' : NameSupply} (h : s.Reaches s') (h' : s'.Reaches s'') :
    s.Reaches s'' :=
  ⟨h'.stem.trans h.stem, Int.le_trans h.next h'.next⟩

theorem reaches_advance (s : NameSupply) : s.Reaches s.advance :=
  ⟨rfl, by simp only [advance]; omega⟩

theorem Issues.of_reaches {s s' : NameSupply} {x : String} (h : s.Reaches s') (hx : s'.Issues x) :
    s.Issues x := by
  obtain ⟨k, hk, rfl⟩ := hx
  exact ⟨k, Int.le_trans h.next hk, by rw [h.stem]⟩

theorem Marks.of_reaches {s s' : NameSupply} {x : String} (h : s.Reaches s') (hx : s'.Marks x) :
    s.Marks x := by
  obtain ⟨base, k, hk, rfl⟩ := hx
  exact ⟨base, k, Int.le_trans h.next hk, rfl⟩

theorem issues_fresh (s : NameSupply) : s.Issues s.fresh.1 := ⟨s.next, Int.le_refl _, rfl⟩

theorem not_issues_fresh (s : NameSupply) : ¬ s.advance.Issues s.fresh.1 := by
  rintro ⟨k, hk, he⟩
  have hn : s.next = k := Text.toString_int_injective ((String.append_right_inj s.stem).1 he)
  simp only [advance] at hk
  omega

/-- Every variable starts with the stem. -/
theorem not_issues_of_not_prefix {s : NameSupply} {x : String}
    (h : ¬ s.stem.toList <+: x.toList) : ¬ s.Issues x := by
  rintro ⟨k, _, rfl⟩
  rw [String.toList_append] at h
  exact h (List.prefix_append _ _)

theorem Issues.exists_number {s s' : NameSupply} {x : String} (h : s.Issues x)
    (hs : s.Reaches s') (hn : ¬ s'.Issues x) :
    ∃ k, s.next ≤ k ∧ k < s'.next ∧ x = s.stem ++ toString k := by
  obtain ⟨k, hk, rfl⟩ := h
  refine ⟨k, hk, Int.not_le.1 fun hk' => hn ⟨k, hk', ?_⟩, rfl⟩
  rw [hs.stem]

theorem marks_freshFrom (s : NameSupply) (base : String) : s.Marks (s.freshFrom base).1 :=
  ⟨base, s.next, Int.le_refl _, rfl⟩

theorem root_no_mark (base : String) : '$' ∉ (root base).toList := by
  intro h
  rw [root, String.toList_ofList] at h
  have hall := List.all_eq_true.1 (List.all_takeWhile (l := base.toList)) '$' h
  simp at hall

/-- A name with a mark says from which root and at which number it was made. -/
theorem eq_of_marked_eq {r r' : List Char} {cs cs' : List Char} (hr : '$' ∉ r) (hr' : '$' ∉ r')
    (h : r ++ '$' :: cs = r' ++ '$' :: cs') : r = r' ∧ cs = cs' := by
  induction r generalizing r' with
  | nil =>
    cases r' with
    | nil => exact ⟨rfl, List.tail_eq_of_cons_eq h⟩
    | cons c r' =>
      obtain rfl : '$' = c := (List.cons.inj h).1
      exact absurd List.mem_cons_self hr'
  | cons c r ih =>
    cases r' with
    | nil =>
      obtain rfl : c = '$' := (List.cons.inj h).1
      exact absurd List.mem_cons_self hr
    | cons d r' =>
      obtain ⟨rfl, ht⟩ := List.cons.inj h
      obtain ⟨rfl, hcs⟩ := ih (fun hm => hr (.tail _ hm)) (fun hm => hr' (.tail _ hm)) ht
      exact ⟨rfl, hcs⟩

theorem toList_marked (r : String) (k : Int) :
    (r ++ "$" ++ toString k).toList = r.toList ++ '$' :: (toString k).toList := by
  rw [String.toList_append, String.toList_append, List.append_assoc]
  rfl

theorem not_marks_freshFrom (s : NameSupply) (base : String) :
    ¬ s.advance.Marks (s.freshFrom base).1 := by
  rintro ⟨base', k, hk, he⟩
  have hl := congrArg String.toList he
  rw [freshFrom, toList_marked, toList_marked] at hl
  have hn : s.next = k :=
    Text.toString_int_injective
      (String.toList_inj.1 (eq_of_marked_eq (root_no_mark _) (root_no_mark _) hl).2)
  simp only [advance] at hk
  omega

theorem not_marks_of_plain {s : NameSupply} {x : String} (hx : '$' ∉ x.toList) : ¬ s.Marks x := by
  rintro ⟨base, k, _, rfl⟩
  rw [toList_marked] at hx
  exact hx (List.mem_append_right _ List.mem_cons_self)

end NameSupply

theorem Expr.HasPlainNames.not_marks {e : Expr} (h : e.HasPlainNames) (s : NameSupply) :
    ∀ x ∈ e.names, ¬ s.Marks x :=
  fun x hx => NameSupply.not_marks_of_plain (h x hx)

end LetLower
