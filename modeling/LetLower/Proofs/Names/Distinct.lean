import LetLower.Request
import LetLower.Proofs.Names
import LetLower.Proofs.Pass
import Mathlib.Data.List.Forall2

/-!
# No name is handed out twice

A stem without the mark keeps the variables apart from the names that are made from a base. What a
supply has still to offer does not include what it has handed out, so the names of a run of requests
differ, whatever their bases are.
-/

namespace LetLower

namespace Text

theorem mark_not_mem_toString (k : Int) : '$' ∉ (toString k).toList := by
  cases k with
  | ofNat n =>
    rw [toList_toString_ofNat]
    exact not_mem_toDigits (by decide) n
  | negSucc n =>
    rw [toList_toString_negSucc]
    exact List.not_mem_cons_of_ne_of_not_mem (by decide) (not_mem_toDigits (by decide) (n + 1))

end Text

namespace NameSupply

variable {s s' : NameSupply} {x : String}

theorem Issues.unmarked (h : s.Issues x) (hs : '$' ∉ s.stem.toList) : '$' ∉ x.toList := by
  obtain ⟨k, _, rfl⟩ := h
  rw [String.toList_append, List.mem_append, not_or]
  exact ⟨hs, Text.mark_not_mem_toString k⟩

theorem Marks.marked (h : s.Marks x) : '$' ∈ x.toList :=
  Decidable.not_not.1 fun hn => not_marks_of_plain hn h

/-- The name has not been handed out, neither as that of a variable nor for a base. -/
def Offers (s : NameSupply) (x : String) : Prop := s.Issues x ∨ s.Marks x

theorem Offers.of_reaches (h : s.Reaches s') (hx : s'.Offers x) : s.Offers x :=
  hx.imp (·.of_reaches h) (·.of_reaches h)

theorem offers_fresh (s : NameSupply) : s.Offers s.fresh.1 := .inl s.issues_fresh

theorem offers_freshFrom (s : NameSupply) (base : String) : s.Offers (s.freshFrom base).1 :=
  .inr (s.marks_freshFrom base)

theorem not_offers_fresh (hs : '$' ∉ s.stem.toList) : ¬ s.advance.Offers s.fresh.1 := by
  rintro (h | h)
  · exact s.not_issues_fresh h
  · exact s.issues_fresh.unmarked hs h.marked

theorem not_offers_freshFrom (hs : '$' ∉ s.stem.toList) (base : String) :
    ¬ s.advance.Offers (s.freshFrom base).1 := by
  rintro (h | h)
  · exact h.unmarked hs (s.marks_freshFrom base).marked
  · exact s.not_marks_freshFrom base h

end NameSupply

def Request.Allows (r : Request) (x : String) : Prop := ∀ base, r = .nameFrom base → '$' ∈ x.toList

namespace Pass

open NameSupply

theorem gives_fresh (s : NameSupply) : fresh.Gives s s.fresh.1 s.advance := fun log => ⟨log, rfl⟩

theorem exists_serve (r : Request) {s : NameSupply} (hs : '$' ∉ s.stem.toList) :
    ∃ x, (serve r).Gives s x s.advance ∧ s.Offers x ∧ ¬ s.advance.Offers x ∧ r.Allows x := by
  cases r with
  | name =>
    refine ⟨s.fresh.1, gives_fresh s, s.offers_fresh, not_offers_fresh hs, fun base h => ?_⟩
    cases h
  | nameFrom base =>
    refine ⟨(s.freshFrom base).1, gives_freshFrom base s, s.offers_freshFrom base,
      not_offers_freshFrom hs base, fun _ _ => (s.marks_freshFrom base).marked⟩
  | typeVar =>
    refine ⟨s.fresh.1, (gives_freshVar s).bind (gives_pure _ _), s.offers_fresh,
      not_offers_fresh hs, fun base h => ?_⟩
    cases h

/-- A run of requests is answered by names that were offered before it and are not offered after
it, all of them different. -/
theorem exists_serveAll (rs : List Request) {s : NameSupply} (hs : '$' ∉ s.stem.toList) :
    ∃ xs s', (serveAll rs).Gives s xs s' ∧ s.Reaches s' ∧ List.Forall₂ Request.Allows rs xs ∧
      xs.Nodup ∧ ∀ x ∈ xs, s.Offers x := by
  induction rs generalizing s with
  | nil => exact ⟨[], s, gives_pure [] s, .refl s, .nil, .nil, fun _ h => absurd h List.not_mem_nil⟩
  | cons r rs ih =>
    obtain ⟨x, hx, hoff, hgone, hallow⟩ := exists_serve r hs
    obtain ⟨xs, s', hxs, hreach, hall, hnodup, hoffs⟩ := ih (s := s.advance) hs
    refine ⟨x :: xs, s', ?_, s.reaches_advance.trans hreach, .cons hallow hall, ?_, ?_⟩
    · rw [serveAll, List.mapM_cons]
      exact hx.bind (hxs.bind (gives_pure _ _))
    · exact List.nodup_cons.2 ⟨fun hmem => hgone (hoffs x hmem), hnodup⟩
    · exact List.forall_mem_cons.2 ⟨hoff, fun y hy => (hoffs y hy).of_reaches s.reaches_advance⟩

/-- Whatever is asked of one supply, the names that are handed out differ, and one that is made from
a base is no name without the mark. -/
theorem serveAll_distinct {s : NameSupply} (hs : '$' ∉ s.stem.toList) (rs : List Request) :
    ∃ xs, ((serveAll rs).run s).1 = .ok xs ∧ xs.Nodup ∧
      List.Forall₂ (fun r x => ∀ base, r = .nameFrom base → ∀ y : String, '$' ∉ y.toList → x ≠ y)
        rs xs := by
  obtain ⟨xs, s', hxs, -, hall, hnodup, -⟩ := exists_serveAll rs hs
  refine ⟨xs, hxs.run_ok, hnodup, hall.imp fun r x hallow base hr y hy he => ?_⟩
  exact hy (he ▸ hallow base hr)

/-- Numbers of both signs; the stem ends in a digit, and a base is a name that was handed out
before. -/
theorem serveAll_distinct_below_zero :
    let s : NameSupply := { stem := "t1", next := -1 }
    let rs : List Request :=
      [.name, .name, .nameFrom "x", .nameFrom "x$1", .typeVar, .nameFrom "", .nameFrom "t10$a$b"]
    let xs : List String := ["t1-1", "t10", "x$1", "x$2", "t13", "$4", "t10$5"]
    '$' ∉ s.stem.toList ∧ ((serveAll rs).run s).1 = .ok xs ∧ xs.Nodup := by
  intro s rs xs
  have hs : '$' ∉ s.stem.toList := by decide
  have hxs : ((serveAll rs).run s).1 = .ok xs := rfl
  obtain ⟨ys, hys, hnodup, _⟩ := serveAll_distinct hs rs
  obtain rfl : xs = ys := Except.ok.inj (hxs.symm.trans hys)
  exact ⟨hs, hxs, hnodup⟩

end Pass
end LetLower
