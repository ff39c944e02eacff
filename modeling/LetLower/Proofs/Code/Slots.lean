import LetLower.Code.Eval

/-!
# Slots of a row

An index stands for a slot or for none. Where it stands for one, the row is read and written there.
-/

namespace LetLower.Code

theorem slotIndex?_natCast {count i : Nat} (h : i < count) : slotIndex? count i = some i := by
  have hi : (if (i : Int) < 0 then (i : Int) + count else i) = i := if_neg (by omega)
  simp only [slotIndex?, hi]
  rw [if_pos ⟨by omega, by omega⟩, Int.toNat_natCast]

theorem slotIndex?_lt {count i : Nat} {index : Int} (h : slotIndex? count index = some i) :
    i < count := by
  simp only [slotIndex?] at h
  generalize (if index < 0 then index + (count : Int) else index) = j at h
  split at h
  · obtain rfl := Option.some.inj h
    omega
  · cases h

theorem readSlot_eq_some_iff {row : Row} {index n : Int} :
    readSlot row index = some n ↔
      ∃ i, slotIndex? row.length index = some i ∧ row[i]? = some (some n) := by
  refine Option.bind_eq_some_iff.trans (exists_congr fun i => and_congr_right fun _ => ?_)
  exact Option.join_eq_some_iff

theorem writeSlot_eq_some_iff {row row' : Row} {index n : Int} :
    writeSlot row index n = some row' ↔
      ∃ i, slotIndex? row.length index = some i ∧ row' = row.set i (some n) := by
  refine Option.bind_eq_some_iff.trans (exists_congr fun i => and_congr_right fun _ => ?_)
  exact ⟨fun h => (Option.some.inj h).symm, fun h => congrArg some h.symm⟩

theorem readSlot_natCast {row : Row} {i : Nat} {n : Int} (h : row[i]? = some (some n)) :
    readSlot row i = some n := by
  obtain ⟨hi, _⟩ := List.getElem?_eq_some_iff.1 h
  exact readSlot_eq_some_iff.2 ⟨i, slotIndex?_natCast hi, h⟩

theorem writeSlot_natCast {row : Row} {i : Nat} (h : i < row.length) (n : Int) :
    writeSlot row i n = some (row.set i (some n)) :=
  writeSlot_eq_some_iff.2 ⟨i, slotIndex?_natCast h, rfl⟩

end LetLower.Code
