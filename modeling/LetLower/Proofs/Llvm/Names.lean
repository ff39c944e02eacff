import LetLower.Llvm.Names
import LetLower.Proofs.Names

/-!
# Registers and their names

The dots in the name of a register separate what it holds, an index, and a number. None of these has
a dot in it, so the register can be read back from its name.
-/

namespace LetLower

theorem Text.splitOn_dot_toDigits (n : Nat) :
    (Nat.toDigits 10 n).splitOn '.' = [Nat.toDigits 10 n] :=
  List.splitOn_eq_singleton (not_mem_toDigits (by decide) n)

theorem Text.splitOn_dot_toString (n : Int) :
    (toString n).toList.splitOn '.' = [(toString n).toList] := by
  cases n with
  | ofNat n =>
    rw [toList_toString_ofNat]
    exact splitOn_dot_toDigits n
  | negSucc n =>
    refine List.splitOn_eq_singleton fun h => ?_
    rw [toList_toString_negSucc] at h
    exact (List.mem_cons.1 h).elim (by decide) (not_mem_toDigits (by decide) _)

namespace Llvm

/-- What stands between the dots of a base name. -/
def Base.fields : Base → List (List Char)
  | argument i => ["arg".toList, Nat.toDigits 10 i]
  | slot i => ["slot".toList, Nat.toDigits 10 i]
  | loaded index => ["get".toList, (toString index).toList]
  | sum => ["add".toList]

def copyFields (k : Nat) : List (List Char) := if k = 0 then [] else [Nat.toDigits 10 k]

theorem splitOn_dot_append (stem : String) (cs : List Char) :
    ((stem ++ ".").toList ++ cs).splitOn '.' =
      stem.toList.splitOn '.' ++ cs.splitOn '.' := by
  rw [String.toList_append, List.append_assoc]
  exact List.splitOn_append_cons_self _ _

theorem splitOn_dot_append_nat (stem : String) (n : Nat) :
    (stem ++ "." ++ toString n).toList.splitOn '.' =
      stem.toList.splitOn '.' ++ [Nat.toDigits 10 n] := by
  change (stem ++ "." ++ Nat.repr n).toList.splitOn '.' = _
  rw [String.toList_append, Nat.toList_repr, splitOn_dot_append, Text.splitOn_dot_toDigits]

theorem Base.splitOn_text (b : Base) : b.text.toList.splitOn '.' = b.fields := by
  cases b with
  | argument i => exact splitOn_dot_append_nat "arg" i
  | slot i => exact splitOn_dot_append_nat "slot" i
  | loaded index =>
    change ("get" ++ "." ++ toString index).toList.splitOn '.' = _
    rw [String.toList_append, splitOn_dot_append, Text.splitOn_dot_toString]
    rfl
  | sum => rfl

theorem splitOn_numbered (base : String) (k : Nat) :
    (numbered base k).toList.splitOn '.' = base.toList.splitOn '.' ++ copyFields k := by
  unfold numbered copyFields
  split
  · rw [List.append_nil]
  · exact splitOn_dot_append_nat base k

theorem copyFields_injective {k k' : Nat} (h : copyFields k = copyFields k') : k = k' := by
  unfold copyFields at h
  split at h <;> split at h
  · omega
  · cases h
  · cases h
  · exact Text.toDigits_injective (List.cons.inj h).1

theorem Base.eq_of_fields_append {b b' : Base} {fs fs' : List (List Char)}
    (h : b.fields ++ fs = b'.fields ++ fs') : b = b' ∧ fs = fs' := by
  cases b with
  | argument i =>
    cases b' with
    | argument j =>
      obtain ⟨hi, hfs⟩ := List.cons.inj (List.cons.inj h).2
      exact ⟨congrArg argument (Text.toDigits_injective hi), hfs⟩
    | slot | loaded | sum => exact absurd (List.cons.inj h).1 (by decide)
  | slot i =>
    cases b' with
    | slot j =>
      obtain ⟨hi, hfs⟩ := List.cons.inj (List.cons.inj h).2
      exact ⟨congrArg slot (Text.toDigits_injective hi), hfs⟩
    | argument | loaded | sum => exact absurd (List.cons.inj h).1 (by decide)
  | loaded index =>
    cases b' with
    | loaded index' =>
      obtain ⟨hi, hfs⟩ := List.cons.inj (List.cons.inj h).2
      exact ⟨congrArg loaded (Text.toString_int_injective (String.toList_inj.1 hi)), hfs⟩
    | argument | slot | sum => exact absurd (List.cons.inj h).1 (by decide)
  | sum =>
    cases b' with
    | sum => exact ⟨rfl, (List.cons.inj h).2⟩
    | argument | slot | loaded => exact absurd (List.cons.inj h).1 (by decide)

theorem Register.splitOn_text (r : Register) :
    r.text.toList.splitOn '.' = r.base.fields ++ copyFields r.copy := by
  rw [← Base.splitOn_text, ← splitOn_numbered]
  rfl

/-- A register is read back from its name. -/
theorem Register.text_injective : Function.Injective Register.text := by
  intro r r' h
  have hfields := r.splitOn_text
  rw [h, r'.splitOn_text] at hfields
  obtain ⟨hb, hk⟩ := Base.eq_of_fields_append hfields
  cases r
  cases r'
  cases hb
  cases copyFields_injective hk
  rfl

theorem Register.text_ne_entry (r : Register) : r.text ≠ "entry" := by
  intro h
  have hfields := r.splitOn_text
  rw [h] at hfields
  obtain ⟨b, k⟩ := r
  cases b <;> exact absurd (List.cons.inj hfields).1 (by decide)

end Llvm
end LetLower
