import LetLower.Code.WellFormed
import LetLower.Proofs.Code.Slots

/-!
# Well-formed code has a value

No step of well-formed code lacks an answer: a slot is written before it is read, and a value stands
wherever one is needed. What is proved of a node speaks of the accesses that come after it as well,
so that the nodes of a block can be taken one after the other.
-/

namespace LetLower.Code

/-- The accesses can be done on the row: what they read is there or is written by them before. -/
def Row.Admits (row : Row) (accesses : List Access) : Prop :=
  ∃ written, (∀ i ∈ written, ∃ n, row[i]? = some (some n)) ∧
    writesFirst row.length written accesses

namespace Row.Admits

variable {row : Row} {index : Int} {rest : List Access}

theorem read (h : Row.Admits row (.read index :: rest)) :
    ∃ n, readSlot row index = some n ∧ Row.Admits row rest := by
  obtain ⟨written, hrow, hw⟩ := h
  rw [writesFirst] at hw
  split at hw
  · rename_i i hi
    simp only [Bool.and_eq_true, decide_eq_true_eq] at hw
    obtain ⟨n, hn⟩ := hrow i hw.1
    exact ⟨n, readSlot_eq_some_iff.2 ⟨i, hi, hn⟩, written, hrow, hw.2⟩
  · cases hw

theorem write (h : Row.Admits row (.write index :: rest)) (n : Int) :
    ∃ row', writeSlot row index n = some row' ∧ Row.Admits row' rest := by
  obtain ⟨written, hrow, hw⟩ := h
  rw [writesFirst] at hw
  split at hw
  · rename_i i hi
    refine ⟨_, writeSlot_eq_some_iff.2 ⟨i, hi, rfl⟩, i :: written, fun j hj => ?_, ?_⟩
    · by_cases hij : i = j
      · subst hij
        exact ⟨n, List.getElem?_set_self (slotIndex?_lt hi)⟩
      · rw [List.getElem?_set_ne hij]
        exact hrow j ((List.mem_cons.1 hj).resolve_left (Ne.symm hij))
    · rwa [List.length_set]
  · cases hw

end Row.Admits

variable {t : SlotType}

mutual

/-- A node whose operands yield runs on every row that admits it, and yields if it should. -/
theorem Node.exists_eval : (n : Node) → ∀ {row : Row} {rest : List Access},
    Row.Admits row (n.accesses ++ rest) → n.operandsYield →
    ∃ o row', n.eval t row = some (o, row') ∧ o.isSome = n.yields ∧ Row.Admits row' rest
  | .const k, row, rest, h, _ => ⟨_, row, by rw [Node.eval], rfl, h⟩
  | .get index, row, rest, h, _ => by
    obtain ⟨n, hn, hrest⟩ := h.read
    exact ⟨some n, row, by rw [Node.eval, hn]; rfl, rfl, hrest⟩
  | .set index v, row, rest, h, hop => by
    simp only [Node.operandsYield, Bool.and_eq_true] at hop
    rw [Node.accesses, List.append_assoc] at h
    obtain ⟨o, row₁, hv, ho, h₁⟩ := v.exists_eval h hop.2
    obtain ⟨n, rfl⟩ := Option.isSome_iff_exists.1 (ho.trans hop.1)
    obtain ⟨row₂, hw, h₂⟩ := h₁.write n
    refine ⟨none, row₂, ?_, rfl, h₂⟩
    simp only [Node.eval, hv, hw, Option.bind_eq_bind, Option.bind_some, Option.pure_def]
  | .block children _, row, rest, h, hop => by
    obtain ⟨o, row', hc, ho, h'⟩ := Node.exists_evalAll children none h hop
    refine ⟨o, row', by rw [Node.eval, hc], ?_, h'⟩
    rw [ho, Node.yields]
    cases children with
    | nil => rfl
    | cons => rfl
  | .add l r, row, rest, h, hop => by
    simp only [Node.operandsYield, Bool.and_eq_true] at hop
    rw [Node.accesses, List.append_assoc] at h
    obtain ⟨o, row₁, hl, ho, h₁⟩ := l.exists_eval h hop.1.1.2
    obtain ⟨p, rfl⟩ := Option.isSome_iff_exists.1 (ho.trans hop.1.1.1)
    obtain ⟨o, row₂, hr, ho, h₂⟩ := r.exists_eval h₁ hop.2
    obtain ⟨q, rfl⟩ := Option.isSome_iff_exists.1 (ho.trans hop.1.2)
    refine ⟨some (t.wrap (p + q)), row₂, ?_, rfl, h₂⟩
    simp only [Node.eval, hl, hr, Option.bind_eq_bind, Option.bind_some, Option.pure_def]
  | .foreign _, _, _, _, hop => by cases hop

theorem Node.exists_evalAll : (ns : List Node) → ∀ (last : Option Int) {row : Row}
    {rest : List Access}, Row.Admits row (Node.accessesAll ns ++ rest) →
    Node.allOperandsYield ns →
    ∃ o row', Node.evalAll t last ns row = some (o, row') ∧
      o.isSome = (if ns.isEmpty then last.isSome else Node.lastYields ns) ∧ Row.Admits row' rest
  | [], last, row, rest, h, _ => ⟨last, row, by rw [Node.evalAll], rfl, h⟩
  | n :: ns, last, row, rest, h, hop => by
    simp only [Node.allOperandsYield, Bool.and_eq_true] at hop
    rw [Node.accessesAll, List.append_assoc] at h
    obtain ⟨o₁, row₁, hn, ho₁, h₁⟩ := n.exists_eval h hop.1
    obtain ⟨o₂, row₂, hns, ho₂, h₂⟩ := Node.exists_evalAll ns o₁ h₁ hop.2
    refine ⟨o₂, row₂, ?_, ?_, h₂⟩
    · simp only [Node.evalAll, hn, hns, Option.bind_eq_bind, Option.bind_some]
    · rw [ho₂]
      cases ns with
      | nil => exact ho₁
      | cons => rfl

end

theorem Function.length_initialRow {f : Function} {args : List Int}
    (hargs : args.length = f.params.length) : (f.initialRow args).length = f.slots.length := by
  simp only [initialRow, slots, List.length_append, List.length_map, List.length_zip,
    List.length_replicate, hargs, Nat.min_self]

theorem Function.getElem?_initialRow {f : Function} {args : List Int}
    (hargs : args.length = f.params.length) {i : Nat} (hi : i < f.params.length) :
    ∃ n, (f.initialRow args)[i]? = some (some n) := by
  have hlen : i < (f.params.zip args).length := by
    rw [List.length_zip, hargs, Nat.min_self]
    exact hi
  refine ⟨(f.params.zip args)[i].1.wrap (f.params.zip args)[i].2, ?_⟩
  rw [initialRow, List.getElem?_append_left (by rwa [List.length_map]), List.getElem?_map,
    List.getElem?_eq_getElem hlen]
  rfl

/-- A well-formed function returns on all arguments, and zero if its body yields nothing. -/
theorem Function.WellFormed.exists_eval {f : Function} (h : f.WellFormed) {args : List Int}
    (hargs : args.length = f.params.length) :
    ∃ n, f.eval args = some n ∧ (f.body.yields = false → n = 0) := by
  have hadmits : Row.Admits (f.initialRow args) (f.body.accesses ++ []) := by
    refine ⟨List.range f.params.length, fun i hi => ?_, ?_⟩
    · exact Function.getElem?_initialRow hargs (List.mem_range.1 hi)
    · rw [Function.length_initialRow hargs, List.append_nil]
      exact h.writesFirst
  obtain ⟨o, row, hbody, ho, _⟩ := f.body.exists_eval (t := f.returnType) hadmits h.operandsYield
  refine ⟨o.getD (f.returnType.wrap 0), ?_, fun hy => ?_⟩
  · simp only [eval, hbody, Option.bind_eq_bind, Option.bind_some, Option.pure_def]
  · rw [hy] at ho
    rw [Option.isNone_iff_eq_none.1 (Option.isSome_eq_false_iff.1 ho)]
    exact Int.zero_bmod

end LetLower.Code
