import LetLower.Llvm.Run
import LetLower.Proofs.Code.Slots

/-!
# Emitted instructions do what the code does

Where code can be followed over its row of slots, instructions are emitted for it, and they leave
in memory what the code leaves in the row. Registers are never written twice: those that were named
before keep what they hold, so an operand that was computed first is still there when it is used.
-/

namespace LetLower.Llvm

open Code (Row)

def Emission.Defines (s : Emission) (r : Register) : Prop := r.copy < s.used.count r.base

def Emission.DefinesOperand (s : Emission) : Operand → Prop
  | .const _ => True
  | .register r => s.Defines r

/-- The memory holds what the row holds. -/
def Memory.Holds (m : Memory) (row : Row) : Prop :=
  ∀ i n, row[i]? = some (some n) → m.slots.lookup ⟨.slot i, 0⟩ = some n

/-- The instructions take the one memory to the other, whatever comes after them. -/
def Executes (code : List Instr) (m m' : Memory) : Prop :=
  ∀ rest, exec (code ++ rest) m = exec rest m'

theorem executes_nil (m : Memory) : Executes [] m m := fun _ => rfl

theorem Executes.append {code code' : List Instr} {m m₁ m₂ : Memory} (h : Executes code m m₁)
    (h' : Executes code' m₁ m₂) : Executes (code ++ code') m m₂ := by
  intro rest
  rw [List.append_assoc, h, h']

section

variable {s : Emission} {b : Base} {r : Register} {m m' : Memory} {row row' : Row}

theorem not_defines_define : ¬ s.Defines (s.define b).1 := Nat.lt_irrefl _

theorem defines_define : (s.define b).2.Defines (s.define b).1 := by
  simp only [Emission.Defines, Emission.define, List.count_cons_self, Nat.lt_succ_self]

theorem instrs_push_define (i : Instr) : ((s.define b).2.push i).instrs = i :: s.instrs := rfl

theorem Emission.Defines.define (h : s.Defines r) : (s.define b).2.Defines r :=
  Nat.lt_of_lt_of_le h (List.count_le_count_cons)

theorem lookup_setRegister_of_defines (h : s.Defines r) (n : Int) :
    (m.setRegister (s.define b).1 n).registers.lookup r = m.registers.lookup r := by
  have hne : r ≠ (s.define b).1 := by
    rintro rfl
    exact not_defines_define h
  simp only [Memory.setRegister, List.lookup_cons, beq_eq_false_iff_ne.2 hne]

theorem lookup_setRegister_self (n : Int) :
    (m.setRegister r n).registers.lookup r = some n := by
  simp only [Memory.setRegister, List.lookup_cons, beq_self_eq_true]

theorem Memory.Holds.setRegister (h : m.Holds row) (n : Int) : (m.setRegister r n).Holds row := h

theorem Memory.Holds.setSlot (h : m.Holds row) {i : Nat} (n : Int) :
    (m.setSlot ⟨.slot i, 0⟩ n).Holds (row.set i (some n)) := by
  intro j k hj
  by_cases hij : j = i
  · subst hij
    obtain ⟨hlt, _⟩ := List.getElem?_eq_some_iff.1 hj
    rw [List.length_set] at hlt
    rw [List.getElem?_set_self hlt] at hj
    obtain rfl := Option.some.inj (Option.some.inj hj)
    simp only [Memory.setSlot, List.lookup_cons, beq_self_eq_true]
  · rw [List.getElem?_set_ne (Ne.symm hij)] at hj
    have hne : (⟨.slot j, 0⟩ : Register) ≠ ⟨.slot i, 0⟩ := fun he => by
      cases he
      exact hij rfl
    simp only [Memory.setSlot, List.lookup_cons, beq_eq_false_iff_ne.2 hne]
    exact h j k hj

theorem operand?_congr {t : SlotType} {o : Operand} (ho : s.DefinesOperand o)
    (h : ∀ r, s.Defines r → m'.registers.lookup r = m.registers.lookup r) :
    m'.operand? t o = m.operand? t o := by
  cases o with
  | const => rfl
  | register r => exact h r ho

end

/-- From the emission `s` to `s'`, the instructions between them do what takes the row to `row'`
and yields `o`; what is yielded is in the value. -/
structure Emission.Follows (t : SlotType) (s : Emission) (row : Row) (o : Option Int) (row' : Row)
    (value : Option Value) (s' : Emission) : Prop where
  defines : ∀ r, s.Defines r → s'.Defines r
  yields : o = none ∧ value = none ∨
    ∃ n operand, o = some n ∧ value = some ⟨t, operand⟩ ∧ s'.DefinesOperand operand
  runs : ∃ code, s'.instrs = code.reverse ++ s.instrs ∧ (∀ v, .ret v ∉ code) ∧
    ∀ m : Memory, m.Holds row → ∃ m' : Memory,
      Executes code m m' ∧ m'.Holds row' ∧
      (∀ r, s.Defines r → m'.registers.lookup r = m.registers.lookup r) ∧
      ∀ n operand, o = some n → value = some ⟨t, operand⟩ → m'.operand? t operand = some n

namespace Emission.Follows

variable {t : SlotType} {s s₁ s₂ : Emission} {row row₁ row₂ : Row} {o o' : Option Int}
  {value value' : Option Value} {n : Int}

theorem refl (t : SlotType) (s : Emission) (row : Row) : Follows t s row none row none s where
  defines _ h := h
  yields := .inl ⟨rfl, rfl⟩
  runs := ⟨[], rfl, fun _ => List.not_mem_nil, fun m hm =>
    ⟨m, executes_nil m, hm, fun _ _ => rfl, fun _ _ h => nomatch h⟩⟩

theorem const (t : SlotType) (s : Emission) (row : Row) (n : Int) :
    Follows t s row (some (t.wrap n)) row (some ⟨t, .const n⟩) s where
  defines _ h := h
  yields := .inr ⟨_, _, rfl, rfl, trivial⟩
  runs := by
    refine ⟨[], rfl, fun _ => List.not_mem_nil, fun m hm =>
      ⟨m, executes_nil m, hm, fun _ _ => rfl, ?_⟩⟩
    rintro k operand ⟨⟩ ⟨⟩
    rfl

theorem trans (h : Follows t s row o row₁ value s₁) (h' : Follows t s₁ row₁ o' row₂ value' s₂) :
    Follows t s row o' row₂ value' s₂ where
  defines r hr := h'.defines r (h.defines r hr)
  yields := h'.yields
  runs := by
    obtain ⟨code, hcode, hret, hruns⟩ := h.runs
    obtain ⟨code', hcode', hret', hruns'⟩ := h'.runs
    refine ⟨code ++ code', ?_, fun v hv => ?_, fun m hm => ?_⟩
    · rw [hcode', hcode, List.reverse_append, List.append_assoc]
    · exact (List.mem_append.1 hv).elim (hret v) (hret' v)
    · obtain ⟨m₁, hx, hm₁, hr, _⟩ := hruns m hm
      obtain ⟨m₂, hx', hm₂, hr', hv⟩ := hruns' m₁ hm₁
      exact ⟨m₂, hx.append hx', hm₂, fun r hd => (hr' r (h.defines r hd)).trans (hr r hd), hv⟩

theorem exists_operand (h : Follows t s row (some n) row₁ value s₁) :
    ∃ operand, value = some ⟨t, operand⟩ ∧ s₁.DefinesOperand operand := by
  rcases h.yields with ⟨h, _⟩ | ⟨_, operand, _, hv, hd⟩
  · cases h
  · exact ⟨operand, hv, hd⟩

theorem load {i : Nat} (index : Int) (hi : row[i]? = some (some n)) :
    Follows t s row (some n) row (some ⟨t, .register (s.define (.loaded index)).1⟩)
      ((s.define (.loaded index)).2.push (.load (s.define (.loaded index)).1 t ⟨.slot i, 0⟩)) where
  defines _ h := h.define
  yields := .inr ⟨_, _, rfl, rfl, defines_define⟩
  runs := by
    refine ⟨[.load (s.define (.loaded index)).1 t ⟨.slot i, 0⟩], rfl,
      fun v hv => (nomatch List.mem_singleton.1 hv), fun m hm => ?_⟩
    refine ⟨m.setRegister (s.define (.loaded index)).1 n, fun rest => ?_, hm.setRegister n,
      fun r hr => lookup_setRegister_of_defines hr n, ?_⟩
    · simp only [List.singleton_append, exec, hm i n hi, Option.bind_eq_bind, Option.bind_some]
    · rintro k operand ⟨⟩ ⟨⟩
      exact lookup_setRegister_self n

theorem store {operand : Operand} {i : Nat}
    (h : Follows t s row (some n) row₁ (some ⟨t, operand⟩) s₁) :
    Follows t s row none (row₁.set i (some n)) none
      (s₁.push (.store ⟨t, operand⟩ ⟨.slot i, 0⟩)) where
  defines := h.defines
  yields := .inl ⟨rfl, rfl⟩
  runs := by
    obtain ⟨code, hcode, hret, hruns⟩ := h.runs
    refine ⟨code ++ [.store ⟨t, operand⟩ ⟨.slot i, 0⟩], ?_, fun v hv => ?_, fun m hm => ?_⟩
    · rw [Emission.push, hcode, List.reverse_append]
      rfl
    · exact (List.mem_append.1 hv).elim (hret v) fun hv => nomatch List.mem_singleton.1 hv
    · obtain ⟨m₁, hx, hm₁, hr, hv⟩ := hruns m hm
      refine ⟨m₁.setSlot ⟨.slot i, 0⟩ n, hx.append fun rest => ?_, hm₁.setSlot n, hr,
        fun _ _ h => nomatch h⟩
      simp only [List.singleton_append, exec, hv n operand rfl rfl, Option.bind_eq_bind,
        Option.bind_some]

theorem add {p q : Int} {left right : Operand}
    (hl : Follows t s row (some p) row₁ (some ⟨t, left⟩) s₁)
    (hr : Follows t s₁ row₁ (some q) row₂ (some ⟨t, right⟩) s₂) :
    Follows t s row (some (t.wrap (p + q))) row₂ (some ⟨t, .register (s₂.define .sum).1⟩)
      ((s₂.define .sum).2.push (.add (s₂.define .sum).1 t left right)) where
  defines r h := (hr.defines r (hl.defines r h)).define
  yields := .inr ⟨_, _, rfl, rfl, defines_define⟩
  runs := by
    obtain ⟨_, hleft, hdef⟩ := hl.exists_operand
    cases hleft
    obtain ⟨code, hcode, hret, hruns⟩ := hl.runs
    obtain ⟨code', hcode', hret', hruns'⟩ := hr.runs
    refine ⟨code ++ code' ++ [.add (s₂.define .sum).1 t left right], ?_, fun v hv => ?_,
      fun m hm => ?_⟩
    · simp only [instrs_push_define, hcode', hcode, List.reverse_append, List.reverse_singleton,
        List.nil_append, List.cons_append, List.append_assoc]
    · rcases List.mem_append.1 hv with hv | hv
      · exact (List.mem_append.1 hv).elim (hret v) (hret' v)
      · exact nomatch List.mem_singleton.1 hv
    · obtain ⟨m₁, hx, hm₁, hr₁, hv⟩ := hruns m hm
      obtain ⟨m₂, hx', hm₂, hr₂, hv'⟩ := hruns' m₁ hm₁
      have hp : m₂.operand? t left = some p := (operand?_congr hdef hr₂).trans (hv p left rfl rfl)
      have hq := hv' q right rfl rfl
      refine ⟨m₂.setRegister (s₂.define .sum).1 (t.wrap (p + q)),
        (hx.append hx').append fun rest => ?_, hm₂.setRegister _, fun r hd => ?_, ?_⟩
      · simp only [List.singleton_append, exec, hp, hq, Option.bind_eq_bind, Option.bind_some]
      · rw [lookup_setRegister_of_defines (hr.defines r (hl.defines r hd)), hr₂ r (hl.defines r hd),
          hr₁ r hd]
      · rintro k operand ⟨⟩ ⟨⟩
        exact lookup_setRegister_self _

end Emission.Follows

/-- The slots are all of one type. -/
def IsUniform (t : SlotType) (slots : List SlotType) : Prop := ∀ u ∈ slots, u = t

theorem slotAt_ok {t : SlotType} {slots : List SlotType} (hu : IsUniform t slots) {index : Int}
    {i : Nat} (h : Code.slotIndex? slots.length index = some i) :
    slotAt slots index = .ok (i, t) := by
  have hi := Code.slotIndex?_lt h
  have ht : slots[i]? = some t := by
    rw [List.getElem?_eq_getElem hi, hu _ (List.getElem_mem hi)]
  simp only [slotAt, h, ht]
  rfl

variable {t : SlotType} {slots : List SlotType}

mutual

theorem follows_of_eval (hu : IsUniform t slots) :
    (n : Code.Node) → ∀ {s : Emission} {row row' : Row} {o : Option Int},
      row.length = slots.length → n.eval t row = some (o, row') →
      row'.length = slots.length ∧ ∃ value s',
        emitNode t slots n s = .ok (value, s') ∧ s.Follows t row o row' value s'
  | .const k, s, row, row', o, hlen, h => by
    rw [Code.Node.eval] at h
    cases h
    exact ⟨hlen, _, _, by rw [emitNode], .const t s row k⟩
  | .get index, s, row, row', o, hlen, h => by
    rw [Code.Node.eval] at h
    obtain ⟨k, hk, h⟩ := Option.bind_eq_some_iff.1 h
    cases h
    obtain ⟨i, hi, hik⟩ := Code.readSlot_eq_some_iff.1 hk
    rw [hlen] at hi
    refine ⟨hlen, _, _, ?_, .load index hik⟩
    rw [emitNode, slotAt_ok hu hi]
    rfl
  | .set index v, s, row, row', o, hlen, h => by
    rw [Code.Node.eval] at h
    obtain ⟨⟨o₁, row₁⟩, hv, h₁⟩ := Option.bind_eq_some_iff.1 h
    obtain ⟨k, hk, h₂⟩ := Option.bind_eq_some_iff.1 h₁
    obtain ⟨row₂, hw, h₃⟩ := Option.bind_eq_some_iff.1 h₂
    obtain rfl : o₁ = some k := hk
    cases h₃
    obtain ⟨hlen₁, value, s₁, hs₁, hf⟩ := follows_of_eval hu v hlen hv
    obtain ⟨operand, rfl, _⟩ := hf.exists_operand
    obtain ⟨i, hi, rfl⟩ := Code.writeSlot_eq_some_iff.1 hw
    rw [hlen₁] at hi
    refine ⟨by rw [List.length_set, hlen₁], _, _, ?_, hf.store⟩
    rw [emitNode, hs₁]
    change emitStore slots index (some ⟨t, operand⟩) s₁ = _
    rw [emitStore, slotAt_ok hu hi]
    exact if_pos rfl
  | .block children _, s, row, row', o, hlen, h => by
    rw [Code.Node.eval] at h
    rw [emitNode]
    exact follows_of_evalAll hu children hlen (.refl t s row) h
  | .add l r, s, row, row', o, hlen, h => by
    rw [Code.Node.eval] at h
    obtain ⟨⟨o₁, row₁⟩, hl, h₁⟩ := Option.bind_eq_some_iff.1 h
    obtain ⟨⟨o₂, row₂⟩, hr, h₂⟩ := Option.bind_eq_some_iff.1 h₁
    obtain ⟨p, hp, h₃⟩ := Option.bind_eq_some_iff.1 h₂
    obtain ⟨q, hq, h₄⟩ := Option.bind_eq_some_iff.1 h₃
    obtain rfl : o₁ = some p := hp
    obtain rfl : o₂ = some q := hq
    cases h₄
    obtain ⟨hlen₁, _, s₁, hs₁, hf⟩ := follows_of_eval hu l hlen hl
    obtain ⟨hlen₂, _, s₂, hs₂, hf'⟩ := follows_of_eval hu r hlen₁ hr
    obtain ⟨left, rfl, _⟩ := hf.exists_operand
    obtain ⟨right, rfl, _⟩ := hf'.exists_operand
    refine ⟨hlen₂, _, _, ?_, hf.add hf'⟩
    rw [emitNode, hs₁]
    change (emitNode t slots r s₁ >>= _) = _
    rw [hs₂]
    exact if_pos rfl
  | .foreign _, _, _, _, _, _, h => by
    rw [Code.Node.eval] at h
    cases h

theorem follows_of_evalAll (hu : IsUniform t slots) :
    (ns : List Code.Node) → ∀ {s₀ s : Emission} {row₀ row row' : Row} {last o : Option Int}
      {value : Option Value}, row.length = slots.length → s₀.Follows t row₀ last row value s →
      Code.Node.evalAll t last ns row = some (o, row') →
      row'.length = slots.length ∧ ∃ value' s',
        emitNodes t slots ns value s = .ok (value', s') ∧ s₀.Follows t row₀ o row' value' s'
  | [], s₀, s, row₀, row, row', last, o, value, hlen, hf, h => by
    rw [Code.Node.evalAll] at h
    cases h
    exact ⟨hlen, _, _, by rw [emitNodes], hf⟩
  | n :: ns, s₀, s, row₀, row, row', last, o, value, hlen, hf, h => by
    rw [Code.Node.evalAll] at h
    obtain ⟨⟨last', row₁⟩, hn, h⟩ := Option.bind_eq_some_iff.1 h
    obtain ⟨hlen₁, value', s₁, hs₁, hf₁⟩ := follows_of_eval hu n hlen hn
    rw [emitNodes, hs₁]
    exact follows_of_evalAll hu ns hlen₁ (hf.trans hf₁) h

end

end LetLower.Llvm
