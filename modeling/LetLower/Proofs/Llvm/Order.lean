import LetLower.Proofs.Llvm.Emit
import LetLower.Proofs.Llvm.Names
import Mathlib.Data.List.Induction
import Mathlib.Data.List.Nodup

/-!
# The order of emitted instructions

The number of a register counts the registers of its base before it: these are there already, and
it is not among them. Slots are allocated first, so whatever is read has been defined. An emission
keeps this order, and so emitted functions are well named.
-/

namespace LetLower.Llvm

/-- What the instruction needs is defined, and its target is the next register of a base. -/
structure Instr.Continues (defined : List Register) (i : Instr) : Prop where
  uses : ∀ r ∈ i.uses, r ∈ defined
  target : ∀ r, i.target? = some r → r ∉ defined ∧ ∀ j < r.copy, ⟨r.base, j⟩ ∈ defined

theorem Instr.continues_of_target_none {defined : List Register} {i : Instr}
    (hi : i.target? = none) (h : ∀ r ∈ i.uses, r ∈ defined) : i.Continues defined where
  uses := h
  target r hr := by
    rw [hi] at hr
    cases hr

/-- Each instruction continues what is defined before it. -/
def Ordered (defined : List Register) (code : List Instr) : Prop :=
  ∀ before i after, code = before ++ i :: after →
    i.Continues (defined ++ before.filterMap Instr.target?)

namespace Ordered

variable {defined : List Register} {code code' : List Instr} {i : Instr}

theorem append (h : Ordered defined code)
    (h' : Ordered (defined ++ code.filterMap Instr.target?) code') :
    Ordered defined (code ++ code') := by
  intro before i after hsplit
  rcases List.append_eq_append_iff.1 hsplit with ⟨between, rfl, hcode'⟩ | ⟨between, rfl, hafter⟩
  · have hi := h' between i after hcode'
    rwa [List.append_assoc, ← List.filterMap_append] at hi
  · cases between with
    | nil =>
      have hi := h' [] i after hafter.symm
      rwa [List.filterMap_nil, List.append_nil, List.append_nil] at hi
    | cons j between =>
      obtain ⟨rfl, _⟩ := List.cons.inj hafter
      exact h before i between rfl

theorem singleton (h : i.Continues defined) : Ordered defined [i] := by
  intro before j after hsplit
  rcases List.append_eq_cons_iff.1 hsplit.symm with ⟨rfl, hj⟩ | ⟨_, _, hnil⟩
  · cases hj
    rwa [List.filterMap_nil, List.append_nil]
  · exact absurd hnil.symm (List.append_ne_nil_of_right_ne_nil _ (List.cons_ne_nil _ _))

theorem of_target_none (h : ∀ i ∈ code, i.target? = none ∧ ∀ r ∈ i.uses, r ∈ defined) :
    Ordered defined code := by
  rintro before i after rfl
  obtain ⟨hi, huses⟩ := h i (List.mem_append_right _ List.mem_cons_self)
  exact Instr.continues_of_target_none hi fun r hr => List.mem_append_left _ (huses r hr)

theorem nil (defined : List Register) : Ordered defined [] :=
  of_target_none (List.forall_mem_nil _)

theorem nodup (h : Ordered defined code) (hd : defined.Nodup) :
    (defined ++ code.filterMap Instr.target?).Nodup := by
  induction code using List.reverseRecOn with
  | nil => rwa [List.filterMap_nil, List.append_nil]
  | append_singleton code i ih =>
    have hcode : Ordered defined code := fun before j after hsplit =>
      h before j (after ++ [i]) (by rw [hsplit, List.append_assoc]; rfl)
    have hi := h code i [] rfl
    rw [List.filterMap_append, ← List.append_assoc]
    cases ht : i.target? with
    | none =>
      rw [List.filterMap_cons_none ht, List.filterMap_nil, List.append_nil]
      exact ih hcode
    | some r =>
      rw [List.filterMap_cons_some ht, List.filterMap_nil]
      exact List.nodup_append.2 ⟨ih hcode, List.nodup_singleton r, fun a ha b hb => by
        obtain rfl := List.mem_singleton.1 hb
        exact fun hab => (hi.target b ht).1 (hab ▸ ha)⟩

end Ordered

theorem defines_define_iff {s : Emission} {b : Base} {r : Register} :
    (s.define b).2.Defines r ↔ s.Defines r ∨ r = (s.define b).1 := by
  obtain ⟨c, k⟩ := r
  by_cases hc : c = b
  · subst hc
    simp only [Emission.Defines, Emission.define, List.count_cons_self, Register.mk.injEq,
      true_and]
    exact Nat.lt_succ_iff_lt_or_eq
  · have hne : ⟨c, k⟩ ≠ (s.define b).1 := fun he => hc (congrArg Register.base he)
    simp only [Emission.Defines, Emission.define, List.count_cons_of_ne (Ne.symm hc)]
    exact (or_iff_left hne).symm

/-- In a function whose first registers are given, the instructions so far are in order, and their
targets are the registers that the emission has named. -/
structure Emission.InOrder (first : List Register) (s : Emission) : Prop where
  defines : ∀ r, s.Defines r ↔ r ∈ s.instrs.reverse.filterMap Instr.target?
  ordered : Ordered first s.instrs.reverse

namespace Emission.InOrder

variable {first : List Register} {s : Emission} {i : Instr} {b : Base}

theorem mem_defined (h : s.InOrder first) {r : Register} :
    r ∈ first ++ s.instrs.reverse.filterMap Instr.target? ↔ r ∈ first ∨ s.Defines r := by
  rw [List.mem_append, h.defines]

theorem start (first : List Register) : Emission.InOrder first {} where
  defines _ := ⟨fun h => absurd h (Nat.not_lt_zero _), fun h => nomatch h⟩
  ordered := .nil first

theorem push (h : s.InOrder first) (hi : i.target? = none)
    (huses : ∀ r ∈ i.uses, r ∈ first ∨ s.Defines r) : (s.push i).InOrder first where
  defines r := by
    change s.Defines r ↔ _
    rw [Emission.push, List.reverse_cons, List.filterMap_append, List.filterMap_cons_none hi,
      List.filterMap_nil, List.append_nil, h.defines]
  ordered := by
    rw [Emission.push, List.reverse_cons]
    exact h.ordered.append (.singleton (Instr.continues_of_target_none hi fun r hr =>
      h.mem_defined.2 (huses r hr)))

theorem push_define (h : s.InOrder first) (hb : ∀ k, ⟨b, k⟩ ∉ first)
    (hi : i.target? = some (s.define b).1) (huses : ∀ r ∈ i.uses, r ∈ first ∨ s.Defines r) :
    ((s.define b).2.push i).InOrder first where
  defines r := by
    change (s.define b).2.Defines r ↔ _
    rw [defines_define_iff, h.defines, instrs_push_define, List.reverse_cons,
      List.filterMap_append, List.filterMap_cons_some hi, List.filterMap_nil, List.mem_append,
      List.mem_singleton]
  ordered := by
    rw [instrs_push_define, List.reverse_cons]
    refine h.ordered.append (.singleton ⟨fun r hr => h.mem_defined.2 (huses r hr), fun r hr => ?_⟩)
    obtain rfl := Option.some.inj (hi.symm.trans hr)
    refine ⟨fun hmem => ?_, fun j hj => h.mem_defined.2 (.inr hj)⟩
    exact (h.mem_defined.1 hmem).elim (hb _) not_defines_define

end Emission.InOrder

theorem exists_of_bind_ok {α β : Type} {x : Except EmitError α} {g : α → Except EmitError β} {b : β}
    (h : x >>= g = .ok b) : ∃ a, x = .ok a ∧ g a = .ok b := by
  cases x with
  | error => cases h
  | ok a => exact ⟨a, rfl, h⟩

section

variable {t : SlotType} {slots : List SlotType} {index : Int} {s s' : Emission}

theorem lt_of_slotAt {i : Nat} {u : SlotType} (h : slotAt slots index = .ok (i, u)) :
    i < slots.length := by
  unfold slotAt at h
  split at h
  · rename_i j hj
    split at h
    · cases h
      exact Code.slotIndex?_lt hj
    · cases h
  · cases h

theorem emitStore_ok {value o : Option Value} (h : emitStore slots index value s = .ok (o, s')) :
    ∃ i v, i < slots.length ∧ value = some v ∧ o = none ∧ s' = s.push (.store v ⟨.slot i, 0⟩) := by
  obtain ⟨⟨i, u⟩, hslot, h⟩ := exists_of_bind_ok h
  cases value with
  | none => cases h
  | some v =>
    dsimp only at h
    split at h
    · cases h
      exact ⟨i, v, lt_of_slotAt hslot, rfl, rfl, rfl⟩
    · cases h

theorem emitAdd_ok {left right o : Option Value} (h : emitAdd left right s = .ok (o, s')) :
    ∃ l r, left = some l ∧ right = some r ∧
      o = some ⟨l.type, .register (s.define .sum).1⟩ ∧
      s' = (s.define .sum).2.push (.add (s.define .sum).1 l.type l.operand r.operand) := by
  unfold emitAdd at h
  split at h
  · split at h
    · cases h
      exact ⟨_, _, rfl, rfl, rfl, rfl⟩
    · cases h
  · cases h

end

theorem Emission.DefinesOperand.registers {s : Emission} {o : Operand} (h : s.DefinesOperand o) :
    ∀ r ∈ o.registers, s.Defines r := by
  cases o with
  | const => exact fun r hr => absurd hr List.not_mem_nil
  | register r =>
    intro r' hr
    cases List.mem_singleton.1 hr
    exact h

theorem Emission.DefinesOperand.mono {s s' : Emission} {o : Operand} (h : s.DefinesOperand o)
    (hs : ∀ r, s.Defines r → s'.Defines r) : s'.DefinesOperand o := by
  cases o with
  | const => trivial
  | register r => exact hs r h

/-- The registers that are given to a body: its slots are among them, and no result of a load or of
a sum is. -/
structure IsGiven (count : Nat) (first : List Register) : Prop where
  slot : ∀ i < count, ⟨.slot i, 0⟩ ∈ first
  loaded : ∀ index k, ⟨.loaded index, k⟩ ∉ first
  sum : ∀ k, ⟨.sum, k⟩ ∉ first

/-- From the emission `s` to `s'` the instructions stay in order, and the value can be used. -/
structure Emission.Leads (first : List Register) (s : Emission) (value : Option Value)
    (s' : Emission) : Prop where
  inOrder : s'.InOrder first
  defines : ∀ r, s.Defines r → s'.Defines r
  value : ∀ v, value = some v → s'.DefinesOperand v.operand

theorem Emission.Leads.refl {first : List Register} {s : Emission} (h : s.InOrder first) :
    s.Leads first none s where
  inOrder := h
  defines _ hr := hr
  value _ hv := nomatch hv

theorem Emission.Leads.trans {first : List Register} {s s₁ s₂ : Emission} {o o' : Option Value}
    (h : s.Leads first o s₁) (h' : s₁.Leads first o' s₂) : s.Leads first o' s₂ where
  inOrder := h'.inOrder
  defines r hr := h'.defines r (h.defines r hr)
  value := h'.value

section

variable {t : SlotType} {slots : List SlotType} {first : List Register}

mutual

theorem leads_emitNode (hf : IsGiven slots.length first) :
    (n : Code.Node) → ∀ {s s' : Emission} {value : Option Value}, s.InOrder first →
      emitNode t slots n s = .ok (value, s') → s.Leads first value s'
  | .const k, s, s', value, hs, h => by
    rw [emitNode] at h
    cases h
    exact ⟨hs, fun _ hr => hr, fun v hv => by cases hv; trivial⟩
  | .get index, s, s', value, hs, h => by
    rw [emitNode] at h
    obtain ⟨⟨i, u⟩, hslot, h⟩ := exists_of_bind_ok h
    cases h
    refine ⟨hs.push_define (hf.loaded index) rfl fun r hr => .inl ?_, fun _ hr => hr.define,
      fun v hv => by cases hv; exact defines_define⟩
    rw [List.mem_singleton.1 hr]
    exact hf.slot i (lt_of_slotAt hslot)
  | .set index v, s, s', value, hs, h => by
    rw [emitNode] at h
    obtain ⟨⟨stored, s₁⟩, hv, h⟩ := exists_of_bind_ok h
    obtain ⟨i, w, hi, rfl, rfl, rfl⟩ := emitStore_ok h
    have hl := leads_emitNode hf v hs hv
    refine ⟨hl.inOrder.push rfl fun r hr => ?_, hl.defines, fun _ hv => nomatch hv⟩
    rcases List.mem_append.1 hr with hr | hr
    · exact .inr ((hl.value w rfl).registers r hr)
    · rw [List.mem_singleton.1 hr]
      exact .inl (hf.slot i hi)
  | .block children _, s, s', value, hs, h => by
    rw [emitNode] at h
    exact leads_emitNodes hf children (.refl hs) h
  | .add l r, s, s', value, hs, h => by
    rw [emitNode] at h
    obtain ⟨⟨left, s₁⟩, hleft, h⟩ := exists_of_bind_ok h
    obtain ⟨⟨right, s₂⟩, hright, h⟩ := exists_of_bind_ok h
    obtain ⟨x, y, rfl, rfl, rfl, rfl⟩ := emitAdd_ok h
    have hl := leads_emitNode hf l hs hleft
    have hr := leads_emitNode hf r hl.inOrder hright
    refine ⟨hr.inOrder.push_define hf.sum rfl fun r' hr' => .inr ?_,
      fun r' hr' => (hr.defines r' (hl.defines r' hr')).define,
      fun v hv => by cases hv; exact defines_define⟩
    rcases List.mem_append.1 hr' with hr' | hr'
    · exact ((hl.value x rfl).mono hr.defines).registers r' hr'
    · exact (hr.value y rfl).registers r' hr'
  | .foreign _, _, _, _, _, h => by
    rw [emitNode] at h
    cases h

theorem leads_emitNodes (hf : IsGiven slots.length first) :
    (ns : List Code.Node) → ∀ {s₀ s s' : Emission} {last value : Option Value},
      s₀.Leads first last s → emitNodes t slots ns last s = .ok (value, s') →
      s₀.Leads first value s'
  | [], s₀, s, s', last, value, hs, h => by
    rw [emitNodes] at h
    cases h
    exact hs
  | n :: ns, s₀, s, s', last, value, hs, h => by
    rw [emitNodes] at h
    obtain ⟨⟨next, s₁⟩, hn, h⟩ := exists_of_bind_ok h
    exact leads_emitNodes hf ns (hs.trans (leads_emitNode hf n hs.inOrder hn)) h

end

end

theorem mem_targets_allocations {slots : List SlotType} {r : Register} :
    r ∈ (allocations slots).filterMap Instr.target? ↔ ∃ i < slots.length, r = ⟨.slot i, 0⟩ := by
  constructor
  · intro h
    obtain ⟨i, hi, ht⟩ := List.mem_filterMap.1 h
    obtain ⟨j, hj, rfl⟩ := List.mem_mapIdx.1 hi
    cases ht
    exact ⟨j, hj, rfl⟩
  · rintro ⟨i, hi, rfl⟩
    exact List.mem_filterMap.2 ⟨_, List.mem_mapIdx.2 ⟨i, hi, rfl⟩, rfl⟩

theorem ordered_allocations {defined : List Register} (slots : List SlotType)
    (h : ∀ i, ⟨.slot i, 0⟩ ∉ defined) : Ordered defined (allocations slots) := by
  intro before i after hsplit
  obtain ⟨done, rest, rfl, hdone, hrest⟩ := List.mapIdx_eq_append_iff.1 hsplit
  obtain ⟨u, _, _, rfl, _⟩ := List.mapIdx_eq_cons_iff.1 hrest
  refine ⟨fun r hr => absurd hr List.not_mem_nil, fun r hr => ?_⟩
  cases hr
  refine ⟨fun hmem => ?_, fun j hj => absurd hj (Nat.not_lt_zero j)⟩
  rcases List.mem_append.1 hmem with hmem | hmem
  · exact h _ hmem
  · rw [← hdone] at hmem
    obtain ⟨j, hj, he⟩ := mem_targets_allocations.1 hmem
    rw [Nat.zero_add] at he
    cases he
    exact Nat.lt_irrefl _ hj

theorem ordered_argumentStores {defined : List Register} {params : List SlotType}
    (harguments : ∀ i < params.length, ⟨.argument i, 0⟩ ∈ defined)
    (hslots : ∀ i < params.length, ⟨.slot i, 0⟩ ∈ defined) :
    Ordered defined (argumentStores params) := by
  refine .of_target_none fun i hi => ?_
  obtain ⟨j, hj, rfl⟩ := List.mem_mapIdx.1 hi
  refine ⟨rfl, fun r hr => ?_⟩
  rcases List.mem_append.1 hr with hr | hr
  · rw [List.mem_singleton.1 hr]
    exact harguments j hj
  · rw [List.mem_singleton.1 hr]
    exact hslots j hj

theorem Routine.mem_arguments {f : Routine} {r : Register} :
    r ∈ f.arguments ↔ ∃ i < f.params.length, r = ⟨.argument i, 0⟩ := by
  simp only [arguments, List.mem_map, List.mem_range, eq_comm]

theorem isGiven_start (f : Code.Function) {r : Routine} :
    IsGiven f.slots.length (r.arguments ++
      (allocations f.slots ++ argumentStores f.params).filterMap Instr.target?) := by
  have hgiven : ∀ x : Register, x ∈ r.arguments ++
      (allocations f.slots ++ argumentStores f.params).filterMap Instr.target? →
      (∃ i, x.base = .argument i) ∨ ∃ i, x.base = .slot i := by
    intro x hx
    rw [List.filterMap_append] at hx
    rcases List.mem_append.1 hx with hx | hx
    · obtain ⟨i, _, rfl⟩ := Routine.mem_arguments.1 hx
      exact .inl ⟨i, rfl⟩
    rcases List.mem_append.1 hx with hx | hx
    · obtain ⟨i, _, rfl⟩ := mem_targets_allocations.1 hx
      exact .inr ⟨i, rfl⟩
    · obtain ⟨i, hi, ht⟩ := List.mem_filterMap.1 hx
      obtain ⟨j, _, rfl⟩ := List.mem_mapIdx.1 hi
      cases ht
  refine ⟨fun i hi => ?_, fun index k hk => ?_, fun k hk => ?_⟩
  · rw [List.filterMap_append]
    exact List.mem_append_right _ (List.mem_append_left _ (mem_targets_allocations.2 ⟨i, hi, rfl⟩))
  · rcases hgiven _ hk with ⟨_, h⟩ | ⟨_, h⟩
    · cases h
    · cases h
  · rcases hgiven _ hk with ⟨_, h⟩ | ⟨_, h⟩
    · cases h
    · cases h

theorem emitFunction_ok {f : Code.Function} {r : Routine} (h : emitFunction f = .ok r) :
    ∃ value s, emitNode f.returnType f.slots f.body {} = .ok (value, s) ∧ r.params = f.params ∧
      r.body = allocations f.slots ++ argumentStores f.params ++ s.instrs.reverse ++
        [.ret (value.getD ⟨f.returnType, .const 0⟩)] := by
  obtain ⟨⟨value, s⟩, hbody, h⟩ := exists_of_bind_ok h
  cases h
  exact ⟨value, s, hbody, rfl, rfl⟩

/-- What stands before a body allocates the slots, and reads arguments and slots only. -/
theorem ordered_start {f : Code.Function} {r : Routine} (hr : r.params = f.params) :
    Ordered r.arguments (allocations f.slots ++ argumentStores f.params) := by
  refine (ordered_allocations _ fun i hi => ?_).append
    (ordered_argumentStores (fun i hi => ?_) fun i hi => ?_)
  · obtain ⟨j, _, he⟩ := Routine.mem_arguments.1 hi
    cases he
  · exact List.mem_append_left _ (Routine.mem_arguments.2 ⟨i, hr ▸ hi, rfl⟩)
  · refine List.mem_append_right _ (mem_targets_allocations.2 ⟨i, ?_, rfl⟩)
    rw [Code.Function.slots, List.length_append]
    exact Nat.lt_add_right _ hi

theorem ordered_emitFunction {f : Code.Function} {r : Routine} (h : emitFunction f = .ok r) :
    Ordered r.arguments r.body := by
  obtain ⟨value, s, hbody, hparams, hcode⟩ := emitFunction_ok h
  have hl := leads_emitNode (isGiven_start f (r := r)) f.body (.start _) hbody
  rw [hcode]
  refine ((ordered_start hparams).append hl.inOrder.ordered).append
    (.singleton (Instr.continues_of_target_none rfl fun x hx => ?_))
  rw [List.filterMap_append, ← List.append_assoc]
  refine hl.inOrder.mem_defined.2 (.inr ?_)
  cases value with
  | none => exact absurd hx List.not_mem_nil
  | some v => exact (hl.value v rfl).registers x hx

theorem wellNamed_emitFunction {f : Code.Function} {r : Routine} (h : emitFunction f = .ok r) :
    r.WellNamed := by
  have ho := ordered_emitFunction h
  have harguments : r.arguments.Nodup := by
    refine List.Nodup.map (fun i j hij => ?_) List.nodup_range
    cases hij
    rfl
  have hentry : ∀ before, "entry" ∉ (r.defined before).map Register.text := by
    intro before hmem
    obtain ⟨x, _, hx⟩ := List.mem_map.1 hmem
    exact x.text_ne_entry hx
  refine ⟨?_, fun before i after hbody x hx => ?_, fun before i after x hbody hx => ?_⟩
  · exact List.nodup_cons.2 ⟨hentry _, (ho.nodup harguments).map Register.text_injective⟩
  · exact List.mem_map_of_mem ((ho before i after hbody).uses x hx)
  · obtain ⟨hnew, hbelow⟩ := (ho before i after hbody).target x hx
    refine ⟨x.copy, rfl, fun hmem => ?_, fun j hj => ?_⟩
    · rcases List.mem_cons.1 hmem with he | hmem
      · exact x.text_ne_entry he
      · exact hnew ((List.mem_map_of_injective Register.text_injective).1 hmem)
    · exact .tail _ (List.mem_map.2 ⟨_, hbelow j hj, rfl⟩)

end LetLower.Llvm
