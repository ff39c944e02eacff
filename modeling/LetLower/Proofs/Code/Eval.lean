import LetLower.Proofs.Code.Lower
import LetLower.Proofs.Code.Slots
import LetLower.Proofs.Eval.Cost

/-!
# Lowered code computes what the program does

What has code comes to a value, and the code yields it as an integer within the width of a slot.
Integers may leave that width on the way: a sum is kept by the width alone, so it does not matter
whether its operands were cut before. The induction is over the rules; a subterm leaves the slots of
the scope as they are and writes only slots that it added.
-/

namespace LetLower

namespace SlotType

theorem wrap_add (t : SlotType) (m n : Int) : t.wrap (t.wrap m + t.wrap n) = t.wrap (m + n) := by
  simp only [wrap, Int.bmod_add_bmod, Int.add_bmod_bmod]

end SlotType

/-- A node yields an integer within the width of a slot, and keeps the slots below a count. -/
structure Code.Node.Computes (slot : SlotType) (count : Nat) (n : Code.Node) (row : Code.Row)
    (p : Int) (row' : Code.Row) : Prop where
  eval : n.eval slot row = some (some (slot.wrap p), row')
  length : row'.length = row.length
  below : ∀ i, i < count → row'[i]? = row[i]?

namespace Code.Node.Computes

variable {slot : SlotType} {count count' i : Nat} {n n' : Code.Node} {row row₁ row₂ : Code.Row}
  {p q : Int}

theorem const : Computes slot count (.const p) row p row where
  eval := by rw [Node.eval]
  length := rfl
  below _ _ := rfl

theorem get (h : row[i]? = some (some (slot.wrap p))) :
    Computes slot count (.get i) row p row where
  eval := by
    simp only [Node.eval, readSlot_natCast h, Option.bind_eq_bind, Option.bind_some,
      Option.pure_def]
  length := rfl
  below _ _ := rfl

theorem add (hn : n.Computes slot count row p row₁) (hn' : n'.Computes slot count' row₁ q row₂)
    (hc : count ≤ count') : Computes slot count (.add n n') row (p + q) row₂ where
  eval := by
    simp only [Node.eval, hn.eval, hn'.eval, Option.bind_eq_bind, Option.bind_some,
      Option.pure_def, slot.wrap_add]
  length := hn'.length.trans hn.length
  below i hi := by rw [hn'.below i (Nat.lt_of_lt_of_le hi hc), hn.below i hi]

/-- A value is kept in a slot that is new, and code follows that may read it. -/
theorem store (hn : n.Computes slot count row p row₁) (hi : i < row₁.length) (hc : count ≤ i)
    (hn' : n'.Computes slot (i + 1) (row₁.set i (some (slot.wrap p))) q row₂) :
    Computes slot count (.block [.set i n, n'] "") row q row₂ where
  eval := by
    simp only [Node.eval, Node.evalAll, hn.eval, writeSlot_natCast hi, hn'.eval,
      Option.bind_eq_bind, Option.bind_some, Option.pure_def]
  length := by rw [hn'.length, List.length_set, hn.length]
  below j hj := by rw [hn'.below j (by omega), List.getElem?_set_ne (by omega), hn.below j hj]

end Code.Node.Computes

/-- Below the count, the slots of the scope hold what its names come to; other names are those of
predefined functions. -/
structure Scope.Holds (slot : SlotType) (scope : Scope) (ρ : ValueEnv) (row : Code.Row)
    (count : Nat) : Prop where
  bound : ∀ x i, scope.get? x = some i → i < count
  slots : ∀ x i v k, scope.get? x = some i → Expr.Costs ρ (.var {} x) v k →
    ∃ p, v.number? = some p ∧ row[i]? = some (some (slot.wrap p))
  others : ∀ x v k, x ∉ scope → Expr.Costs ρ (.var {} x) v k →
    Expr.Costs .builtins (.var {} x) v k

namespace Scope.Holds

variable {slot : SlotType} {scope : Scope} {ρ : ValueEnv} {row row' : Code.Row}
  {count count' : Nat} {x : String} {w : Value} {p : Int}

theorem congr (h : Holds slot scope ρ row count) (hc : count ≤ count')
    (hr : ∀ i, i < count → row'[i]? = row[i]?) : Holds slot scope ρ row' count' where
  bound x i hx := Nat.lt_of_lt_of_le (h.bound x i hx) hc
  slots x i v k hx hv := by
    rw [hr i (h.bound x i hx)]
    exact h.slots x i v k hx hv
  others := h.others

theorem builtins (slot : SlotType) (row : Code.Row) : Holds slot ∅ .builtins row 0 where
  bound x i hx := by
    rw [Bindings.get?_empty] at hx
    cases hx
  slots x i v k hx _ := by
    rw [Bindings.get?_empty] at hx
    cases hx
  others _ _ _ _ hv := hv

theorem insert (h : Holds slot scope ρ row count) (hw : w.number? = some p)
    (hr : row[count]? = some (some (slot.wrap p))) :
    Holds slot (Bindings.insert scope x count) (ρ.bind x w) row (count + 1) where
  bound z i hz := by
    rw [Bindings.get?_insert] at hz
    split at hz
    · obtain rfl := Option.some.inj hz
      exact Nat.lt_succ_self count
    · exact Nat.lt_succ_of_lt (h.bound z i hz)
  slots z i v k hz hv := by
    rw [Bindings.get?_insert] at hz
    split at hz
    · rename_i hzx
      obtain rfl := Option.some.inj hz
      rw [hzx] at hv
      obtain ⟨rfl, _⟩ := Expr.costs_bound_iff.1 hv
      exact ⟨p, hw, hr⟩
    · rename_i hzx
      exact h.slots z i v k hz ((Expr.costs_var_iff (.bind w) hzx).1 hv)
  others z v k hz hv := by
    rw [Bindings.mem_insert, not_or] at hz
    exact h.others z v k hz.2 ((Expr.costs_var_iff (.bind w) hz.1).1 hv)

end Scope.Holds

namespace Expr

theorem costs_sum {ρ : ValueEnv} {m m' m'' : Mark} {l r : Expr} {v : Value} {n : Nat}
    (hadd : ∀ g k, Costs ρ (var {} addName) g k → Costs .builtins (var {} addName) g k)
    (h : Costs ρ (app m (app m' (var m'' addName) l) r) v n) :
    ∃ u w i j p q, Costs ρ l u i ∧ Costs ρ r w j ∧ u.number? = some p ∧ w.number? = some q ∧
      v = .int (p + q) := by
  obtain ⟨f, w, _, j, _, hf, hr, hv, _⟩ := costs_app_iff.1 h
  obtain ⟨g, u, _, i, _, hg, hl, hf, _⟩ := costs_app_iff.1 hf
  have hg := hadd g _ (hg.remark {})
  rw [ValueEnv.builtins, addName] at hg
  obtain ⟨rfl, _⟩ := costs_bound_iff.1 hg
  obtain ⟨rfl, _⟩ := hf
  obtain ⟨p, q, hp, hq, hv, _⟩ := hv
  exact ⟨u, w, i, j, p, q, hl, hr, hp, hq, hv⟩

theorem Lowers.computes {slot : SlotType} {e : Expr} {layout layout' : Layout} {scope : Scope}
    {n : Code.Node} (h : Lowers slot e layout scope n layout') {ρ : ValueEnv} {row : Code.Row}
    (hs : scope.Holds slot ρ row layout.count) (hlen : layout'.count ≤ row.length) {v : Value}
    {k : Nat} (hv : Costs ρ e v k) :
    ∃ p row', v.number? = some p ∧ n.Computes slot layout.count row p row' := by
  induction h generalizing ρ row v k with
  | int =>
    cases hv
    exact ⟨_, row, rfl, .const⟩
  | bool =>
    cases hv
    exact ⟨_, row, rfl, .const⟩
  | var hx =>
    obtain ⟨p, hp, hr⟩ := hs.slots _ _ _ _ hx (hv.remark {})
    exact ⟨p, row, hp, .get hr⟩
  | @letIn m x v b n n' layout layout₁ layout₂ scope hvl hbl ihv ihb =>
    cases hv with
    | @letIn _ _ _ _ _ w _ _ _ hw hu =>
      have hcount := hbl.count_le
      rw [Layout.count_allocate] at hcount
      have hle := hvl.count_le
      obtain ⟨p, row₁, hp, hn⟩ := ihv hs (by omega) hw
      have hlen₁ := hn.length
      have hi : layout₁.count < row₁.length := by omega
      have hbelow : ∀ i, i < layout.count →
          (row₁.set layout₁.count (some (slot.wrap p)))[i]? = row[i]? := fun i hi => by
        rw [List.getElem?_set_ne (by omega), hn.below i hi]
      have hs₁ := (hs.congr hle hbelow).insert (x := x) hp (List.getElem?_set_self hi)
      rw [← Layout.count_allocate layout₁ slot] at hs₁
      obtain ⟨q, row₂, hq, hn'⟩ := ihb hs₁ (by rw [List.length_set]; omega) hu
      rw [Layout.count_allocate] at hn'
      exact ⟨q, row₂, hq, hn.store hi hle hn'⟩
  | @add m l r n n' layout layout₁ layout₂ scope hll hrl ihl ihr =>
    cases hv with
    | @binary _ _ _ _ _ u w p q _ _ hu hw hp hq =>
      obtain ⟨p', row₁, hp', hn⟩ := ihl hs (Nat.le_trans hrl.count_le hlen) hu
      obtain rfl := Option.some.inj (hp.symm.trans hp')
      obtain ⟨q', row₂, hq', hn'⟩ :=
        ihr (hs.congr hll.count_le hn.below) (hn.length ▸ hlen) hw
      obtain rfl := Option.some.inj (hq.symm.trans hq')
      exact ⟨p + q, row₂, rfl, hn.add hn' hll.count_le⟩
  | @sum m m' m'' l r n n' layout layout₁ layout₂ scope hx hll hrl ihl ihr =>
    obtain ⟨u, w, i, j, p, q, hu, hw, hp, hq, rfl⟩ :=
      costs_sum (fun g k hg => hs.others _ g k hx hg) hv
    obtain ⟨p', row₁, hp', hn⟩ := ihl hs (Nat.le_trans hrl.count_le hlen) hu
    obtain rfl := Option.some.inj (hp.symm.trans hp')
    obtain ⟨q', row₂, hq', hn'⟩ := ihr (hs.congr hll.count_le hn.below) (hn.length ▸ hlen) hw
    obtain rfl := Option.some.inj (hq.symm.trans hq')
    exact ⟨p + q, row₂, rfl, hn.add hn' hll.count_le⟩

theorem entryFunction_eval {slot : SlotType} {e : Expr} {layout layout' : Layout} {scope : Scope}
    {n : Code.Node} (h : Lowers slot e layout scope n layout') {ρ : ValueEnv} {args : List Int}
    {name : String} {exported : Bool}
    (hs : scope.Holds slot ρ
      ((entryFunction slot name exported layout' n).initialRow args) layout.count)
    (hargs : args.length = layout.params.length) {v : Value} {k : Nat} (hv : Costs ρ e v k) :
    ∃ p, v.number? = some p ∧
      (entryFunction slot name exported layout' n).eval args = some (slot.wrap p) := by
  obtain ⟨hp, j, hj⟩ := h.layout
  have hlen :
      layout'.count ≤ ((entryFunction slot name exported layout' n).initialRow args).length := by
    simp only [Code.Function.initialRow, entryFunction, Layout.count, hp, List.length_append,
      List.length_map, List.length_zip, List.length_replicate, hargs, Nat.min_self, Nat.le_refl]
  obtain ⟨p, row, hnum, hn⟩ := h.computes hs hlen hv
  refine ⟨p, hnum, ?_⟩
  have hbody : (entryFunction slot name exported layout' n).body = .block [n] "" := rfl
  have hret : (entryFunction slot name exported layout' n).returnType = slot := rfl
  simp only [Code.Function.eval, hbody, hret, Code.Node.eval, Code.Node.evalAll, hn.eval,
    Option.bind_eq_bind, Option.bind_some, Option.pure_def, Option.getD_some]

/-- The function of a program computes what the program comes to. -/
theorem Entry.eval {slot : SlotType} {e body : Expr} {layout layout' : Layout} {scope : Scope}
    {n : Code.Node} (he : Entry slot e layout scope body)
    (hn : Lowers slot body layout scope n layout') (name : String) (exported : Bool) :
    (layout'.params = [] ∧ ∀ v, Evaluates .builtins e v → ∃ p, v.number? = some p ∧
      (entryFunction slot name exported layout' n).eval [] = some (slot.wrap p)) ∨
    (layout'.params = [slot] ∧ ∀ a v, Evaluates .builtins (app {} e (int {} a)) v →
      ∃ p, v.number? = some p ∧
        (entryFunction slot name exported layout' n).eval [a] = some (slot.wrap p)) := by
  obtain ⟨hp, _⟩ := hn.layout
  cases he with
  | value =>
    refine .inl ⟨hp, fun v hv => ?_⟩
    obtain ⟨k, hk⟩ := hv.costs
    exact entryFunction_eval hn (.builtins slot _) rfl hk
  | @function m x =>
    refine .inr ⟨hp, fun a v hv => ?_⟩
    obtain ⟨k, hk⟩ := hv.costs
    obtain ⟨f, w, _, _, j, hf, hw, hc, _⟩ := costs_app_iff.1 hk
    cases hf
    cases hw
    have hrow : ((entryFunction slot name exported layout' n).initialRow [a])[0]? =
        some (some (slot.wrap a)) := by
      simp only [Code.Function.initialRow, entryFunction, hp, List.zip_cons_cons, List.map_cons,
        List.cons_append, List.getElem?_cons_zero]
    have hs := (Scope.Holds.builtins slot
      ((entryFunction slot name exported layout' n).initialRow [a])).insert (x := x)
        (w := .int a) (p := a) rfl hrow
    exact entryFunction_eval hn hs rfl hc

end Expr

/-- The names of slots stand for values that are no functions, and the predefined function has its
name where no slot has taken it. -/
structure Scope.Denotes (scope : Scope) (ρ : ValueEnv) : Prop where
  number : ∀ x, x ∈ scope → ∃ v p k, Expr.Costs ρ (.var {} x) v k ∧ v.number? = some p
  sum : addName ∉ scope → ∃ k, Expr.Costs ρ (.var {} addName) .sum k

theorem Scope.Denotes.builtins : Scope.Denotes ∅ .builtins where
  number x hx := absurd hx (Bindings.not_mem_empty x)
  sum _ := ⟨0, .bound⟩

theorem Scope.Denotes.insert {scope : Scope} {ρ : ValueEnv} (h : scope.Denotes ρ) {w : Value}
    {p : Int} (hw : w.number? = some p) (x : String) (i : Nat) :
    Scope.Denotes (scope.insert x i) (ρ.bind x w) where
  number z hz := by
    by_cases hzx : z = x
    · subst hzx
      exact ⟨w, p, 0, .bound, hw⟩
    · obtain ⟨v, q, k, hv, hq⟩ := h.number z ((Bindings.mem_insert.1 hz).resolve_left hzx)
      exact ⟨v, q, k, .outer (.bind w) hzx hv, hq⟩
  sum hadd := by
    rw [Bindings.mem_insert, not_or] at hadd
    obtain ⟨k, hk⟩ := h.sum hadd.2
    exact ⟨k, .outer (.bind w) hadd.1 hk⟩

namespace Expr

/-- What has code comes to a value that is no function. -/
theorem Lowers.exists_costs {slot : SlotType} {e : Expr} {layout layout' : Layout} {scope : Scope}
    {n : Code.Node} (h : Lowers slot e layout scope n layout') {ρ : ValueEnv}
    (hs : scope.Denotes ρ) : ∃ v p k, Costs ρ e v k ∧ v.number? = some p := by
  induction h generalizing ρ with
  | int => exact ⟨_, _, _, .int, rfl⟩
  | bool => exact ⟨_, _, _, .bool, rfl⟩
  | var hx =>
    obtain ⟨v, p, k, hv, hp⟩ := hs.number _ (Bindings.mem_iff_get?.2 ⟨_, hx⟩)
    exact ⟨v, p, k, hv.remark _, hp⟩
  | letIn _ _ ihv ihb =>
    obtain ⟨w, p, i, hw, hp⟩ := ihv hs
    obtain ⟨u, q, j, hu, hq⟩ := ihb (hs.insert hp _ _)
    exact ⟨u, q, _, .letIn hw hu, hq⟩
  | add _ _ ihl ihr =>
    obtain ⟨u, p, i, hu, hp⟩ := ihl hs
    obtain ⟨w, q, j, hw, hq⟩ := ihr hs
    exact ⟨_, _, _, .binary hu hw hp hq, rfl⟩
  | sum hx _ _ ihl ihr =>
    obtain ⟨k, hk⟩ := hs.sum hx
    obtain ⟨u, p, i, hu, hp⟩ := ihl hs
    obtain ⟨w, q, j, hw, hq⟩ := ihr hs
    exact ⟨_, _, _, .sumFrom (.sum (hk.remark _) hu) hw hp hq, rfl⟩

/-- A lowered program comes to a value, on every argument if it is a function, and its code computes
that value. -/
theorem Entry.exists_eval {slot : SlotType} {e body : Expr} {layout layout' : Layout}
    {scope : Scope} {n : Code.Node} (he : Entry slot e layout scope body)
    (hn : Lowers slot body layout scope n layout') (name : String) (exported : Bool) :
    (e.isLam = false ∧ layout'.params = [] ∧ ∃ v p, Evaluates .builtins e v ∧
      v.number? = some p ∧
      (entryFunction slot name exported layout' n).eval [] = some (slot.wrap p)) ∨
    (e.isLam = true ∧ layout'.params = [slot] ∧
      ∀ a, ∃ v p, Evaluates .builtins (app {} e (int {} a)) v ∧ v.number? = some p ∧
        (entryFunction slot name exported layout' n).eval [a] = some (slot.wrap p)) := by
  have hcode := he.eval hn name exported
  obtain ⟨hparams, _⟩ := hn.layout
  cases he with
  | value hlam =>
    rcases hcode with ⟨hp, hcode⟩ | ⟨hp, _⟩
    · obtain ⟨v, p, k, hv, hnum⟩ := hn.exists_costs .builtins
      obtain ⟨q, hq, heval⟩ := hcode v hv.evaluates
      exact .inl ⟨hlam, hp, v, q, hv.evaluates, hq, heval⟩
    · cases hparams.symm.trans hp
  | @function m x =>
    rcases hcode with ⟨hp, _⟩ | ⟨hp, hcode⟩
    · cases hparams.symm.trans hp
    · refine .inr ⟨rfl, hp, fun a => ?_⟩
      obtain ⟨v, p, k, hv, hnum⟩ := hn.exists_costs
        (Scope.Denotes.builtins.insert (w := .int a) (p := a) rfl x 0)
      have happ : Evaluates .builtins (app {} (lam m x body) (int {} a)) v :=
        (Costs.closure .lam .int hv).evaluates
      obtain ⟨q, hq, heval⟩ := hcode a v happ
      exact ⟨v, q, happ, hq, heval⟩

end Expr
end LetLower
