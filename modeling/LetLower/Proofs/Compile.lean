import LetLower.Compile
import LetLower.Proofs.Code.Eval
import LetLower.Proofs.Code.Lowered
import LetLower.Proofs.Flatten
import LetLower.Proofs.Infer.Derivation
import LetLower.Proofs.Inline.Eval
import LetLower.Proofs.Llvm.Run
import Mathlib.Algebra.Group.Nat.Defs

/-!
# Compiled programs run as they evaluate

What a compiled program returns is what evaluation gives, within the width of its integers.
Inference changes nothing but types, inlining keeps what comes out, code yields it, and instructions
do what the code does.
-/

namespace LetLower

open LetLower.Expr Pass

theorem notingFailure_ok {α : Type} {x : Pass α} {a : α} {s s' : PassState}
    (h : Options.notingFailure x s = .ok a s') : x s = .ok a s' := by
  unfold Options.notingFailure at h
  split at h
  · obtain ⟨_, _, _, h⟩ := bind_ok.1 h
    exact absurd h not_fail_ok
  · exact h

theorem approx_of_flatten {o : Options} {e flat : Expr} {s s' : PassState} (he : e.HasPlainNames)
    (h : o.flatten e s = .ok flat s') (n : Nat) (ρ : ValueEnv) : Approx False n ρ e ρ flat := by
  obtain ⟨_, typed, d, _, _, _, _, _, ⟨_, _, htyped⟩, ⟨_, _, hd⟩, ⟨_, _, hflat⟩⟩ :=
    flatten_returns h
  have ht : typed.untyped = e.untyped := untyped_of_inferTypes htyped
  have hf : flat.untyped = d.untyped := (untyped_of_inferTypes hflat).trans (untyped_strip d)
  have hi := inlines_of_inlineIn hd ⟨.empty _, (he.congr ht).not_marks _⟩
  have hinlined : Approx False n ρ typed ρ d :=
    hi.rules.approx (.of_not_mem fun z _ => Bindings.not_mem_empty z)
  exact .trans_right (.trans_left (fun _ => approx_of_untyped_eq ht) hinlined) fun _ =>
    approx_of_untyped_eq hf

theorem intWidth_of_validate {c : Config} (h : c.validate = .ok ()) :
    c.intWidth = 32 ∨ c.intWidth = 64 := by
  by_cases h32 : c.intWidth = 32
  · exact .inl h32
  by_cases h64 : c.intWidth = 64
  · exact .inr h64
  rw [Config.validate, if_pos ⟨h32, h64⟩] at h
  cases h

theorem entryName_of_validate {c : Config} (h : c.validate = .ok ()) : c.entryName ≠ "" := by
  intro hname
  rw [Config.validate] at h
  simp only [hname, if_true] at h
  split at h
  · cases h
  · split at h
    · cases h
    · cases h

theorem wrap_slotType {c : Config} (h : c.validate = .ok ()) (n : Int) :
    c.slotType.wrap n = n.bmod (2 ^ c.intWidth.toNat) := by
  rcases intWidth_of_validate h with hw | hw
  · rw [Config.slotType, hw]
    rfl
  · rw [Config.slotType, hw]
    rfl

theorem compile_ok {o : Options} {e : Expr} {names : NameSupply} {m : Code.Module}
    (h : ((o.compile e).run names).1 = .ok m) :
    o.config.validate = .ok () ∧ ∃ flat s s', o.flatten e s = .ok flat s' ∧ ∃ t t',
      flat.lower o.config.slotType o.config.entryName o.config.exportEntry t = .ok m t' := by
  obtain ⟨_, h⟩ := run_ok.1 h
  obtain ⟨m', _, hm, h⟩ := bind_ok.1 h
  obtain ⟨_, _, _, h⟩ := bind_ok.1 h
  obtain ⟨rfl, _⟩ := pure_ok.1 h
  obtain ⟨flat, s, hflat, hlower⟩ := bind_ok.1 (notingFailure_ok hm)
  obtain ⟨_, _, hvalid, _⟩ := bind_ok.1 hflat
  exact ⟨(orFailure_ok.1 hvalid).1, flat, _, s, hflat, _, _, hlower⟩

/-- Running the module on the arguments gives the integer within the configured width, unless the
name of the entry is refused; then it gives an error. -/
def Options.Returns (o : Options) (m : Code.Module) (args : List Int) (n : Int) : Prop :=
  (Llvm.isRefused o.config.entryName = false →
    Llvm.run m args = .ok (n.bmod (2 ^ o.config.intWidth.toNat))) ∧
  (Llvm.isRefused o.config.entryName = true → ∃ e, Llvm.run m args = .error e)

/-- A program that compiles has one function, of no parameter or of one, and running it returns what
evaluation of the program gives, or of the program applied to the argument. -/
theorem run_compiled {o : Options} {e : Expr} {names : NameSupply} {m : Code.Module}
    (he : e.HasPlainNames) (hexport : o.config.exportEntry = true)
    (h : ((o.compile e).run names).1 = .ok m) :
    ∃ f, m.functions = [f] ∧
      ((f.params = [] ∧ ∀ v, Evaluates .builtins e (.int v) → o.Returns m [] v) ∨
        (f.params = [o.config.slotType] ∧ ∀ n v,
          Evaluates .builtins (app {} e (int {} n)) (.int v) → o.Returns m [n] v)) := by
  obtain ⟨hvalid, flat, _, _, hflat, _, _, hlower⟩ := compile_ok h
  obtain ⟨layout, scope, body, node, layout', hentry, hnode, rfl⟩ := lower_ok hlower
  have happrox := fun n => approx_of_flatten he hflat n .builtins
  have hreturns : ∀ (args : List Int) (v : Int), args.length = layout'.params.length →
      layout'.params.length ≤ 1 →
      (∃ p, (Value.int v).number? = some p ∧
        (entryFunction o.config.slotType o.config.entryName o.config.exportEntry layout' node).eval
          args = some (o.config.slotType.wrap p)) →
      o.Returns ⟨o.config.entryName, [entryFunction o.config.slotType o.config.entryName
        o.config.exportEntry layout' node]⟩ args v := by
    rintro args v hargs hparams ⟨p, hp, heval⟩
    obtain rfl := Option.some.inj hp
    rw [wrap_slotType hvalid] at heval
    exact Llvm.run_single rfl rfl (entryName_of_validate hvalid) hexport
      (isUniform_entryFunction hentry hnode _ _) hargs (Nat.le_trans hparams (by decide)) heval
  refine ⟨_, rfl, ?_⟩
  rcases hentry.eval hnode o.config.entryName o.config.exportEntry with ⟨hp, heval⟩ | ⟨hp, heval⟩
  · refine .inl ⟨hp, fun v hv => hreturns [] v (by rw [hp]; rfl) (by rw [hp]; decide) ?_⟩
    exact heval _ (Approx.evaluates happrox rfl hv)
  · have hone : layout'.params.length = 1 := by rw [hp]; rfl
    refine .inr ⟨hp, fun n v hv => hreturns [n] v hone.symm (Nat.le_of_eq hone) ?_⟩
    exact heval n _ (Approx.evaluates (fun k => approx_app (happrox k) (approx_int n)) rfl hv)

theorem validate_default {name : String} (h : name ≠ "") :
    ({ entryName := name } : Config).validate = .ok () := by
  have hupper : Text.upper "WARNING" = "WARNING" := Text.upper_of_all_lt (by decide)
  have hbuiltins : ["add"].find? (fun x => decide (x ∉ TyEnv.builtins)) = none := by decide
  have hlevel : (Config.logLevels.lookup "WARNING").isNone = false := by decide
  simp only [Config.validate, hupper, hbuiltins, hlevel, h, if_false, Bool.false_eq_true]
  rfl

theorem run_compiled_double :
    let e : Expr := .letIn {} "f" (.lam {} "x" (.binary {} .add (.var {} "x") (.var {} "x")))
      (.app {} (.var {} "f") (.int {} 21))
    let o : Options := { depth := 9 }
    let body : Code.Node := .block [.add (.const 21) (.const 21)] ""
    let m : Code.Module :=
      ⟨"main", [{ name := "main", returnType := .i32, body := body, exported := true }]⟩
    e.HasPlainNames ∧ o.config.exportEntry = true ∧ ((o.compile e).run {}).1 = .ok m ∧
      Evaluates .builtins e (.int 42) ∧ Llvm.run m [] = .ok 42 := by
  intro e o body m
  have he : e.HasPlainNames := by decide
  have hvalid : o.config.validate = .ok () := validate_default (by decide)
  have hm : ((o.compile e).run {}).1 = .ok m := by
    simp only [Options.compile, Options.flatten, hvalid]
    cbv
  have hv : Evaluates .builtins e (.int 42) := ⟨8, rfl⟩
  obtain ⟨f, hf, hcases⟩ := run_compiled he rfl hm
  cases hf
  rcases hcases with ⟨_, hrun⟩ | ⟨hp, _⟩
  · have hwidth : (42 : Int).bmod (2 ^ o.config.intWidth.toNat) = 42 := by decide
    have hresult := (hrun 42 hv).1 (by decide)
    rw [hwidth] at hresult
    exact ⟨he, rfl, hm, hv, hresult⟩
  · cases hp

/-- A name that is not ASCII is a valid name of the entry, but nothing runs under it. -/
theorem run_compiled_foreign_name :
    let e : Expr := .int {} 7
    let o : Options := { config := { entryName := "é" }, depth := 9 }
    let m : Code.Module := ⟨"é", [{ name := "é", returnType := .i32, body := .block [.const 7] "",
                                    exported := true }]⟩
    e.HasPlainNames ∧ o.config.validate = .ok () ∧ o.config.exportEntry = true ∧
      ((o.compile e).run {}).1 = .ok m ∧ Evaluates .builtins e (.int 7) ∧
      Llvm.run m [] = .error (.foreignName "é") := by
  intro e o m
  have hvalid : o.config.validate = .ok () := validate_default (by decide)
  have hm : ((o.compile e).run {}).1 = .ok m := by
    simp only [Options.compile, Options.flatten, hvalid]
    cbv
  exact ⟨by decide, hvalid, rfl, hm, ⟨1, rfl⟩, by cbv⟩

end LetLower
