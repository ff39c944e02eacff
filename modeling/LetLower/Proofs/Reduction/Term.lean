import LetLower.Expr.Basic

/-!
# Terms without names

What inlining works on, with everything left out on which its end does not depend. A parameter is
a number, counted from the inside. A `let` binds nothing: its value stands at each use already, and
`keep` only remembers the value beside the body. Everything that computes is an `atom` applied to
its parts.

The laws are those of renaming and substitution: of two one after the other, and of putting in an
argument before and after.
-/

namespace LetLower

inductive Term where
  | var (n : Nat)
  | atom
  | lam (body : Term)
  | app (callee argument : Term)
  | keep (value body : Term)
deriving DecidableEq, Repr

namespace Term

def isLam : Term → Bool
  | lam _ => true
  | _ => false

def lift (ρ : Nat → Nat) : Nat → Nat
  | 0 => 0
  | n + 1 => ρ n + 1

def rename (ρ : Nat → Nat) : Term → Term
  | var n => var (ρ n)
  | atom => atom
  | lam b => lam (b.rename (lift ρ))
  | app f a => app (f.rename ρ) (a.rename ρ)
  | keep v b => keep (v.rename ρ) (b.rename ρ)

/-- The same term below one parameter more. -/
def shift (t : Term) : Term := t.rename Nat.succ

def up (σ : Nat → Term) : Nat → Term
  | 0 => var 0
  | n + 1 => (σ n).shift

def subst (σ : Nat → Term) : Term → Term
  | var n => σ n
  | atom => atom
  | lam b => lam (b.subst (up σ))
  | app f a => app (f.subst σ) (a.subst σ)
  | keep v b => keep (v.subst σ) (b.subst σ)

def put (a : Term) : Nat → Term
  | 0 => a
  | n + 1 => var n

def inst (b a : Term) : Term := b.subst (put a)

variable {ρ ρ' : Nat → Nat} {σ τ : Nat → Term} {a b t : Term}

theorem lift_lift : lift ρ' ∘ lift ρ = lift (ρ' ∘ ρ) := by
  funext n
  cases n <;> rfl

theorem rename_rename : (t.rename ρ).rename ρ' = t.rename (ρ' ∘ ρ) := by
  induction t generalizing ρ ρ' with
  | var | atom => rfl
  | lam b ih => rw [rename, rename, ih, lift_lift, rename]
  | app f a ihf iha => rw [rename, rename, ihf, iha, rename]
  | keep v b ihv ihb => rw [rename, rename, ihv, ihb, rename]

theorem shift_rename : t.shift.rename (lift ρ) = (t.rename ρ).shift := by
  rw [shift, shift, rename_rename, rename_rename]
  rfl

theorem up_lift : up σ ∘ lift ρ = up (σ ∘ ρ) := by
  funext n
  cases n <;> rfl

theorem subst_of_rename : (t.rename ρ).subst σ = t.subst (σ ∘ ρ) := by
  induction t generalizing ρ σ with
  | var | atom => rfl
  | lam b ih => rw [rename, subst, ih, up_lift, subst]
  | app f a ihf iha => rw [rename, subst, ihf, iha, subst]
  | keep v b ihv ihb => rw [rename, subst, ihv, ihb, subst]

theorem up_rename : (fun n => (up σ n).rename (lift ρ)) = up fun n => (σ n).rename ρ := by
  funext n
  cases n with
  | zero => rfl
  | succ n => exact shift_rename

theorem rename_of_subst : (t.subst σ).rename ρ = t.subst fun n => (σ n).rename ρ := by
  induction t generalizing ρ σ with
  | var | atom => rfl
  | lam b ih => rw [subst, rename, ih, up_rename, subst]
  | app f a ihf iha => rw [subst, rename, ihf, iha, subst]
  | keep v b ihv ihb => rw [subst, rename, ihv, ihb, subst]

theorem shift_subst_up : t.shift.subst (up σ) = (t.subst σ).shift := by
  rw [shift, shift, subst_of_rename, rename_of_subst]
  rfl

theorem up_subst : (fun n => (up σ n).subst (up τ)) = up fun n => (σ n).subst τ := by
  funext n
  cases n with
  | zero => rfl
  | succ n => exact shift_subst_up

theorem subst_subst : (t.subst σ).subst τ = t.subst fun n => (σ n).subst τ := by
  induction t generalizing σ τ with
  | var | atom => rfl
  | lam b ih => rw [subst, subst, ih, up_subst, subst]
  | app f a ihf iha => rw [subst, subst, ihf, iha, subst]
  | keep v b ihv ihb => rw [subst, subst, ihv, ihb, subst]

theorem up_var : up var = var := by
  funext n
  cases n <;> rfl

theorem subst_var : t.subst var = t := by
  induction t with
  | var | atom => rfl
  | lam b ih => rw [subst, up_var, ih]
  | app f a ihf iha => rw [subst, ihf, iha]
  | keep v b ihv ihb => rw [subst, ihv, ihb]

theorem shift_eq_subst : t.shift = t.subst fun n => var (n + 1) := by
  rw [← subst_var (t := t.shift), shift, subst_of_rename]
  rfl

theorem inst_shift : t.shift.inst a = t := by
  rw [inst, shift, subst_of_rename]
  exact subst_var

theorem inst_subst : (b.inst a).subst σ = (b.subst (up σ)).inst (a.subst σ) := by
  rw [inst, inst, subst_subst, subst_subst]
  congr 1
  funext n
  cases n with
  | zero => rfl
  | succ n => exact inst_shift.symm

end Term
end LetLower
