import LetLower.Typing

/-!
# Types put in for all variables at once

`Ty.bind` puts a type in for every variable, without regard to which variables a finite
substitution lists. Two such steps are one, and only the variables that occur matter. On plain
types a substitution is `bind` of its `image`, and the instances of a scheme are what `bind` makes
of its body with only the bound variables moved.
-/

namespace LetLower

namespace Ty

def bind (f : String → Ty) : Ty → Ty
  | var x => f x
  | fn a r => fn (a.bind f) (r.bind f)
  | bool => bool
  | int => int
  | scheme bound body => scheme bound body
  | unknown => unknown

@[simp] theorem bind_var (f : String → Ty) (x : String) : (var x).bind f = f x := rfl

@[simp] theorem bind_fn (f : String → Ty) (a r : Ty) : (fn a r).bind f = fn (a.bind f) (r.bind f) :=
  rfl

/-- What has int for an instance is no function. -/
theorem isFunction_of_bind {f : String → Ty} {t : Ty} (h : t.bind f = int) :
    t.isFunction = false := by
  cases t with
  | fn => cases h
  | bool | int | var | scheme | unknown => rfl

theorem mem_free_var {x z : String} : z ∈ (var x).free ↔ z = x := NameSet.mem_single

theorem mem_free_fn {a r : Ty} {z : String} : z ∈ (fn a r).free ↔ z ∈ a.free ∨ z ∈ r.free :=
  NameSet.mem_union

theorem not_mem_free_int (z : String) : z ∉ int.free := NameSet.not_mem_empty z

theorem not_mem_free_bool (z : String) : z ∉ bool.free := NameSet.not_mem_empty z

theorem isPlain_int : int.IsPlain := trivial

theorem isPlain_bool : bool.IsPlain := trivial

theorem isPlain_var (x : String) : (var x).IsPlain := trivial

theorem bind_congr {f g : String → Ty} {t : Ty} (h : ∀ x ∈ t.free, f x = g x) :
    t.bind f = t.bind g := by
  induction t with
  | var x => exact h x (mem_free_var.2 rfl)
  | fn a r iha ihr =>
    rw [bind_fn, bind_fn, iha fun x hx => h x (mem_free_fn.2 (.inl hx)),
      ihr fun x hx => h x (mem_free_fn.2 (.inr hx))]
  | bool | int | scheme _ _ | unknown => rfl

theorem bind_eq_self {f : String → Ty} {t : Ty} (h : ∀ x ∈ t.free, f x = var x) :
    t.bind f = t := by
  induction t with
  | var x => exact h x (mem_free_var.2 rfl)
  | fn a r iha ihr =>
    rw [bind_fn, iha fun x hx => h x (mem_free_fn.2 (.inl hx)),
      ihr fun x hx => h x (mem_free_fn.2 (.inr hx))]
  | bool | int | scheme _ _ | unknown => rfl

theorem bind_var_self (t : Ty) : t.bind var = t := bind_eq_self fun _ _ => rfl

theorem bind_bind (f g : String → Ty) (t : Ty) :
    (t.bind f).bind g = t.bind fun x => (f x).bind g := by
  induction t with
  | var x => rfl
  | fn a r iha ihr => rw [bind_fn, bind_fn, bind_fn, iha, ihr]
  | bool | int | scheme _ _ | unknown => rfl

theorem mem_free_bind {f : String → Ty} {t : Ty} (ht : t.IsPlain) {z : String} :
    z ∈ (t.bind f).free ↔ ∃ x ∈ t.free, z ∈ (f x).free := by
  induction t with
  | var x =>
    constructor
    · exact fun h => ⟨x, mem_free_var.2 rfl, h⟩
    · rintro ⟨y, hy, hz⟩
      rwa [mem_free_var.1 hy] at hz
  | fn a r iha ihr =>
    rw [bind_fn, mem_free_fn, iha ht.1, ihr ht.2]
    constructor
    · rintro (⟨x, hx, hz⟩ | ⟨x, hx, hz⟩)
      · exact ⟨x, mem_free_fn.2 (.inl hx), hz⟩
      · exact ⟨x, mem_free_fn.2 (.inr hx), hz⟩
    · rintro ⟨x, hx, hz⟩
      exact (mem_free_fn.1 hx).imp (fun h => ⟨x, h, hz⟩) fun h => ⟨x, h, hz⟩
  | bool | int =>
    exact ⟨fun h => absurd h (NameSet.not_mem_empty z),
      fun ⟨x, hx, _⟩ => absurd hx (NameSet.not_mem_empty x)⟩
  | scheme _ _ | unknown => exact ht.elim

theorem IsPlain.bind {f : String → Ty} {t : Ty} (ht : t.IsPlain)
    (hf : ∀ x ∈ t.free, (f x).IsPlain) : (t.bind f).IsPlain := by
  induction t with
  | var x => exact hf x (mem_free_var.2 rfl)
  | fn a r iha ihr =>
    exact ⟨iha ht.1 fun x hx => hf x (mem_free_fn.2 (.inl hx)),
      ihr ht.2 fun x hx => hf x (mem_free_fn.2 (.inr hx))⟩
  | bool | int => trivial
  | scheme _ _ | unknown => exact ht.elim

end Ty

namespace Subst

def image (s : Subst) (x : String) : Ty := (s.get? x).getD (.var x)

theorem image_of_not_mem {s : Subst} {x : String} (h : x ∉ s) : s.image x = .var x := by
  rw [image, Bindings.get?_eq_none_iff.2 h]
  rfl

theorem image_of_get? {s : Subst} {x : String} {t : Ty} (h : s.get? x = some t) :
    s.image x = t := by
  rw [image, h]
  rfl

theorem exists_get?_of_mem {s : Subst} {x : String} (h : x ∈ s) : ∃ t, s.get? x = some t :=
  Option.ne_none_iff_exists'.1 fun hn => Bindings.get?_eq_none_iff.1 hn h

@[simp] theorem image_single (x : String) (t : Ty) (y : String) :
    image (.single x t) y = if y = x then t else .var y := by
  rw [image, Bindings.get?_single]
  split <;> rfl

theorem image_without (s : Subst) (bound : NameSet) (x : String) :
    image (s.without bound) x = if x ∈ bound then .var x else s.image x := by
  rw [image, Bindings.get?_without]
  split <;> rfl

theorem image_compose (newer older : Subst) (x : String) :
    (compose newer older).image x = (older.image x).apply newer := by
  rw [image, get?_compose]
  cases h : older.get? x with
  | none =>
    rw [image, h]
    rfl
  | some t =>
    rw [image_of_get? h]
    rfl

theorem IsPlain.image {s : Subst} (hs : s.IsPlain) (x : String) : (s.image x).IsPlain := by
  cases h : s.get? x with
  | none =>
    rw [Subst.image, h]
    trivial
  | some t =>
    rw [image_of_get? h]
    exact hs x t h

theorem mem_range_of_mem_image {s : Subst} {x z : String} (hx : x ∈ s)
    (hz : z ∈ (s.image x).free) : z ∈ s.range := by
  obtain ⟨t, ht⟩ := exists_get?_of_mem hx
  rw [image_of_get? ht] at hz
  exact mem_range.2 ⟨x, t, ht, hz⟩

theorem mem_image {s : Subst} {x z : String} (hz : z ∈ (s.image x).free) :
    z = x ∧ x ∉ s ∨ z ∈ s.range := by
  by_cases hx : x ∈ s
  · exact .inr (mem_range_of_mem_image hx hz)
  · rw [image_of_not_mem hx] at hz
    exact .inl ⟨Ty.mem_free_var.1 hz, hx⟩

theorem isPlain_empty : Subst.IsPlain ∅ := fun x t h => by simp at h

theorem isPlain_single {x : String} {t : Ty} (ht : t.IsPlain) : Subst.IsPlain (.single x t) := by
  intro y u hu
  rw [Bindings.get?_single] at hu
  split at hu
  · rw [← Option.some.inj hu]
    exact ht
  · exact absurd hu (by simp)

def ofFun (names : NameSet) (f : String → Ty) : Subst :=
  ⟨names.names.map fun x => (x, f x), by
    simpa [List.map_map, Function.comp_def] using names.nodup⟩

theorem mem_ofFun {names : NameSet} {f : String → Ty} {x : String} :
    x ∈ ofFun names f ↔ x ∈ names := by
  rw [Bindings.mem_def, NameSet.mem_def, Bindings.keys, ofFun, List.map_map]
  simp [Function.comp_def]

theorem get?_ofFun {names : NameSet} {f : String → Ty} {x : String} {t : Ty} :
    (ofFun names f).get? x = some t ↔ x ∈ names ∧ t = f x := by
  rw [Bindings.get?_eq_some_iff, ofFun, List.mem_map]
  constructor
  · rintro ⟨y, hy, he⟩
    obtain ⟨rfl, rfl⟩ := Prod.mk.inj he
    exact ⟨hy, rfl⟩
  · rintro ⟨hx, rfl⟩
    exact ⟨x, hx, rfl⟩

theorem image_ofFun (names : NameSet) (f : String → Ty) (x : String) :
    image (ofFun names f) x = if x ∈ names then f x else .var x := by
  by_cases hx : x ∈ names
  · rw [if_pos hx]
    exact image_of_get? (get?_ofFun.2 ⟨hx, rfl⟩)
  · rw [if_neg hx]
    exact image_of_not_mem fun h => hx (mem_ofFun.1 h)

theorem isPlain_ofFun {names : NameSet} {f : String → Ty} (hf : ∀ x ∈ names, (f x).IsPlain) :
    Subst.IsPlain (ofFun names f) := by
  intro x t h
  obtain ⟨hx, rfl⟩ := get?_ofFun.1 h
  exact hf x hx

end Subst

namespace Ty

theorem apply_eq_bind (s : Subst) {t : Ty} (ht : t.IsPlain) : t.apply s = t.bind s.image := by
  induction t with
  | var x => rfl
  | fn a r iha ihr => rw [apply, bind_fn, iha ht.1, ihr ht.2]
  | bool | int => rfl
  | scheme _ _ | unknown => exact ht.elim

theorem IsPlain.apply {s : Subst} {t : Ty} (ht : t.IsPlain) (hs : s.IsPlain) :
    (t.apply s).IsPlain := by
  rw [apply_eq_bind s ht]
  exact ht.bind fun x _ => hs.image x

theorem bind_image_compose {newer older : Subst} {t : Ty} (ho : older.IsPlain) :
    t.bind (Subst.compose newer older).image = (t.bind older.image).bind newer.image := by
  rw [bind_bind]
  congr 1
  funext x
  rw [Subst.image_compose, apply_eq_bind newer (ho.image x)]

theorem isInstanceOf_bind {f : String → Ty} {u : Ty} (hf : ∀ x, (f x).IsPlain) (hu : u.IsPlain) :
    (u.bind f).IsInstanceOf u := by
  refine ⟨.ofFun u.free f, Subst.isPlain_ofFun fun x _ => hf x, ?_⟩
  rw [apply_eq_bind _ hu]
  exact bind_congr fun x hx => by rw [Subst.image_ofFun, if_pos hx]

end Ty

theorem Subst.IsPlain.compose {newer older : Subst} (hn : newer.IsPlain) (ho : older.IsPlain) :
    (Subst.compose newer older).IsPlain := by
  intro x t h
  rw [Subst.get?_compose] at h
  cases hx : older.get? x with
  | none =>
    rw [hx] at h
    exact hn x t (by simpa using h)
  | some u =>
    rw [hx] at h
    obtain rfl : u.apply newer = t := by simpa using h
    exact (ho x u hx).apply hn

namespace Scheme

theorem mem_free {c : Scheme} {z : String} : z ∈ c.free ↔ z ∈ c.body.free ∧ z ∉ c.bound :=
  NameSet.mem_diff

@[simp] theorem free_mono (t : Ty) {z : String} : z ∈ (mono t).free ↔ z ∈ t.free := by
  rw [mem_free]
  exact and_iff_left (NameSet.not_mem_empty z)

/-- The instances of a scheme move its bound variables only. -/
theorem hasInstance_iff {c : Scheme} (hc : c.body.IsPlain) {t : Ty} :
    c.HasInstance t ↔ ∃ f : String → Ty, (∀ x, (f x).IsPlain) ∧
      (∀ x, x ∉ c.bound → f x = .var x) ∧ t = c.body.bind f := by
  constructor
  · rintro ⟨s, hs, hd, rfl⟩
    exact ⟨s.image, hs.image, fun x hx => Subst.image_of_not_mem fun h => hx (hd x h),
      Ty.apply_eq_bind s hc⟩
  · rintro ⟨f, hf, hb, rfl⟩
    refine ⟨.ofFun c.bound f, Subst.isPlain_ofFun fun x _ => hf x,
      fun x hx => Subst.mem_ofFun.1 hx, ?_⟩
    rw [Ty.apply_eq_bind _ hc]
    refine Ty.bind_congr fun x _ => ?_
    rw [Subst.image_ofFun]
    split
    · rfl
    · rename_i hx
      exact hb x hx

theorem hasInstance_mono_iff {t u : Ty} (ht : t.IsPlain) : (mono t).HasInstance u ↔ u = t := by
  rw [hasInstance_iff (c := mono t) ht]
  constructor
  · rintro ⟨f, _, hb, rfl⟩
    exact Ty.bind_eq_self fun x _ => hb x (NameSet.not_mem_empty x)
  · rintro rfl
    exact ⟨.var, fun _ => trivial, fun _ _ => rfl, (Ty.bind_var_self _).symm⟩

theorem HasInstance.isPlain {c : Scheme} (hc : c.body.IsPlain) {t : Ty} (h : c.HasInstance t) :
    t.IsPlain := by
  obtain ⟨s, hs, _, rfl⟩ := h
  exact hc.apply hs

end Scheme

end LetLower
