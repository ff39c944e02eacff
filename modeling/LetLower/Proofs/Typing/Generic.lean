import LetLower.Proofs.Ty.Env

/-!
# Generic instances

A scheme can be instantiated with names that occur nowhere else. Generalising that instance again,
in whatever environment, gives a scheme with all the instances of the first.
-/

namespace LetLower

namespace NameSet

theorem length_lt_foldr {xs : List String} {z : String} (h : z ∈ xs) :
    z.length < (xs.foldr (· ++ ·) "'").length := by
  induction xs with
  | nil => exact absurd h List.not_mem_nil
  | cons x xs ih =>
    rw [List.foldr_cons, String.length_append]
    rcases List.mem_cons.1 h with rfl | h
    · have hpos : 0 < (xs.foldr (· ++ ·) "'").length := by
        clear ih h
        induction xs with
        | nil => decide
        | cons y ys ih =>
          rw [List.foldr_cons, String.length_append]
          omega
      omega
    · have := ih h
      omega

def apart (s : NameSet) (x : String) : String := s.names.foldr (· ++ ·) "'" ++ x

theorem apart_not_mem (s : NameSet) (x : String) : s.apart x ∉ s := by
  intro h
  have hl := length_lt_foldr (mem_def.1 h)
  rw [apart, String.length_append] at hl
  omega

theorem apart_injective {s : NameSet} {x y : String} (h : s.apart x = s.apart y) : x = y :=
  (String.append_right_inj _).1 h

end NameSet

namespace Scheme

/-- What the scheme becomes under `f`, whatever its bound variables stand for, is an instance of
the other scheme. -/
def MapsTo (f : String → Ty) (c d : Scheme) : Prop :=
  ∀ g : String → Ty, (∀ x, (g x).IsPlain) → (∀ x ∈ c.free, g x = f x) →
    d.HasInstance (c.body.bind g)

theorem MapsTo.congr {f f' : String → Ty} {c d : Scheme} (h : c.MapsTo f d)
    (he : ∀ x ∈ c.free, f x = f' x) : c.MapsTo f' d :=
  fun g hg hgf => h g hg fun x hx => (hgf x hx).trans (he x hx).symm

theorem mapsTo_self {c : Scheme} (hc : c.body.IsPlain) {f : String → Ty}
    (hf : ∀ x ∈ c.free, f x = .var x) : c.MapsTo f c := by
  intro g hg hgf
  refine (hasInstance_iff hc).2 ⟨fun x => if x ∈ c.bound then g x else .var x, fun x => ?_,
    fun x hx => if_neg hx, Ty.bind_congr fun x hx => ?_⟩
  · dsimp only
    split
    · exact hg x
    · trivial
  · by_cases hb : x ∈ c.bound
    · rw [if_pos hb]
    · have hx' := mem_free.2 ⟨hx, hb⟩
      rw [if_neg hb, hgf x hx', hf x hx']

theorem mapsTo_mono {f : String → Ty} {t : Ty} (ht : t.IsPlain) (hf : ∀ x, (f x).IsPlain) :
    (mono t).MapsTo f (mono (t.bind f)) := by
  intro g _ hgf
  rw [hasInstance_mono_iff (ht.bind fun x _ => hf x)]
  exact Ty.bind_congr fun x hx => hgf x ((free_mono t).2 hx)

theorem MapsTo.hasInstance {c d : Scheme} {f : String → Ty} (hc : c.body.IsPlain)
    (hf : ∀ x, (f x).IsPlain) (h : c.MapsTo f d) {t : Ty} (ht : c.HasInstance t) :
    d.HasInstance (t.bind f) := by
  obtain ⟨g, hg, hgb, rfl⟩ := (hasInstance_iff hc).1 ht
  rw [Ty.bind_bind]
  refine h _ (fun x => (hg x).bind fun y _ => hf y) fun x hx => ?_
  rw [hgb x (mem_free.1 hx).2, Ty.bind_var]

theorem mapsTo_var_iff {c d : Scheme} (hc : c.body.IsPlain) :
    c.MapsTo .var d ↔ ∀ t, c.HasInstance t → d.HasInstance t := by
  constructor
  · intro h t ht
    rw [← Ty.bind_var_self t]
    exact h.hasInstance hc Ty.isPlain_var ht
  · intro h g hg hgf
    exact h _ (mapsTo_self hc (fun _ _ => rfl) g hg hgf)

open Classical in
/-- Names apart from everything in sight, put in for the bound variables. -/
theorem exists_generic {c : Scheme} (hc : c.body.IsPlain) {f : String → Ty}
    (hf : ∀ x, (f x).IsPlain) (env : TyEnv) :
    ∃ g : String → Ty, (∀ x, (g x).IsPlain) ∧ (∀ x, x ∉ c.bound → g x = f x) ∧
      c.MapsTo f (env.generalize (c.body.bind g)) := by
  let away := env.free.union (c.body.bind f).free
  let g : String → Ty := fun x => if x ∈ c.bound then .var (away.apart x) else f x
  have hg : ∀ x, (g x).IsPlain := fun x => by
    by_cases hx : x ∈ c.bound
    · simp only [g, if_pos hx]
      trivial
    · simp only [g, if_neg hx]
      exact hf x
  refine ⟨g, hg, fun x hx => if_neg hx, fun k hk hkf => ?_⟩
  rw [hasInstance_iff (c := env.generalize (c.body.bind g)) (hc.bind fun x _ => hg x)]
  let back : String → Ty := fun z =>
    if h : z ∈ (env.generalize (c.body.bind g)).bound ∧ ∃ x, away.apart x = z then k h.2.choose
    else .var z
  refine ⟨back, fun z => ?_, fun z hz => dif_neg fun h => hz h.1, ?_⟩
  · by_cases h : z ∈ (env.generalize (c.body.bind g)).bound ∧ ∃ x, away.apart x = z
    · simp only [back, dif_pos h]
      exact hk _
    · simp only [back, dif_neg h]
      trivial
  · change _ = (c.body.bind g).bind back
    rw [Ty.bind_bind]
    refine Ty.bind_congr fun x hx => ?_
    by_cases hb : x ∈ c.bound
    · have hgx : g x = .var (away.apart x) := if_pos hb
      have hmem : away.apart x ∈ (env.generalize (c.body.bind g)).bound := by
        refine TyEnv.mem_bound_generalize.2 ⟨(Ty.mem_free_bind hc).2 ⟨x, hx, ?_⟩, fun h => ?_⟩
        · rw [hgx]
          exact Ty.mem_free_var.2 rfl
        · exact away.apart_not_mem x (NameSet.mem_union.2 (.inl h))
      have h : away.apart x ∈ (env.generalize (c.body.bind g)).bound ∧
          ∃ y, away.apart y = away.apart x := ⟨hmem, x, rfl⟩
      rw [hgx, Ty.bind_var]
      simp only [back, dif_pos h]
      rw [NameSet.apart_injective h.2.choose_spec]
    · have hgx : g x = f x := if_neg hb
      rw [hkf x (mem_free.2 ⟨hx, hb⟩), hgx]
      refine (Ty.bind_eq_self fun z hz => dif_neg ?_).symm
      rintro ⟨_, y, rfl⟩
      exact away.apart_not_mem y
        (NameSet.mem_union.2 (.inr ((Ty.mem_free_bind hc).2 ⟨x, hx, hz⟩)))

end Scheme
end LetLower
