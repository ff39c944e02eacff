import LetLower.Proofs.Generalization

/-!
# Schemes up to the names that they bind

A scheme may bind other names in place of those it binds, one-to-one, as long as no free variable is
among them. Substitution proper makes use of that: the bound names give way to whatever the
substitution speaks of, and then the body is substituted as it stands. Restricting the substitution
to the names that are not bound does the same where nothing that is put in for a free variable
mentions a bound name, and only there.
-/

namespace LetLower

theorem NameSupply.exists_apart (names : List String) :
    ∃ s : NameSupply, ∀ x ∈ names, ¬ s.Issues x := by
  let letters := (names.map String.toList).flatten
  refine ⟨{ stem := String.ofList ('t' :: letters) }, fun x hx => ?_⟩
  refine not_issues_of_not_prefix fun hp => ?_
  have hle : x.toList.length ≤ letters.length :=
    (List.sublist_flatten_of_mem (List.mem_map_of_mem hx)).length_le
  have hlt := hp.length_le
  rw [String.toList_ofList, List.length_cons] at hlt
  omega

namespace Scheme

/-- `ρ` renames the names that `c` binds, one-to-one, to names that are not free. -/
structure Renames (ρ : String → String) (c d : Scheme) : Prop where
  injective : ∀ x ∈ c.bound, ∀ y ∈ c.bound, ρ x = ρ y → x = y
  bound : ∀ z, z ∈ d.bound ↔ ∃ x ∈ c.bound, ρ x = z
  free : ∀ v ∈ c.free, ρ v = v ∧ v ∉ d.bound
  body : d.body = c.body.bind fun x => .var (ρ x)

/-- The schemes differ in the names that they bind, and in nothing else. -/
def AlphaEq (c d : Scheme) : Prop := ∃ ρ, Renames ρ c d

/-- `d` is `c` under the substitution. The bound names have given way to what it speaks of. -/
def Substituted (S : Subst) (c d : Scheme) : Prop :=
  ∃ c', c.AlphaEq c' ∧ (∀ z ∈ c'.bound, z ∉ S ∧ z ∉ S.range) ∧
    AlphaEq ⟨c'.bound, c'.body.apply S⟩ d

variable {ρ σ : String → String} {c d e : Scheme}

theorem AlphaEq.refl (c : Scheme) : c.AlphaEq c :=
  ⟨id, fun _ _ _ _ => id, fun z => ⟨fun hz => ⟨z, hz, rfl⟩, fun ⟨_, hx, h⟩ => h ▸ hx⟩,
    fun _ hv => ⟨rfl, (mem_free.1 hv).2⟩, (Ty.bind_var_self c.body).symm⟩

theorem Renames.mem_bound (h : Renames ρ c d) {x : String} (hx : x ∈ c.bound) : ρ x ∈ d.bound :=
  (h.bound _).2 ⟨x, hx, rfl⟩

theorem Renames.mem_free (h : Renames ρ c d) (hc : c.body.IsPlain) {z : String} :
    z ∈ d.free ↔ z ∈ c.free := by
  rw [Scheme.mem_free, h.body, Ty.mem_free_bind hc]
  constructor
  · rintro ⟨⟨x, hx, hz⟩, hn⟩
    obtain rfl : z = ρ x := Ty.mem_free_var.1 hz
    have hxf : x ∈ c.free := Scheme.mem_free.2 ⟨hx, fun hb => hn (h.mem_bound hb)⟩
    rwa [(h.free x hxf).1]
  · intro hz
    refine ⟨⟨z, (Scheme.mem_free.1 hz).1, ?_⟩, (h.free z hz).2⟩
    rw [(h.free z hz).1]
    exact Ty.mem_free_var.2 rfl

theorem Renames.isPlain (h : Renames ρ c d) (hc : c.body.IsPlain) : d.body.IsPlain := by
  rw [h.body]
  exact hc.bind fun _ _ => trivial

theorem AlphaEq.trans (hc : c.body.IsPlain) (h : c.AlphaEq d) (h' : d.AlphaEq e) :
    c.AlphaEq e := by
  obtain ⟨ρ, hρ⟩ := h
  obtain ⟨σ, hσ⟩ := h'
  refine ⟨fun x => σ (ρ x), fun x hx y hy he => ?_, fun z => ?_, fun v hv => ?_, ?_⟩
  · exact hρ.injective x hx y hy (hσ.injective _ (hρ.mem_bound hx) _ (hρ.mem_bound hy) he)
  · rw [hσ.bound]
    constructor
    · rintro ⟨y, hy, rfl⟩
      obtain ⟨x, hx, rfl⟩ := (hρ.bound y).1 hy
      exact ⟨x, hx, rfl⟩
    · rintro ⟨x, hx, rfl⟩
      exact ⟨ρ x, hρ.mem_bound hx, rfl⟩
  · have hfree := hσ.free v ((hρ.mem_free hc).2 hv)
    rw [(hρ.free v hv).1]
    exact hfree
  · rw [hσ.body, hρ.body, Ty.bind_bind]
    rfl

theorem AlphaEq.symm (hc : c.body.IsPlain) (h : c.AlphaEq d) : d.AlphaEq c := by
  obtain ⟨ρ, hρ⟩ := h
  have hex : ∀ z, ∃ x, (z ∈ d.bound → x ∈ c.bound ∧ ρ x = z) ∧ (z ∉ d.bound → x = z) := fun z => by
    by_cases hz : z ∈ d.bound
    · obtain ⟨x, hx, he⟩ := (hρ.bound z).1 hz
      exact ⟨x, fun _ => ⟨hx, he⟩, fun hn => absurd hz hn⟩
    · exact ⟨z, fun h => absurd h hz, fun _ => rfl⟩
  choose σ hbound hother using hex
  have hσ : ∀ x ∈ c.bound, σ (ρ x) = x := fun x hx => by
    obtain ⟨hy, he⟩ := hbound _ (hρ.mem_bound hx)
    exact hρ.injective _ hy x hx he
  refine ⟨σ, fun z hz w hw he => ?_, fun x => ⟨fun hx => ?_, ?_⟩, fun v hv => ?_, ?_⟩
  · rw [← (hbound z hz).2, ← (hbound w hw).2, he]
  · exact ⟨ρ x, hρ.mem_bound hx, hσ x hx⟩
  · rintro ⟨z, hz, rfl⟩
    exact (hbound z hz).1
  · exact ⟨hother v (mem_free.1 hv).2, (mem_free.1 ((hρ.mem_free hc).1 hv)).2⟩
  · rw [hρ.body, Ty.bind_bind]
    refine (Ty.bind_eq_self fun x hx => ?_).symm
    rw [Ty.bind_var]
    by_cases hb : x ∈ c.bound
    · rw [hσ x hb]
    · have hfree := hρ.free x (mem_free.2 ⟨hx, hb⟩)
      rw [hfree.1, hother x hfree.2]

theorem AlphaEq.bind (hc : c.body.IsPlain) (h : c.AlphaEq d) {f : String → Ty}
    (hcf : c.Avoids f) (hdf : d.Avoids f) : (c.bind f).AlphaEq (d.bind f) := by
  obtain ⟨ρ, hρ⟩ := h
  let σ := fun x => if x ∈ c.bound then ρ x else x
  have hσ : ∀ x ∈ c.bound, σ x = ρ x := fun x hx => if_pos hx
  refine ⟨σ, fun x hx y hy he => ?_, fun z => ?_, fun v hv => ?_, ?_⟩
  · rw [hσ x hx, hσ y hy] at he
    exact hρ.injective x hx y hy he
  · refine (hρ.bound z).trans (exists_congr fun x => and_congr_right fun hx => ?_)
    rw [hσ x hx]
  · obtain ⟨x, hx, hvx⟩ := exists_of_mem_free_bind hc hv
    exact ⟨if_neg (hcf x hx v hvx), hdf x ((hρ.mem_free hc).2 hx) v hvx⟩
  · change d.body.bind _ = (c.body.bind _).bind _
    rw [hρ.body, Ty.bind_bind, Ty.bind_bind]
    refine Ty.bind_congr fun x hx => ?_
    rw [Ty.bind_var]
    by_cases hb : x ∈ c.bound
    · rw [if_pos hb, if_pos (hρ.mem_bound hb), Ty.bind_var, hσ x hb]
    · have hxf : x ∈ c.free := mem_free.2 ⟨hx, hb⟩
      have hfree := hρ.free x hxf
      rw [if_neg hb, hfree.1, if_neg hfree.2]
      refine (Ty.bind_eq_self fun z hz => ?_).symm
      exact congrArg Ty.var (if_neg (hcf x hxf z hz))

theorem exists_alphaEq_apart (c : Scheme) (names : List String) :
    ∃ d, c.AlphaEq d ∧ ∀ z ∈ d.bound, z ∉ names := by
  obtain ⟨s, hs⟩ := NameSupply.exists_apart (names ++ c.free.names)
  obtain ⟨ρ, _, hother, hdrawn, hinj⟩ := c.exists_renaming s
  have hbound : ∀ {z}, z ∈ NameSet.ofList (c.bound.names.map ρ) ↔ ∃ x ∈ c.bound, ρ x = z := by
    intro z
    rw [NameSet.mem_ofList, List.mem_map]
    rfl
  have hissued : ∀ z ∈ NameSet.ofList (c.bound.names.map ρ), s.Issues z := fun z hz => by
    obtain ⟨x, hx, rfl⟩ := hbound.1 hz
    exact (hdrawn x hx).1
  refine ⟨⟨.ofList (c.bound.names.map ρ), c.body.bind fun x => .var (ρ x)⟩,
    ⟨ρ, hinj, fun z => hbound, fun v hv => ⟨hother v (mem_free.1 hv).2, fun hz => ?_⟩, rfl⟩,
    fun z hz hn => ?_⟩
  · exact hs v (List.mem_append_right _ hv) (hissued v hz)
  · exact hs z (List.mem_append_left _ hn) (hissued z hz)

/-- If the substitution does not speak of the bound names, it need not be restricted. -/
theorem bind_image_of_apart {S : Subst} (hc : c.body.IsPlain) (h : ∀ z ∈ c.bound, z ∉ S) :
    c.bind S.image = ⟨c.bound, c.body.apply S⟩ := by
  rw [Scheme.bind, Ty.apply_eq_bind S hc]
  congr 1
  refine Ty.bind_congr fun x _ => ?_
  split
  · rename_i hx
    exact (Subst.image_of_not_mem (h x hx)).symm
  · rfl

theorem avoids_of_apart {S : Subst} (h : ∀ z ∈ c.bound, z ∉ S ∧ z ∉ S.range) :
    c.Avoids S.image := by
  intro v hv z hz hb
  rcases Subst.mem_image hz with ⟨rfl, _⟩ | hr
  · exact (mem_free.1 hv).2 hb
  · exact (h z hb).2 hr

/-- Where nothing is captured, the restricted substitution is substitution proper. -/
theorem substituted_iff {S : Subst} (hc : c.body.IsPlain) (hS : S.IsPlain)
    (h : c.Avoids S.image) : c.Substituted S d ↔ (c.apply S).AlphaEq d := by
  have hplain : (c.bind S.image).body.IsPlain := body_bind_isPlain hc hS.image
  rw [apply_eq_bind hc]
  constructor
  · rintro ⟨c', hcc', hapart, hd⟩
    have hc' : c'.body.IsPlain := hcc'.elim fun _ hρ => hρ.isPlain hc
    rw [← bind_image_of_apart hc' fun z hz => (hapart z hz).1] at hd
    exact (hcc'.bind hc h (avoids_of_apart hapart)).trans hplain hd
  · intro hd
    obtain ⟨c', hcc', hnames⟩ := c.exists_alphaEq_apart (S.keys ++ S.range.names)
    have hc' : c'.body.IsPlain := hcc'.elim fun _ hρ => hρ.isPlain hc
    have hapart : ∀ z ∈ c'.bound, z ∉ S ∧ z ∉ S.range := fun z hz =>
      ⟨fun hm => hnames z hz (List.mem_append_left _ hm),
        fun hm => hnames z hz (List.mem_append_right _ hm)⟩
    have heq := (hcc'.bind hc h (avoids_of_apart hapart)).symm hplain
    rw [bind_image_of_apart hc' fun z hz => (hapart z hz).1] at heq
    refine ⟨c', hcc', hapart, heq.trans ?_ hd⟩
    exact hc'.apply hS

/-- Where it captures a variable, it is not substitution proper. -/
theorem substituted_apply_iff {S : Subst} (hc : c.body.IsPlain) (hS : S.IsPlain) :
    c.Substituted S (c.apply S) ↔ c.Avoids S.image := by
  refine ⟨?_, fun h => (substituted_iff hc hS h).2 (.refl _)⟩
  rintro ⟨c', ⟨ρ, hρ⟩, hapart, σ, hσ⟩ x hx z hz
  have hc' := hρ.isPlain hc
  rw [← bind_image_of_apart hc' fun y hy => (hapart y hy).1, apply_eq_bind hc] at hσ
  have hzc' : z ∈ (c'.bind S.image).free :=
    (mem_free_bind hc' (avoids_of_apart hapart)).2 ⟨x, (hρ.mem_free hc).2 hx, hz⟩
  exact (mem_free.1 ((hσ.mem_free (body_bind_isPlain hc' hS.image)).2 hzc')).2

end Scheme
end LetLower
