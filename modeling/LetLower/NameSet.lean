/-!
# Finite sets of names

A set lists its members in increasing order, each once, so equal sets are equal values. The
order is that of the code points, in which `t10` comes before `t2`.
-/

namespace LetLower

/-- The first text is a proper beginning of the second, or has the smaller code point where they
first differ. -/
def Precedes : List Char → List Char → Prop
  | _, [] => False
  | [], _ :: _ => True
  | a :: as, b :: bs => a.toNat < b.toNat ∨ a = b ∧ Precedes as bs

namespace Precedes

instance decide : (as bs : List Char) → Decidable (Precedes as bs)
  | [], [] => .isFalse id
  | _ :: _, [] => .isFalse id
  | [], _ :: _ => .isTrue trivial
  | a :: as, b :: bs =>
    have := decide as bs
    inferInstanceAs (Decidable (a.toNat < b.toNat ∨ a = b ∧ Precedes as bs))

theorem irrefl (as : List Char) : ¬ Precedes as as := by
  induction as with
  | nil => exact id
  | cons a as ih => simp [Precedes, ih]

theorem trans {as bs cs : List Char} (h : Precedes as bs) (h' : Precedes bs cs) :
    Precedes as cs := by
  induction as generalizing bs cs with
  | nil => cases bs <;> cases cs <;> simp_all [Precedes]
  | cons a as ih =>
    cases bs with
    | nil => exact h.elim
    | cons b bs =>
      cases cs with
      | nil => exact h'.elim
      | cons c cs =>
        rcases h with h | ⟨rfl, h⟩ <;> rcases h' with h' | ⟨rfl, h'⟩
        · exact .inl (Nat.lt_trans h h')
        · exact .inl h
        · exact .inl h'
        · exact .inr ⟨rfl, ih h h'⟩

theorem total (as bs : List Char) : Precedes as bs ∨ as = bs ∨ Precedes bs as := by
  induction as generalizing bs with
  | nil => cases bs <;> simp [Precedes]
  | cons a as ih =>
    cases bs with
    | nil => simp [Precedes]
    | cons b bs =>
      rcases Nat.lt_trichotomy a.toNat b.toNat with h | h | h
      · exact .inl (.inl h)
      · obtain rfl := Char.toNat_inj.1 h
        rcases ih bs with h | rfl | h
        · exact .inl (.inr ⟨rfl, h⟩)
        · exact .inr (.inl rfl)
        · exact .inr (.inr (.inr ⟨rfl, h⟩))
      · exact .inr (.inr (.inl h))

end Precedes

def NameBefore (x y : String) : Prop := Precedes x.toList y.toList

namespace NameBefore

instance (x y : String) : Decidable (NameBefore x y) :=
  inferInstanceAs (Decidable (Precedes x.toList y.toList))

theorem irrefl (x : String) : ¬ NameBefore x x := Precedes.irrefl _

theorem trans {x y z : String} (h : NameBefore x y) (h' : NameBefore y z) : NameBefore x z :=
  Precedes.trans h h'

theorem total (x y : String) : NameBefore x y ∨ x = y ∨ NameBefore y x := by
  rcases Precedes.total x.toList y.toList with h | h | h
  · exact .inl h
  · exact .inr (.inl (String.toList_inj.1 h))
  · exact .inr (.inr h)

end NameBefore

structure NameSet where
  names : List String
  sorted : names.Pairwise NameBefore
deriving DecidableEq, Repr

namespace NameSet

instance : Membership String NameSet where
  mem s x := x ∈ s.names

theorem mem_def {x : String} {s : NameSet} : x ∈ s ↔ x ∈ s.names := Iff.rfl

instance (x : String) (s : NameSet) : Decidable (x ∈ s) :=
  inferInstanceAs (Decidable (x ∈ s.names))

theorem nodup (s : NameSet) : s.names.Nodup := by
  have h : s.names.Pairwise (· ≠ ·) := s.sorted.imp fun {a b} hlt he => by
    subst he
    exact NameBefore.irrefl a hlt
  exact h

def empty : NameSet := ⟨[], .nil⟩

instance : EmptyCollection NameSet := ⟨empty⟩
instance : Inhabited NameSet := ⟨empty⟩

@[simp] theorem not_mem_empty (x : String) : x ∉ (∅ : NameSet) := by
  simp [mem_def, EmptyCollection.emptyCollection, empty]

def isEmpty (s : NameSet) : Bool := s.names.isEmpty

def insertSorted (x : String) : List String → List String
  | [] => [x]
  | y :: ys =>
    if NameBefore x y then x :: y :: ys
    else if x = y then y :: ys
    else y :: insertSorted x ys

theorem mem_insertSorted {x z : String} {ys : List String} :
    z ∈ insertSorted x ys ↔ z = x ∨ z ∈ ys := by
  induction ys with
  | nil => simp [insertSorted]
  | cons y ys ih =>
    by_cases h : NameBefore x y
    · simp [insertSorted, h]
    · by_cases he : x = y <;> grind [insertSorted]

theorem insertSorted_sorted {x : String} {ys : List String} (h : ys.Pairwise NameBefore) :
    (insertSorted x ys).Pairwise NameBefore := by
  induction ys with
  | nil => simp [insertSorted]
  | cons y ys ih =>
    obtain ⟨hy, hys⟩ := List.pairwise_cons.1 h
    by_cases hx : NameBefore x y
    · simp only [insertSorted, hx, if_true, List.pairwise_cons]
      refine ⟨fun z hz => ?_, hy, hys⟩
      rcases List.mem_cons.1 hz with rfl | hz
      · exact hx
      · exact NameBefore.trans hx (hy z hz)
    · by_cases he : x = y
      · subst he
        simpa [insertSorted, hx] using And.intro hy hys
      · simp only [insertSorted, hx, he, if_false, List.pairwise_cons]
        refine ⟨fun z hz => ?_, ih hys⟩
        rcases mem_insertSorted.1 hz with rfl | hz
        · rcases NameBefore.total z y with h' | h' | h'
          · exact absurd h' hx
          · exact absurd h' he
          · exact h'
        · exact hy z hz

def insert (s : NameSet) (x : String) : NameSet :=
  ⟨insertSorted x s.names, insertSorted_sorted s.sorted⟩

@[simp] theorem mem_insert {x z : String} {s : NameSet} : z ∈ s.insert x ↔ z = x ∨ z ∈ s :=
  mem_insertSorted

def single (x : String) : NameSet := (∅ : NameSet).insert x

@[simp] theorem mem_single {x z : String} : z ∈ single x ↔ z = x := by simp [single]

def union (s t : NameSet) : NameSet := t.names.foldl insert s

theorem mem_foldl_insert {z : String} {xs : List String} {s : NameSet} :
    z ∈ xs.foldl insert s ↔ z ∈ s ∨ z ∈ xs := by
  induction xs generalizing s with
  | nil => simp
  | cons x xs ih => grind [mem_insert]

@[simp] theorem mem_union {z : String} {s t : NameSet} : z ∈ s.union t ↔ z ∈ s ∨ z ∈ t :=
  mem_foldl_insert

def ofList (xs : List String) : NameSet := xs.foldl insert ∅

@[simp] theorem mem_ofList {z : String} {xs : List String} : z ∈ ofList xs ↔ z ∈ xs := by
  simp [ofList, mem_foldl_insert]

def diff (s t : NameSet) : NameSet :=
  ⟨s.names.filter (· ∉ t), s.sorted.filter _⟩

@[simp] theorem mem_diff {z : String} {s t : NameSet} : z ∈ s.diff t ↔ z ∈ s ∧ z ∉ t := by
  simp [mem_def, diff]

def erase (s : NameSet) (x : String) : NameSet :=
  ⟨s.names.filter (· ≠ x), s.sorted.filter _⟩

@[simp] theorem mem_erase {x z : String} {s : NameSet} : z ∈ s.erase x ↔ z ∈ s ∧ z ≠ x := by
  simp [mem_def, erase]

def size (s : NameSet) : Nat := s.names.length

theorem length_le_of_nodup_subset {xs ys : List String} (h : xs.Nodup)
    (hs : ∀ x ∈ xs, x ∈ ys) : xs.length ≤ ys.length := by
  induction xs generalizing ys with
  | nil => simp
  | cons x xs ih =>
    obtain ⟨hx, hxs⟩ := List.nodup_cons.1 h
    have hm : x ∈ ys := hs x (by simp)
    have hr : ∀ z ∈ xs, z ∈ ys.erase x := fun z hz =>
      (List.mem_erase_of_ne (by grind)).2 (hs z (by simp [hz]))
    have := ih hxs hr
    have := List.length_erase_of_mem hm
    have := List.length_pos_of_mem hm
    simp only [List.length_cons]
    omega

theorem size_le_of_subset {s t : NameSet} (h : ∀ x ∈ s, x ∈ t) : s.size ≤ t.size :=
  length_le_of_nodup_subset s.nodup h

theorem size_lt_of_subset {s t : NameSet} (h : ∀ x ∈ s, x ∈ t) {z : String} (hz : z ∈ t)
    (hn : z ∉ s) : s.size < t.size := by
  have : (s.insert z).size ≤ t.size := size_le_of_subset fun x hx => by
    rcases mem_insert.1 hx with rfl | hx
    · exact hz
    · exact h x hx
  have hi : (z :: s.names).length ≤ (s.insert z).names.length :=
    length_le_of_nodup_subset (List.nodup_cons.2 ⟨hn, s.nodup⟩) fun x hx =>
      mem_insert.2 (List.mem_cons.1 hx)
  simp only [List.length_cons] at hi
  simp only [size] at *
  omega

end NameSet
end LetLower
