import LetLower.Bindings
import Mathlib.Data.List.Permutation

/-!
# Sets and maps of names, by their members

Sets with the same members are equal. What the operations on maps do to the keys, and how they
commute with a map over the values, place by place.
-/

namespace LetLower

theorem NameSet.eq_of_mem_iff {s t : NameSet} (h : ∀ z, z ∈ s ↔ z ∈ t) : s = t := by
  obtain ⟨xs, hx⟩ := s
  obtain ⟨ys, hy⟩ := t
  have hp : xs.Perm ys :=
    (List.perm_ext_iff_of_nodup (nodup ⟨xs, hx⟩) (nodup ⟨ys, hy⟩)).2 fun z => h z
  have he : xs = ys :=
    hp.eq_of_pairwise (fun a b _ _ hab hba => absurd (hab.trans hba) (NameBefore.irrefl a)) hx hy
  subst he
  rfl

namespace Bindings

variable {α β : Type}

theorem eq_of_entries_eq {m n : Bindings α} (h : m.entries = n.entries) : m = n := by
  obtain ⟨es, hm⟩ := m
  obtain ⟨fs, hn⟩ := n
  subst h
  rfl

theorem mem_map {f : α → β} {m : Bindings α} {x : String} : x ∈ m.map f ↔ x ∈ m := by
  rw [mem_def, mem_def, keys_map]

theorem map_map {γ : Type} {f : α → β} {g : β → γ} {m : Bindings α} :
    (m.map f).map g = m.map fun a => g (f a) :=
  eq_of_entries_eq (by simp [map, Function.comp_def])

theorem entries_insert_of_mem {m : Bindings α} {x : String} (hx : x ∈ m) (a : α) :
    (m.insert x a).entries = replace x a m.entries := by
  rw [insert, dif_pos hx]

theorem entries_insert_of_not_mem {m : Bindings α} {x : String} (hx : x ∉ m) (a : α) :
    (m.insert x a).entries = m.entries ++ [(x, a)] := by
  rw [insert, dif_neg hx]

theorem map_insert {f : α → β} {m : Bindings α} {x : String} {a : α} :
    (m.insert x a).map f = (m.map f).insert x (f a) := by
  apply eq_of_entries_eq
  change (m.insert x a).entries.map _ = _
  by_cases hx : x ∈ m
  · rw [entries_insert_of_mem hx, entries_insert_of_mem (mem_map.2 hx)]
    simp only [map, replace, List.map_map]
    refine List.map_congr_left fun e _ => ?_
    simp only [Function.comp_apply]
    split <;> rfl
  · rw [entries_insert_of_not_mem hx, entries_insert_of_not_mem fun h => hx (mem_map.1 h)]
    rw [List.map_append]
    rfl

theorem map_congr {f g : α → β} {m : Bindings α} (h : ∀ x a, m.get? x = some a → f a = g a) :
    m.map f = m.map g := by
  apply eq_of_entries_eq
  refine List.map_congr_left fun e he => ?_
  rw [h e.1 e.2 (get?_eq_some_iff.2 he)]

theorem map_id {m : Bindings α} : m.map (fun a => a) = m :=
  eq_of_entries_eq (by simp [map])

theorem mem_append {m n : Bindings α} {x : String} : x ∈ m.append n ↔ x ∈ m ∨ x ∈ n := by
  have h : ∀ p : Bindings α, x ∈ p ↔ p.get? x ≠ none := fun p => by
    rw [Ne, get?_eq_none_iff, Decidable.not_not]
  rw [h, h, h, get?_append]
  cases m.get? x <;> simp

theorem map_append {f : α → β} {m n : Bindings α} :
    (m.append n).map f = (m.map f).append (n.map f) := by
  apply eq_of_entries_eq
  change (m.entries ++ n.entries.filter _).map _ = m.entries.map _ ++ (n.entries.map _).filter _
  rw [List.map_append, List.filter_map]
  congr 2
  refine List.filter_congr fun e _ => ?_
  exact decide_eq_decide.2 (not_congr mem_map.symm)

theorem append_assoc {m n p : Bindings α} : (m.append n).append p = m.append (n.append p) := by
  apply eq_of_entries_eq
  change (m.entries ++ n.entries.filter _) ++ p.entries.filter _
    = m.entries ++ (n.entries ++ p.entries.filter _).filter _
  rw [List.filter_append, List.filter_filter, List.append_assoc]
  congr 2
  refine List.filter_congr fun e _ => ?_
  rw [← Bool.decide_and]
  exact decide_eq_decide.2 ((not_congr mem_append).trans not_or)

theorem mem_iff_get? {m : Bindings α} {x : String} : x ∈ m ↔ ∃ a, m.get? x = some a := by
  rw [← Option.ne_none_iff_exists', Ne, get?_eq_none_iff, Decidable.not_not]

theorem mem_values {m : Bindings α} {a : α} : a ∈ m.values ↔ ∃ x, m.get? x = some a := by
  rw [values, List.mem_map]
  constructor
  · rintro ⟨⟨x, b⟩, he, rfl⟩
    exact ⟨x, get?_eq_some_iff.2 he⟩
  · rintro ⟨x, hx⟩
    exact ⟨(x, a), get?_eq_some_iff.1 hx, rfl⟩

theorem mem_erase {m : Bindings α} {x z : String} : z ∈ m.erase x ↔ z ≠ x ∧ z ∈ m := by
  rw [mem_iff_get?, mem_iff_get?, get?_erase]
  by_cases hz : z = x <;> simp [hz]

theorem mem_single {x z : String} {a : α} : z ∈ single x a ↔ z = x := List.mem_singleton

theorem mem_insert {m : Bindings α} {x z : String} {a : α} :
    z ∈ m.insert x a ↔ z = x ∨ z ∈ m := by
  rw [mem_iff_get?, mem_iff_get?, get?_insert]
  by_cases hz : z = x <;> simp [hz]

theorem forall_erase {P : α → Prop} {m : Bindings α} (h : ∀ x a, m.get? x = some a → P a)
    (y : String) (x : String) (a : α) (hx : (m.erase y).get? x = some a) : P a := by
  rw [get?_erase] at hx
  split at hx
  · cases hx
  · exact h x a hx

theorem forall_insert {P : α → Prop} {m : Bindings α} (h : ∀ x a, m.get? x = some a → P a)
    {b : α} (hb : P b) (y : String) (x : String) (a : α)
    (hx : (m.insert y b).get? x = some a) : P a := by
  rw [get?_insert] at hx
  split at hx
  · rwa [← Option.some.inj hx]
  · exact h x a hx

end Bindings
end LetLower
