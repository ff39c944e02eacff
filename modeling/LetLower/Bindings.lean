import LetLower.NameSet

/-!
# Finite maps from names, in order of insertion

A key keeps the place at which it was first inserted, whatever is bound to it later. Each key
stands once. `get?` is the view: every operation has one equation that says what it does to it.
-/

namespace LetLower

structure Bindings (α : Type) where
  entries : List (String × α)
  nodup : (entries.map Prod.fst).Nodup
deriving DecidableEq, Repr

namespace Bindings

variable {α β : Type}

def empty : Bindings α := ⟨[], .nil⟩

instance : EmptyCollection (Bindings α) := ⟨empty⟩
instance : Inhabited (Bindings α) := ⟨empty⟩

def single (x : String) (a : α) : Bindings α := ⟨[(x, a)], by simp⟩

def isEmpty (m : Bindings α) : Bool := m.entries.isEmpty

def keys (m : Bindings α) : List String := m.entries.map Prod.fst

def values (m : Bindings α) : List α := m.entries.map Prod.snd

instance : Membership String (Bindings α) where
  mem m x := x ∈ m.keys

theorem mem_def {x : String} {m : Bindings α} : x ∈ m ↔ x ∈ m.keys := Iff.rfl

instance (x : String) (m : Bindings α) : Decidable (x ∈ m) :=
  inferInstanceAs (Decidable (x ∈ m.keys))

def find (x : String) : List (String × α) → Option α
  | [] => none
  | e :: es => if x = e.1 then some e.2 else find x es

theorem find_eq_none_iff {x : String} {es : List (String × α)} :
    find x es = none ↔ x ∉ es.map Prod.fst := by
  induction es with
  | nil => simp [find]
  | cons e es ih => rw [find, List.map_cons, List.mem_cons]; grind

theorem find_eq_some_iff {x : String} {a : α} {es : List (String × α)}
    (h : (es.map Prod.fst).Nodup) : find x es = some a ↔ (x, a) ∈ es := by
  induction es with
  | nil => simp [find]
  | cons e es ih =>
    obtain ⟨k, b⟩ := e
    rw [List.map_cons, List.nodup_cons] at h
    obtain ⟨hn, hd⟩ := h
    have hm : ∀ c, (k, c) ∉ es := fun c hc => hn (List.mem_map.2 ⟨_, hc, rfl⟩)
    by_cases hx : x = k
    · subst hx
      simp [find, hm, eq_comm]
    · simp [find, hx, ih hd]

theorem find_append {x : String} {es fs : List (String × α)} :
    find x (es ++ fs) = (find x es).or (find x fs) := by
  induction es with
  | nil => simp [find]
  | cons e es ih => by_cases h : x = e.1 <;> simp [find, h, ih]

theorem find_filter {p : String → Bool} {x : String} {es : List (String × α)} :
    find x (es.filter fun e => p e.1) = if p x then find x es else none := by
  induction es with
  | nil => simp [find]
  | cons e es ih => rw [List.filter_cons]; grind [find]

theorem find_map {f : α → β} {x : String} {es : List (String × α)} :
    find x (es.map fun e => (e.1, f e.2)) = (find x es).map f := by
  induction es with
  | nil => rfl
  | cons e es ih => by_cases h : x = e.1 <;> simp [find, h, ih]

def get? (m : Bindings α) (x : String) : Option α := find x m.entries

theorem get?_eq_none_iff {m : Bindings α} {x : String} : m.get? x = none ↔ x ∉ m :=
  find_eq_none_iff

theorem get?_eq_some_iff {m : Bindings α} {x : String} {a : α} :
    m.get? x = some a ↔ (x, a) ∈ m.entries :=
  find_eq_some_iff m.nodup

@[simp] theorem get?_empty (x : String) : (∅ : Bindings α).get? x = none := rfl

@[simp] theorem not_mem_empty (x : String) : x ∉ (∅ : Bindings α) :=
  get?_eq_none_iff.1 (get?_empty x)

@[simp] theorem get?_single {x y : String} {a : α} :
    (single x a).get? y = if y = x then some a else none := rfl

def map (f : α → β) (m : Bindings α) : Bindings β :=
  ⟨m.entries.map fun e => (e.1, f e.2), by
    simpa [List.map_map, Function.comp_def] using m.nodup⟩

@[simp] theorem get?_map {f : α → β} {m : Bindings α} {x : String} :
    (m.map f).get? x = (m.get? x).map f :=
  find_map

@[simp] theorem keys_map {f : α → β} {m : Bindings α} : (m.map f).keys = m.keys := by
  simp [keys, map, Function.comp_def]

def filterKeys (p : String → Bool) (m : Bindings α) : Bindings α :=
  ⟨m.entries.filter fun e => p e.1, m.nodup.sublist (List.filter_sublist.map _)⟩

@[simp] theorem get?_filterKeys {p : String → Bool} {m : Bindings α} {x : String} :
    (m.filterKeys p).get? x = if p x then m.get? x else none :=
  find_filter

def erase (m : Bindings α) (x : String) : Bindings α := m.filterKeys (· ≠ x)

@[simp] theorem get?_erase {m : Bindings α} {x y : String} :
    (m.erase x).get? y = if y = x then none else m.get? y := by
  by_cases h : y = x <;> simp [erase, h]

def without (m : Bindings α) (s : NameSet) : Bindings α := m.filterKeys (· ∉ s)

@[simp] theorem get?_without {m : Bindings α} {s : NameSet} {x : String} :
    (m.without s).get? x = if x ∈ s then none else m.get? x := by
  by_cases h : x ∈ s <;> simp [without, h]

def replace (x : String) (a : α) (es : List (String × α)) : List (String × α) :=
  es.map fun e => if e.1 = x then (x, a) else e

theorem map_fst_replace {x : String} {a : α} {es : List (String × α)} :
    (replace x a es).map Prod.fst = es.map Prod.fst := by
  rw [replace, List.map_map]
  apply List.map_congr_left
  intro e _
  by_cases he : e.1 = x <;> simp [he]

theorem find_replace {x y : String} {a : α} {es : List (String × α)} :
    find y (replace x a es)
      = if y = x then (find x es).map fun _ => a else find y es := by
  induction es with
  | nil => simp [find, replace]
  | cons e es ih =>
    rw [replace, List.map_cons]
    change find y (_ :: replace x a es) = _
    grind [find]

/-- Bind a key, in its place if it is there already and last otherwise. -/
def insert (m : Bindings α) (x : String) (a : α) : Bindings α :=
  if h : x ∈ m then ⟨replace x a m.entries, by rw [map_fst_replace]; exact m.nodup⟩
  else ⟨m.entries ++ [(x, a)], by
    rw [List.map_append, List.nodup_append]
    refine ⟨m.nodup, by simp, fun y hy z hz => ?_⟩
    obtain rfl : z = x := by simpa using hz
    rintro rfl
    exact h hy⟩

@[simp] theorem get?_insert {m : Bindings α} {x y : String} {a : α} :
    (m.insert x a).get? y = if y = x then some a else m.get? y := by
  by_cases h : x ∈ m
  · have hs : find x m.entries ≠ none := fun h' => find_eq_none_iff.1 h' h
    obtain ⟨b, hb⟩ := Option.ne_none_iff_exists'.1 hs
    simp [insert, h, get?, find_replace, hb]
  · have hn : find x m.entries = none := find_eq_none_iff.2 h
    simp only [insert, h, get?, dite_false, find_append, find]
    grind

/-- The pairs in order; a later pair overrides an earlier one of the same key. -/
def ofList (es : List (String × α)) : Bindings α := es.foldl (fun m e => m.insert e.1 e.2) ∅

/-- The entries of `m`, then those of `n` whose key `m` lacks. -/
def append (m n : Bindings α) : Bindings α :=
  ⟨m.entries ++ (n.filterKeys (· ∉ m)).entries, by
    rw [List.map_append, List.nodup_append]
    refine ⟨m.nodup, (n.filterKeys _).nodup, fun x hx y hy => ?_⟩
    obtain ⟨e, he, rfl⟩ := List.mem_map.1 hy
    have := (List.mem_filter.1 he).2
    rintro rfl
    exact of_decide_eq_true this hx⟩

@[simp] theorem get?_append {m n : Bindings α} {x : String} :
    (m.append n).get? x = (m.get? x).or (n.get? x) := by
  change find x (m.entries ++ _) = _
  rw [find_append]
  change (m.get? x).or ((n.filterKeys (· ∉ m)).get? x) = _
  rw [get?_filterKeys]
  by_cases h : x ∈ m
  · obtain ⟨a, ha⟩ := Option.ne_none_iff_exists'.1 fun h' => get?_eq_none_iff.1 h' h
    simp [h, ha]
  · simp [h]

end Bindings
end LetLower
