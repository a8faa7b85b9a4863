import Mathlib

/-! Dictionaries in insertion order: a list of entries whose keys do not repeat. -/

namespace EdgarSec.Lib

structure Dict (κ α : Type) where
  items : List (κ × α)
  nodup : (items.map Prod.fst).Nodup

namespace Dict

variable {κ α β : Type}

def empty : Dict κ α := ⟨[], List.nodup_nil⟩

def keys (d : Dict κ α) : List κ := d.items.map Prod.fst

@[ext] theorem ext {d e : Dict κ α} (h : d.items = e.items) : d = e := by
  cases d
  cases e
  simpa using h

instance [DecidableEq κ] [DecidableEq α] : DecidableEq (Dict κ α) := fun d e =>
  decidable_of_iff (d.items = e.items) ⟨ext, fun h => h ▸ rfl⟩

/-- Keeps the entries `p` accepts. -/
def filter (p : κ × α → Bool) (d : Dict κ α) : Dict κ α :=
  ⟨d.items.filter p, d.nodup.sublist (List.filter_sublist.map Prod.fst)⟩

def mapValues (f : α → β) (d : Dict κ α) : Dict κ β :=
  ⟨d.items.map fun e => (e.1, f e.2), by simpa [List.map_map, Function.comp_def] using d.nodup⟩

/-- The same entries with the keys in the order of `r`. -/
def sortedBy (r : κ × α → κ × α → Prop) [DecidableRel r] (d : Dict κ α) : Dict κ α :=
  ⟨d.items.insertionSort r,
    ((List.perm_insertionSort r d.items).map Prod.fst).nodup_iff.mpr d.nodup⟩

theorem filter_eq_self {p : κ × α → Bool} {d : Dict κ α} (h : ∀ e ∈ d.items, p e = true) :
    d.filter p = d :=
  ext (List.filter_eq_self.mpr h)

variable [DecidableEq κ]

def get? (d : Dict κ α) (k : κ) : Option α := d.items.lookup k

def contains (d : Dict κ α) (k : κ) : Bool := (d.get? k).isSome

theorem lookup_eq_some_of_mem {items : List (κ × α)} (hn : (items.map Prod.fst).Nodup) {k : κ} {v : α}
    (h : (k, v) ∈ items) : items.lookup k = some v := by
  induction items with
  | nil => simp at h
  | cons e rest ih =>
    obtain ⟨a, b⟩ := e
    simp only [List.map_cons, List.nodup_cons] at hn
    rcases List.mem_cons.mp h with he | h
    · cases he
      exact List.lookup_cons_self
    · have hka : k ≠ a := fun e => hn.1 (e ▸ List.mem_map.mpr ⟨(k, v), h, rfl⟩)
      rw [List.lookup_cons, beq_false_of_ne hka]
      exact ih hn.2 h

theorem mem_of_lookup_eq_some {items : List (κ × α)} {k : κ} {v : α} (h : items.lookup k = some v) :
    (k, v) ∈ items := by
  obtain ⟨as, bs, rfl, _⟩ := List.lookup_eq_some_iff.mp h
  simp

theorem get?_eq_some_iff {d : Dict κ α} {k : κ} {v : α} : d.get? k = some v ↔ (k, v) ∈ d.items :=
  ⟨mem_of_lookup_eq_some, lookup_eq_some_of_mem d.nodup⟩

theorem get?_eq_none_iff {d : Dict κ α} {k : κ} : d.get? k = none ↔ k ∉ d.keys := by
  rw [Option.eq_none_iff_forall_not_mem]
  constructor
  · intro h hk
    obtain ⟨⟨_, v⟩, he, rfl⟩ := List.mem_map.mp hk
    exact h v (get?_eq_some_iff.mpr he)
  · intro h v hv
    exact h (List.mem_map.mpr ⟨(k, v), get?_eq_some_iff.mp hv, rfl⟩)

/-- `d[k] = v`: the entry keeps its place when the key is there already. -/
def set (d : Dict κ α) (k : κ) (v : α) : Dict κ α :=
  if h : k ∈ d.keys then
    ⟨d.items.map fun e => if e.1 = k then (k, v) else e, by
      have he : (d.items.map fun e => if e.1 = k then (k, v) else e).map Prod.fst =
          d.items.map Prod.fst := by
        rw [List.map_map]
        refine List.map_congr_left fun e _ => ?_
        by_cases hek : e.1 = k <;> simp [hek]
      exact he ▸ d.nodup⟩
  else
    ⟨d.items ++ [(k, v)], by
      rw [List.map_append]
      refine List.nodup_append.mpr ⟨d.nodup, by simp, ?_⟩
      intro a ha b hb e
      obtain rfl : b = k := by simpa using hb
      exact h (e ▸ ha)⟩

theorem items_set_of_mem {d : Dict κ α} {k : κ} {v : α} (h : k ∈ d.keys) :
    (d.set k v).items = d.items.map fun e => if e.1 = k then (k, v) else e := by
  rw [set, dif_pos h]

theorem items_set_of_not_mem {d : Dict κ α} {k : κ} {v : α} (h : k ∉ d.keys) :
    (d.set k v).items = d.items ++ [(k, v)] := by
  rw [set, dif_neg h]

theorem mem_items_set {d : Dict κ α} {k : κ} {v : α} {e : κ × α} :
    e ∈ (d.set k v).items ↔ e = (k, v) ∨ (e ∈ d.items ∧ e.1 ≠ k) := by
  by_cases h : k ∈ d.keys
  · rw [items_set_of_mem h]
    obtain ⟨⟨k', w⟩, hw, rfl⟩ := List.mem_map.mp h
    constructor
    · intro he
      obtain ⟨a, ha, rfl⟩ := List.mem_map.mp he
      by_cases hak : a.1 = k'
      · simp [hak]
      · simp [hak, ha]
    · rintro (rfl | ⟨he, hne⟩)
      · exact List.mem_map.mpr ⟨(k', w), hw, by simp⟩
      · exact List.mem_map.mpr ⟨e, he, by simp [hne]⟩
  · simp only [items_set_of_not_mem h, List.mem_append, List.mem_singleton]
    constructor
    · rintro (he | rfl)
      · exact Or.inr ⟨he, fun hk => h (hk ▸ List.mem_map.mpr ⟨e, he, rfl⟩)⟩
      · exact Or.inl rfl
    · rintro (rfl | ⟨he, _⟩)
      · exact Or.inr rfl
      · exact Or.inl he

@[simp] theorem get?_set (d : Dict κ α) (k k' : κ) (v : α) :
    (d.set k v).get? k' = if k' = k then some v else d.get? k' := by
  split
  · rename_i h
    exact get?_eq_some_iff.mpr (mem_items_set.mpr (Or.inl (h ▸ rfl)))
  · rename_i h
    refine Option.ext fun w => ?_
    simp only [get?_eq_some_iff, mem_items_set, Prod.mk.injEq]
    simp [h]

/-- `del d[k]`. -/
def erase (d : Dict κ α) (k : κ) : Dict κ α := d.filter fun e => decide (e.1 ≠ k)

@[simp] theorem get?_erase (d : Dict κ α) (k k' : κ) :
    (d.erase k).get? k' = if k' = k then none else d.get? k' := by
  refine Option.ext fun w => ?_
  rw [get?_eq_some_iff]
  by_cases h : k' = k <;> simp [erase, filter, h, get?_eq_some_iff]

end Dict
end EdgarSec.Lib
