import Mathlib.Data.List.Basic
import Mathlib.Data.List.Nodup

/-!
# Lists of records with a key

Records are found by a key that no operation changes, as objects are by their address. `get` gives
the first record with a key, `modify` rewrites the records with a key and `remove` takes them out.
What each operation does to `get` is an equation (`get_modify`, `get_remove`, `get_concat`); with
distinct keys the records of the list are those that `get` gives (`mem_iff`).
-/

namespace Keyed

variable {α κ : Type*} [DecidableEq κ] {key : α → κ} {l : List α} {k a : κ} {x y : α} {f : α → α}

def get (key : α → κ) (l : List α) (k : κ) : Option α := l.find? fun x => key x = k

def modify (key : α → κ) (l : List α) (k : κ) (f : α → α) : List α :=
  l.map fun x => if key x = k then f x else x

def remove (key : α → κ) (l : List α) (k : κ) : List α := l.filter fun x => key x ≠ k

theorem key_of_get (h : get key l k = some x) : key x = k := by
  simpa using List.find?_some h

theorem mem_of_get (h : get key l k = some x) : x ∈ l := List.mem_of_find?_eq_some h

theorem get_none_iff : get key l k = none ↔ k ∉ l.map key := by
  simp [get, List.find?_eq_none]

theorem exists_get (key : α → κ) (h : x ∈ l) : ∃ y, get key l (key x) = some y := by
  cases hy : get key l (key x) with
  | none => exact absurd (List.mem_map_of_mem h) (get_none_iff.1 hy)
  | some y => exact ⟨y, rfl⟩

/-- With distinct keys every record is found. -/
theorem mem_iff (hnd : (l.map key).Nodup) : x ∈ l ↔ get key l (key x) = some x := by
  refine ⟨fun h => ?_, mem_of_get⟩
  obtain ⟨y, hy⟩ := exists_get key h
  rw [hy, List.inj_on_of_nodup_map hnd (mem_of_get hy) h (key_of_get hy)]

theorem get_modify (hf : ∀ x, key (f x) = key x) :
    get key (modify key l k f) a = if a = k then (get key l a).map f else get key l a := by
  induction l with
  | nil => simp [get, modify]
  | cons x l ih =>
    rw [get, modify] at ih
    by_cases hx : key x = a
    · by_cases hk : a = k
      · simp [get, modify, hx, hk, hf]
      · simp [get, modify, hx, hk]
    · have hx' : ¬ key (if key x = k then f x else x) = a := by
        split
        · rw [hf]
          exact hx
        · exact hx
      simp only [get, modify, List.map_cons, List.find?_cons_of_neg, hx, hx', decide_false,
        Bool.false_eq_true, not_false_eq_true]
      exact ih

theorem get_modify_self (hf : ∀ x, key (f x) = key x) (h : get key l k = some x) :
    get key (modify key l k f) k = some (f x) := by
  rw [get_modify hf, if_pos rfl, h]
  rfl

theorem get_modify_ne (hf : ∀ x, key (f x) = key x) (h : a ≠ k) :
    get key (modify key l k f) a = get key l a := by
  rw [get_modify hf, if_neg h]

theorem keys_modify (hf : ∀ x, key (f x) = key x) :
    (modify key l k f).map key = l.map key := by
  rw [modify, List.map_map]
  refine List.map_congr_left fun x _ => ?_
  simp only [Function.comp]
  split
  · exact hf x
  · rfl

theorem get_remove : get key (remove key l k) a = if a = k then none else get key l a := by
  split
  · rename_i h
    rw [get_none_iff]
    simp [remove, h]
  · rename_i h
    rw [get, get, remove, List.find?_filter]
    congr 1
    funext x
    by_cases hx : key x = a
    · simp [hx, h]
    · simp [hx]

theorem nodup_remove (h : (l.map key).Nodup) : ((remove key l k).map key).Nodup :=
  h.sublist (List.filter_sublist.map key)

theorem get_concat : get key (l ++ [x]) a = (get key l a).or (if key x = a then some x else none) := by
  rw [get, List.find?_append, get]
  congr 1
  simp only [List.find?_cons, List.find?_nil]
  split <;> simp_all

theorem nodup_concat (h : (l.map key).Nodup) (hx : get key l (key x) = none) :
    ((l ++ [x]).map key).Nodup := by
  rw [List.map_append, List.map_singleton, List.nodup_append]
  refine ⟨h, List.nodup_singleton _, ?_⟩
  intro a ha b hb hab
  rw [List.mem_singleton.1 hb] at hab
  exact get_none_iff.1 hx (hab ▸ ha)

end Keyed
