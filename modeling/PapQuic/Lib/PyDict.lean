import Mathlib.Data.List.AList
import Mathlib.Data.List.Induction
import Mathlib.Tactic.Common

/-! # Dictionaries

Python's `dict` built from a list of items, the last item of a key counting (`lookup_ofItems`). -/

namespace PapQuic.Lib.PyDict

variable {κ β : Type*} [DecidableEq κ]

/-- A dictionary; each key has one value. -/
abbrev Dict (κ β : Type*) := AList fun _ : κ => β

/-- `{key: value for key, value in items}`. -/
def ofItems (items : List (κ × β)) : Dict κ β :=
  items.foldl (fun dict item => dict.insert item.1 item.2) ∅

theorem ofItems_concat (items : List (κ × β)) (item : κ × β) :
    ofItems (items ++ [item]) = (ofItems items).insert item.1 item.2 := by
  rw [ofItems, List.foldl_append]
  rfl

/-- **The last item of a key counts.** -/
theorem lookup_ofItems (k : κ) (items : List (κ × β)) :
    (ofItems items).lookup k = items.reverse.lookup k := by
  induction items using List.reverseRecOn with
  | nil => rfl
  | append_singleton items item ih =>
    obtain ⟨key, value⟩ := item
    rw [ofItems_concat, List.reverse_append, List.reverse_singleton, List.singleton_append]
    by_cases hk : k = key
    · rw [← hk, AList.lookup_insert, List.lookup_cons_self]
    · rw [AList.lookup_insert_ne hk, ih, List.lookup_cons, beq_eq_false_iff_ne.mpr hk]

/-- A value of a key is from an item. -/
theorem mem_of_lookup_ofItems {k : κ} {v : β} {items : List (κ × β)}
    (h : (ofItems items).lookup k = some v) : (k, v) ∈ items := by
  rw [lookup_ofItems] at h
  obtain ⟨before, after, he, -⟩ := List.lookup_eq_some_iff.mp h
  rw [← List.mem_reverse, he]
  simp

theorem lookup_ofItems_eq_none {k : κ} {items : List (κ × β)} :
    (ofItems items).lookup k = none ↔ k ∉ items.map Prod.fst := by
  rw [lookup_ofItems, List.lookup_eq_none_iff]
  simp only [List.mem_reverse, List.mem_map, bne_iff_ne, ne_eq, not_exists, not_and]
  exact ⟨fun h item hm he => h item hm he.symm, fun h item hm he => h item hm he.symm⟩

/-- Where no key is twice, all items count. -/
theorem lookup_ofItems_iff {k : κ} {v : β} {items : List (κ × β)} (h : (items.map Prod.fst).Nodup) :
    (ofItems items).lookup k = some v ↔ (k, v) ∈ items := by
  refine ⟨mem_of_lookup_ofItems, fun hm => ?_⟩
  rcases hl : (ofItems items).lookup k with _ | w
  · exact absurd (List.mem_map_of_mem hm) (lookup_ofItems_eq_none.mp hl)
  · exact congrArg (some ∘ Prod.snd) (List.inj_on_of_nodup_map h (mem_of_lookup_ofItems hl) hm rfl)

/-- The items of a dictionary. -/
theorem mem_entries_iff {k : κ} {v : β} {dict : Dict κ β} :
    ⟨k, v⟩ ∈ dict.entries ↔ dict.lookup k = some v :=
  AList.mem_lookup_iff.symm

end PapQuic.Lib.PyDict
