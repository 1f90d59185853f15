import Mathlib.Data.List.Basic
import Mathlib.Logic.Function.Basic

/-! # Settings that are saved, changed and restored

Settings are a function from keys to values. A backup is a list of keys with the values they had; it
is sound when these are the initial values. Writing a sound backup back gives the initial settings
exactly when every setting that is not in the backup is unchanged (`restoreAll_eq_iff`). -/

namespace PapQuic.Lib.Backup

variable {K V : Type*} [DecidableEq K]

/-- The values of a backup are written back one after the other. -/
def restoreAll (saved : List (K × V)) (cur : K → V) : K → V :=
  saved.foldl (fun c kv => Function.update c kv.1 kv.2) cur

/-- The values of the backup are the initial ones. -/
def Sound (saved : List (K × V)) (init : K → V) : Prop := ∀ kv ∈ saved, kv.2 = init kv.1

omit [DecidableEq K] in
theorem sound_nil (init : K → V) : Sound [] init := by simp [Sound]

omit [DecidableEq K] in
theorem Sound.concat {saved : List (K × V)} {init : K → V} (h : Sound saved init) (k : K) :
    Sound (saved ++ [(k, init k)]) init := by
  intro kv hkv
  rcases List.mem_append.mp hkv with hkv | hkv
  · exact h kv hkv
  · rw [List.mem_singleton.mp hkv]

theorem restoreAll_of_not_mem {k : K} : ∀ {saved : List (K × V)} {cur : K → V},
    k ∉ saved.map Prod.fst → restoreAll saved cur k = cur k
  | [], _, _ => rfl
  | kv :: saved, cur, h => by
    rw [List.map_cons, List.mem_cons, not_or] at h
    change restoreAll saved (Function.update cur kv.1 kv.2) k = _
    rw [restoreAll_of_not_mem h.2, Function.update_of_ne h.1]

theorem restoreAll_of_mem {k : K} {init : K → V} : ∀ {saved : List (K × V)} {cur : K → V},
    Sound saved init → k ∈ saved.map Prod.fst → restoreAll saved cur k = init k
  | kv :: saved, cur, hs, h => by
    have htail : Sound saved init := fun x hx => hs x (by simp [hx])
    change restoreAll saved (Function.update cur kv.1 kv.2) k = _
    by_cases hk : k ∈ saved.map Prod.fst
    · exact restoreAll_of_mem htail hk
    · rw [List.map_cons, List.mem_cons] at h
      obtain rfl := h.resolve_right hk
      rw [restoreAll_of_not_mem hk, Function.update_self, hs kv (by simp)]

/-- **When a sound backup restores everything.** -/
theorem restoreAll_eq_iff {saved : List (K × V)} {init : K → V} (hs : Sound saved init)
    (cur : K → V) :
    restoreAll saved cur = init ↔ ∀ k, k ∉ saved.map Prod.fst → cur k = init k := by
  constructor
  · intro h k hk
    have hcur : restoreAll saved cur k = cur k := restoreAll_of_not_mem hk
    rw [← hcur, h]
  · intro h
    funext k
    by_cases hk : k ∈ saved.map Prod.fst
    · exact restoreAll_of_mem hs hk
    · rw [restoreAll_of_not_mem hk, h k hk]

end PapQuic.Lib.Backup
