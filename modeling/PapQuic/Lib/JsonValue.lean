import PapQuic.Lib.Printf
import Mathlib.Data.Rat.Defs

/-! # JSON as Python reads it

The values that `json.load` returns, and what a Python program asks of a value whose type it does
not know: whether it is true, whether it is an integer, and what a dictionary has for a key. -/

namespace PapQuic.Lib.JsonValue

open Lib.Printf

inductive Json
  | null
  | bool (b : Bool)
  | int (n : ℤ)
  | float (x : ℚ)
  | str (s : Text)
  | list (l : List Json)
  | dict (entries : List (Text × Json))

/-- `bool(value)`. -/
def Json.truthy : Json → Bool
  | .null => false
  | .bool b => b
  | .int n => n ≠ 0
  | .float x => x ≠ 0
  | .str s => s ≠ []
  | .list l => !l.isEmpty
  | .dict entries => !entries.isEmpty

/-- The value as an integer, if `isinstance(value, int)`. The two truth values are integers. -/
def Json.asInt : Json → Option ℤ
  | .bool b => some b.toNat
  | .int n => some n
  | _ => none

/-- The value of a key. -/
def entry (entries : List (Text × Json)) (key : Text) : Option Json := entries.lookup key

/-- `value.get(key)`; `none` when the value has no such method. -/
def Json.get (value : Json) (key : Text) : Option (Option Json) :=
  match value with
  | .dict entries => some (entry entries key)
  | _ => none

/-- The integers met when iterating over a value; `none` when this is not possible. Texts and
dictionaries yield texts. -/
def Json.iterInts : Json → Option (List ℤ)
  | .list l => some (l.filterMap Json.asInt)
  | .str _ | .dict _ => some []
  | _ => none

/-- A list of natural numbers. -/
def ofNats (l : List ℕ) : Json := .list (l.map fun n : ℕ => .int n)

@[simp] theorem iterInts_ofNats (l : List ℕ) :
    (ofNats l).iterInts = some (l.map (Nat.cast : ℕ → ℤ)) := by
  simp [ofNats, Json.iterInts, List.filterMap_map, Function.comp_def, Json.asInt]

end PapQuic.Lib.JsonValue
