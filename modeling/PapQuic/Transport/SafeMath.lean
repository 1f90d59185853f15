import Mathlib.Algebra.Group.Nat.Defs
import Mathlib.Tactic.Common

/-! # Checked arithmetic and time (`safe_math.h`, `time.h`)

The checked operations on `uint64_t`, with `none` for the error that they report; no caller modelled
here looks at the value beside an error. `OSSL_TIME` is a number of nanoseconds. -/

namespace PapQuic.Transport.SafeMath

/-- A result that fits into a `uint64_t`. -/
def checked (x : ℕ) : Option ℕ := if x < 2 ^ 64 then some x else none

/-- `safe_add_uint64_t`. -/
def safeAdd (a b : ℕ) : Option ℕ := checked (a + b)

/-- `safe_mul_uint64_t`. -/
def safeMul (a b : ℕ) : Option ℕ := checked (a * b)

/-- `safe_muldiv_uint64_t`: the product first if it fits, else the larger factor is divided
first. -/
def safeMuldiv (a b c : ℕ) : Option ℕ :=
  if c = 0 then none
  else match safeMul a b with
    | some x => some (x / c)
    | none => do
      let x ← safeMul (max a b % c) (min a b)
      let y ← safeMul (max a b / c) (min a b)
      safeAdd y (x / c)

/-- `ossl_time_infinite`. -/
def timeInfinite : ℕ := 2 ^ 64 - 1

/-- `ossl_time_subtract`. -/
def timeSubtract (a b : ℕ) : ℕ := a - b

/-- `ossl_time_multiply`. -/
def timeMultiply (a b : ℕ) : ℕ := (safeMul a b).getD timeInfinite

/-- `ossl_time_muldiv`. -/
def timeMuldiv (a b c : ℕ) : ℕ := (safeMuldiv a b c).getD 0

end PapQuic.Transport.SafeMath
