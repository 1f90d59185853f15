import PapQuic.Lib.Printf

/-! # Balanced texts

Texts in which every bracket that is opened is closed again. Which characters open and which close
is a parameter, and kinds of brackets are not told apart: this is the notion that goes with a loop
that only counts how deep it is. Such a loop passes over a balanced text (`Counts.balanced`). -/

namespace PapQuic.Lib.Balance

open Lib.Printf

/-- The characters that open and those that close. -/
structure Brackets where
  opens : Char → Bool
  closes : Char → Bool

/-- The character is no bracket. -/
def Brackets.plain (b : Brackets) (c : Char) : Prop := b.opens c = false ∧ b.closes c = false

instance (b : Brackets) (c : Char) : Decidable (b.plain c) := inferInstanceAs (Decidable (_ ∧ _))

inductive Balanced (b : Brackets) : Text → Prop
  | plain {s : Text} : (∀ c ∈ s, b.plain c) → Balanced b s
  | append {s t : Text} : Balanced b s → Balanced b t → Balanced b (s ++ t)
  | wrap {x y : Char} {s : Text} : b.opens x = true → b.closes y = true → Balanced b s →
    Balanced b (x :: (s ++ [y]))

theorem balanced_intercalate {b : Brackets} {sep : Text} (hsep : Balanced b sep) :
    ∀ {l : List Text}, (∀ s ∈ l, Balanced b s) → Balanced b (sep.intercalate l)
  | [], _ => .plain (by simp)
  | [s], h => by simpa using h s (by simp)
  | s :: t :: l, h => by
    rw [List.intercalate_cons_cons]
    exact ((h s (by simp)).append hsep).append
      (balanced_intercalate hsep fun u hu => h u (by simp [hu]))

/-- A loop over a text with a depth and the text it has collected: inside brackets it only counts. A
bracket that would close the outermost one is not spoken of. -/
structure Counts {α : Type*} (b : Brackets) (loop : ℕ → Text → Text → α) : Prop where
  opens : ∀ d current c s, b.opens c = true →
    loop (d + 1) current (c :: s) = loop (d + 2) (current ++ [c]) s
  closes : ∀ d current c s, b.closes c = true →
    loop (d + 2) current (c :: s) = loop (d + 1) (current ++ [c]) s
  plain : ∀ d current c s, b.plain c →
    loop (d + 1) current (c :: s) = loop (d + 1) (current ++ [c]) s

/-- **The loop passes over a balanced text.** -/
theorem Counts.balanced {α : Type*} {b : Brackets} {loop : ℕ → Text → Text → α} (h : Counts b loop)
    {s : Text} (hs : Balanced b s) : ∀ (d : ℕ) (current rest : Text),
      loop (d + 1) current (s ++ rest) = loop (d + 1) (current ++ s) rest := by
  induction hs with
  | @plain s hs =>
    induction s with
    | nil => simp
    | cons c s ih =>
      intro d current rest
      rw [List.cons_append, h.plain _ _ _ _ (hs c (by simp)), ih fun e he => hs e (by simp [he]),
        List.append_assoc, List.singleton_append]
  | append _ _ ihs iht =>
    intro d current rest
    rw [List.append_assoc, ihs, iht, List.append_assoc]
  | @wrap x y s hx hy _ ih =>
    intro d current rest
    rw [List.cons_append, h.opens _ _ _ _ hx, List.append_assoc, ih, List.singleton_append,
      h.closes _ _ _ _ hy]
    simp

end PapQuic.Lib.Balance
