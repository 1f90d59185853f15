import PapQuic.Log.Timing

/-! # The books that the log keeps

A server line shows by how much its packet changed the credit. Lines can be held back, so the log is
not in the order of the packets; but only packets that are sent have their lines held back, and
these take from the credit. So the log never shows more taken than was given: `Books lines pending
floor` says that in every first part of the log the changes add up to at least 0, and that with the
lines still held they leave at least `floor`.

* `Books.moves`: INTERNAL lines, and held lines that are let go, keep the books.
* `Books.logs`: so does the line of a packet, held or not, when the floor changes by no more than
  what the line shows. -/

namespace PapQuic.Log.Ledger

open Log.Lines Log.Timing

/-- The change of the credit a line shows. -/
def shown : Line → ℤ
  | .packet l => l.delta.getD 0
  | .internal _ => 0

/-- The sum of the changes that lines show. -/
def total (lines : List Line) : ℤ := (lines.map shown).sum

@[simp] theorem total_nil : total [] = 0 := rfl

@[simp] theorem total_append (a b : List Line) : total (a ++ b) = total a + total b := by
  simp [total]

@[simp] theorem total_singleton (l : Line) : total [l] = shown l := by
  simp [total]

/-- What a slot holds back from the log, at most 0. -/
def debt (held : Option Line) : ℤ := min 0 (held.elim 0 shown)

def heldDebt (pending : Slot → Option Line) : ℤ :=
  debt (pending .serverInitial) + debt (pending .clientFinished) +
    debt (pending .serverHandshakeDone)

@[simp] theorem debt_none : debt none = 0 := rfl

theorem debt_nonpos (held : Option Line) : debt held ≤ 0 := min_le_left _ _

theorem heldDebt_nonpos (pending : Slot → Option Line) : heldDebt pending ≤ 0 := by
  have h1 := debt_nonpos (pending .serverInitial)
  have h2 := debt_nonpos (pending .clientFinished)
  have h3 := debt_nonpos (pending .serverHandshakeDone)
  unfold heldDebt
  omega

theorem heldDebt_update (pending : Slot → Option Line) (slot : Slot) (held : Option Line) :
    heldDebt (Function.update pending slot held) =
      heldDebt pending - debt (pending slot) + debt held := by
  cases slot <;> simp [heldDebt, Function.update] <;> ring

/-- The books are in order. -/
structure Books (lines : List Line) (pending : Slot → Option Line) (floor : ℤ) : Prop where
  total_nonneg : ∀ first, first <+: lines → 0 ≤ total first
  balance : floor ≤ total lines + heldDebt pending

section

variable {lines : List Line} {p q : Slot → Option Line} {floor floor' : ℤ}

theorem Books.mono (h : Books lines p floor) (hle : floor' ≤ total lines + heldDebt q) :
    Books lines q floor' :=
  ⟨h.total_nonneg, hle⟩

/-- One more line, when the log is balanced with it. -/
theorem Books.concat {l : Line} (h : Books lines p floor) (h0 : 0 ≤ floor')
    (hle : floor' ≤ total lines + shown l + heldDebt q) : Books (lines ++ [l]) q floor' := by
  have hq := heldDebt_nonpos q
  refine ⟨fun first hf => ?_, by simpa using hle⟩
  rcases List.prefix_concat_iff.mp hf with rfl | hf
  · rw [total_append, total_singleton]
    omega
  · exact h.total_nonneg first hf

theorem Books.moves {out : List Line} (h : Books lines p floor) (h0 : 0 ≤ floor)
    (hm : Moves p out q) : Books (lines ++ out) q floor := by
  induction hm generalizing lines with
  | nil p => simpa using h
  | internal l _ ih =>
    rw [← List.singleton_append, ← List.append_assoc]
    exact ih (h.concat h0 (by simpa [shown] using h.balance))
  | @flush slot p q out _ ih =>
    have hb := h.balance
    have hu := heldDebt_update p slot none
    rcases hs : p slot with _ | l <;> rw [hs] at hu
    · refine ih (h.mono ?_)
      rw [hu, debt_none]
      omega
    · rw [Option.toList_some, ← List.append_assoc]
      refine ih (h.concat h0 ?_)
      have hd : debt (some l) ≤ shown l := min_le_right _ _
      rw [hu, debt_none]
      omega

/-- The line of a packet. Where it can be held, the floor has to fall by what it shows as taken and
must not rise. -/
theorem Books.logs {line : Line} {isSend : Bool} {out : List Line} (h : Books lines p floor)
    (h0 : 0 ≤ floor) (h0' : 0 ≤ floor') (hle : floor' ≤ floor + shown line)
    (hsend : isSend = true → floor' ≤ floor + min 0 (shown line))
    (hl : Logs line isSend p out q) : Books (lines ++ out) q floor' := by
  cases hl with
  | @written _ r _ a b h1 h2 =>
    have hr := h.moves h0 h1
    have hb := hr.balance
    have hline : Books (lines ++ a ++ [line]) r floor' := hr.concat h0' (by omega)
    simpa using hline.moves h0' h2
  | @held slot _ r _ a b hs h1 hfree h2 =>
    have hr := h.moves h0 h1
    have hb := hr.balance
    have hu := heldDebt_update r slot (some line)
    have hle' := hsend hs
    have hline : Books (lines ++ a) (Function.update r slot (some line)) floor' := hr.mono (by
      rw [hu, hfree, debt_none, debt, Option.elim_some]
      omega)
    simpa using hline.moves h0' h2

end

end PapQuic.Log.Ledger
