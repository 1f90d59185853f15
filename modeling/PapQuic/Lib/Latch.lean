import PapQuic.Lib.Run

/-! # Latches

Some states of a machine are closed, and stay so. Some of its events close it, and some events
cannot happen in a closed state. Then none of the latter comes after one of the former in a whole
run (`latched_outputs`). -/

namespace PapQuic.Lib.Latch

open Lib.Run

variable {σ ε α : Type*} {closed : σ → Prop} {barred closing : ε → Prop}

/-- From one state to another, with these events on the way. -/
structure Latched (closed : σ → Prop) (barred closing : ε → Prop) (s : σ)
    (events : List ε) (t : σ) : Prop where
  keeps : closed s → closed t
  silent : closed s → ∀ e ∈ events, ¬barred e
  closes : ∀ e ∈ events, closing e → closed t
  ordered : events.Pairwise fun a b => closing a → ¬barred b

theorem Latched.nil {s t : σ} (h : closed s → closed t) : Latched closed barred closing s [] t where
  keeps := h
  silent := by simp
  closes := by simp
  ordered := .nil

theorem Latched.append {s t u : σ} {a b : List ε} (h1 : Latched closed barred closing s a t)
    (h2 : Latched closed barred closing t b u) : Latched closed barred closing s (a ++ b) u where
  keeps hs := h2.keeps (h1.keeps hs)
  silent hs e he := by
    rcases List.mem_append.mp he with he | he
    · exact h1.silent hs e he
    · exact h2.silent (h1.keeps hs) e he
  closes e he hc := by
    rcases List.mem_append.mp he with he | he
    · exact h2.keeps (h1.closes e he hc)
    · exact h2.closes e he hc
  ordered := List.pairwise_append.mpr
    ⟨h1.ordered, h2.ordered, fun a ha b hb hc => h2.silent (h1.closes a ha hc) b hb⟩

/-- **What holds of the steps holds of a run**, where the steps keep an invariant. -/
theorem latched_outputs {step : σ → α → σ} {out : σ → α → List ε} {inv : σ → Prop}
    (hinv : ∀ s a, inv s → inv (step s a))
    (hstep : ∀ s a, inv s → Latched closed barred closing s (out s a) (step s a)) :
    ∀ (steps : List α) {s : σ}, inv s →
      Latched closed barred closing s (outputs step out s steps) (run step s steps)
  | [], _, _ => .nil id
  | a :: steps, s, hs => (hstep s a hs).append (latched_outputs hinv hstep steps (hinv s a hs))

end PapQuic.Lib.Latch
