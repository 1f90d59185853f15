import Mathlib.Data.List.Basic
import Mathlib.Tactic.Common

/-! # Runs of a state machine

A machine that is told what to do step by step: a run is a fold over the list of its steps. What one
step preserves, whole runs preserve, also when only steps that meet a condition in the state they
start from are looked at (`AllMeet`).

For two runs, `outputs_eq_filter` is an unwinding rule: when the steps of others leave a relation to
a second machine in place, and the machine's own steps give the same output on both sides, then the
outputs of a run are those of the machine's own steps alone. -/

namespace PapQuic.Lib.Run

variable {σ α : Type*} (step : σ → α → σ)

/-- The state after a run. -/
def run (s : σ) (steps : List α) : σ := steps.foldl step s

@[simp] theorem run_nil (s : σ) : run step s [] = s := rfl

@[simp] theorem run_cons (s : σ) (a : α) (steps : List α) :
    run step s (a :: steps) = run step (step s a) steps := rfl

@[simp] theorem run_append (s : σ) (a b : List α) :
    run step s (a ++ b) = run step (run step s a) b := by
  simp [run]

/-- **A part of the machine that only some steps touch** goes through the run of these steps
alone. -/
theorem run_part {τ β : Type*} {step : σ → α → σ} {proj : σ → τ} {part : α → Option β}
    {stepPart : τ → β → τ}
    (h : ∀ s a, proj (step s a) = (part a).elim (proj s) (stepPart (proj s))) (s : σ)
    (steps : List α) : proj (run step s steps) = run stepPart (proj s) (steps.filterMap part) := by
  induction steps generalizing s with
  | nil => rfl
  | cons a steps ih =>
    rw [run_cons, ih, h, List.filterMap_cons]
    cases part a <;> rfl

/-- A part of the machine that at most one of the steps touches: the run leaves there what this step
makes of it. -/
theorem run_once {τ : Type*} {step : σ → α → σ} (proj : σ → τ) (upd : τ → α → τ) {p : α → Bool}
    (hin : ∀ s a, p a = true → proj (step s a) = upd (proj s) a)
    (hout : ∀ s a, p a = false → proj (step s a) = proj s) (s : σ) {steps : List α}
    (h : steps.Pairwise fun a b => p a = true → p b = false) :
    proj (run step s steps) = (steps.find? p).elim (proj s) (upd (proj s)) := by
  induction steps generalizing s with
  | nil => rfl
  | cons a steps ih =>
    obtain ⟨ha, h⟩ := List.pairwise_cons.mp h
    rw [run_cons, ih _ h]
    rcases hp : p a with _ | _
    · rw [hout s a hp, List.find?_cons_of_neg (by simp [hp])]
    · have hnone : steps.find? p = none := List.find?_eq_none.mpr fun b hb => by simp [ha b hb hp]
      rw [hin s a hp, List.find?_cons_of_pos hp, hnone]
      rfl

/-- Every step meets the condition in the state it starts from. -/
def AllMeet (cond : σ → α → Prop) : σ → List α → Prop
  | _, [] => True
  | s, a :: steps => cond s a ∧ AllMeet cond (step s a) steps

variable {step}

theorem AllMeet.take {cond : σ → α → Prop} : ∀ {a b : List α} {s : σ},
    AllMeet step cond s (a ++ b) → AllMeet step cond s a
  | [], _, _, _ => trivial
  | _ :: _, _, _, h => ⟨h.1, AllMeet.take h.2⟩

theorem allMeet_append {cond : σ → α → Prop} : ∀ {a b : List α} {s : σ},
    AllMeet step cond s (a ++ b) ↔ AllMeet step cond s a ∧ AllMeet step cond (run step s a) b
  | [], _, _ => by simp [AllMeet]
  | _ :: a, b, s => by
    rw [List.cons_append, AllMeet, AllMeet, allMeet_append, run_cons, and_assoc]

/-- Two machines that stay in step meet their conditions at the same time. -/
theorem allMeet_iff_of_rel {τ : Type*} {step' : τ → α → τ} {cond : σ → α → Prop}
    {cond' : τ → α → Prop} (rel : σ → τ → Prop)
    (hcond : ∀ s t a, rel s t → (cond s a ↔ cond' t a))
    (hstep : ∀ s t a, rel s t → rel (step s a) (step' t a)) :
    ∀ (steps : List α) {s : σ} {t : τ}, rel s t →
      (AllMeet step cond s steps ↔ AllMeet step' cond' t steps)
  | [], _, _, _ => Iff.rfl
  | a :: steps, s, t, h =>
    and_congr (hcond s t a h) (allMeet_iff_of_rel rel hcond hstep steps (hstep s t a h))

theorem allMeet_congr {cond cond' : σ → α → Prop} (h : ∀ s a, cond s a ↔ cond' s a) (steps : List α)
    {s : σ} : AllMeet step cond s steps ↔ AllMeet step cond' s steps :=
  allMeet_iff_of_rel (· = ·) (fun s _ a hst => hst ▸ h s a) (fun _ _ _ hst => hst ▸ rfl) steps rfl

/-- **An invariant of the steps that meet a condition holds after every run of such steps.** -/
theorem AllMeet.invariant {cond : σ → α → Prop} {inv : σ → Prop}
    (hstep : ∀ s a, inv s → cond s a → inv (step s a)) :
    ∀ {steps : List α} {s : σ}, inv s → AllMeet step cond s steps → inv (run step s steps)
  | [], _, hi, _ => hi
  | a :: steps, s, hi, h => by
    have h1 : inv (step s a) := hstep s a hi h.1
    rw [run_cons]
    exact AllMeet.invariant hstep h1 h.2

/-- What follows from the condition and an invariant of the steps is met by every step. -/
theorem AllMeet.strengthen {cond cond' : σ → α → Prop} {inv : σ → Prop}
    (hstep : ∀ s a, inv s → cond s a → inv (step s a))
    (himp : ∀ s a, inv s → cond s a → cond' s a) :
    ∀ {steps : List α} {s : σ}, inv s → AllMeet step cond s steps → AllMeet step cond' s steps
  | [], _, _, _ => trivial
  | a :: _, s, hi, h =>
    ⟨himp s a hi h.1, AllMeet.strengthen hstep himp (hstep s a hi h.1) h.2⟩

/-- An invariant of every step holds after every run. -/
theorem run_invariant (inv : σ → Prop) (hstep : ∀ s a, inv s → inv (step s a)) :
    ∀ (steps : List α) {s : σ}, inv s → inv (run step s steps)
  | [], _, hi => hi
  | a :: steps, s, hi => by
    rw [run_cons]
    exact run_invariant inv hstep steps (hstep s a hi)

/-- What is put out along a run. -/
def outputs {β : Type*} (step : σ → α → σ) (out : σ → α → List β) : σ → List α → List β
  | _, [] => []
  | s, a :: steps => out s a ++ outputs step out (step s a) steps

theorem outputs_append {β : Type*} (out : σ → α → List β) : ∀ (s : σ) (a b : List α),
    outputs step out s (a ++ b) = outputs step out s a ++ outputs step out (run step s a) b
  | _, [], _ => rfl
  | s, x :: a, b => by
    rw [List.cons_append, outputs, outputs, outputs_append out (step s x) a b, run_cons,
      List.append_assoc]

theorem not_mem_outputs_iff {β : Type*} {out : σ → α → List β} {b : β} : ∀ {steps : List α} {s : σ},
    b ∉ outputs step out s steps ↔ AllMeet step (fun s a => b ∉ out s a) s steps
  | [], _ => iff_of_true List.not_mem_nil trivial
  | a :: steps, s => by
    rw [outputs, List.mem_append, not_or, AllMeet, not_mem_outputs_iff]

/-- Some step meets the condition in the state it starts from. -/
def AnyMeet (step : σ → α → σ) (cond : σ → α → Prop) : σ → List α → Prop
  | _, [] => False
  | s, a :: steps => cond s a ∨ AnyMeet step cond (step s a) steps

theorem anyMeet_concat {cond : σ → α → Prop} : ∀ {steps : List α} {s : σ} {a : α},
    AnyMeet step cond s (steps ++ [a]) ↔ AnyMeet step cond s steps ∨ cond (run step s steps) a
  | [], s, a => by simp [AnyMeet]
  | x :: steps, s, a => by
    rw [List.cons_append, AnyMeet, AnyMeet, anyMeet_concat, run_cons, or_assoc]

/-- **Unwinding.** -/
theorem outputs_eq_filter {β : Type*} {out : σ → α → List β} {cond : σ → α → Prop}
    {own : α → Bool} (rel : σ → σ → Prop)
    (hown : ∀ s t a, rel s t → own a = true → cond s a →
      out s a = out t a ∧ rel (step s a) (step t a))
    (hother : ∀ s t a, rel s t → own a = false → cond s a → out s a = [] ∧ rel (step s a) t) :
    ∀ {steps : List α} {s t : σ}, rel s t → AllMeet step cond s steps →
      outputs step out s steps = outputs step out t (steps.filter own)
  | [], _, _, _, _ => rfl
  | a :: steps, s, t, hr, h => by
    rcases ho : own a with _ | _
    · obtain ⟨hnil, hr'⟩ := hother s t a hr ho h.1
      rw [List.filter_cons_of_neg (by simp [ho]), outputs, hnil, List.nil_append]
      exact outputs_eq_filter rel hown hother hr' h.2
    · obtain ⟨heq, hr'⟩ := hown s t a hr ho h.1
      rw [List.filter_cons_of_pos (by simp [ho]), outputs, outputs, heq]
      rw [outputs_eq_filter rel hown hother hr' h.2]

end PapQuic.Lib.Run
