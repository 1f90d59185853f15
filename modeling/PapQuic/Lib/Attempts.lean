import PapQuic.Lib.Run

/-! # Loops that skip failures

A loop over items, with a state: an attempt on an item gives a result or raises an error. Errors of
one kind skip the item, all others end the loop. When no attempt raises one of the latter, the loop
goes through all items, and its results are those of the attempts that succeed, in their order. -/

namespace PapQuic.Lib.Attempts

open Lib.Run

variable {σ α β ε : Type*}

/-- What a loop has come to. -/
structure Ended (σ α β ε : Type*) where
  state : σ
  results : List β
  skipped : List (α × ε)
  raised : Option ε

def attempts (attempt : σ → α → σ × Except ε β) (skips : ε → Bool) :
    List α → Ended σ α β ε → Ended σ α β ε
  | [], loop => loop
  | a :: items, loop =>
    match attempt loop.state a with
    | (s, .ok b) =>
      attempts attempt skips items { loop with state := s, results := loop.results ++ [b] }
    | (s, .error e) =>
      if skips e then
        attempts attempt skips items { loop with state := s, skipped := loop.skipped ++ [(a, e)] }
      else { loop with state := s, raised := some e }

variable {attempt : σ → α → σ × Except ε β} {skips : ε → Bool}

/-- The state after an attempt. -/
def next (attempt : σ → α → σ × Except ε β) (s : σ) (a : α) : σ := (attempt s a).1

/-- The result of an attempt, if there is one. -/
def gained (attempt : σ → α → σ × Except ε β) (s : σ) (a : α) : List β :=
  (attempt s a).2.toOption.toList

/-- The attempt raises no error that ends the loop. -/
def Skippable (attempt : σ → α → σ × Except ε β) (skips : ε → Bool) (s : σ) (a : α) : Prop :=
  ∀ e, (attempt s a).2 = .error e → skips e = true

/-- **How a loop ends.** -/
theorem attempts_spec : ∀ (items : List α) (loop : Ended σ α β ε), loop.raised = none →
    ((attempts attempt skips items loop).raised = none ↔
        AllMeet (next attempt) (Skippable attempt skips) loop.state items) ∧
      ((attempts attempt skips items loop).raised = none →
        (attempts attempt skips items loop).results =
          loop.results ++ outputs (next attempt) (gained attempt) loop.state items)
  | [], loop, h => ⟨iff_of_true h trivial, fun _ => (List.append_nil _).symm⟩
  | a :: items, loop, h => by
    rw [attempts, AllMeet, outputs]
    rcases hr : attempt loop.state a with ⟨s, e | b⟩
    · have hnext : next attempt loop.state a = s := by rw [next, hr]
      have hgained : gained attempt loop.state a = [] := by simp [gained, hr, Except.toOption]
      rw [hnext, hgained]
      by_cases hs : skips e = true
      · have hskip : Skippable attempt skips loop.state a := fun e' he => by
          rw [hr] at he
          exact Except.error.inj he ▸ hs
        have ih := attempts_spec items
          { loop with state := s, skipped := loop.skipped ++ [(a, e)] } h
        simp only [hs, if_true, hskip, true_and, List.nil_append]
        exact ih
      · have hskip : ¬Skippable attempt skips loop.state a := fun hsk => hs (hsk e (by rw [hr]))
        simp [hs, hskip]
    · have hskip : Skippable attempt skips loop.state a := fun e' he => by
        rw [hr] at he
        cases he
      have hnext : next attempt loop.state a = s := by rw [next, hr]
      have hgained : gained attempt loop.state a = [b] := by simp [gained, hr, Except.toOption]
      have ih := attempts_spec items { loop with state := s, results := loop.results ++ [b] } h
      rw [hnext, hgained, and_iff_right hskip, ← List.append_assoc]
      exact ih

/-- Outputs along a run that are known for each item. -/
theorem map_outputs_eq {γ : Type*} {step : σ → α → σ} {out : σ → α → List β} {cond : σ → α → Prop}
    {f : β → γ} {g : α → γ} {p : α → Bool}
    (h : ∀ s a, cond s a → (out s a).map f = if p a then [g a] else []) :
    ∀ {items : List α} {s : σ}, AllMeet step cond s items →
      (outputs step out s items).map f = (items.filter p).map g
  | [], _, _ => rfl
  | a :: items, s, hall => by
    rw [outputs, List.map_append, h s a hall.1, map_outputs_eq h hall.2, List.filter_cons]
    split_ifs
    · rfl
    · rfl

/-- Two filters, one stricter than the other, keep the same elements. -/
theorem map_filter_eq_iff {α β : Type*} {f : α → β} {p q : α → Bool} {l : List α}
    (h : ∀ a, q a = true → p a = true) :
    (l.filter p).map f = (l.filter q).map f ↔ ∀ a ∈ l, p a = true → q a = true := by
  constructor
  · intro heq
    have hfilter : l.filter q = (l.filter p).filter q := by
      rw [List.filter_filter]
      exact List.filter_congr fun a _ => by
        cases hq : q a
        · rfl
        · simp [h a hq]
    have hlen : ((l.filter p).filter q).length = (l.filter p).length := by
      rw [← hfilter]
      simpa using (congrArg List.length heq).symm
    intro a ha hp
    exact List.length_filter_eq_length_iff.mp hlen a (List.mem_filter.mpr ⟨ha, hp⟩)
  · intro hall
    rw [List.filter_congr fun a ha => Bool.eq_iff_iff.mpr ⟨hall a ha, h a⟩]

end PapQuic.Lib.Attempts
