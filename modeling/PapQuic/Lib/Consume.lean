import Mathlib.Algebra.GroupWithZero.Nat
import Mathlib.Data.List.Basic
import Mathlib.Tactic.Common

/-! # Loops that consume a list

A loop that works through a list: each round gets its number, a state and what is left of the list,
and returns an output, a state and what it leaves of the list, or fails. The loop ends when the list
is used up or a round fails. `consume` runs it for a bounded number of rounds and is `none` while it
is still running.

When what a round leaves does not depend on the state (`Skips`), whether the loop ends is a question
about the list alone:

* `consume_of_progress`: it ends, with at most one output for each element, when every round it
  comes to leaves less than it got;
* `consume_eq_none`: it never ends when it comes to a round that leaves what it got.

A loop whose rounds decode an element and then do something with it decodes the whole list first
(`parse`) and does the rest afterwards (`consume_eq_parse`). -/

namespace PapQuic.Lib.Consume

variable {α β σ : Type*}

/-- The loop, for at most `n` rounds: the outputs, whether the list was used up, and the state. -/
def consume (step : ℕ → σ → List α → Option (β × σ × List α)) :
    ℕ → ℕ → σ → List α → Option (List β × Bool × σ)
  | _, _, s, [] => some ([], true, s)
  | 0, _, _, _ :: _ => none
  | n + 1, i, s, a :: l =>
    match step i s (a :: l) with
    | none => some ([], false, s)
    | some (b, s, rest) => (consume step n (i + 1) s rest).map fun r => (b :: r.1, r.2)

/-- The lists the loop comes to. -/
inductive Reaches (skip : List α → Option (List α)) : List α → List α → Prop
  | refl (l : List α) : Reaches skip l l
  | step {l m r : List α} : l ≠ [] → skip l = some m → Reaches skip m r → Reaches skip l r

/-- What a round leaves depends on the list only, and is `skip` of it. -/
def Skips (step : ℕ → σ → List α → Option (β × σ × List α)) (skip : List α → Option (List α)) :
    Prop :=
  ∀ i s l, l ≠ [] → (step i s l).map (fun o => o.2.2) = skip l

variable {step : ℕ → σ → List α → Option (β × σ × List α)} {skip : List α → Option (List α)}

theorem Skips.of_none (hs : Skips step skip) {i : ℕ} {s : σ} {l : List α} (hl : l ≠ [])
    (h : step i s l = none) : skip l = none := by
  rw [← hs i s l hl, h]; rfl

theorem Skips.of_some (hs : Skips step skip) {i : ℕ} {s s' : σ} {l rest : List α} {b : β}
    (hl : l ≠ []) (h : step i s l = some (b, s', rest)) : skip l = some rest := by
  rw [← hs i s l hl, h]; rfl

/-- **A loop whose rounds all make progress ends.** -/
theorem consume_of_progress (hs : Skips step skip) : ∀ (n i : ℕ) (s : σ) (l : List α),
    l.length ≤ n →
    (∀ r m, Reaches skip l r → r ≠ [] → skip r = some m → m.length < r.length) →
    ∃ out, consume step n i s l = some out ∧ out.1.length ≤ l.length
  | n, i, s, [], _, _ => ⟨([], true, s), by rw [consume], by simp⟩
  | 0, _, _, _ :: _, hn, _ => by simp at hn
  | n + 1, i, s, a :: l, hn, hp => by
    rw [consume]
    rcases hst : step i s (a :: l) with _ | ⟨b, s', rest⟩
    · exact ⟨_, rfl, by simp⟩
    · have hsk := hs.of_some (by simp) hst
      have hlt := hp _ _ (.refl _) (by simp) hsk
      rw [List.length_cons] at hn hlt
      obtain ⟨out, ho, hl⟩ := consume_of_progress hs n (i + 1) s' rest (by omega)
        fun r m hr => hp r m (.step (by simp) hsk hr)
      refine ⟨(b :: out.1, out.2), by simp [ho], ?_⟩
      simp only [List.length_cons]
      omega

/-- **A loop that comes to a round without progress never ends.** -/
theorem consume_eq_none (hs : Skips step skip) {l r : List α} (hr : Reaches skip l r)
    (hne : r ≠ []) (hst : skip r = some r) : ∀ (n i : ℕ) (s : σ), consume step n i s l = none := by
  induction hr with
  | refl l =>
    intro n
    induction n with
    | zero =>
      intro i s
      obtain ⟨a, l, rfl⟩ := List.exists_cons_of_ne_nil hne
      rw [consume]
    | succ n ih =>
      intro i s
      obtain ⟨a, l, rfl⟩ := List.exists_cons_of_ne_nil hne
      rw [consume]
      rcases h : step i s (a :: l) with _ | ⟨b, s', rest⟩
      · rw [hs.of_none (by simp) h] at hst; cases hst
      · have e := (hs.of_some (by simp) h).symm.trans hst
        cases e
        simp [ih]
  | @step l m r hl hsk _ ih =>
    intro n i s
    obtain ⟨a, l, rfl⟩ := List.exists_cons_of_ne_nil hl
    cases n with
    | zero => rw [consume]
    | succ n =>
      rw [consume]
      rcases h : step i s (a :: l) with _ | ⟨b, s', rest⟩
      · rw [hs.of_none (by simp) h] at hsk; cases hsk
      · have e := (hs.of_some (by simp) h).symm.trans hsk
        cases e
        simp [ih hne hst]

/-- **A loop whose rounds account for what they take accounts for the whole list.** -/
theorem consume_conserves {size : β → ℕ} (hstep : ∀ i s l b s' rest, l ≠ [] →
    step i s l = some (b, s', rest) → size b + rest.length = l.length) :
    ∀ {n i : ℕ} {s s' : σ} {l : List α} {bs : List β},
      consume step n i s l = some (bs, true, s') → (bs.map size).sum = l.length
  | _, _, _, _, [], _, h => by
    rw [consume] at h
    cases h
    rfl
  | 0, _, _, _, _ :: _, _, h => by cases h
  | n + 1, i, s, s', a :: l, bs, h => by
    rw [consume] at h
    rcases hst : step i s (a :: l) with _ | ⟨b, s₁, rest⟩
    · rw [hst] at h
      cases h
    · rw [hst] at h
      obtain ⟨⟨bs', ok, s₂⟩, hr, he⟩ := Option.map_eq_some_iff.mp h
      cases he
      have hsize := hstep i s _ b s₁ rest (by simp) hst
      have hrest := consume_conserves hstep hr
      rw [List.map_cons, List.sum_cons, hrest, hsize]

/-! ### Decoding first -/

/-- The elements of a list, decoded one after the other for at most `n` rounds. -/
def parse {γ : Type*} (dec : List α → Option (γ × List α)) : ℕ → List α → Option (List γ × Bool)
  | _, [] => some ([], true)
  | 0, _ :: _ => none
  | n + 1, a :: l =>
    match dec (a :: l) with
    | none => some ([], false)
    | some (x, rest) => (parse dec n rest).map fun r => (x :: r.1, r.2)

theorem parse_of_some {γ : Type*} {dec : List α → Option (γ × List α)} {n : ℕ} {l rest : List α}
    {x : γ} (hl : l ≠ []) (h : dec l = some (x, rest)) :
    parse dec (n + 1) l = (parse dec n rest).map fun r => (x :: r.1, r.2) := by
  obtain ⟨a, l, rfl⟩ := List.exists_cons_of_ne_nil hl
  rw [parse, h]

/-- What is parsed was decoded somewhere. -/
theorem mem_parse {γ : Type*} {dec : List α → Option (γ × List α)} : ∀ {n : ℕ} {l : List α}
    {xs : List γ} {ok : Bool}, parse dec n l = some (xs, ok) → ∀ x ∈ xs,
      ∃ l' rest, dec l' = some (x, rest)
  | _, [], _, _, h, x, hx => by
    rw [parse] at h
    cases h
    cases hx
  | 0, _ :: _, _, _, h, _, _ => by cases h
  | n + 1, a :: l, xs, ok, h, x, hx => by
    rw [parse] at h
    rcases hd : dec (a :: l) with _ | ⟨y, rest⟩
    · rw [hd] at h
      cases h
      cases hx
    · rw [hd] at h
      obtain ⟨⟨ys, ok'⟩, hys, he⟩ := Option.map_eq_some_iff.mp h
      cases he
      rcases List.mem_cons.mp hx with rfl | hx
      · exact ⟨_, _, hd⟩
      · exact mem_parse hys x hx

/-- The elements of a list, each with its number, handled one after the other. -/
def handle {γ : Type*} (f : ℕ → σ → γ → β × σ) : ℕ → σ → List γ → List β × σ
  | _, s, [] => ([], s)
  | i, s, x :: xs => ((f i s x).1 :: (handle f (i + 1) (f i s x).2 xs).1,
      (handle f (i + 1) (f i s x).2 xs).2)

/-- What handling one element keeps true of the state, and shows of its output. -/
theorem handle_invariant {γ : Type*} {f : ℕ → σ → γ → β × σ} (inv : σ → Prop) {good : β → Prop}
    (h : ∀ i s x, inv s → good (f i s x).1 ∧ inv (f i s x).2) :
    ∀ (i : ℕ) (s : σ) (xs : List γ), inv s →
      (∀ b ∈ (handle f i s xs).1, good b) ∧ inv (handle f i s xs).2
  | _, _, [], hs => ⟨by simp [handle], hs⟩
  | i, s, x :: xs, hs => by
    obtain ⟨hb, hs'⟩ := h i s x hs
    obtain ⟨hbs, hs''⟩ := handle_invariant inv h (i + 1) (f i s x).2 xs hs'
    refine ⟨fun b hmem => ?_, hs''⟩
    rcases List.mem_cons.mp hmem with rfl | hmem
    · exact hb
    · exact hbs b hmem

/-- **Decoding does not wait for the handling.** -/
theorem consume_eq_parse {γ : Type*} {step : ℕ → σ → List α → Option (β × σ × List α)}
    (dec : List α → Option (γ × List α)) (f : ℕ → σ → γ → β × σ)
    (hstep : ∀ i s l, step i s l = (dec l).map fun o => ((f i s o.1).1, (f i s o.1).2, o.2)) :
    ∀ (n i : ℕ) (s : σ) (l : List α), consume step n i s l =
      (parse dec n l).map fun o => ((handle f i s o.1).1, o.2, (handle f i s o.1).2)
  | n, i, s, [] => by simp [consume, parse, handle]
  | 0, i, s, a :: l => by simp [consume, parse]
  | n + 1, i, s, a :: l => by
    rw [consume, parse, hstep]
    rcases dec (a :: l) with _ | ⟨x, rest⟩
    · simp [handle]
    · have ih := consume_eq_parse dec f hstep n (i + 1) (f i s x).2 rest
      simp only [Option.map_some, ih, Option.map_map]
      rfl

end PapQuic.Lib.Consume
