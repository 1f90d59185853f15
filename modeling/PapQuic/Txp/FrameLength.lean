import PapQuic.Wire.Vlint

/-! # How much of a chunk goes into a frame

The length of a CRYPTO or STREAM frame is itself encoded in one to eight bytes, so a longer payload
may leave less room for itself. `determine_len` of `quic_txp.c` tries the four encodings and takes
the one with the largest payload. `determineLen_spec`: the choice is the best one there is, and the
length of the header it returns is the exact one. -/

namespace PapQuic.Txp.FrameLength

open Wire.Vlint

/-- What `try_len` returns. -/
structure Try where
  hdrLen : ℕ
  payloadLen : ℕ
  valid : Bool
  deriving DecidableEq

/-- `try_len`. -/
def tryLen (spaceLeft origLen baseHdrLen lenbytes maxn : ℕ) : Try :=
  let hdrLen := baseHdrLen + lenbytes
  if origLen = 0 ∧ spaceLeft ≥ hdrLen then ⟨hdrLen, 0, true⟩
  else
    let n := min origLen maxn
    let n := if n + hdrLen > spaceLeft then (if spaceLeft ≥ hdrLen then spaceLeft - hdrLen else 0)
      else n
    ⟨hdrLen, n, n > 0⟩

/-- The loop over the four encodings keeps what has the largest payload, the later one of two. -/
def keepBetter (chosen : Option (ℕ × ℕ)) (t : Try) : Option (ℕ × ℕ) :=
  if t.valid ∧ t.payloadLen ≥ (chosen.map Prod.snd).getD 0 then some (t.hdrLen, t.payloadLen)
  else chosen

/-- `determine_len`: the lengths of header and payload, if anything fits. -/
def determineLen (spaceLeft origLen baseHdrLen : ℕ) : Option (ℕ × ℕ) :=
  [tryLen spaceLeft origLen baseHdrLen 8 (2 ^ 62 - 1),
    tryLen spaceLeft origLen baseHdrLen 4 (2 ^ 30 - 1),
    tryLen spaceLeft origLen baseHdrLen 2 (2 ^ 14 - 1),
    tryLen spaceLeft origLen baseHdrLen 1 (2 ^ 6 - 1)].foldl keepBetter none

/-- A payload of length `n` fits, with its length in front of it. -/
def Fits (spaceLeft baseHdrLen n : ℕ) : Prop := baseHdrLen + vlintEncodeLen n + n ≤ spaceLeft

section
variable {spaceLeft origLen baseHdrLen : ℕ}

theorem tryLen_eq (lenbytes maxn : ℕ) (h : 0 < origLen) :
    tryLen spaceLeft origLen baseHdrLen lenbytes maxn =
      ⟨baseHdrLen + lenbytes, min (min origLen maxn) (spaceLeft - (baseHdrLen + lenbytes)),
        0 < min (min origLen maxn) (spaceLeft - (baseHdrLen + lenbytes))⟩ := by
  have hn : (if min origLen maxn + (baseHdrLen + lenbytes) > spaceLeft then
      (if spaceLeft ≥ baseHdrLen + lenbytes then spaceLeft - (baseHdrLen + lenbytes) else 0)
      else min origLen maxn) =
      min (min origLen maxn) (spaceLeft - (baseHdrLen + lenbytes)) := by
    split_ifs <;> omega
  unfold tryLen
  rw [if_neg (by omega)]
  simp only [hn, gt_iff_lt]

end

/-- Of attempts with shorter and shorter headers the loop keeps one with the largest payload, and of
those the one with the shortest header. -/
theorem foldl_keepBetter {ts : List Try} (hts : ts.Pairwise fun a b => b.hdrLen < a.hdrLen) :
    (ts.foldl keepBetter none = none → ∀ t ∈ ts, t.valid = false) ∧
    ∀ h n, ts.foldl keepBetter none = some (h, n) →
      (∃ t ∈ ts, t.valid = true ∧ t.hdrLen = h ∧ t.payloadLen = n) ∧
      ∀ u ∈ ts, u.valid = true → u.payloadLen ≤ n ∧ (u.hdrLen < h → u.payloadLen < n) := by
  induction ts using List.reverseRecOn with
  | nil => simp
  | append_singleton ts t ih =>
    obtain ⟨hts, -, hlt⟩ := List.pairwise_append.mp hts
    obtain ⟨hnone, hsome⟩ := ih hts
    have hlt : ∀ u ∈ ts, t.hdrLen < u.hdrLen := fun u hu => hlt u hu t (List.mem_singleton_self t)
    rw [List.foldl_append, List.foldl_cons, List.foldl_nil, keepBetter]
    split_ifs with hbetter
    · refine ⟨by simp, ?_⟩
      rintro h n heq
      obtain ⟨rfl, rfl⟩ := Prod.mk.inj (Option.some.inj heq)
      refine ⟨⟨t, List.mem_append_right _ (List.mem_singleton_self t), hbetter.1, rfl, rfl⟩, ?_⟩
      intro u hu hvalid
      rcases List.mem_append.mp hu with hu | hu
      · have hle : u.payloadLen ≤ t.payloadLen := by
          rcases hch : ts.foldl keepBetter none with _ | ⟨h', n'⟩
          · exact absurd hvalid (by simp [hnone hch u hu])
          · have := ((hsome h' n' hch).2 u hu hvalid).1
            rw [hch] at hbetter
            exact this.trans hbetter.2
        have := hlt u hu
        exact ⟨hle, fun h => by omega⟩
      · rw [List.mem_singleton.mp hu]
        exact ⟨Nat.le_refl _, fun h => absurd h (Nat.lt_irrefl _)⟩
    · refine ⟨fun hch u hu => ?_, fun h n hch => ?_⟩
      · rcases List.mem_append.mp hu with hu | hu
        · exact hnone hch u hu
        · rw [List.mem_singleton.mp hu]
          rw [hch] at hbetter
          simpa using hbetter
      · obtain ⟨⟨u, hu, hrest⟩, hall⟩ := hsome h n hch
        refine ⟨⟨u, List.mem_append_left _ hu, hrest⟩, fun v hv hvalid => ?_⟩
        rcases List.mem_append.mp hv with hv | hv
        · exact hall v hv hvalid
        · rw [List.mem_singleton.mp hv] at hvalid ⊢
          rw [hch] at hbetter
          simp only [Option.map_some, Option.getD_some, hvalid, true_and, not_le] at hbetter
          exact ⟨Nat.le_of_lt hbetter, fun _ => hbetter⟩

/-- The four encodings: the number of bytes, and the largest number they can hold. -/
def encodings : List (ℕ × ℕ) := [(8, 2 ^ 62 - 1), (4, 2 ^ 30 - 1), (2, 2 ^ 14 - 1), (1, 2 ^ 6 - 1)]

theorem determineLen_eq (spaceLeft origLen baseHdrLen : ℕ) :
    determineLen spaceLeft origLen baseHdrLen =
      (encodings.map fun e => tryLen spaceLeft origLen baseHdrLen e.1 e.2).foldl keepBetter none :=
  rfl

/-- The encoding of a number is the shortest one that can hold it. -/
theorem encoding_of {n : ℕ} (hn : n < 2 ^ 62) :
    ∃ maxn, (vlintEncodeLen n, maxn) ∈ encodings ∧ n ≤ maxn ∧
      ∀ e ∈ encodings, n ≤ e.2 → vlintEncodeLen n ≤ e.1 := by
  unfold vlintEncodeLen encodings vlintMax
  split_ifs with h1 h2 h3 h4
  · exact ⟨2 ^ 6 - 1, by simp, by omega, by simp⟩
  · exact ⟨2 ^ 14 - 1, by simp, by omega, by simp; omega⟩
  · exact ⟨2 ^ 30 - 1, by simp, by omega, by simp; omega⟩
  · exact ⟨2 ^ 62 - 1, by simp, by omega, by simp; omega⟩
  · omega

section
variable {spaceLeft origLen baseHdrLen : ℕ}

theorem pairwise_tries (spaceLeft baseHdrLen : ℕ) (h : 0 < origLen) :
    (encodings.map fun e => tryLen spaceLeft origLen baseHdrLen e.1 e.2).Pairwise
      fun a b => b.hdrLen < a.hdrLen := by
  simp only [tryLen_eq _ _ h]
  simp [encodings]

/-- A chunk with data: the best payload is found, with the shortest header for it. -/
theorem determineLen_of_pos (spaceLeft baseHdrLen : ℕ) (h : 0 < origLen) (h62 : origLen < 2 ^ 62) :
    (∀ hdrLen n, determineLen spaceLeft origLen baseHdrLen = some (hdrLen, n) →
      0 < n ∧ n ≤ origLen ∧ hdrLen = baseHdrLen + vlintEncodeLen n ∧ Fits spaceLeft baseHdrLen n ∧
        ∀ m ≤ origLen, Fits spaceLeft baseHdrLen m → m ≤ n) ∧
    (determineLen spaceLeft origLen baseHdrLen = none →
      ∀ m, 0 < m → m ≤ origLen → ¬ Fits spaceLeft baseHdrLen m) := by
  obtain ⟨hnone, hsome⟩ := foldl_keepBetter (pairwise_tries spaceLeft baseHdrLen h)
  rw [← determineLen_eq] at hnone hsome
  -- a payload that fits is no more than the attempt with its own encoding
  have hattempt : ∀ m, 0 < m → m ≤ origLen → Fits spaceLeft baseHdrLen m →
      ∃ t ∈ encodings.map fun e => tryLen spaceLeft origLen baseHdrLen e.1 e.2,
        t.valid = true ∧ m ≤ t.payloadLen ∧ t.hdrLen = baseHdrLen + vlintEncodeLen m := by
    intro m hm hle hfits
    obtain ⟨maxn, hmem, hmax, -⟩ := encoding_of (n := m) (by omega)
    refine ⟨_, List.mem_map.mpr ⟨_, hmem, rfl⟩, ?_⟩
    unfold Fits at hfits
    rw [tryLen_eq _ _ h]
    simp only [decide_eq_true_eq, and_true]
    omega
  refine ⟨fun hdrLen n heq => ?_, fun heq m hm hle hfits => ?_⟩
  · obtain ⟨⟨t, ht, hvalid, rfl, rfl⟩, hall⟩ := hsome hdrLen n heq
    obtain ⟨e, he, rfl⟩ := List.mem_map.mp ht
    rw [tryLen_eq _ _ h] at hvalid hall ⊢
    simp only [decide_eq_true_eq] at hvalid hall ⊢
    obtain ⟨n, hn⟩ : ∃ n, min (min origLen e.2) (spaceLeft - (baseHdrLen + e.1)) = n := ⟨_, rfl⟩
    rw [hn] at hvalid hall ⊢
    obtain ⟨maxn, hmem, hmax, hshort⟩ := encoding_of (n := n) (by omega)
    have hle := hshort e he (by omega)
    have hfits : Fits spaceLeft baseHdrLen n := by
      unfold Fits
      omega
    -- a shorter header would have been kept instead
    have hexact : e.1 = vlintEncodeLen n := by
      obtain ⟨u, hu, huvalid, hule, huhdr⟩ := hattempt n hvalid (by omega) hfits
      have := hall u hu huvalid
      omega
    refine ⟨hvalid, by omega, by omega, hfits, fun m hm hmfits => ?_⟩
    rcases Nat.eq_zero_or_pos m with rfl | hpos
    · omega
    · obtain ⟨u, hu, huvalid, hule, -⟩ := hattempt m hpos hm hmfits
      exact hule.trans (hall u hu huvalid).1
  · obtain ⟨t, ht, hvalid, -⟩ := hattempt m hm hle hfits
    rw [hnone heq t ht] at hvalid
    cases hvalid

/-- A chunk without data needs room for its header only. -/
theorem determineLen_zero :
    determineLen spaceLeft 0 baseHdrLen =
      if baseHdrLen + 1 ≤ spaceLeft then some (baseHdrLen + 1, 0) else none := by
  have htry : ∀ lenbytes maxn, tryLen spaceLeft 0 baseHdrLen lenbytes maxn =
      ⟨baseHdrLen + lenbytes, 0, baseHdrLen + lenbytes ≤ spaceLeft⟩ := by
    intro lenbytes maxn
    unfold tryLen
    simp only [true_and, ge_iff_le, Nat.zero_min, Nat.zero_add, gt_iff_lt]
    split_ifs with h1 h2
    · simp [h1]
    · simp [h1]
    · omega
  simp only [determineLen, htry, List.foldl, keepBetter]
  simp only [decide_eq_true_eq, ge_iff_le, Nat.le_zero]
  split_ifs <;> first | omega | simp_all

/-- **The best frame**: the payload is the longest one that fits together with its length, and the
header is as long as the encoding of that length makes it. Nothing is chosen only if not even one
byte fits, or for an empty chunk the header does not. -/
theorem determineLen_spec (spaceLeft origLen baseHdrLen : ℕ) (h62 : origLen < 2 ^ 62) :
    (∀ hdrLen n, determineLen spaceLeft origLen baseHdrLen = some (hdrLen, n) →
      n ≤ origLen ∧ (n = 0 → origLen = 0) ∧ hdrLen = baseHdrLen + vlintEncodeLen n ∧
        hdrLen + n ≤ spaceLeft ∧ ∀ m ≤ origLen, Fits spaceLeft baseHdrLen m → m ≤ n) ∧
    (determineLen spaceLeft origLen baseHdrLen = none →
      ∀ m ≤ origLen, (m = 0 → origLen = 0) → ¬ Fits spaceLeft baseHdrLen m) := by
  rcases Nat.eq_zero_or_pos origLen with rfl | hpos
  · rw [determineLen_zero]
    constructor
    · intro hdrLen n heq
      split_ifs at heq with hfits
      obtain ⟨rfl, rfl⟩ := Prod.mk.inj (Option.some.inj heq)
      exact ⟨Nat.le_refl 0, fun _ => rfl, rfl, hfits, fun m hm _ => hm⟩
    · intro heq m hm _
      split_ifs at heq with hfits
      rwa [Nat.le_zero.mp hm]
  · obtain ⟨hsome, hnone⟩ := determineLen_of_pos spaceLeft baseHdrLen hpos h62
    constructor
    · intro hdrLen n heq
      obtain ⟨h1, h2, h3, h4, h5⟩ := hsome hdrLen n heq
      exact ⟨h2, fun h0 => by omega, h3, by rw [h3]; exact h4, h5⟩
    · intro heq m hm h0
      exact hnone heq m (Nat.pos_of_ne_zero fun hz => by have := h0 hz; omega) hm

end

end PapQuic.Txp.FrameLength
