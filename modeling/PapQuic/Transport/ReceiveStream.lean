import PapQuic.Lib.Run
import PapQuic.Wire.Packet
import Mathlib.Data.List.Induction
import Mathlib.Data.List.TakeWhile
import Mathlib.Data.Set.Basic
import Mathlib.Order.Interval.Set.Defs
import Mathlib.Tactic.Common

/-! # The receive stream (`quic_sf_list.c`, `quic_rstream.c`)

The frames of a stream arrive in any order and may overlap. The list keeps them ordered by where
they start and by where they end, and drops what it does not need: frames within a new one, and a
new frame that its neighbours cover.

`place_ordered` and `mem_place` are what an insertion means: the order is kept, and the bytes
covered are those of before and those of the new frame. `Inv fl data got` says that the list stands
for the offsets `got` of the stream `data` received so far, and `delivered_eq_take` that over every
run of arrivals and reads, in which the frames agree with one stream, the application is handed that
stream from its beginning, as far as it has arrived, and the end of it at its end. -/

namespace PapQuic.Transport.ReceiveStream

open Wire.Packet

/-- `STREAM_FRAME`; the range is half open. -/
structure Sframe where
  start : ℕ
  stop : ℕ
  data : Bytes
  deriving DecidableEq

/-- `SFRAME_LIST`, the frames from the head on. -/
structure SframeList where
  frames : List Sframe
  fin : Bool
  offset : ℕ
  headLocked : Bool
  deriving DecidableEq

/-- `ossl_sframe_list_init`. -/
def sframeListInit : SframeList := ⟨[], false, 0, false⟩

/-- The end of what was received, `curr_end` in the assertion of `ossl_sframe_list_insert`. -/
def currEnd (fl : SframeList) : ℕ := (fl.frames.getLast?.map Sframe.stop).getD fl.offset

/-- The assertion of `ossl_sframe_list_insert`. -/
def insertAsserted (fl : SframeList) (new : Sframe) (fin : Bool) : Bool :=
  (!fin || currEnd fl ≤ new.stop) && (!fl.fin || currEnd fl ≥ new.stop)

/-- The frames that the walk from the head passes: `prev_frame` is the last of them. -/
def before (l : List Sframe) (new : Sframe) : List Sframe := l.takeWhile (·.start < new.start)

/-- The frames that are left once those within the new one are dropped: `next_frame` is the
first. -/
def after (l : List Sframe) (new : Sframe) : List Sframe :=
  (l.dropWhile (·.start < new.start)).dropWhile (·.stop ≤ new.stop)

/-- `ossl_sframe_list_insert`: `alloc` says whether the allocation of the frame succeeds. -/
def sframeListInsert (alloc : Bool) (fl : SframeList) (new : Sframe) (fin : Bool) :
    SframeList × Bool :=
  if fl.offset ≥ new.stop then ({ fl with fin := fin || fl.fin }, true)
  else match fl.frames.getLast? with
    | none =>
      if alloc then ({ fl with frames := [new], fin := fin || fl.fin }, true) else (fl, false)
    | some tail =>
      -- insertion at the end
      if tail.start < new.start then
        if tail.stop ≥ new.stop then ({ fl with fin := fin || fl.fin }, true)
        else if alloc then ({ fl with frames := fl.frames ++ [new], fin := fin || fl.fin }, true)
        else (fl, false)
      else if fl.frames.dropWhile (·.start < new.start) = [] then (fl, false)
      else if (before fl.frames new).getLast?.any (·.stop ≥ new.stop) then
        ({ fl with fin := fin || fl.fin }, true)
      else if !alloc then (fl, false)
      -- no gap between the neighbours
      else if (after fl.frames new).head?.any
          (fun n => (before fl.frames new).getLast?.any (n.start ≤ ·.stop)) then
        ({ fl with
          frames := before fl.frames new ++ after fl.frames new, fin := fin || fl.fin }, true)
      else
        ({ fl with
            frames := before fl.frames new ++ new :: after fl.frames new, fin := fin || fl.fin },
          true)

/-- `ossl_sframe_list_drop_frames`. -/
def sframeListDropFrames (fl : SframeList) (limit : ℕ) : SframeList × Bool :=
  if limit < fl.offset ∨ fl.frames.getLast?.any (limit > ·.stop) ∨
      (fl.frames = [] ∧ limit ≠ fl.offset) then (fl, false)
  else
    ({ fl with
        offset := limit, frames := fl.frames.dropWhile (·.stop ≤ limit), headLocked := false },
      true)

/-- `ossl_quic_rstream_queue_data`, for data that is in the packet. -/
def queueData (alloc : Bool) (fl : SframeList) (offset : ℕ) (data : Bytes) (fin : Bool) :
    SframeList × Bool :=
  if data = [] ∧ fin = false then (fl, false)
  else sframeListInsert alloc fl ⟨offset, offset + data.length, data⟩ fin

/-- What the loop of `read_internal` leaves: the bytes copied, `offset` and `fin_`. -/
structure ReadOut where
  bytes : Bytes
  offset : ℕ
  fin : Bool
  deriving DecidableEq

/-- The loop of `read_internal` with `ossl_sframe_list_peek`: `start` is where the iterator stands
and the list has the frames after it. -/
def readLoop (fin : Bool) : ℕ → List Sframe → ℕ → ℕ → ReadOut
  | _, [], _, offset => ⟨[], offset, fin⟩
  | start, sf :: rest, size, offset =>
    if sf.start > start ∨ ¬ start < sf.stop then ⟨[], offset, false⟩
    else if sf.stop - start > size then
      ⟨(sf.data.drop (start - sf.start)).take size, start + size, false⟩
    else if size - (sf.stop - start) = 0 then
      ⟨sf.data.drop (start - sf.start), sf.stop, rest.isEmpty && fin⟩
    else
      let out := readLoop fin sf.stop rest (size - (sf.stop - start)) sf.stop
      ⟨sf.data.drop (start - sf.start) ++ out.bytes, out.offset, out.fin⟩

/-- `read_internal` with `drop`, as `ossl_quic_rstream_read` calls it: the bytes and `fin`, `none`
where it fails. -/
def rstreamRead (fl : SframeList) (size : ℕ) : SframeList × Option (Bytes × Bool) :=
  let out := readLoop fl.fin fl.offset fl.frames size 0
  if out.offset ≠ 0 then
    let dropped := sframeListDropFrames fl out.offset
    if dropped.2 then (dropped.1, some (out.bytes, out.fin)) else (dropped.1, none)
  else (fl, some (out.bytes, out.fin))

/-! ### Ordered lists of frames -/

/-- The order of the list: starts may repeat, ends do not. -/
def Ordered (l : List Sframe) : Prop := l.Pairwise fun a b => a.start ≤ b.start ∧ a.stop < b.stop

/-- The offsets that the frames of a list have. -/
def covered (l : List Sframe) : Set ℕ := {n | ∃ f ∈ l, f.start ≤ n ∧ n < f.stop}

variable {f : Sframe}

theorem mem_covered_cons {l : List Sframe} {n : ℕ} :
    n ∈ covered (f :: l) ↔ (f.start ≤ n ∧ n < f.stop) ∨ n ∈ covered l := by
  simp only [covered, Set.mem_ofPred_eq, List.exists_mem_cons_iff]

/-- Where a test that fails once fails for all that follow, what `dropWhile` leaves fails it. -/
theorem not_of_mem_dropWhile {p : Sframe → Bool} {l : List Sframe}
    (h : l.Pairwise fun a b => p b = true → p a = true) (hf : f ∈ l.dropWhile p) :
    p f = false := by
  induction l with
  | nil => simp at hf
  | cons a l ih =>
    rw [List.pairwise_cons] at h
    rw [List.dropWhile_cons] at hf
    split_ifs at hf with ha
    · exact ih h.2 hf
    · rcases List.mem_cons.mp hf with rfl | hf
      · simpa using ha
      · by_contra hne
        exact ha (h.1 f hf (by simpa using hne))

section
variable {l : List Sframe} {new : Sframe}

theorem Ordered.start_le_of_mem (h : Ordered l) {s : ℕ} (hf : f ∈ l.dropWhile (·.start < s)) :
    s ≤ f.start := by
  have := not_of_mem_dropWhile (h.imp fun hab => by simp only [decide_eq_true_eq]; omega) hf
  simpa using this

theorem Ordered.lt_stop_of_mem (h : Ordered l) {t : ℕ} (hf : f ∈ l.dropWhile (·.stop ≤ t)) :
    t < f.stop := by
  have := not_of_mem_dropWhile (h.imp fun hab => by simp only [decide_eq_true_eq]; omega) hf
  simpa using this

theorem Ordered.stop_le_last (h : Ordered l) {f last : Sframe} (hf : f ∈ l)
    (hlast : l.getLast? = some last) : f.stop ≤ last.stop := by
  obtain ⟨init, rfl⟩ := List.getLast?_eq_some_iff.mp hlast
  rcases List.mem_append.mp hf with hf | hf
  · exact ((List.pairwise_append.mp h).2.2 f hf last (List.mem_singleton_self _)).2.le
  · rw [List.mem_singleton.mp hf]

/-- The frame before it reaches the end of the new one, or the frame after it. -/
def redundant (l : List Sframe) (new : Sframe) : Bool :=
  (before l new).getLast?.any fun p =>
    new.stop ≤ p.stop || (after l new).head?.any fun q => q.start ≤ p.stop

/-- What an insertion makes of the frames. -/
def place (l : List Sframe) (new : Sframe) : List Sframe :=
  if redundant l new then before l new ++ after l new else before l new ++ new :: after l new

theorem before_append_sublist (l : List Sframe) (new : Sframe) :
    (before l new ++ after l new).Sublist l := by
  conv_rhs => rw [← List.takeWhile_append_dropWhile (p := (·.start < new.start)) (l := l)]
  exact (List.dropWhile_sublist _).append_left _

theorem start_lt_of_mem_before (hf : f ∈ before l new) : f.start < new.start := by
  simpa using List.mem_takeWhile_imp hf

theorem Ordered.after_spec (h : Ordered l) (hf : f ∈ after l new) :
    new.start ≤ f.start ∧ new.stop < f.stop :=
  ⟨h.start_le_of_mem ((List.dropWhile_sublist _).mem hf),
    Ordered.lt_stop_of_mem (List.Pairwise.sublist (List.dropWhile_sublist _) h) hf⟩

/-- A frame that is neither before nor after lies within the new one. -/
theorem Ordered.mem_cases (h : Ordered l) (new : Sframe) (hf : f ∈ l) :
    f ∈ before l new ∨ f ∈ after l new ∨ (new.start ≤ f.start ∧ f.stop ≤ new.stop) := by
  rw [← List.takeWhile_append_dropWhile (p := (·.start < new.start)) (l := l)] at hf
  rcases List.mem_append.mp hf with hf | hf
  · exact Or.inl hf
  · have hstart := h.start_le_of_mem hf
    rw [← List.takeWhile_append_dropWhile (p := (·.stop ≤ new.stop))
      (l := l.dropWhile (·.start < new.start))] at hf
    rcases List.mem_append.mp hf with hf | hf
    · exact Or.inr (Or.inr ⟨hstart, by simpa using List.mem_takeWhile_imp hf⟩)
    · exact Or.inr (Or.inl hf)

theorem Ordered.place_ordered (h : Ordered l) (new : Sframe) : Ordered (place l new) := by
  have hkept : Ordered (before l new ++ after l new) := h.sublist (before_append_sublist l new)
  unfold place
  split_ifs with hred
  · exact hkept
  · obtain ⟨hbefore, hafter, hcross⟩ := List.pairwise_append.mp hkept
    refine List.pairwise_append.mpr ⟨hbefore, List.pairwise_cons.mpr ⟨fun q hq => ?_, hafter⟩, ?_⟩
    · exact h.after_spec hq
    · intro p hp q hq
      rcases List.mem_cons.mp hq with rfl | hq
      · refine ⟨(start_lt_of_mem_before hp).le, ?_⟩
        rcases hlast : (before l q).getLast? with _ | last
        · rw [List.getLast?_eq_none_iff.mp hlast] at hp
          cases hp
        · have hle := Ordered.stop_le_last hbefore hp hlast
          by_contra hlt
          exact hred (by simp only [redundant, hlast, Option.any_some]; simp; omega)
      · exact hcross p hp q hq

theorem mem_place (hf : f ∈ place l new) : f ∈ l ∨ f = new := by
  have hsub := (before_append_sublist l new).subset
  unfold place at hf
  split_ifs at hf
  · exact Or.inl (hsub hf)
  · rcases List.mem_append.mp hf with hf | hf
    · exact Or.inl (hsub (List.mem_append_left _ hf))
    · rcases List.mem_cons.mp hf with rfl | hf
      · exact Or.inr rfl
      · exact Or.inl (hsub (List.mem_append_right _ hf))

theorem mem_place_of_mem (hf : f ∈ before l new ∨ f ∈ after l new) : f ∈ place l new := by
  unfold place
  split_ifs
  · exact List.mem_append.mpr hf
  · exact List.mem_append.mpr (hf.imp_right (List.mem_cons_of_mem _))

/-- The new frame is there, or its neighbours have its bytes. -/
theorem new_cases (l : List Sframe) (new : Sframe) :
    new ∈ place l new ∨ ∃ p ∈ before l new, new.stop ≤ p.stop ∨
      ∃ q ∈ after l new, q.start ≤ p.stop := by
  by_cases hred : redundant l new
  · obtain ⟨p, hp, hreach⟩ := (Option.any_eq_true _ _).mp hred
    simp only [Bool.or_eq_true, decide_eq_true_eq, Option.any_eq_true] at hreach
    refine Or.inr ⟨p, List.mem_of_getLast? hp, hreach.imp_right ?_⟩
    rintro ⟨q, hq, hle⟩
    exact ⟨q, List.mem_of_head? hq, hle⟩
  · exact Or.inl (by simp [place, hred])

/-- **The bytes of an insertion**: those of before and those of the new frame. -/
theorem Ordered.covered_place (h : Ordered l) (new : Sframe) (n : ℕ) :
    n ∈ covered (place l new) ↔ n ∈ covered l ∨ (new.start ≤ n ∧ n < new.stop) := by
  have hnew : new.start ≤ n ∧ n < new.stop → n ∈ covered (place l new) := by
    rintro ⟨h1, h2⟩
    rcases new_cases l new with hin | ⟨p, hp, hreach⟩
    · exact ⟨new, hin, h1, h2⟩
    · have hstart := start_lt_of_mem_before hp
      by_cases hlt : n < p.stop
      · exact ⟨p, mem_place_of_mem (Or.inl hp), by omega, hlt⟩
      · rcases hreach with hle | ⟨q, hq, hle⟩
        · omega
        · have := h.after_spec hq
          exact ⟨q, mem_place_of_mem (Or.inr hq), by omega, by omega⟩
  constructor
  · rintro ⟨f, hf, h1, h2⟩
    rcases mem_place hf with hf | rfl
    · exact Or.inl ⟨f, hf, h1, h2⟩
    · exact Or.inr ⟨h1, h2⟩
  · rintro (⟨f, hf, h1, h2⟩ | hin)
    · rcases h.mem_cases new hf with hf | hf | ⟨h3, h4⟩
      · exact ⟨f, mem_place_of_mem (Or.inl hf), h1, h2⟩
      · exact ⟨f, mem_place_of_mem (Or.inr hf), h1, h2⟩
      · exact hnew ⟨by omega, by omega⟩
    · exact hnew hin

/-- The list never ends earlier than before, nor than the new frame. -/
theorem Ordered.reaches (h : Ordered l) (new : Sframe) {t : ℕ}
    (ht : t = new.stop ∨ ∃ f ∈ l, f.stop = t) : ∃ g ∈ place l new, t ≤ g.stop := by
  have hnew : ∃ g ∈ place l new, new.stop ≤ g.stop := by
    rcases new_cases l new with hin | ⟨p, hp, hle | ⟨q, hq, -⟩⟩
    · exact ⟨new, hin, le_rfl⟩
    · exact ⟨p, mem_place_of_mem (Or.inl hp), hle⟩
    · exact ⟨q, mem_place_of_mem (Or.inr hq), (h.after_spec hq).2.le⟩
  rcases ht with rfl | ⟨f, hf, rfl⟩
  · exact hnew
  · rcases h.mem_cases new hf with hf | hf | ⟨-, hle⟩
    · exact ⟨f, mem_place_of_mem (Or.inl hf), le_rfl⟩
    · exact ⟨f, mem_place_of_mem (Or.inr hf), le_rfl⟩
    · obtain ⟨g, hg, hgle⟩ := hnew
      exact ⟨g, hg, hle.trans hgle⟩

end

/-! ### The operations -/

theorem currEnd_of_nil {fl : SframeList} (h : fl.frames = []) : currEnd fl = fl.offset := by
  rw [currEnd, h]
  rfl

theorem currEnd_of_last {fl : SframeList} {last : Sframe} (h : fl.frames.getLast? = some last) :
    currEnd fl = last.stop := by
  rw [currEnd, h]
  rfl

theorem currEnd_cases (fl : SframeList) : (fl.frames = [] ∧ currEnd fl = fl.offset) ∨
    ∃ last ∈ fl.frames, fl.frames.getLast? = some last ∧ currEnd fl = last.stop := by
  rcases hlast : fl.frames.getLast? with _ | last
  · have hnil := List.getLast?_eq_none_iff.mp hlast
    exact .inl ⟨hnil, currEnd_of_nil hnil⟩
  · exact .inr ⟨last, List.mem_of_getLast? hlast, rfl, currEnd_of_last hlast⟩

section
variable {fl : SframeList} {new : Sframe}

/-- An insertion at the end is one that places the frame after all others. -/
theorem place_last (h : Ordered fl.frames) {tail : Sframe} (htail : fl.frames.getLast? = some tail)
    (hlt : tail.start < new.start) :
    place fl.frames new = if new.stop ≤ tail.stop then fl.frames else fl.frames ++ [new] := by
  have hall : ∀ f ∈ fl.frames, decide (f.start < new.start) = true := by
    intro f hf
    obtain ⟨init, hinit⟩ := List.getLast?_eq_some_iff.mp htail
    rw [hinit] at hf h
    have hle : f.start ≤ tail.start := by
      rcases List.mem_append.mp hf with hf | hf
      · exact ((List.pairwise_append.mp h).2.2 f hf tail (List.mem_singleton_self _)).1
      · rw [List.mem_singleton.mp hf]
    exact decide_eq_true (by omega)
  have hbefore : before fl.frames new = fl.frames := List.takeWhile_eq_self_iff.mpr hall
  have hafter : after fl.frames new = [] := by
    rw [after, List.dropWhile_eq_nil_iff.mpr hall, List.dropWhile_nil]
  simp only [place, redundant, hbefore, hafter, htail, Option.any_some, List.head?_nil,
    Option.any_none, Bool.or_false, decide_eq_true_eq, List.append_nil]

/-- An insertion that is not at the end, with room for the frame. -/
theorem place_of_le (h : Ordered fl.frames) :
    place fl.frames new =
      if (before fl.frames new).getLast?.any (·.stop ≥ new.stop) then fl.frames
      else if (after fl.frames new).head?.any
          (fun n => (before fl.frames new).getLast?.any (n.start ≤ ·.stop)) then
        before fl.frames new ++ after fl.frames new
      else before fl.frames new ++ new :: after fl.frames new := by
  rcases hlast : (before fl.frames new).getLast? with _ | p
  · simp [place, redundant, hlast]
  · by_cases hreach : new.stop ≤ p.stop
    · have hafter : after fl.frames new = fl.frames.dropWhile (·.start < new.start) := by
        refine List.dropWhile_eq_self_iff.mpr fun hpos => ?_
        have hp : p ∈ before fl.frames new := List.mem_of_getLast? hlast
        rw [Ordered, ← List.takeWhile_append_dropWhile (p := fun f => f.start < new.start)
          (l := fl.frames)] at h
        have hcross := (List.pairwise_append.mp h).2.2 p hp _ (List.getElem_mem hpos)
        simp only [decide_eq_true_eq]
        omega
      have hall : before fl.frames new ++ after fl.frames new = fl.frames := by
        rw [hafter]
        exact List.takeWhile_append_dropWhile
      simp [place, redundant, hlast, hreach, hall]
    · simp only [place, redundant, hlast, hreach, Option.any_some, decide_false,
        Bool.false_or, ge_iff_le, Bool.false_eq_true, if_false]

/-- **An insertion** places the frame, or fails for want of memory. -/
theorem insert_spec (alloc fin : Bool) (h : Ordered fl.frames) (hoff : fl.offset < new.stop) :
    sframeListInsert alloc fl new fin =
        ({ fl with frames := place fl.frames new, fin := fin || fl.fin }, true) ∨
      (sframeListInsert alloc fl new fin = (fl, false) ∧ alloc = false) := by
  unfold sframeListInsert
  rw [if_neg (by omega)]
  rcases htail : fl.frames.getLast? with _ | tail
  · have hnil := List.getLast?_eq_none_iff.mp htail
    cases alloc with
    | false => exact Or.inr ⟨rfl, rfl⟩
    | true => exact Or.inl (by simp [hnil, place, redundant, before, after])
  · simp only
    split_ifs with hlt hle halloc hnil hreach hno hgap
    · rw [place_last h htail hlt, if_pos hle]
      exact Or.inl rfl
    · rw [place_last h htail hlt, if_neg hle]
      exact Or.inl rfl
    · exact Or.inr ⟨rfl, by simpa using halloc⟩
    · -- the tail is not passed by the walk
      exact absurd (List.dropWhile_eq_nil_iff.mp hnil tail (List.mem_of_getLast? htail))
        (by simpa using hlt)
    · rw [place_of_le h, if_pos hreach]
      exact Or.inl rfl
    · exact Or.inr ⟨rfl, by simpa using hno⟩
    · rw [place_of_le h, if_neg hreach]
      exact Or.inl (by rw [if_pos hgap])
    · rw [place_of_le h, if_neg hreach]
      exact Or.inl (by rw [if_neg hgap])

end

/-- The frame has the bytes of the stream at its offsets. -/
structure Piece (data : Bytes) (f : Sframe) : Prop where
  le : f.start ≤ f.stop
  within : f.stop ≤ data.length
  bytes : f.data = (data.drop f.start).take (f.stop - f.start)

/-- The bytes of a frame from an offset within it on. -/
theorem Piece.drop_eq {data : Bytes} (h : Piece data f) {start : ℕ} (hs : f.start ≤ start) :
    f.data.drop (start - f.start) = (data.drop start).take (f.stop - start) := by
  have hstart : f.start + (start - f.start) = start := by omega
  have hlen : f.stop - f.start - (start - f.start) = f.stop - start := by omega
  rw [h.bytes, List.drop_take, List.drop_drop, hstart, hlen]

/-- What the loop of a read promises, from `start` on with room for `size` bytes. -/
structure ReadSpec (data : Bytes) (fin : Bool) (start : ℕ) (l : List Sframe) (size offset : ℕ)
    (out : ReadOut) : Prop where
  bytes : out.bytes = (data.drop start).take out.bytes.length
  le : out.bytes.length ≤ size
  covered : ∀ n, start ≤ n → n < start + out.bytes.length → n ∈ covered l
  next : out.bytes.length < size → start + out.bytes.length ∉ ReceiveStream.covered l
  offset_eq : out.offset = start + out.bytes.length ∨ (out.offset = offset ∧ out.bytes = [])
  fin_iff : out.fin = true ↔ fin = true ∧ ∀ f ∈ l, f.stop ≤ start + out.bytes.length

/-- The loop reads up to the first gap, or as far as there is room. -/
theorem readLoop_spec {data : Bytes} (fin : Bool) {l : List Sframe} (h : Ordered l)
    (hpiece : ∀ f ∈ l, Piece data f) (start size offset : ℕ) (hbeyond : ∀ f ∈ l, start < f.stop) :
    ReadSpec data fin start l size offset (readLoop fin start l size offset) := by
  induction l generalizing start size offset with
  | nil =>
    exact ⟨by simp [readLoop], by simp [readLoop], fun n h1 h2 => by simp [readLoop] at h2; omega,
      by simp [readLoop, covered], Or.inr ⟨rfl, rfl⟩, by simp [readLoop]⟩
  | cons sf rest ih =>
    obtain ⟨hfirst, hrest⟩ := List.pairwise_cons.mp h
    have hlt := hbeyond sf List.mem_cons_self
    have hp := hpiece sf List.mem_cons_self
    have hwithin := hp.within
    have hnot : ¬ (sf.start ≤ start ∧ start < sf.stop) → start ∉ covered (sf :: rest) := by
      rintro hgap ⟨f, hf, h1, h2⟩
      rcases List.mem_cons.mp hf with rfl | hf
      · exact hgap ⟨h1, h2⟩
      · have := hfirst f hf
        exact hgap ⟨by omega, hlt⟩
    rw [readLoop]
    split_ifs with hgap hroom hfull
    · -- a gap before the first frame
      refine ⟨by simp, by simp, fun n h1 h2 => by simp at h2; omega, fun _ => hnot (by omega),
        Or.inr ⟨rfl, rfl⟩, iff_of_false (by simp) fun hall => ?_⟩
      have := hall.2 sf List.mem_cons_self
      simp at this
      omega
    · -- the first frame has more than there is room for
      have hbytes : (sf.data.drop (start - sf.start)).take size = (data.drop start).take size := by
        rw [hp.drop_eq (by omega), List.take_take, Nat.min_eq_left (by omega)]
      have hlen : ((data.drop start).take size).length = size := by
        rw [List.length_take, List.length_drop]
        omega
      rw [hbytes]
      refine ⟨by rw [hlen], by rw [hlen], fun n h1 h2 => ?_,
        fun hlt => absurd hlen (by simp only at hlt; omega),
        Or.inl (by rw [hlen]), iff_of_false (by simp) fun hall => ?_⟩
      · rw [hlen] at h2
        exact ⟨sf, List.mem_cons_self, by omega, by omega⟩
      · have := hall.2 sf List.mem_cons_self
        rw [hlen] at this
        omega
    all_goals
      have hbytes : sf.data.drop (start - sf.start) = (data.drop start).take (sf.stop - start) :=
        hp.drop_eq (by omega)
      have hlen : ((data.drop start).take (sf.stop - start)).length = sf.stop - start := by
        rw [List.length_take, List.length_drop]
        omega
      rw [hbytes]
    · -- the first frame fills the room
      refine ⟨by rw [hlen], by simp only [hlen]; omega, fun n h1 h2 => ?_, fun hlt => ?_,
        Or.inl (by simp only [hlen]; omega), ?_⟩
      · simp only [hlen] at h2
        exact ⟨sf, List.mem_cons_self, by omega, by omega⟩
      · simp only [hlen] at hlt
        omega
      · simp only [hlen, Bool.and_eq_true, List.isEmpty_iff, List.forall_mem_cons]
        constructor
        · rintro ⟨rfl, hfin⟩
          exact ⟨hfin, by omega, by simp⟩
        · rintro ⟨hfin, -, hall⟩
          refine ⟨List.eq_nil_iff_forall_not_mem.mpr fun f hf => ?_, hfin⟩
          have := hall f hf
          have := (hfirst f hf).2
          omega
    · -- on with the frames that follow
      have hspec := ih hrest (fun f hf => hpiece f (List.mem_cons_of_mem _ hf)) sf.stop
        (size - (sf.stop - start)) sf.stop (fun f hf => (hfirst f hf).2)
      generalize readLoop fin sf.stop rest (size - (sf.stop - start)) sf.stop = out at hspec ⊢
      have hk := hspec.le
      have hsum : ((data.drop start).take (sf.stop - start) ++ out.bytes).length =
          sf.stop - start + out.bytes.length := by
        rw [List.length_append, hlen]
      have hend : start + (sf.stop - start + out.bytes.length) = sf.stop + out.bytes.length := by
        omega
      refine ⟨?_, by simp only [hsum]; omega, fun n h1 h2 => ?_, fun hlt => ?_, ?_, ?_⟩
      · simp only [hsum]
        rw [List.take_add, List.drop_drop, show start + (sf.stop - start) = sf.stop by omega]
        exact congrArg _ hspec.bytes
      · simp only [hsum, hend] at h2
        by_cases hn : n < sf.stop
        · exact ⟨sf, List.mem_cons_self, by omega, hn⟩
        · exact mem_covered_cons.mpr (Or.inr (hspec.covered n (by omega) h2))
      · simp only [hsum] at hlt ⊢
        rw [hend, mem_covered_cons]
        rintro (hin | hin)
        · omega
        · exact hspec.next (by omega) hin
      · refine Or.inl ?_
        simp only [hsum, hend]
        rcases hspec.offset_eq with heq | ⟨heq, hnil⟩
        · exact heq
        · rw [heq, hnil]
          rfl
      · simp only [hsum, hend, hspec.fin_iff, List.forall_mem_cons]
        exact and_congr_right fun _ => (and_iff_right (by omega)).symm

/-- The list stands for the offsets `got` of the stream `data`. -/
structure Inv (fl : SframeList) (data : Bytes) (got : Set ℕ) : Prop where
  ordered : Ordered fl.frames
  piece : ∀ f ∈ fl.frames, Piece data f
  beyond : ∀ f ∈ fl.frames, fl.offset < f.stop
  offset_le : fl.offset ≤ data.length
  covered_iff : ∀ n, fl.offset ≤ n → (n ∈ covered fl.frames ↔ n ∈ got)
  read : ∀ n < fl.offset, n ∈ got
  fin : fl.fin = true → currEnd fl = data.length

theorem inv_init (data : Bytes) : Inv sframeListInit data ∅ where
  ordered := List.Pairwise.nil
  piece := by simp [sframeListInit]
  beyond := by simp [sframeListInit]
  offset_le := Nat.zero_le _
  covered_iff := by simp [sframeListInit, covered]
  read := by simp [sframeListInit]
  fin := by simp [sframeListInit]

section
variable {fl : SframeList} {data : Bytes} {got : Set ℕ}

theorem Inv.currEnd_le (h : Inv fl data got) : currEnd fl ≤ data.length := by
  rcases currEnd_cases fl with ⟨-, hcurr⟩ | ⟨last, hm, -, hcurr⟩ <;> rw [hcurr]
  · exact h.offset_le
  · exact (h.piece last hm).within

/-- A list that reaches the end of the stream. -/
theorem Inv.currEnd_eq_of_mem (h : Inv fl data got) (hf : f ∈ fl.frames)
    (hle : data.length ≤ f.stop) : currEnd fl = data.length := by
  refine h.currEnd_le.antisymm ?_
  rcases currEnd_cases fl with ⟨hnil, -⟩ | ⟨last, -, hlast, hcurr⟩
  · rw [hnil] at hf
    cases hf
  · rw [hcurr]
    exact hle.trans (h.ordered.stop_le_last hf hlast)

/-- **An arrival** adds the offsets of its frame. -/
theorem Inv.insert (h : Inv fl data got) (alloc fin : Bool) {new : Sframe} (hnew : Piece data new)
    (hfin : fin = true → new.stop = data.length) :
    insertAsserted fl new fin = true ∧
      ((sframeListInsert alloc fl new fin = (fl, false) ∧ alloc = false) ∨
        ∃ fl', sframeListInsert alloc fl new fin = (fl', true) ∧ fl'.offset = fl.offset ∧
          (fl'.fin = true ↔ fin = true ∨ fl.fin = true) ∧
          Inv fl' data (got ∪ Set.Ico new.start new.stop)) := by
  have hend := h.currEnd_le
  have hwithin := hnew.within
  refine ⟨?_, ?_⟩
  · simp only [insertAsserted, Bool.and_eq_true, Bool.or_eq_true, Bool.not_eq_true',
      decide_eq_true_eq]
    constructor
    · cases fin with
      | false => exact Or.inl rfl
      | true => exact Or.inr (by rw [hfin rfl]; exact hend)
    · rcases hf : fl.fin with _ | _
      · exact Or.inl rfl
      · exact Or.inr (by rw [h.fin hf]; exact hwithin)
  · rcases Nat.lt_or_ge fl.offset new.stop with hoff | hoff
    · rcases insert_spec alloc fin h.ordered hoff with heq | hfail
      · refine Or.inr ⟨_, heq, rfl, by simp, ?_⟩
        have hbase : Inv { fl with frames := place fl.frames new, fin := false } data
            (got ∪ Set.Ico new.start new.stop) :=
          { ordered := h.ordered.place_ordered new
            piece := fun f hf => (mem_place hf).elim (h.piece f) fun heq => heq ▸ hnew
            beyond := fun f hf => (mem_place hf).elim (h.beyond f) fun heq => heq ▸ hoff
            offset_le := h.offset_le
            covered_iff := fun n hn => by
              simp only [h.ordered.covered_place new n, Set.mem_union, Set.mem_Ico,
                h.covered_iff n hn]
            read := fun n hn => Or.inl (h.read n hn)
            fin := by simp }
        refine { hbase with fin := fun hf => ?_ }
        have hreach : ∃ g ∈ place fl.frames new, data.length ≤ g.stop := by
          rcases (Bool.or_eq_true _ _).mp hf with hf | hf
          · exact h.ordered.reaches new (Or.inl (hfin hf).symm)
          · have hend := h.fin hf
            rcases currEnd_cases fl with ⟨-, hcurr⟩ | ⟨last, hm, -, hcurr⟩ <;> rw [hcurr] at hend
            · omega
            · exact h.ordered.reaches new (Or.inr ⟨last, hm, hend⟩)
        obtain ⟨g, hg, hle⟩ := hreach
        exact hbase.currEnd_eq_of_mem hg hle
      · exact Or.inl hfail
    · refine Or.inr ⟨{ fl with fin := fin || fl.fin }, by rw [sframeListInsert, if_pos hoff], rfl,
        by simp, ?_⟩
      refine { h with
        covered_iff := fun n hn => ?_, read := fun n hn => Or.inl (h.read n hn), fin := ?_ }
      · rw [h.covered_iff n hn, Set.mem_union, Set.mem_Ico]
        exact ⟨Or.inl, fun hin => hin.elim id fun hin => by simp only at hn; omega⟩
      · intro hf
        rcases (Bool.or_eq_true _ _).mp hf with hf | hf
        · -- everything was read already
          have := hfin hf
          have hle := h.offset_le
          refine (Inv.currEnd_le h).antisymm ?_
          show data.length ≤ currEnd fl
          rcases currEnd_cases fl with ⟨-, hcurr⟩ | ⟨last, hm, -, hcurr⟩
          · omega
          · have := h.beyond last hm
            omega
        · exact h.fin hf

/-- Frames are dropped up to an offset that was received. -/
theorem Inv.dropFrames (h : Inv fl data got) {limit : ℕ} (hle : fl.offset ≤ limit)
    (hgot : ∀ n < limit, n ∈ got) :
    ∃ fl', sframeListDropFrames fl limit = (fl', true) ∧ Inv fl' data got ∧ fl'.offset = limit ∧
      fl'.fin = fl.fin := by
  -- the last byte before the limit is in a frame
  have hlimit : limit = fl.offset ∨ ∃ f ∈ fl.frames, limit ≤ f.stop := by
    rcases Nat.eq_or_lt_of_le hle with heq | hlt
    · exact Or.inl heq.symm
    · obtain ⟨f, hf, -, hstop⟩ := (h.covered_iff (limit - 1) (by omega)).mpr (hgot _ (by omega))
      exact Or.inr ⟨f, hf, by omega⟩
  refine ⟨{ fl with
    offset := limit, frames := fl.frames.dropWhile (·.stop ≤ limit), headLocked := false }, ?_,
      ?_, rfl, rfl⟩
  · rw [sframeListDropFrames, if_neg]
    rintro (hlt | hlast | ⟨hnil, hne⟩)
    · omega
    · obtain ⟨last, hl, hgt⟩ := (Option.any_eq_true _ _).mp hlast
      have hgt : last.stop < limit := by simpa using hgt
      have := h.beyond last (List.mem_of_getLast? hl)
      rcases hlimit with heq | ⟨f, hf, hstop⟩
      · omega
      · have := h.ordered.stop_le_last hf hl
        omega
    · rcases hlimit with heq | ⟨f, hf, -⟩
      · exact hne heq
      · rw [hnil] at hf
        cases hf
  · have hsub : (fl.frames.dropWhile (·.stop ≤ limit)).Sublist fl.frames := List.dropWhile_sublist _
    have hlen : limit ≤ data.length := by
      rcases hlimit with heq | ⟨f, hf, hstop⟩
      · exact heq ▸ h.offset_le
      · exact hstop.trans (h.piece f hf).within
    refine ⟨h.ordered.sublist hsub, fun f hf => h.piece f (hsub.subset hf), fun f hf =>
      h.ordered.lt_stop_of_mem hf, hlen, fun n hn => ?_, hgot, fun hfin => ?_⟩
    · simp only at hn
      rw [← h.covered_iff n (hle.trans hn)]
      refine ⟨fun ⟨f, hf, hin⟩ => ⟨f, hsub.subset hf, hin⟩, fun ⟨f, hf, h1, h2⟩ => ?_⟩
      rw [← List.takeWhile_append_dropWhile (p := (·.stop ≤ limit)) (l := fl.frames)] at hf
      rcases List.mem_append.mp hf with hf | hf
      · have : f.stop ≤ limit := by simpa using List.mem_takeWhile_imp hf
        omega
      · exact ⟨f, hf, h1, h2⟩
    · have hend := h.fin hfin
      rcases currEnd_cases fl with ⟨hnil, hcurr⟩ | ⟨last, -, hlast, hcurr⟩ <;> rw [hcurr] at hend
      · rw [currEnd_of_nil (by simp [hnil])]
        simp only
        omega
      · obtain ⟨init, hinit⟩ := List.getLast?_eq_some_iff.mp hlast
        by_cases hkeep : last.stop ≤ limit
        · -- nothing is left
          have hall : ∀ f ∈ fl.frames, decide (f.stop ≤ limit) = true := fun f hf =>
            decide_eq_true ((h.ordered.stop_le_last hf hlast).trans hkeep)
          rw [currEnd_of_nil (List.dropWhile_eq_nil_iff.mpr hall)]
          simp only
          omega
        · have hstill : (fl.frames.dropWhile (·.stop ≤ limit)).getLast? = some last := by
            rw [hinit, List.dropWhile_append]
            split_ifs
            · simp [hkeep]
            · rw [List.getLast?_append]
              simp
          exact (currEnd_of_last hstill).trans hend

/-- **A read** hands over the stream from where the last read ended, up to the first gap or as far
as there is room, and says that it is at the end exactly when it is. -/
theorem Inv.rstreamRead (h : Inv fl data got) (size : ℕ) :
    ∃ fl' bytes fin, rstreamRead fl size = (fl', some (bytes, fin)) ∧ Inv fl' data got ∧
      fl'.offset = fl.offset + bytes.length ∧ fl'.fin = fl.fin ∧
      bytes = (data.drop fl.offset).take bytes.length ∧ bytes.length ≤ size ∧
      (bytes.length < size → fl'.offset ∉ got) ∧
      (fin = true ↔ fl.fin = true ∧ fl'.offset = data.length) := by
  have hspec := readLoop_spec fl.fin h.ordered h.piece fl.offset size 0 h.beyond
  unfold ReceiveStream.rstreamRead
  generalize readLoop fl.fin fl.offset fl.frames size 0 = out at hspec ⊢
  have hgot : ∀ n < fl.offset + out.bytes.length, n ∈ got := fun n hn => by
    rcases Nat.lt_or_ge n fl.offset with hlt | hge
    · exact h.read n hlt
    · exact (h.covered_iff n hge).mp (hspec.covered n hge hn)
  obtain ⟨fl', hdrop, hinv, hoff, hfin⟩ := h.dropFrames (Nat.le_add_right _ _) hgot
  have hnext : out.bytes.length < size → fl.offset + out.bytes.length ∉ got := fun hlt hin =>
    hspec.next hlt ((h.covered_iff _ (Nat.le_add_right _ _)).mpr hin)
  have hend : out.fin = true ↔ fl.fin = true ∧ fl.offset + out.bytes.length = data.length := by
    rw [hspec.fin_iff]
    refine and_congr_right fun hf => ?_
    have hend := h.fin hf
    have hle := hinv.offset_le
    constructor
    · intro hall
      rcases currEnd_cases fl with ⟨-, hcurr⟩ | ⟨last, hm, -, hcurr⟩
      · omega
      · have := hall last hm
        omega
    · intro heq f hf
      have := (h.piece f hf).within
      omega
  rcases hspec.offset_eq with heq | ⟨heq, hnil⟩
  · by_cases hzero : out.offset = 0
    · refine ⟨fl, out.bytes, out.fin, by simp [hzero], h, by omega, rfl, hspec.bytes,
        hspec.le, ?_, ?_⟩
      · rw [show fl.offset = fl.offset + out.bytes.length by omega]
        exact hnext
      · rw [hend]
        exact and_congr_right fun _ => by omega
    · refine ⟨fl', out.bytes, out.fin, ?_, hinv, hoff, hfin, hspec.bytes, hspec.le, hoff ▸ hnext,
        hoff ▸ hend⟩
      rw [heq] at hzero
      simp only [heq, hdrop, ne_eq, hzero, not_false_eq_true, if_true]
  · refine ⟨fl, out.bytes, out.fin, by simp [heq], h, by simp [hnil], rfl, hspec.bytes,
      hspec.le, ?_, ?_⟩
    · intro hlt
      have := hnext hlt
      rwa [hnil] at this
    · rw [hend, hnil]
      rfl

end

/-! ### Runs -/

/-- A frame that arrives, or a read by the application. -/
inductive Op where
  | arrive (offset : ℕ) (bytes : Bytes) (fin : Bool)
  | read (size : ℕ)
  deriving DecidableEq

/-- A receive stream, the bytes that its reads returned, whether one of them said that it is at the
end, and whether a call failed or an assertion did. -/
structure Reader where
  fl : SframeList
  delivered : Bytes
  ended : Bool
  failed : Bool
  deriving DecidableEq

def Reader.initial : Reader := ⟨sframeListInit, [], false, false⟩

def step (r : Reader) : Op → Reader
  | .arrive offset bytes fin =>
    let out := queueData true r.fl offset bytes fin
    { r with
      fl := out.1
      failed := r.failed || !out.2 || !insertAsserted r.fl
        ⟨offset, offset + bytes.length, bytes⟩ fin }
  | .read size =>
    match rstreamRead r.fl size with
    | (fl, some (bytes, fin)) => ⟨fl, r.delivered ++ bytes, r.ended || fin, r.failed⟩
    | (fl, none) => { r with fl := fl, failed := true }

/-- The frame is one of the stream: its bytes stand there, only the end of the stream is marked as
such, and only that may be empty. -/
def Agrees (data : Bytes) : Op → Prop
  | .arrive offset bytes fin =>
    bytes = (data.drop offset).take bytes.length ∧ offset + bytes.length ≤ data.length ∧
      (fin = true → offset + bytes.length = data.length) ∧ (bytes = [] → fin = true)
  | .read _ => True

/-- The offsets that arrived in a run. -/
def arrived (ops : List Op) : Set ℕ :=
  {n | ∃ offset bytes fin, Op.arrive offset bytes fin ∈ ops ∧ offset ≤ n ∧
    n < offset + bytes.length}

def FinArrived (ops : List Op) : Prop := ∃ offset bytes, Op.arrive offset bytes true ∈ ops

theorem arrived_concat (ops : List Op) (offset : ℕ) (bytes : Bytes) (fin : Bool) :
    arrived (ops ++ [.arrive offset bytes fin]) =
      arrived ops ∪ Set.Ico offset (offset + bytes.length) := by
  ext n
  simp only [arrived, Set.mem_union, Set.mem_Ico, Set.mem_ofPred_eq, List.mem_append,
    List.mem_singleton, Op.arrive.injEq]
  constructor
  · rintro ⟨o, b, f, hin | ⟨rfl, rfl, rfl⟩, h1, h2⟩
    · exact Or.inl ⟨o, b, f, hin, h1, h2⟩
    · exact Or.inr ⟨h1, h2⟩
  · rintro (⟨o, b, f, hin, h1, h2⟩ | ⟨h1, h2⟩)
    · exact ⟨o, b, f, Or.inl hin, h1, h2⟩
    · exact ⟨offset, bytes, fin, Or.inr ⟨rfl, rfl, rfl⟩, h1, h2⟩

theorem arrived_concat_read (ops : List Op) (size : ℕ) :
    arrived (ops ++ [.read size]) = arrived ops := by
  ext n
  simp [arrived]

theorem finArrived_concat (ops : List Op) (offset : ℕ) (bytes : Bytes) (fin : Bool) :
    FinArrived (ops ++ [.arrive offset bytes fin]) ↔ fin = true ∨ FinArrived ops := by
  simp only [FinArrived, List.mem_append, List.mem_singleton, Op.arrive.injEq, exists_or]
  constructor
  · rintro (hin | ⟨-, -, -, -, rfl⟩)
    · exact Or.inr hin
    · exact Or.inl rfl
  · rintro (rfl | hin)
    · exact Or.inr ⟨offset, bytes, rfl, rfl, rfl⟩
    · exact Or.inl hin

/-- What holds after a run. -/
structure Sound (data : Bytes) (ops : List Op) (r : Reader) : Prop where
  inv : Inv r.fl data (arrived ops)
  fin : r.fl.fin = true ↔ FinArrived ops
  delivered : r.delivered = data.take r.fl.offset
  ended : r.ended = true → FinArrived ops ∧ r.fl.offset = data.length
  ok : r.failed = false

theorem sound_initial (data : Bytes) : Sound data [] .initial where
  inv := by
    have : arrived [] = ∅ := by simp [arrived]
    exact this ▸ inv_init data
  fin := by simp [Reader.initial, sframeListInit, FinArrived]
  delivered := by simp [Reader.initial, sframeListInit]
  ended := by simp [Reader.initial]
  ok := rfl

theorem Sound.length_delivered {data : Bytes} {ops : List Op} {r : Reader} (h : Sound data ops r) :
    r.delivered.length = r.fl.offset := by
  rw [h.delivered, List.length_take, Nat.min_eq_left h.inv.offset_le]

theorem Sound.step {data : Bytes} {ops : List Op} {r : Reader} (h : Sound data ops r) {op : Op}
    (hop : Agrees data op) : Sound data (ops ++ [op]) (step r op) := by
  cases op with
  | arrive offset bytes fin =>
    obtain ⟨hbytes, hwithin, hfin, hempty⟩ := hop
    have hpiece : Piece data ⟨offset, offset + bytes.length, bytes⟩ :=
      ⟨Nat.le_add_right _ _, hwithin, by rw [Nat.add_sub_cancel_left]; exact hbytes⟩
    obtain ⟨hassert, hfail | ⟨fl', heq, hoff, hflag, hinv⟩⟩ := h.inv.insert true fin hpiece hfin
    · cases hfail.2
    · have hqueue : queueData true r.fl offset bytes fin = (fl', true) := by
        rw [queueData, if_neg, heq]
        rintro ⟨hb, hf⟩
        rw [hempty hb] at hf
        cases hf
      refine ⟨?_, ?_, ?_, ?_, ?_⟩
      · simp only [ReceiveStream.step, hqueue, arrived_concat]
        exact hinv
      · simp only [ReceiveStream.step, hqueue, finArrived_concat, hflag, h.fin]
      · simp only [ReceiveStream.step, hqueue, hoff]
        exact h.delivered
      · simp only [ReceiveStream.step, hqueue, hoff, finArrived_concat]
        exact fun hended => (h.ended hended).imp_left Or.inr
      · simp only [ReceiveStream.step, hqueue, hassert, h.ok]
        rfl
  | read size =>
    obtain ⟨fl', bytes, fin, heq, hinv, hoff, hflag, hbytes, -, -, hend⟩ := h.inv.rstreamRead size
    have hstep : ReceiveStream.step r (.read size) =
        ⟨fl', r.delivered ++ bytes, r.ended || fin, r.failed⟩ := by
      rw [ReceiveStream.step, heq]
    rw [hstep]
    have hconcat : FinArrived (ops ++ [.read size]) ↔ FinArrived ops := by simp [FinArrived]
    refine ⟨arrived_concat_read ops size ▸ hinv, ?_, ?_, ?_, h.ok⟩
    · rw [hconcat, ← h.fin, hflag]
    · simp only [hoff, h.delivered]
      rw [List.take_add, ← hbytes]
    · intro hended
      rw [hconcat]
      rcases (Bool.or_eq_true _ _).mp hended with hended | hfin
      · obtain ⟨hfin, heq⟩ := h.ended hended
        have := hinv.offset_le
        refine ⟨hfin, ?_⟩
        simp only
        omega
      · obtain ⟨hfl, heq⟩ := hend.mp hfin
        exact ⟨h.fin.mp (hflag ▸ hfl), heq⟩

theorem sound_run {data : Bytes} {ops : List Op} (h : ∀ op ∈ ops, Agrees data op) :
    Sound data ops (Lib.Run.run step .initial ops) := by
  induction ops using List.reverseRecOn with
  | nil => exact sound_initial data
  | append_singleton ops op ih =>
    rw [Lib.Run.run_append]
    exact (ih fun o ho => h o (List.mem_append_left _ ho)).step
      (h op (List.mem_append_right _ (List.mem_singleton_self op)))

/-- What the next read returns. -/
theorem Sound.next_read {data : Bytes} {ops : List Op} {r : Reader} (h : Sound data ops r)
    (size : ℕ) : ∃ bytes fin, (rstreamRead r.fl size).2 = some (bytes, fin) ∧
      r.delivered ++ bytes = data.take (r.delivered.length + bytes.length) ∧ bytes.length ≤ size ∧
      (bytes.length < size → r.delivered.length + bytes.length ∉ arrived ops) ∧
      (fin = true ↔ FinArrived ops ∧ r.delivered.length + bytes.length = data.length) := by
  have hlen := h.length_delivered
  obtain ⟨fl', bytes, fin, heq, -, hoff, -, hbytes, hle, hnext, hend⟩ := h.inv.rstreamRead size
  refine ⟨bytes, fin, by rw [heq], ?_, hle, ?_, ?_⟩
  · rw [hlen, List.take_add, ← hbytes, ← h.delivered]
  · rw [hlen, ← hoff]
    exact hnext
  · rw [hlen, ← hoff, ← h.fin]
    exact hend

/-- **The application is handed the stream**: whatever the order in which frames of one stream
arrive, overlap and repeat, and however the application reads, it has been given the stream from its
beginning, without a failure. What it has not been given and has arrived without a gap it is given
next, and it is told of the end at the end. -/
theorem delivered_eq_take (data : Bytes) (ops : List Op) (hops : ∀ op ∈ ops, Agrees data op) :
    let r := Lib.Run.run step .initial ops
    r.failed = false ∧ r.delivered = data.take r.delivered.length ∧
      (r.ended = true → r.delivered = data) ∧
      ∀ size, ∃ bytes fin, (rstreamRead r.fl size).2 = some (bytes, fin) ∧
        r.delivered ++ bytes = data.take (r.delivered.length + bytes.length) ∧ bytes.length ≤ size ∧
        (bytes.length < size → r.delivered.length + bytes.length ∉ arrived ops) ∧
        (fin = true ↔ FinArrived ops ∧ r.delivered.length + bytes.length = data.length) := by
  have h := sound_run hops
  refine ⟨h.ok, ?_, fun hended => ?_, h.next_read⟩
  · rw [h.length_delivered]
    exact h.delivered
  · rw [h.delivered, (h.ended hended).2, List.take_length]

/-- The end arrives first, then a frame that overlaps it; one read takes the whole stream. -/
theorem delivered_eq_take_overlap :
    (Lib.Run.run step .initial
      [.arrive 3 [4, 5] true, .read 8, .arrive 0 [1, 2, 3, 4] false, .read 8]).failed = false :=
  (delivered_eq_take [1, 2, 3, 4, 5]
    [.arrive 3 [4, 5] true, .read 8, .arrive 0 [1, 2, 3, 4] false, .read 8] (by simp [Agrees])).1

end PapQuic.Transport.ReceiveStream
