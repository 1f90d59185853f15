import PapQuic.Transport.IntegerSet
import PapQuic.Transport.RingBuffer

/-! # The send stream (`quic_sstream.c`)

A send stream keeps the bytes of a stream in a ring buffer, and two sets of offsets: `new_set`, the
bytes that are to be transmitted, and `acked_set`, those that the peer has acknowledged. A byte in
neither is in flight.

`Inv qss data` is the invariant over the bytes `data` that were appended so far: both sets are
within the stream, no byte is in both, their ranges do not border on each other, the buffer has
every byte that is not culled, and what is culled was acknowledged. One lemma for each function says
what becomes of the sets; `getStreamFrame_spec` says that a frame carries the bytes of the stream at
its offset. -/

namespace PapQuic.Transport.SendStream

open Lib.Ranges Wire.Packet IntegerSet RingBuffer

/-- `QUIC_SSTREAM`. -/
structure Sstream where
  ringBuf : RingBuf
  newSet : UintSet
  ackedSet : UintSet
  haveFinalSize : Bool
  sentFinalSize : Bool
  ackedFinalSize : Bool
  cleanse : Bool
  deriving DecidableEq

/-- `have_final_size`, `sent_final_size` and `acked_final_size`. -/
def Sstream.flags (qss : Sstream) : Bool × Bool × Bool :=
  (qss.haveFinalSize, qss.sentFinalSize, qss.ackedFinalSize)

/-- The header of `OSSL_QUIC_FRAME_STREAM` as far as the send stream fills it in, and the parts of
memory with the data. -/
structure StreamFrame where
  offset : ℕ
  len : ℕ
  isFin : Bool
  iov : List Bytes
  deriving DecidableEq

/-- `ossl_quic_sstream_new`: `none` where it returns NULL. -/
def sstreamNew (initBufSize : ℕ) (block : Option Bytes) : Option Sstream :=
  match ringBufResize ringBufInit initBufSize block with
  | some (r, true) => some ⟨r, [], [], false, false, false, false⟩
  | _ => none

theorem length_take_pos {src : Bytes} (h : ¬ src = []) {maxLen totalLen : ℕ}
    (hlt : totalLen < maxLen) : 0 < (src.take (maxLen - totalLen)).length := by
  have : 0 < src.length := List.length_pos_iff.mpr h
  rw [List.length_take]
  omega

theorem gather_decreasing {src : Bytes} (h : ¬ src = []) {maxLen totalLen : ℕ}
    (hlt : ¬ totalLen ≥ maxLen) :
    maxLen - (totalLen + (src.take (maxLen - totalLen)).length) < maxLen - totalLen := by
  have := length_take_pos h (Nat.lt_of_not_le hlt)
  omega

/-- The loop of `ossl_quic_sstream_get_stream_frame` that collects the parts of memory. -/
def gatherIov (r : RingBuf) (start maxLen totalLen : ℕ) : Option (List Bytes) :=
  if _hmax : totalLen ≥ maxLen then some []
  else match ringBufGetBufAt r (start + totalLen) with
    | none => none
    | some src =>
      if _hsrc : src = [] then some []
      else
        (gatherIov r start maxLen (totalLen + (src.take (maxLen - totalLen)).length)).map
          (src.take (maxLen - totalLen) :: ·)
termination_by maxLen - totalLen
decreasing_by exact gather_decreasing _hsrc _hmax

/-- `ossl_quic_sstream_get_stream_frame`, for an array of two parts. -/
def getStreamFrame (qss : Sstream) (skip : ℕ) : Option StreamFrame :=
  match qss.newSet.reverse[skip]? with
  | none =>
    if qss.newSet.length < skip then none
    else if !qss.haveFinalSize || qss.sentFinalSize then none
    else some ⟨qss.ringBuf.headOffset, 0, true, []⟩
  | some range =>
    (gatherIov qss.ringBuf range.start (u64Succ (range.last - range.start)) 0).map fun iov =>
      ⟨range.start, iov.flatten.length,
        qss.haveFinalSize && range.start + iov.flatten.length == qss.ringBuf.headOffset, iov⟩

/-- `ossl_quic_sstream_get_cur_size`. -/
def getCurSize (qss : Sstream) : ℕ := qss.ringBuf.headOffset

/-- `ossl_quic_sstream_mark_transmitted`. -/
def markTransmitted (alloc : Bool) (qss : Sstream) (start last : ℕ) : Option (Sstream × Bool) :=
  (uintSetRemove alloc qss.newSet ⟨start, last⟩).map fun out =>
    ({ qss with newSet := out.1 }, out.2)

/-- `ossl_quic_sstream_mark_transmitted_fin`. -/
def markTransmittedFin (qss : Sstream) (finalSize : ℕ) : Sstream × Bool :=
  if !qss.haveFinalSize || finalSize != qss.ringBuf.headOffset then (qss, false)
  else ({ qss with sentFinalSize := true }, true)

/-- `ossl_quic_sstream_mark_lost`. -/
def markLost (alloc : Bool) (qss : Sstream) (start last : ℕ) : Sstream × Bool :=
  let out := uintSetInsert alloc qss.newSet ⟨start, last⟩
  ({ qss with newSet := out.1 }, out.2)

/-- `ossl_quic_sstream_mark_lost_fin`. -/
def markLostFin (qss : Sstream) : Sstream × Bool :=
  if qss.ackedFinalSize then (qss, false) else ({ qss with sentFinalSize := false }, true)

/-- `qss_cull`. -/
def qssCull (qss : Sstream) : Option Sstream :=
  match qss.ackedSet.getLast? with
  | none => some qss
  | some h => (ringBufCpopRange qss.ringBuf h.start h.last qss.cleanse).map fun r =>
      { qss with ringBuf := r }

/-- `ossl_quic_sstream_mark_acked`. -/
def markAcked (alloc : Bool) (qss : Sstream) (start last : ℕ) : Option (Sstream × Bool) :=
  let out := uintSetInsert alloc qss.ackedSet ⟨start, last⟩
  if !out.2 then some ({ qss with ackedSet := out.1 }, false)
  else (qssCull { qss with ackedSet := out.1 }).map (·, true)

/-- `ossl_quic_sstream_mark_acked_fin`. -/
def markAckedFin (qss : Sstream) : Sstream × Bool :=
  if !qss.haveFinalSize then (qss, false) else ({ qss with ackedFinalSize := true }, true)

/-- `ossl_quic_sstream_fin`. -/
def fin (qss : Sstream) : Sstream := { qss with haveFinalSize := true }

theorem append_decreasing {buf : Bytes} {n : ℕ} (hbuf : ¬ buf = []) (hn : ¬ n = 0) :
    (buf.drop n).length < buf.length := by
  have : 0 < buf.length := List.length_pos_iff.mpr hbuf
  rw [List.length_drop]
  omega

/-- The loop of `ossl_quic_sstream_append`: the buffer afterwards and the number of bytes consumed.
A round that pushes nothing ends it. -/
def appendLoop (r : RingBuf) (buf : Bytes) : Option (RingBuf × ℕ) :=
  if _hbuf : buf = [] then some (r, 0)
  else (ringBufPush r buf).bind fun out =>
    if _hout : out.2 = 0 then some (out.1, 0)
    else (appendLoop out.1 (buf.drop out.2)).map fun rest => (rest.1, out.2 + rest.2)
termination_by buf.length
decreasing_by exact append_decreasing _hbuf _hout

/-- `ossl_quic_sstream_append`: the stream afterwards, the number of bytes consumed and the value
returned. -/
def append (alloc : Bool) (qss : Sstream) (buf : Bytes) : Option (Sstream × ℕ × Bool) :=
  if qss.haveFinalSize then some (qss, 0, false)
  else (appendLoop qss.ringBuf buf).map fun out =>
    if out.2 > 0 then
      let set := uintSetInsert alloc qss.newSet
        ⟨qss.ringBuf.headOffset, qss.ringBuf.headOffset + out.2 - 1⟩
      if set.2 then ({ qss with ringBuf := out.1, newSet := set.1 }, out.2, true)
      else ({ qss with newSet := set.1 }, 0, false)
    else ({ qss with ringBuf := out.1 }, out.2, true)

/-- `ossl_quic_sstream_is_totally_acked`. -/
def isTotallyAcked (qss : Sstream) : Bool :=
  if qss.haveFinalSize && !qss.ackedFinalSize then false
  else if getCurSize qss = 0 then true
  else match qss.ackedSet with
    | [r] => r.start == 0 && r.last + 1 == qss.ringBuf.headOffset
    | _ => false

/-- `ossl_quic_sstream_adjust_iov`, from a part on before which there are `running` bytes. -/
def adjustIov (len : ℕ) : ℕ → List Bytes → List Bytes
  | _, [] => []
  | running, part :: iov =>
    (if running ≥ len then [] else if running + part.length > len then part.take (len - running)
      else part) :: adjustIov len (running + part.length) iov

/-! ### The invariant -/

/-- What holds of a send stream to which `data` was appended. -/
structure Inv (qss : Sstream) (data : Bytes) : Prop where
  holds : Holds qss.ringBuf data
  new_desc : Descending 1 qss.newSet
  acked_desc : Descending 1 qss.ackedSet
  new_lt : ∀ n ∈ cover qss.newSet, n < data.length
  acked_lt : ∀ n ∈ cover qss.ackedSet, n < data.length
  disjoint : ∀ n ∈ cover qss.newSet, n ∉ cover qss.ackedSet
  culled : ∀ n < qss.ringBuf.ctailOffset, n ∈ cover qss.ackedSet
  sent_fin : qss.sentFinalSize = true → qss.haveFinalSize = true
  acked_fin : qss.ackedFinalSize = true → qss.haveFinalSize = true

section
variable {qss : Sstream} {data : Bytes}

theorem Inv.length_lt (h : Inv qss data) : data.length < 2 ^ 63 := by
  have := h.holds.bound
  rw [h.holds.head] at this
  unfold maxOffset at this
  omega

theorem Inv.new_bounded (h : Inv qss data) : Bounded qss.newSet := fun n hn => by
  have := h.new_lt n hn
  have := h.length_lt
  omega

theorem Inv.acked_bounded (h : Inv qss data) : Bounded qss.ackedSet := fun n hn => by
  have := h.acked_lt n hn
  have := h.length_lt
  omega

/-- A byte that is to be transmitted is still in the buffer. -/
theorem Inv.ctail_le (h : Inv qss data) {n : ℕ} (hn : n ∈ cover qss.newSet) :
    qss.ringBuf.ctailOffset ≤ n := by
  by_contra hlt
  exact h.disjoint n hn (h.culled n (by omega))

theorem inv_new {initBufSize : ℕ} {block : Option Bytes}
    (hblock : ∀ b ∈ block, b.length = initBufSize)
    (hnew : sstreamNew initBufSize block = some qss) : Inv qss [] := by
  obtain ⟨r, hr, hholds, htail⟩ := resize_spec holds_init initBufSize block hblock
  rw [sstreamNew, hr] at hnew
  split at hnew
  · rename_i r' heq
    obtain ⟨rfl, -⟩ := Prod.mk.inj (Option.some.inj heq)
    rw [← Option.some.inj hnew]
    refine ⟨hholds, descending_nil 1, descending_nil 1, by simp, by simp, by simp, ?_,
      by simp, by simp⟩
    intro n hn
    rw [htail] at hn
    exact absurd hn (Nat.not_lt_zero n)
  · cases hnew

/-! ### Frames -/

/-- One round: a part up to the end of the range or of the block. -/
theorem gatherIov_round {r : RingBuf} (h : Holds r data) {start maxLen totalLen n k : ℕ}
    (htail : r.ctailOffset ≤ start) (hhead : start + maxLen ≤ r.headOffset)
    (hlt : totalLen < maxLen)
    (hn : start + totalLen = n) (hk : min (maxLen - totalLen) (r.alloc - n % r.alloc) = k) :
    0 < k ∧ gatherIov r start maxLen totalLen =
      (gatherIov r start maxLen (totalLen + k)).map ((data.drop n).take k :: ·) := by
  have hfits := h.fits
  have hlen := h.head
  have halloc : 0 < r.alloc := by omega
  have hmod := Nat.mod_lt n halloc
  have hsrc : ((data.drop n).take (min (r.headOffset - n) (r.alloc - n % r.alloc))).take
      (maxLen - totalLen) = (data.drop n).take k := by
    rw [List.take_take]
    congr 1
    omega
  have hklen : ((data.drop n).take k).length = k := by
    rw [List.length_take, List.length_drop]
    omega
  refine ⟨by omega, ?_⟩
  conv_lhs => rw [gatherIov]
  rw [dif_neg (by omega), hn, h.getBufAt_spec (by omega) (by omega)]
  simp only [hsrc, hklen]
  refine dif_neg fun hnil => ?_
  have := congrArg List.length hnil
  rw [List.length_take, List.length_drop, List.length_nil] at this
  omega

/-- The parts of memory have the bytes of the stream, and there are at most two of them: one up to
the end of the block, one from its start. -/
theorem gatherIov_spec {r : RingBuf} (h : Holds r data) {start maxLen : ℕ} (totalLen : ℕ)
    (htail : r.ctailOffset ≤ start) (hhead : start + maxLen ≤ r.headOffset)
    (htotal : totalLen ≤ maxLen) : ∃ iov, gatherIov r start maxLen totalLen = some iov ∧
      iov.flatten = (data.drop (start + totalLen)).take (maxLen - totalLen) ∧
      iov.length ≤ if totalLen = maxLen then 0 else if (start + totalLen) % r.alloc = 0 then 1
        else 2 := by
  by_cases hmax : totalLen = maxLen
  · refine ⟨[], ?_, ?_, by simp⟩
    · rw [gatherIov, dif_pos (by omega)]
    · rw [hmax, Nat.sub_self, List.take_zero]
      rfl
  · obtain ⟨n, hn⟩ : ∃ n, start + totalLen = n := ⟨_, rfl⟩
    obtain ⟨k, hk⟩ : ∃ k, min (maxLen - totalLen) (r.alloc - n % r.alloc) = k := ⟨_, rfl⟩
    obtain ⟨hkpos, hround⟩ := gatherIov_round h htail hhead (by omega) hn hk
    have hfits := h.fits
    have hzero := add_to_end_mod n (by omega : 0 < r.alloc)
    have hmod := Nat.mod_lt n (by omega : 0 < r.alloc)
    obtain ⟨iov, hiov, hflat, hparts⟩ := gatherIov_spec h (totalLen + k) htail hhead (by omega)
    refine ⟨(data.drop n).take k :: iov, by rw [hround, hiov]; rfl, ?_, ?_⟩
    · rw [List.flatten_cons, hflat, ← Nat.add_assoc, hn, ← List.drop_drop, ← List.take_add]
      congr 1
      omega
    · rw [if_neg hmax, List.length_cons, hn]
      by_cases hdone : totalLen + k = maxLen
      · rw [if_pos hdone] at hparts
        split_ifs <;> omega
      · -- the part went up to the end of the block
        have hend : k = r.alloc - n % r.alloc := by omega
        rw [if_neg hdone, ← Nat.add_assoc, hn, hend, if_pos hzero] at hparts
        rw [if_neg (by omega)]
        omega
termination_by maxLen - totalLen

theorem mem_reverse_getElem? {s : UintSet} {skip : ℕ} {range : UintRange}
    (h : s.reverse[skip]? = some range) : range ∈ s :=
  List.mem_reverse.mp (List.mem_of_getElem? h)

/-- **A frame carries the bytes of the stream at its offset**: the range it is made from is all in
the buffer, and two parts of memory are enough. -/
theorem Inv.getStreamFrame_spec (h : Inv qss data) {skip : ℕ} {range : UintRange}
    (hrange : qss.newSet.reverse[skip]? = some range) :
    ∃ iov, getStreamFrame qss skip = some ⟨range.start, range.last - range.start + 1,
        qss.haveFinalSize && range.last + 1 == data.length, iov⟩ ∧
      iov.flatten = (data.drop range.start).take (range.last - range.start + 1) ∧
      iov.length ≤ 2 := by
  have hmem := mem_reverse_getElem? hrange
  have hproper := h.new_desc.proper range hmem
  have hstart : range.start ∈ cover qss.newSet := ⟨range, hmem, Nat.le_refl _, hproper⟩
  have hlast : range.last < data.length := h.new_lt _ ⟨range, hmem, hproper, Nat.le_refl _⟩
  have hhead := h.holds.head
  obtain ⟨iov, hiov, hflat, hparts⟩ := gatherIov_spec h.holds 0 (h.ctail_le hstart)
    (by omega : range.start + (range.last - range.start + 1) ≤ qss.ringBuf.headOffset)
    (Nat.zero_le _)
  rw [Nat.add_zero, Nat.sub_zero] at hflat
  have hlen : iov.flatten.length = range.last - range.start + 1 := by
    rw [hflat, List.length_take, List.length_drop]
    omega
  refine ⟨iov, ?_, hflat, hparts.trans (by split_ifs <;> omega)⟩
  have h63 := h.length_lt
  rw [getStreamFrame, hrange]
  simp only [u64Succ_eq (by omega : range.last - range.start + 1 < 2 ^ 64), hiov,
    Option.map_some, hlen]
  congr 4
  omega

/-- Any frame that is given out is a piece of the stream, or the end of it. -/
theorem Inv.frame_eq (h : Inv qss data) {skip : ℕ} {f : StreamFrame}
    (hf : getStreamFrame qss skip = some f) :
    f.iov.flatten = (data.drop f.offset).take f.len ∧ f.offset + f.len ≤ data.length ∧
      (∀ n, f.offset ≤ n → n < f.offset + f.len → n ∈ cover qss.newSet) ∧
      (f.isFin = true → qss.haveFinalSize = true ∧ f.offset + f.len = data.length) ∧
      (f.len = 0 → f.isFin = true) := by
  rcases hrange : qss.newSet.reverse[skip]? with _ | range
  · rw [getStreamFrame, hrange] at hf
    simp only at hf
    split_ifs at hf with hskip hfin
    rw [← Option.some.inj hf]
    have hhead := h.holds.head
    simp only [Bool.or_eq_true, Bool.not_eq_true', not_or, Bool.not_eq_false, Bool.not_eq_true]
      at hfin
    exact ⟨by simp, by simp only; omega, fun n h1 h2 => by simp only at h1 h2; omega,
      fun _ => ⟨hfin.1, by simp only; omega⟩, fun _ => rfl⟩
  · obtain ⟨iov, heq, hflat, -⟩ := h.getStreamFrame_spec hrange
    rw [heq] at hf
    rw [← Option.some.inj hf]
    have hmem := mem_reverse_getElem? hrange
    have hproper := h.new_desc.proper range hmem
    have hlast : range.last < data.length := h.new_lt _ ⟨range, hmem, hproper, Nat.le_refl _⟩
    refine ⟨hflat, by simp only; omega, fun n h1 h2 => ⟨range, hmem, h1, ?_⟩, fun hfin => ?_, ?_⟩
    · simp only at h2
      omega
    · simp only [Bool.and_eq_true, beq_iff_eq] at hfin
      exact ⟨hfin.1, by simp only; omega⟩
    · intro hzero
      simp at hzero

/-- `ossl_quic_sstream_adjust_iov` cuts the data to the given length. -/
theorem flatten_adjustIov (len : ℕ) : ∀ (iov : List Bytes) (running : ℕ),
    (adjustIov len running iov).flatten = iov.flatten.take (len - running)
  | [], running => by simp [adjustIov]
  | part :: iov, running => by
    rw [adjustIov, List.flatten_cons, flatten_adjustIov len iov, List.flatten_cons,
      List.take_append]
    congr 1
    · split_ifs with h1 h2
      · rw [Nat.sub_eq_zero_of_le h1, List.take_zero]
      · rfl
      · rw [List.take_of_length_le (by omega)]
    · congr 1
      omega

/-! ### What the functions do to the sets -/

/-- A change of the flags only. -/
theorem Inv.of_flags (h : Inv qss data) {qss' : Sstream} (hring : qss'.ringBuf = qss.ringBuf)
    (hnew : qss'.newSet = qss.newSet) (hacked : qss'.ackedSet = qss.ackedSet)
    (hsent : qss'.sentFinalSize = true → qss'.haveFinalSize = true)
    (hackedFin : qss'.ackedFinalSize = true → qss'.haveFinalSize = true) : Inv qss' data where
  holds := hring ▸ h.holds
  new_desc := hnew ▸ h.new_desc
  acked_desc := hacked ▸ h.acked_desc
  new_lt := hnew ▸ h.new_lt
  acked_lt := hacked ▸ h.acked_lt
  disjoint := by
    rw [hnew, hacked]
    exact h.disjoint
  culled := by
    rw [hring, hacked]
    exact h.culled
  sent_fin := hsent
  acked_fin := hackedFin

theorem Inv.fin (h : Inv qss data) : Inv (fin qss) data :=
  h.of_flags rfl rfl rfl (fun _ => rfl) (fun _ => rfl)

theorem Inv.markTransmittedFin (h : Inv qss data) (finalSize : ℕ) :
    Inv (markTransmittedFin qss finalSize).1 data := by
  unfold SendStream.markTransmittedFin
  split_ifs with hfin
  · exact h
  · simp only [Bool.or_eq_true, Bool.not_eq_true', not_or, Bool.not_eq_false] at hfin
    exact h.of_flags rfl rfl rfl (fun _ => hfin.1) h.acked_fin

theorem Inv.markLostFin (h : Inv qss data) : Inv (markLostFin qss).1 data := by
  unfold SendStream.markLostFin
  split_ifs
  · exact h
  · exact h.of_flags rfl rfl rfl (by simp) h.acked_fin

theorem Inv.markAckedFin (h : Inv qss data) : Inv (markAckedFin qss).1 data := by
  unfold SendStream.markAckedFin
  split_ifs with hfin
  · exact h
  · simp only [Bool.not_eq_true', Bool.not_eq_false] at hfin
    exact h.of_flags rfl rfl rfl h.sent_fin fun _ => hfin

theorem appendLoop_spec {r : RingBuf} {data : Bytes} (h : Holds r data) (buf : Bytes) :
    ∃ r', appendLoop r buf = some (r', (pushable r buf).length) ∧
      Holds r' (data ++ pushable r buf) ∧ r'.ctailOffset = r.ctailOffset := by
  rw [appendLoop]
  split_ifs with hbuf
  · have hp : pushable r buf = [] := by
      rw [hbuf, pushable, List.take_nil]
    exact ⟨r, by rw [hp]; rfl, by rwa [hp, List.append_nil], rfl⟩
  · obtain ⟨r₁, hr₁, hholds₁, htail₁, halloc₁⟩ := push_spec h buf
    rw [hr₁, Option.bind_some]
    have hlen := length_pushable r buf
    split_ifs with hout
    · simp only at hout
      exact ⟨r₁, by rw [hout], hholds₁, htail₁⟩
    · -- the first round has taken all there is room for
      have hhead₁ := hholds₁.head
      rw [List.length_append, ← h.head] at hhead₁
      have hused := h.used_le
      have htl := h.tail_le
      have hrest : pushable r₁ (buf.drop (pushable r buf).length) = [] := by
        rw [← List.length_eq_zero_iff, length_pushable, List.length_drop]
        unfold ringBufAvail ringBufUsed at *
        omega
      obtain ⟨r₂, hr₂, hholds₂, htail₂⟩ := appendLoop_spec hholds₁
        (buf.drop (pushable r buf).length)
      rw [hrest, List.append_nil] at hholds₂
      refine ⟨r₂, ?_, hholds₂, htail₂.trans htail₁⟩
      simp only [hr₂, hrest, Option.map_some, List.length_nil, Nat.add_zero]
termination_by buf.length
decreasing_by exact append_decreasing hbuf hout

/-- The appended range is past all that is to be transmitted. -/
theorem Inv.insert_appended (h : Inv qss data) (alloc : Bool) {p : Bytes} (hpos : 0 < p.length)
    (hbound : (data ++ p).length ≤ maxOffset) :
    Inserted 1 qss.newSet ⟨data.length, data.length + p.length - 1⟩
      (uintSetInsert alloc qss.newSet ⟨data.length, data.length + p.length - 1⟩) := by
  rw [List.length_append] at hbound
  unfold maxOffset at hbound
  refine insert_polite_spec alloc _ h.new_desc h.new_bounded (by simp only; omega)
    (by simp only; omega) (Or.inl fun n hn hin => ?_)
  have := h.new_lt n hn
  have := hin.1
  simp only at this
  omega

theorem Inv.appended (h : Inv qss data) {p : Bytes} {r : RingBuf} (set : UintSet)
    (hholds : Holds r (data ++ p)) (htail : r.ctailOffset = qss.ringBuf.ctailOffset)
    (hset : Descending 1 set)
    (hcover : ∀ k, k ∈ cover set ↔
      k ∈ cover qss.newSet ∨ (data.length ≤ k ∧ k < (data ++ p).length)) :
    Inv { qss with ringBuf := r, newSet := set } (data ++ p) where
  holds := hholds
  new_desc := hset
  acked_desc := h.acked_desc
  new_lt n hn := by
    rcases (hcover n).mp hn with hn | hn
    · have := h.new_lt n hn
      rw [List.length_append]
      omega
    · exact hn.2
  acked_lt n hn := by
    have := h.acked_lt n hn
    rw [List.length_append]
    omega
  disjoint n hn hacked := by
    rcases (hcover n).mp hn with hn | hn
    · exact h.disjoint n hn hacked
    · have := h.acked_lt n hacked
      omega
  culled := by
    simp only [htail]
    exact h.culled
  sent_fin := h.sent_fin
  acked_fin := h.acked_fin

/-- **Appending**: the bytes that were taken are to be transmitted; without memory for the set
nothing changes. -/
theorem Inv.append (h : Inv qss data) (alloc : Bool) (buf : Bytes)
    (hfin : qss.haveFinalSize = false) :
    ∃ qss' n ok, append alloc qss buf = some (qss', n, ok) ∧ Inv qss' (data ++ buf.take n) ∧
      (∀ k, k ∈ cover qss'.newSet ↔
        k ∈ cover qss.newSet ∨ (data.length ≤ k ∧ k < (data ++ buf.take n).length)) ∧
      qss'.ackedSet = qss.ackedSet ∧ qss'.flags = qss.flags ∧
      (alloc = true → ok = true ∧ n = (pushable qss.ringBuf buf).length) := by
  obtain ⟨r, hr, hholds, htail⟩ := appendLoop_spec h.holds buf
  have hhead := h.holds.head
  have htake : buf.take (pushable qss.ringBuf buf).length = pushable qss.ringBuf buf := by
    rw [length_pushable, pushable, List.take_eq_take_iff]
    omega
  generalize hp : pushable qss.ringBuf buf = p at hr hholds htake ⊢
  have hnothing : ∀ k, k ∈ cover qss.newSet ↔ k ∈ cover qss.newSet ∨
      (data.length ≤ k ∧ k < (data ++ buf.take 0).length) := by
    intro k
    rw [List.take_zero, List.append_nil, or_iff_left (by omega)]
  rw [SendStream.append, if_neg (by simp [hfin]), hr, Option.map_some, hhead]
  simp only
  rcases Nat.eq_zero_or_pos p.length with hzero | hpos
  · rw [if_neg (by omega)]
    obtain rfl : p = [] := List.length_eq_zero_iff.mp hzero
    refine ⟨_, 0, true, rfl, ?_, hnothing, rfl, rfl, fun _ => ⟨rfl, rfl⟩⟩
    refine h.appended qss.newSet ?_ htail h.new_desc hnothing
    rwa [List.take_zero]
  · rw [if_pos hpos]
    have hbound := hholds.bound
    rw [hholds.head] at hbound
    have hspec := h.insert_appended alloc hpos hbound
    split_ifs with hset
    · have hcover : ∀ k, k ∈ cover (uintSetInsert alloc qss.newSet
          ⟨data.length, data.length + p.length - 1⟩).1 ↔
          k ∈ cover qss.newSet ∨ (data.length ≤ k ∧ k < (data ++ p).length) := by
        intro k
        rw [hspec.cover_iff hset, Range.mem_numbers, List.length_append]
        refine or_congr_right ?_
        simp only
        omega
      refine ⟨_, p.length, true, rfl, ?_, ?_, rfl, rfl, fun _ => ⟨rfl, rfl⟩⟩
      · rw [htake]
        exact h.appended _ hholds htail (hspec.descending hset) hcover
      · rw [htake]
        exact hcover
    · -- no memory for the set: the buffer is as before
      rw [hspec.failed (by simpa using hset)]
      refine ⟨_, 0, false, rfl, ?_, hnothing, rfl, rfl, fun halloc => ?_⟩
      · rw [List.take_zero, List.append_nil]
        exact h
      · exact absurd (insert_returns _ _ (by simp only; omega)) (halloc ▸ hset)

/-- **Transmitting** takes a range out of what is to be transmitted. -/
theorem Inv.markTransmitted (h : Inv qss data) {start last : ℕ} (hle : start ≤ last)
    {qss' : Sstream}
    {alloc ok : Bool} (hmark : markTransmitted alloc qss start last = some (qss', ok)) :
    ok = true ∧ Inv qss' data ∧ qss'.ackedSet = qss.ackedSet ∧ qss'.flags = qss.flags ∧
      ∀ n, n ∈ cover qss'.newSet ↔ n ∈ cover qss.newSet ∧ ¬ (start ≤ n ∧ n ≤ last) := by
  obtain ⟨⟨set, ok'⟩, hremove, heq⟩ := Option.map_eq_some_iff.mp hmark
  obtain ⟨rfl, rfl⟩ := Prod.mk.inj heq
  obtain ⟨hok, hdesc, hcover⟩ := remove_spec (Nat.le_refl 1) alloc h.new_desc h.new_bounded
    hle hremove
  refine ⟨hok, ?_, rfl, rfl, hcover⟩
  exact { h with
    new_desc := hdesc
    new_lt := fun n hn => h.new_lt n ((hcover n).mp hn).1
    disjoint := fun n hn => h.disjoint n ((hcover n).mp hn).1 }

theorem markTransmitted_isSome {start last : ℕ} (hle : start ≤ last) :
    ∃ qss', markTransmitted true qss start last = some (qss', true) := by
  obtain ⟨s, hs⟩ := Option.isSome_iff_exists.mp (removeWalk_isSome ⟨start, last⟩ qss.newSet)
  refine ⟨{ qss with newSet := s }, ?_⟩
  rw [SendStream.markTransmitted, uintSetRemove, if_neg (not_not.mpr hle), hs]
  rfl

/-- **Losing** a range in flight puts it back among what is to be transmitted. -/
theorem Inv.markLost (h : Inv qss data) (alloc : Bool) {start last : ℕ} (hle : start ≤ last)
    (hlast : last < data.length) (hfree : ∀ n, start ≤ n → n ≤ last → n ∉ cover qss.ackedSet)
    (hpolite : Polite qss.newSet ⟨start, last⟩) :
    Inv (markLost alloc qss start last).1 data ∧
      (markLost alloc qss start last).1.ackedSet = qss.ackedSet ∧
      (markLost alloc qss start last).1.flags = qss.flags ∧
      ((markLost alloc qss start last).2 = false →
        (markLost alloc qss start last).1 = qss ∧ alloc = false) ∧
      ((markLost alloc qss start last).2 = true → ∀ n,
        n ∈ cover (markLost alloc qss start last).1.newSet ↔
          n ∈ cover qss.newSet ∨ (start ≤ n ∧ n ≤ last)) := by
  have h63 := h.length_lt
  have hspec := insert_polite_spec alloc ⟨start, last⟩ h.new_desc h.new_bounded hle
    (by simp only; omega) hpolite
  unfold SendStream.markLost
  generalize hout : uintSetInsert alloc qss.newSet ⟨start, last⟩ = out at hspec ⊢
  refine ⟨?_, rfl, rfl, fun hfalse => ?_, hspec.cover_iff⟩
  · cases hok : out.2 with
    | false =>
      simp only [hspec.failed hok]
      exact h
    | true =>
      have hcover := hspec.cover_iff hok
      exact { h with
        new_desc := hspec.descending hok
        new_lt := fun n hn => ((hcover n).mp hn).elim (h.new_lt n) fun hn => by
          have := hn.2
          simp only at this
          omega
        disjoint := fun n hn => ((hcover n).mp hn).elim (h.disjoint n) fun hn => hfree n hn.1 hn.2 }
  · simp only at hfalse ⊢
    refine ⟨by rw [hspec.failed hfalse], ?_⟩
    cases alloc with
    | false => rfl
    | true =>
      have := insert_returns qss.newSet ⟨start, last⟩ hle
      rw [hout, hfalse] at this
      cases this

/-- Culling takes away only what is acknowledged. -/
theorem Inv.qssCull (h : Inv qss data) :
    ∃ qss', qssCull qss = some qss' ∧ Inv qss' data ∧ qss'.newSet = qss.newSet ∧
      qss'.ackedSet = qss.ackedSet ∧ qss'.flags = qss.flags := by
  unfold SendStream.qssCull
  rcases hfirst : qss.ackedSet.getLast? with _ | f
  · exact ⟨qss, rfl, h, rfl, rfl, rfl⟩
  · have hmem : f ∈ qss.ackedSet := List.mem_of_getLast? hfirst
    have hproper := h.acked_desc.proper f hmem
    have hlast : f.last ∈ cover qss.ackedSet := ⟨f, hmem, hproper, Nat.le_refl _⟩
    have hhead := h.holds.head
    have hlt := h.acked_lt _ hlast
    -- what is culled already lies in the first range
    have htail : qss.ringBuf.ctailOffset ≤ f.last + 1 := by
      rcases Nat.eq_zero_or_pos qss.ringBuf.ctailOffset with h0 | hpos
      · omega
      · obtain ⟨q, hq, hq0, hqlast⟩ := h.acked_desc.exists_range (a := 0)
          (b := qss.ringBuf.ctailOffset - 1) (Nat.zero_le _) fun n _ hn => h.culled n (by omega)
        obtain ⟨l, hl⟩ := List.getLast?_eq_some_iff.mp hfirst
        have hdesc := h.acked_desc
        rw [hl] at hdesc hq
        rcases List.mem_append.mp hq with hq | hq
        · have := (descending_append.mp hdesc).2.2 q.start ⟨q, hq, Nat.le_refl _, by
            exact hdesc.proper q (List.mem_append_left _ hq)⟩ f.last
            (mem_cover_cons.mpr (Or.inl ⟨hproper, Nat.le_refl _⟩))
          omega
        · rw [List.mem_singleton.mp hq] at hqlast
          omega
    obtain ⟨r, hr, hholds, -, hctail⟩ := cpopRange_spec h.holds f.start qss.cleanse
      (by omega : f.last < qss.ringBuf.headOffset) htail
    refine ⟨{ qss with ringBuf := r }, by simp only [hr]; rfl, ?_, rfl, rfl, rfl⟩
    refine { h with holds := hholds, culled := ?_ }
    intro n hn
    simp only [hctail] at hn
    split_ifs at hn with hstart
    · rcases Nat.lt_or_ge n qss.ringBuf.ctailOffset with hold | hnew
      · exact h.culled n hold
      · exact ⟨f, hmem, by omega, by omega⟩
    · exact h.culled n hn

/-- **Acknowledging** a range in flight. -/
theorem Inv.markAcked (h : Inv qss data) (alloc : Bool) {start last : ℕ} (hle : start ≤ last)
    (hlast : last < data.length) (hfree : ∀ n, start ≤ n → n ≤ last → n ∉ cover qss.newSet)
    (hpolite : Polite qss.ackedSet ⟨start, last⟩) :
    ∃ qss' ok, markAcked alloc qss start last = some (qss', ok) ∧ Inv qss' data ∧
      qss'.newSet = qss.newSet ∧ qss'.flags = qss.flags ∧
      (ok = false → qss' = qss ∧ alloc = false) ∧
      (ok = true → ∀ n, n ∈ cover qss'.ackedSet ↔ n ∈ cover qss.ackedSet ∨
        (start ≤ n ∧ n ≤ last)) := by
  have h63 := h.length_lt
  have hspec := insert_polite_spec alloc ⟨start, last⟩ h.acked_desc h.acked_bounded hle
    (by simp only; omega) hpolite
  unfold SendStream.markAcked
  generalize hout : uintSetInsert alloc qss.ackedSet ⟨start, last⟩ = out at hspec ⊢
  simp only
  cases hok : out.2 with
  | false =>
    rw [hspec.failed hok]
    refine ⟨qss, false, rfl, h, rfl, rfl, fun _ => ⟨rfl, ?_⟩, by simp⟩
    cases alloc with
    | false => rfl
    | true =>
      have := insert_returns qss.ackedSet ⟨start, last⟩ hle
      rw [hout, hok] at this
      cases this
  | true =>
    have hcover := hspec.cover_iff hok
    have hinv : Inv { qss with ackedSet := out.1 } data := { h with
      acked_desc := hspec.descending hok
      acked_lt := fun n hn => ((hcover n).mp hn).elim (h.acked_lt n) fun hn => by
        have := hn.2
        simp only at this
        omega
      disjoint := fun n hn hacked => ((hcover n).mp hacked).elim (h.disjoint n hn) fun hin =>
        hfree n hin.1 hin.2 hn
      culled := fun n hn => (hcover n).mpr (Or.inl (h.culled n hn)) }
    obtain ⟨qss', hcull, hinv', hnew, hacked, hfin⟩ := hinv.qssCull
    refine ⟨qss', true, by rw [hcull]; rfl, hinv', hnew, hfin, by simp, fun _ n => ?_⟩
    rw [hacked]
    exact hcover n

/-- **A stream is totally acknowledged** when every byte is, and the end too if there is one. -/
theorem Inv.isTotallyAcked_iff (h : Inv qss data) :
    isTotallyAcked qss = true ↔ (qss.haveFinalSize = true → qss.ackedFinalSize = true) ∧
      ∀ n < data.length, n ∈ cover qss.ackedSet := by
  have hhead := h.holds.head
  unfold SendStream.isTotallyAcked getCurSize
  split_ifs with hfin hzero
  · simp only [Bool.and_eq_true, Bool.not_eq_true'] at hfin
    simp [hfin.1, hfin.2]
  · simp only [Bool.and_eq_true, Bool.not_eq_true', not_and, Bool.not_eq_false] at hfin
    refine iff_of_true rfl ⟨hfin, fun n hn => ?_⟩
    omega
  · simp only [Bool.and_eq_true, Bool.not_eq_true', not_and, Bool.not_eq_false] at hfin
    rw [and_iff_right hfin]
    constructor
    · intro hall n hn
      split at hall
      · rename_i r heq
        simp only [Bool.and_eq_true, beq_iff_eq] at hall
        rw [heq]
        exact mem_cover_cons.mpr (Or.inl (by omega))
      · cases hall
    · intro hall
      -- the ranges do not border on each other, so there is just one
      have hone : qss.ackedSet = [⟨0, data.length - 1⟩] := by
        refine h.acked_desc.ext (descending_cons.mpr ⟨Nat.zero_le _, by simp, descending_nil 1⟩) ?_
        ext n
        rw [mem_cover_cons, cover_nil, or_iff_left (Set.notMem_empty n)]
        constructor
        · intro hn
          have := h.acked_lt n hn
          simp only
          omega
        · intro hn
          simp only at hn
          exact hall n (by omega)
      rw [hone]
      simp only [beq_self_eq_true, Bool.true_and, beq_iff_eq]
      omega

end

end PapQuic.Transport.SendStream
