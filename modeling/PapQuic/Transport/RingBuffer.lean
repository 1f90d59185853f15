import PapQuic.Wire.Packet

/-! # The ring buffer (`ring_buf.h`)

A block of memory that holds the bytes of a stream from the cull tail up to the head; the byte with
logical offset `n` is at `n` modulo the size of the block. Every access to the block is checked in
the model: `memcpy` outside of it gives `none`.

`Holds r data` says that `data` is the stream up to the head and that the buffer has the right byte
for every offset that was not culled. Pushing appends to `data` as much as there is room for
(`push_spec`), culling and resizing leave it (`cpopRange_spec`, `resize_spec`), and what
`ring_buf_get_buf_at` points to is a piece of it (`Holds.getBufAt_spec`). -/

namespace PapQuic.Transport.RingBuffer

open Wire.Packet

/-- `struct ring_buf`: the block, whose length is `alloc`, and the offsets of head and cull tail. -/
structure RingBuf where
  start : Bytes
  headOffset : ℕ
  ctailOffset : ℕ
  deriving DecidableEq

namespace RingBuf

/-- `alloc`. -/
def alloc (r : RingBuf) : ℕ := r.start.length

end RingBuf

/-- `MAX_OFFSET`. -/
def maxOffset : ℕ := 2 ^ 62

/-- `memcpy` to the place `idx` of a block, which `src` must not leave. -/
def memcpy (dst : Bytes) (idx : ℕ) (src : Bytes) : Option Bytes :=
  if idx + src.length ≤ dst.length then
    some (dst.take idx ++ src ++ dst.drop (idx + src.length))
  else none

/-- `ring_buf_init`. -/
def ringBufInit : RingBuf := ⟨[], 0, 0⟩

/-- `ring_buf_used`. -/
def ringBufUsed (r : RingBuf) : ℕ := r.headOffset - r.ctailOffset

/-- `ring_buf_avail`. -/
def ringBufAvail (r : RingBuf) : ℕ := r.alloc - ringBufUsed r

/-- What `ring_buf_push` still wants to push after it has cut the bytes to the space there is. -/
def pushable (r : RingBuf) (buf : Bytes) : Bytes :=
  buf.take (min (ringBufAvail r) (maxOffset - r.headOffset))

/-- The length of the piece up to the end of the block. -/
def pieceLen (r : RingBuf) (buf : Bytes) : ℕ := min (r.alloc - r.headOffset % r.alloc) buf.length

theorem pieceLen_pos {r : RingBuf} {buf : Bytes} (h : pushable r buf ≠ []) :
    0 < pieceLen r (pushable r buf) := by
  have hlen : 0 < (pushable r buf).length := List.length_pos_iff.mpr h
  have halloc : 0 < r.alloc := by
    rw [pushable, List.length_take, ringBufAvail] at hlen
    omega
  have := Nat.mod_lt r.headOffset halloc
  unfold pieceLen
  omega

theorem length_drop_piece_lt {r : RingBuf} {buf : Bytes} (h : pushable r buf ≠ []) :
    ((pushable r buf).drop (pieceLen r (pushable r buf))).length < buf.length := by
  have hpos := pieceLen_pos h
  have hlen : 0 < (pushable r buf).length := List.length_pos_iff.mpr h
  have hle : (pushable r buf).length ≤ buf.length := by
    rw [pushable, List.length_take]
    omega
  rw [List.length_drop]
  omega

/-- `ring_buf_push`: the buffer afterwards and the number of bytes pushed. -/
def ringBufPush (r : RingBuf) (buf : Bytes) : Option (RingBuf × ℕ) :=
  if _h : pushable r buf = [] then some (r, 0)
  else
    let l := pieceLen r (pushable r buf)
    (memcpy r.start (r.headOffset % r.alloc) ((pushable r buf).take l)).bind fun start =>
      (ringBufPush ⟨start, r.headOffset + l, r.ctailOffset⟩ ((pushable r buf).drop l)).map
        fun out =>
        (out.1, l + out.2)
termination_by buf.length
decreasing_by exact length_drop_piece_lt _h

/-- `ring_buf_get_buf_at`: the bytes it points to. -/
def ringBufGetBufAt (r : RingBuf) (logicalOffset : ℕ) : Option Bytes :=
  if logicalOffset > r.headOffset ∨ logicalOffset < r.ctailOffset then none
  else if r.alloc = 0 then some []
  else
    let idx := logicalOffset % r.alloc
    some ((r.start.drop idx).take (min (r.headOffset - logicalOffset) (r.alloc - idx)))

/-- `OPENSSL_cleanse` of a part of the block. -/
def cleansePart (block : Bytes) (idx l : ℕ) : Option Bytes := memcpy block idx (List.replicate l 0)

/-- The culled bytes are overwritten, in two parts if they go over the end of the block. -/
def cleanseCulled (r : RingBuf) (last : ℕ) : Option Bytes :=
  let idx := r.ctailOffset % r.alloc
  let l := min (last + 1) r.headOffset - r.ctailOffset
  if l > r.alloc - idx then
    (cleansePart r.start idx (r.alloc - idx)).bind fun block =>
      cleansePart block 0 (l - (r.alloc - idx))
  else if l > 0 then cleansePart r.start idx l
  else some r.start

/-- `ring_buf_cpop_range`, with `last` for the end of the range, which is in it. -/
def ringBufCpopRange (r : RingBuf) (start last : ℕ) (cleanse : Bool) : Option RingBuf :=
  if start > r.ctailOffset ∨ last ≥ maxOffset then some r
  else
    (if cleanse ∧ r.alloc > 0 ∧ last > r.ctailOffset then cleanseCulled r last
      else some r.start).map fun block => ⟨block, max r.headOffset (last + 1), last + 1⟩

theorem length_getBufAt_le {r : RingBuf} {n : ℕ} {src : Bytes}
    (h : ringBufGetBufAt r n = some src) : n + src.length ≤ r.headOffset := by
  unfold ringBufGetBufAt at h
  split_ifs at h with hout halloc
  · rw [← Option.some.inj h, List.length_nil]
    omega
  · rw [← Option.some.inj h, List.length_take]
    omega

theorem resizeCopy_decreasing {r : RingBuf} {copied : ℕ} {src : Bytes}
    (h : ringBufGetBufAt r (r.ctailOffset + copied) = some src) (hne : ¬ src = []) :
    r.headOffset - (r.ctailOffset + (copied + src.length)) <
      r.headOffset - (r.ctailOffset + copied) := by
  have := length_getBufAt_le h
  have : 0 < src.length := List.length_pos_iff.mpr hne
  omega

/-- The loop of `ring_buf_resize` that copies what is not yet copied. `some none`: a call failed,
and the new block is given back. -/
def resizeCopy (r : RingBuf) (rnew : RingBuf) (copied : ℕ) : Option (Option RingBuf) :=
  match _hsrc : ringBufGetBufAt r (r.ctailOffset + copied) with
  | none => some none
  | some src =>
    if _hne : src = [] then some (some rnew)
    else
      (ringBufPush rnew src).bind fun out =>
        if out.2 = src.length then resizeCopy r out.1 (copied + src.length) else some none
termination_by r.headOffset - (r.ctailOffset + copied)
decreasing_by exact resizeCopy_decreasing _hsrc _hne

/-- `ring_buf_resize`, given the block that `OPENSSL_malloc` returns, if any: the buffer afterwards
and the value returned. -/
def ringBufResize (r : RingBuf) (numBytes : ℕ) (block : Option Bytes) : Option (RingBuf × Bool) :=
  if numBytes = r.alloc then some (r, true)
  else if numBytes < ringBufUsed r then some (r, false)
  else match block with
    | none => some (r, false)
    | some block =>
      (resizeCopy r ⟨block, r.headOffset - ringBufUsed r, r.headOffset - ringBufUsed r⟩ 0).map
        fun out =>
          match out with
          | none => (r, false)
          | some rnew => (⟨rnew.start, rnew.headOffset, r.ctailOffset⟩, true)

/-! ### Memory -/

theorem length_memcpy {dst src out : Bytes} {idx : ℕ} (h : memcpy dst idx src = some out) :
    out.length = dst.length := by
  unfold memcpy at h
  split_ifs at h with hle
  rw [← Option.some.inj h]
  simp only [List.length_append, List.length_take, List.length_drop]
  omega

theorem getElem?_memcpy {dst src out : Bytes} {idx : ℕ}
    (h : memcpy dst idx src = some out) (i : ℕ) :
    out[i]? = if idx ≤ i ∧ i < idx + src.length then src[i - idx]? else dst[i]? := by
  unfold memcpy at h
  split_ifs at h with hle
  rw [← Option.some.inj h, List.append_assoc]
  have htake : (dst.take idx).length = idx := by
    rw [List.length_take]
    omega
  rcases Nat.lt_or_ge i idx with hi | hi
  · rw [if_neg (by omega), List.getElem?_append_left (by omega), List.getElem?_take_of_lt hi]
  · rw [List.getElem?_append_right (by omega), htake]
    rcases Nat.lt_or_ge i (idx + src.length) with hj | hj
    · rw [if_pos ⟨hi, hj⟩, List.getElem?_append_left (by omega)]
    · rw [if_neg (by omega), List.getElem?_append_right (by omega), List.getElem?_drop]
      congr 1
      omega

/-- Offsets less than the size of the block apart are at different places. -/
theorem eq_of_mod_eq {a k j : ℕ} (h : k % a = j % a) (hk : k < j + a) (hj : j < k + a) : k = j := by
  have hk' := Nat.div_add_mod k a
  have hj' := Nat.div_add_mod j a
  rcases Nat.lt_trichotomy (k / a) (j / a) with hlt | heq | hlt
  · have := Nat.mul_le_mul_left a (Nat.succ_le_of_lt hlt)
    rw [Nat.mul_succ] at this
    omega
  · rw [heq] at hk'
    omega
  · have := Nat.mul_le_mul_left a (Nat.succ_le_of_lt hlt)
    rw [Nat.mul_succ] at this
    omega

/-- Up to the end of the block the places are consecutive. -/
theorem add_mod_eq {a k j : ℕ} (h : k % a + j < a) : (k + j) % a = k % a + j := by
  rw [Nat.add_mod, Nat.mod_eq_of_lt (by omega : j < a), Nat.mod_eq_of_lt h]

/-- After the end of the block the places begin anew. -/
theorem add_to_end_mod (k : ℕ) {a : ℕ} (ha : 0 < a) : (k + (a - k % a)) % a = 0 := by
  have hdiv := Nat.div_add_mod k a
  have hlt := Nat.mod_lt k ha
  have hmul : k + (a - k % a) = a * (k / a + 1) := by
    rw [Nat.mul_succ]
    omega
  rw [hmul, Nat.mul_mod_right]

/-! ### What a buffer holds -/

/-- The buffer holds a stream: the window fits the block, and the byte of every offset in the window
is at its place. -/
structure Holds (r : RingBuf) (data : Bytes) : Prop where
  head : r.headOffset = data.length
  tail_le : r.ctailOffset ≤ r.headOffset
  fits : r.headOffset ≤ r.ctailOffset + r.alloc
  bound : r.headOffset ≤ maxOffset
  byte : ∀ n, r.ctailOffset ≤ n → n < r.headOffset → r.start[n % r.alloc]? = data[n]?

theorem holds_init : Holds ringBufInit [] :=
  ⟨rfl, Nat.le_refl _, Nat.le_refl _, by decide, fun n h1 h2 => absurd h2 (by simp [ringBufInit])⟩

section
variable {r : RingBuf} {data : Bytes}

theorem Holds.used_le (h : Holds r data) : ringBufUsed r ≤ r.alloc := by
  have := h.fits
  unfold ringBufUsed
  omega

/-- One `memcpy` of a push: a piece that fits and does not go over the end of the block. -/
theorem Holds.append_piece (h : Holds r data) (piece : Bytes)
    (havail : piece.length ≤ ringBufAvail r) (hmax : piece.length ≤ maxOffset - r.headOffset)
    (hend : r.headOffset % r.alloc + piece.length ≤ r.alloc) :
    ∃ start, memcpy r.start (r.headOffset % r.alloc) piece = some start ∧
      Holds ⟨start, r.headOffset + piece.length, r.ctailOffset⟩ (data ++ piece) := by
  obtain ⟨start, hstart⟩ : ∃ start, memcpy r.start (r.headOffset % r.alloc) piece = some start :=
    ⟨_, if_pos hend⟩
  have hlen : start.length = r.alloc := length_memcpy hstart
  have hused := h.used_le
  have htail := h.tail_le
  have hbound := h.bound
  unfold ringBufAvail ringBufUsed at *
  refine ⟨start, hstart, ?_, ?_, ?_, ?_, ?_⟩
  · rw [List.length_append, ← h.head]
  · simp only
    omega
  · simp only [RingBuf.alloc, hlen]
    unfold RingBuf.alloc at *
    omega
  · simp only
    omega
  · intro n hn1 hn2
    simp only at hn1 hn2
    simp only [RingBuf.alloc] at hlen ⊢
    rw [hlen, getElem?_memcpy hstart]
    unfold RingBuf.alloc at *
    rcases Nat.lt_or_ge n r.headOffset with hn | hn
    · -- an old byte: its place is not among those written
      rw [List.getElem?_append_left (by rw [← h.head]; exact hn), ← h.byte n hn1 hn]
      refine if_neg fun hin => ?_
      obtain ⟨j, hj⟩ : ∃ j, n % r.start.length = r.headOffset % r.start.length + j :=
        ⟨n % r.start.length - r.headOffset % r.start.length, by omega⟩
      have hjlt : j < piece.length := by omega
      have hmod : (r.headOffset + j) % r.start.length = r.headOffset % r.start.length + j :=
        add_mod_eq (by omega)
      have := eq_of_mod_eq (hj.trans hmod.symm) (by omega) (by omega)
      omega
    · -- a new byte
      obtain ⟨j, rfl⟩ : ∃ j, n = r.headOffset + j := ⟨n - r.headOffset, by omega⟩
      rw [add_mod_eq (by omega), if_pos (by omega),
        List.getElem?_append_right (by rw [← h.head]; omega), ← h.head]
      congr 1
      omega

theorem length_pushable (r : RingBuf) (buf : Bytes) : (pushable r buf).length =
    min buf.length (min (ringBufAvail r) (maxOffset - r.headOffset)) := by
  rw [pushable, List.length_take, Nat.min_comm]

/-- **A push appends as much as there is room for.** -/
theorem push_spec {r : RingBuf} {data : Bytes} (h : Holds r data) (buf : Bytes) :
    ∃ r', ringBufPush r buf = some (r', (pushable r buf).length) ∧
      Holds r' (data ++ pushable r buf) ∧ r'.ctailOffset = r.ctailOffset ∧ r'.alloc = r.alloc := by
  rw [ringBufPush]
  split_ifs with hnil
  · refine ⟨r, ?_, ?_, rfl, rfl⟩
    · rw [hnil, List.length_nil]
    · rw [hnil, List.append_nil]
      exact h
  · have hpos := pieceLen_pos hnil
    have hlen := length_pushable r buf
    have hdec := length_drop_piece_lt hnil
    generalize hp : pushable r buf = p at hlen hdec hpos ⊢
    obtain ⟨l, hl⟩ : ∃ l, pieceLen r p = l := ⟨_, rfl⟩
    rw [hl] at hpos hdec ⊢
    have hle : l ≤ p.length ∧ l ≤ r.alloc - r.headOffset % r.alloc := by
      unfold pieceLen at hl
      omega
    have htake : (p.take l).length = l := by
      rw [List.length_take]
      omega
    obtain ⟨start, hcopy, hstart⟩ := h.append_piece (p.take l) (by omega) (by omega)
      (by omega)
    rw [htake] at hstart
    obtain ⟨r', hrest, hr', htail, halloc⟩ := push_spec hstart (p.drop l)
    have hslen : start.length = r.start.length := length_memcpy hcopy
    -- what is left fits into what is left of the room
    have hall : pushable ⟨start, r.headOffset + l, r.ctailOffset⟩ (p.drop l) = p.drop l := by
      refine List.take_of_length_le ?_
      have := h.used_le
      have := h.tail_le
      simp only [ringBufAvail, ringBufUsed, RingBuf.alloc, hslen, List.length_drop] at *
      omega
    rw [hall] at hrest hr'
    refine ⟨r', ?_, ?_, htail, halloc.trans hslen⟩
    · simp only [hcopy, Option.bind_some, hrest, Option.map_some, List.length_drop]
      rw [Nat.add_sub_cancel' hle.1]
    · rwa [List.append_assoc, List.take_append_drop] at hr'
termination_by buf.length

/-- **What `ring_buf_get_buf_at` points to is a piece of the stream**, and not empty before the
head. -/
theorem Holds.getBufAt_spec (h : Holds r data) {n : ℕ} (htail : r.ctailOffset ≤ n)
    (hhead : n ≤ r.headOffset) : ringBufGetBufAt r n =
      some ((data.drop n).take (min (r.headOffset - n) (r.alloc - n % r.alloc))) := by
  rw [ringBufGetBufAt, if_neg (by omega)]
  have hfits := h.fits
  split_ifs with halloc
  · rw [Nat.min_eq_zero_iff.mpr (Or.inl (by omega)), List.take_zero]
  · have hmod : n % r.alloc < r.alloc := Nat.mod_lt _ (Nat.pos_of_ne_zero halloc)
    refine congrArg some (List.ext_getElem? fun i => ?_)
    simp only [List.getElem?_take, List.getElem?_drop]
    split_ifs with hi
    · rw [← h.byte (n + i) (by omega) (by omega), add_mod_eq (by omega)]
    · rfl

/-- Overwriting places of culled offsets leaves what the buffer holds from `tail` on. -/
theorem cleansePart_spec {block : Bytes} (n l tail : ℕ) {head : ℕ} (hlen : block.length = r.alloc)
    (hl : n % r.alloc + l ≤ r.alloc) (hn : n + l ≤ tail) (hwindow : head ≤ n + r.alloc)
    (hbyte : ∀ k, tail ≤ k → k < head → block[k % r.alloc]? = data[k]?) :
    ∃ block', cleansePart block (n % r.alloc) l = some block' ∧ block'.length = r.alloc ∧
      ∀ k, tail ≤ k → k < head → block'[k % r.alloc]? = data[k]? := by
  obtain ⟨block', hblock⟩ : ∃ block', cleansePart block (n % r.alloc) l = some block' :=
    ⟨_, if_pos (by rw [List.length_replicate, hlen]; exact hl)⟩
  refine ⟨block', hblock, (length_memcpy hblock).trans hlen, fun k hk1 hk2 => ?_⟩
  rw [getElem?_memcpy hblock, List.length_replicate, ← hbyte k hk1 hk2]
  refine if_neg fun hin => ?_
  obtain ⟨j, hj⟩ : ∃ j, k % r.alloc = n % r.alloc + j := ⟨k % r.alloc - n % r.alloc, by omega⟩
  have hmod : (n + j) % r.alloc = n % r.alloc + j := add_mod_eq (by omega)
  have := eq_of_mod_eq (hj.trans hmod.symm) (by omega) (by omega)
  omega

theorem cleanseCulled_spec (h : Holds r data) (halloc : 0 < r.alloc) {last : ℕ}
    (hlast : last < r.headOffset) (htail : r.ctailOffset ≤ last) :
    ∃ block, cleanseCulled r last = some block ∧ block.length = r.alloc ∧
      ∀ k, last + 1 ≤ k → k < r.headOffset → block[k % r.alloc]? = data[k]? := by
  have hfits := h.fits
  have hmod : r.ctailOffset % r.alloc < r.alloc := Nat.mod_lt _ halloc
  have hbyte : ∀ k, last + 1 ≤ k → k < r.headOffset → r.start[k % r.alloc]? = data[k]? :=
    fun k hk1 hk2 => h.byte k (by omega) hk2
  unfold cleanseCulled
  rw [Nat.min_eq_left (by omega : last + 1 ≤ r.headOffset)]
  simp only
  split_ifs with hwrap hpos
  · -- up to the end of the block, and then from its beginning
    obtain ⟨b₁, h₁, hlen₁, hb₁⟩ := cleansePart_spec (r := r) r.ctailOffset
      (r.alloc - r.ctailOffset % r.alloc) (last + 1) rfl (by omega) (by omega)
      (by omega) hbyte
    have hzero := add_to_end_mod r.ctailOffset halloc
    obtain ⟨b₂, h₂, hlen₂, hb₂⟩ := cleansePart_spec (r := r)
      (r.ctailOffset + (r.alloc - r.ctailOffset % r.alloc))
      (last + 1 - r.ctailOffset - (r.alloc - r.ctailOffset % r.alloc)) (last + 1) hlen₁
      (by omega) (by omega) (by omega) hb₁
    rw [hzero] at h₂
    exact ⟨b₂, by rw [h₁, Option.bind_some, h₂], hlen₂, hb₂⟩
  · exact cleansePart_spec _ _ _ rfl (by omega) (by omega) (by omega) hbyte
  · exact ⟨r.start, rfl, rfl, hbyte⟩

theorem Holds.cull (h : Holds r data) {block : Bytes} {last : ℕ} (hlast : last < r.headOffset)
    (htail : r.ctailOffset ≤ last + 1) (hlen : block.length = r.alloc)
    (hbyte : ∀ k, last + 1 ≤ k → k < r.headOffset → block[k % r.alloc]? = data[k]?) :
    Holds ⟨block, max r.headOffset (last + 1), last + 1⟩ data := by
  have hfits := h.fits
  rw [Nat.max_eq_left (by omega : last + 1 ≤ r.headOffset)]
  refine ⟨h.head, hlast, ?_, h.bound, ?_⟩
  · show r.headOffset ≤ last + 1 + block.length
    omega
  · show ∀ k, last + 1 ≤ k → k < r.headOffset → block[k % block.length]? = data[k]?
    rw [hlen]
    exact hbyte

/-- **Culling leaves what is not culled.** -/
theorem cpopRange_spec (h : Holds r data) (start : ℕ) {last : ℕ} (cleanse : Bool)
    (hlast : last < r.headOffset) (htail : r.ctailOffset ≤ last + 1) :
    ∃ r', ringBufCpopRange r start last cleanse = some r' ∧ Holds r' data ∧ r'.alloc = r.alloc ∧
      r'.ctailOffset = if start ≤ r.ctailOffset then last + 1 else r.ctailOffset := by
  have hbound := h.bound
  unfold ringBufCpopRange
  by_cases hstart : start ≤ r.ctailOffset
  · rw [if_neg (by omega), if_pos hstart]
    by_cases hcleanse : cleanse = true ∧ r.alloc > 0 ∧ last > r.ctailOffset
    · obtain ⟨block, hblock, hlen, hbyte⟩ := cleanseCulled_spec h hcleanse.2.1 hlast (by omega)
      rw [if_pos hcleanse, hblock]
      exact ⟨_, rfl, h.cull hlast htail hlen hbyte, hlen, rfl⟩
    · rw [if_neg hcleanse]
      exact ⟨_, rfl, h.cull hlast htail rfl fun k hk1 hk2 => h.byte k (by omega) hk2, rfl, rfl⟩
  · rw [if_pos (by omega), if_neg hstart]
    exact ⟨r, rfl, h, rfl, rfl⟩

/-! ### Resizing -/

/-- The copy goes on until all is copied: what was copied is the stream up to there. -/
theorem resizeCopy_spec {r : RingBuf} {data : Bytes} (h : Holds r data) {rnew : RingBuf}
    (copied : ℕ) (hcopied : copied ≤ ringBufUsed r)
    (hnew : Holds rnew (data.take (r.ctailOffset + copied))) (hroom : ringBufUsed r ≤ rnew.alloc)
    (htail : rnew.ctailOffset = r.ctailOffset) :
    ∃ r', resizeCopy r rnew copied = some (some r') ∧ Holds r' data ∧ r'.alloc = rnew.alloc ∧
      r'.ctailOffset = r.ctailOffset := by
  obtain ⟨n, hn⟩ : ∃ n, r.ctailOffset + copied = n := ⟨_, rfl⟩
  have hused : ringBufUsed r = r.headOffset - r.ctailOffset := rfl
  have hhead := h.head
  have htl := h.tail_le
  have hbound := h.bound
  have hfits := h.fits
  have hnhead : rnew.headOffset = n := by
    rw [hnew.head, List.length_take]
    omega
  rw [resizeCopy]
  rw [hn] at hnew ⊢
  split
  · rename_i hnone
    rw [h.getBufAt_spec (by omega) (by omega)] at hnone
    cases hnone
  · rename_i src hsome
    have hsrc : (data.drop n).take (min (r.headOffset - n) (r.alloc - n % r.alloc)) = src := by
      rw [h.getBufAt_spec (by omega) (by omega)] at hsome
      exact Option.some.inj hsome
    have hslen : src.length = min (r.headOffset - n) (r.alloc - n % r.alloc) := by
      rw [← hsrc, List.length_take, List.length_drop]
      omega
    split_ifs with hnil
    · -- nothing is left
      have hall : data.length ≤ n := by
        rw [hnil, List.length_nil] at hslen
        rcases Nat.eq_zero_or_pos r.alloc with h0 | hpos
        · omega
        · have := Nat.mod_lt n hpos
          omega
      rw [List.take_of_length_le hall] at hnew
      exact ⟨rnew, rfl, hnew, rfl, htail⟩
    · have hpush : pushable rnew src = src := by
        refine List.take_of_length_le ?_
        unfold ringBufAvail ringBufUsed
        omega
      obtain ⟨r₁, hr₁, hholds, htail₁, halloc₁⟩ := push_spec hnew src
      rw [hpush] at hr₁ hholds
      have hdata : data.take n ++ src = data.take (r.ctailOffset + (copied + src.length)) := by
        rw [← Nat.add_assoc, hn, List.take_add, hslen, hsrc]
      rw [hdata] at hholds
      have hpos : 0 < src.length := List.length_pos_iff.mpr hnil
      obtain ⟨r', hr', hres⟩ := resizeCopy_spec h (copied + src.length) (by omega) hholds
        (by omega) (by omega)
      rw [halloc₁] at hres
      refine ⟨r', ?_, hres⟩
      rw [hr₁, Option.bind_some]
      simp only [↓reduceIte]
      exact hr'
termination_by r.headOffset - (r.ctailOffset + copied)

/-- **Resizing leaves what the buffer holds**, and it succeeds when the new size is enough and the
block is allocated. -/
theorem resize_spec (h : Holds r data) (numBytes : ℕ) (block : Option Bytes)
    (hblock : ∀ b ∈ block, b.length = numBytes) :
    ∃ r', ringBufResize r numBytes block = some (r',
        decide (numBytes = r.alloc ∨ (ringBufUsed r ≤ numBytes ∧ block.isSome))) ∧
      Holds r' data ∧ r'.ctailOffset = r.ctailOffset := by
  have hused := h.used_le
  have htl := h.tail_le
  have hhead := h.head
  have hbound := h.bound
  unfold ringBufResize
  split_ifs with hsame hsmall
  · exact ⟨r, by simp [hsame], h, rfl⟩
  · refine ⟨r, ?_, h, rfl⟩
    rw [decide_eq_false (by omega)]
  · cases block with
    | none => exact ⟨r, by simp [hsame], h, rfl⟩
    | some b =>
      have hb : b.length = numBytes := hblock b rfl
      have hctail : r.headOffset - ringBufUsed r = r.ctailOffset := by
        unfold ringBufUsed
        omega
      have hnew : Holds ⟨b, r.ctailOffset, r.ctailOffset⟩ (data.take (r.ctailOffset + 0)) := by
        refine ⟨?_, Nat.le_refl _, Nat.le_add_right _ _, by simp only; omega, ?_⟩
        · rw [List.length_take]
          simp only
          omega
        · intro n h1 h2
          simp only at h1 h2
          omega
      obtain ⟨r', hr', hholds, -, htail⟩ := resizeCopy_spec h 0 (Nat.zero_le _) hnew
        (by simp only [RingBuf.alloc]; omega) rfl
      simp only [hctail, hr', Option.map_some]
      refine ⟨⟨r'.start, r'.headOffset, r.ctailOffset⟩, ?_, ?_, rfl⟩
      · rw [decide_eq_true (Or.inr ⟨by omega, rfl⟩)]
      · rw [← htail]
        exact hholds

end

end PapQuic.Transport.RingBuffer
