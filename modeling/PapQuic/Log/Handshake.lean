import PapQuic.Log.Metadata

/-! # Reassembly of handshake messages in the packet log

`packet_log_append_handshake_bytes` of `ssl/quic/quic_debug.c` cuts the bytes of a CRYPTO frame into
TLS handshake messages. A message whose body does not end in the frame is kept in a
`PACKET_LOG_HS_STATE` until later frames bring the rest. The loop is modelled by what it does:
the list of its calls (`HsCall`) and the state it leaves. What the calls do to the metadata table,
the event mask and the printed text is in `runCall`.

* `hsStep`: one round of the loop.
* `hsStep_length`: a round that goes on has taken a byte, so as many rounds as bytes are enough
  (`hsLoop_of_le`). -/

namespace PapQuic.Log.Handshake

open Lib.Printf Wire.Packet Log.Names Log.Metadata

/-! ### The state of a partial message -/

/-- `PACKET_LOG_HS_STATE`. -/
structure PacketLogHsState where
  active : Bool
  hsType : UInt8
  remaining : ℕ
  buffer : Option Bytes
  totalLen : ℕ
  collected : ℕ
  deriving DecidableEq, Repr

/-- The state after `packet_log_reset_hs_state`, also that of a fresh process. -/
def resetHsState : PacketLogHsState := ⟨false, 0, 0, none, 0, 0⟩

/-- `packet_log_start_hs_message`. The buffer is zeroed; there is none when `alloc` says that
memory ran out. -/
def packetLogStartHsMessage (alloc : Bool) (hsType : UInt8) (totalLen : ℕ) : PacketLogHsState where
  active := 0 < totalLen
  hsType := hsType
  remaining := totalLen
  buffer := if totalLen = 0 ∨ alloc = false then none else some (List.replicate totalLen 0)
  totalLen := totalLen
  collected := 0

/-- The `memcpy` of `packet_log_append_hs_chunk`. -/
def copyInto (buffer : Bytes) (at_ : ℕ) (chunk : Bytes) : Bytes :=
  buffer.take at_ ++ chunk ++ buffer.drop (at_ + chunk.length)

/-- `packet_log_append_hs_chunk`. -/
def packetLogAppendHsChunk (st : PacketLogHsState) (chunk : Bytes) : PacketLogHsState :=
  if chunk = [] then st
  else
    { st with
      buffer := st.buffer.map fun b =>
        if st.collected + chunk.length ≤ st.totalLen then copyInto b st.collected chunk else b
      collected := st.collected + chunk.length
      remaining := st.remaining - chunk.length
      active := 0 < st.remaining - chunk.length }

/-! ### The loop -/

/-- What the loop calls. -/
inductive HsCall
  /-- `packet_log_process_handshake_message`. -/
  | process (hsType : UInt8) (body : Bytes)
  /-- The type's bit is set in the event mask. -/
  | event (hsType : UInt8)
  /-- `packet_log_emit_handshake_fragment`, with the note of `packet_log_select_note` or none. -/
  | fragment (hsType : UInt8) (noted : Bool)
  /-- `HANDSHAKE-DATA` is printed. -/
  | handshakeData
  deriving DecidableEq, Repr

/-- The calls of `packet_log_finish_hs_message`, which then resets the state. -/
def packetLogFinishHsMessage (st : PacketLogHsState) : List HsCall :=
  match st.buffer with
  | some body =>
    if st.totalLen = st.collected then [.process st.hsType body, .event st.hsType]
    else [.event st.hsType]
  | none => [.event st.hsType]

/-- After a chunk: a message that is complete is finished and the loop goes on with `rest`; one that
is not is printed without a note and the loop ends. -/
def afterChunk (st : PacketLogHsState) (rest : Bytes) :
    List HsCall × PacketLogHsState × Option Bytes :=
  if st.active then ([.fragment st.hsType false], st, none)
  else (packetLogFinishHsMessage st ++ [.fragment st.hsType true], resetHsState, some rest)

/-- One round of the loop on the bytes from `offset` on: the calls, the state, and the bytes the
next round starts from unless the loop ends here. -/
def hsStep (alloc : Bool) (st : PacketLogHsState) (data : Bytes) :
    List HsCall × PacketLogHsState × Option Bytes :=
  if st.active then
    let chunk := min data.length st.remaining
    afterChunk (packetLogAppendHsChunk st (data.take chunk)) (data.drop chunk)
  else
    match data with
    | hsType :: b1 :: b2 :: b3 :: data =>
      let msgLen := netOrder [b1, b2, b3]
      if msgLen ≤ data.length then
        ([.process hsType (data.take msgLen), .event hsType, .fragment hsType true], st,
          some (data.drop msgLen))
      else afterChunk (packetLogAppendHsChunk (packetLogStartHsMessage alloc hsType msgLen) data) []
    | _ => ([.handshakeData], st, none)

/-- The loop, for at most the given number of rounds. -/
def hsLoop (alloc : Bool) : ℕ → PacketLogHsState → Bytes → List HsCall × PacketLogHsState
  | 0, st, _ => ([], st)
  | _ + 1, st, [] => ([], st)
  | n + 1, st, data =>
    match hsStep alloc st data with
    | (calls, st, none) => (calls, st)
    | (calls, st, some rest) => (calls ++ (hsLoop alloc n st rest).1, (hsLoop alloc n st rest).2)

/-- `packet_log_append_handshake_bytes`. -/
def packetLogAppendHandshakeBytes (alloc : Bool) (st : PacketLogHsState) (data : Bytes) :
    List HsCall × PacketLogHsState :=
  hsLoop alloc data.length st data

/-! ### Rounds and bytes -/

theorem afterChunk_rest {st st' : PacketLogHsState} {rest rest' : Bytes} {calls : List HsCall}
    (h : afterChunk st rest = (calls, st', some rest')) : st.active = false ∧ rest' = rest := by
  unfold afterChunk at h
  split_ifs at h with ha
  · simp at h
  · simp only [Prod.mk.injEq, Option.some.injEq] at h
    exact ⟨by simpa using ha, h.2.2.symm⟩

@[simp] theorem packetLogAppendHsChunk_nil (st : PacketLogHsState) :
    packetLogAppendHsChunk st [] = st := by
  simp [packetLogAppendHsChunk]

/-- A round that goes on has taken at least one byte. -/
theorem hsStep_length {alloc : Bool} {st st' : PacketLogHsState} {data rest : Bytes}
    {calls : List HsCall} (hd : data ≠ [])
    (h : hsStep alloc st data = (calls, st', some rest)) : rest.length < data.length := by
  have hpos : 0 < data.length := List.length_pos_iff.mpr hd
  unfold hsStep at h
  split_ifs at h with ha
  · obtain ⟨hact, rfl⟩ := afterChunk_rest h
    -- an active state that waits for no byte stays active, so the chunk is not empty
    have hr : st.remaining ≠ 0 := by
      intro h0
      simp [h0, ha] at hact
    rw [List.length_drop]
    omega
  · split at h
    · simp only at h
      split_ifs at h with hl
      · simp only [Prod.mk.injEq, Option.some.injEq] at h
        rw [← h.2.2]
        simp only [List.length_drop, List.length_cons]
        omega
      · obtain ⟨-, rfl⟩ := afterChunk_rest h
        simp
    · simp at h

/-- As many rounds as bytes are enough. -/
theorem hsLoop_of_le (alloc : Bool) : ∀ (n : ℕ) (st : PacketLogHsState) (data : Bytes),
    data.length ≤ n → hsLoop alloc n st data = packetLogAppendHandshakeBytes alloc st data := by
  intro n
  induction n using Nat.strongRecOn with
  | ind n ih =>
    intro st data hn
    match data, n with
    | [], 0 => rfl
    | [], _ + 1 => rfl
    | b :: data, n + 1 =>
      rw [packetLogAppendHandshakeBytes, List.length_cons, hsLoop, hsLoop]
      · rcases hs : hsStep alloc st (b :: data) with ⟨calls, st', _ | rest⟩
        · rfl
        · have hl := hsStep_length (by simp) hs
          rw [List.length_cons] at hl hn
          have e1 := ih n (by omega) st' rest (by omega)
          have e2 := ih data.length (by omega) st' rest (by omega)
          simp only [e1, e2]
      all_goals simp

/-- The loop, one round at a time. -/
theorem appendHandshakeBytes_eq {alloc : Bool} {st : PacketLogHsState} {data : Bytes}
    (hd : data ≠ []) :
    packetLogAppendHandshakeBytes alloc st data =
      match hsStep alloc st data with
      | (calls, st, none) => (calls, st)
      | (calls, st, some rest) =>
        (calls ++ (packetLogAppendHandshakeBytes alloc st rest).1,
          (packetLogAppendHandshakeBytes alloc st rest).2) := by
  obtain ⟨b, data, rfl⟩ := List.exists_cons_of_ne_nil hd
  rw [packetLogAppendHandshakeBytes, List.length_cons, hsLoop]
  · rcases hs : hsStep alloc st (b :: data) with ⟨calls, st', _ | rest⟩
    · rfl
    · have hl := hsStep_length (by simp) hs
      rw [List.length_cons] at hl
      simp only [hsLoop_of_le alloc data.length st' rest (by omega)]
  · simp

@[simp] theorem appendHandshakeBytes_nil (alloc : Bool) (st : PacketLogHsState) :
    packetLogAppendHandshakeBytes alloc st [] = ([], st) := rfl

/-! ### What the calls do -/

/-- `packet_log_event_mask_for_type`. -/
def packetLogEventMaskForType (hsType : UInt8) : ℕ :=
  match hsType with
  | 1 => 0x01
  | 2 => 0x02
  | 8 => 0x04
  | 11 => 0x08
  | 15 => 0x10
  | 20 => 0x20
  | _ => 0

/-- The annotation a slot of the metadata table gives: the packet note, or for a Certificate or a
CertificateVerify the detail. -/
def slotNote (tls : TlsMetadata) (hsType : UInt8) : Option Text :=
  (tls hsType).packetNote.or
    (if hsType = 11 ∨ hsType = 15 then (tls hsType).detail else none)

theorem slotNote_record (tls : TlsMetadata) (t : UInt8) (r : TlsHandshakeMetadata) :
    slotNote (packetLogRecordMetadata tls t r) t =
      ((r.packetNote.map (strlcpy 256)).or (tls t).packetNote).or
        (if t = 11 ∨ t = 15 then (r.detail.map (strlcpy 512)).or (tls t).detail else none) := by
  simp [slotNote, packetLogRecordMetadata]

/-- `packet_log_select_note`, into a buffer of 256 bytes. -/
def packetLogSelectNote (tls : TlsMetadata) (hsType : UInt8) : Option Text :=
  (slotNote tls hsType).map (strlcpy 256)

/-- The text of `packet_log_emit_handshake_fragment`, without the separator. A fragment printed with
no note of its own takes the annotation its slot has. -/
def packetLogEmitHandshakeFragment (tls : TlsMetadata) (hsType : UInt8)
    (noteOverride : Option Text) : Text :=
  let name := tlsHandshakeFragmentName hsType
  match noteOverride.or (slotNote tls hsType), (tls hsType).label with
  | some annotation, _ => name ++ "(".toList ++ annotation ++ ")".toList
  | none, some label => name ++ "[".toList ++ label ++ "]".toList
  | none, none =>
    if name = "UNKNOWN".toList then "UNKNOWN(0x".toList ++ hexPad 2 hsType.toNat ++ ")".toList
    else name

/-- The metadata table, the event mask and the fragments printed so far. -/
structure HsOut where
  tls : TlsMetadata
  mask : ℕ
  fragments : List Text

/-- The effect of a call. -/
def runCall (lib : X509Lib) (o : HsOut) : HsCall → HsOut
  | .process hsType body => { o with tls := packetLogProcessHandshakeMessage lib o.tls hsType body }
  | .event hsType => { o with mask := o.mask ||| packetLogEventMaskForType hsType }
  | .fragment hsType noted =>
    let note := if noted then packetLogSelectNote o.tls hsType else none
    { o with fragments := o.fragments ++ [packetLogEmitHandshakeFragment o.tls hsType note] }
  | .handshakeData => { o with fragments := o.fragments ++ ["HANDSHAKE-DATA".toList] }

/-- The effect of a list of calls. -/
def runCalls (lib : X509Lib) (o : HsOut) (calls : List HsCall) : HsOut :=
  calls.foldl (runCall lib) o

end PapQuic.Log.Handshake
