import PapQuic.Log.Isolation
import PapQuic.Log.Retransmission

/-! # Where annotations come from

The log reads the annotation of a handshake message from `g_tls_metadata`, which has one slot for
each message type and keeps what was recorded there last. So a fragment shows the annotation of an
earlier message of its type when it is printed before its own message is complete, when its own
message could not be parsed, and when its message is an empty Certificate after one that was not
empty.

The frames of a connection are slices of the handshake streams of its directions and levels. As long
as each frame goes on where the log is (`Fits`), the annotations are right exactly when none of the
three happens (`annotations_right_iff`). -/

namespace PapQuic.Log.Provenance

open Lib.Printf Lib.Run Wire.Packet Wire.Frames Log.Metadata Log.Handshake Log.FrameList
open Log.Stream Log.Reassembly Log.Retransmission Log.Isolation Log.Notes

/-! ### The messages of a frame -/

/-- The messages that end within the first `n` bytes of their stream. -/
def ended : List HsMessage → ℕ → List HsMessage
  | [], _ => []
  | m :: msgs, n =>
    if m.encode.length ≤ n then m :: ended msgs (n - m.encode.length) else []

/-- A message of which bytes are in a frame: its last byte too (`complete`), or not. -/
structure Piece where
  message : HsMessage
  complete : Bool

/-- The messages in the data at an offset of the stream: those that end in it, and one whose body
goes on after it. -/
def pieces (msgs : List HsMessage) (offset : ℕ) (data : Bytes) : List Piece :=
  let after := ended msgs (offset + data.length)
  (after.drop (ended msgs offset).length).map (Piece.mk · true) ++
    if data ≠ [] ∧ (stream after).length + 4 ≤ offset + data.length then
      ((msgs.drop after.length).head?.map (Piece.mk · false)).toList
    else []

theorem length_encode (m : HsMessage) : m.encode.length = 4 + m.body.length := by
  rw [HsMessage.encode, List.length_append, length_header]

theorem ended_append {todo : List HsMessage} {x : ℕ} (h : ∀ m ∈ todo.head?, x < m.encode.length) :
    ∀ done : List HsMessage, ended (done ++ todo) ((stream done).length + x) = done
  | [] => by
    cases todo with
    | nil => rfl
    | cons m todo =>
      have hm : x < m.encode.length := h m rfl
      rw [List.nil_append, ended, if_neg (by simp; omega)]
  | m :: done => by
    have hlen : (stream (m :: done)).length + x - m.encode.length = (stream done).length + x := by
      rw [length_stream_cons, length_encode]
      omega
    rw [List.cons_append, ended, if_pos (by rw [length_stream_cons, length_encode]; omega), hlen,
      ended_append h done]

/-- A log in step with the stream has processed the messages that have ended. -/
theorem ended_of_sync {st : PacketLogHsState} {done todo : List HsMessage} {n : ℕ}
    (h : Sync st done todo n) : ended (done ++ todo) n = done := by
  cases h with
  | between hst =>
    refine ended_append (x := 0) (fun m _ => ?_) done
    rw [length_encode]
    omega
  | @within m _ todo k hk =>
    rw [Nat.add_assoc]
    refine ended_append (fun m' hm' => ?_) done
    obtain rfl : m = m' := by simpa using hm'
    rw [length_encode]
    omega

/-- The calls for a piece. -/
def Piece.calls (p : Piece) : List HsCall :=
  if p.complete then p.message.calls else [.fragment p.message.hsType false]

theorem pieces_nil (msgs : List HsMessage) (offset : ℕ) : pieces msgs offset [] = [] := by
  simp [pieces]

theorem flatMap_calls_complete (d : List HsMessage) :
    (d.map (Piece.mk · true)).flatMap Piece.calls = callsOf d := by
  rw [List.flatMap_map]
  rfl

/-- The pieces of a frame after whose first messages, `e`, the loop starts between two messages. -/
theorem pieces_of_ends {c : Chunk} {st : PacketLogHsState} {done e d todo : List HsMessage} {o : ℕ}
    {ch : Bytes} {r : List HsCall × PacketLogHsState} (hne : c.data ≠ [])
    (hbefore : ended (done ++ (e ++ (d ++ todo))) o = done)
    (hlen : o + c.data.length = (stream (done ++ e)).length + ch.length)
    (hgood : ¬ BadChunk (done ++ (e ++ (d ++ todo))) o c) (h : Ends c.alloc st d todo ch r) :
    (pieces (done ++ (e ++ (d ++ todo))) o c.data).flatMap Piece.calls = callsOf e ++ r.1 := by
  have hassoc : ∀ todo, done ++ (e ++ (d ++ todo)) = done ++ e ++ d ++ todo := by simp
  have hdrop : (done ++ e ++ d).drop done.length = e ++ d := by simp
  have hcalls : callsOf (e ++ d) = callsOf e ++ callsOf d := by simp [callsOf]
  rw [hassoc] at hbefore hgood ⊢
  cases h with
  | between =>
    have hend : o + c.data.length = (stream (done ++ e ++ d)).length + 0 := by
      rw [hlen, length_stream_append (done ++ e), Nat.add_zero]
    have hafter : ended (done ++ e ++ d ++ todo) (o + c.data.length) = done ++ e ++ d := by
      rw [hend]
      exact ended_append (fun m _ => by rw [length_encode]; omega) _
    have hcut : ¬ (c.data ≠ [] ∧ (stream (done ++ e ++ d)).length + 4 ≤ o + c.data.length) := by
      omega
    rw [pieces, hbefore, hafter, hdrop, if_neg hcut, List.append_nil,
      flatMap_calls_complete, hcalls]
  | @within m todo k hk =>
    have hend : o + c.data.length = (stream (done ++ e ++ d)).length + (4 + k) := by
      rw [hlen, length_stream_append (done ++ e)]
      simp only [List.length_append, length_header, List.length_take]
      omega
    have hafter : ended (done ++ e ++ d ++ m :: todo) (o + c.data.length) = done ++ e ++ d := by
      rw [hend]
      refine ended_append (fun m' hm' => ?_) _
      obtain rfl : m = m' := by simpa using hm'
      rw [length_encode]
      omega
    have hcut : c.data ≠ [] ∧ (stream (done ++ e ++ d)).length + 4 ≤ o + c.data.length :=
      ⟨hne, by omega⟩
    rw [pieces, hbefore, hafter, hdrop, if_pos hcut, List.drop_left, List.flatMap_append,
      flatMap_calls_complete, hcalls, List.append_assoc]
    rfl
  | @header m todo h hpos hlt =>
    refine absurd ⟨done ++ e ++ d, m, todo, rfl, .inl ⟨?_, ?_⟩⟩ hgood
    all_goals
      rw [length_stream_append (done ++ e)]
      rw [List.length_append] at hlen
      omega

/-- **The calls for a frame that goes on where the log is** are those of its pieces. -/
theorem appendHandshakeBytes_calls {st : PacketLogHsState} {done todo : List HsMessage} {o : ℕ}
    {c : Chunk} {tail : Bytes} (hs : Sync st done todo o)
    (hc : (stream (done ++ todo)).drop o = c.data ++ tail)
    (hgood : ¬ BadChunk (done ++ todo) o c) :
    (packetLogAppendHandshakeBytes c.alloc st c.data).1 =
      (pieces (done ++ todo) o c.data).flatMap Piece.calls := by
  have hbefore := ended_of_sync hs
  by_cases hne : c.data = []
  · rw [hne, pieces_nil]
    rfl
  rw [stream_append] at hc
  cases hs with
  | between hst =>
    rw [List.drop_left] at hc
    obtain ⟨d, todo', rfl, he⟩ := feed_between c.alloc hst todo c.data tail hc
    exact (pieces_of_ends (e := []) hne hbefore (by simp) hgood he).symm
  | @within m _ todo k hk =>
    rw [Nat.add_assoc, ← List.drop_drop, List.drop_left, stream_cons, ← length_header m,
      ← List.drop_drop, List.drop_left, List.drop_append_of_le_length hk.le] at hc
    rcases feed_within c.alloc m hk todo hne hc with
      ⟨hl, hr⟩ | ⟨ch, d, todo', hcd, rfl, r, he, hr⟩
    · -- the message goes on after the frame
      have hend : (stream done).length + 4 + k + c.data.length =
          (stream done).length + (4 + (k + c.data.length)) := by omega
      have hafter : ended (done ++ m :: todo) ((stream done).length + 4 + k + c.data.length) =
          done := by
        rw [hend]
        refine ended_append (fun m' hm' => ?_) _
        obtain rfl : m = m' := by simpa using hm'
        rw [length_encode]
        omega
      have hcut : c.data ≠ [] ∧
          (stream done).length + 4 ≤ (stream done).length + 4 + k + c.data.length :=
        ⟨hne, by omega⟩
      rw [hr, pieces, hbefore, hafter, if_pos hcut, List.drop_left]
      simp [Piece.calls]
    · -- the message ends in the frame
      have hlen := congrArg List.length hcd
      rw [List.length_append, List.length_drop] at hlen
      have hdone : (stream (done ++ [m])).length = (stream done).length + 4 + m.body.length := by
        rw [length_stream_append, length_stream_cons, stream_nil, List.length_nil]
        omega
      have hpieces := pieces_of_ends (e := [m]) hne hbefore (by omega) hgood he
      rw [hr]
      simpa using hpieces.symm

/-! ### Annotations -/

/-- The type and the annotation of a fragment that a call prints. -/
def annotationOf (o : HsOut) : HsCall → List (UInt8 × Option Text)
  | .fragment t noted =>
    [(t, (if noted then packetLogSelectNote o.tls t else none).or (slotNote o.tls t))]
  | _ => []

/-- The annotations that the calls print, `none` for a fragment without one. -/
def annotations (lib : X509Lib) (tls : TlsMetadata) (calls : List HsCall) :
    List (UInt8 × Option Text) :=
  outputs (runCall lib) annotationOf ⟨tls, 0, []⟩ calls

variable {lib : X509Lib}

/-- **What is printed are the annotations**, each with the name of its message. -/
theorem fragments_runCalls {o : HsOut} (h : Annotated (fun _ => True) o.tls) {calls : List HsCall}
    (hno : HsCall.handshakeData ∉ calls) :
    (runCalls lib o calls).fragments = o.fragments ++
      (outputs (runCall lib) annotationOf o calls).map fun a => fragmentText a.1 a.2 := by
  induction calls generalizing o with
  | nil => simp [runCalls, outputs]
  | cons call calls ih =>
    obtain ⟨hcall, hno⟩ := not_or.mp (mt List.mem_cons.mpr hno)
    have htls : Annotated (fun _ => True) (runCall lib o call).tls := by
      cases call with
      | process t body => exact annotated_process (namesOf_true lib) h t body
      | event | fragment | handshakeData => exact h
    refine (ih htls hno).trans ?_
    rw [outputs, List.map_append, ← List.append_assoc]
    congr 1
    cases call with
    | process | event => exact (List.append_nil _).symm
    | fragment t noted =>
      simp only [runCall, annotationOf, List.map_cons, List.map_nil, emit_eq h,
        select_or_slotNote h.noted]
    | handshakeData => exact absurd rfl hcall

/-- The annotation that is computed from the body of a message, if there is one: what the message
would be printed with by a process that has logged nothing else. -/
def ownNote (lib : X509Lib) (m : HsMessage) : Option Text :=
  packetLogSelectNote (packetLogProcessHandshakeMessage lib noMetadata m.hsType m.body) m.hsType

/-- The table after a piece. -/
def record (lib : X509Lib) (tls : TlsMetadata) (p : Piece) : TlsMetadata :=
  if p.complete then packetLogProcessHandshakeMessage lib tls p.message.hsType p.message.body
  else tls

/-- The annotation a piece is printed with. -/
def Piece.annotation (lib : X509Lib) (tls : TlsMetadata) (p : Piece) : Option Text :=
  (if p.complete then packetLogSelectNote (record lib tls p) p.message.hsType else none).or
    (slotNote (record lib tls p) p.message.hsType)

/-- An annotation that may be printed for a piece: none, or its own once it is complete. -/
def Owns (lib : X509Lib) (p : Piece) (a : Option Text) : Prop :=
  a = none ∨ p.complete = true ∧ a = ownNote lib p.message

theorem outputs_mask_fragments (lib : X509Lib) (tls : TlsMetadata) (mask mask' : ℕ)
    (fragments fragments' : List Text) (calls : List HsCall) :
    outputs (runCall lib) annotationOf ⟨tls, mask, fragments⟩ calls =
      outputs (runCall lib) annotationOf ⟨tls, mask', fragments'⟩ calls := by
  induction calls generalizing tls mask mask' fragments fragments' with
  | nil => rfl
  | cons call calls ih =>
    rw [outputs, outputs]
    cases call with
    | process t body | event t | handshakeData => exact congrArg _ (ih _ _ _ _ _)
    | fragment t noted => exact congrArg _ (ih _ _ _ _ _)

/-- A piece prints one annotation, and the rest is printed from the table after it. -/
theorem annotations_piece (lib : X509Lib) (tls : TlsMetadata) (p : Piece) (calls : List HsCall) :
    annotations lib tls (p.calls ++ calls) =
      (p.message.hsType, p.annotation lib tls) :: annotations lib (record lib tls p) calls := by
  obtain ⟨m, complete⟩ := p
  have hrest := outputs_mask_fragments lib (record lib tls ⟨m, complete⟩)
  cases complete with
  | false => exact congrArg (List.cons _) (hrest _ _ _ _ calls)
  | true => exact congrArg (List.cons _) (hrest _ _ _ _ calls)

/-- The annotations of a sequence of pieces are right when that of each is. -/
theorem forall_annotations_iff (lib : X509Lib) (tls : TlsMetadata) (ps : List Piece) :
    List.Forall₂ (fun p a => a.1 = p.message.hsType ∧ Owns lib p a.2) ps
        (annotations lib tls (ps.flatMap Piece.calls)) ↔
      AllMeet (record lib) (fun tls p => Owns lib p (p.annotation lib tls)) tls ps := by
  induction ps generalizing tls with
  | nil => exact iff_of_true .nil trivial
  | cons p ps ih =>
    rw [List.flatMap_cons, annotations_piece, List.forall₂_cons, ih, AllMeet]
    exact and_congr (and_iff_right rfl) Iff.rfl

theorem tls_runCalls_pieces (lib : X509Lib) (ps : List Piece) (o : HsOut) :
    (runCalls lib o (ps.flatMap Piece.calls)).tls = run (record lib) o.tls ps := by
  induction ps generalizing o with
  | nil => rfl
  | cons p ps ih =>
    rw [List.flatMap_cons, runCalls, List.foldl_append, run_cons]
    refine (ih _).trans ?_
    obtain ⟨m, _ | _⟩ := p <;> rfl

/-! ### The table and the messages before -/

/-- The messages of a type that are complete. -/
def completed (ps : List Piece) (t : UInt8) : List HsMessage :=
  (ps.filter fun p => p.complete && p.message.hsType == t).map Piece.message

theorem forall_completed_concat {ps : List Piece} {p : Piece} {t : UInt8} {P : HsMessage → Prop} :
    (∀ m ∈ completed (ps ++ [p]) t, P m) ↔
      (∀ m ∈ completed ps t, P m) ∧ (p.complete = true → p.message.hsType = t → P p.message) := by
  unfold completed
  rw [List.filter_append, List.map_append, List.forall_mem_append]
  refine and_congr_right fun _ => ?_
  cases hc : p.complete <;> by_cases ht : p.message.hsType = t <;> simp [hc, ht]

/-- The notes of the slots, by the messages that were recorded. -/
structure Holds (lib : X509Lib) (tls : TlsMetadata) (ps : List Piece) : Prop where
  packetNote : ∀ t, (tls t).packetNote = none ↔ ∀ m ∈ completed ps t, parsedNote lib m = none
  slotNote : ∀ t, slotNote tls t = none ↔ ∀ m ∈ completed ps t, ownNote lib m = none
  leafSig : ∀ x, (tls 11).packetNote = some x → x.head? = some 'L'

theorem holds_init (lib : X509Lib) : Holds lib noMetadata [] where
  packetNote t := iff_of_true rfl (by simp [completed])
  slotNote t := iff_of_true (by simp [Handshake.slotNote, noMetadata]) (by simp [completed])
  leafSig x h := by cases h

/-- A Certificate is parsed to a note about its leaf, unless it is empty. -/
theorem parseCertificate_cases {body : Bytes} {r : TlsHandshakeMetadata}
    (h : parseHandshakeMessage lib 11 body = some r) :
    r.packetNote = none ∧ r.detail = some "Empty certificate list".toList ∨
      ∃ rest, r.packetNote = some ('L' :: rest) := by
  replace h : packetLogParseCertificate lib body = some r := h
  iterate 3 obtain ⟨_, -, h⟩ := Option.bind_eq_some_iff.mp h
  dsimp only at h
  split_ifs at h
  · cases h
    exact Or.inl ⟨rfl, rfl⟩
  · obtain ⟨_, -, h⟩ := Option.bind_eq_some_iff.mp h
    cases h
    exact Or.inr ⟨_, rfl⟩

theorem parseCertificateVerify_note {body : Bytes} {r : TlsHandshakeMetadata}
    (h : parseHandshakeMessage lib 15 body = some r) : r.packetNote ≠ none := by
  cases recorded_parse h with
  | plain _ hne => exact absurd (Or.inr rfl) hne
  | note => exact Option.some_ne_none _
  | detail _ h11 => cases h11

/-- Recording a message. -/
theorem holds_complete {tls : TlsMetadata} {ps : List Piece} (h : Holds lib tls ps)
    (m : HsMessage) : Holds lib (packetLogProcessHandshakeMessage lib tls m.hsType m.body)
      (ps ++ [⟨m, true⟩]) := by
  rcases hp : parseHandshakeMessage lib m.hsType m.body with _ | r
  · have hnote : parsedNote lib m = none := by rw [parsedNote, hp]; rfl
    have hown : ownNote lib m = none := by
      simp [ownNote, packetLogProcessHandshakeMessage, hp, packetLogSelectNote, Handshake.slotNote,
        noMetadata]
    simp only [packetLogProcessHandshakeMessage, hp]
    refine ⟨fun t => ?_, fun t => ?_, h.leafSig⟩
    · rw [h.packetNote t, forall_completed_concat]
      exact (and_iff_left fun _ _ => hnote).symm
    · rw [h.slotNote t, forall_completed_concat]
      exact (and_iff_left fun _ _ => hown).symm
  · have hnote : parsedNote lib m = r.packetNote := by rw [parsedNote, hp]; rfl
    have hown : ownNote lib m = none ↔ r.packetNote = none ∧
        (m.hsType = 11 ∨ m.hsType = 15 → r.detail = none) := by
      simp [ownNote, packetLogProcessHandshakeMessage, hp, packetLogSelectNote, Handshake.slotNote,
        noMetadata, packetLogRecordMetadata]
    simp only [packetLogProcessHandshakeMessage, hp]
    refine ⟨fun t => ?_, fun t => ?_, fun x hx => ?_⟩
    · rw [forall_completed_concat, ← h.packetNote, hnote]
      by_cases ht : m.hsType = t
      · subst ht
        simp [packetLogRecordMetadata, and_comm]
      · simp [packetLogRecordMetadata, ht, Ne.symm ht]
    · rw [forall_completed_concat, ← h.slotNote, hown]
      by_cases ht : m.hsType = t
      · subst ht
        simp only [Handshake.slotNote, packetLogRecordMetadata, Function.update_self,
          Option.or_eq_none_iff, Option.map_eq_none_iff, forall_const]
        by_cases h11 : m.hsType = 11 ∨ m.hsType = 15
        · simp only [h11, if_true, Option.or_eq_none_iff, Option.map_eq_none_iff, forall_const]
          tauto
        · simp [h11, and_comm]
      · simp [Handshake.slotNote, packetLogRecordMetadata, ht, Ne.symm ht]
    · by_cases ht : m.hsType = 11
      · rw [ht] at hp hx
        rw [packetLogRecordMetadata, Function.update_self] at hx
        rcases parseCertificate_cases hp with ⟨hnone, -⟩ | ⟨rest, hrest⟩
        · exact h.leafSig x (by simpa [hnone] using hx)
        · simp only [hrest, Option.map_some, Option.some_or, Option.some.injEq] at hx
          rw [← hx]
          rfl
      · rw [packetLogRecordMetadata, Function.update_of_ne (Ne.symm ht)] at hx
        exact h.leafSig x hx

/-- **One piece.** -/
theorem holds_record {tls : TlsMetadata} {ps : List Piece} (h : Holds lib tls ps) (p : Piece) :
    Holds lib (record lib tls p) (ps ++ [p]) := by
  obtain ⟨m, _ | _⟩ := p
  · refine ⟨fun t => ?_, fun t => ?_, h.leafSig⟩
    · rw [forall_completed_concat]
      exact (h.packetNote t).trans (and_iff_left (by simp)).symm
    · rw [forall_completed_concat]
      exact (h.slotNote t).trans (and_iff_left (by simp)).symm
  · exact holds_complete h m

/-! ### When an annotation is a message's own -/

/-- No earlier message of the type has an annotation; or the piece is complete and its message is
parsed to a note, or is an empty Certificate and no earlier one was parsed to a note. -/
def Unmixed (lib : X509Lib) (before : List Piece) (p : Piece) : Prop :=
  (∀ m ∈ completed before p.message.hsType, ownNote lib m = none) ∨
    p.complete = true ∧ ((parsedNote lib p.message).isSome = true ∨
      (ownNote lib p.message).isSome = true ∧
        ∀ m ∈ completed before p.message.hsType, parsedNote lib m = none)

/-- A note that is selected goes before the slot's. -/
theorem select_or (tls : TlsMetadata) (t : UInt8) :
    (packetLogSelectNote tls t).or (slotNote tls t) = packetLogSelectNote tls t := by
  unfold packetLogSelectNote
  cases slotNote tls t <;> rfl

/-- A Certificate or a CertificateVerify that is parsed, but not to a note, is a Certificate without
certificates; an older note of the slot then goes before its detail. -/
theorem slotNote_emptyCertificate {m : HsMessage} {r : TlsHandshakeMetadata}
    (ht : m.hsType = 11 ∨ m.hsType = 15) (hp : parseHandshakeMessage lib m.hsType m.body = some r)
    (hn : r.packetNote = none) :
    m.hsType = 11 ∧ ∀ tls, slotNote (packetLogProcessHandshakeMessage lib tls m.hsType m.body)
      m.hsType = (tls 11).packetNote.or (some "Empty certificate list".toList) := by
  have h11 : m.hsType = 11 := by
    rcases ht with h | h
    · exact h
    · rw [h] at hp
      exact absurd hn (parseCertificateVerify_note hp)
  have hdetail : r.detail = some "Empty certificate list".toList := by
    rw [h11] at hp
    rcases parseCertificate_cases hp with ⟨-, hd⟩ | ⟨_, hsome⟩
    · exact hd
    · rw [hn] at hsome
      cases hsome
  refine ⟨h11, fun tls => ?_⟩
  rw [packetLogProcessHandshakeMessage, hp]
  simp only [slotNote_record, hn, hdetail, h11, Option.map_none, Option.none_or]
  rfl

/-- The note about a leaf is not the one about an empty list. -/
theorem leafSig_ne_empty {x : Text} (h : x.head? = some 'L') :
    strlcpy 256 x ≠ "Empty certificate list".toList := by
  intro he
  obtain ⟨c, x, rfl⟩ := List.exists_cons_of_ne_nil (l := x) (by rintro rfl; cases h)
  obtain rfl : c = 'L' := Option.some.inj h
  exact absurd (List.cons.inj he).1 (by decide)

theorem owns_complete_iff {tls : TlsMetadata} {before : List Piece} (h : Holds lib tls before)
    (m : HsMessage) :
    Owns lib ⟨m, true⟩ (Piece.annotation lib tls ⟨m, true⟩) ↔ Unmixed lib before ⟨m, true⟩ := by
  have hann : Piece.annotation lib tls ⟨m, true⟩ =
      packetLogSelectNote (packetLogProcessHandshakeMessage lib tls m.hsType m.body) m.hsType :=
    select_or _ _
  unfold Owns Unmixed
  rw [hann, ← h.slotNote, ← h.packetNote]
  simp only [true_and]
  rcases hp : parseHandshakeMessage lib m.hsType m.body with _ | r
  · -- the message is not parsed: the slot is what it was
    have hnote : parsedNote lib m = none := by rw [parsedNote, hp]; rfl
    have hown : ownNote lib m = none := by
      simp [ownNote, packetLogProcessHandshakeMessage, hp, packetLogSelectNote, slotNote,
        noMetadata]
    simp [packetLogProcessHandshakeMessage, hp, hnote, hown, packetLogSelectNote]
  · have hnote : parsedNote lib m = r.packetNote := by rw [parsedNote, hp]; rfl
    rcases hn : r.packetNote with _ | n
    · by_cases h11 : m.hsType = 11 ∨ m.hsType = 15
      · obtain ⟨ht, hslot⟩ := slotNote_emptyCertificate h11 hp hn
        have hown : ownNote lib m = some "Empty certificate list".toList := by
          rw [ownNote, packetLogSelectNote, hslot]
          decide
        rw [hnote, hn, hown, packetLogSelectNote, hslot, ht]
        rcases hx : (tls 11).packetNote with _ | x
        · exact iff_of_true (Or.inr (by decide)) (Or.inr (Or.inr ⟨rfl, rfl⟩))
        · have hbusy : slotNote tls 11 ≠ none := by
            rw [slotNote, hx]
            exact Option.some_ne_none x
          refine iff_of_false ?_ (by simp [hbusy])
          rintro (hnone | hsome)
          · cases hnone
          · exact leafSig_ne_empty (h.leafSig x hx) (Option.some.inj hsome)
      · have hown : ownNote lib m = none := by
          simp [ownNote, packetLogProcessHandshakeMessage, hp, packetLogSelectNote, slotNote,
            noMetadata, packetLogRecordMetadata, hn, h11]
        simp [packetLogProcessHandshakeMessage, hp, hnote, hown, packetLogSelectNote, slotNote,
          packetLogRecordMetadata, hn, h11]
    · -- the message has a note of its own
      refine iff_of_true (Or.inr ?_) (Or.inr (Or.inl (by rw [hnote, hn]; rfl)))
      simp [ownNote, packetLogProcessHandshakeMessage, hp, packetLogSelectNote, slotNote,
        packetLogRecordMetadata, hn]

theorem owns_iff {tls : TlsMetadata} {before : List Piece} (h : Holds lib tls before) (p : Piece) :
    Owns lib p (p.annotation lib tls) ↔ Unmixed lib before p := by
  obtain ⟨m, _ | _⟩ := p
  · unfold Owns Unmixed
    rw [← h.slotNote]
    simp [Piece.annotation, record]
  · exact owns_complete_iff h m

/-! ### Runs -/

/-- A CRYPTO frame that is logged: the role, direction and level it belongs to, and whether memory
for a buffer is there then. -/
structure Logged where
  key : EventKey
  alloc : Bool
  frame : FrameCrypto

instance (key : EventKey) : Decidable (Reassembled key) := inferInstanceAs (Decidable (_ ∨ _))

/-- The log after a frame. -/
def step (lib : X509Lib) (s : LogState) (x : Logged) : LogState :=
  (packetLogAppendCryptoFragments lib x.alloc x.key ⟨0, s⟩ x.frame.data).2.log

section Run

/- The handshake messages of the connection, by role, direction and level. -/
variable (lib : X509Lib) (msgs : EventKey → List HsMessage)

/-- The pieces of a frame; the frames of the other levels are not looked into. -/
def piecesOf (x : Logged) : List Piece :=
  if Reassembled x.key then pieces (msgs x.key) x.frame.offset x.frame.data else []

/-- The frame goes on where the log is: it starts in the body of the message that the log has half
collected, behind what it has, or, when there is no such message, between two messages. It does not
end inside the four bytes of a header, and finds memory for a message that it starts and does not
end. -/
def Fits (s : LogState) (x : Logged) : Prop :=
  Reassembled x.key → x.frame.data = [] ∨ ∃ done todo, msgs x.key = done ++ todo ∧
    Sync (s.hsState x.key) done todo x.frame.offset ∧
    ¬ BadChunk (msgs x.key) x.frame.offset ⟨x.alloc, x.frame.data⟩

/-- The annotations printed for a frame: one for each message of which bytes are in the frame, and
it is none or computed from the body of that message when its last byte is in the frame, none
otherwise. -/
def AnnotationsRight (s : LogState) (x : Logged) : Prop :=
  Reassembled x.key → List.Forall₂ (fun p a => a.1 = p.message.hsType ∧ Owns lib p a.2)
    (piecesOf msgs x) (annotations lib s.tlsMetadata
      (packetLogAppendHandshakeBytes x.alloc (s.hsState x.key) x.frame.data).1)

/-- What is printed for a frame are its annotations. -/
def PrintsAnnotations (s : LogState) (x : Logged) : Prop :=
  Reassembled x.key →
    (packetLogAppendCryptoFragments lib x.alloc x.key ⟨0, s⟩ x.frame.data).1 =
      (annotations lib s.tlsMetadata
        (packetLogAppendHandshakeBytes x.alloc (s.hsState x.key) x.frame.data).1).map
          fun a => fragmentText a.1 a.2

variable {msgs}

theorem calls_of_fits {s : LogState} {x : Logged} (hkey : Reassembled x.key)
    (hslice : IsSlice (stream (msgs x.key)) x.frame) (h : Fits msgs s x) :
    (packetLogAppendHandshakeBytes x.alloc (s.hsState x.key) x.frame.data).1 =
      (piecesOf msgs x).flatMap Piece.calls := by
  rw [piecesOf, if_pos hkey]
  rcases h hkey with hnil | ⟨done, todo, hmsgs, hsync, hgood⟩
  · rw [hnil, pieces_nil]
    rfl
  · have hdata : (stream (done ++ todo)).drop x.frame.offset = x.frame.data ++
        ((stream (msgs x.key)).drop x.frame.offset).drop x.frame.data.length := by
      rw [← hmsgs]
      conv_lhs => rw [← List.take_append_drop x.frame.data.length (List.drop _ _), ← hslice.2]
    rw [hmsgs] at hgood ⊢
    exact appendHandshakeBytes_calls (c := ⟨x.alloc, x.frame.data⟩) hsync hdata hgood

theorem handshakeData_not_mem (ps : List Piece) :
    HsCall.handshakeData ∉ ps.flatMap Piece.calls := by
  intro hm
  obtain ⟨⟨m, complete⟩, -, hm⟩ := List.mem_flatMap.mp hm
  cases complete <;> simp [Piece.calls, HsMessage.calls] at hm

theorem printsAnnotations_of_fits {s : LogState} {x : Logged}
    (htls : Annotated (fun _ => True) s.tlsMetadata)
    (hslice : IsSlice (stream (msgs x.key)) x.frame) (h : Fits msgs s x) :
    PrintsAnnotations lib s x := by
  intro hkey
  have hno := handshakeData_not_mem (piecesOf msgs x)
  rw [← calls_of_fits hkey hslice h] at hno
  have hprint := @fragments_runCalls lib ⟨s.tlsMetadata, 0, []⟩ htls _ hno
  rcases hkey with hkey | hkey <;>
    simpa [packetLogAppendCryptoFragments, hkey, annotations] using hprint

theorem annotated_step {s : LogState} (h : Annotated (fun _ => True) s.tlsMetadata) (x : Logged) :
    Annotated (fun _ => True) (step lib s x).tlsMetadata :=
  ((kept_annotated (namesOf_true lib)).logFrame x.alloc x.key (s := ⟨0, s⟩) h 0
    (.crypto x.frame)).2

/-- What one frame does to the table. -/
theorem tls_step {s : LogState} {x : Logged} (hslice : IsSlice (stream (msgs x.key)) x.frame)
    (h : Fits msgs s x) :
    (step lib s x).tlsMetadata = run (record lib) s.tlsMetadata (piecesOf msgs x) := by
  by_cases hkey : Reassembled x.key
  · have hcalls := calls_of_fits hkey hslice h
    rw [← tls_runCalls_pieces lib _ ⟨s.tlsMetadata, 0, []⟩, ← hcalls]
    rcases hkey with hkey | hkey <;> simp [step, packetLogAppendCryptoFragments, hkey]
  · rw [piecesOf, if_neg hkey]
    have hlevel : x.key.encLevel = .zeroRtt ∨ x.key.encLevel = .oneRtt := by
      unfold Reassembled at hkey
      cases hl : x.key.encLevel <;> simp_all
    rcases hlevel with hl | hl <;> simp [step, packetLogAppendCryptoFragments, hl]

theorem annotationsRight_iff {s : LogState} {x : Logged}
    (hslice : IsSlice (stream (msgs x.key)) x.frame) (h : Fits msgs s x) :
    AnnotationsRight lib msgs s x ↔ AllMeet (record lib)
      (fun tls p => Owns lib p (p.annotation lib tls)) s.tlsMetadata (piecesOf msgs x) := by
  by_cases hkey : Reassembled x.key
  · rw [AnnotationsRight, calls_of_fits hkey hslice h, forall_annotations_iff]
    exact forall_prop_of_true hkey
  · refine iff_of_true (fun hk => absurd hk hkey) ?_
    rw [piecesOf, if_neg hkey]
    trivial

/-- The frames of a run and their pieces. -/
theorem allMeet_annotationsRight_iff : ∀ (frames : List Logged) (s : LogState),
    (∀ x ∈ frames, IsSlice (stream (msgs x.key)) x.frame) →
    AllMeet (step lib) (Fits msgs) s frames →
    (AllMeet (step lib) (AnnotationsRight lib msgs) s frames ↔
      AllMeet (record lib) (fun tls p => Owns lib p (p.annotation lib tls)) s.tlsMetadata
        (frames.flatMap (piecesOf msgs)))
  | [], _, _, _ => Iff.rfl
  | x :: frames, s, hslice, hfits => by
    obtain ⟨hx, hslice⟩ := List.forall_mem_cons.mp hslice
    have ih := allMeet_annotationsRight_iff frames (step lib s x) hslice hfits.2
    rw [List.flatMap_cons, allMeet_append, AllMeet, annotationsRight_iff lib hx hfits.1, ih,
      tls_step lib hx hfits.1]

theorem allMeet_printsAnnotations : ∀ (frames : List Logged) (s : LogState),
    Annotated (fun _ => True) s.tlsMetadata →
    (∀ x ∈ frames, IsSlice (stream (msgs x.key)) x.frame) →
    AllMeet (step lib) (Fits msgs) s frames → AllMeet (step lib) (PrintsAnnotations lib) s frames
  | [], _, _, _, _ => trivial
  | x :: frames, s, h, hslice, hfits => by
    obtain ⟨hx, hslice⟩ := List.forall_mem_cons.mp hslice
    exact ⟨printsAnnotations_of_fits lib h hx hfits.1,
      allMeet_printsAnnotations frames _ (annotated_step lib h x) hslice hfits.2⟩

/-- **Annotations and their messages.** In a run whose frames all go on where the log is, what is
printed are annotations, and every one is right exactly when no piece takes one of an earlier
message. -/
theorem annotations_right_iff (frames : List Logged)
    (hslice : ∀ x ∈ frames, IsSlice (stream (msgs x.key)) x.frame)
    (hfits : AllMeet (step lib) (Fits msgs) LogState.init frames) :
    AllMeet (step lib) (PrintsAnnotations lib) LogState.init frames ∧
    (AllMeet (step lib) (AnnotationsRight lib msgs) LogState.init frames ↔
      AllMeet (fun before p => before ++ [p]) (Unmixed lib) [] (frames.flatMap (piecesOf msgs))) :=
  ⟨allMeet_printsAnnotations lib frames _ (annotated_noMetadata _) hslice hfits,
    (allMeet_annotationsRight_iff lib frames _ hslice hfits).trans
      (allMeet_iff_of_rel (Holds lib) (fun _ _ p h => owns_iff h p)
        (fun _ _ p h => holds_record h p) _ (holds_init lib))⟩

end Run

/-! ### Two Certificates -/

/-- A Certificate with one certificate of one byte. -/
def oneCertificate : HsMessage := ⟨11, [0, 0, 0, 6, 0, 0, 1, 7, 0, 0], by decide⟩

/-- A Certificate with one certificate of two bytes. -/
def otherCertificate : HsMessage := ⟨11, [0, 0, 0, 7, 0, 0, 2, 7, 7, 0, 0], by decide⟩

/-- A Certificate without certificates. -/
def emptyCertificate : HsMessage := ⟨11, [0, 0, 0, 0], by decide⟩

/-- The messages of a client that receives the server's Certificate and answers with its own. -/
def clientAuth (own : HsMessage) (key : EventKey) : List HsMessage :=
  if key = ⟨false, false, .handshake⟩ then [oneCertificate]
  else if key = ⟨false, true, .handshake⟩ then [own]
  else []

/-- The server's Certificate. -/
def serverFrame : Logged := ⟨⟨false, false, .handshake⟩, true, ⟨0, oneCertificate.encode⟩⟩

/-- The log after it. -/
def afterServer : LogState := step noX509 LogState.init serverFrame

/-- The client's, or the first bytes of it. -/
def clientFrame (data : Bytes) : Logged := ⟨⟨false, true, .handshake⟩, true, ⟨0, data⟩⟩

/-- Two Certificates, each printed with its own annotation. -/
theorem annotations_right_iff_certificates :
    AllMeet (step noX509) (AnnotationsRight noX509 (clientAuth otherCertificate)) LogState.init
        [serverFrame, clientFrame otherCertificate.encode] ∧
      (packetLogAppendCryptoFragments noX509 true ⟨false, true, .handshake⟩ ⟨0, afterServer⟩
        otherCertificate.encode).1 = ["Certificate(LeafSig=UNKNOWN ,  Leaf=2B)".toList] := by
  have hgood : ∀ m : HsMessage, ¬ BadChunk ([m] ++ []) 0 ⟨true, m.encode⟩ := fun m =>
    not_bad_between (by simp [stream, HsMessage.encode])
  have hfits : AllMeet (step noX509) (Fits (clientAuth otherCertificate)) LogState.init
      [serverFrame, clientFrame otherCertificate.encode] :=
    ⟨fun _ => Or.inr ⟨[], [oneCertificate], rfl, .between rfl, hgood oneCertificate⟩,
      fun _ => Or.inr ⟨[], [otherCertificate], rfl, .between rfl, hgood otherCertificate⟩, trivial⟩
  obtain ⟨hprint, hright⟩ := annotations_right_iff noX509 _ (by decide) hfits
  refine ⟨hright.mpr ⟨Or.inl (by simp [completed]), Or.inr ⟨rfl, Or.inl ?_⟩, trivial⟩, ?_⟩
  · decide +kernel
  · exact (hprint.2.1 (Or.inr rfl)).trans (by decide +kernel)

/-- The client's empty Certificate is printed with the annotation of the server's, and so are the
first bytes of a Certificate that is not empty. -/
theorem annotations_of_other_certificate :
    ¬ AnnotationsRight noX509 (clientAuth emptyCertificate) afterServer
      (clientFrame emptyCertificate.encode) ∧
    ¬ AnnotationsRight noX509 (clientAuth oneCertificate) afterServer
      (clientFrame (oneCertificate.encode.take 8)) ∧
    (packetLogAppendCryptoFragments noX509 true ⟨false, true, .handshake⟩ ⟨0, afterServer⟩
        emptyCertificate.encode).1 = ["Certificate(LeafSig=UNKNOWN ,  Leaf=1B)".toList] ∧
    (packetLogAppendCryptoFragments noX509 true ⟨false, true, .handshake⟩ ⟨0, afterServer⟩
        (oneCertificate.encode.take 8)).1 = ["Certificate(LeafSig=UNKNOWN ,  Leaf=1B)".toList] ∧
    ownNote noX509 emptyCertificate = some "Empty certificate list".toList := by
  have howns : ∀ {p : Piece} {tls calls}, annotations noX509 tls calls =
      [(11, some "LeafSig=UNKNOWN ,  Leaf=1B".toList)] →
      (p.complete = true → ownNote noX509 p.message = some "Empty certificate list".toList) →
      ¬ List.Forall₂ (fun p a => a.1 = p.message.hsType ∧ Owns noX509 p a.2) [p]
        (annotations noX509 tls calls) := by
    intro p tls calls hann hown h
    rw [hann, List.forall₂_cons] at h
    rcases h.1.2 with hnone | ⟨hc, hsame⟩
    · cases hnone
    · rw [hown hc] at hsame
      exact absurd hsame (by decide)
  refine ⟨fun h => ?_, fun h => ?_, by decide +kernel, by decide +kernel, by decide +kernel⟩
  · exact howns (p := ⟨emptyCertificate, true⟩) (by decide +kernel) (fun _ => by decide +kernel)
      (h (Or.inr rfl))
  · exact howns (p := ⟨oneCertificate, false⟩) (by decide +kernel) (fun hc => by cases hc)
      (h (Or.inr rfl))

end PapQuic.Log.Provenance
