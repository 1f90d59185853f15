import PapQuic.Log.FrameList
import PapQuic.Log.Reassembly

/-! # CRYPTO frames out of order

A CRYPTO frame says at which offset of the handshake stream its data belongs. The receiving side
queues the data by that offset; the log decodes the offset and then takes the data as what comes
next (`logCryptoFrames_eq`). So a frame that comes twice is logged twice
(`logCryptoFrames_repeated`), and the messages of the stream are processed once each and in order
when every frame with data comes at its turn and is no bad piece (`logCryptoFrames_in_order`). -/

namespace PapQuic.Log.Retransmission

open Wire.Packet Wire.Frames Log.Metadata Log.Handshake Log.FrameList Log.Stream Log.Reassembly

/-- A CRYPTO frame that is logged, and whether memory for a buffer is there then. -/
structure Arrival where
  alloc : Bool
  frame : FrameCrypto
  deriving DecidableEq, Repr

/-- The piece the log makes of a frame. -/
def Arrival.chunk (a : Arrival) : Chunk := ⟨a.alloc, a.frame.data⟩

/-- The frames of one role, direction and level, logged one after the other: the calls of the
reassembly loop and the state at the end. -/
def logCryptoFrames (lib : X509Lib) (event : EventKey) :
    SpecState → List Arrival → List HsCall × SpecState
  | s, [] => ([], s)
  | s, a :: arrivals =>
    let calls := (packetLogAppendHandshakeBytes a.alloc (s.log.hsState event) a.frame.data).1
    let s := (packetLogAppendCryptoFragments lib a.alloc event s a.frame.data).2
    (calls ++ (logCryptoFrames lib event s arrivals).1, (logCryptoFrames lib event s arrivals).2)

/-- The encryption levels whose CRYPTO data is reassembled. -/
def Reassembled (event : EventKey) : Prop :=
  event.encLevel = .initial ∨ event.encLevel = .handshake

theorem appendCryptoFragments_hsState (lib : X509Lib) (alloc : Bool) {event : EventKey}
    (he : Reassembled event) (s : SpecState) (data : Bytes) :
    (packetLogAppendCryptoFragments lib alloc event s data).2.log.hsState event =
      (packetLogAppendHandshakeBytes alloc (s.log.hsState event) data).2 := by
  rcases he with he | he <;> simp [packetLogAppendCryptoFragments, he]

/-- **The log does not look at the offsets**: the frames are pieces in the order they come. -/
theorem logCryptoFrames_eq (lib : X509Lib) {event : EventKey} (he : Reassembled event) :
    ∀ (arrivals : List Arrival) (s : SpecState),
      (logCryptoFrames lib event s arrivals).1 =
        (feedChunks (s.log.hsState event) (arrivals.map Arrival.chunk)).1
  | [], _ => rfl
  | a :: arrivals, s => by
    rw [logCryptoFrames, logCryptoFrames_eq lib he arrivals,
      appendCryptoFragments_hsState lib a.alloc he]
    rfl

/-! ### Frames at their turn -/

/-- The data of the frames so far. -/
def arrived (arrivals : List Arrival) : Bytes := bytes (arrivals.map Arrival.chunk)

/-- The frame is a slice of the stream. -/
def IsSlice (stream : Bytes) (f : FrameCrypto) : Prop :=
  f.offset + f.data.length ≤ stream.length ∧
    f.data = (stream.drop f.offset).take f.data.length

instance (stream : Bytes) (f : FrameCrypto) : Decidable (IsSlice stream f) :=
  inferInstanceAs (Decidable (_ ∧ _))

/-- The frames together cover the stream. -/
def Covers (stream : Bytes) (arrivals : List Arrival) : Prop :=
  ∀ i < stream.length, ∃ a ∈ arrivals,
    a.frame.offset ≤ i ∧ i < a.frame.offset + a.frame.data.length

/-- Every frame with data comes at its turn, and is no bad piece of the stream. -/
def InOrder (msgs : List HsMessage) (arrivals : List Arrival) : Prop :=
  ∀ pre a post, arrivals = pre ++ a :: post → a.frame.data = [] ∨
    (a.frame.offset = (arrived pre).length ∧ ¬ BadChunk msgs (arrived pre).length a.chunk)

theorem arrived_append (a b : List Arrival) : arrived (a ++ b) = arrived a ++ arrived b := by
  simp [arrived, bytes]

theorem arrived_cons (a : Arrival) (l : List Arrival) :
    arrived (a :: l) = a.frame.data ++ arrived l := by
  simp [arrived, bytes, Arrival.chunk]

/-- Frames at their turn spell a first part of the stream. -/
theorem arrived_eq_take {msgs : List HsMessage} {arrivals : List Arrival}
    (hs : ∀ a ∈ arrivals, IsSlice (stream msgs) a.frame) (ho : InOrder msgs arrivals) :
    ∀ post pre : List Arrival, arrivals = pre ++ post →
      arrived pre = (stream msgs).take (arrived pre).length →
      arrived arrivals = (stream msgs).take (arrived arrivals).length
  | [], pre, e, h => by rwa [e, List.append_nil]
  | a :: post, pre, e, h => by
    refine arrived_eq_take hs ho post (pre ++ [a]) (by rw [e]; simp) ?_
    rw [arrived_append, arrived_cons]
    rcases ho pre a post e with hnil | ⟨hoff, -⟩
    · simpa [hnil, arrived, bytes] using h
    · have hsl := hs a (by rw [e]; simp)
      have hd := hsl.2
      rw [hoff] at hd
      simp only [arrived, bytes, List.map_nil, List.flatMap_nil, List.append_nil,
        List.length_append] at h hd ⊢
      rw [List.take_add, ← h, ← hd]

/-- Frames at their turn that cover the stream spell it. -/
theorem arrived_eq_stream {msgs : List HsMessage} {arrivals : List Arrival}
    (hs : ∀ a ∈ arrivals, IsSlice (stream msgs) a.frame) (ho : InOrder msgs arrivals)
    (hc : Covers (stream msgs) arrivals) : arrived arrivals = stream msgs := by
  have ht := arrived_eq_take hs ho arrivals [] rfl (by simp [arrived, bytes])
  rw [ht]
  apply List.take_of_length_le
  by_contra hlt
  -- the byte that would come next is in a frame, and that frame has come
  obtain ⟨a, ha, h1, h2⟩ := hc (arrived arrivals).length (by omega)
  obtain ⟨pre, post, e⟩ := List.append_of_mem ha
  have hlen : (arrived arrivals).length =
      (arrived pre).length + (a.frame.data.length + (arrived post).length) := by
    rw [e, arrived_append, arrived_cons, List.length_append, List.length_append]
  rcases ho pre a post e with hnil | ⟨hoff, -⟩
  · rw [hnil] at h2; simp at h2; omega
  · omega

/-- After frames that came at their turn the log is in step with the stream. -/
theorem inOrder_sync {msgs : List HsMessage} {arrivals : List Arrival}
    (hs : ∀ a ∈ arrivals, IsSlice (stream msgs) a.frame) (ho : InOrder msgs arrivals) :
    ∀ (post pre : List Arrival) (done todo : List HsMessage), arrivals = pre ++ post →
      msgs = done ++ todo →
      Sync (feedChunks resetHsState (pre.map Arrival.chunk)).2 done todo (arrived pre).length →
      processed (feedChunks resetHsState (pre.map Arrival.chunk)).1 = done.map HsMessage.pair →
      ∀ p q, post = p ++ q → ∃ done' todo', msgs = done' ++ todo' ∧
        Sync (feedChunks resetHsState ((pre ++ p).map Arrival.chunk)).2 done' todo'
          (arrived (pre ++ p)).length ∧
        processed (feedChunks resetHsState ((pre ++ p).map Arrival.chunk)).1 =
          done'.map HsMessage.pair
  | post, pre, done, todo, _, hm, hy, hp, [], _, _ =>
    ⟨done, todo, hm, by simpa using hy, by simpa using hp⟩
  | [], _, _, _, _, _, _, _, _ :: _, _, e' => by cases e'
  | a :: post, pre, done, todo, e, hm, hy, hp, b :: p, q, e' => by
    obtain ⟨rfl, e''⟩ := List.cons.inj e'
    have hfeed := feedChunks_append (pre.map Arrival.chunk) [a.chunk] resetHsState
    have hmap : (pre ++ [a]).map Arrival.chunk = pre.map Arrival.chunk ++ [a.chunk] := by simp
    have hlen : (arrived (pre ++ [a])).length = (arrived pre).length + a.chunk.data.length := by
      simp [arrived, bytes, Arrival.chunk]
    -- one frame more, and then the rest of them
    have key : ∃ done' todo', msgs = done' ++ todo' ∧
        Sync (feedChunks resetHsState ((pre ++ [a]).map Arrival.chunk)).2 done' todo'
          (arrived (pre ++ [a])).length ∧
        processed (feedChunks resetHsState ((pre ++ [a]).map Arrival.chunk)).1 =
          done'.map HsMessage.pair := by
      rw [hmap, hfeed, hlen]
      simp only [feedChunks, List.append_nil, processed_append]
      rcases ho pre a post e with hnil | ⟨hoff, hb⟩
      · have hcd : a.chunk.data = [] := hnil
        rw [hcd, appendHandshakeBytes_nil]
        exact ⟨done, todo, hm, by simpa using hy, by simpa [processed] using hp⟩
      · have hsl := (hs a (by rw [e]; simp)).2
        rw [hoff] at hsl
        have hc : (stream (done ++ todo)).drop (arrived pre).length =
            a.chunk.data ++ ((stream msgs).drop (arrived pre).length).drop a.chunk.data.length := by
          rw [← hm]
          conv_lhs => rw [← List.take_append_drop a.chunk.data.length (List.drop _ _)]
          rw [show a.chunk.data = a.frame.data from rfl, ← hsl]
        rw [hm] at hb
        rcases sync_chunk hy hc with ⟨-, d, todo', rfl, hy', hpr, -⟩ | ⟨hbad, -⟩
        · refine ⟨done ++ d, todo', by rw [hm, List.append_assoc], hy', ?_⟩
          rw [hp, hpr, List.map_append]
        · exact absurd hbad hb
    obtain ⟨done', todo', hm', hy', hp'⟩ := key
    have := inOrder_sync hs ho post (pre ++ [a]) done' todo' (by rw [e]; simp) hm' hy' hp' p q e''
    simpa using this

/-- **Frames that come at their turn.** Of CRYPTO frames that are slices of a handshake stream and
cover it, the messages of the stream are processed once each and in order, when every frame with
data comes at its turn and is no bad piece; and at no time has anything else been processed. -/
theorem logCryptoFrames_in_order (lib : X509Lib) (event : EventKey) (s : SpecState)
    (msgs : List HsMessage) (arrivals : List Arrival) (he : Reassembled event)
    (hreset : s.log.hsState event = resetHsState)
    (hs : ∀ a ∈ arrivals, IsSlice (stream msgs) a.frame) (hc : Covers (stream msgs) arrivals)
    (ho : InOrder msgs arrivals) :
    (∀ pre post, arrivals = pre ++ post →
      processed (logCryptoFrames lib event s pre).1 <+: msgs.map HsMessage.pair) ∧
    processed (logCryptoFrames lib event s arrivals).1 = msgs.map HsMessage.pair := by
  have run := inOrder_sync hs ho arrivals [] [] msgs rfl rfl (.between rfl) rfl
  constructor
  · intro pre post e
    obtain ⟨done, todo, hm, -, hp⟩ := run pre post e
    rw [logCryptoFrames_eq lib he, hreset]
    simp only [List.nil_append] at hp
    rw [hp, hm, List.map_append]
    exact List.prefix_append _ _
  · obtain ⟨done, todo, hm, hy, hp⟩ := run arrivals [] (by simp)
    rw [logCryptoFrames_eq lib he, hreset]
    simp only [List.nil_append] at hp hy
    have hall := arrived_eq_stream hs ho hc
    obtain rfl := hy.todo_eq_nil (by rw [← hm, hall])
    rw [hp, hm, List.append_nil]

/-- A Certificate with a body of three bytes. -/
def certificateThree : HsMessage := ⟨11, [1, 2, 3], by decide⟩

/-- The Certificate and a Finished message in three frames, each cut in its body. -/
def cutFrames : List Arrival :=
  [⟨true, 0, [11, 0, 0, 3, 1]⟩, ⟨true, 5, [2, 3, 20, 0, 0, 1]⟩, ⟨true, 11, [7]⟩]

theorem inOrder_cutFrames : InOrder [certificateThree, finishedOne] cutFrames := by
  intro pre a post e
  refine .inr ?_
  rcases pre with _ | ⟨x, _ | ⟨y, _ | ⟨z, pre⟩⟩⟩
  · cases e
    exact ⟨rfl, @not_bad_within [] _ _ _ 1 _ (by decide) (by decide) (.inl rfl)⟩
  · cases e
    exact ⟨rfl, @not_bad_within [certificateThree] _ _ _ 0 _ (by decide) (by decide) (.inl rfl)⟩
  · cases e
    exact ⟨rfl, @not_bad_between [certificateThree, finishedOne] _ _ _ (by decide)⟩
  · simp [cutFrames] at e

/-- Both messages are processed, and after two frames the first one. -/
theorem logCryptoFrames_in_order_finished :
    processed (logCryptoFrames noX509 ⟨true, false, .handshake⟩ ⟨0, LogState.init⟩
        (cutFrames.take 2)).1 <+: [certificateThree, finishedOne].map HsMessage.pair ∧
    processed (logCryptoFrames noX509 ⟨true, false, .handshake⟩ ⟨0, LogState.init⟩ cutFrames).1 =
      [certificateThree, finishedOne].map HsMessage.pair := by
  obtain ⟨hpre, hall⟩ := logCryptoFrames_in_order noX509 ⟨true, false, .handshake⟩
    ⟨0, LogState.init⟩ _ cutFrames (.inr rfl) rfl (by decide) (by unfold Covers; decide)
    inOrder_cutFrames
  exact ⟨hpre _ (cutFrames.drop 2) rfl, hall⟩

/-- The same frame, sent twice, is processed twice. -/
theorem logCryptoFrames_repeated :
    (∀ a ∈ [⟨true, 0, [20, 0, 0, 1, 7]⟩, (⟨true, 0, [20, 0, 0, 1, 7]⟩ : Arrival)],
      IsSlice (stream [finishedOne]) a.frame) ∧
    Covers (stream [finishedOne]) [⟨true, 0, [20, 0, 0, 1, 7]⟩, ⟨true, 0, [20, 0, 0, 1, 7]⟩] ∧
    processed (logCryptoFrames ⟨fun _ => none, fun _ => none⟩ ⟨true, false, .handshake⟩
      ⟨0, LogState.init⟩ [⟨true, 0, [20, 0, 0, 1, 7]⟩, ⟨true, 0, [20, 0, 0, 1, 7]⟩]).1 ≠
    [finishedOne].map HsMessage.pair := by
  unfold Covers
  decide

end PapQuic.Log.Retransmission
