import PapQuic.Lib.Run
import PapQuic.Lib.TextFile
import PapQuic.Log.Chars
import PapQuic.Log.Timing

/-! # The log as a file

Whatever happens to a connection, each line of the log is one line of the file it is written to
(`oneLine_text`): the lines consist of printable characters and of the names that libcrypto has for
signature algorithms, which are taken to have no line breaks. -/

namespace PapQuic.Log.Output

open Lib.Printf Lib.Run Lib.TextFile Log.Metadata Log.Clock Log.FrameList
open Log.Lines Log.Notes Log.Chars Log.Timing

/-! ### The log of a connection -/

/-- The log of a connection: its state, and the lines that are in it. A packet whose frames are
walked over forever leaves it hung. -/
structure Session where
  log : LogState
  timing : HandshakeTiming
  lines : List Line
  hung : Bool

/-- A new connection. The tables of the log belong to the process, and are as the connections before
it left them. -/
def Session.start (log : LogState) : Session := ⟨log, HandshakeTiming.init, [], false⟩

/-- The first connection of a process. -/
def Session.new : Session := .start LogState.init

inductive SessionStep
  | packet (inp : LogInput) (event : PacketLogEvent)
  | timing (isServer : Bool) (call : TimingCall) (now lineNow : OsslTime)

def Session.step (lib : X509Lib) (s : Session) (x : SessionStep) : Session :=
  if s.hung then s
  else
    match x with
    | .packet inp event =>
      match packetLog lib inp s.log s.timing event with
      | none => { s with hung := true }
      | some (lines, log, timing) =>
        { s with log := log, timing := timing, lines := s.lines ++ lines }
    | .timing isServer call now lineNow =>
      let (lines, timing) := timingCall isServer now lineNow s.timing call
      { s with timing := timing, lines := s.lines ++ lines }

section

variable {good : Line → Prop} {lib : X509Lib} {s : Session}

/-- All that a packet event can do to the log. -/
theorem step_packet (lib : X509Lib) (s : Session) (inp : LogInput) (event : PacketLogEvent) :
    ((s.hung = true ∨ inp.lineAlloc = false) ∧ s.step lib (.packet inp event) = s) ∨
    s.step lib (.packet inp event) = { s with hung := true } ∨
    s.hung = false ∧ ∃ r out timing,
      packetLogAppendFrames lib event.toEventKey inp.hsAlloc event.payload.length ⟨0, s.log⟩
        event.payload = some r ∧
      Logs (.packet ⟨inp.now, event, r.specs, r.ok⟩) event.isSend s.timing.pending out
        timing.pending ∧
      s.step lib (.packet inp event) =
        { s with log := r.state.log, timing := timing, lines := s.lines ++ out } := by
  by_cases hh : s.hung = true
  · exact .inl ⟨.inl hh, by simp [Session.step, hh]⟩
  rcases hlog : packetLog lib inp s.log s.timing event with _ | ⟨out, log, timing⟩
  · exact .inr (.inl (by simp [Session.step, hh, hlog]))
  rcases packetLog_spec hlog with ⟨ha, rfl, rfl, rfl⟩ | ⟨r, hr, rfl, hlogs⟩
  · exact .inl ⟨.inr ha, by rw [Session.step, if_neg hh]; simp [hlog]⟩
  · exact .inr (.inr ⟨by simpa using hh, r, out, timing, hr, hlogs,
      by simp [Session.step, hh, hlog]⟩)

/-- All that a TLS callback can do to the log. -/
theorem step_timing (lib : X509Lib) (s : Session) (isServer : Bool) (call : TimingCall)
    (now lineNow : OsslTime) :
    s.step lib (.timing isServer call now lineNow) = s ∨
    s.hung = false ∧ ∃ out timing, Moves s.timing.pending out timing.pending ∧
      s.step lib (.timing isServer call now lineNow) =
        { s with timing := timing, lines := s.lines ++ out } := by
  by_cases hh : s.hung = true
  · exact .inl (by simp [Session.step, hh])
  · exact .inr ⟨by simpa using hh, _, _, moves_timingCall isServer now lineNow s.timing call,
      by simp [Session.step, hh]⟩

/-- All lines of the log, the held ones too, are good, and so is the table. -/
structure Prints (table : TlsMetadata → Prop) (good : Line → Prop) (s : Session) : Prop where
  lines : ∀ l ∈ s.lines, good l
  held : ∀ slot l, s.timing.pending slot = some l → good l
  table : table s.log.tlsMetadata

variable {table : TlsMetadata → Prop} {fragment : Text → Prop}

theorem prints_new (good : Line → Prop) (h0 : table noMetadata) : Prints table good .new :=
  ⟨by simp [Session.new, Session.start], by simp [Session.new, Session.start, HandshakeTiming.init],
    h0⟩

theorem Prints.packet (h : Prints table good s) (hk : Kept lib table fragment)
    (hi : ∀ l, good (.internal l)) {inp : LogInput} {event : PacketLogEvent}
    (hg : ∀ specs ok, (∀ spec ∈ specs, SpecOf fragment spec) →
      good (.packet ⟨inp.now, event, specs, ok⟩)) :
    Prints table good (s.step lib (.packet inp event)) := by
  rcases step_packet lib s inp event with ⟨-, he⟩ | he
    | ⟨-, r, out, timing, hr, hlogs, he⟩ <;> rw [he]
  · exact h
  · exact ⟨h.lines, h.held, h.table⟩
  · obtain ⟨hspecs, htable⟩ := hk.appendFrames hr h.table
    obtain ⟨hl, hheld⟩ := hlogs.forall hi (hg _ _ hspecs) h.held
    exact ⟨List.forall_mem_append.mpr ⟨h.lines, hl⟩, hheld, htable⟩

theorem Prints.timing (h : Prints table good s) (hi : ∀ l, good (.internal l)) (isServer : Bool)
    (call : TimingCall) (now lineNow : OsslTime) :
    Prints table good (s.step lib (.timing isServer call now lineNow)) := by
  rcases step_timing lib s isServer call now lineNow with he | ⟨-, out, timing, hm, he⟩ <;> rw [he]
  · exact h
  · obtain ⟨hl, hheld⟩ := hm.forall hi h.held
    exact ⟨List.forall_mem_append.mpr ⟨h.lines, hl⟩, hheld, h.table⟩

/-- A line with good fragments only. -/
def LineOf (fragment : Text → Prop) : Line → Prop
  | .packet l => ∀ spec ∈ l.specs, SpecOf fragment spec
  | .internal _ => True

/-- **What is kept is printed**, whatever is logged. -/
theorem prints_run (hk : Kept lib table fragment) (h0 : table noMetadata)
    (steps : List SessionStep) :
    Prints table (LineOf fragment) (run (Session.step lib) .new steps) := by
  refine run_invariant _ (fun s x h => ?_) steps (prints_new _ h0)
  cases x with
  | packet inp event => exact h.packet hk (fun _ => trivial) fun _ _ hspecs => hspecs
  | timing isServer call now lineNow => exact h.timing (fun _ => trivial) isServer call now lineNow

end

/-- A line that the log can print. -/
abbrev IsLine (p : Char → Prop) : Line → Prop := LineOf (IsFragment p)

/-- **Whatever is logged**, the log has lines that it can print, and only such. -/
theorem prints_names {p : Char → Prop} {lib : X509Lib} (hp : NamesOf p lib)
    (steps : List SessionStep) :
    Prints (Annotated p) (IsLine p) (run (Session.step lib) .new steps) :=
  prints_run (kept_annotated hp) (annotated_noMetadata p) steps

/-! ### Line breaks -/

/-- The characters of a line. -/
def LineChar (c : Char) : Prop := c ≠ '\n' ∧ c ≠ '\r'

theorem lineChar_of_specMark (c : Char) (h : specMark c = true) : LineChar c := by
  constructor <;> rintro rfl <;> revert h <;> decide

theorem lineChar_of_frameMark (c : Char) (h : frameMark c = true) : LineChar c :=
  lineChar_of_specMark c (specMark_of_frameMark h)

theorem oneLine_marks {s : Text} (h : Marks s) : OneLine s :=
  h.mono fun c hc => lineChar_of_specMark c (by simp [specMark, hc])

/-- Names without line breaks. -/
theorem namesOf_lineChar {lib : X509Lib}
    (h : ∀ nid name, lib.objNid2sn nid = some name → OneLine name) : NamesOf LineChar lib :=
  ⟨fun c hc => lineChar_of_specMark c (specMark_of_wordChar hc), h⟩

theorem oneLine_frames {l : PacketLine} (h : ∀ spec ∈ l.specs, IsSpec LineChar spec) :
    ∀ f ∈ l.frames, OneLine f := by
  refine l.forall_frames (fun spec hs => ?_) (by decide)
  exact over_specText lineChar_of_frameMark (h spec hs)
    fun _ => (by decide : ('\x7b' ≠ '\n' ∧ '\x7b' ≠ '\r') ∧ '\x7d' ≠ '\n' ∧ '\x7d' ≠ '\r')

theorem oneLine_packetRest {l : PacketLine} (h : ∀ spec ∈ l.specs, IsSpec LineChar spec) :
    OneLine l.rest :=
  ((((oneLine_marks (heads_fields l).marks).append (by decide)).append
    (oneLine_intercalate (by decide) (oneLine_frames h))).append (by decide)).append
      (oneLine_marks (heads_creditFields _).marks)

/-- **A line of the log is one line of the file.** -/
theorem oneLine_text {l : Line} (h : IsLine LineChar l) : OneLine l.text := by
  have hrest : OneLine l.rest := by
    cases l with
    | packet l => exact oneLine_packetRest h
    | internal l => exact oneLine_marks (marks_internal l)
  exact (oneLine_marks (heads_header l).marks).append hrest

/-- The file that a log makes is read line by line as the log was written. -/
theorem readLines_log {log : List Line} (h : ∀ l ∈ log, IsLine LineChar l) :
    readLines (writeLines (log.map Line.text)) = log.map fun l => l.text ++ ['\n'] := by
  rw [readLines_writeLines, List.map_map]
  · rfl
  · intro s hs
    obtain ⟨l, hl, rfl⟩ := List.mem_map.mp hs
    exact oneLine_text (h l hl)

end PapQuic.Log.Output
