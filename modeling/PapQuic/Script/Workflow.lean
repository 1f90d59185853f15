import PapQuic.Lib.Attempts
import PapQuic.Lib.DecimalOrder
import PapQuic.Script.Amplification
import PapQuic.Script.HelloSize
import PapQuic.Script.LogStats
import PapQuic.Script.Matrix
import PapQuic.Script.Outliers
import PapQuic.Script.RunLookup

/-! # The benchmark loops

The loop of `main` in `scripts/run_benchmarks.py`, which measures handshakes of each combination,
and `run_packet_workflow` of `scripts/run_packet_count.py`, which reads the packet logs of one
handshake of each. A combination that raises a `BenchmarkError` is skipped.

Commands that make certificates raise a `CalledProcessError`, which is not a `BenchmarkError` and
ends both loops before anything is written. The packet workflow also writes a row for a client that
printed no `Handshake-RTT`, and no file at all without rows. The summaries are as they should be
exactly when none of this happens (`isolated_iff`). -/

namespace PapQuic.Script.Workflow

open Lib.Printf Lib.Re Lib.TextFile Lib.DecimalOrder Lib.Run Lib.Attempts Script.Algorithms
open Script.Matrix Script.Outliers Script.LogStats Script.HelloSize Script.Amplification
open Script.RunLookup (iterationLog)

/-! ### Errors and external commands -/

/-- The exceptions: `BenchmarkError`, its subclass `HandshakeTimeout`, `CalledProcessError` and
`ValueError`. -/
inductive PyError
  | benchmark (e : BenchmarkError)
  | handshakeTimeout (message : Text)
  | calledProcess (returncode : ℤ)
  | value
  deriving DecidableEq, Repr

/-- `except BenchmarkError`. -/
def PyError.isBenchmarkError : PyError → Bool
  | .benchmark _ | .handshakeTimeout _ => true
  | .calledProcess _ | .value => false

/-- `str(exc)` of a `BenchmarkError`. -/
def PyError.message : PyError → Text
  | .benchmark e => e.message
  | .handshakeTimeout message => message
  | .calledProcess _ | .value => []

/-- A command that should write a file. -/
structure Command where
  returncode : ℤ
  writes : Bool

/-- The server, half a second after it was started, with its log at the time it is read. -/
inductive Server
  | exits (log : Text)
  | runs (log : Text)

/-- The client. -/
inductive Client
  | timesOut (stdout stderr : Text)
  | exits (returncode : ℤ) (stdout stderr : Text)

/-- What the commands for a combination come to; the clients are numbered from 1. -/
structure Outcomes where
  genpkey : Command
  req : Command
  server : Server
  clients : ℕ → Client

/-- The certificates that exist, by the names of their files. -/
structure Certs where
  key : Text → Bool
  crt : Text → Bool

/-- What is used of Python: `str.lower`, and `float`, where it does not raise a `ValueError`. -/
structure Python where
  L : Lower
  float : Text → Option ℚ

/-- The arguments of a run. -/
structure Settings where
  resultsDir : Text
  quicMode : ℤ
  lossProfileLabel : Text

variable (py : Python) (cfg : Settings)

/-- The name of the files of a certificate. -/
def sanitized (signature : Text) : Text :=
  (py.L.lower signature).map fun c => if c = '/' then '_' else c

/-- A command has been run for a file. -/
def Command.touch (c : Command) (name : Text) (files : Text → Bool) : Text → Bool :=
  if c.writes then Function.update files name true else files

/-- `generate_certificate`; `run_command` checks the return code. -/
def generateCertificate (signature : Text) (o : Outcomes) (certs : Certs) :
    Certs × Except PyError Unit :=
  let name := sanitized py signature
  if certs.key name && certs.crt name then (certs, .ok ())
  else
    let certs := { certs with key := o.genpkey.touch name certs.key }
    if o.genpkey.returncode ≠ 0 then (certs, .error (.calledProcess o.genpkey.returncode))
    else
      let certs := { certs with crt := o.req.touch name certs.crt }
      if o.req.returncode ≠ 0 then (certs, .error (.calledProcess o.req.returncode))
      else (certs, .ok ())

/-- `start_server`, which returns the log here. -/
def startServer : Server → Except PyError Text
  | .exits log => .error (.benchmark ⟨"QUIC server exited prematurely:\n".toList ++ log⟩)
  | .runs log => .ok log

/-- `combined_output`. -/
def combinedOutput (stdout stderr : Text) : Text :=
  stdout ++ (if stdout ≠ [] ∧ stderr ≠ [] then ['\n'] else []) ++ stderr

/-- What is written to the log of a client. -/
def rawLog (output : Text) : Text :=
  if output.getLast? = some '\n' then output else output ++ ['\n']

/-- `collect_handshake`. The return code is not looked at. -/
def collectHandshake (rawLogFile : Text) : Client → Except PyError Text
  | .timesOut _ _ => .error (.handshakeTimeout
      ("Handshake command exceeded the timeout of 10 seconds; see raw log at ".toList ++
        rawLogFile))
  | .exits _ stdout stderr => .ok (combinedOutput stdout stderr)

/-! ### The handshake time -/

/-- `str.find`. -/
def find (needle : Text) : Text → Option ℕ
  | [] => if needle = [] then some 0 else none
  | c :: s => if needle.isPrefixOf (c :: s) then some 0 else (find needle s).map (· + 1)

/-- The `needle` of `parse_handshake_rtt`. -/
def needle : Text := "handshake-rtt:".toList

/-- The loop of `parse_handshake_rtt`: what follows the first `Handshake-RTT:`, if it is a
number. -/
def handshakeRtt : List Text → Option ℚ
  | [] => none
  | rawLine :: lines =>
    match find needle (py.L.lower rawLine) with
    | none => handshakeRtt lines
    | some idx =>
      let remainder := strip (rawLine.drop (idx + needle.length))
      if remainder = [] then handshakeRtt lines
      else py.float ((remainder.takeWhile fun c => !isSpace c).map fun c => if c = ','
        then '.' else c)

/-- `parse_handshake_rtt`. -/
def parseHandshakeRtt (output rawLogFile : Text) : Except BenchmarkError ℚ :=
  match handshakeRtt py (splitlines output) with
  | some rtt => .ok rtt
  | none =>
    .error ⟨"Handshake-RTT not found in client output; see raw log at ".toList ++ rawLogFile⟩

/-- The directory of the logs of a combination. -/
def comboDir (logs : Text) (combo : AlgorithmCombo) : Text :=
  cfg.resultsDir ++ logs ++ py.L.lower combo.kem ++ "__".toList ++ py.L.lower combo.signature

/-- `describe_quic_mode`. -/
def describeQuicMode (mode : ℤ) : Text :=
  RunLookup.signed mode ++ " - ".toList ++
    match mode with
    | 0 => "default".toList
    | 1 => "unlimited credit".toList
    | 2 => "reserved".toList
    | 3 => "retry validation".toList
    | _ => "custom".toList

/-! ### Measuring a combination -/

/-- What the loop of `run_benchmark` over the iterations keeps: the outputs with their
iterations. -/
structure Collected where
  outputs : List (ℕ × Text)
  timeoutSkips : ℕ
  aborted : Bool

/-- The log of an iteration. -/
def rawLogFile (combo : AlgorithmCombo) (n : ℕ) : Text :=
  comboDir py cfg "/raw_logs/".toList combo ++ "/".toList ++ iterationLog n

/-- The loop of `run_benchmark` over the iterations. -/
def collectLoop (combo : AlgorithmCombo) (clients : ℕ → Client) :
    List ℕ → Collected → Except PyError Collected
  | [], c => .ok c
  | n :: ns, c =>
    match collectHandshake (rawLogFile py cfg combo n) (clients n) with
    | .ok output => collectLoop combo clients ns { c with outputs := c.outputs ++ [(n, output)] }
    | .error (.handshakeTimeout _) =>
      let c := { c with timeoutSkips := c.timeoutSkips + 1 }
      if c.timeoutSkips > 1 then .ok { c with aborted := true } else collectLoop combo clients ns c
    | .error (.benchmark _) => collectLoop combo clients ns c
    | .error e => .error e

/-- `BenchmarkResult`, with what `summarise` makes of the samples. -/
structure BenchmarkResult (S : Type*) where
  combo : AlgorithmCombo
  iterations : ℕ
  outliersRemoved : ℕ
  valuesMs : List ℚ
  summary : S
  quicMode : ℤ
  quicModeLabel : Text
  lossProfile : Text

variable {S : Type*} (summarise : List ℚ → S)

/-- `run_benchmark` after the handshakes. -/
def evaluate (combo : AlgorithmCombo) (c : Collected) : Except PyError (BenchmarkResult S) :=
  if c.aborted then
    .error (.benchmark ⟨"Aborting combination due to multiple handshake timeouts (>10s)".toList⟩)
  else
    let parsed := c.outputs.map fun p =>
      (p.1, parseHandshakeRtt py p.2 (rawLogFile py cfg combo p.1))
    let samples := parsed.filterMap fun p => p.2.toOption
    let parseErrors := parsed.filterMap fun p =>
      match p.2 with
      | .ok _ => none
      | .error e => some ("iteration ".toList ++ dec p.1 ++ ": ".toList ++ e.message)
    if samples = [] then
      .error (.benchmark ⟨"Failed to parse handshake RTT for all successful iterations;\n".toList ++
        ['\n'].intercalate parseErrors⟩)
    else
      let kept := removeOutliers samples
      .ok ⟨combo, kept.filtered.length, kept.removed, kept.filtered, summarise kept.filtered,
        cfg.quicMode, describeQuicMode cfg.quicMode, cfg.lossProfileLabel⟩

/-- The numbers of the iterations. -/
def iterationNumbers (iterations : ℕ) : List ℕ := (List.range iterations).map (· + 1)

/-- `run_benchmark` with a certificate. -/
def measureHandshakes (iterations : ℕ) (item : AlgorithmCombo × Outcomes) :
    Except PyError (BenchmarkResult S) :=
  match startServer item.2.server with
  | .error e => .error e
  | .ok _ =>
    match collectLoop py cfg item.1 item.2.clients (iterationNumbers iterations) ⟨[], 0, false⟩ with
    | .error e => .error e
    | .ok c => evaluate py cfg summarise item.1 c

/-- What is done for a combination once it has a certificate. -/
def withCertificate {R : Type*} (rest : AlgorithmCombo × Outcomes → Except PyError R)
    (certs : Certs) (item : AlgorithmCombo × Outcomes) : Certs × Except PyError R :=
  match generateCertificate py item.1.signatureId item.2 certs with
  | (certs, .error e) => (certs, .error e)
  | (certs, .ok _) => (certs, rest item)

/-- `run_benchmark`. -/
def runBenchmark (iterations : ℕ) (certs : Certs) (item : AlgorithmCombo × Outcomes) :
    Certs × Except PyError (BenchmarkResult S) :=
  withCertificate py (measureHandshakes py cfg summarise iterations) certs item

/-- `PacketCountResult`. -/
structure PacketCountResult where
  combo : AlgorithmCombo
  handshakeMs : ℚ
  quicModeLabel : Text
  lossProfile : Text
  clientStats : PacketStats
  clientKeyshareBytes : ℕ
  clientHelloSize : ℕ
  clientHandshakeSize : ℕ
  serverStats : PacketStats
  serverKeyshareBytes : ℕ
  serverHelloSize : ℕ
  serverHandshakeSize : ℕ
  serverCertificateSize : ℕ
  signatureBytes : ℕ
  serverCreditSend : ℚ
  serverCreditReceived : ℚ
  serverAmplificationRealized : ℚ
  totalBytesChanged : ℕ

/-- The log of the client, for the packet workflow. -/
def clientLog (combo : AlgorithmCombo) : Text :=
  comboDir py cfg "/raw_logs/".toList combo ++ "/client.log".toList

/-- `run_single_handshake` after the handshake. -/
def readLogs (combo : AlgorithmCombo) (output serverLog : Text) :
    Except PyError PacketCountResult :=
  let handshakeMs := (parseHandshakeRtt py output (clientLog py cfg combo)).toOption.getD 0
  match parsePacketLog (some (rawLog output)), parsePacketLog (some serverLog) with
  | some clientStats, some serverStats =>
    let tlsSizes := extractTlsSizes (some (rawLog output)) (some serverLog)
    let (creditSend, creditReceived, amp) := calculateServerAmplification (some serverLog)
    .ok {
      combo := combo
      handshakeMs := handshakeMs
      quicModeLabel := describeQuicMode cfg.quicMode
      lossProfile := cfg.lossProfileLabel
      clientStats := clientStats
      clientKeyshareBytes := tlsSizes.clientKeyshare
      clientHelloSize := tlsSizes.clientHello
      clientHandshakeSize := clientStats.handshakeBytesSent
      serverStats := serverStats
      serverKeyshareBytes := tlsSizes.serverKeyshare
      serverHelloSize := tlsSizes.serverHello
      serverHandshakeSize := serverStats.handshakeBytesSent
      serverCertificateSize := tlsSizes.serverCert
      signatureBytes := tlsSizes.signature
      serverCreditSend := creditSend
      serverCreditReceived := creditReceived
      serverAmplificationRealized := amp
      totalBytesChanged := clientStats.initialBytesSent + serverStats.initialBytesSent +
        clientStats.handshakeBytesSent + serverStats.handshakeBytesSent }
  | _, _ => .error .value

/-- `run_single_handshake` with a certificate, with the first client. -/
def captureHandshake (item : AlgorithmCombo × Outcomes) : Except PyError PacketCountResult :=
  match startServer item.2.server with
  | .error e => .error e
  | .ok serverLog =>
    match collectHandshake (clientLog py cfg item.1) (item.2.clients 1) with
    | .error e => .error e
    | .ok output => readLogs py cfg item.1 output serverLog

/-- `run_single_handshake`. -/
def runSingleHandshake (certs : Certs) (item : AlgorithmCombo × Outcomes) :
    Certs × Except PyError PacketCountResult :=
  withCertificate py (captureHandshake py cfg) certs item

/-! ### The loops -/

/-- How a program ends: the exception that nothing catches, the rows of the summary if it is
written, and the lines about skipped combinations. -/
structure Finished (R : Type*) where
  raised : Option PyError
  summary : Option (List R)
  skips : List Text

/-- The line about a combination that is skipped. -/
def skipLine (combo : AlgorithmCombo) (e : PyError) : Text :=
  let parts := ((splitlines e.message).map strip).filter (· ≠ [])
  let reason := if parts = [] then "unknown error".toList else " | ".toList.intercalate parts
  "\x1b[31m[skip] ".toList ++ combo.kem ++ " + ".toList ++ combo.signature ++
    ": passing because the combination failed (".toList ++ reason ++ ")\x1b[0m".toList

/-- The exceptions for which a loop goes on. -/
def skipped (mode : Mode) (e : PyError) : Bool := e.isBenchmarkError && mode ≠ .one

/-- The loop over the combinations. -/
def loop {R : Type*} (mode : Mode)
    (attempt : Certs → AlgorithmCombo × Outcomes → Certs × Except PyError R)
    (certs : Certs) (items : List (AlgorithmCombo × Outcomes)) :
    Ended Certs (AlgorithmCombo × Outcomes) R PyError :=
  attempts attempt (skipped mode) items ⟨certs, [], [], none⟩

def skipLines {R : Type*} (e : Ended Certs (AlgorithmCombo × Outcomes) R PyError) : List Text :=
  e.skipped.map fun s => skipLine s.1.1 s.2

/-- `main` from the list of combinations on, without `--packet-workflow`. -/
def mainBenchmark (mode : Mode) (count : ℤ) (certs : Certs)
    (items : List (AlgorithmCombo × Outcomes)) : Finished (BenchmarkResult S) :=
  if items = [] then ⟨none, none, []⟩
  else if count ≤ 0 then ⟨some (.benchmark ⟨"--count must be a positive integer".toList⟩), none, []⟩
  else
    let e := loop mode (runBenchmark py cfg summarise count.toNat) certs items
    match e.raised with
    | some raised => ⟨some raised, none, skipLines e⟩
    | none => ⟨none, some e.results, skipLines e⟩

/-- `run_packet_workflow`, as `main` calls it. -/
def runPacketWorkflow (mode : Mode) (certs : Certs) (items : List (AlgorithmCombo × Outcomes)) :
    Finished PacketCountResult :=
  if items = [] then ⟨none, none, []⟩
  else
    let e := loop mode (runSingleHandshake py cfg) certs items
    match e.raised with
    | some raised => ⟨some raised, none, skipLines e⟩
    | none => ⟨none, if e.results = [] then none else some e.results, skipLines e⟩

/-! ### What is asked for -/

/-- The output of a client that runs to its end. -/
def Client.output : Client → Option Text
  | .timesOut _ _ => none
  | .exits _ stdout stderr => some (combinedOutput stdout stderr)

/-- The time that the output of a client tells. -/
def Client.rtt (client : Client) : Option ℚ :=
  client.output.bind fun o => handshakeRtt py (splitlines o)

def Client.isTimeout : Client → Bool
  | .timesOut _ _ => true
  | .exits _ _ _ => false

def Server.isRunning : Server → Bool
  | .exits _ => false
  | .runs _ => true

/-- **The handshakes of a combination were measured**: the server runs, at most one client times
out, and one of them tells its time. -/
def measured (ns : List ℕ) (o : Outcomes) : Bool :=
  o.server.isRunning && decide (ns.countP (fun n => (o.clients n).isTimeout) ≤ 1) &&
    ns.any fun n => ((o.clients n).rtt py).isSome

/-- **Failures are isolated**: the program ends without an exception, and the rows of its summary
are those of the combinations that were measured, in their order. -/
def Isolated {R : Type*} (combo : R → AlgorithmCombo) (measured : Outcomes → Bool)
    (items : List (AlgorithmCombo × Outcomes)) (f : Finished R) : Prop :=
  f.raised = none ∧
    f.summary.map (·.map combo) = some ((items.filter fun item => measured item.2).map Prod.fst)

/-- A command for a certificate is run, and fails. -/
def certFails (certs : Certs) (item : AlgorithmCombo × Outcomes) : Bool :=
  !(certs.key (sanitized py item.1.signatureId) && certs.crt (sanitized py item.1.signatureId)) &&
    (item.2.genpkey.returncode ≠ 0 || item.2.req.returncode ≠ 0)

/-- The certificates after those for a combination were asked for. -/
def certsAfter (certs : Certs) (item : AlgorithmCombo × Outcomes) : Certs :=
  (generateCertificate py item.1.signatureId item.2 certs).1

/-- The server runs, and the client of the packet workflow runs to its end. -/
def ends (o : Outcomes) : Bool := o.server.isRunning && (o.clients 1).output.isSome

/-- If there are logs, they can be read. -/
def readable (o : Outcomes) : Bool :=
  match o.server, (o.clients 1).output with
  | .runs log, some output =>
    (parsePacketLog (some (rawLog output))).isSome && (parsePacketLog (some log)).isSome
  | _, _ => true

/-! ### Attempts -/

section Attempts

variable {py cfg} {certs : Certs} {item : AlgorithmCombo × Outcomes}

theorem generateCertificate_of_fails (h : certFails py certs item = true) :
    ∃ rc, (generateCertificate py item.1.signatureId item.2 certs).2 =
      .error (.calledProcess rc) := by
  simp only [certFails, Bool.and_eq_true, Bool.not_eq_true', Bool.or_eq_true, decide_eq_true_eq]
    at h
  unfold generateCertificate
  rw [if_neg (by simp [h.1])]
  by_cases hg : item.2.genpkey.returncode ≠ 0
  · exact ⟨_, by rw [if_pos hg]⟩
  · exact ⟨_, by rw [if_neg hg, if_pos (h.2.resolve_left hg)]⟩

theorem generateCertificate_of_not_fails (h : certFails py certs item = false) :
    (generateCertificate py item.1.signatureId item.2 certs).2 = .ok () := by
  unfold generateCertificate
  by_cases he : (certs.key (sanitized py item.1.signatureId) &&
      certs.crt (sanitized py item.1.signatureId)) = true
  · rw [if_pos he]
  · simp only [certFails, he, Bool.not_false, Bool.true_and, Bool.or_eq_false_iff,
      decide_eq_false_iff_not] at h
    rw [if_neg he, if_neg h.1, if_neg h.2]

/-- What is done with a certificate is done, unless a command for the certificate fails. -/
theorem withCertificate_eq {R : Type*} {rest : AlgorithmCombo × Outcomes → Except PyError R} :
    (withCertificate py rest certs item).1 = certsAfter py certs item ∧
      if certFails py certs item then ∃ rc, (withCertificate py rest certs item).2 =
        .error (.calledProcess rc)
      else (withCertificate py rest certs item).2 = rest item := by
  have hfails := @generateCertificate_of_fails py certs item
  have hworks := @generateCertificate_of_not_fails py certs item
  unfold withCertificate certsAfter
  rcases hg : generateCertificate py item.1.signatureId item.2 certs with ⟨certs', e | _⟩
  · rw [hg] at hfails hworks
    cases hf : certFails py certs item with
    | true =>
      obtain ⟨rc, hrc⟩ := hfails hf
      obtain rfl : e = .calledProcess rc := Except.error.inj hrc
      exact ⟨rfl, rc, rfl⟩
    | false => cases hworks hf
  · rw [hg] at hfails
    cases hf : certFails py certs item with
    | true =>
      obtain ⟨rc, hrc⟩ := hfails hf
      cases hrc
    | false => exact ⟨rfl, rfl⟩

/-- An attempt gives the row of the combination, if it should, or it raises a `BenchmarkError`. -/
def Tells {R : Type*} (combo : R → AlgorithmCombo) (c : AlgorithmCombo) (reported : Bool) :
    Except PyError R → Prop
  | .ok r => reported = true ∧ combo r = c
  | .error e => reported = false ∧ e.isBenchmarkError = true

/-- **The iterations**: two timeouts abort the combination; otherwise the outputs of the clients
that ran to their ends are kept. -/
theorem collectLoop_spec (combo : AlgorithmCombo) (clients : ℕ → Client) :
    ∀ (ns : List ℕ) (c : Collected), c.aborted = false → c.timeoutSkips ≤ 1 →
      ∃ c', collectLoop py cfg combo clients ns c = .ok c' ∧
        (c'.aborted = false ↔ c.timeoutSkips + ns.countP (fun n => (clients n).isTimeout) ≤ 1) ∧
        (c'.aborted = false →
          c'.outputs = c.outputs ++ ns.filterMap fun n => (clients n).output.map fun o => (n, o))
  | [], c, ha, ht => ⟨c, rfl, iff_of_true ha (by simpa using ht), fun _ => by simp⟩
  | n :: ns, c, ha, ht => by
    rw [collectLoop]
    rcases hc : clients n with ⟨stdout, stderr⟩ | ⟨rc, stdout, stderr⟩
    · dsimp only [collectHandshake]
      by_cases hs : c.timeoutSkips + 1 > 1
      · refine ⟨_, if_pos hs, iff_of_false (by simp) ?_, by simp⟩
        rw [List.countP_cons_of_pos (by simp [hc, Client.isTimeout])]
        omega
      · obtain ⟨c', hc', hab, hout⟩ := collectLoop_spec combo clients ns
          { c with timeoutSkips := c.timeoutSkips + 1 } ha (Nat.not_lt.mp hs)
        refine ⟨c', (if_neg hs).trans hc', ?_, ?_⟩
        · rw [hab, List.countP_cons_of_pos (by simp [hc, Client.isTimeout])]
          dsimp only
          omega
        · intro h
          rw [hout h, List.filterMap_cons, hc]
          rfl
    · obtain ⟨c', hc', hab, hout⟩ := collectLoop_spec combo clients ns
        { c with outputs := c.outputs ++ [(n, combinedOutput stdout stderr)] } ha ht
      refine ⟨c', hc', ?_, ?_⟩
      · rw [hab, List.countP_cons_of_neg (by simp [hc, Client.isTimeout])]
      · intro h
        rw [hout h, List.filterMap_cons, hc]
        simp [Client.output]

theorem toOption_parseHandshakeRtt (output rawLogFile : Text) :
    (parseHandshakeRtt py output rawLogFile).toOption = handshakeRtt py (splitlines output) := by
  unfold parseHandshakeRtt
  rcases handshakeRtt py (splitlines output) with _ | rtt <;> rfl

/-- The samples are the times that the clients tell. -/
theorem evaluate_spec (combo : AlgorithmCombo) (clients : ℕ → Client) (ns : List ℕ) {c : Collected}
    (ha : c.aborted = false)
    (hout : c.outputs = ns.filterMap fun n => (clients n).output.map fun o => (n, o)) :
    Tells BenchmarkResult.combo combo (ns.any fun n => ((clients n).rtt py).isSome)
      (evaluate py cfg summarise combo c) := by
  have hsamples : ((c.outputs.map fun p =>
      (p.1, parseHandshakeRtt py p.2 (rawLogFile py cfg combo p.1))).filterMap fun p =>
        p.2.toOption) =
      ns.filterMap fun n => (clients n).rtt py := by
    rw [hout, List.filterMap_map, List.filterMap_filterMap]
    refine List.filterMap_congr fun n _ => ?_
    rcases (clients n) with _ | _ <;> simp [Client.output, Client.rtt, toOption_parseHandshakeRtt]
  have hnil : (ns.filterMap fun n => (clients n).rtt py) = [] ↔
      (ns.any fun n => ((clients n).rtt py).isSome) = false := by
    simp [List.filterMap_eq_nil_iff]
  unfold evaluate
  rw [if_neg (by simp [ha])]
  dsimp only
  rw [hsamples]
  by_cases hs : (ns.filterMap fun n => (clients n).rtt py) = []
  · rw [if_pos hs]
    exact ⟨hnil.mp hs, rfl⟩
  · rw [if_neg hs]
    exact ⟨(Bool.eq_false_or_eq_true _).resolve_right fun h => hs (hnil.mpr h), rfl⟩

/-- **One combination of the benchmark.** -/
theorem measureHandshakes_tells (iterations : ℕ) (item : AlgorithmCombo × Outcomes) :
    Tells BenchmarkResult.combo item.1 (measured py (iterationNumbers iterations) item.2)
      (measureHandshakes py cfg summarise iterations item) := by
  unfold measureHandshakes measured
  rcases item.2.server with log | log
  · exact ⟨rfl, rfl⟩
  · obtain ⟨c, hc, hab, hout⟩ := @collectLoop_spec py cfg item.1 item.2.clients
      (iterationNumbers iterations) ⟨[], 0, false⟩ rfl (by simp)
    simp only [startServer, hc, Server.isRunning, Bool.true_and, Nat.zero_add] at hab ⊢
    rcases ha : c.aborted with _ | _
    · rw [decide_eq_true (hab.mp ha), Bool.true_and]
      exact evaluate_spec summarise item.1 item.2.clients _ ha (by simpa using hout ha)
    · have hnot : ¬(iterationNumbers iterations).countP
          (fun n => (item.2.clients n).isTimeout) ≤ 1 :=
        fun hle => by simp [hab.mpr hle] at ha
      rw [decide_eq_false hnot, Bool.false_and]
      unfold evaluate
      rw [if_pos ha]
      exact ⟨rfl, rfl⟩

/-- Reading the logs. -/
theorem readLogs_tells (combo : AlgorithmCombo) (output log : Text) :
    if (parsePacketLog (some (rawLog output))).isSome && (parsePacketLog (some log)).isSome then
      Tells PacketCountResult.combo combo true (readLogs py cfg combo output log)
    else readLogs py cfg combo output log = .error .value := by
  unfold readLogs
  rcases parsePacketLog (some (rawLog output)) with _ | clientStats
  · rw [if_neg (by simp)]
  · rcases parsePacketLog (some log) with _ | serverStats
    · rw [if_neg (by simp)]
    · rw [if_pos (by simp)]
      exact ⟨rfl, rfl⟩

/-- **One combination of the packet workflow.** -/
theorem captureHandshake_tells (item : AlgorithmCombo × Outcomes) :
    if readable item.2 then
      Tells PacketCountResult.combo item.1 (ends item.2) (captureHandshake py cfg item)
    else captureHandshake py cfg item = .error .value := by
  unfold captureHandshake readable ends
  rcases item.2.server with log | log
  · exact ⟨rfl, rfl⟩
  · rcases item.2.clients 1 with ⟨stdout, stderr⟩ | ⟨rc, stdout, stderr⟩
    · exact ⟨rfl, rfl⟩
    · exact readLogs_tells item.1 (combinedOutput stdout stderr) log

end Attempts

/-! ### Whole loops -/

section Loops

variable {R : Type*} {combo : R → AlgorithmCombo} {mode : Mode}
  {rest : AlgorithmCombo × Outcomes → Except PyError R} {reported readable : Outcomes → Bool}

/-- What a combination does to a loop. -/
theorem withCertificate_tells
    (hrest : ∀ item, if readable item.2 then Tells combo item.1 (reported item.2) (rest item)
      else rest item = .error .value) (certs : Certs) (item : AlgorithmCombo × Outcomes) :
    if certFails py certs item = false ∧ readable item.2 = true then
      Tells combo item.1 (reported item.2) (withCertificate py rest certs item).2
    else ∃ e, (withCertificate py rest certs item).2 = .error e ∧ e.isBenchmarkError = false := by
  have hcert := (@withCertificate_eq py certs item R rest).2
  have hitem := hrest item
  cases hf : certFails py certs item with
  | true =>
    rw [if_pos hf] at hcert
    obtain ⟨rc, hrc⟩ := hcert
    rw [if_neg (by simp)]
    exact ⟨_, hrc, rfl⟩
  | false =>
    rw [if_neg (by simp [hf])] at hcert
    rw [hcert]
    cases hr : readable item.2 with
    | true =>
      rw [if_pos hr] at hitem
      rwa [if_pos ⟨rfl, rfl⟩]
    | false =>
      rw [if_neg (by simp [hr])] at hitem
      rw [if_neg (by simp)]
      exact ⟨_, hitem, rfl⟩

/-- **A loop over combinations**: it ends without an exception exactly when no command for a
certificate fails and all logs can be read, and has the rows of the combinations that are reported
then. -/
theorem loop_spec (hmode : mode ≠ .one)
    (hrest : ∀ item, if readable item.2 then Tells combo item.1 (reported item.2) (rest item)
      else rest item = .error .value)
    (certs : Certs) (items : List (AlgorithmCombo × Outcomes)) :
    ((loop mode (withCertificate py rest) certs items).raised = none ↔
        AllMeet (certsAfter py)
          (fun certs item => certFails py certs item = false ∧ readable item.2 = true)
          certs items) ∧
      ((loop mode (withCertificate py rest) certs items).raised = none →
        (loop mode (withCertificate py rest) certs items).results.map combo =
          (items.filter fun item => reported item.2).map Prod.fst) := by
  have hskip : ∀ certs item, Skippable (withCertificate py rest) (skipped mode) certs item ↔
      certFails py certs item = false ∧ readable item.2 = true := by
    intro certs item
    have hitem := withCertificate_tells py hrest certs item
    by_cases hc : certFails py certs item = false ∧ readable item.2 = true
    · rw [if_pos hc] at hitem
      refine iff_of_true (fun e he => ?_) hc
      rw [he] at hitem
      simp [skipped, hitem.2, hmode]
    · rw [if_neg hc] at hitem
      obtain ⟨e, he, hb⟩ := hitem
      refine iff_of_false (fun h => ?_) hc
      simpa [skipped, hb] using h e he
  have hstep : next (withCertificate py rest) = certsAfter py :=
    funext fun certs => funext fun item => withCertificate_eq.1
  obtain ⟨hraised, hresults⟩ := @attempts_spec _ _ _ _ (withCertificate py rest)
    (skipped mode) items ⟨certs, [], [], none⟩ rfl
  rw [hstep] at hraised hresults
  have hiff := hraised.trans (allMeet_congr hskip items)
  refine ⟨hiff, fun h => (congrArg (List.map combo) (hresults h)).trans ?_⟩
  refine map_outputs_eq (fun certs item hcond => ?_) (hiff.mp h)
  have hitem := withCertificate_tells py hrest certs item
  rw [if_pos hcond] at hitem
  unfold gained
  rcases hr : (withCertificate py rest certs item).2 with e | r
  · rw [hr] at hitem
    rw [if_neg (by simp [hitem.1])]
    rfl
  · rw [hr] at hitem
    rw [if_pos hitem.1]
    exact congrArg (fun c => [c]) hitem.2

/-- The packet workflow has one client. -/
theorem measured_one (o : Outcomes) :
    measured py [1] o = (ends o && ((o.clients 1).rtt py).isSome) := by
  unfold measured ends Client.rtt
  rcases hc : o.clients 1 with _ | _ <;> cases o.server.isRunning <;>
    simp [hc, Client.output, Client.isTimeout]

end Loops

/-- The rows of the packet workflow are those of the clients that ran to their ends, and are not
written when there are none. -/
theorem packetRows_iff {items : List (AlgorithmCombo × Outcomes)} {results : List PacketCountResult}
    (hrows : results.map PacketCountResult.combo =
      (items.filter fun item => ends item.2).map Prod.fst) :
    (if results = [] then none else some results).map (·.map PacketCountResult.combo) =
        some ((items.filter fun item => measured py [1] item.2).map Prod.fst) ↔
      (∀ item ∈ items, ends item.2 = true → ((item.2.clients 1).rtt py).isSome = true) ∧
        ∃ item ∈ items, measured py [1] item.2 = true := by
  have hends : ∀ item : AlgorithmCombo × Outcomes,
      measured py [1] item.2 = true → ends item.2 = true := by
    intro item h
    rw [measured_one, Bool.and_eq_true] at h
    exact h.1
  have hempty : results = [] ↔ ∀ item ∈ items, ends item.2 = false := by
    rw [← List.map_eq_nil_iff, hrows]
    simp [List.filter_eq_nil_iff]
  by_cases hnil : results = []
  · rw [if_pos hnil]
    refine iff_of_false (by simp) fun ⟨_, item, hitem, hm⟩ => ?_
    rw [hempty] at hnil
    exact absurd (hends item hm) (by simp [hnil item hitem])
  · have hall : (∀ item ∈ items, ends item.2 = true → measured py [1] item.2 = true) ↔
        ∀ item ∈ items, ends item.2 = true → ((item.2.clients 1).rtt py).isSome = true := by
      refine forall₂_congr fun item _ => forall_congr' fun he => ?_
      rw [measured_one, he, Bool.true_and]
    rw [if_neg hnil, Option.map_some, Option.some.injEq, hrows,
      map_filter_eq_iff (fun item => hends item), hall]
    refine ⟨fun h => ⟨h, ?_⟩, fun h => h.1⟩
    rw [hempty] at hnil
    push Not at hnil
    obtain ⟨item, hitem, he⟩ := hnil
    have he : ends item.2 = true := by simpa using he
    exact ⟨item, hitem, hall.mpr h item hitem he⟩

/-- **Failures are isolated** in the benchmark exactly when there is something to do and no command
for a certificate fails; in the packet workflow also all logs have to be readable, every client that
runs to its end has to tell its time, and there has to be one. -/
theorem isolated_iff (mode : Mode) (hmode : mode ≠ .one) (count : ℤ) (certs : Certs)
    (items : List (AlgorithmCombo × Outcomes)) :
    (Isolated BenchmarkResult.combo (measured py (iterationNumbers count.toNat)) items
        (mainBenchmark py cfg summarise mode count certs items) ↔
      items ≠ [] ∧ 0 < count ∧
        AllMeet (certsAfter py) (fun certs item => certFails py certs item = false) certs items) ∧
    (Isolated PacketCountResult.combo (measured py [1]) items
      (runPacketWorkflow py cfg mode certs items) ↔
      AllMeet (certsAfter py) (fun certs item => certFails py certs item = false ∧
        readable item.2 = true)
          certs items ∧
        (∀ item ∈ items, ends item.2 = true → ((item.2.clients 1).rtt py).isSome = true) ∧
        ∃ item ∈ items, measured py [1] item.2 = true) := by
  constructor
  · obtain ⟨hraised, hresults⟩ := @loop_spec py _ BenchmarkResult.combo mode
      (measureHandshakes py cfg summarise count.toNat) (measured py (iterationNumbers count.toNat))
      (fun _ => true) hmode (fun item => measureHandshakes_tells summarise count.toNat item)
      certs items
    simp only [and_true] at hraised
    unfold mainBenchmark
    by_cases hitems : items = []
    · simp [Isolated, hitems]
    rw [if_neg hitems, and_iff_right hitems]
    by_cases hcount : count ≤ 0
    · rw [if_pos hcount]
      exact iff_of_false (fun h => by cases h.1) fun h => by omega
    rw [if_neg hcount, and_iff_right (not_le.mp hcount), ← hraised]
    dsimp only
    rcases hr : (loop mode (runBenchmark py cfg summarise count.toNat) certs items).raised
      with _ | e
    · exact iff_of_true ⟨rfl, congrArg some (hresults hr)⟩ hr
    · exact iff_of_false (fun h => by cases h.1) fun h => by cases hr.symm.trans h
  · obtain ⟨hraised, hresults⟩ := @loop_spec py _ PacketCountResult.combo mode
      (captureHandshake py cfg) ends readable hmode captureHandshake_tells certs items
    unfold runPacketWorkflow
    by_cases hitems : items = []
    · simp [Isolated, hitems]
    rw [if_neg hitems, ← hraised]
    dsimp only
    rcases hr : (loop mode (runSingleHandshake py cfg) certs items).raised with _ | e
    · rw [← packetRows_iff py (hresults hr)]
      exact (and_iff_right rfl).trans (and_iff_right hr).symm
    · exact iff_of_false (fun h => by cases h.1) fun h => by cases hr.symm.trans h.1

/-! ### Runs -/

/-- A number without sign and exponent. -/
def plainFloat (s : Text) : Option ℚ := if s.all isNum then floatOf s else none

def asciiPython : Python := ⟨asciiLower, plainFloat⟩

def comboOfNames (kem signature : String) : AlgorithmCombo :=
  ⟨kem.toList, signature.toList, .pqc, .pqc, kem.toList, signature.toList⟩

/-- Everything works, and the client prints this. -/
def prints (stdout : String) : Outcomes where
  genpkey := ⟨0, true⟩
  req := ⟨0, true⟩
  server := .runs []
  clients := fun _ => .exits 0 stdout.toList []

/-- `openssl genpkey` fails. -/
def noKey : Outcomes := { prints "" with genpkey := ⟨1, false⟩ }

def noCerts : Certs := ⟨fun _ => false, fun _ => false⟩

def plainSettings : Settings := ⟨"/app/results".toList, 0, "none".toList⟩

/-- A server that exits early is skipped, and the client of the second combination tells its
time. -/
theorem isolated_iff_skipped :
    let items := [(comboOfNames "mlkem512" "mldsa44", { prints "" with server := .exits [] }),
      (comboOfNames "mlkem768" "mldsa65", prints "Handshake-RTT: 1.25 ms")]
    Isolated BenchmarkResult.combo (measured asciiPython (iterationNumbers 2)) items
        (mainBenchmark asciiPython plainSettings id .all 2 noCerts items) ∧
      Isolated PacketCountResult.combo (measured asciiPython [1]) items
        (runPacketWorkflow asciiPython plainSettings .all noCerts items) := by
  intro items
  have h := isolated_iff asciiPython plainSettings id .all (by decide) 2 noCerts items
  refine ⟨h.1.mpr ⟨by simp [items], by decide, ?_⟩, h.2.mpr ⟨?_, ?_, ?_⟩⟩
  · exact ⟨by decide +kernel, by decide +kernel, trivial⟩
  · exact ⟨by decide +kernel, by decide +kernel, trivial⟩
  · refine List.forall_mem_cons.mpr ⟨?_, List.forall_mem_singleton.mpr ?_⟩ <;> decide +kernel
  · exact ⟨_, List.mem_cons_of_mem _ List.mem_cons_self, by decide +kernel⟩

/-- A key that cannot be made ends the benchmark before the second combination; a client that tells
no time gets a row with the time 0. -/
theorem isolated_not :
    (mainBenchmark asciiPython plainSettings id .all 1 noCerts
        [(comboOfNames "mlkem512" "mldsa44", noKey),
          (comboOfNames "mlkem768" "mldsa65", prints "Handshake-RTT: 1.25 ms")]).raised =
        some (.calledProcess 1) ∧
      ((runPacketWorkflow asciiPython plainSettings .all noCerts
        [(comboOfNames "mlkem512" "mldsa44", prints "connection refused")]).summary.map
          (·.map fun r => (r.combo, r.handshakeMs))) =
            some [(comboOfNames "mlkem512" "mldsa44", 0)] := by
  decide +kernel

end PapQuic.Script.Workflow
