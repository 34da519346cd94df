import Orchestrail.Spec.Archive
import Orchestrail.Spec.Notification

/-!
# Verification of an integration tip

`verification.rs` with the typed argument vectors of `command_line.rs` and the verdicts of
`supervise.rs`: the profile and its fingerprint, the sequential run of its commands, the evidence a
run leaves and the check it is accepted by.

What a supervised child does is up to the environment. The encoding of JSON strings and SHA-256 are
parameters.
-/

namespace Orchestrail

open Text Outcome

/-! ## Typed argument vectors -/

inductive ArgvQuote where
  | single | double
  deriving DecidableEq

/-- The characters a shell would interpret outside of quotes. -/
def isShellOperator (ch : Char) : Bool :=
  ['|', '&', ';', '<', '>', '$', '(', ')', '\x60'].contains ch

/-- The loop of `parse_typed_argv`: the arguments so far, the one that is read, whether it has
started, and the quote that is open. -/
def readArgv : List (List Char) → List Char → Bool → Option ArgvQuote → List Char →
    Except String (List (List Char))
  | _, _, _, some _, [] => .error "unterminated quoted argument"
  | argv, current, true, none, [] => .ok (argv ++ [current])
  | argv, _, false, none, [] => .ok argv
  | argv, current, _, some .single, ch :: rest =>
    if ch = '\'' then readArgv argv current true none rest
    else readArgv argv (current ++ [ch]) true (some .single) rest
  | argv, current, _, some .double, '\\' :: ch :: rest =>
    if ch = '"' ∨ ch = '\\' then readArgv argv (current ++ [ch]) true (some .double) rest
    else readArgv argv (current ++ ['\\']) true (some .double) (ch :: rest)
  | argv, current, _, some .double, ch :: rest =>
    if ch = '"' then readArgv argv current true none rest
    else readArgv argv (current ++ [ch]) true (some .double) rest
  | argv, current, started, none, ch :: rest =>
    if ch = '\'' then readArgv argv current true (some .single) rest
    else if ch = '"' then readArgv argv current true (some .double) rest
    else if isWhiteSpace ch then
      if started then readArgv (argv ++ [current]) [] false none rest
      else readArgv argv current false none rest
    else if isShellOperator ch then .error
      s!"shell operator '{ch}' is not permitted; configure one executable and typed arguments"
    else readArgv argv (current ++ [ch]) true none rest

def shellStems : List String :=
  ["cmd", "sh", "bash", "dash", "ksh", "zsh", "fish", "busybox", "pwsh", "powershell"]

/-- The name of a file without its last extension (`rsplit_once('.')`). -/
def fileStem (name : List Char) : List Char :=
  if name.contains '.' then (name.rdropWhile (· ≠ '.')).dropLast else name

/-- The executable is named directly and is not a shell. -/
def validateDirectProgram (program : List Char) : Except String Unit := do
  demand (program ≠ [] ∧ program.contains '\x00' = false ∧ program.contains '\n' = false ∧
      program.contains '\r' = false)
    "executable must be non-empty and contain no NUL or line break"
  let name := (pieces (fun ch => ch = '/' ∨ ch = '\\') program).getLastD program
  let executable := (name.rdropWhile fun ch => ch = '.' ∨ ch = ' ').map Char.toLower
  demand (shellStems.contains (String.ofList (fileStem executable)) = false)
    (s!"shell executable {quoted (String.ofList program)} is not permitted; " ++
      "configure the target executable directly")

def parseTypedArgv (command : String) : Except String (List (List Char)) := do
  demand (isBlank command = false ∧ contains command '\x00' = false)
    "command must be non-empty and contain no NUL byte"
  let argv ← readArgv [] [] false none command.toList
  match argv with
  | [] => .error "command has no executable"
  | program :: _ => do
    validateDirectProgram program
    .ok argv

/-! ## Supervised children -/

def SuperviseReason.asStr : SuperviseReason → String
  | .ok => "ok"
  | .timeout => "timeout"
  | .cancelled => "cancelled"
  | .crash => "crash"
  | .error => "error"

/-- Verdict of one supervised call. -/
structure SuperviseVerdict where
  reason : SuperviseReason
  exitCode : Option Int
  timedOut : Bool
  cancelled : Bool
  durationMs : Nat
  stdout : String
  stderr : String
  outcomeReason : String

/-- The structured error of a contained command. -/
inductive ContainedError where
  | cancelled | timeout | notStarted | outputTooLarge | other
  deriving DecidableEq

/-- What the environment makes of one call. -/
inductive CallEnd where
  | cancelledBeforeSpawn
  | noRuntime (error : String)
  | finished (timedOut : Bool) (code signal : Option Int) (stdout stderr : String)
  | failed (kind : ContainedError) (code : Option Int) (error stdout stderr : String)

def verdictFromResult (deadlineSecs durationMs : Nat) (timedOut : Bool) (code signal : Option Int)
    (stdout stderr : String) : SuperviseVerdict :=
  if timedOut then
    ⟨.timeout, none, true, false, durationMs, stdout, stderr,
      s!"deadline exceeded ({deadlineSecs}s)"⟩
  else
    match code with
    | some code =>
      if code = 0 then ⟨.ok, some 0, false, false, durationMs, stdout, stderr, "exit code 0"⟩
      else ⟨.error, some code, false, false, durationMs, stdout, stderr, s!"exit code {code}"⟩
    | none => ⟨.crash, none, false, false, durationMs, stdout, stderr,
        match signal with
        | some signal => s!"terminated by signal {signal}"
        | none => "terminated without an exit code"⟩

def verdictFromError (deadlineSecs durationMs : Nat) (kind : ContainedError) (code : Option Int)
    (error stdout stderr : String) : SuperviseVerdict :=
  match kind with
  | .cancelled => ⟨.cancelled, none, false, true, durationMs, stdout, stderr, "cancel requested"⟩
  | .timeout =>
    ⟨.timeout, none, true, false, durationMs, stdout, stderr,
      s!"deadline exceeded ({deadlineSecs}s)"⟩
  | .notStarted =>
    ⟨.crash, code, false, false, durationMs, stdout, stderr, s!"spawn failed: {error}"⟩
  | .outputTooLarge =>
    ⟨.error, code, false, false, durationMs, stdout, stderr,
      s!"output capture limit exceeded: {error}"⟩
  | .other =>
    ⟨.crash, code, false, false, durationMs, stdout, stderr, s!"processkit failed: {error}"⟩

/-- `supervise::run`. -/
def supervise (deadlineSecs durationMs : Nat) : CallEnd → SuperviseVerdict
  | .cancelledBeforeSpawn =>
    ⟨.cancelled, none, false, true, durationMs, "", "", "cancel requested before spawn"⟩
  | .noRuntime error =>
    ⟨.crash, none, false, false, durationMs, "", "", s!"runtime initialization failed: {error}"⟩
  | .finished timedOut code signal stdout stderr =>
    verdictFromResult deadlineSecs durationMs timedOut code signal stdout stderr
  | .failed kind code error stdout stderr =>
    verdictFromError deadlineSecs durationMs kind code error stdout stderr

/-! ## Profiles -/

inductive VerificationMode where
  | disabled | auto | required
  deriving DecidableEq

/-- A command profile bound to its fingerprint. -/
structure VerificationProfile where
  mode : String
  state : String
  source : String
  commands : List String
  fingerprint : String
  deriving DecidableEq

structure VerificationCommandRun where
  command : String
  reason : String
  exitCode : Option Int
  deriving DecidableEq

structure VerificationRun where
  outcome : VerificationOutcome
  transcript : String
  profile : VerificationProfile
  /-- One result for each command that started. -/
  commands : List VerificationCommandRun

structure VerificationEvidence where
  schema : String
  verdict : String
  verifiedHead : String
  base : String
  profileFingerprint : String
  profileState : String
  profileSource : String
  commands : List VerificationCommandRun
  exemption : String
  updatedAt : String
  deriving DecidableEq

def missingProfileReason : String :=
  "verification profile is required but VERIFICATION_COMMANDS and SMOKE_CMD are absent"

def evidenceSchema : String := "orchestra/verification@1"

/-- A number with that many hexadecimal digits. -/
def hexPad : Nat → Nat → List Char
  | 0, _ => []
  | width + 1, n => hexPad width (n / 16) ++ [Nat.digitChar (n % 16)]

def hex (bytes : List UInt8) : String := String.ofList (bytes.flatMap fun b => hexPad 2 b.toNat)

def AttemptSignature.asStr (signature : AttemptSignature) : String :=
  String.ofList (hexPad 16 signature.hash.toNat)

def oneLine (value : String) : String :=
  String.ofList ([' '].intercalate (splitWhitespace value.toList))

/-- The crates a fingerprint is computed with. -/
structure ProfileCodec where
  jsonString : String → String
  jsonStrings : List String → String
  sha256 : List UInt8 → List UInt8

section Profile

variable (codec : ProfileCodec)

/-- Bind a mode, a source and the commands into one snapshot. -/
def fingerprintedProfile (mode source : String) (commands : List String) : VerificationProfile :=
  let state :=
    if mode = "disabled" then "disabled"
    else if commands.isEmpty then "missing"
    else "configured"
  let canonical := "\x7b\"mode\":" ++ codec.jsonString mode ++ ",\"source\":" ++
    codec.jsonString source ++ ",\"commands\":" ++ codec.jsonStrings commands ++ "\x7d"
  { mode, state, source, commands, fingerprint := hex (codec.sha256 (utf8 canonical)) }

def VerificationMode.asStr : VerificationMode → String
  | .disabled => "disabled"
  | .auto => "auto"
  | .required => "required"

def profileWithPolicyCommands (mode : VerificationMode) (verificationCommands : List String)
    (smokeCmd : Option String) (policyCommands : List String) : VerificationProfile :=
  let (source, commands) :=
    if verificationCommands ≠ [] then ("VERIFICATION_COMMANDS", verificationCommands)
    else
      match smokeCmd with
      | some smoke => ("SMOKE_CMD", [smoke])
      | none => ("none", [])
  let source := if policyCommands = [] then source else "policy-required+" ++ source
  fingerprintedProfile codec mode.asStr source (commands ++ policyCommands)

def verificationProfile (mode : VerificationMode) (verificationCommands : List String)
    (smokeCmd : Option String) : VerificationProfile :=
  profileWithPolicyCommands codec mode verificationCommands smokeCmd []

end Profile

inductive ProfileDisposition where
  | exempt (reason : String)
  | blocked (reason : String)
  | configured

def disposition (profile : VerificationProfile) : ProfileDisposition :=
  if profile.state = "disabled" then .exempt "operator-disabled"
  else if profile.state = "configured" then .configured
  else .blocked missingProfileReason

/-! ## The run -/

def integrationFindingSubject : String := "integration verification failed"

structure CommandSequenceRun where
  outcome : VerificationOutcome
  transcript : String
  commands : List VerificationCommandRun

/-- A transcript with the captured output of one stream. -/
def withCapture (label text transcript : String) : String :=
  if text = "" then transcript
  else
    let captured := transcript ++ label ++ ":\n" ++ text
    if captured.toList.getLast? = some '\n' then captured else captured ++ "\n"

def debugExit : Option Int → String
  | some code => s!"Some({code})"
  | none => "None"

/-- The calls of a run: how the call of that number and argument vector ends, and how long it
took. -/
abbrev Children := Nat → List (List Char) → CallEnd × Nat

section Run

variable (children : Children) (deadlineSecs : Nat)

def verdictOf (number : Nat) (argv : List (List Char)) : SuperviseVerdict :=
  supervise deadlineSecs (children number argv).2 (children number argv).1

/-- The loop of `run_command_sequence`, from the command of that number on. -/
def runInvocations (subject : String) : Nat → String → List VerificationCommandRun →
    List (String × List (List Char)) → CommandSequenceRun
  | _, transcript, results, [] => ⟨.passed, transcript, results⟩
  | number, transcript, results, (command, argv) :: rest =>
    let verdict := verdictOf children deadlineSecs number argv
    let line := s!"command={number}; verdict={verdict.reason.asStr}; " ++
      s!"exit={debugExit verdict.exitCode}; duration-ms={verdict.durationMs}; " ++
      s!"reason={oneLine verdict.outcomeReason}\n"
    let transcript :=
      withCapture "stderr" verdict.stderr (withCapture "stdout" verdict.stdout (transcript ++ line))
    let results := results ++ [⟨command, verdict.reason.asStr, verdict.exitCode⟩]
    if verdict.reason = .ok then runInvocations subject (number + 1) transcript results rest
    else
      let reason := s!"verification command #{number} ended {verdict.reason.asStr} " ++
        s!"({oneLine verdict.outcomeReason})"
      let outcome :=
        if verdict.reason = .cancelled then .blocked reason
        else
          .failed (AttemptSignature.ofFinding subject
            s!"{number}:{command}:{verdict.reason.asStr}").asStr reason
      ⟨outcome, transcript, results⟩

/-- The commands with their argument vectors, all decoded before the first one runs. -/
def decodeInvocations (commands : List String) :
    Except String (List (String × List (List Char))) :=
  commands.mapM fun command =>
    match parseTypedArgv command with
    | .ok argv => .ok (command, argv)
    | .error error => .error s!"invalid typed verification command {quoted command}: {error}"

def runCommandSequence (commands : List String) (subject : String) : CommandSequenceRun :=
  match decodeInvocations commands with
  | .error reason => ⟨.blocked reason, s!"verification=blocked; reason={reason}\n", []⟩
  | .ok invocations => runInvocations children deadlineSecs subject 1 "" [] invocations

/-- Execute the configured integration profile sequentially. -/
def verifyIntegration (codec : ProfileCodec) (mode : VerificationMode)
    (verificationCommands : List String) (smokeCmd : Option String) : VerificationRun :=
  let profile := verificationProfile codec mode verificationCommands smokeCmd
  match disposition profile with
  | .exempt reason =>
    ⟨.exempt reason, "verification=exempt; reason=operator-disabled\n", profile, []⟩
  | .blocked reason => ⟨.blocked reason, s!"verification=blocked; reason={reason}\n", profile, []⟩
  | .configured =>
    let sequence := runCommandSequence children deadlineSecs profile.commands
      integrationFindingSubject
    ⟨sequence.outcome, sequence.transcript, profile, sequence.commands⟩

end Run

/-! ## Evidence -/

/-- The interoperable document of a run. -/
def VerificationRun.evidence (run : VerificationRun) (head base updatedAt : String) :
    VerificationEvidence :=
  let (verdict, exemption) :=
    match run.outcome with
    | .passed => ("pass", "")
    | .exempt reason => ("exempt", reason)
    | .failed _ _ => ("failed", "")
    | .blocked reason =>
      ("blocked", if reason = missingProfileReason then "missing-profile" else "invalid-profile")
  { schema := evidenceSchema, verdict, verifiedHead := head, base
    profileFingerprint := run.profile.fingerprint, profileState := run.profile.state
    profileSource := run.profile.source, commands := run.commands, exemption, updatedAt }

/-- The document of an exemption without a run. -/
def exemptionEvidence (profile : VerificationProfile) (head base reason updatedAt : String) :
    VerificationEvidence :=
  { schema := evidenceSchema, verdict := "exempt", verifiedHead := head, base
    profileFingerprint := profile.fingerprint, profileState := profile.state
    profileSource := profile.source, commands := [], exemption := reason, updatedAt }

/-- The verdict evidence of an outcome has. -/
def VerificationOutcome.verdict : VerificationOutcome → String
  | .passed => "pass"
  | .exempt _ => "exempt"
  | .failed _ _ => "failed"
  | .blocked _ => "blocked"

/-- The check of the exemption an outcome leaves. -/
def validateExemption (exemption : String) : VerificationOutcome → Except String Unit
  | .exempt reason => demand (exemption = reason)
    (s!"verification evidence exemption {quoted exemption} disagrees with native outcome " ++
      quoted reason)
  | .passed => demand (exemption = "")
    "passing verification evidence must not contain an exemption"
  | .failed _ _ => demand (exemption = "")
    "failed verification evidence must not contain an exemption"
  | .blocked _ => demand (exemption = "missing-profile" ∨ exemption = "invalid-profile")
    "blocked verification evidence must record missing-profile or invalid-profile"

/-- The check of the started commands an outcome leaves. -/
def validateStarted (commands : List VerificationCommandRun) (expected : Nat) :
    VerificationOutcome → Except String Unit
  | .passed => do
    demand (commands.length = expected)
      "passing verification evidence did not record every configured command"
    demand (commands.any (fun command => command.reason ≠ "ok" ∨ command.exitCode ≠ some 0) = false)
      "passing verification evidence contains a command that did not succeed"
  | .exempt _ | .blocked _ => demand (commands = [])
    "exempt or blocked verification evidence must not report started commands"
  | .failed _ _ => do
    demand (commands ≠ []) "failed verification evidence did not record its failed command"
    demand (commands.getLast?.all (·.reason = "ok") = false)
      "failed verification evidence has no failed terminal command"

/-- Evidence is authoritative for an outcome, a tip, a base and, if given, a profile. -/
def validateEvidenceForProfile (evidence : VerificationEvidence) (outcome : VerificationOutcome)
    (head base : String) (expectedProfile : Option VerificationProfile) : Except String Unit := do
  demand (evidence.schema = evidenceSchema)
    s!"verification evidence has unsupported schema {quoted evidence.schema}"
  demand (evidence.verifiedHead = head ∧ evidence.base = base)
    (s!"verification evidence is stale (head={quoted evidence.verifiedHead}, " ++
      s!"base={quoted evidence.base}; expected head={quoted head}, base={quoted base})")
  demand (evidence.verdict = outcome.verdict)
    (s!"verification evidence verdict {quoted evidence.verdict} disagrees with native outcome " ++
      quoted outcome.verdict)
  validateExemption evidence.exemption outcome
  demand (isHex 64 evidence.profileFingerprint = true)
    "verification evidence has an invalid profile fingerprint"
  match expectedProfile with
  | none => .ok ()
  | some profile => do
    demand (evidence.profileFingerprint = profile.fingerprint ∧
        evidence.profileState = profile.state ∧ evidence.profileSource = profile.source)
      ("verification evidence profile does not match the immutable startup snapshot " ++
        s!"(fingerprint={quoted evidence.profileFingerprint}, " ++
        s!"state={quoted evidence.profileState}, source={quoted evidence.profileSource})")
    demand (evidence.commands.length ≤ profile.commands.length ∧
        (evidence.commands.zip profile.commands).all (fun (result, command) =>
          result.command = command) = true)
      "verification evidence commands do not match the configured profile"
    validateStarted evidence.commands profile.commands.length outcome

end Orchestrail
