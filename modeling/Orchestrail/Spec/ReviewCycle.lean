import Orchestrail.Spec.ReviewGate

/-!
# The gate of the review cycle

The part of `native_port.rs` that holds a review round to the engine's own proof: a failed
verification of the reviewed head is rendered as one open finding, mixed into `review.md` before the
terminal line, and imposed again on what the reviewer returns.

The file is its text, absent or present. The replacement of the file is a parameter (`Replace`); an
error of the port ends the round.
-/

namespace Orchestrail

open Text Outcome

def reviewCycleFindingTitle : String := "Проверка сборки/линта на цикле ревью не прошла"

def reviewCycleRoundSubject : String := "review round with a failed review-cycle gate"

def reviewCycleTranscriptFile : String := "review-cycle-verification.md"

def maxReviewCycleExcerptBytes : Nat := 4096

def maxReviewArtifactBytes : Nat := 4194304

/-! ## The finding -/

/-- The text behind a byte offset, from the next character on. -/
def dropBytes : Nat → List Char → List Char
  | 0, text => text
  | _, [] => []
  | offset + 1, ch :: text => dropBytes (offset + 1 - ch.utf8Size) text

def boundedTranscriptTail (text : List Char) (maxBytes : Nat) : List Char :=
  if textBytes text ≤ maxBytes then text
  else
    let tail := dropBytes (textBytes text - maxBytes) text
    (s!"[усечено: показаны последние {textBytes tail} из {textBytes text} байт]\n").toList ++ tail

def quoteExternalOutput (text : List Char) : List Char :=
  match textLines text with
  | [] => "| (пусто)\n".toList
  | lines => lines.flatMap fun line =>
    "| ".toList ++ line.filter (fun ch => ch == '\t' || !isControl ch) ++ ['\n']

/-- `str::parse::<u32>`. -/
def parseU32 (text : List Char) : Option Nat :=
  let digits := match text with
    | '+' :: digits => digits
    | _ => text
  if digits ≠ [] ∧ digits.all isAsciiDigit ∧ Nat.ofDigitChars 10 digits 0 ≤ u32Max then
    some (Nat.ofDigitChars 10 digits 0)
  else none

/-- The numbers of the `R-` findings of an artifact. -/
def reviewNumbers (parsed : ReviewParse) : List Nat :=
  (parsed.findings.filter (·.isReview)).filterMap fun finding =>
    (stripFront "R-".toList finding.id.toList).bind parseU32

def highestReviewNumber (parsed : ReviewParse) : Nat := (reviewNumbers parsed).max?.getD 0

def nextReviewFindingId (parsed : ReviewParse) : String :=
  String.ofList ("R-".toList ++ padded 2 (satAdd (highestReviewNumber parsed) 1))

def reviewCycleFindingDocument (id : String) (body : List Char) : List Char :=
  ("### [" ++ id ++ "] " ++ reviewCycleFindingTitle ++ " — статус: новая\n").toList ++ body

def exitCodeText : Option Int → String
  | none => "нет"
  | some code => toString code

/-- The item of the last command that started. -/
def failedCommandItem : Option VerificationCommandRun → List Char
  | some command =>
    ("- Упавшая команда: " ++ oneLine command.command ++ " — verdict=" ++
      oneLine command.reason ++ ", exit=" ++ exitCodeText command.exitCode ++ ".\n").toList
  | none => []

/-- Everything below the heading of the finding. -/
def renderReviewCycleFindingBody (taskId : String) (profile : VerificationProfile)
    (run : VerificationRun) (reason : String) : List Char :=
  ("- Обнаружено движком " ++ "в worktree задачи " ++ "до вызова ревьюера " ++
    "этого цикла: профиль " ++ oneLine profile.source ++ " (отпечаток " ++
    String.ofList (profile.fingerprint.toList.take 12) ++ "), команд " ++
    toString profile.commands.length ++ ".\n").toList ++
  failedCommandItem run.commands.getLast? ++
  ("- Причина: " ++ oneLine reason ++ ".\n").toList ++
  ("- Полный протокол " ++ "прогона: .work/tasks/" ++ taskId ++ "/" ++
    reviewCycleTranscriptFile ++ "\n").toList ++
  ("- Хвост вывода " ++ "(внешние данные; " ++ "каждая строка " ++ "префиксована \x60| \x60, " ++
    "чтобы вывод не мог " ++ "подделать маркеры " ++ "ревью):\n\n").toList ++
  quoteExternalOutput (boundedTranscriptTail run.transcript.toList maxReviewCycleExcerptBytes)

/-! ## Mixing it in -/

/-- `Iterator::rposition`. -/
def rposition {α : Type} (p : α → Bool) : List α → Option Nat
  | [] => none
  | a :: l =>
    match rposition p l with
    | some index => some (index + 1)
    | none => if p a then some 0 else none

def joinLines (lines : List (List Char)) : List Char := ['\n'].intercalate lines

/-- Put a finding in front of the terminal line, or at the end if there is none. -/
def mergeReviewCycleFinding (existing : Option (List Char)) (finding : List Char) : List Char :=
  match (existing.map trimEnd).filter fun text => !(trim text).isEmpty with
  | none => finding
  | some existing =>
    let lines := textLines existing
    let terminal := (rposition (fun line => !(trim line).isEmpty) lines).filter fun index =>
      isTailLine ((lines.getD index []).dropWhile isWhiteSpace)
    match terminal with
    | some index =>
      let head := trimEnd (joinLines (lines.take index))
      let tail := joinLines (lines.drop index)
      if head.isEmpty then finding ++ ['\n'] ++ tail ++ ['\n']
      else head ++ ['\n', '\n'] ++ finding ++ ['\n'] ++ tail ++ ['\n']
    | none => existing ++ ['\n', '\n'] ++ finding

inductive NativePortError where
  | control (error : IoError)
  /-- the parser of the artifact stops at a heading -/
  | panic (slice : SlicePanic)
  deriving DecidableEq

abbrev Port (α : Type) := Except NativePortError α

/-- What a replacement of a file by a text answers. -/
abbrev Replace := List Char → Except IoError Unit

/-- `review.md` of a task: its text, if the file is there. -/
abbrev ReviewArtifact := Option (List Char)

def readReviewArtifact (file : ReviewArtifact) : Port ReviewArtifact :=
  if maxReviewArtifactBytes < textBytes (file.getD []) then
    .error (.control ⟨.invalidData, "control-plane artifact exceeds 4194304 bytes"⟩)
  else .ok file

/-- The findings of the file, none if it is absent. -/
def parseArtifact (file : ReviewArtifact) : Port ReviewParse :=
  match parseReview (file.getD []) with
  | .ok parsed => .ok parsed
  | .error slice => .error (.panic slice)

def replaceReviewArtifact (replace : Replace) (document : List Char) : Port ReviewArtifact :=
  if maxReviewArtifactBytes < textBytes document then
    .error (.control ⟨.invalidInput, "control-plane artifact exceeds 4194304 bytes"⟩)
  else
    match replace document with
    | .ok () => .ok (some document)
    | .error error => .error (.control error)

/-- An open finding of the engine stands in the artifact. -/
def carriesGateFinding (parsed : ReviewParse) : Bool :=
  parsed.openReviewFindings.any (·.title == reviewCycleFindingTitle)

/-- `review.md` with the finding mixed in, unless one of the engine's is still open. -/
def mixReviewCycleFinding (replace : Replace) (file : ReviewArtifact) (body : List Char) :
    Port ReviewArtifact := do
  let existing ← readReviewArtifact file
  let parsed ← parseArtifact existing
  if carriesGateFinding parsed then .ok file
  else
    let finding := reviewCycleFindingDocument (nextReviewFindingId parsed) body
    replaceReviewArtifact replace (mergeReviewCycleFinding existing finding)

/-! ## Holding a round to the gate -/

structure ReviewCycleGateFailure where
  signature : String
  body : List Char

/-- The result of the gate for one head of a task. -/
structure ReviewCycleGateRecord where
  head : String
  failure : Option ReviewCycleGateFailure

/-- The failure the record carries for a head. -/
def ReviewCycleGateRecord.failureOf (record : Option ReviewCycleGateRecord) (head : String) :
    Option ReviewCycleGateFailure :=
  (record.filter fun record => record.head == head).bind (·.failure)

/-- The signature of a round whose gate failed: the reviewer's findings, without the engine's. -/
def reviewCycleRoundSignature (file : ReviewArtifact) (gateSignature : String) : Port String := do
  let artifact ← readReviewArtifact file
  let parsed ← parseArtifact artifact
  let reviewerSignature := findingSignature
    (parsed.openReviewFindings.filter fun finding => finding.title != reviewCycleFindingTitle)
  .ok (AttemptSignature.ofFinding reviewCycleRoundSubject
    (gateSignature ++ "\n" ++ reviewerSignature)).asStr

def ReviewOutcome.risk : ReviewOutcome → Option Risk
  | .cleanRiskElevated _ risk | .findingsRiskElevated _ risk _ _ => some risk
  | _ => none

/-- The outcome ends the task or repeats the round. -/
def ReviewOutcome.undecided : ReviewOutcome → Bool
  | .escalated _ | .incomplete => true
  | _ => false

/-- A round the gate holds open. -/
def heldOpen (risk : Option Risk) (signature : String) (openFindings : Nat)
    (openFindingIds : List String) : ReviewOutcome :=
  match risk with
  | some risk => .findingsRiskElevated signature risk openFindings openFindingIds
  | none => .findings signature openFindings openFindingIds

/-- The artifact as the route leaves it: with the finding restored, or untouched. -/
def routedArtifact (replace : Replace) (restoreFinding : Bool) (file : ReviewArtifact)
    (body : List Char) : Port ReviewArtifact :=
  if restoreFinding then mixReviewCycleFinding replace file body else .ok file

/-- The ids behind the count: read from the restored artifact, or foretold. -/
def routedFindingIds (restoreFinding : Bool) (restored : ReviewArtifact) (parsed : ReviewParse)
    (reviewerOpenFindingIds : List String) : Port (List String) :=
  if restoreFinding then do
    let artifact ← readReviewArtifact restored
    match artifact with
    | none => .ok []
    | some text => do
      let reparsed ← parseArtifact (some text)
      .ok (reparsed.openReviewFindings.map (·.id))
  else if carriesGateFinding parsed then .ok reviewerOpenFindingIds
  else .ok (reviewerOpenFindingIds ++ [nextReviewFindingId parsed])

/-- What the reducer is told of a review, and the artifact as it stands then. -/
def enforceReviewCycleGate (replace : Replace) (record : Option ReviewCycleGateRecord)
    (head : String) (outcome : ReviewOutcome) (restoreFinding : Bool) (file : ReviewArtifact) :
    Port (ReviewOutcome × ReviewArtifact) :=
  match ReviewCycleGateRecord.failureOf record head with
  | none => .ok (outcome, file)
  | some failure =>
    if outcome.undecided then .ok (outcome, file)
    else do
      let (reviewerOpenFindings, reviewerOpenFindingIds) := outcome.listed.getD (0, [])
      let parsed ← parseArtifact (← readReviewArtifact file)
      let gateAlreadyCounted := outcome.listed.isSome && carriesGateFinding parsed
      let restored ← routedArtifact replace restoreFinding file failure.body
      let openFindings := satAdd reviewerOpenFindings (if gateAlreadyCounted then 0 else 1)
      let openFindingIds ← routedFindingIds restoreFinding restored parsed reviewerOpenFindingIds
      let signature ← reviewCycleRoundSignature restored failure.signature
      .ok (heldOpen outcome.risk signature openFindings openFindingIds, restored)

/-- What stands in `review.md` when a leaf of this kind starts on the reviewed head. -/
def restoreReviewCycleFindingBeforeFix (replace : Replace)
    (record : Option ReviewCycleGateRecord) (kind : LeafKind) (reviewSha : Option String)
    (file : ReviewArtifact) : Port ReviewArtifact :=
  if kind ≠ .fix then .ok file
  else
    match reviewSha.bind (ReviewCycleGateRecord.failureOf record) with
    | none => .ok file
    | some failure => mixReviewCycleFinding replace file failure.body

end Orchestrail
