import Orchestrail.Spec.NativeLoop

/-!
# The manifests of a cohort

`batch.md`, `cohort_state.md` and `integration_state.md`: what `ControlPlane` of `control.rs` writes
there, and what `state/batch.rs`, `state/cohort.rs` and `state/integration.rs` read. The other
sources of a snapshot are taken to load, and the other artifacts of a cohort are left out.
-/

namespace Orchestrail.Manifest

open Text Outcome ControlPlane QueueEntry

/-! ## The readers -/

/-- An admitted task line of the batch manifest. -/
structure BatchTask where
  id : String
  level : Option (List Char)
  branch : Option (List Char)
  worktree : Option (List Char)
  domain : Option (List Char)
  wave : Option Nat
  deriving DecidableEq

structure BatchState where
  batchId : Option (List Char)
  base : Option (List Char)
  integrationBranch : Option (List Char)
  tasks : List BatchTask
  deriving DecidableEq

/-- The first white-space token that starts with the key. -/
def tokenField (fields : List Char) (key : String) : Option (List Char) :=
  (splitWhitespace fields).findSome? (stripFront key.toList)

def parseTaskLine (line : List Char) : Option BatchTask := do
  let rest ← stripFront ['-'] (trim line)
  let rest ← stripFront ['['] (rest.dropWhile isWhiteSpace)
  if ']' ∈ rest then
    let id := String.ofList (trim (rest.takeWhile (· ≠ ']')))
    let fields := (rest.dropWhile (· ≠ ']')).tail
    if isTaskId id then
      return ⟨id, tokenField fields "уровень=", tokenField fields "ветка=",
        tokenField fields "worktree=", tokenField fields "домен=",
        (tokenField fields "волна=").bind parseU32⟩
    else none
  else none

def parseBatch (text : List Char) : BatchState where
  batchId := findBatchId text
  base := lineField text "База:"
  integrationBranch := lineField text "Интеграционная ветка:"
  tasks := (textLines text).filterMap parseTaskLine

inductive CohortAdmission where
  | «open»
  | closed
  deriving DecidableEq

def CohortAdmission.fromMarkdown (literal : List Char) : Option CohortAdmission :=
  if TaskState.baseWord literal = "открыт".toList then some .open
  else if TaskState.baseWord literal = "закрыт".toList then some .closed
  else none

structure CohortState where
  batchId : Option (List Char)
  admission : Option CohortAdmission
  admissionLiteral : Option (List Char)
  admissionReason : Option (List Char)
  startedAt : Option (List Char)
  wave : Option Nat
  admittedTotal : Option Nat
  deriving DecidableEq

def reasonKey : List Char := "причина=".toList

def parseCohort (text : List Char) : CohortState :=
  let literal := lineField text "Приём:"
  { batchId := findBatchId text
    admission := literal.bind CohortAdmission.fromMarkdown
    admissionLiteral := literal
    admissionReason := literal.bind (suffixField · reasonKey)
    startedAt := lineField text "Начало когорты:"
    wave := (lineField text "Волна:").bind parseU32
    admittedTotal := (lineField text "Admitted всего:").bind parseU32 }

/-- A present file means that the join is underway. -/
structure IntegrationSnapshot where
  reviewSha : Option (List Char)
  fCycles : Option Nat
  deriving DecidableEq

def parseIntegration (text : List Char) : IntegrationSnapshot where
  reviewSha := lineField text "Ревью-SHA:"
  fCycles := (lineField text "F-циклов:").bind parseU32

/-! ## The writers -/

/-- A number of the source's type. -/
abbrev U32 := { n : Nat // n ≤ u32Max }

structure CohortFiles where
  batch : Option (List Char) := none
  cohort : Option (List Char) := none
  integration : Option (List Char) := none
  deriving DecidableEq

def batchPath : String := ".work/batch.md"
def cohortPath : String := ".work/cohort_state.md"
def integrationPath : String := ".work/integration_state.md"

/-- `write_text`: what the file holds afterwards. -/
def written (path : String) (text : List Char) : Control (Option (List Char)) :=
  if textBytes text ≤ maxControlBytes then .ok (some text) else .error (oversize .invalidInput path)

def batchHeading (batchId base : List Char) : List Char :=
  "# Batch ".toList ++ batchId ++ "\n\nБаза: ".toList ++ base ++
    "\nИнтеграционная ветка: integration/".toList ++ batchId ++ "\n\n## Задачи\n".toList

def openBatch (files : CohortFiles) (batchId base : List Char) : Control CohortFiles := do
  QueueEntry.validateBatchId batchId
  QueueEntry.validateRef base "base"
  match ← readOptionalText batchPath files.batch with
  | some existing =>
    let batch := parseBatch existing
    demand (batch.batchId = some batchId ∧ batch.base = some base) (.contradiction
      ("active batch manifest conflicts with requested batch " ++ String.ofList batchId ++
        " at base " ++ String.ofList base))
    demand (afterFirst "## Задачи".toList existing).isSome
      (.contradiction "batch manifest has no append-only task section")
    return files
  | none => return { files with batch := ← written batchPath (batchHeading batchId base) }

/-- `parse_conflict_domain`. -/
def parseConflictDomain (value : String) : Option (List (List Char)) :=
  let globs := domainTokens value
  if globs ≠ [] ∧ globs.all fun glob =>
      !(glob.head?.any fun ch => ch == '/' || ch == '\\') && !glob.contains ':' &&
        !glob.contains '<' && !glob.contains '>' &&
        !(pieces (fun ch => ch == '/' || ch == '\\') glob).contains "..".toList then some globs
  else none

/-- A captured task, as it is recorded in the manifest. -/
structure Row where
  id : String
  level : List Char
  branch : List Char
  domain : List (List Char)
  wave : U32
  deriving DecidableEq

def rowHead (id : String) : List Char := ("- [" ++ id ++ "]").toList

def Row.text (row : Row) : List Char :=
  rowHead row.id ++ " уровень=".toList ++ row.level ++ " ветка=".toList ++ row.branch ++
    " домен=".toList ++ [','].intercalate row.domain ++ " волна=".toList ++
    Nat.toDigits 10 row.wave.1

def appendBatchTask (files : CohortFiles) (row : Row) : Control CohortFiles := do
  ControlPlane.validateTaskId row.id
  QueueEntry.validateRef row.branch "task branch"
  demand (trim row.level ≠ [] ∧ row.domain ≠ [])
    (.invalidInput s!"batch task {row.id} requires a level and nonempty conflict domain")
  let content ← readRequired batchPath files.batch
  match (textLines content).filter fun line =>
      (rowHead row.id).isPrefixOf (line.dropWhile isWhiteSpace) with
  | [] =>
    let content := if content.getLast? = some '\n' then content else content ++ ['\n']
    return { files with batch := ← written batchPath (content ++ row.text ++ ['\n']) }
  | existing =>
    demand (existing.map trim = [row.text]) (.contradiction
      s!"batch manifest already records incompatible coordinates for {row.id}")
    return files

/-- The arguments of `write_cohort`. -/
structure CohortArgs where
  admission : List Char
  reason : Option (List Char)
  wave : U32
  admittedTotal : U32
  deriving DecidableEq

/-- The reason that is written, if there is one. -/
def CohortArgs.shown (args : CohortArgs) : Option (List Char) :=
  (args.reason.map sanitizeReason).filter fun value => !value.isEmpty

def CohortArgs.literal (args : CohortArgs) : List Char :=
  args.admission ++ match args.shown with
    | some value => " · причина=".toList ++ value
    | none => []

def cohortText (batchId : List Char) (args : CohortArgs) : List Char :=
  "# Cohort state — Batch ".toList ++ batchId ++ "\n\nПриём: ".toList ++ args.literal ++
    "\nВолна: ".toList ++ Nat.toDigits 10 args.wave.1 ++ "\nAdmitted всего: ".toList ++
    Nat.toDigits 10 args.admittedTotal.1 ++ ['\n']

def writeCohort (files : CohortFiles) (batchId : List Char) (args : CohortArgs) :
    Control CohortFiles := do
  QueueEntry.validateBatchId batchId
  return { files with cohort := ← written cohortPath (cohortText batchId args) }

/-- The states the native port writes. -/
inductive JoinState where
  | inProgress
  | published
  | reanchored
  deriving DecidableEq

def JoinState.literal : JoinState → String
  | .inProgress => "in-progress"
  | .published => "published"
  | .reanchored => "reanchored"

/-- The arguments of `write_integration`. -/
structure IntegrationArgs where
  state : JoinState
  reviewSha : Option (List Char)
  fCycles : U32
  reason : Option (List Char)
  deriving DecidableEq

def integrationText (batchId : List Char) (args : IntegrationArgs) : List Char :=
  "# Integration state — Batch ".toList ++ batchId ++ "\n\nСостояние: ".toList ++
    args.state.literal.toList ++ "\nF-циклов: ".toList ++ Nat.toDigits 10 args.fCycles.1 ++
    ['\n'] ++
    (match args.reviewSha with
      | some sha => "Ревью-SHA: ".toList ++ sha ++ ['\n']
      | none => []) ++
    match args.reason with
      | some reason => "Причина: ".toList ++ sanitizeReason reason ++ ['\n']
      | none => []

def writeIntegration (files : CohortFiles) (batchId : List Char) (args : IntegrationArgs) :
    Control CohortFiles := do
  QueueEntry.validateBatchId batchId
  match args.reviewSha with
  | some sha => QueueEntry.validateRef sha "integration review SHA"
  | none => pure ()
  return { files with integration := ← written integrationPath (integrationText batchId args) }

def removeCohortArtifacts (files : CohortFiles) (batchId : List Char) : Control CohortFiles := do
  QueueEntry.validateBatchId batchId
  match ← readOptionalText batchPath files.batch with
  | some existing => demand ((parseBatch existing).batchId = some batchId) (.contradiction
      s!"refusing to clean batch; native state owns {String.ofList batchId}")
  | none => pure ()
  return {}

/-! ## A cohort and its manifests -/

inductive Call where
  | appendBatchTask (row : Row)
  | writeCohort (args : CohortArgs)
  | writeIntegration (args : IntegrationArgs)

def call (batchId : List Char) (files : CohortFiles) : Call → Control CohortFiles
  | .appendBatchTask row => Manifest.appendBatchTask files row
  | .writeCohort args => Manifest.writeCohort files batchId args
  | .writeIntegration args => Manifest.writeIntegration files batchId args

/-- The files, and what they have been written for: the captured tasks in their order, and the last
state of the cohort and of its integration. -/
structure Ledger where
  files : CohortFiles
  rows : List Row := []
  cohort : Option CohortArgs := none
  integration : Option IntegrationArgs := none
  deriving DecidableEq

/-- What a call that succeeded was made for. -/
def Ledger.record (l : Ledger) : Call → Ledger
  | .appendBatchTask row =>
    if row.id ∈ l.rows.map Row.id then l else { l with rows := l.rows ++ [row] }
  | .writeCohort args => { l with cohort := some args }
  | .writeIntegration args => { l with integration := some args }

def Ledger.next (batchId : List Char) (l : Ledger) (c : Call) : Option Ledger :=
  (call batchId l.files c).toOption.map fun files => { l.record c with files := files }

end Orchestrail.Manifest
