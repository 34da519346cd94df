import Orchestrail.Spec.Admission
import Orchestrail.Spec.Command

/-!
# Input checks

The validators at the end of `processor.rs` with the texts of their errors, and the two forms every
guard of the reducer takes: `require` for a condition, `Option.orError` for a value that must be
there.
-/

namespace Orchestrail

open Text

abbrev Checked (α : Type) := Except ProcessorError α

/-- Refuse with `error` unless the condition holds. -/
def require (c : Prop) [Decidable c] (error : ProcessorError) : Checked Unit :=
  if c then .ok () else .error error

/-- `ok_or_else`. -/
def orError {α : Type} (o : Option α) (error : ProcessorError) : Checked α :=
  match o with
  | some a => .ok a
  | none => .error error

/-- Nothing of the list is bad; the error names the first that is. -/
def requireNone {α : Type} (as : List α) (bad : α → Bool) (error : α → ProcessorError) :
    Checked Unit :=
  match as.find? bad with
  | some a => .error (error a)
  | none => .ok ()

/-- The first refusal of a check over a list. -/
def checkAll {α : Type} (check : α → Checked Unit) : List α → Checked Unit
  | [] => .ok ()
  | a :: as => do check a; checkAll check as

/-- `map_err` of a checkpoint check: the error restated as a corrupt checkpoint. -/
def orCorrupt (context : String) : Checked Unit → Checked Unit
  | .ok () => .ok ()
  | .error error => .error (.corruptCheckpoint (context ++ error.message))

@[simp] theorem require_eq_ok {c : Prop} [Decidable c] {error : ProcessorError} {u : Unit} :
    require c error = .ok u ↔ c := by
  unfold require; split <;> simp_all

@[simp] theorem orError_eq_ok {α : Type} {o : Option α} {error : ProcessorError} {a : α} :
    orError o error = .ok a ↔ o = some a := by
  cases o <;> simp [orError]

@[simp] theorem bind_eq_ok {ε α β : Type} {x : Except ε α} {f : α → Except ε β} {b : β} :
    (x >>= f) = .ok b ↔ ∃ a, x = .ok a ∧ f a = .ok b := by
  cases x <;> simp [bind, Except.bind]

@[simp high] theorem bind_unit_eq_ok {ε β : Type} {x : Except ε Unit} {f : Unit → Except ε β} {b : β} :
    (x >>= f) = .ok b ↔ x = .ok () ∧ f () = .ok b := by
  cases x <;> simp [bind, Except.bind]

@[simp] theorem orCorrupt_eq_ok {context : String} {x : Checked Unit} {u : Unit} :
    orCorrupt context x = .ok u ↔ x = .ok () := by
  cases x <;> simp [orCorrupt]

@[simp] theorem requireNone_eq_ok {α : Type} {as : List α} {bad : α → Bool}
    {error : α → ProcessorError} {u : Unit} :
    requireNone as bad error = .ok u ↔ ∀ a ∈ as, bad a = false := by
  unfold requireNone
  split <;> rename_i h
  · simp only [reduceCtorEq, false_iff, not_forall]
    exact ⟨_, List.mem_of_find?_eq_some h, by simpa using List.find?_some h⟩
  · simpa using h

@[simp] theorem checkAll_eq_ok {α : Type} {check : α → Checked Unit} {as : List α} {u : Unit} :
    checkAll check as = .ok u ↔ ∀ a ∈ as, check a = .ok () := by
  induction as with
  | nil => simp [checkAll]
  | cons a as ih => simp [checkAll, ih]

/-- `T-` followed by ASCII digits. -/
def isTaskId (value : String) : Bool := wholeDecimal "T-" value

def validateTaskId (id : String) : Checked Unit :=
  require (isTaskId id)
    (.invalidCommand s!"invalid task id {quoted id}; expected T- followed by ASCII digits")

/-- `parse_conflict_domain(value).is_some()`. -/
def isConflictDomain (value : String) : Bool :=
  let globs := domainTokens value
  !globs.isEmpty && globs.all fun glob =>
    !(glob.head? == some '/' || glob.head? == some '\\') && !glob.contains ':' &&
      !(glob.contains '<' || glob.contains '>') &&
      !(pieces (fun ch => ch = '/' ∨ ch = '\\') glob).contains ['.', '.']

def validateConflictDomain (value : String) : Checked Unit :=
  require (isConflictDomain value)
    (.invalidCommand
      s!"invalid conflict domain {quoted value}; expected non-empty repository-relative path globs")

/-- `B-` followed by a non-empty suffix without white space, and no NUL. -/
def isBatchId (id : String) : Bool :=
  match stripFront ['B', '-'] id.toList with
  | some suffix =>
    !suffix.isEmpty && !suffix.any isWhiteSpace && !startsWith id '-' && !contains id '\x00'
  | none => false

def validateBatchId (id : String) : Checked Unit :=
  require (isBatchId id) (.invalidCommand s!"invalid batch id {quoted id}")

/-- A reference is not blank, does not look like an option and has no NUL. -/
def isRef (value : String) : Bool :=
  !isBlank value && !startsWith value '-' && !contains value '\x00'

def validateRef (value what : String) : Checked Unit :=
  require (isRef value) (.invalidCommand s!"invalid {what} {quoted value}")

/-- A reason that may be written to a report: not blank, no NUL. -/
def isSafeReason (reason : String) : Bool := !isBlank reason && !contains reason '\x00'

def validateCiObservationReason (reason : String) : Checked Unit :=
  require (isSafeReason reason)
    (.invalidCommand "CI observation must carry a non-empty safe reason")

def isCheckName (check : String) : Bool :=
  trim check.toList == check.toList && !check.toList.isEmpty &&
    !check.toList.any fun ch => ch = '\x00' ∨ ch = '\r' ∨ ch = '\n'

def validateRequiredCiCheckNames (checks : List String) : Checked Unit := do
  require (checks ≠ [])
    (.invalidCommand "archive CI reconfirmation requires at least one check name")
  require (checks.all isCheckName ∧ checks.Nodup)
    (.invalidCommand "archive CI reconfirmation contains an invalid or duplicate check name")

def isSafeRelativePath (path : String) : Bool :=
  let chars := path.toList
  !chars.isEmpty && !startsWith path '/' && !startsWith path '\\' && !contains path '\x00' &&
    !(match chars with
      | drive :: ':' :: _ => isAsciiAlpha drive
      | _ => false) &&
    !(pieces (fun ch => ch = '/' ∨ ch = '\\') chars).any fun part =>
      part = [] ∨ part = ['.'] ∨ part = ['.', '.'] ∨ part = ['.', 'g', 'i', 't'] ∨
        part = ['.', 'j', 'j']

def validateMergeConflictPaths (paths : List String) : Checked Unit := do
  require (paths ≠ [])
    (.invalidCommand "merge conflict must include at least one relative path")
  checkAll (fun path => require (isSafeRelativePath path)
    (.invalidCommand
      s!"merge conflict path is not a safe repository-relative path: {quoted path}")) paths

/-- One protected path after those already seen. -/
def validateProtectedPath (seen : List String) (fingerprint : MergePathFingerprint) :
    Checked Unit := do
  validateMergeConflictPaths [fingerprint.path]
  require (fingerprint.sha256.all (isHex 64))
    (.invalidCommand
      s!"merge-path fingerprint for {quoted fingerprint.path} is not a SHA-256 digest")
  require (fingerprint.path ∉ seen)
    (.invalidCommand s!"merge-path fingerprint repeats {quoted fingerprint.path}")

def validateProtectedPaths : List String → List MergePathFingerprint → Checked Unit
  | _, [] => .ok ()
  | seen, fingerprint :: rest => do
    validateProtectedPath seen fingerprint
    validateProtectedPaths (fingerprint.path :: seen) rest

/-- The fingerprints cover exactly the clean portion of the merge surface. -/
def validateMergeProtectedPaths (mergePaths conflictPaths : List String)
    (protectedPaths : List MergePathFingerprint) : Checked Unit := do
  validateProtectedPaths [] protectedPaths
  let expected := mergePaths.filter fun path => !conflictPaths.contains path
  let actual := protectedPaths.map (·.path)
  require ((∀ path ∈ actual, path ∈ expected) ∧ ∀ path ∈ expected, path ∈ actual)
    (.invalidCommand "merge-path fingerprints do not cover exactly the clean portion of the typed merge surface")

def isSignature (value : String) : Bool := isHex 16 value

def validateSignature (value : String) : Checked Unit :=
  require (isSignature value)
    (.invalidCommand "finding/error signature must be 16 ASCII hex characters")

/-- A strictly higher coder-reported classification, or why it is refused. -/
def validateTaskRiskElevation (current : Option Risk) (reported : Risk) : Option String :=
  match current with
  | none =>
    some s!"coder reported риск={reported.asStr} but the task has no durable planner risk; cannot prove a strictly higher classification"
  | some current =>
    if reported.rank ≤ current.rank then
      some s!"coder reported риск={reported.asStr} but the durable task risk is {current.asStr}; only a strictly higher risk may be reported"
    else none

/-- The diagnostic of a leaf outcome that is no success for a non-task role. -/
def nonSuccessLeafReason (role : String) : LeafOutcome → Option String
  | .completed _ => none
  | .retryableFailure reason | .escalated reason => some reason
  | .riskElevated _ risk _ => some s!"{role} reported unsupported task risk elevation {risk.asStr}"
  | .completedWithWontFix .. => some s!"{role} reported unsupported fix-cycle won't-fix metadata"

end Orchestrail
