import Orchestrail.Spec.Verification

/-!
# The publication CI gate

One snapshot of a forge's checks, as `forge_ci.rs` classifies it for GitLab and Gitea and
`headless.rs` for GitHub: is the page complete, does it speak of the published commit, which checks
count, and what they say together.

A snapshot is the decoded response. The fetch of Gitea's next page is a parameter of its answer,
which only a snapshot that would otherwise pass asks for. The full case folding of `str` is a
parameter too (`toLowercase`); on ASCII text it is `Char.toLower`, which the fingerprints of
`Spec.Cycles` use.
-/

namespace Orchestrail

open Text

/-- The characters are folded before the words are joined (`normalize_signature_text`). -/
def normalizeSignatureWith (toLowercase : List Char → List Char) (text : String) : List Char :=
  joinWords (toLowercase (maskTimestamps text.toList.length false text.toList))

/-- `AttemptSignature::of_finding`, with the case folding as a parameter. -/
def AttemptSignature.ofFindingWith (toLowercase : List Char → List Char) (text evidence : String) :
    AttemptSignature :=
  let folded := normalizeSignatureWith toLowercase text ++
    '\x00' :: normalizeSignatureWith toLowercase evidence
  ⟨fnv1a64 (folded.flatMap String.utf8EncodeChar)⟩

namespace CiGate

def gitlabStatusPageSize : Nat := 100

def giteaStatusPageSize : Nat := 50

def giteaCompletenessProbePage : Nat := 2

inductive Forge where
  | gitHub
  | gitLab
  | gitea
  deriving DecidableEq

def Forge.asConfigValue : Forge → String
  | .gitHub => "github"
  | .gitLab => "gitlab"
  | .gitea => "gitea"

def Forge.displayName : Forge → String
  | .gitHub => "GitHub"
  | .gitLab => "GitLab"
  | .gitea => "Gitea"

structure GitLabCommitStatus where
  id : Nat
  name : String
  status : String
  sha : String
  allowFailure : Bool
  deriving DecidableEq

structure GiteaCommitStatus where
  id : Nat
  context : String
  status : String
  deriving DecidableEq

structure GiteaCombinedStatus where
  sha : String
  totalCount : Nat
  statuses : List GiteaCommitStatus
  deriving DecidableEq

structure GitHubCheckRun where
  id : Nat
  name : String
  status : String
  conclusion : Option String
  deriving DecidableEq

inductive CiPoll where
  | passing
  | pending (reason : String)
  | failing (signature reason : String)
  deriving DecidableEq

inductive CheckVerdict where
  | success
  | failure
  | unsettled
  deriving DecidableEq

def gitlabVerdict (status : String) : CheckVerdict :=
  if status ∈ ["success", "skipped"] then .success
  else if status ∈ ["failed", "canceled", "cancelled", "canceling", "cancelling"] then .failure
  else .unsettled

def giteaVerdict (status : String) : CheckVerdict :=
  if status ∈ ["success", "skipped"] then .success
  else if status ∈ ["error", "failure", "warning"] then .failure
  else .unsettled

/-- What a completed check run concluded (the match of `classify_github_checks`). -/
def githubVerdict (conclusion : String) : CheckVerdict :=
  if conclusion ∈ ["success", "neutral", "skipped"] then .success
  else if conclusion ∈
      ["failure", "cancelled", "timed_out", "action_required", "startup_failure", "stale"] then
    .failure
  else .unsettled

/-- `str::eq_ignore_ascii_case`. -/
def eqIgnoreAsciiCase (s t : String) : Bool := asciiLowercase s == asciiLowercase t

/-- A state as it is compared: trimmed, in lower case. -/
def foldedState (raw : String) : String := asciiLowercase (trimmed raw)

def shownName (raw : String) : String :=
  if trimmed raw = "" then "<unnamed check>" else trimmed raw

/-- `Iterator::max_by_key`: the last of the entries with the greatest key. -/
def maxByKey {α : Type} (key : α → Nat) : List α → Option α
  | [] => none
  | entry :: rest =>
    match maxByKey key rest with
    | none => some entry
    | some best => if key entry ≤ key best then some best else some entry

/-- The newest entry of each required name, in the order of the names; a name that no entry
carries ends the selection. -/
def selectRequired {α : Type} (forge : Forge) (name : α → String) (id : α → Nat)
    (entries : List α) : List String → Except CiPoll (List α)
  | [] => .ok []
  | required :: rest =>
    match maxByKey id (entries.filter fun entry => trimmed (name entry) = required) with
    | none => .error (.pending (s!"required {forge.displayName} check {quoted required} " ++
        "has not reported for the published commit"))
    | some entry => do
      let selected ← selectRequired forge name id entries rest
      return entry :: selected

/-- The fingerprint of a red check. -/
def checkSignature (toLowercase : List Char → List Char) (forge : Forge) (head name state : String) :
    String :=
  (AttemptSignature.ofFindingWith toLowercase s!"{forge.asConfigValue} commit check failed"
    s!"{head}:{name}:{state}").asStr

section Classify

variable (toLowercase : List Char → List Char) (head : String)

/-- Fold a selected set of names and states into one classification. -/
def classifySelected (forge : Forge) (verdict : String → CheckVerdict) :
    List (String × String) → CiPoll
  | [] => .passing
  | (rawName, rawState) :: rest =>
    let name := shownName rawName
    let state := foldedState rawState
    match verdict state with
    | .success => classifySelected forge verdict rest
    | .failure => .failing (checkSignature toLowercase forge head name state)
        s!"{forge.displayName} check {quoted name} reported {quoted state}"
    | .unsettled => .pending s!"{forge.displayName} check {quoted name} is {quoted state}"

def classifyGitlabStatuses (statuses : List GitLabCommitStatus) (requiredChecks : List String) :
    CiPoll :=
  if gitlabStatusPageSize ≤ statuses.length then
    .pending (s!"GitLab returned a full page of {statuses.length} commit statuses; " ++
      "refusing a possibly-truncated pass")
  else match statuses.find? fun status =>
      status.sha ≠ "" && !eqIgnoreAsciiCase status.sha head with
    | some foreign => .pending (s!"GitLab reported a status for commit {quoted foreign.sha} " ++
        s!"while {head} was published")
    | none =>
      if statuses.isEmpty then
        .pending "GitLab has not reported any commit statuses for the published commit"
      else
        let selection :=
          if requiredChecks.isEmpty then .ok (statuses.filter (!·.allowFailure))
          else selectRequired .gitLab (·.name) (·.id) statuses requiredChecks
        match selection with
        | .error poll => poll
        | .ok selected =>
          if selected.isEmpty then
            .pending ("GitLab reported only non-blocking (allow_failure) statuses " ++
              "for the published commit")
          else
            classifySelected toLowercase head .gitLab gitlabVerdict
              (selected.map fun status => (status.name, status.status))

def classifyGiteaStatuses {ε : Type} (combined : GiteaCombinedStatus)
    (requiredChecks : List String) (nextPage : Except ε GiteaCombinedStatus) : Except ε CiPoll :=
  if combined.totalCount ≠ combined.statuses.length then
    .ok (.pending (s!"Gitea reported {combined.totalCount} statuses " ++
      s!"but returned {combined.statuses.length}; refusing a partial-page pass"))
  else if combined.sha ≠ "" ∧ eqIgnoreAsciiCase combined.sha head = false then
    .ok (.pending (s!"Gitea reported the combined status of commit {quoted combined.sha} " ++
      s!"while {head} was published"))
  else if combined.statuses.isEmpty then
    .ok (.pending "Gitea has not reported any commit statuses for the published commit")
  else
    let selection :=
      if requiredChecks.isEmpty then .ok combined.statuses
      else selectRequired .gitea (·.context) (·.id) combined.statuses requiredChecks
    match selection with
    | .error poll => .ok poll
    | .ok selected =>
      match classifySelected toLowercase head .gitea giteaVerdict
          (selected.map fun status => (status.context, status.status)) with
      | .passing => do
        let page ← nextPage
        if page.statuses.isEmpty then .ok .passing
        else
          .ok (.pending (s!"Gitea returned {combined.statuses.length} commit statuses for the " ++
            s!"published commit but page {giteaCompletenessProbePage} is not empty, so this " ++
            "page is not the whole set (an instance whose `[api] MAX_RESPONSE_ITEMS` is below " ++
            s!"the requested {giteaStatusPageSize} silently clamps it); " ++
            "refusing a truncated-page pass"))
      | verdict => .ok verdict

/-- The loop of `classify_github_checks` over the selected check runs. -/
def classifyCheckRuns : List GitHubCheckRun → CiPoll
  | [] => .passing
  | check :: rest =>
    let name := shownName check.name
    let status := foldedState check.status
    if status ≠ "completed" then .pending s!"check {quoted name} is {quoted status}"
    else
      let conclusion := foldedState (check.conclusion.getD "")
      match githubVerdict conclusion with
      | .success => classifyCheckRuns rest
      | .failure => .failing (checkSignature toLowercase .gitHub head name conclusion)
          s!"GitHub check {quoted name} concluded {quoted conclusion}"
      | .unsettled =>
        .pending s!"check {quoted name} has unknown conclusion {quoted conclusion}"

def classifyGithubChecks (totalCount : Nat) (checks : List GitHubCheckRun)
    (requiredChecks : List String) : CiPoll :=
  if checks.length < totalCount then
    .pending (s!"GitHub reported {totalCount} checks but only {checks.length} were returned; " ++
      "refusing a partial-page pass")
  else if checks.isEmpty then
    .pending "GitHub has not reported any checks for the published commit"
  else
    let selection :=
      if requiredChecks.isEmpty then .ok checks
      else selectRequired .gitHub (·.name) (·.id) checks requiredChecks
    match selection with
    | .error poll => poll
    | .ok selected => classifyCheckRuns toLowercase head selected

end Classify

/-! ## One rule for the three forges -/

/-- What a forge answered for the published commit. -/
inductive Snapshot (ε : Type) where
  | gitLab (statuses : List GitLabCommitStatus)
  | gitea (combined : GiteaCombinedStatus) (nextPage : Except ε GiteaCombinedStatus)
  | gitHub (totalCount : Nat) (checks : List GitHubCheckRun)

/-- An entry of any forge, as the gate reads it. -/
structure Check where
  id : Nat
  name : String
  state : String
  verdict : CheckVerdict
  blocking : Bool

def GitLabCommitStatus.check (status : GitLabCommitStatus) : Check :=
  { id := status.id, name := trimmed status.name, state := foldedState status.status,
    verdict := gitlabVerdict (foldedState status.status), blocking := !status.allowFailure }

def GiteaCommitStatus.check (status : GiteaCommitStatus) : Check :=
  { id := status.id, name := trimmed status.context, state := foldedState status.status,
    verdict := giteaVerdict (foldedState status.status), blocking := true }

def GitHubCheckRun.check (run : GitHubCheckRun) : Check :=
  let conclusion := foldedState (run.conclusion.getD "")
  { id := run.id, name := trimmed run.name, state := conclusion,
    verdict := if foldedState run.status = "completed" then githubVerdict conclusion else .unsettled,
    blocking := true }

namespace Snapshot

variable {ε : Type}

def forge : Snapshot ε → Forge
  | .gitLab _ => .gitLab
  | .gitea _ _ => .gitea
  | .gitHub _ _ => .gitHub

def checks : Snapshot ε → List Check
  | .gitLab statuses => statuses.map (·.check)
  | .gitea combined _ => combined.statuses.map (·.check)
  | .gitHub _ runs => runs.map (·.check)

/-- Nothing in the page itself says that there is more. -/
def Full : Snapshot ε → Prop
  | .gitLab statuses => statuses.length < gitlabStatusPageSize
  | .gitea combined _ => combined.totalCount = combined.statuses.length
  | .gitHub totalCount runs => totalCount ≤ runs.length

/-- No commit named in the page is another than `head`. -/
def Ours (head : String) : Snapshot ε → Prop
  | .gitLab statuses =>
    ∀ status ∈ statuses, status.sha = "" ∨ eqIgnoreAsciiCase status.sha head = true
  | .gitea combined _ => combined.sha = "" ∨ eqIgnoreAsciiCase combined.sha head = true
  | .gitHub _ _ => True

/-- Whether the fetch of the next page finds nothing, where the forge needs one. -/
def nextEmpty : Snapshot ε → Except ε Bool
  | .gitea _ nextPage => nextPage.map (·.statuses.isEmpty)
  | _ => .ok true

/-- The checks that count: the newest entry of each required name, or every blocking entry. -/
def selected (page : Snapshot ε) (required : List String) : List Check :=
  if required = [] then page.checks.filter (·.blocking)
  else required.filterMap fun name => maxByKey (·.id) (page.checks.filter (·.name = name))

/-- The page can be judged: it seems whole, is about this commit, and holds what is asked for. -/
structure Usable (page : Snapshot ε) (head : String) (required : List String) : Prop where
  full : page.Full
  ours : page.Ours head
  reported : ∀ name ∈ required, ∃ check ∈ page.checks, check.name = name
  nonempty : page.selected required ≠ []

/-- The answer of the adapter of this forge. -/
def classify (toLowercase : List Char → List Char) (head : String) (required : List String) :
    Snapshot ε → Except ε CiPoll
  | .gitLab statuses => .ok (classifyGitlabStatuses toLowercase head statuses required)
  | .gitea combined nextPage => classifyGiteaStatuses toLowercase head combined required nextPage
  | .gitHub totalCount runs => .ok (classifyGithubChecks toLowercase head totalCount runs required)

end Snapshot

/-- An answer without the check it names. -/
inductive Answer where
  | passing
  | pending
  | failing
  deriving DecidableEq

def CiPoll.answer : CiPoll → Answer
  | .passing => .passing
  | .pending _ => .pending
  | .failing _ _ => .failing

end CiGate

end Orchestrail
