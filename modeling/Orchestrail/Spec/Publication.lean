import Mathlib.Data.String.Basic
import Mathlib.Algebra.Ring.Nat
import Orchestrail.Lib.Sorted
import Orchestrail.Spec.Approval
import Orchestrail.Spec.Native
import Orchestrail.Spec.Policy
import Orchestrail.Spec.Verification

/-!
# Publication

`publish` of `native_port.rs` with the calls of `vcs.rs`, `policy.rs` and `approval.rs` it makes:
the check of the changed paths, the approval that is bound to a manifest, the local fast-forward and
the push.

The repository is a commit graph with three refs: the local publication branch, the integration
branch and the branch of the remote. What the environment answers in one call is a record; the
graph, the digests and the readers of documents are parameters. Within a call nobody else moves the
local refs, while the remote may have moved before the push reaches it, and other processes use the
approval store in between. `.work/constraints.md` is a plain UTF-8 file within its bound, or absent,
and paths are those of a Unix host.
-/

namespace Orchestrail

open Text Outcome

/-! ## The repository -/

/-- A commit, by its id. -/
abbrev Commit := String

/-- One file of a typed diff. -/
structure FileDiff where
  path : String
  oldPath : Option String
  raw : String

/-- What the VCS says about commits. -/
structure CommitGraph where
  diff : Commit → Commit → List FileDiff
  isAncestor : Commit → Commit → Bool

inductive Backend where
  | git | jj
  deriving DecidableEq

inductive VcsError where
  | invalidInput (message : String)
  | runtime (message : String)
  | publicationPushFailed (message : String)
  | publicationLocalDivergence (message : String)
  deriving DecidableEq

abbrev Vcs (α : Type) := Except VcsError α

structure Refs where
  /-- the local publication branch -/
  base : Commit
  /-- the branch of the same name on the remote -/
  remote : Option Commit
  /-- the integration branch of the batch -/
  integration : Commit

/-- The crates the documents and the refs go through. -/
structure PublishCodec where
  serde : Serde
  sha256 : List UInt8 → List UInt8
  /-- the hexadecimal half of the digest of an approval id -/
  approvalDigest : String → String
  parseTypedArgv : String → Except String (List String)
  rejectFlagLike : String → String → Except String Unit

section Range

variable (codec : PublishCodec) (graph : CommitGraph)

/-- `validate_ref` of `vcs.rs`. -/
def Vcs.validateRef (what value : String) : Vcs Unit := do
  (codec.rejectFlagLike what value).mapError .invalidInput
  demand (contains value '\x00' = false) (.invalidInput s!"{what} contains a NUL byte")

/-- The normal components of a path: what its set of paths is ordered by. -/
def pathComponents (path : String) : List (List Char) :=
  (pieces (· = '/') path.toList).filter (!·.isEmpty)

/-- A `BTreeSet<PathBuf>`, in order. -/
def pathSet (paths : List String) : List String :=
  paths.dedup.insertionSort fun left right => pathComponents left ≤ pathComponents right

/-- The paths a diff touches, a renamed file under both names. -/
def changedPaths (base head : Commit) : List String :=
  pathSet ((graph.diff base head).flatMap fun file => file.path :: file.oldPath.toList)

/-- The changed paths from a branch, which is read where it stands, to a commit. -/
def changedPathsBetween (tip : Commit) (base head : String) : Vcs (List String) := do
  Vcs.validateRef codec "verification base" base
  Vcs.validateRef codec "verification head" head
  .ok (changedPaths graph tip head)

/-! ## The manifest of an approval -/

structure ApprovalChangeEntry where
  path : String
  oldPath : Option String
  diffSha256 : String
  deriving DecidableEq

structure ApprovalChangeManifest where
  schema : String
  base : String
  head : String
  changes : List ApprovalChangeEntry
  deriving DecidableEq

def changeManifestSchema : String := "orchestrail/approval-change-manifest@1"

/-- The components of a path as `Path::components` reads them. -/
def readComponents (path : String) : List (List Char) :=
  match pieces (· = '/') path.toList with
  | first :: rest =>
    first :: rest.filter fun component => !component.isEmpty && component != ['.']
  | [] => []

def validateWorkspaceRelativePath (path : String) : Vcs Unit := do
  demand (path ≠ "" ∧ startsWith path '/' = false)
    (.invalidInput s!"reported commit path {path} must be a non-empty relative path")
  (readComponents path).forM fun component => do
    demand (component ≠ ".git".toList ∧ component ≠ ".jj".toList)
      (.invalidInput s!"reported commit path {path} may not address VCS metadata")
    demand (component ≠ ['.'] ∧ component ≠ ['.', '.'])
      (.invalidInput s!"reported commit path {path} must not contain traversal or a prefix")

def manifestPath (path : String) : Vcs String := do
  validateWorkspaceRelativePath path
  .ok path

def changeEntry (file : FileDiff) : Vcs ApprovalChangeEntry := do
  let path ← manifestPath file.path
  let oldPath ← file.oldPath.mapM manifestPath
  .ok { path, oldPath, diffSha256 := hex (codec.sha256 (utf8 file.raw)) }

/-- The order of two old names, an absent one first. -/
def oldPathBefore : Option String → Option String → Bool
  | none, some _ => true
  | some left, some right => left < right
  | _, none => false

def entryLe (left right : ApprovalChangeEntry) : Bool :=
  left.path < right.path || left.path = right.path &&
    (oldPathBefore left.oldPath right.oldPath || left.oldPath = right.oldPath &&
      left.diffSha256 ≤ right.diffSha256)

/-- What a diff changes, as an approval shows it. -/
def changeEntries (base head : Commit) : Vcs (List ApprovalChangeEntry) := do
  let changes ← (graph.diff base head).mapM (changeEntry codec)
  .ok (changes.insertionSort fun left right => entryLe left right = true)

/-- The manifest from a branch, which is read where it stands, to a commit. -/
def approvalChangeManifestBetween (tip : Commit) (base head : String) :
    Vcs ApprovalChangeManifest := do
  let changes ← changeEntries codec graph tip head
  .ok { schema := changeManifestSchema, base, head, changes }

def integrationApprovalManifest (refs : Refs) (base head : String) :
    Vcs ApprovalChangeManifest := do
  Vcs.validateRef codec "approval base" base
  Vcs.validateRef codec "approval head" head
  demand (refs.integration = head) (.runtime
    s!"refusing approval manifest: integration tip {quoted refs.integration} differs from requested head {quoted head}")
  approvalChangeManifestBetween codec graph refs.base base head

/-- `u64::to_be_bytes`. -/
def be64 (n : Nat) : List UInt8 := (List.range 8).reverse.map fun i => UInt8.ofNat (n / 256 ^ i)

def manifestField (value : String) : List UInt8 := be64 (utf8 value).length ++ utf8 value

namespace ApprovalChangeManifest

/-- What the fingerprint is the digest of. -/
def encoded (manifest : ApprovalChangeManifest) : List UInt8 :=
  utf8 "orchestrail/approval-change-manifest/v1\x00" ++ manifestField manifest.base ++
    manifestField manifest.head ++ manifest.changes.flatMap fun change =>
      manifestField change.path ++ manifestField (change.oldPath.getD "") ++
        manifestField change.diffSha256

def fingerprint (manifest : ApprovalChangeManifest) : String :=
  hex (codec.sha256 manifest.encoded)

def toJson (manifest : ApprovalChangeManifest) : Json :=
  .object
    [("schema", .text manifest.schema), ("base", .text manifest.base),
      ("head", .text manifest.head),
      ("changes", .array (manifest.changes.map fun change => .object
        [("path", .text change.path), ("old_path", LeaseRecord.optionalText change.oldPath),
          ("diff_sha256", .text change.diffSha256)]))]

def artifact (manifest : ApprovalChangeManifest) : ApprovalManifest :=
  ⟨manifest.fingerprint codec, manifest.toJson⟩

end ApprovalChangeManifest

end Range

/-! ## The policy of a publication -/

namespace Policy

variable (policy : Policy)

def checkPublicationBranch (branch : String) : PolicyResult Unit := do
  validateRef branch "publication branch"
  demand (policy.allowedBranches = [] ∨ branch ∈ policy.allowedBranches) (.deniedBranch branch)

def checkPublication (branch remote : String) : PolicyResult Unit := do
  policy.checkPublicationBranch branch
  validateRef remote "remote"
  demand (policy.allowedRemotes = [] ∨ remote ∈ policy.allowedRemotes) (.deniedRemote remote)
  demand (policy.pushRequiresApproval = false) .approvalRequired

end Policy

/-- `policy::load`: an absent file restricts nothing. -/
def loadPolicy (codec : PublishCodec) : Option String → PolicyResult Policy
  | some text => Policy.parse codec.parseTypedArgv text
  | none => .ok .default

/-- `policy::snapshot_hash`. -/
def snapshotHash (codec : PublishCodec) (constraints : Option String) : String :=
  hex (codec.sha256 (utf8 (constraints.getD "")))

/-! ## The approval of a push -/

inductive PublishError where
  | missingState (message : String)
  | vcs (error : VcsError)
  | policy (error : PolicyError)
  | approval (error : ApprovalError)
  | external (message : String)
  | control (message : String)
  /-- the process ends here, and nobody reads an answer -/
  | stopped
  deriving DecidableEq

/-- The primary checkout as a snapshot shows it. -/
structure PrimaryCheckout where
  dirty : Bool
  conflicted : Bool
  branch : Option String
  /-- the parent of the working copy (JJ) -/
  parent : Commit

/-- How the remote takes a push. -/
structure PushAnswer where
  /-- what somebody else made of the branch of the remote since the call began -/
  moved : Option Commit
  reached : Bool
  /-- the error the client reports, whatever the remote did -/
  failure : Option String

/-- What the environment answers within one call. -/
structure PublishAnswers where
  remoteConfigured : Vcs Bool
  integrationWorkspace : Vcs Unit
  nowSecs : Except String Nat
  systemAutoApproval : Approval Bool
  /-- other processes use the store before the status is read -/
  meanwhile : ApprovalFiles → ApprovalFiles
  /-- the notification of a pending approval is resolved -/
  notified : Bool
  primary : Vcs PrimaryCheckout
  /-- the error of the fast-forward or of the move of the bookmark -/
  forward : Option String
  /-- the error of the new child of the published commit, or of its check (JJ) -/
  newChild : Option String
  /-- the process ends between the fast-forward and the push -/
  stopsBeforePush : Bool
  push : PushAnswer
  /-- the error of the observation of the remote -/
  observation : Option VcsError
  /-- the writes of the descriptors and of the integration record -/
  recorded : Except String Unit

/-- What the native port was built with. -/
structure PublishPort where
  codec : PublishCodec
  graph : CommitGraph
  backend : Backend
  pushRequested : Bool
  policyVerificationCommands : List String
  verificationProfile : Option VerificationProfile
  approvalDeadlineSecs : Nat

/-- Calls of the store, one after the other; what was written stays when a later call fails. -/
abbrev StoreM := ExceptT PublishError (StateM ApprovalFiles)

/-- One call of the store. -/
def storeCall {α : Type} (call : ApprovalFiles → Approval (α × Option Replacement)) : StoreM α :=
  fun files =>
    match call files with
    | .ok (a, some file) => (.ok a, files.put file)
    | .ok (a, none) => (.ok a, files)
    | .error error => (.error (.approval error), files)

/-- An answer that leaves the store alone. -/
def StoreM.lift {ε α : Type} (wrap : ε → PublishError) (answer : Except ε α) : StoreM α :=
  fun files => (answer.mapError wrap, files)

/-- What an approved status was read for, and from which files. -/
structure Consent where
  manifest : ApprovalChangeManifest
  id : String
  policyHash : String
  nowSecs : Nat
  files : ApprovalFiles

inductive PushDecision where
  | release (push : Bool) (consent : Option Consent)
  | held (reason : String)
  | rejected (reason : String)

section Publish

variable (port : PublishPort) (answers : PublishAnswers)

/-- Clear the notification of an approval if it is called for. -/
def clearNotification (due : Bool) (id : String) : StoreM Unit :=
  if due then
    storeCall fun files => ApprovalStore.clearNotificationPending port.codec.serde files id
  else pure ()

/-- Whether an open approval is granted by the machine's environment. -/
def autoApproval (requested : ApprovalRecord) : StoreM Bool :=
  if requested.decision.isNone then StoreM.lift .approval answers.systemAutoApproval
  else pure false

def grantApproval (requested : ApprovalRecord) (nowSecs : Nat) (auto : Bool) :
    StoreM ApprovalRecord :=
  if auto then do
    let decided ← storeCall fun files =>
      ApprovalStore.decide port.codec.serde files requested.id .approve
        "system-env:ORCHESTRA_AUTO_APPROVE"
        (some "pre-granted by operator through machine/user environment") nowSecs
    clearNotification port true decided.id
    pure decided
  else pure requested

/-- Ask for the approval of a manifest and read its status. -/
def approvePush (batchId : String) (manifest : ApprovalChangeManifest) (policyHash : String) :
    StoreM PushDecision := do
  let nowSecs ← StoreM.lift .external answers.nowSecs
  let fingerprint := manifest.fingerprint port.codec
  let requested ← storeCall fun files =>
    ApprovalStore.request port.codec.serde port.codec.approvalDigest files
      { taskId := none, batchId := some batchId, reason := "policy-bypass", fingerprint, policyHash
        nowSecs, deadlineSecs := port.approvalDeadlineSecs }
  storeCall fun files =>
    ApprovalStore.saveManifest port.codec.serde files requested.id (manifest.artifact port.codec)
  let auto ← autoApproval answers requested
  let approval ← grantApproval port requested nowSecs auto
  modify answers.meanwhile
  let files ← get
  let status ← StoreM.lift .approval
    (ApprovalStore.status port.codec.serde files approval.id fingerprint policyHash nowSecs)
  match status with
  | .approved _ => do
    clearNotification port approval.notificationPending approval.id
    pure (.release true (some { manifest, id := approval.id, policyHash, nowSecs, files }))
  | .pending _ deadlineAtSecs => do
    clearNotification port (approval.notificationPending && answers.notified) approval.id
    pure (.held s!"policy push approval {approval.id} is pending until epoch second {deadlineAtSecs}; primary checkout and remote publication are held")
  | .rejected _ => pure (.rejected s!"policy push approval {approval.id} was rejected")
  | .expiredTimeout _ =>
    pure (.rejected s!"policy push approval {approval.id} expired without a decision")
  | .expiredStale _ => pure (.rejected
      s!"policy push approval {approval.id} is stale for the current integration tip or policy")
  | .missing _ => throw (.missingState
      s!"approval {approval.id} disappeared immediately after creation")

/-! ## The attempt -/

/-- What has been checked before the repository is touched. -/
structure Attempt where
  batch : CohortRuntime
  head : Commit
  push : Bool
  paths : List String
  policy : Policy

/-- `require_integration_tip`. -/
def requireIntegrationTip (state : ProcessorState) (refs : Refs) : Except PublishError Commit :=
  match state.integration.integrationHead with
  | none => .error (.missingState
      "integration operation requested without a durable integration head")
  | some expected => do
    demand (refs.integration = expected) (.missingState
      s!"integration workspace tip {quoted refs.integration} differs from durable tip {quoted expected}")
    .ok refs.integration

def requireCurrentPolicyVerificationProfile (policy : Policy) : Except PublishError Unit := do
  demand (policy.requiredVerificationCommands = port.policyVerificationCommands)
    (.missingState "constraints.md required verification commands changed after processor startup; restart before re-verifying or publishing")
  if policy.requiredVerificationCommands = [] then .ok ()
  else
    match port.verificationProfile with
    | none => .error (.missingState "policy requires verification commands but this native port has no immutable verification profile")
    | some profile =>
      demand (∀ command ∈ policy.requiredVerificationCommands, command ∈ profile.commands)
        (.missingState "immutable verification profile omits a constraints.md required command")

/-- The durable verification names the durable integration tip. -/
def requireVerified (state : ProcessorState) : Except PublishError Unit :=
  match state.integration.verificationHead with
  | none => .error (.missingState
      "publication requested without a durable final verification head")
  | some verified =>
    demand (state.integration.integrationHead = some verified) (.missingState
      s!"publication verification {quoted verified} differs from durable integration tip {quotedOption state.integration.integrationHead}")

/-- The remote is looked up again at the boundary, and only if a push is asked for. -/
def pushConfigured : Except PublishError Bool :=
  if port.pushRequested then answers.remoteConfigured.mapError .vcs else .ok false

/-- Everything that is checked before approval, with the branch read where it stands. -/
def checkAttempt (batchId : String) (state : ProcessorState) (refs : Refs)
    (constraints : Option String) : Except PublishError Attempt :=
  match state.batch with
  | none => .error (.missingState "native effect requires an active cohort")
  | some batch => do
    demand (batch.id = batchId) (.missingState
      s!"reducer requested publication for {batchId}, active batch is {batch.id}")
    let push ← pushConfigured port answers
    answers.integrationWorkspace.mapError .vcs
    let head ← requireIntegrationTip state refs
    requireVerified state
    let paths ← (changedPathsBetween port.codec port.graph refs.base batch.base head).mapError .vcs
    let policy ← (loadPolicy port.codec constraints).mapError .policy
    requireCurrentPolicyVerificationProfile port policy
    (policy.checkPaths paths).mapError .policy
    (policy.checkPublicationBranch batch.base).mapError .policy
    .ok { batch, head, push, paths, policy }

/-- Whether the push may be made, and on whose consent. -/
def decidePush (attempt : Attempt) (refs : Refs) (constraints : Option String) :
    StoreM PushDecision :=
  if attempt.push = false then pure (.release false none)
  else
    match attempt.policy.checkPublication attempt.batch.base "origin" with
    | .ok () => pure (.release true none)
    | .error .approvalRequired => do
      let manifest ← StoreM.lift .vcs
        (integrationApprovalManifest port.codec port.graph refs attempt.batch.base attempt.head)
      approvePush port answers attempt.batch.id manifest (snapshotHash port.codec constraints)
    | .error error => throw (.policy error)

/-! ## The fast-forward and the push -/

/-- A push that reached the remote, with what it was released on. -/
structure Push where
  /-- the branch of the remote before it -/
  before : Option Commit
  /-- the commit it put there -/
  target : Commit
  constraints : Option String
  paths : List String
  policy : Policy
  consent : Option Consent

/-- The refs, and the pushes that reached the remote. -/
structure Repository where
  refs : Refs
  pushes : List Push

/-- The fast-forward of the checked-out branch. -/
def forwardGit (primary : PrimaryCheckout) (batchId base : String) (refs : Refs) :
    Except PublishError Refs := do
  demand (primary.branch = some base) (.vcs (.runtime
    s!"primary checkout is on {quotedOption primary.branch}, expected publication branch {base}"))
  demand (port.graph.isAncestor refs.base refs.integration = true)
    (.vcs (.publicationLocalDivergence
      s!"local publication cannot fast-forward: {base} is not an ancestor of integration/{batchId}"))
  demand (answers.forward = none) (.vcs (.runtime
    ("typed fast-forward publication failed: " ++ answers.forward.getD "")))
  .ok { refs with base := refs.integration }

/-- The move of the bookmark, unless it is there already. -/
def forwardJj (primary : PrimaryCheckout) (batchId base : String) (refs : Refs) :
    Except PublishError Refs := do
  demand (primary.parent = refs.base) (.vcs (.runtime
    s!"JJ primary workspace parent {quoted primary.parent} is not the current {base} target {quoted refs.base}"))
  demand (port.graph.isAncestor refs.base refs.integration = true)
    (.vcs (.publicationLocalDivergence
      s!"local JJ publication cannot fast-forward: {base} is not an ancestor of integration/{batchId}"))
  demand (refs.base = refs.integration ∨ answers.forward = none)
    (.vcs (.runtime (answers.forward.getD "")))
  .ok { refs with base := refs.integration }

/-- The local half: the branch moves forward to the integration branch. -/
def forwardLocal (batchId base head : String) (refs : Refs) : Except PublishError Refs := do
  answers.integrationWorkspace.mapError .vcs
  (Vcs.validateRef port.codec "publication branch" base).mapError .vcs
  (Vcs.validateRef port.codec "expected integration head" head).mapError .vcs
  demand (refs.integration = head) (.vcs (.runtime
    s!"refusing publication: integration workspace tip {quoted refs.integration} differs from expected durable tip {quoted head}"))
  let primary ← answers.primary.mapError .vcs
  demand (primary.dirty = false ∧ primary.conflicted = false)
    (.vcs (.runtime "refusing publication from a dirty or conflicted primary checkout"))
  match port.backend with
  | .git => forwardGit port answers primary batchId base refs
  | .jj => forwardJj port answers primary batchId base refs

/-- The error of the new working copy, which JJ starts where the bookmark moved. -/
def childError (before after : Refs) : Option String :=
  if port.backend = .jj ∧ before.base ≠ after.base then answers.newChild else none

/-- The remote takes a commit that its branch is an ancestor of. -/
def PushAnswer.accepts (answer : PushAnswer) (before : Option Commit) (target : Commit) : Bool :=
  answer.reached && before.all fun tip => port.graph.isAncestor tip target

/-- The branch of the remote as the push finds it. -/
def PushAnswer.found (answer : PushAnswer) (remote : Option Commit) : Option Commit :=
  answer.moved.or remote

/-- The error the client reports of a push. -/
def PushAnswer.report (answer : PushAnswer) (accepted : Bool) : Option String :=
  answer.failure.or (if accepted then none else some "the remote did not take the push")

/-- The repository after a push, which the remote took or not. -/
def receivePush (accepted : Bool) (push : Push) (repo : Repository) : Repository :=
  if accepted then
    { refs := { repo.refs with remote := some push.target }, pushes := repo.pushes ++ [push] }
  else { repo with refs := { repo.refs with remote := push.before } }

/-- The push of the local branch. -/
def pushBase (attempt : Attempt) (constraints : Option String) (consent : Option Consent)
    (repo : Repository) : Except PublishError Unit × Repository :=
  let before := answers.push.found repo.refs.remote
  let accepted := answers.push.accepts port before repo.refs.base
  let repo := receivePush accepted
    ⟨before, repo.refs.base, constraints, attempt.paths, attempt.policy, consent⟩ repo
  match answers.push.report accepted with
  | none => (.ok (), repo)
  | some error => (.error (.vcs (.publicationPushFailed
      s!"typed push of exact publication target for branch {attempt.batch.base} failed: {error}")), repo)

/-- `publish_integration`. -/
def publishIntegration (attempt : Attempt) (constraints : Option String) (push : Bool)
    (consent : Option Consent) (repo : Repository) : Except PublishError Commit × Repository :=
  match forwardLocal port answers attempt.batch.id attempt.batch.base attempt.head repo.refs with
  | .error error => (.error error, repo)
  | .ok refs =>
    match childError port answers repo.refs refs with
    | some error => (.error (.vcs (.runtime error)), { repo with refs })
    | none =>
      if answers.stopsBeforePush then (.error .stopped, { repo with refs })
      else if push then
        let pushed := pushBase port answers attempt constraints consent { repo with refs }
        (pushed.1.map fun _ => refs.base, pushed.2)
      else (.ok refs.base, { repo with refs })

/-- Whether the remote contains the integration branch. -/
def observeRemote (refs : Refs) : Except PublishError Bool :=
  match answers.observation with
  | some error => .error (.vcs error)
  | none => .ok (refs.remote.any fun tip => port.graph.isAncestor refs.integration tip)

/-- What follows a push that was taken: its proof on a Git remote, and the records. -/
def recordPublication (attempt : Attempt) (push : Bool) (head : Commit) (refs : Refs) :
    Except PublishError PublicationResult := do
  if push && port.backend == .git then
    let published ← observeRemote port answers refs
    demand (published = true) (.vcs (.runtime
      s!"typed push completed but origin/{attempt.batch.base} does not contain integration/{attempt.batch.id}"))
  answers.recorded.mapError .control
  .ok (.published head push)

/-- What follows `publish_integration`. -/
def settlePublication (attempt : Attempt) (push : Bool) (refs : Refs) :
    Except PublishError Commit → Except PublishError PublicationResult
  | .ok head => recordPublication port answers attempt push head refs
  | .error (.vcs (.publicationPushFailed error)) => do
    if ← observeRemote port answers refs then
      recordPublication port answers attempt push attempt.head refs
    else .ok (.reanchorRequired
      s!"typed push for integration/{attempt.batch.id} was rejected before remote publication: {error}" .remotePublication)
  | .error (.vcs (.publicationLocalDivergence error)) =>
    .ok (.reanchorRequired
      s!"local fast-forward for integration/{attempt.batch.id} cannot use the externally advanced primary: {error}" .localPrimary)
  | .error error => .error error

/-! ## The system -/

structure PublishWorld where
  repo : Repository
  files : ApprovalFiles
  constraints : Option String

/-- `publish`: its answer, and the world it leaves. -/
def publish (batchId : String) (state : ProcessorState) (world : PublishWorld) :
    Except PublishError PublicationResult × PublishWorld :=
  match checkAttempt port answers batchId state world.repo.refs world.constraints with
  | .error error => (.error error, world)
  | .ok attempt =>
    match decidePush port answers attempt world.repo.refs world.constraints world.files with
    | (.error error, files) => (.error error, { world with files })
    | (.ok (.held reason), files) => (.ok (.hold reason), { world with files })
    | (.ok (.rejected reason), files) => (.ok (.rejected reason), { world with files })
    | (.ok (.release push consent), files) =>
      let done := publishIntegration port answers attempt world.constraints push consent world.repo
      (settlePublication port answers attempt push done.2.refs done.1,
        { world with files, repo := done.2 })

end Publish

/-- What happens between the calls. -/
inductive PublishAction where
  | publish (batchId : String) (state : ProcessorState) (answers : PublishAnswers)
  /-- a call of the approval store by any process -/
  | approval (step : ApprovalCall × ApprovalFault)
  | constraints (text : Option String)
  /-- a re-anchor, a new candidate, or a commit of the operator -/
  | moveLocal (base integration : Commit)
  | moveRemote (tip : Option Commit)

def PublishWorld.next (port : PublishPort) (world : PublishWorld) :
    PublishAction → Option PublishWorld
  | .publish batchId state answers => some (publish port answers batchId state world).2
  | .approval step =>
    (ApprovalFiles.next port.codec.serde port.codec.approvalDigest world.files step).map
      fun files => { world with files }
  | .constraints text => some { world with constraints := text }
  | .moveLocal base integration => some { world with repo := { world.repo with
      refs := { world.repo.refs with base, integration } } }
  | .moveRemote tip => some { world with repo := { world.repo with
      refs := { world.repo.refs with remote := tip } } }

end Orchestrail
