import Mathlib.Data.String.Basic
import Orchestrail.Lib.Sorted
import Orchestrail.Spec.Contract
import Orchestrail.Spec.Verification

/-!
# The registry of projects

`dependency_graph.rs`: the registry every project of a user shares, the reader that checks it, the
candidate slice a curator leaves, and the synchronization that puts the candidate in the place of
the current project's slice.

A registry is held twice, as the JSON value that is written back and as the records read from it.
Paths are those of a system that separates them with a slash; SHA-256 and the working directory are
parameters (`Host`), and so is what the files and the owner's authority answer (`SyncEnv`).
-/

namespace Orchestrail.DependencyGraph

open Text Outcome Sorted

abbrev Fields := List (String × Json)

inductive DependencyGraphError where
  | io (error : IoError)
  | json (error : String)
  | invalid (message : String)
  | busy (lock : String)
  | staleGeneration (expected actual : Nat)
  deriving DecidableEq

abbrev Result (α : Type) := Except DependencyGraphError α

def refuse {α : Type} (message : String) : Result α := .error (.invalid message)

def registrySchema : String := "orchestra/project-registry@1"

def snapshotSchema : String := "orchestra/project-graph-snapshot@1"

def maxProducts : Nat := 100

def maxDependencies : Nat := 100

def maxEvidence : Nat := 100

structure GraphDependency where
  upstreamId : String
  products : List String
  evidence : List String
  deriving DecidableEq

structure GraphSnapshot where
  baseGraphGeneration : Nat
  products : List String
  dependencies : List GraphDependency
  deriving DecidableEq

structure RegisteredProjectRecord where
  id : String
  name : String
  root : String
  products : List String
  dependencies : List GraphDependency
  graphGeneration : Nat
  deriving DecidableEq

structure Registry where
  raw : Json
  generation : Nat
  projects : List RegisteredProjectRecord

/-- What the reader of a registry takes from its host. -/
structure Host where
  sha256 : List UInt8 → List UInt8
  currentDir : Except IoError String

/-! ## Fields of an object -/

def requiredString (object : Fields) (key label : String) : Result String :=
  match object.lookup key with
  | some (.text value) =>
    if value = "" then refuse s!"{label} has no non-empty {quoted key} string" else .ok value
  | _ => refuse s!"{label} has no non-empty {quoted key} string"

def optionalU64 (object : Fields) (key label : String) : Result (Option Nat) :=
  match object.lookup key with
  | none | some .null => .ok none
  | some (.integer n) =>
    if 0 ≤ n ∧ n ≤ u64Max then .ok (some n.toNat)
    else refuse s!"{label} {quoted key} must be a non-negative JSON integer"
  | some _ => refuse s!"{label} {quoted key} must be a non-negative JSON integer"

def requiredU64 (object : Fields) (key label : String) : Result Nat := do
  match ← optionalU64 object key label with
  | some n => .ok n
  | none => refuse s!"{label} has no non-negative integer {quoted key}"

def optionalArray (value : Option Json) (label : String) : Result (List Json) :=
  match value with
  | none | some .null => .ok []
  | some (.array values) => .ok values
  | some _ => refuse s!"{label} must be an array"

/-- The text of an entry; anything else counts as the empty text. -/
def valueText : Json → String
  | .text value => value
  | _ => ""

/-! ## Products, evidence and dependencies -/

/-- The number of code units of a text in UTF-16. -/
def utf16Length (s : List Char) : Nat :=
  (s.map fun ch => if ch.toNat < 0x10000 then 1 else 2).sum

def isEcosystemChar (ch : Char) : Bool :=
  isAsciiAlphanumeric ch || ch == '.' || ch == '_' || ch == '-'

/-- The conditions of `normalize_product` on the two sides of the first colon. -/
def isProductIdentity (value ecosystem name : List Char) : Bool :=
  !ecosystem.isEmpty && textBytes ecosystem ≤ 32 && !name.isEmpty &&
    utf16Length name ≤ 200 && utf16Length value ≤ 240 && ecosystem.head?.any isAsciiAlphanumeric &&
    ecosystem.all isEcosystemChar && !name.any isControl && !(trim name).isEmpty &&
    name.head? != some ':'

def normalizeProduct (value : String) : Result String :=
  let value := trim value.toList
  match splitOnce [':'] value with
  | none => refuse s!"product identity must use ecosystem:name: {quoted (String.ofList value)}"
  | some (ecosystem, name) =>
    if isProductIdentity value ecosystem name then
      .ok (String.ofList (ecosystem.map Char.toLower ++ ':' :: trim name))
    else refuse s!"invalid product identity {quoted (String.ofList value)}"

def productList (value : Option Json) (label : String) : Result (List String) := do
  let values ← optionalArray value label
  demand (values.length ≤ maxProducts) (.invalid s!"{label} has too many entries")
  let normalized ← values.mapM fun value => normalizeProduct (valueText value)
  .ok (sortedSet normalized)

def evidenceText (label value : String) : Result String :=
  let text := trimmed value
  if text = "" ∨ 500 < text.utf8ByteSize ∨ text.toList.any isControl then
    refuse s!"{label} has invalid evidence text"
  else .ok text

def evidenceList (value : Option Json) (label : String) : Result (List String) := do
  let values ← optionalArray value label
  demand (values.length ≤ maxEvidence) (.invalid s!"{label} has too many entries")
  let texts ← values.mapM fun value => evidenceText label (valueText value)
  .ok (sortedSet texts)

def validProjectId (value : String) : Bool :=
  value.utf8ByteSize == 25 && hasPrefix "repo-" value &&
    (value.toList.drop 5).all fun ch => isAsciiDigit ch || ('a' ≤ ch && ch ≤ 'f')

/-- `sort_by` on the upstream id, which keeps the order of equal ids. -/
def sortByUpstream (dependencies : List GraphDependency) : List GraphDependency :=
  dependencies.insertionSort fun a b => a.upstreamId ≤ b.upstreamId

def readDependency (label : String) : Json → Result GraphDependency
  | .object item => do
    let upstreamId ← requiredString item "upstream_id" label
    demand (validProjectId upstreamId = true)
      (.invalid s!"{label} has invalid upstream id {quoted upstreamId}")
    let products ← productList (item.lookup "products") s!"{label} products"
    let evidence ← evidenceList (item.lookup "evidence") s!"{label} evidence"
    .ok { upstreamId, products, evidence }
  | _ => refuse s!"{label} contains a non-object"

def dependencyList (value : Option Json) (label : String) : Result (List GraphDependency) := do
  let values ← optionalArray value label
  demand (values.length ≤ maxDependencies) (.invalid s!"{label} has too many entries")
  let result ← values.mapM (readDependency label)
  .ok (sortByUpstream result)

/-! ## Roots and identities -/

/-- The components of an absolute path, the innermost first: `.` is skipped, `..` leaves one. -/
def normalizeComponents : List (List Char) → List (List Char) → Result (List (List Char))
  | normalized, [] => .ok normalized
  | normalized, piece :: rest =>
    if piece = [] ∨ piece = ['.'] then normalizeComponents normalized rest
    else if piece = ['.', '.'] then
      match normalized with
      | [] => refuse "registered project root escapes its filesystem root"
      | _ :: parent => normalizeComponents parent rest
    else normalizeComponents (piece :: normalized) rest

/-- Components that end like a separator of the other system are dropped from the end. -/
def trimRoot (normalized : List (List Char)) : List (List Char) :=
  normalized.dropWhile fun piece => piece.getLast? == some '\\'

def renderPath : List (List Char) → String
  | [] => "/"
  | pieces => String.ofList (pieces.reverse.flatMap fun piece => '/' :: piece)

variable (host : Host)

def canonicalRegisteredRoot (root : String) : Result String := do
  demand (isBlank root = false) (.invalid "registered project has an empty root")
  let absolute ←
    if startsWith root '/' then .ok root
    else match host.currentDir with
      | .ok dir => .ok (dir ++ "/" ++ root)
      | .error e => .error (.io e)
  let normalized ← normalizeComponents [] (pieces (· == '/') absolute.toList)
  .ok (renderPath (trimRoot normalized))

def projectId (root : String) : String := "repo-" ++ hex ((host.sha256 (utf8 root)).take 10)

def validateName (value : String) : Result Unit :=
  demand (value ≠ "" ∧ value.utf8ByteSize ≤ 120 ∧ value.toList.any isControl = false)
    (.invalid "registry project has invalid name")

/-! ## The reader -/

/-- One project, when the ids in `seen` stand before it. -/
def parseProject (seen : List String) : Json → Result RegisteredProjectRecord
  | .object item => do
    let root ← canonicalRegisteredRoot host (← requiredString item "root" "registry project")
    let id ← requiredString item "id" "registry project"
    let expectedId := projectId host root
    demand (id = expectedId ∧ validProjectId id = true) (.invalid
      (s!"dependency registry project id {quoted id} does not match root {root} " ++
        s!"({quoted root}; expected {expectedId})"))
    demand (id ∉ seen) (.invalid s!"dependency registry duplicates project id {id}")
    let name ← requiredString item "name" "registry project"
    validateName name
    let products ← productList (item.lookup "products") "registry project products"
    let dependencies ← dependencyList (item.lookup "dependencies") "registry project dependencies"
    let graphGeneration ← optionalU64 item "graph_generation" "registry project"
    .ok { id, name, root, products, dependencies, graphGeneration := graphGeneration.getD 0 }
  | _ => refuse "dependency registry project is not an object"

def parseProjects : List String → List Json → Result (List RegisteredProjectRecord)
  | _, [] => .ok []
  | seen, value :: rest => do
    let project ← parseProject host seen value
    let projects ← parseProjects (project.id :: seen) rest
    .ok (project :: projects)

/-- The edges of one project: to other registered projects, and each once. -/
def checkDependencies (ids : List String) (id : String) :
    List String → List GraphDependency → Result Unit
  | _, [] => .ok ()
  | upstreams, dependency :: rest => do
    demand (¬(dependency.upstreamId = id ∨ dependency.upstreamId ∉ ids)) (.invalid
      s!"dependency registry has invalid upstream {dependency.upstreamId} for {id}")
    demand (dependency.upstreamId ∉ upstreams) (.invalid
      s!"dependency registry duplicates edge {id} -> {dependency.upstreamId}")
    checkDependencies ids id (dependency.upstreamId :: upstreams) rest

def checkProjects (ids : List String) : List RegisteredProjectRecord → Result Unit
  | [] => .ok ()
  | project :: rest => do
    checkDependencies ids project.id [] project.dependencies
    checkProjects ids rest

def parseRegistry (raw : Json) : Result Registry :=
  match raw with
  | .object object => do
    let schema ← requiredString object "schema" "dependency registry"
    demand (schema = registrySchema)
      (.invalid s!"unsupported dependency registry schema {quoted schema}")
    let generation ← optionalU64 object "generation" "dependency registry"
    match object.lookup "projects" with
    | some (.array values) => do
      let projects ← parseProjects host [] values
      checkProjects (projects.map (·.id)) projects
      .ok { raw, generation := generation.getD 0, projects }
    | _ => refuse "dependency registry has no projects array"
  | _ => refuse "dependency registry must be a JSON object"

/-! ## The candidate -/

def candidateDependencies (registry : Registry) (currentId : String) :
    List String → List Json → Result (List GraphDependency)
  | _, [] => .ok []
  | upstreams, .object item :: rest => do
    let upstreamId ← requiredString item "upstream" "dependency graph candidate"
    demand (validProjectId upstreamId = true ∧ upstreamId ≠ currentId ∧
        upstreamId ∈ registry.projects.map (·.id))
      (.invalid s!"dependency graph candidate has unknown/self upstream {quoted upstreamId}")
    demand (upstreamId ∉ upstreams)
      (.invalid s!"dependency graph candidate duplicates upstream {upstreamId}")
    let products ←
      productList (item.lookup "products") "dependency graph candidate dependency products"
    let evidence ←
      evidenceList (item.lookup "evidence") "dependency graph candidate dependency evidence"
    let more ← candidateDependencies registry currentId (upstreamId :: upstreams) rest
    .ok ({ upstreamId, products, evidence } :: more)
  | _, _ :: _ => refuse "dependency graph candidate contains a non-object"

def candidateDependencyList (value : Option Json) (registry : Registry) (currentId : String) :
    Result (List GraphDependency) :=
  match value with
  | some (.array values) => do
    demand (values.length ≤ maxDependencies)
      (.invalid "dependency graph candidate has too many dependencies")
    let result ← candidateDependencies registry currentId [] values
    .ok (sortByUpstream result)
  | _ => refuse "dependency graph candidate has no dependencies array"

/-- `read_snapshot` on the value of the candidate. -/
def readSnapshot (registry : Registry) (currentId : String) : Json → Result GraphSnapshot
  | .object object => do
    let schema ← requiredString object "schema" "dependency graph candidate"
    demand (schema = snapshotSchema)
      (.invalid s!"unsupported dependency graph candidate schema {quoted schema}")
    let baseGraphGeneration ←
      requiredU64 object "base_graph_generation" "dependency graph candidate"
    let products ← productList (object.lookup "products") "dependency graph candidate products"
    let dependencies ←
      candidateDependencyList (object.lookup "dependencies") registry currentId
    .ok { baseGraphGeneration, products, dependencies }
  | _ => refuse "dependency graph candidate must be a JSON object"

/-! ## Replacing a slice -/

def texts (values : List String) : Json := .array (values.map .text)

def GraphDependency.toJson (dependency : GraphDependency) : Json :=
  .object [("evidence", texts dependency.evidence), ("products", texts dependency.products),
    ("upstream_id", .text dependency.upstreamId)]

/-- The text of a field of a project, or nothing. -/
def fieldText (key : String) : Json → String
  | .object fields => ((fields.lookup key).map valueText).getD ""
  | _ => ""

/-- The order of the projects in the file: by name, then by id. -/
def projectLe (a b : Json) : Prop :=
  fieldText "name" a < fieldText "name" b ∨
    fieldText "name" a = fieldText "name" b ∧ fieldText "id" a ≤ fieldText "id" b

instance : DecidableRel projectLe := fun a b => by unfold projectLe; infer_instance

/-- The object of a project with the snapshot in the place of its slice. -/
def projectWith (project : Fields) (snapshot : GraphSnapshot) (graphGeneration : Nat)
    (occurredAt : String) : Fields :=
  put "graph_generation" (.integer graphGeneration) <|
    put "graph_updated_at" (.text occurredAt) <|
    put "dependencies" (.array (snapshot.dependencies.map GraphDependency.toJson)) <|
    put "products" (texts snapshot.products) project

/-- `u64` addition of one where overflow is not checked. -/
def wrappingSucc (n : Nat) : Nat := (n + 1) % (u64Max + 1)

/-- The registry to write: the project at `index` with the snapshot, everything else as read. -/
def applySnapshot (registry : Registry) (index : Nat) (snapshot : GraphSnapshot)
    (occurredAt : String) : Result Json :=
  match registry.raw with
  | .object root =>
    match root.lookup "projects" with
    | some (.array projects) =>
      match projects[index]?, registry.projects[index]? with
      | some (.object project), some current => do
        let generation := wrappingSucc current.graphGeneration
        let project := projectWith project snapshot generation occurredAt
        let projects := (projects.set index (.object project)).insertionSort projectLe
        demand (registry.generation + 1 ≤ u64Max)
          (.invalid "dependency registry generation overflow")
        .ok (.object
          (put "updated_at" (.text occurredAt) <|
            put "generation" (.integer (registry.generation + 1 : Nat)) <|
            put "projects" (.array projects) root))
      | _, _ => refuse "registry project changed from an object"
    | _ => refuse "registry projects changed from an array"
  | _ => refuse "registry changed from an object"

/-! ## Synchronization -/

/-- The places at which a synchronization asks whether its owner has lost its authority. -/
inductive Probe where
  | locking | locked | mutation | replacement | cleanup
  deriving DecidableEq

/-- What becomes of the replacement of a file: an error may come before or after the new content is
in place. -/
inductive Replacement where
  | done
  | refused (error : IoError)
  | unfinished (error : IoError)
  deriving DecidableEq

/-- What a synchronization finds: its files, its lock and the answers of its owner. -/
structure SyncEnv extends Host where
  serde : Serde
  candidatePath : Result Unit
  lock : Result Unit
  cancelled : Probe → Bool
  registryText : Except IoError String
  candidateText : Except IoError String
  replaceFile : Json → Replacement
  removeCandidate : Except IoError Unit

structure DependencyGraphRequest where
  currentProjectId : String
  baseGraphGeneration : Nat

structure GraphSyncResult where
  changed : Bool
  projectId : String
  products : List String
  dependencies : List GraphDependency
  deriving DecidableEq

namespace SyncEnv

variable (env : SyncEnv)

/-- The value of a file, read as JSON. -/
def readJson (text : Except IoError String) : Result Json :=
  match text with
  | .error e => .error (.io e)
  | .ok text =>
    match env.serde.read text with
    | .error e => .error (.json e)
    | .ok value => .ok value

def readRegistry : Result Registry := do
  parseRegistry env.toHost (← env.readJson env.registryText)

def readCandidate (registry : Registry) (currentId : String) : Result GraphSnapshot := do
  readSnapshot registry currentId (← env.readJson env.candidateText)

def keepsAuthority (probe : Probe) (moment : String) : Result Unit :=
  demand (env.cancelled probe = false)
    (.invalid s!"dependency graph sync lost owner authority {moment}")

end SyncEnv

/-- The slice of a project is not that of the candidate. -/
def differs (current : RegisteredProjectRecord) (candidate : GraphSnapshot) : Bool :=
  current.products != candidate.products || current.dependencies != candidate.dependencies

/-- A synchronization up to its write: the candidate, and the document to write if there is one. -/
def planSync (env : SyncEnv) (request : DependencyGraphRequest) (occurredAt : String) :
    Result (GraphSnapshot × Option Json) := do
  demand (isIsoUtc occurredAt = true) (.invalid
    s!"dependency graph sync timestamp is not ISO-8601 UTC: {quoted occurredAt}")
  env.keepsAuthority .locking "before locking"
  env.candidatePath
  env.lock
  env.keepsAuthority .locked "while acquiring the registry lock"
  let registry ← env.readRegistry
  match registry.projects.zipIdx.find? fun entry => entry.1.id == request.currentProjectId with
  | none =>
    refuse s!"registered project {request.currentProjectId} disappeared before graph sync"
  | some (current, index) => do
    demand (current.graphGeneration = request.baseGraphGeneration)
      (.staleGeneration request.baseGraphGeneration current.graphGeneration)
    let candidate ← env.readCandidate registry request.currentProjectId
    env.keepsAuthority .mutation "before registry mutation"
    demand (candidate.baseGraphGeneration = request.baseGraphGeneration)
      (.staleGeneration candidate.baseGraphGeneration current.graphGeneration)
    if differs current candidate then do
      let raw ← applySnapshot registry index candidate occurredAt
      env.keepsAuthority .replacement "before registry replacement"
      .ok (candidate, some raw)
    else .ok (candidate, none)

/-- What follows the write: the candidate is removed. -/
def finishSync (env : SyncEnv) (request : DependencyGraphRequest) (candidate : GraphSnapshot)
    (changed : Bool) : Result GraphSyncResult := do
  env.keepsAuthority .cleanup "before candidate cleanup"
  match env.removeCandidate with
  | .error e => .error (.io e)
  | .ok () =>
    .ok {
      changed, projectId := request.currentProjectId, products := candidate.products
      dependencies := candidate.dependencies }

/-- The result of a synchronization, and the value the registry file holds from then on if it was
replaced. -/
def sync (env : SyncEnv) (request : DependencyGraphRequest) (occurredAt : String) :
    Result GraphSyncResult × Option Json :=
  match planSync env request occurredAt with
  | .error e => (.error e, none)
  | .ok (candidate, none) => (finishSync env request candidate false, none)
  | .ok (candidate, some raw) =>
    match env.replaceFile raw with
    | .refused e => (.error (.io e), none)
    | .unfinished e => (.error (.io e), some raw)
    | .done => (finishSync env request candidate true, some raw)

end Orchestrail.DependencyGraph
