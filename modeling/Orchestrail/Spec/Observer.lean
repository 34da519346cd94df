import Mathlib.Data.List.Sort
import Orchestrail.Lib.Watch
import Orchestrail.Spec.QueueInbox

/-!
# Observers of the control plane

`SnapshotCache` of `state/snapshot.rs` and `PlainFileCache` of the console's `cache.rs`: what was
parsed of some files is kept while their stamps stand. A load asks for one stamp, one text or one
listing at a time; each of them is a look at directories that others write meanwhile.

Every file is a plain one. What is made of a text is a parameter.
-/

namespace Orchestrail.Observer

open Text Watch

structure PlainFileStamp where
  len : Nat
  modified : Option Nat
  deriving DecidableEq

structure File where
  bytes : Bytes
  modified : Option Nat
  deriving DecidableEq

def File.stamp (file : File) : PlainFileStamp := ⟨file.bytes.length, file.modified⟩

def oversize (path : String) (maxBytes : Nat) : IoError :=
  ⟨.invalidData, s!"control-plane artifact exceeds {maxBytes} bytes: {path}"⟩

/-- `optional_plain_file_stamp` of what a path holds. -/
def optionalPlainFileStamp (path : String) (maxBytes : Nat) :
    Option File → Io (Option PlainFileStamp)
  | none => .ok none
  | some file =>
    if maxBytes < file.bytes.length then .error (oversize path maxBytes)
    else .ok (some file.stamp)

/-- `read_optional_text` of what a path holds. -/
def readOptionalText (path : String) (maxBytes : Nat) : Option File → Io (Option String)
  | none => .ok none
  | some file =>
    if maxBytes < file.bytes.length then .error (oversize path maxBytes)
    else
      match fromUtf8 file.bytes with
      | none => .error ⟨.invalidData, s!"control-plane artifact is not UTF-8: {path}"⟩
      | some text => .ok (some text)

/-! ## One file -/

/-- The parsed value of one file, and the path and stamp it belongs to. -/
structure PlainFileCache (τ : Type) where
  key : Option (String × Option PlainFileStamp) := none
  value : Option τ := none

/-- Looks at plain files by their paths. -/
abbrev FileLooks (α : Type) := Watch (String → Option File) IoError α

section LoadWith

variable {τ : Type} (parse : Option String → τ)

def lookStamp (path : String) (maxBytes : Nat) : FileLooks (Option PlainFileStamp) := do
  give (optionalPlainFileStamp path maxBytes ((← look) path))

def lookText (path : String) (maxBytes : Nat) : FileLooks (Option String) := do
  give (readOptionalText path maxBytes ((← look) path))

/-- The part of `load_with` behind a miss. -/
def PlainFileCache.reload (before : Option PlainFileStamp) (path : String) (maxBytes : Nat) :
    FileLooks (Io τ × PlainFileCache τ) := do
  match ← capture (lookText path maxBytes) with
  | .error error => pure (.error error, {})
  | .ok text =>
    let value := parse text
    match ← capture (lookStamp path maxBytes) with
    | .error error => pure (.error error, {})
    | .ok after =>
      let key := if after = before then some (path, after) else none
      pure (.ok value, { key, value := some value })

/-- The result of `load_with`, and the cache behind it. -/
def PlainFileCache.loadWith (cache : PlainFileCache τ) (path : String) (maxBytes : Nat) :
    FileLooks (Io τ × PlainFileCache τ) := do
  match ← capture (lookStamp path maxBytes) with
  | .error error => pure (.error error, {})
  | .ok before =>
    if cache.key = some (path, before) then
      match cache.value with
      | some value => pure (.ok value, cache)
      | none => throw ⟨.other, "an initialized file stamp always has a parsed value"⟩
    else PlainFileCache.reload parse before path maxBytes

end LoadWith

/-! ## The control plane -/

/-- The files of a control plane that a snapshot is made of. -/
inductive Place where
  | queue | cohort | integration | batch
  | task (name : String)
  deriving DecidableEq

def Place.path (work : String) : Place → String
  | queue => work ++ "/Tasks_Queue.md"
  | cohort => work ++ "/cohort_state.md"
  | integration => work ++ "/integration_state.md"
  | batch => work ++ "/batch.md"
  | task name => work ++ "/tasks/" ++ name ++ "/task.md"

/-- An entry of `tasks/`. -/
structure Entry where
  name : String
  isDir : Bool
  deriving DecidableEq

/-- The control planes, by their work directories. A task file stands in a listed directory. -/
structure World where
  file : String → Place → Option File
  tasks : String → Option (List Entry)
  distinct : ∀ work entries, tasks work = some entries → (entries.map (·.name)).Nodup
  within : ∀ work name, file work (.task name) ≠ none →
    ∃ entries, tasks work = some entries ∧ ⟨name, true⟩ ∈ entries

abbrev Looks (α : Type) := Watch World IoError α

def boundedEntries (work : String) : Option (List Entry) → Io (Option (List Entry))
  | none => .ok none
  | some entries =>
    if maxControlDirectoryEntries < entries.length then
      .error ⟨.invalidData,
        s!"control-plane directory exceeds {maxControlDirectoryEntries} entries: {work}/tasks"⟩
    else .ok (some entries)

def plainDirectory (work name : String) (tasks : Option (List Entry)) : Io Unit :=
  match (tasks.getD []).find? (·.name = name) with
  | none => .error ⟨.notFound, "No such file or directory (os error 2)"⟩
  | some entry =>
    if entry.isDir then .ok ()
    else .error ⟨.invalidData, s!"control-plane path is not a plain directory: {work}/tasks/{name}"⟩

section Looks

variable (work : String)

def stampOf (place : Place) : Looks (Option PlainFileStamp) := do
  give (optionalPlainFileStamp (place.path work) maxControlBytes ((← look).file work place))

def textOf (place : Place) : Looks (Option String) := do
  give (readOptionalText (place.path work) maxControlBytes ((← look).file work place))

def plainDirectoryEntries : Looks (Option (List Entry)) := do
  give (boundedEntries work ((← look).tasks work))

def requirePlainDirectory (name : String) : Looks Unit := do
  give (plainDirectory work name ((← look).tasks work))

/-- Whether an entry is a task directory; what was listed as another thing is passed over. -/
def isTaskDirectory (entry : Entry) : Looks Bool := do
  match ← capture (requirePlainDirectory work entry.name) with
  | .ok () => pure true
  | .error error => if entry.isDir then throw error else pure false

/-- The stamps of the task directories. -/
def stampTasks : List Entry → Looks (List (String × Option PlainFileStamp))
  | [] => pure []
  | entry :: entries => do
    if ← isTaskDirectory work entry then
      let stamp ← stampOf work (.task entry.name)
      let stamps ← stampTasks entries
      pure ((entry.name, stamp) :: stamps)
    else stampTasks entries

structure SnapshotInputStamp where
  work : String
  queue : Option PlainFileStamp
  cohort : Option PlainFileStamp
  integration : Option PlainFileStamp
  batch : Option PlainFileStamp
  descriptors : List (String × Option PlainFileStamp)
  deriving DecidableEq

def stampDescriptors : Looks (List (String × Option PlainFileStamp)) := do
  match ← plainDirectoryEntries work with
  | none => pure []
  | some entries =>
    let stamps ← stampTasks work entries
    pure (stamps.insertionSort fun left right => left.1 ≤ right.1)

def snapshotInputStamp : Looks SnapshotInputStamp := do
  let descriptors ← stampDescriptors work
  let queue ← stampOf work .queue
  let cohort ← stampOf work .cohort
  let integration ← stampOf work .integration
  let batch ← stampOf work .batch
  pure { work, queue, cohort, integration, batch, descriptors }

/-- The names of the task directories. -/
def taskDirectories : List Entry → Looks (List String)
  | [] => pure []
  | entry :: entries => do
    let isTask ← isTaskDirectory work entry
    let names ← taskDirectories entries
    pure (if isTask then entry.name :: names else names)

end Looks

/-! ## Snapshots -/

/-- What is made of the texts. -/
structure Parsers (κ δ γ ι β : Type) where
  queue : String → List κ
  descriptor : String → String → δ
  cohort : String → γ
  integration : String → ι
  noIntegration : ι
  batch : String → β

structure Snapshot (κ δ γ ι β : Type) where
  workDir : String
  queue : List κ
  descriptors : List δ
  cohort : Option γ
  integration : ι
  batch : Option β
  deriving DecidableEq

/-- The stamps of the last load whose files stood still, and what it parsed. -/
structure SnapshotCache (κ δ γ ι β : Type) where
  cached : Option (SnapshotInputStamp × Snapshot κ δ γ ι β) := none

section Load

variable {κ δ γ ι β : Type} (parsers : Parsers κ δ γ ι β) (work : String)

/-- The descriptors of some task directories; one without a file has none. -/
def readTasks : List String → Looks (List δ)
  | [] => pure []
  | name :: names => do
    let text ← textOf work (.task name)
    let descriptors ← readTasks names
    pure ((text.map (parsers.descriptor name)).toList ++ descriptors)

def tryLoadDescriptors : Looks (List δ) := do
  match ← plainDirectoryEntries work with
  | none => pure []
  | some entries =>
    let names ← taskDirectories work entries
    readTasks parsers work (names.insertionSort (· ≤ ·))

namespace Snapshot

def tryLoad : Looks (Snapshot κ δ γ ι β) := do
  let queue ← textOf work .queue
  let descriptors ← tryLoadDescriptors parsers work
  let cohort ← textOf work .cohort
  let integration ← textOf work .integration
  let batch ← textOf work .batch
  pure {
    workDir := work
    queue := (queue.map parsers.queue).getD []
    descriptors
    cohort := cohort.map parsers.cohort
    integration := (integration.map parsers.integration).getD parsers.noIntegration
    batch := batch.map parsers.batch }

def empty : Snapshot κ δ γ ι β where
  workDir := work
  queue := []
  descriptors := []
  cohort := none
  integration := parsers.noIntegration
  batch := none

/-- A failed load is an empty snapshot. -/
def orEmpty : Io (Snapshot κ δ γ ι β) → Snapshot κ δ γ ι β
  | .ok snapshot => snapshot
  | .error _ => empty parsers work

def load : Looks (Snapshot κ δ γ ι β) := do
  pure (orEmpty parsers work (← capture (tryLoad parsers work)))

end Snapshot

namespace SnapshotCache

/-- The value that is kept for some stamps. -/
def held (cache : SnapshotCache κ δ γ ι β) (stamp : SnapshotInputStamp) :
    Option (Snapshot κ δ γ ι β) :=
  cache.cached.bind fun entry => if entry.1 = stamp then some entry.2 else none

/-- The part of `load` behind a miss. -/
def reload (before : SnapshotInputStamp) :
    Looks (Snapshot κ δ γ ι β × SnapshotCache κ δ γ ι β) := do
  match ← capture (Snapshot.tryLoad parsers work) with
  | .error _ => pure (Snapshot.empty parsers work, {})
  | .ok snapshot =>
    match ← capture (snapshotInputStamp work) with
    | .error _ => pure (snapshot, {})
    | .ok after => pure (snapshot, if after = before then ⟨some (after, snapshot)⟩ else {})

/-- The snapshot of a load, and the cache behind it. -/
def load (cache : SnapshotCache κ δ γ ι β) :
    Looks (Snapshot κ δ γ ι β × SnapshotCache κ δ γ ι β) := do
  match ← capture (snapshotInputStamp work) with
  | .error _ =>
    let snapshot ← Snapshot.load parsers work
    pure (snapshot, {})
  | .ok before =>
    match cache.held before with
    | some snapshot => pure (snapshot, cache)
    | none => reload parsers work before

end SnapshotCache

end Load

end Orchestrail.Observer
