import Orchestrail.Lib.Durable
import Orchestrail.Lib.Records
import Orchestrail.Spec.Envelope

/-!
# Event storage and its rotation

The storage half of `events/outbox.rs`: the files of one `.work` directory that hold the event
stream, the layout that reads them as one logical stream, and the guarded transfer of the active
file into the archive with its recovery.

The directory is taken with plain files only, so the checks against redirected paths are left out,
and so are the temporaries of a replacement, which nothing reads. A missing active file reads as an
empty one. A segment is named by its sequence and its logical range, which is what its file name
spells. Offsets are naturals, and every sum the source checks against `u64` is checked here.
-/

namespace Orchestrail

open Records Durable Text Outcome

abbrev Bytes := List UInt8

def newline : UInt8 := 10

def u64Max : Nat := 18446744073709551615

/-- A committed event record may not be longer. -/
def maxEventLineBytes : Nat := 1024 * 1024

/-- What the confined directory listing gives up beyond. -/
def maxControlDirectoryEntries : Nat := 100000

def maxRotationTimestampBytes : Nat := 64

inductive ErrorKind where
  | notFound | invalidData | invalidInput | unexpectedEof | alreadyExists | other
  deriving DecidableEq, Repr

structure IoError where
  kind : ErrorKind
  text : String
  deriving DecidableEq

abbrev Io (α : Type) := Except IoError α

def invalidData {α : Type} (text : String) : Io α := .error ⟨.invalidData, text⟩

/-- `checked_add`. -/
def checkedAdd (a b : Nat) (overflow : String) : Io Nat :=
  if a + b ≤ u64Max then .ok (a + b) else invalidData overflow

/-! ## The directory -/

/-- The rotation index: a commit pointer over the archive, of fixed size. -/
structure RotationMetadata where
  schemaVersion : Nat := 0
  generation : Nat := 0
  segmentCount : Nat := 0
  archivedLen : Nat := 0
  activePrefixBytes : Nat := 0
  activePrefixSha256 : Option String := none
  lastRotationAt : Option String := none
  deriving DecidableEq

/-- A file of the archive directory, by the numbers in its name. -/
structure ArchiveFile where
  sequence : Nat
  startOffset : Nat
  endOffset : Nat
  bytes : Bytes
  deriving DecidableEq

structure Work where
  index : Option RotationMetadata := none
  archive : List ArchiveFile := []
  active : Bytes := []
  /-- ghost: every line the appends have written, for statements only -/
  appended : Bytes := []
  deriving DecidableEq

/-- An archive segment as its name and its length describe it. -/
structure ArchivedSegment where
  sequence : Nat
  startOffset : Nat
  endOffset : Nat
  len : Nat
  deriving DecidableEq

def ArchiveFile.segment (file : ArchiveFile) : ArchivedSegment :=
  ⟨file.sequence, file.startOffset, file.endOffset, file.bytes.length⟩

/-- The file a source of the stream is read from. -/
inductive SourcePath where
  | segment (sequence startOffset endOffset : Nat)
  | active
  deriving DecidableEq

/-- Open a file that must exist; a missing active file is an empty one. -/
def openExisting (work : Work) : SourcePath → Io Bytes
  | .active => .ok work.active
  | .segment sequence startOffset endOffset =>
    match work.archive.find? fun file => file.sequence = sequence ∧
        file.startOffset = startOffset ∧ file.endOffset = endOffset with
    | some file => .ok file.bytes
    | none => .error ⟨.notFound, "no such file"⟩

/-- The capacity the index must satisfy before a segment becomes visible. The sequence numbers stay
below the ceiling of the directory listing. -/
structure RotationLimits where
  maxSegments : Nat
  maxMetadataBytes : Nat
  listable : maxSegments ≤ maxControlDirectoryEntries

/-- `RotationLimits::DEFAULT`. -/
def RotationLimits.standard : RotationLimits where
  maxSegments := 65536
  maxMetadataBytes := 4 * 1024
  listable := by decide

/-- Whether and from which size on a safe boundary transfers the active segment. -/
structure RotationPolicy where
  enabled : Bool
  minSegmentBytes : Nat

/-- An empty segment is never archived. -/
def RotationPolicy.effectiveMinSegmentBytes (policy : RotationPolicy) : Nat :=
  max policy.minSegmentBytes 1

/-! ## The index as a file -/

/-- A character as the JSON writer spells it inside a string. -/
def jsonEscape (ch : Char) : List Char :=
  if ch = '"' then ['\\', '"']
  else if ch = '\\' then ['\\', '\\']
  else if ch = '\x08' then ['\\', 'b']
  else if ch = '\t' then ['\\', 't']
  else if ch = '\n' then ['\\', 'n']
  else if ch = '\x0c' then ['\\', 'f']
  else if ch = '\r' then ['\\', 'r']
  else if ch.toNat < 0x20 then
    ['\\', 'u', '0', '0', Nat.digitChar (ch.toNat / 16), Nat.digitChar (ch.toNat % 16)]
  else [ch]

def jsonQuoted (s : String) : String := String.ofList ('"' :: s.toList.flatMap jsonEscape ++ ['"'])

/-- The fields that are written, with their values spelled. -/
def RotationMetadata.fields (metadata : RotationMetadata) : List (String × String) :=
  [("schema_version", metadata.schemaVersion.repr), ("generation", metadata.generation.repr),
    ("segment_count", metadata.segmentCount.repr), ("archived_len", metadata.archivedLen.repr),
    ("active_prefix_bytes", metadata.activePrefixBytes.repr)] ++
  (metadata.activePrefixSha256.map fun digest =>
    ("active_prefix_sha256", jsonQuoted digest)).toList ++
  (metadata.lastRotationAt.map fun time => ("last_rotation_at", jsonQuoted time)).toList

def fieldLine (field : String × String) : String := "  \"" ++ field.1 ++ "\": " ++ field.2

/-- The pretty rendering of the index, closed by a newline. -/
def rotationMetadataPayload (metadata : RotationMetadata) : String :=
  "\x7b\n" ++ ",\n".intercalate (metadata.fields.map fieldLine) ++ "\n\x7d\n"

def emptyRotationMetadata : RotationMetadata := { schemaVersion := 1 }

/-- Read the index under the bound it is written under; no file is the state before any rotation. -/
def loadRotationMetadata (work : Work) : Io RotationMetadata :=
  match work.index with
  | none => .ok emptyRotationMetadata
  | some metadata =>
    if RotationLimits.standard.maxMetadataBytes < (rotationMetadataPayload metadata).utf8ByteSize then
      invalidData "control-plane artifact exceeds 4096 bytes: events_rotation.json"
    else if metadata.schemaVersion ≠ 1 then
      invalidData s!"unsupported events rotation metadata version {metadata.schemaVersion}"
    else .ok metadata

def nextSequence (current : Nat) : Io Nat :=
  checkedAdd current 1 "events archive segment sequence overflowed"

def nextGeneration (current : Nat) : Io Nat :=
  checkedAdd current 1 "events rotation generation overflowed"

/-- A long timestamp is not recorded. -/
def boundedRotationTimestamp (occurredAt : String) : Option String :=
  if occurredAt ≠ "" ∧ occurredAt.utf8ByteSize ≤ maxRotationTimestampBytes then some occurredAt
  else none

def isSha256Hex (value : Option String) : Bool := value.any (isHex 64)

/-! ## The index and the archive together -/

/-- The validated committed archive and whatever is visible beyond it. -/
structure RotationState where
  metadata : RotationMetadata
  committed : List ArchivedSegment
  uncommitted : List ArchivedSegment

/-- Every visible segment, by sequence. -/
def listedArchiveSegments (work : Work) : Io (List ArchivedSegment) :=
  if maxControlDirectoryEntries < work.archive.length then
    invalidData "control-plane directory exceeds 100000 entries: events_archive"
  else
    .ok ((work.archive.map ArchiveFile.segment).mergeSort fun a b => a.sequence ≤ b.sequence)

/-- The committed segments are exactly the sequences from `sequence` on, contiguous from `start`,
each as long as its range; where the last of them ends. -/
def checkCommitted (sequence start : Nat) : List ArchivedSegment → Io Nat
  | [] => .ok start
  | segment :: segments =>
    if segment.sequence ≠ sequence ∨ segment.startOffset ≠ start ∨
        segment.endOffset ≤ segment.startOffset ∨
        segment.len ≠ segment.endOffset - segment.startOffset then
      invalidData "invalid events archive segment"
    else checkCommitted (sequence + 1) segment.endOffset segments

/-- The pending prefix is the last segment, and its digest is one. -/
def checkPendingPrefix (metadata : RotationMetadata) (committed : List ArchivedSegment) : Io Unit :=
  if 0 < metadata.activePrefixBytes then
    match committed.getLast? with
    | none => invalidData "events rotation has a pending prefix without an archive segment"
    | some last =>
      if metadata.activePrefixBytes ≠ last.len ∨ isSha256Hex metadata.activePrefixSha256 = false then
        invalidData "events rotation pending prefix disagrees with its archive segment"
      else .ok ()
  else if metadata.activePrefixSha256.isSome then
    invalidData "events rotation records a prefix digest without a pending prefix"
  else .ok ()

/-- Reconcile an index already read with the archive directory. -/
def rotationStateFrom (work : Work) (metadata : RotationMetadata) : Io RotationState := do
  let listed ← listedArchiveSegments work
  let count := metadata.segmentCount
  demand (count ≤ listed.length) ⟨.notFound, "events archive is missing a committed segment"⟩
  let committed := listed.take count
  let archivedEnd ← checkCommitted 1 0 committed
  demand (archivedEnd = metadata.archivedLen)
    ⟨.invalidData, "events rotation commit pointer disagrees with its archive segments"⟩
  checkPendingPrefix metadata committed
  .ok ⟨metadata, committed, listed.drop count⟩

def rotationState (work : Work) : Io RotationState := do
  rotationStateFrom work (← loadRotationMetadata work)

/-! ## The logical stream -/

structure EventStreamSource where
  path : SourcePath
  startOffset : Nat
  endOffset : Nat
  physicalStart : Nat
  archived : Bool
  deriving DecidableEq

structure EventStreamLayout where
  sources : List EventStreamSource := []
  archivedLen : Nat := 0
  logicalLen : Nat := 0
  deriving DecidableEq

section Digest

-- the hexadecimal SHA-256 of some bytes
variable (sha256 : Bytes → String)

def sha256Stream (bytes : Bytes) (len : Nat) : Io String :=
  if bytes.length < len then
    .error ⟨.unexpectedEof, "event segment ended while hashing its declared range"⟩
  else .ok (sha256 (bytes.take len))

def verifyActivePrefix (active : Bytes) (expected : Option String) (prefixBytes : Nat) : Io Unit :=
  match expected with
  | none => invalidData "pending rotation has no archived prefix digest"
  | some expected => do
    let actual ← sha256Stream sha256 active prefixBytes
    demand (actual = expected)
      ⟨.invalidData, "active event prefix differs from its archived segment"⟩

/-- Where the stream goes on in the active file: behind the bytes that are archived already. -/
def physicalStart (metadata : RotationMetadata) (active : Bytes) : Io Nat :=
  if metadata.activePrefixBytes = 0 ∨ active.length = 0 then .ok 0
  else if metadata.activePrefixBytes ≤ active.length then do
    verifyActivePrefix sha256 active metadata.activePrefixSha256 metadata.activePrefixBytes
    .ok metadata.activePrefixBytes
  else invalidData "events rotation metadata points past the active segment"

def layoutFromState (work : Work) (state : RotationState) : Io EventStreamLayout := do
  let archived := state.committed.map fun segment =>
    { path := .segment segment.sequence segment.startOffset segment.endOffset
      startOffset := segment.startOffset, endOffset := segment.endOffset
      physicalStart := 0, archived := true : EventStreamSource }
  let archivedLen := state.metadata.archivedLen
  let start ← physicalStart sha256 state.metadata work.active
  let activeBytes := work.active.length - start
  let logicalLen ← checkedAdd archivedLen activeBytes "event stream length overflowed"
  let live : List EventStreamSource :=
    if 0 < activeBytes then
      [{ path := .active, startOffset := archivedLen, endOffset := logicalLen
         physicalStart := start, archived := false }]
    else []
  .ok ⟨archived ++ live, archivedLen, logicalLen⟩

/-- The layout alone, for the writer, which no rotation can overtake. -/
def eventStreamLayout (work : Work) : Io EventStreamLayout := do
  layoutFromState sha256 work (← rotationState work)

/-- The bytes one source contributes. -/
def EventStreamSource.read (work : Work) (source : EventStreamSource) : Io Bytes := do
  let file ← openExisting work source.path
  .ok ((file.drop source.physicalStart).take (source.endOffset - source.startOffset))

/-- The bytes of several sources, one after the other. -/
def readSources (work : Work) : List EventStreamSource → Io Bytes
  | [] => .ok []
  | source :: sources => do
    let bytes ← source.read work
    .ok (bytes ++ (← readSources work sources))

/-- The logical stream as the layout resolves it. -/
def eventStream (work : Work) : Io Bytes := do
  let layout ← eventStreamLayout sha256 work
  readSources work layout.sources

/-! ## Recovery and transfer -/

inductive OutboxError where
  | io (error : IoError)
  | invalidExisting (line : Nat) (error : ParseError)
  | eventIdCollision (eventId : String)
  deriving DecidableEq

/-- An operation on the directory, with a memory of the process beside it. -/
abbrev Disk (μ : Type) (α : Type) := Prog Work μ OutboxError α

variable {μ : Type}

def ofIo {α : Type} (x : Io α) : Disk μ α := attempt (x.mapError OutboxError.io)

/-- Replace the index as a whole. -/
def writeRotationMetadata (metadata : RotationMetadata) (maxBytes : Nat) : Disk μ Unit := do
  ofIo (demand ((rotationMetadataPayload metadata).utf8ByteSize ≤ maxBytes)
    ⟨.invalidInput, "control-plane artifact exceeds its bound: events_rotation.json"⟩)
  atomically fun work => { work with index := some metadata }

/-- Drop the archived prefix of the active file, once it is proved to be there. A crash after the
replacement leaves an active file that no longer carries it. -/
def replaceActiveWithoutPrefix (metadata : RotationMetadata) : Disk μ Unit := do
  let work ← onDisk
  let prefixBytes := metadata.activePrefixBytes
  if work.active.length = 0 then pure ()
  else do
    ofIo (demand (prefixBytes ≤ work.active.length)
      ⟨.invalidData, "active event segment is shorter than its pending archived prefix"⟩)
    ofIo (verifyActivePrefix sha256 work.active metadata.activePrefixSha256 prefixBytes)
    atomically fun work => { work with active := work.active.drop prefixBytes }

/-- Finish the transfer the index records; the index it leaves. -/
def completePendingRotation (metadata : RotationMetadata) : Disk μ RotationMetadata :=
  if metadata.activePrefixBytes = 0 then pure metadata
  else do
    replaceActiveWithoutPrefix sha256 metadata
    let generation ← ofIo (nextGeneration metadata.generation)
    let settled := { metadata with
      activePrefixBytes := 0, activePrefixSha256 := none, generation := generation }
    writeRotationMetadata settled RotationLimits.standard.maxMetadataBytes
    pure settled

def unresolvable : IoError :=
  ⟨.invalidData, "events archive contains an unresolvable partial rotation"⟩

/-- The index that counts the uncounted segment: it is the one that comes next, and it is proved to
be the start of the active file. -/
def adoptOrphan (work : Work) (metadata : RotationMetadata) (orphan : ArchivedSegment) :
    Io RotationMetadata := do
  let sequence ← nextSequence metadata.segmentCount
  demand (orphan.sequence = sequence ∧ orphan.startOffset = metadata.archivedLen ∧
    orphan.startOffset < orphan.endOffset ∧ orphan.len = orphan.endOffset - orphan.startOffset)
    unresolvable
  let archived ← openExisting work (.segment orphan.sequence orphan.startOffset orphan.endOffset)
  let mismatch : IoError :=
    ⟨.invalidData, "partial archive segment does not match the active event prefix"⟩
  demand (orphan.len ≤ work.active.length) mismatch
  let left ← sha256Stream sha256 work.active orphan.len
  let right ← sha256Stream sha256 archived orphan.len
  demand (left = right) mismatch
  let generation ← nextGeneration metadata.generation
  let digest ← sha256Stream sha256 archived orphan.len
  .ok
    { metadata with
      generation := generation
      segmentCount := orphan.sequence
      archivedLen := orphan.endOffset
      activePrefixBytes := orphan.len
      activePrefixSha256 := some digest }

/-- Finish or adopt whatever an interrupted transfer left. -/
def recoverRotation : Disk μ Unit := do
  let work ← onDisk
  let state ← ofIo (rotationState work)
  let metadata ← completePendingRotation sha256 state.metadata
  match state.uncommitted with
  | [] => pure ()
  | [orphan] => do
    let work ← onDisk
    let adopted ← ofIo (adoptOrphan sha256 work metadata orphan)
    writeRotationMetadata adopted RotationLimits.standard.maxMetadataBytes
    let _ ← completePendingRotation sha256 adopted
    pure ()
  | _ => refuse (.io unresolvable)

/-- The length of the part of a file that ends with a newline. -/
def committedPrefixLen (file : Bytes) : Io Nat :=
  if file.length = 0 then .ok 0
  else if file.getLast? = some newline then .ok file.length
  else
    let inspected := min file.length (maxEventLineBytes + 1)
    match rposition newline (file.drop (file.length - inspected)) with
    | some index => .ok (file.length - inspected + index + 1)
    | none =>
      if file.length ≤ maxEventLineBytes then .ok 0
      else invalidData "unterminated events.jsonl tail exceeds 1048576 byte limit"

/-- A digest of the right width, for the capacity decision. -/
def placeholderSha256 : String := String.ofList (List.replicate 64 '0')

/-- The copy of the active file becomes visible under the name of the segment. -/
def copySegmentAtomically (sequence startOffset endOffset : Nat) : Disk μ Unit := do
  let work ← onDisk
  ofIo (demand ((openExisting work (.segment sequence startOffset endOffset)).isOk = false)
    ⟨.alreadyExists, "events archive segment already exists"⟩)
  atomically fun work =>
    { work with
      archive := work.archive ++ [⟨sequence, startOffset, endOffset,
        work.active.take (endOffset - startOffset)⟩] }

/-- The index a transfer of the active segment would publish, with a placeholder digest. -/
def planRotation (work : Work) (occurredAt : String) : Io RotationMetadata := do
  let activeLen := work.active.length
  let committed ← committedPrefixLen work.active
  demand (committed = activeLen)
    ⟨.invalidData, "refusing to rotate an unterminated active event segment"⟩
  let state ← rotationState work
  demand (state.uncommitted = [] ∧ state.metadata.activePrefixBytes = 0)
    ⟨.invalidData, "events archive still has an unfinished rotation"⟩
  let sequence ← nextSequence state.metadata.segmentCount
  let endOffset ← checkedAdd state.metadata.archivedLen activeLen "archive offset overflowed"
  let generation ← nextGeneration state.metadata.generation
  .ok
    { state.metadata with
      generation := generation
      segmentCount := sequence
      archivedLen := endOffset
      activePrefixBytes := activeLen
      activePrefixSha256 := some placeholderSha256
      lastRotationAt := boundedRotationTimestamp occurredAt }

/-- Transfer the whole active segment into the archive, or decline to; the bytes transferred. -/
def rotateActiveSegment (occurredAt : String) (policy : RotationPolicy) (limits : RotationLimits) :
    Disk μ Nat := do
  recoverRotation sha256
  let work ← onDisk
  let activeLen := work.active.length
  if activeLen < policy.effectiveMinSegmentBytes then pure 0
  else do
    let planned ← ofIo (planRotation work occurredAt)
    -- capacity is proved before the segment becomes visible, never after
    if limits.maxSegments < planned.segmentCount ∨
        limits.maxMetadataBytes < (rotationMetadataPayload planned).utf8ByteSize then pure 0
    else do
      copySegmentAtomically planned.segmentCount (planned.archivedLen - activeLen) planned.archivedLen
      let next := { planned with activePrefixSha256 := some (sha256 work.active) }
      writeRotationMetadata next limits.maxMetadataBytes
      let _ ← completePendingRotation sha256 next
      pure activeLen

end Digest

end Orchestrail
