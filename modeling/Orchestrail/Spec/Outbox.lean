import Orchestrail.Spec.Rotation

/-!
# The idempotent writer of the event journal

The writing half of `events/outbox.rs`: the index a process keeps of the committed history, the scan
that builds and extends it, and the append that makes every event exactly one record.

The memory of the process is the cached index of the one outbox modelled; a restart and the eviction
of the cache lose it. The count of scanned bytes, which only tests read, is left out. The state of
the whole is a `Writer`, and `Writer.next` its calls.
-/

namespace Orchestrail

open Records Durable Text Outcome Table

inductive AppendOutcome where
  | appended | alreadyPresent
  deriving DecidableEq, Repr

/-- What the process remembers of the committed history. -/
structure CachedIndex where
  archivedLen : Nat := 0
  committedLen : Nat := 0
  committedLines : Nat := 0
  semanticById : StringMap String := ∅
  activeIds : StringSet := ∅
  publishedBatches : StringSet := ∅

/-- The policies of an outbox. The source fixes the limits to `RotationLimits::DEFAULT`. -/
structure Outbox where
  rotation : RotationPolicy
  limits : RotationLimits := .standard

/-- The content two events with one id must share. -/
def Envelope.semantic (event : Envelope) : Envelope := { event with occurredAt := "" }

section Codec

variable (serde : Serde) (sha256 : Bytes → String)

/-- The record of an event: its line without the newline. -/
def Envelope.record (event : Envelope) : Bytes := utf8 (event.toJsonLine serde)

def semanticFingerprint (event : Envelope) : String := sha256 (event.semantic.record serde)

/-- Enter one event into the index. -/
def CachedIndex.enter (index : CachedIndex) (active : Bool) (event : Envelope) : CachedIndex :=
  { index with
    semanticById := index.semanticById.insert event.eventId (semanticFingerprint serde sha256 event)
    activeIds := if active then index.activeIds.insert event.eventId else index.activeIds
    publishedBatches :=
      match event.eventType, event.batchId with
      | .cohortPublished, some batchId => index.publishedBatches.insert batchId
      | _, _ => index.publishedBatches }

/-- One record of the scan, with its newline. -/
def scanRecord (active : Bool) (raw : Bytes) (index : CachedIndex) :
    Except OutboxError CachedIndex := do
  let index := { index with committedLines := index.committedLines + 1 }
  demand (raw.getLast? = some newline ∧ raw.length - 1 ≤ maxEventLineBytes)
    (.io ⟨.invalidData, "events.jsonl record exceeds 1048576 byte limit"⟩)
  match fromUtf8 raw.dropLast with
  | none => .error (.io ⟨.invalidData, "outbox contains non-UTF-8 committed line"⟩)
  | some line =>
    if isBlank line then .ok index
    else
      match parseLine serde line with
      | .error error => .error (.invalidExisting index.committedLines error)
      | .ok existing => do
        demand ((index.semanticById[existing.eventId]?).all
            (· == semanticFingerprint serde sha256 existing))
          (.eventIdCollision existing.eventId)
        .ok (index.enter serde sha256 active existing)

/-- The records of the next `remaining` bytes. Every record takes at least one, so `fuel` does not
run out before them. -/
def scanRecords (active : Bool) : Nat → Bytes → Nat → CachedIndex → Except OutboxError CachedIndex
  | 0, _, _, index => .ok index
  | fuel + 1, rest, remaining, index =>
    if remaining = 0 then .ok index
    else do
      let raw := readUntil newline (rest.take (min remaining (maxEventLineBytes + 2)))
      demand (raw ≠ []) (.io ⟨.unexpectedEof, "outbox ended before its committed prefix"⟩)
      let index ← scanRecord serde sha256 active raw index
      scanRecords active fuel (rest.drop raw.length) (remaining - raw.length) index

def scanCommittedRange (file : Bytes) (offset byteLen : Nat) (index : CachedIndex) (active : Bool) :
    Except OutboxError CachedIndex :=
  scanRecords serde sha256 active byteLen (file.drop offset) byteLen index

/-- The records of the archived sources. -/
def scanArchived (work : Work) : List EventStreamSource → CachedIndex →
    Except OutboxError CachedIndex
  | [], index => .ok index
  | source :: sources, index => do
    let file ← (openExisting work source.path).mapError OutboxError.io
    scanArchived work sources
      (← scanCommittedRange serde sha256 file 0 (source.endOffset - source.startOffset) index false)

/-- Bring the index up to date with the archive and the committed part of the active file. -/
def scanCommittedHistory (layout : EventStreamLayout) (work : Work) (index : CachedIndex)
    (committedLen : Nat) : Except OutboxError CachedIndex := do
  let index ←
    if index.archivedLen = 0 ∧ 0 < layout.archivedLen then do
      let scanned ← scanArchived serde sha256 work (layout.sources.filter (·.archived)) index
      .ok { scanned with archivedLen := layout.archivedLen }
    else .ok index
  if index.committedLen = committedLen then .ok index
  else do
    let start := index.committedLen
    let scanned ← scanCommittedRange serde sha256 work.active start (committedLen - start) index true
    .ok { scanned with committedLen := committedLen }

/-- The index a scan from nothing builds. -/
def rescan (work : Work) : Except OutboxError CachedIndex := do
  let committedLen ← (committedPrefixLen work.active).mapError OutboxError.io
  let layout ← (eventStreamLayout sha256 work).mapError OutboxError.io
  scanCommittedHistory serde sha256 layout work {} committedLen

/-- The cached index brought up to date. An index of another archive, or of more than is committed,
is dropped first. -/
def refreshIndex (layout : EventStreamLayout) (work : Work) (cached : Option CachedIndex)
    (committedLen : Nat) : Except OutboxError CachedIndex :=
  let cached := cached.getD {}
  let index :=
    if cached.archivedLen ≠ layout.archivedLen ∨ committedLen < cached.committedLen then {}
    else cached
  scanCommittedHistory serde sha256 layout work index committedLen

/-- Whether the index knows the event; an id with other content is refused. -/
def CachedIndex.knows (index : CachedIndex) (event : Envelope) : Except OutboxError Bool :=
  match index.semanticById[event.eventId]? with
  | some existing =>
    if existing = semanticFingerprint serde sha256 event then .ok true
    else .error (.eventIdCollision event.eventId)
  | none => .ok false

/-- Cut a torn tail off the active file. -/
def cutTornTail (committedLen : Nat) : Disk (Option CachedIndex) Unit := do
  let work ← onDisk
  if committedLen = work.active.length then pure ()
  else atomically fun work => { work with active := work.active.take committedLen }

/-- Write a line at the end of the active file. -/
def writeLine (line : Bytes) : Disk (Option CachedIndex) Unit :=
  gradually
    (fun work =>
      { work with active := work.active ++ line, appended := work.appended ++ line })
    fun count work =>
      { work with
        active := work.active ++ line.take count
        appended := if line.length ≤ count then work.appended ++ line else work.appended }

/-- The index with the event just written. -/
def CachedIndex.extend (index : CachedIndex) (event : Envelope) (line : Bytes) : Io CachedIndex := do
  let committedLen ← checkedAdd index.committedLen line.length "outbox length overflowed"
  .ok
    { index.enter serde sha256 true event with
      committedLen := committedLen
      committedLines := index.committedLines + 1 }

namespace Outbox

variable (outbox : Outbox)

/-- The close of a cohort whose publication is in the index, still in the active file. -/
def closesPublished (event : Envelope) (index : CachedIndex) : Bool :=
  outbox.rotation.enabled && decide (event.eventType = .cohortClosed) &&
    index.activeIds.contains event.eventId &&
    event.batchId.any fun batchId => index.publishedBatches.contains batchId

/-- Transfer the active file at the close of a published cohort. -/
def rotateAfterPublishedClose (event : Envelope) (index : CachedIndex) :
    Disk (Option CachedIndex) Unit :=
  if outbox.closesPublished event index = false then pure ()
  else do
    let archived ← rotateActiveSegment sha256 event.occurredAt outbox.rotation outbox.limits
    if archived = 0 then pure ()
    else do
      let archivedLen ← ofIo (checkedAdd index.archivedLen archived "archive offset overflowed")
      remember (some
        { index with archivedLen := archivedLen, committedLen := 0, activeIds := ∅ })

/-- Append an event exactly once by its id (`append_idempotent`). -/
def appendIdempotent (event : Envelope) : Disk (Option CachedIndex) AppendOutcome := do
  recoverRotation sha256
  let line := event.record serde ++ [newline]
  let work ← onDisk
  let committedLen ← ofIo (committedPrefixLen work.active)
  let layout ← ofIo (eventStreamLayout sha256 work)
  let cached ← remembered
  match refreshIndex serde sha256 layout work cached committedLen with
  | .error error => do
    remember none
    refuse error
  | .ok index => do
    remember (some index)
    let present ← attempt (index.knows serde sha256 event)
    cutTornTail committedLen
    if present then do
      outbox.rotateAfterPublishedClose sha256 event index
      pure .alreadyPresent
    else do
      writeLine line
      let index ← ofIo (index.extend serde sha256 event line)
      remember (some index)
      outbox.rotateAfterPublishedClose sha256 event index
      pure .appended

end Outbox

/-! ## A writer through its calls -/

/-- A directory and the process that writes to it. -/
structure Writer where
  work : Work := {}
  memory : Option CachedIndex := none

inductive WriterStep where
  /-- one call, and what the environment does to its durable steps -/
  | append (outbox : Outbox) (event : Envelope) (faults : List (Option Fault))
  /-- the process dies, or another outbox evicts the index -/
  | forget

/-- One call on a writer: what it answers and the machine it leaves. -/
def Writer.call (w : Writer) (outbox : Outbox) (event : Envelope) (faults : List (Option Fault)) :
    Except (Halt OutboxError) AppendOutcome × Machine Work (Option CachedIndex) :=
  (outbox.appendIdempotent serde sha256 event).run ⟨w.work, w.memory, faults, []⟩

/-- The recovery a call begins with, undisturbed. -/
def Writer.recover (w : Writer) : Except (Halt OutboxError) Unit × Machine Work (Option CachedIndex) :=
  (recoverRotation sha256).run ⟨w.work, w.memory, [], []⟩

def Writer.next (w : Writer) : WriterStep → Option Writer
  | .append outbox event faults =>
    let (_, machine) := w.call serde sha256 outbox event faults
    some ⟨machine.disk, machine.memory⟩
  | .forget => some { w with memory := none }

end Codec

end Orchestrail
