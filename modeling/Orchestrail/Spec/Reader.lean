import Orchestrail.Lib.Watch
import Orchestrail.Spec.Outbox

/-!
# The tail reader of the event journal

`events/reader.rs`: a consumer that follows the logical stream from a byte cursor and delivers every
committed event once. The stream is the one of an outbox directory; the file of another name, which
cannot rotate, is left out.

The reader runs beside the writer. Every file it opens is one look at the directory, with what it
reads through that handle, and the directory may change between two looks.
-/

namespace Orchestrail

open Records Text Outcome Watch

/-- The most one poll retains at once (`MAX_POLL_BYTES`). -/
def maxPollBytes : Nat := 1024 * 1024

def maxPollSnapshotAttempts : Nat := 8

def maxLayoutSnapshotAttempts : Nat := 8

def maxRecentIds : Nat := 512

def dedupeFilterBytes : Nat := 32 * 1024

/-! ## The membership filter -/

structure DedupeFilter where
  bits : List UInt8
  sized : bits.length = dedupeFilterBytes

namespace DedupeFilter

def empty : DedupeFilter := ⟨List.replicate dedupeFilterBytes 0, List.length_replicate⟩

def hexDigit (ch : Char) : Option UInt8 :=
  if '0' ≤ ch ∧ ch ≤ '9' then some (UInt8.ofNat (ch.toNat - '0'.toNat))
  else if 'a' ≤ ch ∧ ch ≤ 'f' then some (UInt8.ofNat (ch.toNat - 'a'.toNat + 10))
  else if 'A' ≤ ch ∧ ch ≤ 'F' then some (UInt8.ofNat (ch.toNat - 'A'.toNat + 10))
  else none

/-- The bytes that pairs of hexadecimal digits spell. -/
def hexBytes : List Char → Option (List UInt8)
  | [] => some []
  | [_] => none
  | high :: low :: rest => do
    let high ← hexDigit high
    let low ← hexDigit low
    let bytes ← hexBytes rest
    some (((high <<< 4) ||| low) :: bytes)

/-- A number from its bytes, the least first. -/
def fromLeBytes (bytes : List UInt8) : Nat := bytes.foldr (fun byte n => byte.toNat + 256 * n) 0

/-- The four places of an id, from the digest of it. -/
def places (sha256 : Bytes → String) (eventId : String) : List Nat :=
  let digest := (hexBytes (sha256 (utf8 eventId)).toList).getD []
  (List.range 4).map fun index =>
    fromLeBytes ((digest.drop (index * 8)).take 8) % (dedupeFilterBytes * 8)

def mark (bit : Nat) : UInt8 := 1 <<< UInt8.ofNat (bit % 8)

def setBit (bits : List UInt8) (bit : Nat) : List UInt8 := bits.modify (bit / 8) (· ||| mark bit)

theorem length_foldl_setBit (bits : List UInt8) (places : List Nat) :
    (places.foldl setBit bits).length = bits.length := by
  induction places generalizing bits with
  | nil => rfl
  | cons place places ih => rw [List.foldl_cons, ih, setBit, List.length_modify]

def insert (sha256 : Bytes → String) (filter : DedupeFilter) (eventId : String) : DedupeFilter :=
  ⟨(places sha256 eventId).foldl setBit filter.bits,
    (length_foldl_setBit _ _).trans filter.sized⟩

def maybeContains (sha256 : Bytes → String) (filter : DedupeFilter) (eventId : String) : Bool :=
  (places sha256 eventId).all fun bit => filter.bits.getD (bit / 8) 0 &&& mark bit != 0

def hexChar (n : Nat) : Char := Nat.digitChar n

def toHex (filter : DedupeFilter) : String :=
  String.ofList (filter.bits.flatMap fun byte : UInt8 =>
    [hexChar (byte >>> 4).toNat, hexChar (byte &&& 0x0f).toNat])

def fromHex (encoded : String) : Except String DedupeFilter :=
  if encoded.utf8ByteSize ≠ dedupeFilterBytes * 2 then
    .error "cursor dedupe_filter must contain exactly 65536 hexadecimal characters"
  else
    match hexBytes encoded.toList with
    | none => .error "cursor dedupe_filter is not hexadecimal"
    | some bits =>
      if sized : bits.length = dedupeFilterBytes then .ok ⟨bits, sized⟩
      else .error "cursor dedupe_filter is not hexadecimal"

end DedupeFilter

/-- The ids delivered last, oldest first. The set beside them in the source holds the same ids. -/
structure RecentIds where
  order : List String := []

namespace RecentIds

def contains (recent : RecentIds) (id : String) : Bool := recent.order.contains id

def insert (recent : RecentIds) (id : String) : RecentIds :=
  if recent.contains id then recent
  else
    let order := recent.order ++ [id]
    ⟨if maxRecentIds < order.length then order.drop 1 else order⟩

def fromIds (ids : List String) : RecentIds := ids.foldl insert {}

end RecentIds

/-! ## The cursor -/

/-- How far a consumer has read, and what it has delivered. -/
structure Cursor where
  byteOffset : Nat := 0
  deliveredIds : List String := []
  dedupeFilter : Option String := none

namespace Cursor

def toValue (cursor : Cursor) : Json :=
  .object <|
    [("byte_offset", .integer cursor.byteOffset)] ++
    (cursor.dedupeFilter.map fun filter => ("dedupe_filter", Json.text filter)).toList ++
    [("delivered_ids", .array
      ((cursor.deliveredIds.drop (cursor.deliveredIds.length - maxRecentIds)).map .text))]

def toJson (serde : Serde) (cursor : Cursor) : String := serde.render cursor.toValue

def textElements : List Json → Except String (List String)
  | [] => .ok []
  | .text s :: values => do
    .ok (s :: (← textElements values))
  | _ :: _ => .error "cursor \"delivered_ids\" contains a non-string element"

def readFilter : Option Json → Except String DedupeFilter
  | none => .ok .empty
  | some (.text encoded) => DedupeFilter.fromHex encoded
  | some _ => .error "cursor \"dedupe_filter\" is not a string"

def fromValue (sha256 : Bytes → String) : Json → Except String Cursor
  | .object obj => do
    let byteOffset ← match obj.lookup "byte_offset" with
      | none => .error "cursor is missing \"byte_offset\""
      | some (.integer n) =>
        if 0 ≤ n ∧ n ≤ u64Max then .ok n.toNat
        else .error "cursor \"byte_offset\" is not a non-negative integer"
      | some _ => .error "cursor \"byte_offset\" is not a non-negative integer"
    let deliveredIds ← match obj.lookup "delivered_ids" with
      | none => .error "cursor is missing \"delivered_ids\""
      | some (.array values) => textElements values
      | some _ => .error "cursor \"delivered_ids\" is not an array"
    let filter ← readFilter (obj.lookup "dedupe_filter")
    let filter := deliveredIds.foldl (DedupeFilter.insert sha256) filter
    .ok
      { byteOffset
        deliveredIds := deliveredIds.drop (deliveredIds.length - maxRecentIds)
        dedupeFilter := some filter.toHex }
  | _ => .error "cursor must be a JSON object"

def fromJson (serde : Serde) (sha256 : Bytes → String) (s : String) : Except String Cursor :=
  match serde.read s with
  | .error e => .error s!"cursor is unreadable: {e}"
  | .ok value => fromValue sha256 value

end Cursor

/-! ## The reader -/

structure PollStats where
  delivered : Nat := 0
  skippedInvalid : Nat := 0
  skippedDup : Nat := 0
  deriving DecidableEq

structure TailReader where
  offset : Nat := 0
  recent : RecentIds := {}
  dedupeFilter : DedupeFilter := .empty
  stats : PollStats := {}
  /-- whether the last poll saw a final record that is not closed -/
  unterminatedTail : Bool := false

/-- Everything one attempt would change. -/
structure PollBatch where
  events : List Envelope := []
  /-- the ids of the events; the set beside them in the source holds the same ids -/
  deliveredIds : List String := []
  stats : PollStats := {}
  consumed : Nat := 0
  unterminatedTail : Bool := false

/-- A layout with the generation of the index it was resolved from. -/
structure EventStreamSnapshot where
  layout : EventStreamLayout
  generation : Nat

abbrev Looks (α : Type) := Watch Work IoError α

def lookMetadata : Looks RotationMetadata := do
  give (loadRotationMetadata (← look))

section Polls

variable (serde : Serde) (sha256 : Bytes → String)

/-- The archive directory and then the active file, under an index already read. -/
def resolveLayout (metadata : RotationMetadata) : Looks EventStreamLayout := do
  let state ← give (rotationStateFrom (← look) metadata)
  give (layoutFromState sha256 (← look) state)

/-- Resolve the layout until the index stands still around it (`event_stream_snapshot`). -/
def eventStreamSnapshot : Nat → Looks EventStreamSnapshot
  | 0 => throw ⟨.other, "events rotation state kept changing while resolving the stream layout"⟩
  | attempts + 1 => do
    let metadata ← lookMetadata
    let resolved ← capture (resolveLayout sha256 metadata)
    if (← lookMetadata).generation ≠ metadata.generation then eventStreamSnapshot attempts
    else do
      let layout ← give resolved
      pure ⟨layout, metadata.generation⟩

def EventStreamSnapshot.isStillCurrent (snapshot : EventStreamSnapshot) : Looks Bool := do
  pure (decide ((← lookMetadata).generation = snapshot.generation))

def tooLong : IoError := ⟨.invalidData, "events.jsonl record exceeds 1048576 byte limit"⟩

/-- Whether one of the records of the next `remaining` bytes has the id. -/
def recordsContain (eventId : String) : Nat → Bytes → Nat → Io Bool
  | 0, _, _ => .ok false
  | fuel + 1, rest, remaining =>
    if remaining = 0 then .ok false
    else do
      let raw := readUntil newline (rest.take (min remaining (maxPollBytes + 2)))
      demand (raw ≠ []) ⟨.unexpectedEof, "events history ended before the replay boundary"⟩
      demand (raw.getLast? = some newline ∧ raw.length - 1 ≤ maxPollBytes) tooLong
      let found := match fromUtf8 raw.dropLast with
        | none => false
        | some text =>
          match parseLine serde (trimmed text) with
          | .ok event => decide (event.eventId = eventId)
          | .error _ => false
      if found then .ok true
      else recordsContain eventId fuel (rest.drop raw.length) (remaining - raw.length)

/-- Whether a record in front of `committedEnd` has the id (`history_contains_event_id`). -/
def historyContains (committedEnd : Nat) (eventId : String) :
    List EventStreamSource → Looks Bool
  | [] => pure false
  | source :: sources =>
    if source.startOffset < committedEnd then do
      let byteLen := min source.endOffset committedEnd - source.startOffset
      let file ← give (openExisting (← look) source.path)
      if ← give (recordsContain serde eventId byteLen (file.drop source.physicalStart) byteLen) then
        pure true
      else historyContains committedEnd eventId sources
    else pure false

namespace TailReader

variable (reader : TailReader)

/-- Whether the id was delivered before, in this attempt or in an earlier poll. -/
def isDuplicate (layout : EventStreamLayout) (lineStart : Nat) (batch : PollBatch)
    (eventId : String) : Looks Bool :=
  if reader.recent.contains eventId || batch.deliveredIds.contains eventId then pure true
  else if reader.dedupeFilter.maybeContains sha256 eventId then
    historyContains serde lineStart eventId layout.sources
  else pure false

/-- What one complete line adds to the batch (`classify_line`). -/
def classifyLine (raw : Bytes) (lineStart : Nat) (layout : EventStreamLayout) (batch : PollBatch) :
    Looks PollBatch :=
  let invalid : PollBatch :=
    { batch with stats := { batch.stats with skippedInvalid := batch.stats.skippedInvalid + 1 } }
  match fromUtf8 raw with
  | none => pure invalid
  | some text =>
    if trimmed text = "" then pure batch
    else
      match parseLine serde (trimmed text) with
      | .error _ => pure invalid
      | .ok event => do
        if ← reader.isDuplicate serde sha256 layout lineStart batch event.eventId then
          pure { batch with stats := { batch.stats with skippedDup := batch.stats.skippedDup + 1 } }
        else
          pure
            { batch with
              events := batch.events ++ [event]
              deliveredIds := batch.deliveredIds ++ [event.eventId]
              stats := { batch.stats with delivered := batch.stats.delivered + 1 } }

/-- The complete lines of the buffer in their order, from the logical offset of the first. -/
def classifyLines (layout : EventStreamLayout) : List Bytes → Nat → PollBatch → Looks PollBatch
  | [], _, batch => pure batch
  | raw :: lines, lineStart, batch => do
    classifyLines layout lines (lineStart + raw.length + 1)
      (← reader.classifyLine serde sha256 raw lineStart layout batch)

/-- The change one read would make (`interpret`). The lines end at the newlines of the buffer, and
what is behind the last of them is not consumed. -/
def interpret (buf : Bytes) (source : EventStreamSource) (unread readLen : Nat)
    (layout : EventStreamLayout) : Looks PollBatch := do
  let (lines, tail) := cut newline buf
  let consumed := buf.length - tail.length
  let batch ← reader.classifyLines serde sha256 layout lines reader.offset {}
  let batch := { batch with
    unterminatedTail := !source.archived && decide (consumed < buf.length ∧ readLen = unread) }
  give (demand (¬ (consumed = 0 ∧ readLen = maxPollBytes ∧ readLen < unread)) tooLong)
  give (demand (¬ (source.archived = true ∧ consumed < buf.length ∧ readLen = unread))
    ⟨.invalidData, "archived events segment has an unterminated record"⟩)
  pure { batch with consumed := consumed }

/-- One consistent read; nothing, when a rotation was seen in between. -/
def pollAttempt : Looks (Option PollBatch) := do
  let snapshot ← eventStreamSnapshot sha256 maxLayoutSnapshotAttempts
  let layout := snapshot.layout
  if layout.logicalLen ≤ reader.offset then pure (some {})
  else
    match layout.sources.find? fun source =>
        source.startOffset ≤ reader.offset ∧ reader.offset < source.endOffset with
    | none =>
      throw ⟨.invalidData, "events cursor does not resolve to an archive or active segment"⟩
    | some source => do
      let unread := source.endOffset - reader.offset
      let readLen := min unread maxPollBytes
      let file ← give (openExisting (← look) source.path)
      let physicalOffset ← give (checkedAdd source.physicalStart (reader.offset - source.startOffset)
        "event source offset overflowed")
      if file.length < physicalOffset + readLen then pure none
      else do
        let buf := (file.drop physicalOffset).take readLen
        let interpreted ← capture (reader.interpret serde sha256 buf source unread readLen layout)
        if ← snapshot.isStillCurrent then do
          let batch ← give interpreted
          pure (some batch)
        else pure none

def attempt : Nat → Looks PollBatch
  | 0 => throw ⟨.other, "events stream was rotated during every attempted poll snapshot"⟩
  | attempts + 1 => do
    match ← reader.pollAttempt serde sha256 with
    | some batch => pure batch
    | none => attempt attempts

/-- Apply a verified attempt. -/
def commit (batch : PollBatch) : TailReader where
  offset := reader.offset + batch.consumed
  recent := batch.deliveredIds.foldl RecentIds.insert reader.recent
  dedupeFilter := batch.deliveredIds.foldl (DedupeFilter.insert sha256) reader.dedupeFilter
  stats :=
    { delivered := reader.stats.delivered + batch.stats.delivered
      skippedInvalid := reader.stats.skippedInvalid + batch.stats.skippedInvalid
      skippedDup := reader.stats.skippedDup + batch.stats.skippedDup }
  unterminatedTail := batch.unterminatedTail

/-- What was appended since the last poll: the answer, and the reader behind it. -/
def poll : Looks (Io (List Envelope) × TailReader) := do
  let reader := { reader with unterminatedTail := false }
  match ← capture (reader.attempt serde sha256 maxPollSnapshotAttempts) with
  | .ok batch => pure (.ok batch.events, reader.commit sha256 batch)
  | .error error => pure (.error error, reader)

/-- Poll until nothing is left (`poll_all`), from the events polled so far; no answer yet, when
`fuel` polls were not enough. -/
def pollAll : Nat → TailReader → List Envelope → Looks (Option (Io (List Envelope) × TailReader))
  | 0, _, _ => pure none
  | fuel + 1, reader, events => do
    match ← reader.poll serde sha256 with
    | (.error error, reader) => pure (some (.error error, reader))
    | (.ok batch, next) =>
      if next.offset = reader.offset then pure (some (.ok (events ++ batch), next))
      else pollAll fuel next (events ++ batch)

/-- The cursor of all progress so far. -/
def cursor : Cursor where
  byteOffset := reader.offset
  deliveredIds := reader.recent.order
  dedupeFilter := some reader.dedupeFilter.toHex

/-- Resume from a cursor. -/
def withCursor (cursor : Cursor) : TailReader where
  offset := cursor.byteOffset
  recent := .fromIds cursor.deliveredIds
  dedupeFilter :=
    let saved := match cursor.dedupeFilter.map DedupeFilter.fromHex with
      | some (.ok filter) => filter
      | _ => .empty
    cursor.deliveredIds.foldl (DedupeFilter.insert sha256) saved

end TailReader

/-! ## A consumer -/

/-- A process that follows the stream: its reader, what it was given so far, and the looks taken. -/
structure Consumer where
  reader : TailReader := {}
  delivered : List Envelope := []
  look : Nat := 0

inductive ConsumerAction where
  | poll
  /-- at most so many polls; a call that is not over then is not one of this world -/
  | pollAll (fuel : Nat)
  /-- save the cursor, and resume from it -/
  | restart

namespace Consumer

variable (sight : Nat → Work)

def next (w : Consumer) : ConsumerAction → Option Consumer
  | .poll =>
    match w.reader.poll serde sha256 sight w.look with
    | (.ok (.ok events, reader), look) => some ⟨reader, w.delivered ++ events, look⟩
    | (.ok (.error _, reader), look) => some ⟨reader, w.delivered, look⟩
    | (.error _, _) => none
  | .pollAll fuel =>
    match TailReader.pollAll serde sha256 fuel w.reader [] sight w.look with
    | (.ok (some (.ok events, reader)), look) => some ⟨reader, w.delivered ++ events, look⟩
    | (.ok (some (.error _, reader)), look) => some ⟨reader, w.delivered, look⟩
    | (.ok none, _) | (.error _, _) => none
  | .restart =>
    match Cursor.fromJson serde sha256 (w.reader.cursor.toJson serde) with
    | .ok cursor => some ⟨.withCursor sha256 cursor, w.delivered, w.look⟩
    | .error _ => none

end Consumer

end Polls

end Orchestrail
