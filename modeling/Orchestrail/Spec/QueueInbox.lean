import Orchestrail.Spec.Lease

/-!
# Draining the queue inbox

The commit of `queue_inbox.rs`: producers leave records in `.work/queue_inbox`, `drain` appends the
accepted ones to the queue and raises its generation, and `recover_pending_transaction` finishes or
drops what an interrupted drain has begun. Every durable call is a step of its own, between which
the process may die and producers may add records.

What a drain makes of one record is a parameter (`Classifier`): the checks of a title, a body and
its predecessors against everything read before, with the block they render. Names are those of
JSON files that stand directly in the inbox.
-/

namespace Orchestrail

open Text Outcome

abbrev InboxRecord := String × Bytes

inductive QueueInboxError where
  | io (error : IoError)
  | invalid (message : String)
  deriving DecidableEq

structure DrainResult where
  addedTasks : List String := []
  addedProposals : List String := []
  skippedDuplicates : List String := []
  quarantined : List String := []
  deriving DecidableEq

/-- What becomes of a record. -/
inductive Verdict where
  | task (id block : String)
  | proposal (id block : String)
  | duplicate
  | rejected (reason : String)
  deriving DecidableEq

def Verdict.block : Verdict → Option String
  | .task _ block | .proposal _ block => some block
  | .duplicate | .rejected _ => none

def Verdict.isRejected : Verdict → Bool
  | .rejected _ => true
  | _ => false

/-- How a drain judges: what it knows from the queue at the start, and one record after another. -/
structure Classifier where
  Known : Type
  start : String → Except QueueInboxError Known
  judge : Known → String → Verdict × Known

abbrev Judged := InboxRecord × Verdict

def maxRecordBytes : Nat := 524288

def maxTransactionBytes : Nat := 4194304

def maxRecordsPerDrain : Nat := 4096

def maxControlBytes : Nat := 64 * 1024 * 1024

structure DrainTransaction where
  queueBeforeHash : String
  queueAfterHash : String
  queueStateBeforeHash : Option String
  queueStateAfter : String
  consumed : List (String × String)
  deriving DecidableEq

namespace DrainTransaction

def toJson (tx : DrainTransaction) : Json :=
  .object
    [("queue_before_hash", .text tx.queueBeforeHash), ("queue_after_hash", .text tx.queueAfterHash),
      ("queue_state_before_hash", LeaseRecord.optionalText tx.queueStateBeforeHash),
      ("queue_state_after", .text tx.queueStateAfter),
      ("consumed", .object (tx.consumed.map fun source => (source.1, .text source.2)))]

def source : String × Json → Except String (String × String)
  | (name, .text hash) => .ok (name, hash)
  | (name, _) => .error s!"invalid type: {name}, expected a string"

def fromJson : Json → Except String DrainTransaction
  | .object obj => do
    let queueBeforeHash ← LeaseRecord.textField obj "queue_before_hash"
    let queueAfterHash ← LeaseRecord.textField obj "queue_after_hash"
    let queueStateBeforeHash ← LeaseRecord.optionalField obj "queue_state_before_hash"
    let queueStateAfter ← LeaseRecord.textField obj "queue_state_after"
    match obj.lookup "consumed" with
    | some (.object sources) =>
      let consumed ← sources.mapM source
      .ok { queueBeforeHash, queueAfterHash, queueStateBeforeHash, queueStateAfter, consumed }
    | some _ => .error "invalid type: consumed, expected a map"
    | none => .error "missing field consumed"
  | _ => .error "invalid type, expected struct DrainTransaction"

end DrainTransaction

/-- `is_plain_inbox_name`; a name that is its own last path component. -/
def isPlainInboxName (name : String) : Bool :=
  !name.isEmpty && name ≠ "." && name ≠ ".." &&
    !(contains name '/' || contains name '\\' || contains name ':' || contains name '\x00')

section Drain

variable (serde : Serde) (sha256 : Bytes → String)

/-- The text of a file within a bound. -/
def readText (max : Nat) (bytes : Bytes) : Except QueueInboxError String :=
  if max < bytes.length then
    .error (.io ⟨.invalidData, "control-plane artifact exceeds its bound"⟩)
  else
    match fromUtf8 bytes with
    | some text => .ok text
    | none => .error (.io ⟨.invalidData, "control-plane artifact is not UTF-8"⟩)

def generationField (text : String) : Except String Nat := do
  match ← serde.read text with
  | .object obj => LeaseRecord.numberField u64Max obj "generation"
  | _ => .error "invalid type, expected an object"

/-- The generation of the queue state; a missing file is generation zero. -/
def readGeneration (state : Option Bytes) : Except QueueInboxError Nat :=
  match state with
  | none => .ok 0
  | some bytes => do
    let text ← readText maxControlBytes bytes
    match generationField serde text with
    | .ok generation => .ok generation
    | .error e => .error (.invalid ("queue generation state is unreadable: " ++ e))

def generationPayload (generation : Nat) : String :=
  serde.render (.object [("generation", .integer generation)]) ++ "\n"

def nextQueueGenerationUpdate (state : Option Bytes) (delta : Nat) :
    Except QueueInboxError String := do
  let generation ← readGeneration serde state
  demand (generation + delta ≤ u64Max) (.invalid "queue generation would overflow u64")
  .ok (generationPayload serde (generation + delta))

def validateTransaction (tx : DrainTransaction) : Except QueueInboxError Unit :=
  demand (isSha256Hex tx.queueBeforeHash ∧ isSha256Hex tx.queueAfterHash ∧
      (∀ hash ∈ tx.queueStateBeforeHash, isSha256Hex hash) ∧
      (utf8 tx.queueStateAfter).length ≤ 4096 ∧
      (generationField serde tx.queueStateAfter).toOption.isSome ∧
      ∀ source ∈ tx.consumed, isPlainInboxName source.1 ∧ isSha256Hex source.2)
    (.invalid "queue inbox transaction marker has invalid fields")

/-- The transaction of a marker, read and validated. -/
def readMarker (bytes : Bytes) : Except QueueInboxError DrainTransaction := do
  demand (bytes.length ≤ maxTransactionBytes)
    (.invalid "queue inbox transaction marker exceeds the 4194304-byte limit")
  let text ← readText maxTransactionBytes bytes
  match serde.read text >>= DrainTransaction.fromJson with
  | .error e => .error (.invalid ("queue inbox transaction marker is invalid JSON: " ++ e))
  | .ok tx => do
    validateTransaction serde tx
    .ok tx

def markerPayload (tx : DrainTransaction) : Bytes := utf8 (serde.render tx.toJson)

/-! ## What a drain intends -/

def readRecord (c : Classifier) (known : c.Known) (bytes : Bytes) : Verdict × c.Known :=
  if maxRecordBytes < bytes.length then
    (.rejected "control-plane artifact exceeds its bound", known)
  else
    match fromUtf8 bytes with
    | some text => c.judge known text
    | none => (.rejected "queue inbox record is not UTF-8", known)

def classify (c : Classifier) : c.Known → List InboxRecord → List Judged
  | _, [] => []
  | known, record :: records =>
    let (verdict, known) := readRecord c known record.2
    (record, verdict) :: classify c known records

def blocksOf (judged : List Judged) : List String := judged.filterMap (·.2.block)

/-- The records that are inserted, or skipped as duplicates. -/
def consumeOf (judged : List Judged) : List Judged := judged.filter fun j => !j.2.isRejected

def quarantineOf (judged : List Judged) : List Judged := judged.filter (·.2.isRejected)

def resultOf (judged : List Judged) : DrainResult where
  addedTasks := judged.filterMap fun j => match j.2 with | .task id _ => some id | _ => none
  addedProposals := judged.filterMap fun j => match j.2 with | .proposal id _ => some id | _ => none
  skippedDuplicates :=
    judged.filterMap fun j => match j.2 with | .duplicate => some j.1.1 | _ => none
  quarantined := (quarantineOf judged).map (·.1.1)

def endsWith (text : String) (tail : List Char) : Bool := tail.isSuffixOf text.toList

def appendBlock (output block : String) : String :=
  let separated :=
    if output ≠ "" ∧ endsWith output ['\n', '\n'] = false then output ++ "\n" else output
  separated ++ block ++ "\n"

def appendBlocks (original : String) (blocks : List String) : String :=
  let output := if original = "" then "# Очередь задач\n\n" else original
  let output := if endsWith output ['\n'] then output else output ++ "\n"
  blocks.foldl appendBlock output

/-- The sources to remove, with the digest each was read under. -/
def sourcesOf (judged : List Judged) : List (String × String) :=
  (consumeOf judged).map fun j => (j.1.1, sha256 j.1.2)

/-- A drain that has looked at everything. -/
structure Planned where
  judged : List Judged
  /-- none: no block is to be added -/
  commit : Option (DrainTransaction × String)

/-! ## Steps -/

inductive DrainPoint where
  | idle
  | recovering
  /-- the queue is as it was: the intent is dropped -/
  | dropping
  /-- the queue is committed, its generation is not -/
  | restating (tx : DrainTransaction)
  /-- the sources that are left; then the quarantine of a fresh drain, or the listing -/
  | consuming (rest : List (String × String)) (fresh : Option (List Judged))
  | unmarking (fresh : Option (List Judged))
  | listing
  | marking (tx : DrainTransaction) (updated : String) (judged : List Judged)
  | writing (tx : DrainTransaction) (updated : String) (judged : List Judged)
  | queueing (tx : DrainTransaction) (updated : String) (judged : List Judged)
  | stating (tx : DrainTransaction) (judged : List Judged)
  /-- duplicates only: removed one by one, without a transaction -/
  | skipping (rest : List Judged) (judged : List Judged)
  | quarantining (rest : List Judged) (judged : List Judged)

/-- The files, with what is noted of their past. -/
structure Inbox where
  queue : Option Bytes
  state : Option Bytes
  marker : Option Bytes
  records : List InboxRecord
  rejected : List InboxRecord
  /-- ghost: every record that was ever there -/
  arrived : List InboxRecord
  /-- ghost: what was committed, skipped or quarantined, in this order -/
  log : List Judged
  /-- ghost: the blocks of every commit -/
  batches : List (List String)
  /-- ghost: the sources of a committed transaction -/
  pending : List String

structure InboxWorld extends Inbox where
  point : DrainPoint

inductive InboxAction where
  | arrive (record : InboxRecord)
  | begin
  | go
  /-- a call fails and the drain returns its error -/
  | fail
  | crash
  /-- a crash after some bytes of the marker -/
  | tear (count : Nat)

abbrev DrainReport := Except QueueInboxError DrainResult

variable (c : Classifier)

namespace Inbox

def original (w : Inbox) : Except QueueInboxError String :=
  match w.queue with
  | none => .ok ""
  | some bytes => readText maxControlBytes bytes

/-- The listing, in filename order. -/
def entries (w : Inbox) : List InboxRecord :=
  w.records.mergeSort fun a b => decide (a.1 ≤ b.1)

/-- Everything a drain reads and computes before it writes. -/
def plan (w : Inbox) : Except QueueInboxError Planned := do
  demand (w.records.length ≤ maxRecordsPerDrain)
    (.invalid "queue inbox exceeds the 4096-record drain limit")
  if w.entries = [] then .ok ⟨[], none⟩
  else do
    let original ← w.original
    let known ← c.start original
    let judged := classify c known w.entries
    let blocks := blocksOf judged
    if blocks = [] then .ok ⟨judged, none⟩
    else do
      let stateAfter ← nextQueueGenerationUpdate serde w.state blocks.length
      let updated := appendBlocks original blocks
      let tx : DrainTransaction :=
        { queueBeforeHash := sha256 (utf8 original)
          queueAfterHash := sha256 (utf8 updated)
          queueStateBeforeHash := w.state.map sha256
          queueStateAfter := stateAfter
          consumed := sourcesOf sha256 judged }
      demand ((markerPayload serde tx).length ≤ maxTransactionBytes)
        (.invalid "native queue inbox transaction exceeds the 4194304-byte limit")
      .ok ⟨judged, some (tx, updated)⟩

end Inbox

namespace InboxWorld

def goTo (w : InboxWorld) (point : DrainPoint) : Option (InboxWorld × Option DrainReport) :=
  some ({ w with point }, none)

def finish (w : InboxWorld) (report : DrainReport) : Option (InboxWorld × Option DrainReport) :=
  some ({ w with point := .idle }, some report)

/-- A drain's error. -/
def give (w : InboxWorld) (message : String) : Option (InboxWorld × Option DrainReport) :=
  w.finish (.error (.invalid message))

def without (w : InboxWorld) (name : String) : InboxWorld :=
  { w with records := w.records.filter (·.1 ≠ name) }

/-- `recover_pending_transaction`, up to its first write. -/
def recover (w : InboxWorld) : Option (InboxWorld × Option DrainReport) :=
  match w.marker with
  | none => w.goTo .listing
  | some bytes =>
    match readMarker serde bytes with
    | .error e => w.finish (.error e)
    | .ok tx =>
      let queueHash := sha256 (w.queue.getD [])
      let stateHash := w.state.map sha256
      if queueHash = tx.queueBeforeHash then
        if stateHash ≠ tx.queueStateBeforeHash then
          w.give "queue generation changed while a native inbox transaction was pending"
        else w.goTo .dropping
      else if queueHash ≠ tx.queueAfterHash then
        w.give "queue changed outside a pending native inbox transaction; refusing recovery"
      else if stateHash = some (sha256 (utf8 tx.queueStateAfter)) then
        w.goTo (.consuming tx.consumed none)
      else if stateHash = tx.queueStateBeforeHash then w.goTo (.restating tx)
      else
        w.give
          "queue generation changed outside a pending native inbox transaction; refusing recovery"

/-- Remove a source, if it still is what was read. -/
def removeSource (w : InboxWorld) (name hash changed : String)
    (absent onward : Option (InboxWorld × Option DrainReport)) :
    Option (InboxWorld × Option DrainReport) :=
  match w.records.lookup name with
  | none => absent
  | some bytes =>
    match readText maxRecordBytes bytes with
    | .error e => w.finish (.error e)
    | .ok _ =>
      if sha256 bytes ≠ hash then
        w.give (changed ++ name)
      else onward

/-- The next source of `consume_transaction_sources`. -/
def consume (w : InboxWorld) (name hash : String) (rest : List (String × String))
    (fresh : Option (List Judged)) : Option (InboxWorld × Option DrainReport) :=
  if isPlainInboxName name = false then
    w.give "queue inbox transaction has an unsafe source filename"
  else
    w.removeSource sha256 name hash "queue inbox transaction source changed before consumption: "
      (w.goTo (.consuming rest fresh))
      ((w.without name).goTo (.consuming rest fresh))

def missing (w : InboxWorld) : Option (InboxWorld × Option DrainReport) :=
  w.finish (.error (.io ⟨.notFound, "queue inbox record is missing"⟩))

def afterListing (w : InboxWorld) (plan : Planned) : Option (InboxWorld × Option DrainReport) :=
  match plan.commit with
  | some (tx, updated) => w.goTo (.marking tx updated plan.judged)
  | none => w.goTo (.skipping (consumeOf plan.judged) plan.judged)

def proceed (w : InboxWorld) : Option (InboxWorld × Option DrainReport) :=
  match w.point with
  | .idle => none
  | .recovering => w.recover serde sha256
  | .dropping => { w with marker := none }.goTo .listing
  | .restating tx =>
    { w with state := some (utf8 tx.queueStateAfter) }.goTo (.consuming tx.consumed none)
  | .consuming [] fresh => w.goTo (.unmarking fresh)
  | .consuming ((name, hash) :: rest) fresh => w.consume sha256 name hash rest fresh
  | .unmarking fresh =>
    match fresh with
    | none => { w with marker := none, pending := [] }.goTo .listing
    | some judged =>
      { w with marker := none, pending := [] }.goTo (.quarantining (quarantineOf judged) judged)
  | .listing =>
    match w.plan serde sha256 c with
    | .error e => w.finish (.error e)
    | .ok plan => w.afterListing plan
  | .marking tx updated judged =>
    match w.marker with
    | some _ => w.give "native queue inbox transaction is already pending; recovery was skipped"
    | none => { w with marker := some [] }.goTo (.writing tx updated judged)
  | .writing tx updated judged =>
    { w with marker := some (markerPayload serde tx) }.goTo (.queueing tx updated judged)
  | .queueing tx updated judged =>
    if maxControlBytes < (utf8 updated).length then
      w.finish (.error (.io ⟨.invalidInput, "control-plane artifact exceeds its bound"⟩))
    else
      { w with
        queue := some (utf8 updated)
        log := w.log ++ consumeOf judged
        batches := w.batches ++ [blocksOf judged]
        pending := tx.consumed.map Prod.fst }.goTo (.stating tx judged)
  | .stating tx judged =>
    { w with state := some (utf8 tx.queueStateAfter) }.goTo (.consuming tx.consumed (some judged))
  | .skipping [] judged => w.goTo (.quarantining (quarantineOf judged) judged)
  | .skipping (((name, bytes), verdict) :: rest) judged =>
    w.removeSource sha256 name (sha256 bytes) "queue inbox source changed before consumption: "
      w.missing
      ({ w.without name with log := w.log ++ [((name, bytes), verdict)] }.goTo
        (.skipping rest judged))
  | .quarantining [] judged => w.finish (.ok (resultOf judged))
  | .quarantining (((name, bytes), verdict) :: rest) judged =>
    match w.records.lookup name with
    | none => w.missing
    | some _ =>
      { w.without name with
        rejected := w.rejected ++ [(name, bytes)]
        log := w.log ++ [((name, bytes), verdict)] }.goTo (.quarantining rest judged)

/-- An error of the file system; a marker that was only begun is taken back. -/
def failing (w : InboxWorld) : Option (InboxWorld × Option DrainReport) :=
  let error : DrainReport := .error (.io ⟨.other, "queue inbox I/O error"⟩)
  match w.point with
  | .idle => none
  | .writing _ _ _ => { w with marker := none }.finish error
  | _ => w.finish error

def step (w : InboxWorld) : InboxAction → Option (InboxWorld × Option DrainReport)
  | .arrive record =>
    if w.records.any (fun old => old.1 = record.1) then none
    else
      some ({ w with records := w.records ++ [record], arrived := w.arrived ++ [record] }, none)
  | .begin => match w.point with | .idle => w.goTo .recovering | _ => none
  | .go => w.proceed serde sha256 c
  | .fail => w.failing
  | .crash => some ({ w with point := .idle }, none)
  | .tear count =>
    match w.point with
    | .writing tx _ _ =>
      some ({ w with point := .idle, marker := some ((markerPayload serde tx).take count) }, none)
    | _ => none

def next (w : InboxWorld) (a : InboxAction) : Option InboxWorld :=
  (w.step serde sha256 c a).map Prod.fst

end InboxWorld

end Drain

end Orchestrail
