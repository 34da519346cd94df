import Orchestrail.Spec.Rotation
import Orchestrail.Spec.Time

/-!
# The owner lease

`LeaseStore` of `ownership.rs`: the record of one owner in `.work/orchestrator.lock/lease.json`,
with the calls that create, adopt, renew and remove it. Every mutating call runs under the
transaction lock, so that a call is one step here.

Paths are those of a Unix host, and `.work` itself is a plain directory.
-/

namespace Orchestrail

open Text Outcome

structure LeaseRecord where
  schema : String
  role : String
  ownerId : String
  sessionId : String
  root : String
  host : String
  pid : Nat
  pidStarted : Option String
  acquired : String
  heartbeat : String
  ttlSeconds : Nat
  generation : Nat
  takenOverFrom : Option String
  deriving DecidableEq

structure LeaseLiveness where
  live : Bool
  heartbeatAgeSecs : Nat
  basis : String
  deriving DecidableEq

inductive LeaseStatus where
  | vacant
  | live (record : LeaseRecord) (liveness : LeaseLiveness)
  | stale (record : LeaseRecord) (liveness : LeaseLiveness)
  | legacyLock (detail : String)
  | corrupt (detail : String)
  deriving DecidableEq

inductive LeaseError where
  | io (error : IoError)
  | invalidInput (message : String)
  | heldLive (owner role : String)
  | stale (owner : String)
  | notOwner (owner : String)
  | addressMismatch (expectedRole actualRole expectedRoot actualRoot : String)
  | legacyLock (detail : String)
  | corrupt (detail : String)
  deriving DecidableEq

abbrev Leased (α : Type) := Except LeaseError α

def engineRole : String := "engine"

def leaseSchema : String := "orchestra/lease@1"

def stagingFile : String := "lease.json.tmp"

def maxLeaseBytes : Nat := 64 * 1024

/-! ## The record as a document -/

namespace LeaseRecord

def optionalText : Option String → Json
  | none => .null
  | some s => .text s

def toJson (record : LeaseRecord) : Json :=
  .object
    [("schema", .text record.schema), ("role", .text record.role),
      ("owner_id", .text record.ownerId), ("session_id", .text record.sessionId),
      ("root", .text record.root), ("host", .text record.host), ("pid", .integer record.pid),
      ("pid_started", optionalText record.pidStarted), ("acquired", .text record.acquired),
      ("heartbeat", .text record.heartbeat), ("ttl_seconds", .integer record.ttlSeconds),
      ("generation", .integer record.generation),
      ("taken_over_from", optionalText record.takenOverFrom)]

def textField (obj : List (String × Json)) (field : String) : Except String String :=
  match obj.lookup field with
  | some (.text s) => .ok s
  | some _ => .error s!"invalid type: {field}, expected a string"
  | none => .error s!"missing field {field}"

def optionalField (obj : List (String × Json)) (field : String) : Except String (Option String) :=
  match obj.lookup field with
  | some (.text s) => .ok (some s)
  | some .null | none => .ok none
  | some _ => .error s!"invalid type: {field}, expected a string"

/-- An unsigned number up to `max`. -/
def numberField (max : Nat) (obj : List (String × Json)) (field : String) : Except String Nat :=
  match obj.lookup field with
  | some (.integer n) =>
    if 0 ≤ n ∧ n ≤ max then .ok n.toNat else .error s!"invalid value: {field}"
  | some _ => .error s!"invalid type: {field}, expected an integer"
  | none => .error s!"missing field {field}"

def fromJson : Json → Except String LeaseRecord
  | .object obj => do
    let schema ← textField obj "schema"
    let role ← textField obj "role"
    let ownerId ← textField obj "owner_id"
    let sessionId ← textField obj "session_id"
    let root ← textField obj "root"
    let host ← textField obj "host"
    let pid ← numberField u32Max obj "pid"
    let pidStarted ← optionalField obj "pid_started"
    let acquired ← textField obj "acquired"
    let heartbeat ← textField obj "heartbeat"
    let ttlSeconds ← numberField u64Max obj "ttl_seconds"
    let generation ← numberField u64Max obj "generation"
    let takenOverFrom ← optionalField obj "taken_over_from"
    .ok
      { schema, role, ownerId, sessionId, root, host, pid, pidStarted, acquired, heartbeat
        ttlSeconds, generation, takenOverFrom }
  | _ => .error "invalid type, expected struct LeaseRecord"

end LeaseRecord

def validateOwner (owner : String) : Leased Unit :=
  demand (¬ (isBlank owner = true ∨ Text.contains owner '\x00' = true ∨
      Text.contains owner '\n' = true ∨ Text.contains owner '\r' = true))
    (.invalidInput ("invalid lease owner " ++ quoted owner))

def validateRecord (record : LeaseRecord) : Except String Unit := do
  demand (record.schema = leaseSchema) ("unsupported lease schema " ++ quoted record.schema)
  demand (¬ (isBlank record.role = true ∨ isBlank record.ownerId = true ∨
      isBlank record.root = true ∨ isBlank record.host = true ∨ record.ttlSeconds = 0 ∨
      record.generation = 0))
    "lease record has a required empty/zero field"
  demand (¬ (isoToEpoch record.heartbeat = none ∨ isoToEpoch record.acquired = none))
    "lease record has an invalid UTC timestamp"

/-! ## The lock directory -/

/-- The entry of the lease file. -/
inductive LeaseFile where
  | plain (bytes : Bytes)
  | notPlain

/-- What stands at `orchestrator.lock`. -/
inductive LockEntry where
  | absent
  /-- a file, or a redirect -/
  | notPlain
  | directory (lease : Option LeaseFile) (others : List String)

/-- The temporary name of a replacement of the lease (`is_replace_temp_for`). -/
def isReplaceTemp (name : String) : Bool :=
  match stripFront ".lease.json.".toList name.toList with
  | none => false
  | some rest =>
    match stripFront ".tmp".toList.reverse rest.reverse with
    | none => false
    | some coordinates =>
      match pieces (· = '.') coordinates.reverse with
      | [pid, sequence] =>
        !pid.isEmpty && pid.all isAsciiDigit && !sequence.isEmpty && sequence.all isAsciiDigit
      | _ => false

/-- The process environment a call reads. -/
structure Host where
  cwd : String
  absolute : startsWith cwd '/' = true
  computername : Option String
  hostname : Option String

/-- `host_name`. -/
def hostName (host : Host) : String := (host.computername.or host.hostname).getD "unknown-host"

def absoluteRoot (host : Host) (root : String) : String :=
  if startsWith root '/' then root
  else if host.cwd.toList.getLast? = some '/' then host.cwd ++ root
  else host.cwd ++ "/" ++ root

/-- The segments of a path made absolute, with `.` and `..` resolved by their names alone. -/
def lexicalAbsolutePath (host : Host) (path : String) : List (List Char) :=
  (pieces (· = '/') (absoluteRoot host path).toList).foldl
    (fun normalized segment =>
      if segment = [] ∨ segment = ['.'] then normalized
      else if segment = ['.', '.'] then normalized.dropLast
      else normalized ++ [segment])
    []

def rootsEquivalent (host : Host) (left right : String) : Bool :=
  lexicalAbsolutePath host left = lexicalAbsolutePath host right

def showPath (segments : List (List Char)) : String :=
  "/" ++ "/".intercalate (segments.map String.ofList)

namespace LeaseStore

section Store

variable (serde : Serde)

/-- What a record says at a moment. -/
def judge (record : LeaseRecord) (nowSecs : Nat) : Leased LeaseStatus :=
  match isoToEpoch record.heartbeat with
  | none =>
    .error (.invalidInput ("validated heartbeat no longer parses: " ++ quoted record.heartbeat))
  | some heartbeat =>
    let age := nowSecs - heartbeat
    let live := decide (nowSecs < heartbeat ∨ age < record.ttlSeconds)
    let liveness : LeaseLiveness := ⟨live, age, "heartbeat"⟩
    .ok (if live then .live record liveness else .stale record liveness)

/-- The status of a lease document. -/
def readDocument (bytes : Bytes) (nowSecs : Nat) : Leased LeaseStatus :=
  if maxLeaseBytes < bytes.length then
    .error (.io ⟨.invalidData, "control-plane artifact exceeds 65536 bytes"⟩)
  else
    match fromUtf8 bytes with
    | none => .error (.io ⟨.invalidData, "control-plane artifact is not UTF-8"⟩)
    | some raw =>
      match serde.read raw >>= LeaseRecord.fromJson with
      | .error e => .ok (.corrupt ("cannot parse orchestrator.lock/lease.json: " ++ e))
      | .ok record =>
        match validateRecord record with
        | .error detail => .ok (.corrupt detail)
        | .ok () => judge record nowSecs

def readStatus (lock : LockEntry) (nowSecs : Nat) : Leased LeaseStatus :=
  match lock with
  | .absent => .ok .vacant
  | .notPlain => .ok (.legacyLock "lease path orchestrator.lock is not a plain directory")
  | .directory none others =>
    let entries := others.filter fun name => !(name = stagingFile || isReplaceTemp name)
    if entries = [] then .ok .vacant
    else
      .ok (.legacyLock ("lock directory contains non-lease entries without lease.json: " ++
        ", ".intercalate entries))
  | .directory (some .notPlain) _ =>
    .error (.io ⟨.invalidData, "control-plane artifact is not a plain file"⟩)
  | .directory (some (.plain bytes)) _ => readDocument serde bytes nowSecs

/-- The entries beside the lease. -/
def others : LockEntry → List String
  | .directory _ names => names
  | _ => []

/-- The document of a record. -/
def document (record : LeaseRecord) : Bytes := utf8 (serde.render record.toJson ++ "\n")

/-- Replace the lease document. -/
def writeRecord (lock : LockEntry) (record : LeaseRecord) : Leased LockEntry :=
  if maxLeaseBytes < (document serde record).length then
    .error (.io ⟨.invalidInput, "control-plane artifact exceeds 65536 bytes"⟩)
  else
    match lock with
    | .notPlain => .error (.io ⟨.invalidData, "orchestrator.lock is not a plain directory"⟩)
    | .directory (some .notPlain) _ =>
      .error (.io ⟨.invalidData, "control-plane artifact is not a plain file"⟩)
    | .absent | .directory .. => .ok (.directory (some (.plain (document serde record))) (others lock))

/-- `u64::saturating_add(1)`. -/
def saturatingSucc (generation : Nat) : Nat := min (generation + 1) u64Max

def newRecord (host : Host) (owner root : String) (ttlSeconds nowSecs generation : Nat)
    (takenOverFrom : Option String) : LeaseRecord where
  schema := leaseSchema
  role := engineRole
  ownerId := owner
  sessionId := owner
  root := absoluteRoot host root
  host := hostName host
  pid := 0
  pidStarted := none
  acquired := epochToIso nowSecs
  heartbeat := epochToIso nowSecs
  ttlSeconds := ttlSeconds
  generation := generation
  takenOverFrom := takenOverFrom

variable (host : Host) (lock : LockEntry)

def writeNewRecord (owner root : String) (ttlSeconds nowSecs generation : Nat)
    (takenOverFrom : Option String) : Leased (LeaseRecord × LockEntry) := do
  validateOwner owner
  demand (ttlSeconds ≠ 0) (.invalidInput "lease TTL must be at least one second")
  let record := newRecord host owner root ttlSeconds nowSecs generation takenOverFrom
  .ok (record, ← writeRecord serde lock record)

/-- Create the lease where there is none. -/
def acquire (owner root : String) (ttlSeconds nowSecs : Nat) :
    Leased (LeaseRecord × LockEntry) := do
  match ← readStatus serde lock nowSecs with
  | .vacant => writeNewRecord serde host lock owner root ttlSeconds nowSecs 1 none
  | .live record _ => .error (.heldLive record.ownerId record.role)
  | .stale record _ => .error (.stale record.ownerId)
  | .legacyLock detail => .error (.legacyLock detail)
  | .corrupt detail => .error (.corrupt detail)

/-- Create the lease, or replace a stale one. -/
def takeover (owner root : String) (ttlSeconds nowSecs : Nat) :
    Leased (LeaseRecord × LockEntry) := do
  match ← readStatus serde lock nowSecs with
  | .stale record _ =>
    writeNewRecord serde host lock owner root ttlSeconds nowSecs (saturatingSucc record.generation)
      (some record.ownerId)
  | .vacant => writeNewRecord serde host lock owner root ttlSeconds nowSecs 1 none
  | .live record _ => .error (.heldLive record.ownerId record.role)
  | .legacyLock detail => .error (.legacyLock detail)
  | .corrupt detail => .error (.corrupt detail)

/-- Replace a stale lease that is addressed to the same root and role, or create one. -/
def takeoverAddressed (owner root expectedRole : String) (ttlSeconds nowSecs : Nat) :
    Leased (LeaseRecord × LockEntry) := do
  match ← readStatus serde lock nowSecs with
  | .stale record _ =>
    if record.role ≠ expectedRole ∨ rootsEquivalent host record.root root = false then
      .error (.addressMismatch expectedRole record.role (showPath (lexicalAbsolutePath host root))
        record.root)
    else if record.ownerId = owner then
      .error (.invalidInput
        "addressed stale takeover needs a new owner distinct from the stale record")
    else
      writeNewRecord serde host lock owner root ttlSeconds nowSecs
        (saturatingSucc record.generation) (some record.ownerId)
  | .vacant => writeNewRecord serde host lock owner root ttlSeconds nowSecs 1 none
  | .live record _ => .error (.heldLive record.ownerId record.role)
  | .legacyLock detail => .error (.legacyLock detail)
  | .corrupt detail => .error (.corrupt detail)

/-- `Option<u64>` as `Debug` prints it. -/
def shownGeneration : Option Nat → String
  | none => "None"
  | some value => "Some(" ++ value.repr ++ ")"

/-- The renewal of a record that was read. -/
def renew (record : LeaseRecord) (owner : String) (expectedGeneration : Option Nat)
    (nowSecs : Nat) : Leased (LeaseRecord × LockEntry) :=
  if record.ownerId ≠ owner then .error (.notOwner record.ownerId)
  else if ∃ value ∈ expectedGeneration, value ≠ record.generation then
    .error (.invalidInput ("lease generation mismatch: expected " ++ shownGeneration expectedGeneration ++
      ", current " ++ record.generation.repr))
  else do
    let renewed := { record with
      heartbeat := epochToIso nowSecs
      generation := saturatingSucc record.generation }
    .ok (renewed, ← writeRecord serde lock renewed)

/-- Renew the caller's record, live or stale. -/
def heartbeat (owner : String) (expectedGeneration : Option Nat) (nowSecs : Nat) :
    Leased (LeaseRecord × LockEntry) := do
  validateOwner owner
  match ← readStatus serde lock nowSecs with
  | .live record _ | .stale record _ => renew serde lock record owner expectedGeneration nowSecs
  | .vacant => .error (.invalidInput "no structured lease is present")
  | .legacyLock detail => .error (.legacyLock detail)
  | .corrupt detail => .error (.corrupt detail)

/-- The lock without its lease; the directory goes with it when nothing else is in it. -/
def removed (lock : LockEntry) : LockEntry :=
  if (others lock) = [] then .absent else .directory none (others lock)

/-- Remove the caller's record. -/
def release (owner : String) (nowSecs : Nat) : Leased (Bool × LockEntry) := do
  validateOwner owner
  match ← readStatus serde lock nowSecs with
  | .vacant => .ok (false, lock)
  | .live record _ | .stale record _ =>
    if record.ownerId ≠ owner then .error (.notOwner record.ownerId)
    else .ok (true, removed lock)
  | .legacyLock detail => .error (.legacyLock detail)
  | .corrupt detail => .error (.corrupt detail)

end Store

end LeaseStore

/-! ## Calls -/

inductive LeaseCall where
  | acquire (owner root : String) (ttlSeconds : Nat)
  | takeover (owner root : String) (ttlSeconds : Nat)
  | takeoverAddressed (owner root expectedRole : String) (ttlSeconds : Nat)
  | heartbeat (owner : String) (expectedGeneration : Option Nat)
  | release (owner : String)
  | status

inductive LeaseAnswer where
  | record (record : LeaseRecord)
  | released (removed : Bool)
  | status (status : LeaseStatus)

section Calls

variable (serde : Serde) (host : Host) (lock : LockEntry)

/-- The answer of a call, and the lock behind it. -/
def LeaseCall.run (nowSecs : Nat) : LeaseCall → Leased (LeaseAnswer × LockEntry)
  | .acquire owner root ttl => do
    let (record, lock) ← LeaseStore.acquire serde host lock owner root ttl nowSecs
    .ok (.record record, lock)
  | .takeover owner root ttl => do
    let (record, lock) ← LeaseStore.takeover serde host lock owner root ttl nowSecs
    .ok (.record record, lock)
  | .takeoverAddressed owner root role ttl => do
    let (record, lock) ←
      LeaseStore.takeoverAddressed serde host lock owner root role ttl nowSecs
    .ok (.record record, lock)
  | .heartbeat owner generation => do
    let (record, lock) ← LeaseStore.heartbeat serde lock owner generation nowSecs
    .ok (.record record, lock)
  | .release owner => do
    let (removed, lock) ← LeaseStore.release serde lock owner nowSecs
    .ok (.released removed, lock)
  | .status => do
    .ok (.status (← LeaseStore.readStatus serde lock nowSecs), lock)

/-- The lock behind an answer; a refused call leaves it as it is. -/
def lockBehind : Leased (LeaseAnswer × LockEntry) → LockEntry
  | .ok (_, lock') => lock'
  | .error _ => lock

def LeaseCall.after (call : LeaseCall) (nowSecs : Nat) : LockEntry :=
  lockBehind lock (call.run serde host lock nowSecs)

end Calls

end Orchestrail
