import Orchestrail.Spec.Lease

/-!
# The transaction lock

`acquire_transaction_lock`, `TransactionLockGuard::release` and `break_stale_transaction_lock` of
`ownership.rs`, as programs of processes that run side by side. A move is one call into the file
system, so that another process may act between a check and the rename or removal that follows it.

Every caller's token, a process id with a sequence number or a UUID, is ASCII: what a write
interrupted halfway leaves behind is a prefix of the token. The sidecar is never renamed or
removed, so its validation can fail only as any call into the file system can.
-/

namespace Orchestrail

open Text

/-! ## Entries and snapshots -/

inductive TransactionLockKind where
  | file (owner : String)
  | emptyDirectory
  | nonEmptyDirectory
  | redirected
  | other
  deriving DecidableEq

def TransactionLockKind.describe : TransactionLockKind → String
  | .file owner => "CreateNew file owner=" ++ quoted owner
  | .emptyDirectory => "legacy native empty directory"
  | .nonEmptyDirectory => "non-empty directory (automatic removal refused)"
  | .redirected => "symlink/reparse point (automatic removal refused)"
  | .other => "unsupported filesystem entry (automatic removal refused)"

/-- What stands under a name of the directory; the owner of a file is all its text. -/
structure LockFile where
  kind : TransactionLockKind
  identity : Nat
  /-- the last write, in nanoseconds -/
  stamp : Nat
  deriving DecidableEq

structure TransactionLockSnapshot where
  kind : TransactionLockKind
  stamp : Nat
  ageMs : Option Nat
  identity : Nat
  deriving DecidableEq

def transactionOwnerMaxChars : Nat := 128

def validateTransactionOwnerToken (owner : String) : Bool :=
  !(owner.isEmpty || trimmed owner != owner || contains owner '\x00' || contains owner '\n' ||
    contains owner '\r' || transactionOwnerMaxChars < owner.toList.length)

/-- The tokens of the callers are ASCII. -/
def callerToken (owner : String) : Bool := owner.toList.all (·.toNat < 128)

/-- The first `count` characters of a text. -/
def leading (count : Nat) (text : String) : String := String.ofList (text.toList.take count)

def nanosPerMilli : Nat := 1000000

/-- `duration_since`: an entry stamped in the future has no age. -/
def ageMs (clock stamp : Nat) : Option Nat :=
  if stamp ≤ clock then some ((clock - stamp) / nanosPerMilli) else none

/-- A file of more than a lease's bytes cannot be read. -/
def transactionLockSnapshot (clock : Nat) (entry : LockFile) : Option TransactionLockSnapshot :=
  let shown (kind : TransactionLockKind) : TransactionLockSnapshot :=
    { kind, stamp := entry.stamp, ageMs := ageMs clock entry.stamp, identity := entry.identity }
  match entry.kind with
  | .file owner =>
    if owner.utf8ByteSize ≤ maxLeaseBytes then
      some (shown (.file (leading transactionOwnerMaxChars owner)))
    else none
  | kind => some (shown kind)

def TransactionLockSnapshot.sameIdentityAs (a b : TransactionLockSnapshot) : Bool :=
  a.identity == b.identity && a.kind == b.kind && a.stamp == b.stamp

def TransactionLockSnapshot.outlives (snapshot : TransactionLockSnapshot) (staleAfterMs : Nat) :
    Bool :=
  snapshot.ageMs.any (staleAfterMs < ·)

def TransactionLockKind.isDirectory : TransactionLockKind → Bool
  | .emptyDirectory | .nonEmptyDirectory => true
  | _ => false

/-- A rename lands on a free name, a file on what is no directory, a directory on an empty one. -/
def renamesOnto (source : LockFile) : Option LockFile → Bool
  | none => true
  | some target =>
    if source.kind.isDirectory then target.kind = .emptyDirectory else !target.kind.isDirectory

/-! ## Processes -/

/-- Where a process stands. A `lock` is the identity of the file its own CreateNew made. -/
inductive TxPoint where
  | idle
  /-- about to try the sidecar -/
  | trying (owner : String)
  | creating (owner : String)
  /-- created; the name is to be compared with the open file -/
  | opening (owner : String) (lock : Nat)
  | writing (owner : String) (lock : Nat)
  /-- the write failed; its own file is to be taken back -/
  | undoing (owner : String) (lock : Nat)
  | erasing (owner : String) (lock : Nat)
  /-- the token is written; the name is to be compared once more -/
  | sealing (owner : String) (lock : Nat)
  | observing (owner : String)
  /-- nothing stood there after all -/
  | recreating (owner : String)
  | judging (owner : String) (seen : TransactionLockSnapshot)
  | confirming (owner : String) (decided : TransactionLockSnapshot)
  | authorizing (owner : String) (confirmed : TransactionLockSnapshot) (sequence : Nat)
  | quarantining (owner : String) (confirmed : TransactionLockSnapshot) (sequence : Nat)
  | verifying (owner : String) (confirmed : TransactionLockSnapshot) (sequence : Nat)
  | sweeping (owner : String) (confirmed : TransactionLockSnapshot) (sequence : Nat)
  /-- not broken: asleep with the sidecar still held -/
  | resting (owner : String) (seen : TransactionLockSnapshot)
  /-- the operation runs under the lock -/
  | inside (owner : String) (lock : Nat)
  /-- `release`; once more from `drop` when the first one failed -/
  | releasing (owner : String) (lock : Nat) (dropping : Bool)
  | removing (owner : String) (lock : Nat) (dropping : Bool) (expected : Nat)
  | unlinking (owner : String) (lock : Nat) (dropping : Bool)
  deriving DecidableEq

structure TxProcess where
  point : TxPoint := .idle
  /-- quarantine names handed out so far -/
  sequence : Nat := 0

structure TxWorld (ι : Type) where
  /-- the canonical name -/
  entry : Option LockFile
  /-- the quarantine names, by process and sequence -/
  stale : ι → Nat → Option LockFile
  sidecar : Option ι
  /-- in nanoseconds -/
  clock : Nat
  procs : ι → TxProcess

/-- What a call returns. -/
inductive TxReport where
  | acquired
  | busy (ageMs : Option Nat) (kind : String)
  | refused
  | failed
  | released
  | ownerChanged (observed : String)
  deriving DecidableEq

inductive TxMove where
  /-- call `acquire_transaction_lock` -/
  | begin (owner : String)
  /-- the next call; a file it creates gets this identity -/
  | go (identity : Nat)
  /-- some of the token reaches the file -/
  | write (count : Nat)
  /-- the deadline has passed -/
  | expire
  /-- the next call into the file system fails -/
  | fail
  | crash

inductive TxAction (ι : Type) where
  | move (process : ι) (move : TxMove)
  | tick (clock : Nat)

namespace TxWorld

variable {ι : Type} [DecidableEq ι]

def setProc (w : TxWorld ι) (p : ι) (proc : TxProcess) : TxWorld ι :=
  { w with procs := fun q => if q = p then proc else w.procs q }

def setPoint (w : TxWorld ι) (p : ι) (point : TxPoint) : TxWorld ι :=
  w.setProc p { w.procs p with point }

def setStale (w : TxWorld ι) (p : ι) (sequence : Nat) (entry : Option LockFile) : TxWorld ι :=
  { w with stale := fun q n => if q = p ∧ n = sequence then entry else w.stale q n }

/-- Written through the open handle, whatever the name shows by then. -/
def writeOpen (w : TxWorld ι) (lock : Nat) (text : String) : TxWorld ι :=
  { w with
    entry := w.entry.map fun e =>
      if e.identity = lock then { e with kind := .file text, stamp := w.clock } else e }

/-- On to the next point. -/
def goTo (w : TxWorld ι) (p : ι) (point : TxPoint) : Option (TxWorld ι × Option TxReport) :=
  some (w.setPoint p point, none)

/-- The guard of the sidecar is dropped. -/
def leaveTo (w : TxWorld ι) (p : ι) (point : TxPoint) (report : Option TxReport) :
    Option (TxWorld ι × Option TxReport) :=
  some ({ w with sidecar := none }.setPoint p point, report)

/-- `create_transaction_lock` up to the open file. -/
def createNew (w : TxWorld ι) (p : ι) (owner : String) (identity : Nat) (occupied : TxWorld ι) :
    Option (TxWorld ι × Option TxReport) :=
  match w.entry with
  | none =>
    { w with entry := some ⟨.file "", identity, w.clock⟩ }.goTo p (.opening owner identity)
  | some _ => some (occupied, none)

/-- A refused release: the guard is armed still, so `drop` tries once more. -/
def refuse (w : TxWorld ι) (p : ι) (owner : String) (lock : Nat) (dropping : Bool)
    (report : TxReport) : Option (TxWorld ι × Option TxReport) :=
  if dropping then w.leaveTo p .idle none
  else some (w.setPoint p (.releasing owner lock true), some report)

/-- The next call of a process. -/
def proceed (w : TxWorld ι) (staleAfterMs : Nat) (p : ι) (identity : Nat) :
    Option (TxWorld ι × Option TxReport) :=
  match (w.procs p).point with
  | .idle => none
  | .trying owner =>
    match w.sidecar with
    | none => { w with sidecar := some p }.goTo p (.creating owner)
    | some _ => w.goTo p (.trying owner)
  | .creating owner => w.createNew p owner identity (w.setPoint p (.observing owner))
  | .opening owner lock =>
    if w.entry.any (·.identity = lock) then w.goTo p (.writing owner lock)
    else w.leaveTo p .idle (some .failed)
  | .writing owner lock => (w.writeOpen lock owner).goTo p (.sealing owner lock)
  | .undoing owner lock =>
    if w.entry.any (·.identity = lock) then w.goTo p (.erasing owner lock)
    else w.leaveTo p .idle (some .failed)
  | .erasing _ _ => { w with entry := none }.leaveTo p .idle (some .failed)
  | .sealing owner lock =>
    if w.entry.any (·.identity = lock) then
      some (w.setPoint p (.inside owner lock), some .acquired)
    else w.leaveTo p .idle (some .failed)
  | .observing owner =>
    match w.entry with
    | none => w.goTo p (.recreating owner)
    | some entry =>
      match transactionLockSnapshot w.clock entry with
      | some seen => w.goTo p (.judging owner seen)
      | none => w.leaveTo p .idle (some .failed)
  | .recreating owner =>
    w.createNew p owner identity ({ w with sidecar := none }.setPoint p (.trying owner))
  | .judging owner seen =>
    if seen.outlives staleAfterMs then w.goTo p (.confirming owner seen)
    else w.goTo p (.resting owner seen)
  | .confirming owner decided =>
    match w.entry with
    | none => w.leaveTo p (.trying owner) none
    | some entry =>
      match transactionLockSnapshot w.clock entry with
      | none => w.leaveTo p .idle (some .failed)
      | some confirmed =>
        if decided.sameIdentityAs confirmed && confirmed.outlives staleAfterMs then
          match confirmed.kind with
          | .file _ | .emptyDirectory =>
            let sequence := (w.procs p).sequence
            some (w.setProc p ⟨.authorizing owner confirmed sequence, sequence + 1⟩, none)
          | .nonEmptyDirectory | .redirected | .other => w.goTo p (.resting owner decided)
        else w.goTo p (.resting owner decided)
  | .authorizing owner confirmed sequence =>
    match w.entry with
    | none => w.leaveTo p (.trying owner) none
    | some entry =>
      if entry.identity = confirmed.identity then w.goTo p (.quarantining owner confirmed sequence)
      else w.leaveTo p .idle (some .failed)
  | .quarantining owner confirmed sequence =>
    match w.entry with
    | none => w.leaveTo p (.trying owner) none
    | some entry =>
      if renamesOnto entry (w.stale p sequence) then
        ({ w with entry := none }.setStale p sequence (some entry)).goTo p
          (.verifying owner confirmed sequence)
      else w.leaveTo p .idle (some .failed)
  | .verifying owner confirmed sequence =>
    match (w.stale p sequence).bind (transactionLockSnapshot w.clock) with
    | none => w.leaveTo p .idle (some .failed)
    | some quarantined =>
      if confirmed.sameIdentityAs quarantined then w.goTo p (.sweeping owner confirmed sequence)
      else w.leaveTo p .idle (some .failed)
  | .sweeping owner _ sequence => (w.setStale p sequence none).leaveTo p (.trying owner) none
  | .resting owner _ => w.leaveTo p (.trying owner) none
  | .inside owner lock => w.goTo p (.releasing owner lock false)
  | .releasing owner lock dropping =>
    match w.entry with
    | none => w.refuse p owner lock dropping (.ownerChanged "no lock present")
    | some entry =>
      match transactionLockSnapshot w.clock entry with
      | none => w.refuse p owner lock dropping .failed
      | some snapshot =>
        if snapshot.kind = .file owner then
          w.goTo p (.removing owner lock dropping snapshot.identity)
        else w.refuse p owner lock dropping (.ownerChanged snapshot.kind.describe)
  | .removing owner lock dropping expected =>
    if w.entry.any (·.identity = expected) then w.goTo p (.unlinking owner lock dropping)
    else w.refuse p owner lock dropping .failed
  | .unlinking _ _ _ => { w with entry := none }.leaveTo p .idle (some .released)

/-- A call into the file system fails. -/
def failing (w : TxWorld ι) (p : ι) : Option (TxWorld ι × Option TxReport) :=
  match (w.procs p).point with
  | .idle | .resting _ _ => none
  | .trying _ => some (w.setPoint p .idle, some .failed)
  -- a panic of the operation
  | .inside owner lock => w.goTo p (.releasing owner lock true)
  | .writing owner lock => w.goTo p (.undoing owner lock)
  | .releasing owner lock dropping | .removing owner lock dropping _
  | .unlinking owner lock dropping => w.refuse p owner lock dropping .failed
  | _ => w.leaveTo p .idle (some .failed)

/-- `Busy`, at the two places that look at the deadline. -/
def expiring (w : TxWorld ι) (p : ι) : Option (TxWorld ι × Option TxReport) :=
  match (w.procs p).point with
  | .trying _ =>
    match w.sidecar, w.entry with
    | none, _ => none
    | some _, none =>
      some (w.setPoint p .idle, some (.busy none "cross-process lifecycle transition"))
    | some _, some entry =>
      match transactionLockSnapshot w.clock entry with
      | some seen => some (w.setPoint p .idle, some (.busy seen.ageMs seen.kind.describe))
      | none => some (w.setPoint p .idle, some .failed)
  | .resting _ seen => w.leaveTo p .idle (some (.busy seen.ageMs seen.kind.describe))
  | _ => none

def moved (w : TxWorld ι) (staleAfterMs : Nat) (p : ι) :
    TxMove → Option (TxWorld ι × Option TxReport)
  | .begin owner =>
    if (w.procs p).point = .idle ∧ callerToken owner then
      if validateTransactionOwnerToken owner then w.goTo p (.trying owner)
      else some (w, some .refused)
    else none
  | .go identity => w.proceed staleAfterMs p identity
  | .write count =>
    match (w.procs p).point with
    | .writing owner lock =>
      (w.writeOpen lock (leading count owner)).goTo p (.writing owner lock)
    | _ => none
  | .expire => w.expiring p
  | .fail => w.failing p
  -- the kernel gives the sidecar free; a later process may get the same id
  | .crash =>
    some ({ w with sidecar := if w.sidecar = some p then none else w.sidecar }.setProc p {}, none)

def step (w : TxWorld ι) (staleAfterMs : Nat) : TxAction ι → Option (TxWorld ι × Option TxReport)
  | .move p move => w.moved staleAfterMs p move
  | .tick clock => some ({ w with clock }, none)

def next (staleAfterMs : Nat) (w : TxWorld ι) (a : TxAction ι) : Option (TxWorld ι) :=
  (w.step staleAfterMs a).map Prod.fst

end TxWorld

end Orchestrail
