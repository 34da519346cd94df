import Orchestrail.Lib.Steps
import Orchestrail.Proof.Tally
import Orchestrail.Proof.Time
import Orchestrail.Spec.Lease

/-!
# Who holds the lease

`standing` is the record a lock shows at any time. `LeaseCall.turned` says once what a call can do to
it: it creates a record where there was none, replaces a stale one, renews it for its owner, removes
it for its owner, or leaves the lock alone.
-/

namespace Orchestrail

open Text Outcome LeaseStore

/-! ## The document of a record -/

namespace LeaseRecord

/-- The numbers are those of the source's types. -/
structure Fits (record : LeaseRecord) : Prop where
  pid : record.pid ≤ u32Max
  ttlSeconds : record.ttlSeconds ≤ u64Max
  generation : record.generation ≤ u64Max

variable {record : LeaseRecord} {obj : List (String × Json)} {field : String}

theorem textField_text {s : String} (h : obj.lookup field = some (.text s)) :
    textField obj field = .ok s := by
  simp [textField, h]

theorem optionalField_optionalText {s : Option String}
    (h : obj.lookup field = some (optionalText s)) : optionalField obj field = .ok s := by
  cases s <;> simp [optionalField, h, optionalText]

theorem numberField_integer {max n : Nat} (h : obj.lookup field = some (.integer n)) (hn : n ≤ max) :
    numberField max obj field = .ok n := by
  have hfits : (0 : Int) ≤ n ∧ (n : Int) ≤ max := by omega
  simp [numberField, h, hfits]

theorem numberField_le {max n : Nat} (h : numberField max obj field = .ok n) : n ≤ max := by
  unfold numberField at h
  split at h
  · split at h
    · rename_i hfits
      obtain rfl := Except.ok.inj h
      omega
    · cases h
  · cases h
  · cases h

/-- **A record is read back** from its document. -/
theorem fromJson_toJson (h : record.Fits) : fromJson record.toJson = .ok record := by
  simp only [toJson, fromJson]
  rw [textField_text (s := record.schema) rfl, textField_text (s := record.role) rfl,
    textField_text (s := record.ownerId) rfl, textField_text (s := record.sessionId) rfl,
    textField_text (s := record.root) rfl, textField_text (s := record.host) rfl,
    numberField_integer (n := record.pid) rfl h.pid,
    optionalField_optionalText (s := record.pidStarted) rfl,
    textField_text (s := record.acquired) rfl, textField_text (s := record.heartbeat) rfl,
    numberField_integer (n := record.ttlSeconds) rfl h.ttlSeconds,
    numberField_integer (n := record.generation) rfl h.generation,
    optionalField_optionalText (s := record.takenOverFrom) rfl]
  rfl

/-- What is read is of the source's types. -/
theorem fits_of_fromJson {value : Json} (h : fromJson value = .ok record) : record.Fits := by
  cases value with
  | object obj =>
    simp only [fromJson, bind_eq_ok] at h
    obtain ⟨_, _, _, _, _, _, _, _, _, _, _, _, pid, hpid, _, _, _, _, _, _, ttl, httl, generation,
      hgeneration, _, _, h⟩ := h
    obtain rfl := Except.ok.inj h
    exact ⟨numberField_le hpid, numberField_le httl, numberField_le hgeneration⟩
  | _ => cases h

end LeaseRecord

/-! ## What stands in the lock -/

def LeaseStatus.record? : LeaseStatus → Option LeaseRecord
  | .live record _ | .stale record _ => some record
  | _ => none

section Reading

variable {serde : Serde} {lock lock' : LockEntry} {record : LeaseRecord} {now : Nat}

/-- The record a lock shows. -/
def standing (serde : Serde) (lock : LockEntry) : Option LeaseRecord :=
  (readStatus serde lock 0).toOption.bind LeaseStatus.record?

/-- A record that a status shows at a moment. -/
def Shown (record : LeaseRecord) (status : Leased LeaseStatus) : Prop :=
  ∃ liveness, status = .ok (.live record liveness) ∨ status = .ok (.stale record liveness)

theorem Shown.record? {status : Leased LeaseStatus} (h : Shown record status) :
    status.toOption.bind LeaseStatus.record? = some record := by
  obtain ⟨liveness, rfl | rfl⟩ := h <;> rfl

theorem judge_shown {heartbeat : Nat} (h : isoToEpoch record.heartbeat = some heartbeat) (now : Nat) :
    Shown record (judge record now) := by
  unfold judge
  rw [h]
  by_cases hlive : now < heartbeat ∨ now - heartbeat < record.ttlSeconds
  · exact ⟨⟨true, now - heartbeat, "heartbeat"⟩, .inl (by simp [hlive])⟩
  · exact ⟨⟨false, now - heartbeat, "heartbeat"⟩, .inr (by simp [hlive])⟩

theorem judge_stale {heartbeat now : Nat} (h : isoToEpoch record.heartbeat = some heartbeat)
    (hpast : heartbeat ≤ now) (hexpired : record.ttlSeconds ≤ now - heartbeat) :
    judge record now = .ok (.stale record ⟨false, now - heartbeat, "heartbeat"⟩) := by
  have hold : ¬ (now < heartbeat ∨ now - heartbeat < record.ttlSeconds) := by omega
  unfold judge
  rw [h]
  simp [hold]

theorem validateRecord_heartbeat (h : validateRecord record = .ok ()) :
    ∃ heartbeat, isoToEpoch record.heartbeat = some heartbeat := by
  obtain ⟨_, -, h⟩ := bind_eq_ok.1 h
  obtain ⟨_, -, h⟩ := bind_eq_ok.1 h
  exact Option.ne_none_iff_exists'.1 fun hnone => demand_eq_ok.1 h (.inl hnone)

/-- **Two ways to read a lock**: it shows one record at any time, or none, and then its status does
not depend on the time. -/
theorem readStatus_cases (serde : Serde) (lock : LockEntry) :
    (∃ record, record.Fits ∧ validateRecord record = .ok () ∧
      ∀ now, readStatus serde lock now = judge record now) ∨
    ∃ status, (∀ now, readStatus serde lock now = status) ∧
      status.toOption.bind LeaseStatus.record? = none := by
  have hfixed : ∀ status : Leased LeaseStatus,
      status.toOption.bind LeaseStatus.record? = none →
      (∀ now, readStatus serde lock now = status) →
      ∃ status, (∀ now, readStatus serde lock now = status) ∧
        status.toOption.bind LeaseStatus.record? = none :=
    fun status hnone hall => ⟨status, hall, hnone⟩
  cases lock with
  | absent => exact .inr (hfixed (.ok .vacant) rfl fun _ => rfl)
  | notPlain => exact .inr (hfixed _ rfl fun _ => rfl)
  | directory lease others =>
    match lease with
    | none =>
      right
      by_cases hentries : (others.filter fun name => !(name = stagingFile || isReplaceTemp name)) = []
      · exact hfixed (.ok .vacant) rfl fun _ => by simp only [readStatus, if_pos hentries]
      · exact hfixed _ rfl fun _ => by simp only [readStatus, if_neg hentries]; rfl
    | some .notPlain => exact .inr (hfixed _ rfl fun _ => rfl)
    | some (.plain bytes) =>
      by_cases hlong : maxLeaseBytes < bytes.length
      · exact .inr (hfixed _ rfl fun _ => by simp only [readStatus, readDocument, if_pos hlong]; rfl)
      cases htext : fromUtf8 bytes with
      | none =>
        exact .inr (hfixed _ rfl fun _ => by
          simp only [readStatus, readDocument, if_neg hlong, htext]
          rfl)
      | some raw =>
        cases hraw : serde.read raw >>= LeaseRecord.fromJson with
        | error e =>
          exact .inr (hfixed _ rfl fun _ => by
            simp only [readStatus, readDocument, if_neg hlong, htext, hraw]
            rfl)
        | ok record =>
          cases hvalid : validateRecord record with
          | error detail =>
            exact .inr (hfixed _ rfl fun _ => by
              simp only [readStatus, readDocument, if_neg hlong, htext, hraw, hvalid]
              rfl)
          | ok u =>
            obtain ⟨value, -, hvalue⟩ := bind_eq_ok.1 hraw
            exact .inl ⟨record, LeaseRecord.fits_of_fromJson hvalue, hvalid, fun now => by
              simp only [readStatus, readDocument, if_neg hlong, htext, hraw, hvalid]⟩

/-- The record does not depend on the time it is asked at. -/
theorem record?_readStatus (serde : Serde) (lock : LockEntry) (now : Nat) :
    (readStatus serde lock now).toOption.bind LeaseStatus.record? = standing serde lock := by
  rcases readStatus_cases serde lock with ⟨record, -, hvalid, hall⟩ | ⟨status, hall, -⟩
  · obtain ⟨heartbeat, hh⟩ := validateRecord_heartbeat hvalid
    rw [standing, hall, hall, (judge_shown hh now).record?, (judge_shown hh 0).record?]
  · rw [standing, hall, hall]

/-- What stands in a lock is valid, and shown at any time. -/
theorem standing_spec (h : standing serde lock = some record) :
    record.Fits ∧ validateRecord record = .ok () ∧
      ∀ now, readStatus serde lock now = judge record now := by
  rcases readStatus_cases serde lock with ⟨found, hfits, hvalid, hall⟩ | ⟨status, hall, hnone⟩
  · obtain ⟨heartbeat, hh⟩ := validateRecord_heartbeat hvalid
    rw [standing, hall, (judge_shown hh 0).record?] at h
    obtain rfl := Option.some.inj h
    exact ⟨hfits, hvalid, hall⟩
  · rw [standing, hall, hnone] at h
    cases h

theorem standing_of_shown (h : Shown record (readStatus serde lock now)) :
    standing serde lock = some record := by
  rw [← record?_readStatus serde lock now]
  exact h.record?

/-- **A record that was written stands**, if it is valid. -/
theorem standing_written
    (hserde : serde.read (serde.render record.toJson ++ "\n") = .ok record.toJson)
    (hfits : record.Fits) (hwrite : writeRecord serde lock record = .ok lock') :
    ∀ now, readStatus serde lock' now = match validateRecord record with
      | .error detail => .ok (.corrupt detail)
      | .ok () => judge record now := by
  intro now
  unfold writeRecord at hwrite
  split at hwrite
  · cases hwrite
  rename_i hshort
  have hread : readDocument serde (document serde record) now = match validateRecord record with
      | .error detail => .ok (.corrupt detail)
      | .ok () => judge record now := by
    have hraw : serde.read (serde.render record.toJson ++ "\n") >>= LeaseRecord.fromJson =
        .ok record := by
      rw [hserde]
      exact LeaseRecord.fromJson_toJson hfits
    rw [readDocument, if_neg hshort, document, fromUtf8_utf8]
    cases hvalid : validateRecord record with
    | error detail => simp [hraw, hvalid]
    | ok _ => simp [hraw, hvalid]
  cases lock with
  | notPlain => cases hwrite
  | absent =>
    obtain rfl := Except.ok.inj hwrite
    exact hread
  | directory lease others =>
    match lease with
    | some .notPlain => cases hwrite
    | none | some (.plain _) =>
      obtain rfl := Except.ok.inj hwrite
      exact hread

/-- Nothing stands where the lease was removed. -/
theorem standing_removed (serde : Serde) (lock : LockEntry) : standing serde (removed lock) = none := by
  unfold removed
  split
  · rfl
  · simp only [standing, readStatus]
    split <;> rfl

end Reading

/-! ## What a call can do -/

namespace LeaseCall

/-- Who calls. -/
def caller : LeaseCall → Option String
  | acquire owner _ _ | takeover owner _ _ | takeoverAddressed owner _ _ _ | heartbeat owner _
  | release owner => some owner
  | status => none

/-- The lease a call would create: owner, root and time to live. -/
def creation : LeaseCall → Option (String × String × Nat)
  | acquire owner root ttl | takeover owner root ttl | takeoverAddressed owner root _ ttl =>
    some (owner, root, ttl)
  | _ => none

/-- The call finds a lock in which it may write a record of its own. -/
def Opens (serde : Serde) (lock : LockEntry) (now : Nat) : LeaseCall → Prop
  | acquire .. => readStatus serde lock now = .ok .vacant
  | takeover .. | takeoverAddressed .. => readStatus serde lock now = .ok .vacant ∨
    ∃ record liveness, readStatus serde lock now = .ok (.stale record liveness)
  | _ => False

/-- What may become of a lock by a call. -/
inductive Turn (serde : Serde) (host : Host) (lock : LockEntry) (now : Nat) :
    LeaseCall → Leased (LeaseAnswer × LockEntry) → Prop
  | refused {call} (e : LeaseError) : Turn serde host lock now call (.error e)
  | told {call} (answer : LeaseAnswer) : (∀ record, answer ≠ .record record) →
    Turn serde host lock now call (.ok (answer, lock))
  | created {call owner root ttl lock'} : call.creation = some (owner, root, ttl) →
    call.Opens serde lock now → standing serde lock = none → validateOwner owner = .ok () → ttl ≠ 0 →
    writeRecord serde lock (newRecord host owner root ttl now 1 none) = .ok lock' →
    Turn serde host lock now call (.ok (.record (newRecord host owner root ttl now 1 none), lock'))
  | adopted {call owner root ttl lock'} (old : LeaseRecord) (liveness : LeaseLiveness) :
    call.creation = some (owner, root, ttl) → call.Opens serde lock now →
    readStatus serde lock now = .ok (.stale old liveness) → validateOwner owner = .ok () → ttl ≠ 0 →
    writeRecord serde lock (newRecord host owner root ttl now (saturatingSucc old.generation)
      (some old.ownerId)) = .ok lock' →
    Turn serde host lock now call (.ok (.record (newRecord host owner root ttl now
      (saturatingSucc old.generation) (some old.ownerId)), lock'))
  | renewed {generation lock'} (old : LeaseRecord) : standing serde lock = some old →
    (∀ value ∈ generation, value = old.generation) →
    writeRecord serde lock { old with
      heartbeat := epochToIso now, generation := saturatingSucc old.generation } = .ok lock' →
    Turn serde host lock now (.heartbeat old.ownerId generation) (.ok (.record { old with
      heartbeat := epochToIso now, generation := saturatingSucc old.generation }, lock'))
  | removed (old : LeaseRecord) : standing serde lock = some old →
    Turn serde host lock now (.release old.ownerId) (.ok (.released true, LeaseStore.removed lock))

variable {serde : Serde} {host : Host} {lock : LockEntry} {now : Nat}

theorem standing_of_vacant (h : readStatus serde lock now = .ok .vacant) :
    standing serde lock = none := by
  rw [← record?_readStatus serde lock now, h]
  rfl

theorem vacant_of_opens {call : LeaseCall} (hopens : call.Opens serde lock now)
    (hnone : standing serde lock = none) : readStatus serde lock now = .ok .vacant := by
  have hnotStale : ∀ record liveness, readStatus serde lock now ≠ .ok (.stale record liveness) := by
    intro record liveness h
    rw [standing_of_shown ⟨liveness, .inr h⟩] at hnone
    cases hnone
  cases call with
  | acquire => exact hopens
  | takeover | takeoverAddressed =>
    rcases hopens with h | ⟨record, liveness, h⟩
    · exact h
    · exact absurd h (hnotStale record liveness)
  | heartbeat | release | status => exact hopens.elim

/-- The answer of a call that writes a record of its own. -/
theorem writeNewRecord_eq_ok {owner root : String} {ttl generation : Nat} {from? : Option String}
    {record : LeaseRecord} {lock' : LockEntry}
    (h : writeNewRecord serde host lock owner root ttl now generation from? = .ok (record, lock')) :
    validateOwner owner = .ok () ∧ ttl ≠ 0 ∧
      record = newRecord host owner root ttl now generation from? ∧
      writeRecord serde lock record = .ok lock' := by
  obtain ⟨_, howner, h⟩ := bind_eq_ok.1 h
  obtain ⟨_, httl, h⟩ := bind_eq_ok.1 h
  obtain ⟨_, hwrite, h⟩ := bind_eq_ok.1 h
  obtain ⟨rfl, rfl⟩ := Prod.mk.inj (Except.ok.inj h)
  exact ⟨howner, demand_eq_ok.1 httl, rfl, hwrite⟩

theorem writeNewRecord_of {owner root : String} {ttl generation : Nat} {from? : Option String}
    {lock' : LockEntry} (howner : validateOwner owner = .ok ()) (httl : ttl ≠ 0)
    (hwrite : writeRecord serde lock (newRecord host owner root ttl now generation from?) = .ok lock') :
    writeNewRecord serde host lock owner root ttl now generation from? =
      .ok (newRecord host owner root ttl now generation from?, lock') :=
  bind_eq_ok.2 ⟨(), howner, bind_eq_ok.2 ⟨(), demand_true httl, bind_eq_ok.2 ⟨lock', hwrite, rfl⟩⟩⟩

/-- An acquisition of a vacant lease. -/
theorem acquire_of_vacant {owner root : String} {ttl : Nat} {record : LeaseRecord}
    {lock' : LockEntry} (hvacant : readStatus serde lock now = .ok .vacant)
    (hnew : writeNewRecord serde host lock owner root ttl now 1 none = .ok (record, lock')) :
    (acquire owner root ttl).run serde host lock now = .ok (.record record, lock') := by
  have hacquire : LeaseStore.acquire serde host lock owner root ttl now = .ok (record, lock') :=
    bind_eq_ok.2 ⟨.vacant, hvacant, hnew⟩
  exact bind_eq_ok.2 ⟨(record, lock'), hacquire, rfl⟩

/-- A creating call, once it has read the lock. -/
theorem turn_create {call : LeaseCall} {owner root : String} {ttl generation : Nat}
    {from? : Option String} (hcall : call.creation = some (owner, root, ttl))
    (hopens : call.Opens serde lock now)
    (hfrom : readStatus serde lock now = .ok .vacant ∧ generation = 1 ∧ from? = none ∨
      ∃ old liveness, readStatus serde lock now = .ok (.stale old liveness) ∧
        generation = saturatingSucc old.generation ∧ from? = some old.ownerId) :
    Turn serde host lock now call (do
      let (record, lock) ← writeNewRecord serde host lock owner root ttl now generation from?
      .ok (.record record, lock)) := by
  cases hwrite : writeNewRecord serde host lock owner root ttl now generation from? with
  | error e => exact .refused e
  | ok found =>
    obtain ⟨record, lock'⟩ := found
    obtain ⟨howner, httl, rfl, hwritten⟩ := writeNewRecord_eq_ok hwrite
    rcases hfrom with ⟨hvacant, rfl, rfl⟩ | ⟨old, liveness, hstale, rfl, rfl⟩
    · exact .created hcall hopens (standing_of_vacant hvacant) howner httl hwritten
    · exact .adopted old liveness hcall hopens hstale howner httl hwritten

theorem turn_acquire (owner root : String) (ttl : Nat) :
    Turn serde host lock now (.acquire owner root ttl)
      ((acquire owner root ttl).run serde host lock now) := by
  simp only [run, LeaseStore.acquire]
  cases hstatus : readStatus serde lock now with
  | error e => exact .refused e
  | ok status =>
    cases status with
    | vacant => exact turn_create rfl hstatus (.inl ⟨hstatus, rfl, rfl⟩)
    | live | stale | legacyLock | corrupt => exact .refused _

theorem turn_takeover (owner root : String) (ttl : Nat) :
    Turn serde host lock now (.takeover owner root ttl)
      ((takeover owner root ttl).run serde host lock now) := by
  simp only [run, LeaseStore.takeover]
  cases hstatus : readStatus serde lock now with
  | error e => exact .refused e
  | ok status =>
    cases status with
    | vacant => exact turn_create rfl (.inl hstatus) (.inl ⟨hstatus, rfl, rfl⟩)
    | stale old liveness =>
      exact turn_create rfl (.inr ⟨old, liveness, hstatus⟩) (.inr ⟨old, liveness, hstatus, rfl, rfl⟩)
    | live | legacyLock | corrupt => exact .refused _

theorem turn_takeoverAddressed (owner root role : String) (ttl : Nat) :
    Turn serde host lock now (.takeoverAddressed owner root role ttl)
      ((takeoverAddressed owner root role ttl).run serde host lock now) := by
  simp only [run, LeaseStore.takeoverAddressed]
  cases hstatus : readStatus serde lock now with
  | error e => exact .refused e
  | ok status =>
    cases status with
    | vacant => exact turn_create rfl (.inl hstatus) (.inl ⟨hstatus, rfl, rfl⟩)
    | stale old liveness =>
      simp only [bind, Except.bind]
      split_ifs
      · exact .refused _
      · exact .refused _
      · exact turn_create rfl (.inr ⟨old, liveness, hstatus⟩)
          (.inr ⟨old, liveness, hstatus, rfl, rfl⟩)
    | live | legacyLock | corrupt => exact .refused _

theorem turn_heartbeat (owner : String) (generation : Option Nat) :
    Turn serde host lock now (.heartbeat owner generation)
      ((heartbeat owner generation).run serde host lock now) := by
  have hrenew : ∀ old, standing serde lock = some old →
      Turn serde host lock now (.heartbeat owner generation) (do
        let (record, lock) ← renew serde lock old owner generation now
        .ok (.record record, lock)) := by
    intro old hold
    unfold renew
    by_cases howner : old.ownerId = owner
    · subst howner
      rw [if_neg (by simp)]
      by_cases hgeneration : ∃ value ∈ generation, value ≠ old.generation
      · rw [if_pos hgeneration]
        exact .refused _
      · rw [if_neg hgeneration]
        cases hwrite : writeRecord serde lock { old with
            heartbeat := epochToIso now, generation := saturatingSucc old.generation } with
        | error e =>
          simp only [hwrite, bind, Except.bind]
          exact .refused e
        | ok lock' =>
          simp only [hwrite, bind, Except.bind]
          exact .renewed old hold (fun value hv => not_not.1 fun hne => hgeneration ⟨value, hv, hne⟩)
            hwrite
    · rw [if_pos howner]
      exact .refused _
  simp only [run, LeaseStore.heartbeat]
  cases validateOwner owner with
  | error e => exact .refused e
  | ok u =>
    cases hstatus : readStatus serde lock now with
    | error e => exact .refused e
    | ok status =>
      cases status with
      | live old liveness => exact hrenew old (standing_of_shown ⟨liveness, .inl hstatus⟩)
      | stale old liveness => exact hrenew old (standing_of_shown ⟨liveness, .inr hstatus⟩)
      | vacant | legacyLock | corrupt => exact .refused _

theorem turn_release (owner : String) :
    Turn serde host lock now (.release owner) ((release owner).run serde host lock now) := by
  have hremove : ∀ old, standing serde lock = some old →
      Turn serde host lock now (.release owner)
        ((if old.ownerId ≠ owner then .error (.notOwner old.ownerId)
          else .ok (true, LeaseStore.removed lock) : Leased (Bool × LockEntry)) >>=
            fun done => .ok (.released done.1, done.2)) := by
    intro old hold
    by_cases howner : old.ownerId = owner
    · subst howner
      rw [if_neg (by simp)]
      exact .removed old hold
    · rw [if_pos howner]
      exact .refused _
  simp only [run, LeaseStore.release]
  cases validateOwner owner with
  | error e => exact .refused e
  | ok u =>
    cases hstatus : readStatus serde lock now with
    | error e => exact .refused e
    | ok status =>
      cases status with
      | live old liveness => exact hremove old (standing_of_shown ⟨liveness, .inl hstatus⟩)
      | stale old liveness => exact hremove old (standing_of_shown ⟨liveness, .inr hstatus⟩)
      | vacant => exact .told _ fun _ h => by cases h
      | legacyLock | corrupt => exact .refused _

/-- **What a call can do.** -/
theorem turned (call : LeaseCall) : Turn serde host lock now call (call.run serde host lock now) := by
  cases call with
  | acquire owner root ttl => exact turn_acquire owner root ttl
  | takeover owner root ttl => exact turn_takeover owner root ttl
  | takeoverAddressed owner root role ttl => exact turn_takeoverAddressed owner root role ttl
  | heartbeat owner generation => exact turn_heartbeat owner generation
  | release owner => exact turn_release owner
  | status =>
    simp only [run]
    cases readStatus serde lock now with
    | error e => exact .refused e
    | ok status => exact .told _ fun _ h => by cases h

end LeaseCall

/-! ## Records of the store -/

section Written

variable {host : Host} {owner root : String} {ttl now generation : Nat} {from? : Option String}

theorem not_blank_of_startsWith {s : String} (h : startsWith s '/' = true) : isBlank s = false := by
  simp only [startsWith, beq_iff_eq] at h
  obtain ⟨rest, hrest⟩ := List.head?_eq_some_iff.1 h
  rw [isBlank, hrest, List.all_cons]
  rfl

theorem absoluteRoot_startsWith (host : Host) (root : String) :
    startsWith (absoluteRoot host root) '/' = true := by
  have hjoin : ∀ s : String, startsWith (host.cwd ++ s) '/' = true := by
    intro s
    have habsolute := host.absolute
    simp only [startsWith, beq_iff_eq, String.toList_append] at habsolute ⊢
    obtain ⟨rest, hrest⟩ := List.head?_eq_some_iff.1 habsolute
    rw [hrest]
    rfl
  unfold absoluteRoot
  split_ifs with habsolute
  · exact habsolute
  · exact hjoin root
  · rw [String.append_assoc]
    exact hjoin _

/-- A new record is valid when the host has a name. -/
theorem newRecord_valid (hnow : now ≤ lastSecond) (howner : validateOwner owner = .ok ())
    (httl : ttl ≠ 0) (hgeneration : generation ≠ 0) (hhost : isBlank (hostName host) = false) :
    validateRecord (newRecord host owner root ttl now generation from?) = .ok () := by
  have hname : isBlank owner = false := by
    have h := demand_eq_ok.1 howner
    simpa using fun hblank => h (.inl hblank)
  have hroot := not_blank_of_startsWith (absoluteRoot_startsWith host root)
  have hrole : isBlank engineRole = false := by decide
  have htime := isoToEpoch_epochToIso hnow
  refine bind_eq_ok.2 ⟨(), demand_true rfl, bind_eq_ok.2 ⟨(), demand_true ?_, demand_true ?_⟩⟩
  · simp [newRecord, hrole, hname, hroot, hhost, httl, hgeneration]
  · simp [newRecord, htime]

theorem newRecord_fits (httl : ttl ≤ u64Max) (hgeneration : generation ≤ u64Max) :
    (newRecord host owner root ttl now generation from?).Fits :=
  ⟨Nat.zero_le _, httl, hgeneration⟩

theorem saturatingSucc_le (n : Nat) : saturatingSucc n ≤ u64Max := Nat.min_le_right _ _

theorem saturatingSucc_pos (n : Nat) : saturatingSucc n ≠ 0 := by
  unfold saturatingSucc u64Max
  omega

/-- A renewed record stays valid. -/
theorem renewed_valid {old : LeaseRecord} (hnow : now ≤ lastSecond)
    (hvalid : validateRecord old = .ok ()) (hgeneration : generation ≠ 0) :
    validateRecord { old with heartbeat := epochToIso now, generation := generation } = .ok () := by
  obtain ⟨_, hschema, hvalid⟩ := bind_eq_ok.1 hvalid
  obtain ⟨_, hfields, htimes⟩ := bind_eq_ok.1 hvalid
  have hfields := demand_eq_ok.1 hfields
  have htimes := demand_eq_ok.1 htimes
  simp only [not_or] at hfields htimes
  obtain ⟨h1, h2, h3, h4, h5, -⟩ := hfields
  refine bind_eq_ok.2 ⟨(), hschema, bind_eq_ok.2 ⟨(), demand_true ?_, demand_true ?_⟩⟩
  · simp only [not_or]
    exact ⟨h1, h2, h3, h4, h5, hgeneration⟩
  · simp only [not_or]
    exact ⟨by rw [isoToEpoch_epochToIso hnow]; simp, htimes.2⟩

end Written

/-! ## The lease over whole runs -/

open Steps

/-- A lock, and the latest time a call was made at. -/
structure LeaseWorld where
  lock : LockEntry
  clock : Nat := 0

/-- A call of some process. -/
structure LeaseAction where
  host : Host
  now : Nat
  call : LeaseCall

/-- One call, at a time that is not before the last one and has a year of four digits. -/
def LeaseWorld.next (serde : Serde) (w : LeaseWorld) (a : LeaseAction) : Option LeaseWorld :=
  if w.clock ≤ a.now ∧ a.now ≤ lastSecond ∧ ∀ c ∈ a.call.creation, c.2.2 ≤ u64Max then
    some ⟨a.call.after serde a.host w.lock a.now, a.now⟩
  else none

/-- The answer to a call. -/
def LeaseWorld.answer (serde : Serde) (w : LeaseWorld) (a : LeaseAction) :
    Leased (LeaseAnswer × LockEntry) :=
  a.call.run serde a.host w.lock a.now

theorem LeaseWorld.next_of_answer {serde : Serde} {w : LeaseWorld} {a : LeaseAction}
    {answer : LeaseAnswer} {lock' : LockEntry} (hanswer : w.answer serde a = .ok (answer, lock'))
    (hclock : w.clock ≤ a.now) (hyear : a.now ≤ lastSecond)
    (httl : ∀ c ∈ a.call.creation, c.2.2 ≤ u64Max) : w.next serde a = some ⟨lock', a.now⟩ := by
  have hlock : a.call.after serde a.host w.lock a.now = lock' := by
    rw [LeaseCall.after, show a.call.run serde a.host w.lock a.now = _ from hanswer]
    rfl
  exact (if_pos ⟨hclock, hyear, httl⟩).trans (by rw [hlock])

/-- The host has a name where a record is made, and the generations have not run out. -/
structure LeaseAction.Named (serde : Serde) (w : LeaseWorld) (a : LeaseAction) : Prop where
  host : a.call.Opens serde w.lock a.now → isBlank (hostName a.host) = false
  generation : ∀ record, standing serde w.lock = some record → record.generation < u64Max

/-- What one call keeps. -/
structure LeaseKept (serde : Serde) (w : LeaseWorld) (a : LeaseAction) (u : LeaseWorld) : Prop where
  /-- a live lease is its owner's -/
  exclusive : ∀ record liveness, readStatus serde w.lock a.now = .ok (.live record liveness) →
    a.call.caller ≠ some record.ownerId → u.lock = w.lock
  /-- only its owner removes it -/
  released : ∀ record, standing serde w.lock = some record → standing serde u.lock = none →
    a.call = .release record.ownerId
  /-- a lock that cannot be read is left alone -/
  closed : ∀ detail, readStatus serde w.lock a.now = .ok (.legacyLock detail) ∨
    readStatus serde w.lock a.now = .ok (.corrupt detail) → u.lock = w.lock
  /-- what was written is read back -/
  readable : ∀ record lock', w.answer serde a = .ok (.record record, lock') →
    ∀ now, Shown record (readStatus serde u.lock now)
  /-- every write has a higher generation than the record before it -/
  increasing : ∀ old record lock', standing serde w.lock = some old →
    w.answer serde a = .ok (.record record, lock') → old.generation < record.generation
  fresh : ∀ record lock', standing serde w.lock = none →
    w.answer serde a = .ok (.record record, lock') → record.generation = 1

section Kept

variable {serde : Serde} {w u : LeaseWorld} {a : LeaseAction} {host : Host}

/-- A call that changes nothing. -/
theorem kept_of_same (hlock : u.lock = w.lock)
    (hno : ∀ record lock', w.answer serde a ≠ .ok (.record record, lock')) : LeaseKept serde w a u where
  exclusive := fun _ _ _ _ => hlock
  released := fun record h h' => by
    rw [hlock, h] at h'
    cases h'
  closed := fun _ _ => hlock
  readable := fun record lock' h => absurd h (hno record lock')
  increasing := fun _ record lock' _ h => absurd h (hno record lock')
  fresh := fun record lock' _ h => absurd h (hno record lock')

/-- A call that writes a record. -/
theorem kept_of_written {record : LeaseRecord} {lock' : LockEntry}
    (hanswer : w.answer serde a = .ok (.record record, lock')) (hlock : u.lock = lock')
    (hshown : ∀ now, Shown record (readStatus serde lock' now))
    (hexclusive : ∀ old liveness, readStatus serde w.lock a.now = .ok (.live old liveness) →
      a.call.caller = some old.ownerId)
    (hopen : (∃ status, readStatus serde w.lock a.now = .ok status ∧
      (status = .vacant ∨ status.record? ≠ none)))
    (hincreasing : ∀ old, standing serde w.lock = some old → old.generation < record.generation)
    (hfresh : standing serde w.lock = none → record.generation = 1) : LeaseKept serde w a u := by
  have heq : ∀ {record' lock''}, w.answer serde a = .ok (.record record', lock'') →
      record' = record := by
    intro record' lock'' h
    rw [hanswer] at h
    injection h with h
    injection h with h _
    injection h with h
    exact h.symm
  constructor
  · intro old liveness hlive hother
    exact absurd (hexclusive old liveness hlive) hother
  · intro old hold hnone
    rw [hlock, standing_of_shown (hshown 0)] at hnone
    cases hnone
  · intro detail hclosed
    obtain ⟨status, hstatus, hkind⟩ := hopen
    rcases hclosed with hclosed | hclosed
    all_goals
      rw [hstatus] at hclosed
      obtain rfl := Except.ok.inj hclosed
      simp [LeaseStatus.record?] at hkind
  · intro record' lock'' h now
    obtain rfl := heq h
    rw [hlock]
    exact hshown now
  · intro old record' lock'' hold h
    obtain rfl := heq h
    exact hincreasing old hold
  · intro record' lock'' hnone h
    obtain rfl := heq h
    exact hfresh hnone

/-- A call that writes no record and does not remove one changes nothing. -/
theorem unwritten (hnext : w.next serde a = some u)
    (hno : ∀ r l, w.answer serde a ≠ .ok (.record r, l)) (hheld : standing serde u.lock ≠ none) :
    u.lock = w.lock := by
  unfold LeaseWorld.next at hnext
  split at hnext
  swap
  · cases hnext
  obtain rfl := Option.some.inj hnext
  obtain ⟨host, now, call⟩ := a
  have hturn : LeaseCall.Turn serde host w.lock now call (call.run serde host w.lock now) :=
    call.turned
  generalize hrun : call.run serde host w.lock now = r at hturn
  have hlock : call.after serde host w.lock now = lockBehind w.lock r := by
    rw [LeaseCall.after, hrun]
  have hanswer : w.answer serde ⟨host, now, call⟩ = r := hrun
  cases hturn with
  | refused | told => exact hlock
  | created | adopted | renewed => exact absurd hanswer (hno _ _)
  | removed old hold =>
    refine absurd ?_ hheld
    rw [hlock]
    exact standing_removed serde w.lock

variable (hserde : ∀ record : LeaseRecord, record.Fits →
  serde.read (serde.render record.toJson ++ "\n") = .ok record.toJson)

include hserde in
/-- **One call.** -/
theorem leaseKept (hnext : w.next serde a = some u) (hnamed : a.Named serde w) :
    LeaseKept serde w a u := by
  unfold LeaseWorld.next at hnext
  split at hnext
  swap
  · cases hnext
  rename_i hguard
  obtain ⟨-, hnow, httlmax⟩ := hguard
  obtain rfl := Option.some.inj hnext
  -- a valid record that was written is shown at any time
  have hshown : ∀ {record : LeaseRecord} {lock' : LockEntry}, record.Fits →
      validateRecord record = .ok () → writeRecord serde w.lock record = .ok lock' →
      ∀ now, Shown record (readStatus serde lock' now) := by
    intro record lock' hfits hvalid hwrite now
    obtain ⟨heartbeat, hh⟩ := validateRecord_heartbeat hvalid
    have hread := standing_written (hserde record hfits) hfits hwrite now
    rw [hvalid] at hread
    rw [hread]
    exact judge_shown hh now
  have hmax : u64Max ≠ 0 := by decide
  obtain ⟨host, now, call⟩ := a
  have hturn : LeaseCall.Turn serde host w.lock now call (call.run serde host w.lock now) :=
    call.turned
  generalize hrun : call.run serde host w.lock now = r at hturn
  have hlock : call.after serde host w.lock now = lockBehind w.lock r := by
    rw [LeaseCall.after, hrun]
  have hanswer : w.answer serde ⟨host, now, call⟩ = r := hrun
  cases hturn with
  | refused e =>
    refine kept_of_same hlock fun record lock' h => ?_
    rw [hanswer] at h
    cases h
  | told answer hno =>
    refine kept_of_same hlock fun record lock' h => ?_
    rw [hanswer] at h
    injection h with h
    injection h with h _
    exact hno record h
  | @created _ owner root ttl lock' hcall hopens hnone howner httl hwrite =>
    have hvalid : validateRecord (newRecord host owner root ttl now 1 none) = .ok () :=
      newRecord_valid hnow howner httl (by omega) (hnamed.host hopens)
    have hfits : (newRecord host owner root ttl now 1 none).Fits :=
      newRecord_fits (httlmax _ hcall) (by decide)
    refine kept_of_written hanswer hlock (hshown hfits hvalid hwrite) ?_ ?_ ?_ fun _ => rfl
    · intro old liveness hlive
      have hold := standing_of_shown ⟨liveness, .inl hlive⟩
      rw [hnone] at hold
      cases hold
    · exact ⟨_, LeaseCall.vacant_of_opens hopens hnone, .inl rfl⟩
    · intro old hold
      rw [hnone] at hold
      cases hold
  | @adopted _ owner root ttl lock' old liveness hcall hopens hstale howner httl hwrite =>
    have hold := standing_of_shown ⟨liveness, .inr hstale⟩
    have hroom := hnamed.generation old hold
    have hvalid : validateRecord (newRecord host owner root ttl now
        (saturatingSucc old.generation) (some old.ownerId)) = .ok () :=
      newRecord_valid hnow howner httl (saturatingSucc_pos old.generation) (hnamed.host hopens)
    have hfits : (newRecord host owner root ttl now (saturatingSucc old.generation)
        (some old.ownerId)).Fits := newRecord_fits (httlmax _ hcall) (saturatingSucc_le _)
    refine kept_of_written hanswer hlock (hshown hfits hvalid hwrite) ?_ ⟨_, hstale, .inr ?_⟩ ?_ ?_
    · intro other liveness' hlive
      rw [hstale] at hlive
      cases hlive
    · simp [LeaseStatus.record?]
    · intro other hother
      obtain rfl := Option.some.inj (hold.symm.trans hother)
      simp only [newRecord, saturatingSucc]
      omega
    · intro hnone
      rw [hold] at hnone
      cases hnone
  | @renewed generation lock' old hold hgeneration hwrite =>
    obtain ⟨hfits, hvalid, hread⟩ := standing_spec hold
    have hroom := hnamed.generation old hold
    have hrenewed := renewed_valid hnow hvalid (saturatingSucc_pos old.generation)
    have hfits' : ({ old with
        heartbeat := epochToIso now, generation := saturatingSucc old.generation } :
        LeaseRecord).Fits := ⟨hfits.pid, hfits.ttlSeconds, saturatingSucc_le _⟩
    obtain ⟨heartbeat, hh⟩ := validateRecord_heartbeat hvalid
    refine kept_of_written hanswer hlock (hshown hfits' hrenewed hwrite) ?_ ?_ ?_ ?_
    · intro other liveness hlive
      obtain rfl := Option.some.inj (hold.symm.trans (standing_of_shown ⟨liveness, .inl hlive⟩))
      rfl
    · obtain ⟨liveness, hlive | hstale⟩ := judge_shown hh now
      · exact ⟨_, (hread now).trans hlive, .inr (by simp [LeaseStatus.record?])⟩
      · exact ⟨_, (hread now).trans hstale, .inr (by simp [LeaseStatus.record?])⟩
    · intro other hother
      obtain rfl := Option.some.inj (hold.symm.trans hother)
      simp only [saturatingSucc]
      omega
    · intro hnone
      rw [hold] at hnone
      cases hnone
  | removed old hold =>
    obtain ⟨hfits, hvalid, hread⟩ := standing_spec hold
    obtain ⟨heartbeat, hh⟩ := validateRecord_heartbeat hvalid
    have hno : ∀ record lock', w.answer serde ⟨host, now, .release old.ownerId⟩ ≠
        .ok (.record record, lock') := by
      intro record lock' h
      rw [hanswer] at h
      injection h with h
      injection h with h _
      cases h
    constructor
    · intro other liveness hlive hother
      obtain rfl := Option.some.inj (hold.symm.trans (standing_of_shown ⟨liveness, .inl hlive⟩))
      exact absurd rfl hother
    · intro other hother _
      obtain rfl := Option.some.inj (hold.symm.trans hother)
      rfl
    · intro detail hclosed
      obtain ⟨liveness, hlive | hstale⟩ := judge_shown hh now
      · rw [hread now, hlive] at hclosed
        rcases hclosed with h | h <;> cases h
      · rw [hread now, hstale] at hclosed
        rcases hclosed with h | h <;> cases h
    · exact fun record lock' h => absurd h (hno record lock')
    · exact fun _ record lock' _ h => absurd h (hno record lock')
    · exact fun record lock' _ h => absurd h (hno record lock')

include hserde in
/-- What becomes of a record along a run in which there always is one. -/
theorem tenure {tr : List (LeaseWorld × LeaseAction)} {record : LeaseRecord}
    (h : Run (LeaseWorld.next serde) u tr w) (hnamed : ∀ x ∈ tr, x.2.Named serde x.1)
    (hheld : ∀ x ∈ tr, standing serde x.1.lock ≠ none) (hrecord : standing serde u.lock = some record) :
    ∀ last, standing serde w.lock = some last → record.generation ≤ last.generation ∧
      ((∃ x ∈ tr, ∃ r l, x.1.answer serde x.2 = .ok (.record r, l)) →
        record.generation < last.generation) := by
  induction h with
  | nil =>
    intro last hlast
    obtain rfl := Option.some.inj (hrecord.symm.trans hlast)
    exact ⟨le_rfl, fun ⟨x, hx, _⟩ => by cases hx⟩
  | @snoc tr t a v hrun hstep ih =>
    intro last hlast
    have hmem : (t, a) ∈ tr ++ [(t, a)] := List.mem_append_right _ List.mem_cons_self
    obtain ⟨mid, hmid⟩ := Option.ne_none_iff_exists'.1 (hheld _ hmem)
    obtain ⟨hle, hlt⟩ := ih (fun x hx => hnamed x (List.mem_append_left _ hx))
      (fun x hx => hheld x (List.mem_append_left _ hx)) mid hmid
    have hkept := leaseKept hserde hstep (hnamed _ hmem)
    -- the step writes a higher generation, or it leaves the record
    have hgrow : mid.generation < last.generation ∨ last = mid ∧
        ∀ r l, t.answer serde a ≠ .ok (.record r, l) := by
      by_cases hwrites : ∃ r l, t.answer serde a = .ok (.record r, l)
      · obtain ⟨r, l, hr⟩ := hwrites
        have hlastr := standing_of_shown (hkept.readable r l hr 0)
        obtain rfl := Option.some.inj (hlastr.symm.trans hlast)
        exact .inl (hkept.increasing mid r l hmid hr)
      · have hno : ∀ r l, t.answer serde a ≠ .ok (.record r, l) := fun r l h => hwrites ⟨r, l, h⟩
        have hsame := unwritten hstep hno (by rw [hlast]; simp)
        rw [hsame] at hlast
        exact .inr ⟨Option.some.inj (hlast.symm.trans hmid), hno⟩
    rcases hgrow with hgrow | ⟨rfl, hno⟩
    · exact ⟨by omega, fun _ => by omega⟩
    · refine ⟨hle, fun ⟨x, hx, r, l, hr⟩ => ?_⟩
      rcases List.mem_append.1 hx with hx | hx
      · exact hlt ⟨x, hx, r, l, hr⟩
      · obtain rfl := List.mem_singleton.1 hx
        exact absurd hr (hno r l)

/-- A heartbeat renews, or it is refused. -/
theorem heartbeat_answer {owner : String} {generation : Option Nat} {lock : LockEntry} {now : Nat} :
    (∃ e, (LeaseCall.heartbeat owner generation).run serde host lock now = .error e) ∨
      ∃ record lock', (LeaseCall.heartbeat owner generation).run serde host lock now =
        .ok (.record record, lock') := by
  rw [LeaseCall.run]
  cases LeaseStore.heartbeat serde lock owner generation now with
  | error e => exact .inl ⟨e, rfl⟩
  | ok found => exact .inr ⟨found.1, found.2, rfl⟩

/-- A generation that is not the standing one renews nothing. -/
theorem heartbeat_refused {owner : String} {generation : Nat} {lock : LockEntry} {now : Nat}
    (h : ∀ last, standing serde lock = some last → last.generation ≠ generation) :
    ∃ e, (LeaseCall.heartbeat owner (some generation)).run serde host lock now = .error e := by
  rcases @heartbeat_answer serde host owner (some generation) lock now with he | ⟨record, lock', hr⟩
  · exact he
  · have hturn : LeaseCall.Turn serde host lock now (.heartbeat owner (some generation)) _ :=
      LeaseCall.turned _
    rw [hr] at hturn
    cases hturn with
    | told answer hno => exact absurd rfl (hno record)
    | created hcall => cases hcall
    | adopted old liveness hcall => cases hcall
    | renewed old hold hgeneration => exact absurd (hgeneration generation rfl).symm (h old hold)

include hserde in
/-- **Lease exclusion.** Every call of a run keeps the lease of a live owner, removes a record for
its owner alone, leaves a legacy or corrupt lock as it is, and writes records that are read back and
whose generations increase; and a heartbeat with the generation of a former owner fails behind every
takeover, as long as the lock was never vacant in between. -/
theorem lease_exclusion {w₀ : LeaseWorld} {tr : List (LeaseWorld × LeaseAction)}
    (h : Run (LeaseWorld.next serde) w₀ tr w) (hnamed : ∀ x ∈ tr, x.2.Named serde x.1) :
    ∀ pre x post, tr = pre ++ x :: post → ∃ u, x.1.next serde x.2 = some u ∧
      LeaseKept serde x.1 x.2 u ∧
      ∀ record lock', x.1.answer serde x.2 = .ok (.record record, lock') →
        (∀ y ∈ post, standing serde y.1.lock ≠ none) →
        (∃ y ∈ post, y.2.call.creation ≠ none ∧ ∃ r l, y.1.answer serde y.2 = .ok (.record r, l)) →
        ∀ host owner now,
          ∃ e, (LeaseCall.heartbeat owner (some record.generation)).run serde host w.lock now =
            .error e := by
  intro pre x post htr
  obtain ⟨u, hu, hpost⟩ := h.cut pre x post htr
  have hx : x ∈ tr := htr ▸ List.mem_append_right _ List.mem_cons_self
  have hkept := leaseKept hserde hu (hnamed x hx)
  refine ⟨u, hu, hkept, fun record lock' hanswer hheld htaken host owner now => ?_⟩
  have hstands := standing_of_shown (hkept.readable record lock' hanswer 0)
  have hrest : ∀ y ∈ post, y.2.Named serde y.1 := fun y hy =>
    hnamed y (htr ▸ List.mem_append_right _ (List.mem_cons_of_mem _ hy))
  have hgrown := tenure hserde hpost hrest hheld hstands
  refine heartbeat_refused fun last hlast => ?_
  obtain ⟨y, hy, -, r, l, hr⟩ := htaken
  have hlt := (hgrown last hlast).2 ⟨y, hy, r, l, hr⟩
  omega

end Kept

/-! ## A host with a name, and one without -/

namespace Sample

theorem tally_reads (record : LeaseRecord) (_ : record.Fits) :
    Tally.codec.read (Tally.codec.render record.toJson ++ "\n") = .ok record.toJson :=
  Tally.read_render _ _ (by decide)

/-- A host whose environment names it so. -/
def named (name : String) : Host := ⟨"/repo", by decide, some name, none⟩

def leaseRecord (name : String) : LeaseRecord :=
  newRecord (named name) "engine-a" "/repo" 10 100 1 none

/-- The lock behind the first acquisition. -/
def acquiredLock (name : String) : LockEntry :=
  .directory (some (.plain (document Tally.codec (leaseRecord name)))) []

/-- The record of the owner that takes the lease over, and the lock behind it. -/
def adoptedRecord : LeaseRecord :=
  newRecord (named "laptop") "engine-b" "/repo" 10 200 2 (some "engine-a")

def adoptedLock : LockEntry := .directory (some (.plain (document Tally.codec adoptedRecord))) []

theorem write_acquired {name : String}
    (hshort : (document Tally.codec (leaseRecord name)).length ≤ maxLeaseBytes) :
    writeRecord Tally.codec .absent (leaseRecord name) = .ok (acquiredLock name) :=
  if_neg (Nat.not_lt.2 hshort)

theorem acquire_vacant {name : String}
    (hshort : (document Tally.codec (leaseRecord name)).length ≤ maxLeaseBytes) :
    (LeaseCall.acquire "engine-a" "/repo" 10).run Tally.codec (named name) .absent 100 =
      .ok (.record (leaseRecord name), acquiredLock name) := by
  have howner : validateOwner "engine-a" = .ok () := demand_true (by decide)
  exact LeaseCall.acquire_of_vacant rfl
    (LeaseCall.writeNewRecord_of howner (by decide) (write_acquired hshort))

theorem length_document (record : LeaseRecord) : (document Tally.codec record).length =
    ((Tally.encode record.toJson).map (· + 1)).sum + 3 := by
  have hline : (utf8 "\n").length = 1 := by decide
  rw [document, Tally.length_render, hline]

theorem document_short : (document Tally.codec (leaseRecord "laptop")).length ≤ maxLeaseBytes ∧
    (document Tally.codec (leaseRecord "")).length ≤ maxLeaseBytes := by
  rw [length_document, length_document]
  decide +kernel

theorem document_adopted : (document Tally.codec adoptedRecord).length ≤ maxLeaseBytes := by
  rw [length_document]
  decide +kernel

theorem write_adopted :
    writeRecord Tally.codec (acquiredLock "laptop") adoptedRecord = .ok adoptedLock :=
  if_neg (Nat.not_lt.2 document_adopted)

/-- A written record of a host with a name, read at some time. -/
theorem read_written {owner root : String} {now ttl generation : Nat} {from? : Option String}
    {lock lock' : LockEntry} (hnow : now ≤ lastSecond) (howner : validateOwner owner = .ok ())
    (httl : ttl ≠ 0 ∧ ttl ≤ u64Max) (hgeneration : generation ≠ 0 ∧ generation ≤ u64Max)
    (hwrite : writeRecord Tally.codec lock
      (newRecord (named "laptop") owner root ttl now generation from?) = .ok lock') (later : Nat) :
    readStatus Tally.codec lock' later =
      judge (newRecord (named "laptop") owner root ttl now generation from?) later := by
  have hfits : (newRecord (named "laptop") owner root ttl now generation from?).Fits :=
    newRecord_fits httl.2 hgeneration.2
  rw [standing_written (tally_reads _ hfits) hfits hwrite later,
    newRecord_valid hnow howner httl.1 hgeneration.1 (by decide)]

theorem read_acquired (later : Nat) : readStatus Tally.codec (acquiredLock "laptop") later =
    judge (leaseRecord "laptop") later :=
  read_written (by decide) (demand_true (by decide)) (by decide) (by decide)
    (write_acquired document_short.1) later

theorem read_adopted (later : Nat) : readStatus Tally.codec adoptedLock later =
    judge adoptedRecord later :=
  read_written (by decide) (demand_true (by decide)) (by decide) (by decide) write_adopted later

theorem heartbeat_acquired : isoToEpoch (leaseRecord "laptop").heartbeat = some 100 :=
  show isoToEpoch (epochToIso 100) = some 100 from isoToEpoch_epochToIso (by decide)

theorem heartbeat_adopted : isoToEpoch adoptedRecord.heartbeat = some 200 :=
  show isoToEpoch (epochToIso 200) = some 200 from isoToEpoch_epochToIso (by decide)

theorem standing_acquired :
    standing Tally.codec (acquiredLock "laptop") = some (leaseRecord "laptop") := by
  obtain ⟨_, hshown⟩ := judge_shown heartbeat_acquired 100
  have hread : Shown (leaseRecord "laptop") (readStatus Tally.codec (acquiredLock "laptop") 100) :=
    ⟨_, by rw [read_acquired]; exact hshown⟩
  exact standing_of_shown hread

theorem standing_adopted : standing Tally.codec adoptedLock = some adoptedRecord := by
  obtain ⟨_, hshown⟩ := judge_shown heartbeat_adopted 200
  have hread : Shown adoptedRecord (readStatus Tally.codec adoptedLock 200) :=
    ⟨_, by rw [read_adopted]; exact hshown⟩
  exact standing_of_shown hread

/-- The lease of the first owner has expired: the second one takes it over. -/
theorem takeover_stale :
    (LeaseCall.takeover "engine-b" "/repo" 10).run Tally.codec (named "laptop")
      (acquiredLock "laptop") 200 = .ok (.record adoptedRecord, adoptedLock) := by
  have hstale : readStatus Tally.codec (acquiredLock "laptop") 200 =
      .ok (.stale (leaseRecord "laptop") ⟨false, 100, "heartbeat"⟩) := by
    rw [read_acquired]
    exact judge_stale heartbeat_acquired (by decide) (by decide)
  have howner : validateOwner "engine-b" = .ok () := demand_true (by decide)
  have htake : LeaseStore.takeover Tally.codec (named "laptop") (acquiredLock "laptop") "engine-b"
      "/repo" 10 200 = .ok (adoptedRecord, adoptedLock) :=
    bind_eq_ok.2 ⟨_, hstale, LeaseCall.writeNewRecord_of howner (by decide) write_adopted⟩
  exact bind_eq_ok.2 ⟨_, htake, rfl⟩

/-- A record of a host with a blank name is corrupt once it is written. -/
theorem corrupt_of_blank {name : String} (hblank : isBlank name = true)
    (hshort : (document Tally.codec (leaseRecord name)).length ≤ maxLeaseBytes) (now : Nat) :
    readStatus Tally.codec (acquiredLock name) now =
      .ok (.corrupt "lease record has a required empty/zero field") := by
  have hfits : (leaseRecord name).Fits := newRecord_fits (by decide) (by decide)
  have hhost : isBlank (hostName (named name)) = true := hblank
  have hinvalid : validateRecord (leaseRecord name) =
      .error "lease record has a required empty/zero field" := by
    simp [validateRecord, leaseRecord, newRecord, hhost, demand, bind, Except.bind]
  have hread := standing_written (tally_reads _ hfits) hfits (write_acquired hshort) now
  rw [hinvalid] at hread
  exact hread

theorem release_corrupt {owner detail : String} {lock : LockEntry} {now : Nat}
    (h : readStatus Tally.codec lock now = .ok (.corrupt detail)) (host : Host) :
    ∃ e, (LeaseCall.release owner).run Tally.codec host lock now = .error e := by
  simp only [LeaseCall.run, LeaseStore.release, h, bind, Except.bind]
  cases validateOwner owner <;> exact ⟨_, rfl⟩

end Sample

/-- The lease expires, another owner takes it over, and a heartbeat with the first generation comes
too late. -/
theorem lease_exclusion_adopted :
    ∃ w tr, Run (LeaseWorld.next Tally.codec) ⟨.absent, 0⟩ tr w ∧
      tr.map Prod.snd = [⟨Sample.named "laptop", 100, .acquire "engine-a" "/repo" 10⟩,
        ⟨Sample.named "laptop", 200, .takeover "engine-b" "/repo" 10⟩,
        ⟨Sample.named "laptop", 205, .heartbeat "engine-a" (some 1)⟩] ∧
      (∃ x ∈ tr, standing Tally.codec x.1.lock = some Sample.adoptedRecord) ∧
      (∀ x ∈ tr, ∃ u, LeaseKept Tally.codec x.1 x.2 u) ∧
      ∀ host owner now, ∃ e,
        (LeaseCall.heartbeat owner (some 1)).run Tally.codec host w.lock now = .error e := by
  have hacquired : LeaseWorld.answer Tally.codec ⟨.absent, 0⟩
      ⟨Sample.named "laptop", 100, .acquire "engine-a" "/repo" 10⟩ =
      .ok (.record (Sample.leaseRecord "laptop"), Sample.acquiredLock "laptop") :=
    Sample.acquire_vacant Sample.document_short.1
  have hadopted : LeaseWorld.answer Tally.codec ⟨Sample.acquiredLock "laptop", 100⟩
      ⟨Sample.named "laptop", 200, .takeover "engine-b" "/repo" 10⟩ =
      .ok (.record Sample.adoptedRecord, Sample.adoptedLock) := Sample.takeover_stale
  have hfirst : LeaseWorld.next Tally.codec ⟨.absent, 0⟩
      ⟨Sample.named "laptop", 100, .acquire "engine-a" "/repo" 10⟩ =
      some ⟨Sample.acquiredLock "laptop", 100⟩ :=
    LeaseWorld.next_of_answer hacquired (by decide) (by decide) (by simp [LeaseCall.creation, u64Max])
  have hsecond : LeaseWorld.next Tally.codec ⟨Sample.acquiredLock "laptop", 100⟩
      ⟨Sample.named "laptop", 200, .takeover "engine-b" "/repo" 10⟩ =
      some ⟨Sample.adoptedLock, 200⟩ :=
    LeaseWorld.next_of_answer hadopted (by decide) (by decide) (by simp [LeaseCall.creation, u64Max])
  have hthird : LeaseWorld.next Tally.codec ⟨Sample.adoptedLock, 200⟩
      ⟨Sample.named "laptop", 205, .heartbeat "engine-a" (some 1)⟩ = some _ :=
    if_pos ⟨by decide, by decide, by simp [LeaseCall.creation]⟩
  have hrun := (Run.nil.snoc hfirst |>.snoc hsecond).snoc hthird
  have hheldA := Sample.standing_acquired
  have hheldB := Sample.standing_adopted
  have hall := lease_exclusion Sample.tally_reads hrun (fun x hx => by
    simp only [List.nil_append, List.cons_append, List.mem_cons, List.not_mem_nil, or_false] at hx
    rcases hx with rfl | rfl | rfl
    · exact ⟨fun _ => by decide, fun _ h => by cases h⟩
    · exact ⟨fun _ => by decide, fun r h => by
        obtain rfl := Option.some.inj (hheldA.symm.trans h); decide⟩
    · exact ⟨fun _ => by decide, fun r h => by
        obtain rfl := Option.some.inj (hheldB.symm.trans h); decide⟩)
  refine ⟨_, _, hrun, rfl, ⟨_, List.mem_append_right _ List.mem_cons_self, hheldB⟩, fun x hx => ?_, ?_⟩
  · obtain ⟨pre, post, hsplit⟩ := List.append_of_mem hx
    obtain ⟨u, -, hkept, -⟩ := hall pre x post hsplit
    exact ⟨u, hkept⟩
  · obtain ⟨-, -, -, hlate⟩ := hall [] _ [(_, _), (_, _)] rfl
    have hgeneration : (Sample.leaseRecord "laptop").generation = 1 := rfl
    have hlost := hlate _ _ hacquired (fun y hy => by
      simp only [List.mem_cons, List.not_mem_nil, or_false] at hy
      rcases hy with rfl | rfl
      · simp only [hheldA, ne_eq, reduceCtorEq, not_false_eq_true]
      · simp only [hheldB, ne_eq, reduceCtorEq, not_false_eq_true])
      ⟨_, List.mem_cons_self, nofun, _, _, hadopted⟩
    rw [hgeneration] at hlost
    exact hlost

/-- **A blank host name**: the record is written, and from then on it is corrupt and cannot even be
released by its owner. -/
theorem lease_exclusion_broken :
    (LeaseCall.acquire "engine-a" "/repo" 10).run Tally.codec (Sample.named "") .absent 100 =
      .ok (.record (Sample.leaseRecord ""), Sample.acquiredLock "") ∧
    (∀ now, readStatus Tally.codec (Sample.acquiredLock "") now =
      .ok (.corrupt "lease record has a required empty/zero field")) ∧
    ∀ host now, ∃ e, (LeaseCall.release "engine-a").run Tally.codec host (Sample.acquiredLock "") now =
      .error e := by
  have hstatus := Sample.corrupt_of_blank (by decide) Sample.document_short.2
  exact ⟨Sample.acquire_vacant Sample.document_short.2, hstatus,
    fun host now => Sample.release_corrupt (hstatus now) host⟩

end Orchestrail
