import Orchestrail.Proof.Lease
import Orchestrail.Spec.Authority

/-!
# One processor per control plane

Authority is an owner id in the record, a generation in the worker and a time to live. As long as
no process asks for the lease under the owner id of another one that has yet to release it (`Sole`),
the record of a worker that renews in time stands, or the lock is corrupt and nobody can write it
(`EngineKept`); every other call then finds a live record of somebody else. If besides nobody is
granted the lease while a process at work has let its record run out (`Prompt`), authority is
exclusive whether or not its holder is in time.

A `--continue` that meets the live record of a process at work is granted that very owner id:
`one_processor_broken`.
-/

namespace Orchestrail

open LeaseStore Outcome Steps

/-! ## Records in time, and locks nobody can write -/

section Locks

variable {serde : Serde} {host : Host} {lock lock' : LockEntry} {record other : LeaseRecord}
  {now now' : Nat} {call : LeaseCall}

/-- The record has not run out. -/
def InTime (now : Nat) (record : LeaseRecord) : Prop :=
  ∃ liveness, judge record now = .ok (.live record liveness)

theorem inTime_iff : InTime now record ↔ ∃ heartbeat, isoToEpoch record.heartbeat = some heartbeat ∧
    (now < heartbeat ∨ now - heartbeat < record.ttlSeconds) := by
  unfold InTime judge
  generalize isoToEpoch record.heartbeat = read
  cases read with
  | none => simp
  | some heartbeat =>
    by_cases hlive : now < heartbeat ∨ now - heartbeat < record.ttlSeconds
    · simp [hlive]
    · simp [hlive]

theorem InTime.mono (h : InTime now record) (hle : now' ≤ now) : InTime now' record := by
  obtain ⟨heartbeat, hread, hlive⟩ := inTime_iff.1 h
  exact inTime_iff.2 ⟨heartbeat, hread, by omega⟩

/-- The lock is corrupt, and stays so. -/
def Jammed (serde : Serde) (lock : LockEntry) : Prop :=
  ∃ detail, ∀ now, readStatus serde lock now = .ok (.corrupt detail)

theorem Jammed.standing (h : Jammed serde lock) : standing serde lock = none := by
  obtain ⟨detail, h⟩ := h
  rw [Orchestrail.standing, h]
  rfl

theorem Jammed.closed (h : Jammed serde lock) : ¬ call.Opens serde lock now := by
  obtain ⟨detail, h⟩ := h
  cases call <;> simp [LeaseCall.Opens, h]

/-- What was written stands, or it jams the lock. -/
theorem stands_or_jams
    (hserde : serde.read (serde.render record.toJson ++ "\n") = .ok record.toJson)
    (hfits : record.Fits) (hwrite : writeRecord serde lock record = .ok lock') :
    standing serde lock' = some record ∨ Jammed serde lock' := by
  have hread := standing_written hserde hfits hwrite
  cases hvalid : validateRecord record with
  | error detail =>
    rw [hvalid] at hread
    exact .inr ⟨detail, hread⟩
  | ok _ =>
    rw [hvalid] at hread
    obtain ⟨heartbeat, hh⟩ := validateRecord_heartbeat hvalid
    have hshown : Shown record (readStatus serde lock' 0) := (hread 0).symm ▸ judge_shown hh 0
    exact .inl (standing_of_shown hshown)

/-- **What a call that answers with a record has done**: it wrote that record, over a lock that is
not jammed and shows nobody else in time. -/
theorem granted_spec
    (hturn : call.run serde host lock now = .ok (.record record, lock'))
    (httl : ∀ c ∈ call.creation, c.2.2 ≤ u64Max) :
    record.Fits ∧ writeRecord serde lock record = .ok lock' ∧ ¬ Jammed serde lock ∧
      ∀ other, standing serde lock = some other → InTime now other →
        record.ownerId = other.ownerId := by
  have hrun : LeaseCall.Turn serde host lock now call (call.run serde host lock now) := call.turned
  rw [hturn] at hrun
  cases hrun with
  | told answer hno => exact absurd rfl (hno record)
  | created hcall hopens hnone howner hpos hwrite =>
    refine ⟨newRecord_fits (httl _ hcall) (by decide), hwrite, fun hjam => hjam.closed hopens, ?_⟩
    intro other hother
    rw [hnone] at hother
    cases hother
  | adopted old liveness hcall hopens hstale howner hpos hwrite =>
    refine ⟨newRecord_fits (httl _ hcall) (saturatingSucc_le _), hwrite,
      fun hjam => hjam.closed hopens, fun other hother hlive => ?_⟩
    -- a record in time is not stale
    obtain ⟨liveness', hlive⟩ := hlive
    rw [← (standing_spec hother).2.2 now, hstale] at hlive
    cases hlive
  | renewed old hold hgeneration hwrite =>
    have hfits := (standing_spec hold).1
    refine ⟨⟨hfits.pid, hfits.ttlSeconds, saturatingSucc_le _⟩, hwrite, fun hjam => ?_,
      fun other hother _ => ?_⟩
    · rw [hjam.standing] at hold
      cases hold
    · obtain rfl := Option.some.inj (hold.symm.trans hother)
      rfl

/-- The owner id under which a call may get the lease: of a renewal, the one of the record it renews,
if that stands in the expected generation; otherwise the requested one, if the lock lets it in. -/
def LeaseCall.Names (serde : Serde) (lock : LockEntry) (now : Nat) (owner : String) :
    LeaseCall → Prop
  | .heartbeat asked generation => asked = owner ∧ ∃ old, standing serde lock = some old ∧
      old.ownerId = owner ∧ ∀ value ∈ generation, value = old.generation
  | call => ∃ c ∈ call.creation, c.1 = owner ∧ call.Opens serde lock now

theorem granted_names
    (hturn : call.run serde host lock now = .ok (.record record, lock')) :
    call.Names serde lock now record.ownerId := by
  have hrun : LeaseCall.Turn serde host lock now call (call.run serde host lock now) := call.turned
  rw [hturn] at hrun
  cases hrun with
  | told answer hno => exact absurd rfl (hno record)
  | created hcall hopens =>
    cases call <;> first | exact ⟨_, hcall, rfl, hopens⟩ | cases hcall
  | adopted old liveness hcall hopens =>
    cases call <;> first | exact ⟨_, hcall, rfl, hopens⟩ | cases hcall
  | renewed old hold hgeneration => exact ⟨rfl, old, hold, rfl, hgeneration⟩

/-- A renewal is of the caller's own record. -/
theorem heartbeat_owner {owner : String} {generation : Option Nat}
    (hturn : (LeaseCall.heartbeat owner generation).run serde host lock now =
      .ok (.record record, lock')) :
    record.ownerId = owner ∧ ∃ old, standing serde lock = some old ∧ old.ownerId = owner := by
  have hrun : LeaseCall.Turn serde host lock now (.heartbeat owner generation) _ :=
    LeaseCall.turned _
  rw [hturn] at hrun
  cases hrun with
  | told answer hno => exact absurd rfl (hno record)
  | created hcall => cases hcall
  | adopted old liveness hcall => cases hcall
  | renewed old hold => exact ⟨rfl, old, hold, rfl⟩

/-- An addressed takeover of a stale record. -/
theorem takeoverAddressed_of_stale {owner root role : String} {ttl : Nat} {old : LeaseRecord}
    {liveness : LeaseLiveness}
    (hstale : readStatus serde lock now = .ok (.stale old liveness)) (hrole : old.role = role)
    (hroot : rootsEquivalent host old.root root = true) (hother : old.ownerId ≠ owner)
    (howner : validateOwner owner = .ok ()) (httl : ttl ≠ 0)
    (hwrite : writeRecord serde lock (newRecord host owner root ttl now
      (saturatingSucc old.generation) (some old.ownerId)) = .ok lock') :
    (LeaseCall.takeoverAddressed owner root role ttl).run serde host lock now =
      .ok (.record (newRecord host owner root ttl now (saturatingSucc old.generation)
        (some old.ownerId)), lock') := by
  have htake : takeoverAddressed serde host lock owner root role ttl now =
      .ok (newRecord host owner root ttl now (saturatingSucc old.generation) (some old.ownerId),
        lock') := by
    refine bind_eq_ok.2 ⟨.stale old liveness, hstale, ?_⟩
    have haddress : ¬ (old.role ≠ role ∨ rootsEquivalent host old.root root = false) := by
      simp [hrole, hroot]
    simp only [if_neg haddress, if_neg hother]
    exact LeaseCall.writeNewRecord_of howner httl hwrite
  exact bind_eq_ok.2 ⟨_, htake, rfl⟩

/-- A release leaves the record of anybody else. -/
theorem release_other {owner : String}
    (h : ∀ record, standing serde lock = some record → record.ownerId ≠ owner) :
    (LeaseCall.release owner).after serde host lock now = lock := by
  have hrun : LeaseCall.Turn serde host lock now (.release owner)
      ((LeaseCall.release owner).run serde host lock now) := LeaseCall.turned _
  rw [LeaseCall.after]
  generalize (LeaseCall.release owner).run serde host lock now = answer at hrun ⊢
  cases hrun with
  | refused | told => rfl
  | created hcall => cases hcall
  | adopted old liveness hcall => cases hcall
  | removed old hold => exact absurd rfl (h old hold)

end Locks

/-! ## Processes -/

namespace EngineWorld

variable {ι : Type} [DecidableEq ι]

def EnginePoint.claim : EnginePoint → Option String
  | .running record _ => some record.ownerId
  | .stopped owner => some owner
  | .asking | .renewing _ _ | .adopting | .creating => none

/-- The owner id of a process that has the lease and has not released it yet. -/
def claim (w : EngineWorld ι) (p : ι) : Option String :=
  (w.procs p).bind fun proc => EnginePoint.claim proc.point

/-- The record a process works under: its worker has not failed, and it is not stopped. -/
def authority (w : EngineWorld ι) (p : ι) : Option LeaseRecord :=
  (w.procs p).bind fun proc =>
    match proc.point with
    | .running record false => some record
    | _ => none

/-- The process holds authority, and renews in time. -/
def Holds (w : EngineWorld ι) (p : ι) : Prop :=
  ∃ record, w.authority p = some record ∧ InTime w.clock record

/-- Nobody gets the lease under the owner id of another process that has yet to release it. -/
def Sole (serde : Serde) (w : EngineWorld ι) : EngineAction ι → Prop
  | .go p => ∀ proc call owner, w.procs p = some proc → proc.acquisition = some call →
    call.Names serde w.lock proc.asked owner → ∀ q, q ≠ p → w.claim q ≠ some owner
  | _ => True

/-- Nobody gets the lease while another process at work has let its record run out. -/
def Prompt (serde : Serde) (w : EngineWorld ι) : EngineAction ι → Prop
  | .go p => ∀ proc call owner, w.procs p = some proc → proc.acquisition = some call →
    call.Names serde w.lock proc.asked owner →
    ∀ q record, q ≠ p → w.authority q = some record → InTime w.clock record
  | _ => True

/-- What an action can do. -/
inductive Turn (serde : Serde) (w : EngineWorld ι) : EngineAction ι → EngineWorld ι → Prop
  | ticks {clock} : w.clock ≤ clock → Turn serde w (.tick clock) { w with clock }
  /-- one process changes, and gets no authority -/
  | moves {a : EngineAction ι} (p : ι) (proc : Option EngineProcess) :
    (∀ owner, proc.bind (EnginePoint.claim ·.point) = some owner → w.claim p = some owner) →
    (∀ record, (w.setProc p proc).authority p = some record → w.authority p = some record) →
    (∀ new ∈ proc, new.start.ttlSeconds ≤ u64Max ∧ new.asked ≤ w.clock) →
    Turn serde w a (w.setProc p proc)
  | gets {p proc call record lock} : w.procs p = some proc → proc.acquisition = some call →
    call.run serde proc.start.host w.lock proc.asked = .ok (.record record, lock) →
    Turn serde w (.go p) ({ w with lock }.setPoint p proc (.running record false))
  | renews {p proc old now record lock} : w.procs p = some proc →
    proc.point = .running old false → now ≤ w.clock →
    (LeaseCall.heartbeat old.ownerId (some old.generation)).run serde proc.start.host w.lock now =
      .ok (.record record, lock) →
    Turn serde w (.beat p now) ({ w with lock }.setPoint p proc (.running record false))
  | releases {p proc owner now} : w.procs p = some proc → proc.point = .stopped owner →
    Turn serde w (.release p now)
      ({ w with lock := (LeaseCall.release owner).after serde proc.start.host w.lock now }.setProc p
        none)

variable {serde : Serde} {w u : EngineWorld ι} {p q : ι} {a : EngineAction ι}
  {proc : EngineProcess}

theorem setProc_claim (new : Option EngineProcess) (q : ι) :
    (w.setProc p new).claim q =
      if q = p then new.bind (EnginePoint.claim ·.point) else w.claim q := by
  unfold claim setProc
  by_cases hq : q = p <;> simp [hq]

theorem setProc_other (new : Option EngineProcess) (hq : q ≠ p) :
    (w.setProc p new).authority q = w.authority q := by
  simp [authority, setProc, hq]

/-- A process ends. -/
theorem over_turn (p : ι) : Turn serde w a (w.setProc p none) :=
  .moves p none (by simp) (fun record h => by simp [authority, setProc] at h) (by simp)

/-- A process goes on to a point without authority. -/
theorem point_turn {point : EnginePoint} (hproc : w.procs p = some proc)
    (htimes : proc.start.ttlSeconds ≤ u64Max ∧ proc.asked ≤ w.clock)
    (hclaim : ∀ owner, EnginePoint.claim point = some owner →
      EnginePoint.claim proc.point = some owner)
    (hidle : ∀ record, point ≠ .running record false) :
    Turn serde w a (w.setPoint p proc point) := by
  refine .moves p (some { proc with point }) (fun owner h => ?_) (fun record h => ?_)
    fun new hnew => ?_
  · rw [claim, hproc]
    exact hclaim owner h
  · simp only [authority, setProc, if_true, Option.bind_some] at h
    cases h
  · obtain rfl := Option.some.inj hnew
    exact htimes

theorem resumePoint_claim (start : EngineStart) (status : LeaseStatus) :
    EnginePoint.claim (resumePoint start status) = none := by
  cases status <;> simp only [resumePoint] <;> (try split) <;> rfl

theorem proceed_turn (hproc : w.procs p = some proc)
    (htimes : proc.start.ttlSeconds ≤ u64Max ∧ proc.asked ≤ w.clock)
    (h : w.proceed serde p proc = some u) : Turn serde w (.go p) u := by
  unfold proceed at h
  split at h
  · rename_i call hcall
    obtain rfl := Option.some.inj h
    generalize hrun : call.run serde proc.start.host w.lock proc.asked = answer
    match answer with
    | .ok (.record record, lock) => exact .gets hproc hcall hrun
    | .ok (.released _, _) | .ok (.status _, _) | .error _ => exact over_turn p
  · split at h
    · split at h
      · rename_i status hstatus
        obtain rfl := Option.some.inj h
        refine point_turn hproc htimes (fun owner hclaim => ?_) fun record hrunning => ?_
        · rw [resumePoint_claim] at hclaim
          cases hclaim
        · have hclaim := resumePoint_claim proc.start status
          rw [hrunning] at hclaim
          cases hclaim
      · obtain rfl := Option.some.inj h
        exact over_turn p
    · cases h

theorem act_turn (hproc : w.procs p = some proc)
    (htimes : proc.start.ttlSeconds ≤ u64Max ∧ proc.asked ≤ w.clock)
    (ha : a = .go p ∨ a = .effect p ∨ (∃ now, a = .beat p now) ∨ a = .stop p ∨
      (∃ now, a = .release p now) ∨ a = .fail p ∨ a = .crash p)
    (h : w.act serde proc a = some u) : Turn serde w a u := by
  have hself : w.setProc p (some proc) = w := by
    have : (fun q => if q = p then some proc else w.procs q) = w.procs := by
      funext q
      by_cases hq : q = p
      · subst hq
        simp [hproc]
      · simp [hq]
    simp only [setProc]
    rw [this]
  rcases ha with rfl | rfl | ⟨now, rfl⟩ | rfl | ⟨now, rfl⟩ | rfl | rfl
  · exact proceed_turn hproc htimes h
  · simp only [act] at h
    split at h
    · cases h
      have hturn : Turn serde w (.effect p) (w.setProc p (some proc)) := by
        refine .moves p (some proc) (fun owner hc => ?_) (fun record hr => ?_) ?_
        · rwa [claim, hproc]
        · rwa [hself] at hr
        · intro new hnew
          obtain rfl := Option.some.inj hnew
          exact htimes
      rwa [hself] at hturn
    · cases h
  · simp only [act] at h
    split at h
    · rename_i old hold
      split at h
      · rename_i hnow
        obtain rfl := Option.some.inj h
        generalize hrun : (LeaseCall.heartbeat old.ownerId (some old.generation)).run serde
          proc.start.host w.lock now = answer
        have hfailed : Turn serde w (.beat p now) (w.setPoint p proc (.running old true)) :=
          point_turn hproc htimes (fun owner hc => by rwa [hold]) (by simp)
        match answer with
        | .ok (.record record, lock) => exact .renews hproc hold hnow hrun
        | .ok (.released _, _) | .ok (.status _, _) | .error _ => exact hfailed
      · cases h
    · cases h
  · simp only [act] at h
    split at h
    · rename_i record failed hpoint
      obtain rfl := Option.some.inj h
      exact point_turn hproc htimes (fun owner hc => by rwa [hpoint]) (by simp)
    · cases h
  · simp only [act] at h
    split at h
    · rename_i owner hpoint
      obtain rfl := Option.some.inj h
      exact .releases hproc hpoint
    · cases h
  · simp only [act] at h
    split at h
    · rename_i record hpoint
      obtain rfl := Option.some.inj h
      exact point_turn hproc htimes (fun owner hc => by rwa [hpoint]) (by simp)
    · cases h
    · obtain rfl := Option.some.inj h
      exact over_turn p
  · obtain rfl := Option.some.inj h
    exact over_turn p

theorem next_turn (htimes : ∀ p proc, w.procs p = some proc →
      proc.start.ttlSeconds ≤ u64Max ∧ proc.asked ≤ w.clock)
    (h : w.next serde a = some u) : Turn serde w a u := by
  cases a with
  | tick clock =>
    simp only [next] at h
    split at h
    · cases h
      exact .ticks ‹_›
    · cases h
  | begin p start =>
    simp only [next] at h
    split at h
    · rename_i hguard
      cases h
      refine .moves p _ (by simp [EnginePoint.claim]) (fun record hr => ?_) fun new hnew => ?_
      · simp [authority, setProc] at hr
      · obtain rfl := Option.some.inj hnew
        exact ⟨hguard.2, le_rfl⟩
    · cases h
  | _ =>
    obtain ⟨proc, hproc, hact⟩ := Option.bind_eq_some_iff.1 h
    exact act_turn hproc (htimes _ proc hproc) (by simp) hact

theorem acquisition_ttl {call : LeaseCall} (h : proc.acquisition = some call)
    (httl : proc.start.ttlSeconds ≤ u64Max) : ∀ c ∈ call.creation, c.2.2 ≤ u64Max := by
  unfold EngineProcess.acquisition at h
  dsimp only at h
  split at h
  · split at h
    · cases h
    · cases h
      simpa [LeaseCall.creation] using httl
  · cases h
    simp [LeaseCall.creation]
  · cases h
    simpa [LeaseCall.creation] using httl
  · cases h
    simpa [LeaseCall.creation] using httl
  · cases h
  · cases h

/-! ## What every action keeps -/

/-- Owners apart, and every lease in time stands or is out of everybody's reach. -/
structure EngineKept (serde : Serde) (w : EngineWorld ι) : Prop where
  times : ∀ p proc, w.procs p = some proc →
    proc.start.ttlSeconds ≤ u64Max ∧ proc.asked ≤ w.clock
  owners : ∀ p q owner, w.claim p = some owner → w.claim q = some owner → p = q
  held : ∀ p record, w.authority p = some record → InTime w.clock record →
    standing serde w.lock = some record ∨ Jammed serde w.lock
  single : ∀ p q, w.Holds p → w.Holds q → p = q

omit [DecidableEq ι] in
theorem claim_of_authority {record : LeaseRecord} (h : w.authority p = some record) :
    w.claim p = some record.ownerId := by
  obtain ⟨proc, hproc, hpoint⟩ := Option.bind_eq_some_iff.1 h
  split at hpoint
  · rename_i old hold
    obtain rfl := Option.some.inj hpoint
    rw [claim, hproc, Option.bind_some, hold]
    rfl
  · cases hpoint

theorem setPoint_authority {record : LeaseRecord} {lock : LockEntry} :
    ({ w with lock }.setPoint p proc (.running record false)).authority p = some record := by
  simp [authority, setPoint, setProc]

omit [DecidableEq ι] in
/-- **A call that is answered with a record is the holder's own.** -/
theorem EngineKept.owner_of_granted (hkept : EngineKept serde w) {call : LeaseCall} {host : Host}
    {now : Nat} {record : LeaseRecord} {lock : LockEntry}
    (hrun : call.run serde host w.lock now = .ok (.record record, lock))
    (httl : ∀ c ∈ call.creation, c.2.2 ≤ u64Max) (hnow : now ≤ w.clock) (hq : w.Holds q) :
    w.claim q = some record.ownerId := by
  obtain ⟨-, -, hopen, hother⟩ := granted_spec hrun httl
  obtain ⟨held, hauthority, hlive⟩ := hq
  rcases hkept.held q held hauthority hlive with hstands | hjam
  · rw [hother held hstands (hlive.mono hnow)]
    exact claim_of_authority hauthority
  · exact absurd hjam hopen

/-- A process writes a record of its own while nobody else holds authority. -/
theorem EngineKept.written (hkept : EngineKept serde w) {record : LeaseRecord} {lock : LockEntry}
    (hproc : w.procs p = some proc)
    (hstands : standing serde lock = some record ∨ Jammed serde lock)
    (hclaim : ∀ q, q ≠ p → w.claim q ≠ some record.ownerId) (hnobody : ∀ q, q ≠ p → ¬ w.Holds q) :
    EngineKept serde ({ w with lock }.setPoint p proc (.running record false)) := by
  have hclaims : ∀ q, ({ w with lock }.setPoint p proc (.running record false)).claim q =
      if q = p then some record.ownerId else w.claim q := fun q => by
    rw [setPoint, setProc_claim]
    rfl
  have hothers : ∀ q, q ≠ p →
      ({ w with lock }.setPoint p proc (.running record false)).authority q = w.authority q :=
    fun q hq => setProc_other _ hq
  have halone : ∀ q, ({ w with lock }.setPoint p proc (.running record false)).Holds q → q = p := by
    intro q ⟨held, hauthority, hlive⟩
    by_contra hq
    exact hnobody q hq ⟨held, (hothers q hq) ▸ hauthority, hlive⟩
  constructor
  · intro q new hq
    by_cases hqp : q = p
    · subst hqp
      have hnew : some { proc with point := EnginePoint.running record false } = some new := by
        simpa [setPoint, setProc] using hq
      obtain rfl := Option.some.inj hnew
      exact hkept.times q proc hproc
    · exact hkept.times q new (by simpa [setPoint, setProc, hqp] using hq)
  · intro q r owner hq hr
    rw [hclaims] at hq hr
    split at hq <;> split at hr
    · rename_i hqp hrp
      exact hqp.trans hrp.symm
    · rename_i hqp hrp
      exact absurd (hr.trans hq.symm) (hclaim r hrp)
    · rename_i hqp hrp
      exact absurd (hq.trans hr.symm) (hclaim q hqp)
    · exact hkept.owners q r owner hq hr
  · intro q held hauthority hlive
    obtain rfl := halone q ⟨held, hauthority, hlive⟩
    rw [setPoint_authority] at hauthority
    obtain rfl := Option.some.inj hauthority
    exact hstands
  · intro q r hq hr
    exact (halone q hq).trans (halone r hr).symm

omit [DecidableEq ι] in
theorem EngineKept.apart_from_release (hkept : EngineKept serde w) {owner : String}
    (hproc : w.procs p = some proc) (hpoint : proc.point = .stopped owner) (hqp : q ≠ p) {now : Nat}
    {record : LeaseRecord} (hstands : ∀ r, standing serde w.lock = some r → r = record)
    (hq : w.claim q = some record.ownerId) :
    (LeaseCall.release owner).after serde proc.start.host w.lock now = w.lock := by
  refine release_other fun r hr howner => ?_
  obtain rfl := hstands r hr
  have hp : w.claim p = some r.ownerId := by
    rw [claim, hproc, Option.bind_some, hpoint, howner]
    rfl
  exact hqp (hkept.owners q p r.ownerId hq hp)

theorem Turn.kept (hserde : ∀ record : LeaseRecord, record.Fits →
      serde.read (serde.render record.toJson ++ "\n") = .ok record.toJson)
    (h : Turn serde w a u) (hkept : EngineKept serde w) (hsole : Sole serde w a) :
    EngineKept serde u := by
  cases h with
  | @ticks clock hle =>
    have hmono : ∀ {q}, ({ w with clock } : EngineWorld ι).Holds q → w.Holds q := by
      rintro q ⟨record, hauthority, hlive⟩
      exact ⟨record, hauthority, hlive.mono hle⟩
    exact
      { times := fun q proc hq => ⟨(hkept.times q proc hq).1, (hkept.times q proc hq).2.trans hle⟩
        owners := hkept.owners
        held := fun q record hauthority hlive => hkept.held q record hauthority (hlive.mono hle)
        single := fun q r hq hr => hkept.single q r (hmono hq) (hmono hr) }
  | moves p new hclaim hauthority htimes =>
    have hauthorities : ∀ q record, (w.setProc p new).authority q = some record →
        w.authority q = some record := by
      intro q record hq
      by_cases hqp : q = p
      · subst hqp
        exact hauthority record hq
      · rwa [setProc_other new hqp] at hq
    have hclaims : ∀ q owner, (w.setProc p new).claim q = some owner → w.claim q = some owner := by
      intro q owner hq
      rw [setProc_claim] at hq
      split at hq
      · rename_i hqp
        subst hqp
        exact hclaim owner hq
      · exact hq
    have hholds : ∀ {q}, (w.setProc p new).Holds q → w.Holds q := by
      rintro q ⟨record, hq, hlive⟩
      exact ⟨record, hauthorities _ record hq, hlive⟩
    constructor
    · intro q proc hq
      by_cases hqp : q = p
      · subst hqp
        exact htimes proc (by simpa [setProc] using hq)
      · exact hkept.times q proc (by simpa [setProc, hqp] using hq)
    · exact fun q r owner hq hr => hkept.owners q r owner (hclaims q owner hq) (hclaims r owner hr)
    · exact fun q record hq hlive => hkept.held q record (hauthorities q record hq) hlive
    · exact fun q r hq hr => hkept.single q r (hholds hq) (hholds hr)
  | @gets p proc call record lock hproc hcall hrun =>
    have hnot := hsole proc call _ hproc hcall (granted_names hrun)
    obtain ⟨httl, hasked⟩ := hkept.times p proc hproc
    have hcreation : ∀ c ∈ call.creation, c.2.2 ≤ u64Max := acquisition_ttl hcall httl
    obtain ⟨hfits, hwrite, -, -⟩ := granted_spec hrun hcreation
    refine hkept.written hproc (stands_or_jams (hserde record hfits) hfits hwrite) hnot ?_
    intro q hq hholds
    exact hnot q hq (hkept.owner_of_granted hrun hcreation hasked hholds)
  | @renews p proc old now record lock hproc hpoint hnow hrun =>
    obtain ⟨howner, -⟩ := heartbeat_owner hrun
    have hcreation : ∀ c ∈ (LeaseCall.heartbeat old.ownerId (some old.generation)).creation,
        c.2.2 ≤ u64Max := by simp [LeaseCall.creation]
    obtain ⟨hfits, hwrite, -, -⟩ := granted_spec hrun hcreation
    have hmine : w.claim p = some record.ownerId := by
      rw [claim, hproc, Option.bind_some, hpoint, howner]
      rfl
    have hnot : ∀ q, q ≠ p → w.claim q ≠ some record.ownerId :=
      fun q hq hclaim => hq (hkept.owners q p record.ownerId hclaim hmine)
    refine hkept.written hproc (stands_or_jams (hserde record hfits) hfits hwrite) hnot ?_
    intro q hq hholds
    exact hnot q hq (hkept.owner_of_granted hrun hcreation hnow hholds)
  | @releases p proc owner now hproc hpoint =>
    have hclaims : ∀ q owner', ({ w with
        lock := (LeaseCall.release owner).after serde proc.start.host w.lock now }.setProc p
          none).claim q = some owner' → w.claim q = some owner' ∧ q ≠ p := by
      intro q owner' hq
      rw [setProc_claim] at hq
      split at hq
      · cases hq
      · exact ⟨hq, ‹_›⟩
    have hauthorities : ∀ q record, ({ w with
        lock := (LeaseCall.release owner).after serde proc.start.host w.lock now }.setProc p
          none).authority q = some record → w.authority q = some record ∧ q ≠ p := by
      intro q record hq
      obtain ⟨-, hqp⟩ := hclaims q record.ownerId (claim_of_authority hq)
      exact ⟨by rwa [setProc_other none hqp] at hq, hqp⟩
    constructor
    · intro q new hq
      by_cases hqp : q = p
      · subst hqp
        simp [setProc] at hq
      · exact hkept.times q new (by simpa [setProc, hqp] using hq)
    · exact fun q r owner' hq hr => hkept.owners q r owner' (hclaims q owner' hq).1
        (hclaims r owner' hr).1
    · intro q record hq hlive
      obtain ⟨hq, hqp⟩ := hauthorities q record hq
      have hheld := hkept.held q record hq hlive
      have hsame : (LeaseCall.release owner).after serde proc.start.host w.lock now = w.lock := by
        refine hkept.apart_from_release hproc hpoint hqp (fun r hr => ?_) (claim_of_authority hq)
        rcases hheld with hstands | hjam
        · exact Option.some.inj (hr.symm.trans hstands)
        · rw [hjam.standing] at hr
          cases hr
      simp only [setProc, hsame]
      exact hheld
    · rintro q r ⟨record, hq, hlive⟩ ⟨record', hr, hlive'⟩
      exact hkept.single q r ⟨record, (hauthorities q record hq).1, hlive⟩
        ⟨record', (hauthorities r record' hr).1, hlive'⟩

theorem kept_of_reach (hserde : ∀ record : LeaseRecord, record.Fits →
      serde.read (serde.render record.toJson ++ "\n") = .ok record.toJson)
    {w₀ : EngineWorld ι} (h0 : ∀ p, w₀.procs p = none)
    (h : Reach (next serde) (Sole serde) w₀ w) : EngineKept serde w := by
  have hnobody : EngineKept serde w₀ := by
    constructor
    · intro p proc hp
      rw [h0] at hp
      cases hp
    · intro p q owner hp
      simp [claim, h0] at hp
    · intro p record hp
      simp [authority, h0] at hp
    · intro p q ⟨record, hp, _⟩
      simp [authority, h0] at hp
  exact h.invariant hnobody fun t a u ht hsole hn => (next_turn ht.times hn).kept hserde ht hsole

/-- **Authority is exclusive**, in time or not, if nobody gets the lease while a process at work is
late. -/
theorem alone_of_reach (hserde : ∀ record : LeaseRecord, record.Fits →
      serde.read (serde.render record.toJson ++ "\n") = .ok record.toJson)
    {w₀ : EngineWorld ι} (h0 : ∀ p, w₀.procs p = none)
    (h : Reach (next serde) (fun w a => Sole serde w a ∧ Prompt serde w a) w₀ w) :
    EngineKept serde w ∧ ∀ p q record record', w.authority p = some record →
      w.authority q = some record' → p = q := by
  refine h.invariant (I := fun w => EngineKept serde w ∧ ∀ p q record record',
    w.authority p = some record → w.authority q = some record' → p = q)
    ⟨kept_of_reach hserde h0 .refl, fun p q record _ hp => by simp [authority, h0] at hp⟩ ?_
  rintro t a u ⟨ht, halone⟩ ⟨hsole, hprompt⟩ hn
  have hturn := next_turn ht.times hn
  refine ⟨hturn.kept hserde ht hsole, fun p q record record' hp hq => ?_⟩
  cases hturn with
  | ticks hle => exact halone p q record record' hp hq
  | moves r new hclaim hauthority htimes =>
    have hback : ∀ k held, (t.setProc r new).authority k = some held → t.authority k = some held := by
      intro k held hk
      by_cases hkr : k = r
      · subst hkr
        exact hauthority held hk
      · rwa [setProc_other new hkr] at hk
    exact halone p q record record' (hback p record hp) (hback q record' hq)
  | @gets r proc call got lock hproc hcall hrun =>
    -- a holder would be in time, and the lease would not have been granted
    have hnobody : ∀ k held, k ≠ r →
        ({ t with lock }.setPoint r proc (.running got false)).authority k ≠ some held := by
      intro k held hk hauthority
      have hold : t.authority k = some held := by rwa [setPoint, setProc_other _ hk] at hauthority
      have hnames := granted_names hrun
      have hlive := hprompt proc call _ hproc hcall hnames k held hk hold
      obtain ⟨httl, hasked⟩ := ht.times r proc hproc
      exact hsole proc call _ hproc hcall hnames k hk
        (ht.owner_of_granted hrun (acquisition_ttl hcall httl) hasked ⟨held, hold, hlive⟩)
    have hself : ∀ k held,
        ({ t with lock }.setPoint r proc (.running got false)).authority k = some held → k = r :=
      fun k held hk => by_contra fun hkr => hnobody k held hkr hk
    exact (hself p record hp).trans (hself q record' hq).symm
  | @renews r proc old now got lock hproc hpoint hnow hrun =>
    have hmine : t.authority r = some old := by simp [authority, hproc, hpoint]
    have hself : ∀ k held,
        ({ t with lock }.setPoint r proc (.running got false)).authority k = some held → k = r := by
      intro k held hk
      by_contra hkr
      have hold : t.authority k = some held := by rwa [setPoint, setProc_other _ hkr] at hk
      exact hkr (halone k r held old hold hmine)
    exact (hself p record hp).trans (hself q record' hq).symm
  | @releases r proc owner now hproc hpoint =>
    have hback : ∀ k held, ({ t with
        lock := (LeaseCall.release owner).after serde proc.start.host t.lock now }.setProc r
          none).authority k = some held → t.authority k = some held := by
      intro k held hk
      by_cases hkr : k = r
      · subst hkr
        simp [authority, setProc] at hk
      · rwa [setProc_other none hkr] at hk
    exact halone p q record record' (hback p record hp) (hback q record' hq)

theorem next_begin {start : EngineStart} (hproc : w.procs p = none)
    (httl : start.ttlSeconds ≤ u64Max) : w.next serde (.begin p start) =
      some (w.setProc p (some ⟨start, w.clock, .asking⟩)) := by
  simp [next, hproc, httl]

/-- A call of an acquisition that is not granted ends the process and writes nothing. -/
theorem next_go {call : LeaseCall} (hproc : w.procs p = some proc)
    (hcall : proc.acquisition = some call) : w.next serde (.go p) =
      some (w.granted p proc (call.run serde proc.start.host w.lock proc.asked)) := by
  simp [next, hproc, act, proceed, hcall]

theorem next_granted {call : LeaseCall} {record : LeaseRecord} {lock : LockEntry}
    (hproc : w.procs p = some proc) (hcall : proc.acquisition = some call)
    (hrun : call.run serde proc.start.host w.lock proc.asked = .ok (.record record, lock)) :
    w.next serde (.go p) = some ({ w with lock }.setPoint p proc (.running record false)) := by
  rw [next_go hproc hcall, hrun]
  rfl

theorem next_denied {call : LeaseCall} {error : LeaseError} (hproc : w.procs p = some proc)
    (hcall : proc.acquisition = some call)
    (hrun : call.run serde proc.start.host w.lock proc.asked = .error error) :
    w.next serde (.go p) = some (w.setProc p none) := by
  rw [next_go hproc hcall, hrun]
  rfl

/-- The first call of a `--continue`. -/
theorem next_resume {status : LeaseStatus} (hproc : w.procs p = some proc)
    (hpoint : proc.point = .asking) (hcontinue : proc.start.continueRequested = true)
    (hstatus : readStatus serde w.lock proc.asked = .ok status) : w.next serde (.go p) =
      some (w.setPoint p proc (resumePoint proc.start status)) := by
  have hcall : proc.acquisition = none := by simp [EngineProcess.acquisition, hpoint, hcontinue]
  simp [next, hproc, act, proceed, hcall, hpoint, hstatus]

/-- **A holder refuses the others.** -/
theorem EngineKept.refuses (hkept : EngineKept serde w) (hp : w.Holds p) (hqp : q ≠ p)
    (hsole : Sole serde w (.go q)) (h : w.next serde (.go q) = some u) :
    u.lock = w.lock ∧ u.authority q = none := by
  have hno {proc : EngineProcess} {call : LeaseCall} (hproc : w.procs q = some proc)
      (hcall : proc.acquisition = some call)
      (record : LeaseRecord) (lock : LockEntry) :
      call.run serde proc.start.host w.lock proc.asked ≠ .ok (.record record, lock) := by
    intro hrun
    obtain ⟨httl, hasked⟩ := hkept.times q proc hproc
    exact hsole proc call _ hproc hcall (granted_names hrun) p (Ne.symm hqp)
      (hkept.owner_of_granted hrun (acquisition_ttl hcall httl) hasked hp)
  obtain ⟨proc, hproc, hact⟩ := Option.bind_eq_some_iff.1 h
  simp only [act, proceed] at hact
  split at hact
  · rename_i call hcall
    have hno := hno hproc hcall
    generalize call.run serde proc.start.host w.lock proc.asked = answer at hact hno
    obtain rfl := Option.some.inj hact
    match answer with
    | .ok (.record record, lock) => exact absurd rfl (hno record lock)
    | .ok (.released _, _) | .ok (.status _, _) | .error _ =>
      exact ⟨rfl, by simp [granted, authority, setProc]⟩
  · split at hact
    · split at hact
      · rename_i status hstatus
        obtain rfl := Option.some.inj hact
        refine ⟨rfl, ?_⟩
        have hclaim := resumePoint_claim proc.start status
        generalize resumePoint proc.start status = point at hclaim
        cases point <;> simp [authority, setPoint, setProc, EnginePoint.claim] at hclaim ⊢
      · obtain rfl := Option.some.inj hact
        exact ⟨rfl, by simp [authority, setProc]⟩
    · cases hact

/-- **A `--continue` gets past a record that has run out.** -/
theorem resumes {start : EngineStart} {asked : Nat} {old : LeaseRecord} {liveness : LeaseLiveness}
    {lock' : LockEntry} (hproc : w.procs p = some ⟨start, asked, .asking⟩)
    (hcontinue : start.continueRequested = true)
    (hstale : readStatus serde w.lock asked = .ok (.stale old liveness))
    (haddress : processorResumeAddressMatches start.host old start.root = true)
    (hother : start.requestedOwner ≠ old.ownerId)
    (howner : validateOwner start.requestedOwner = .ok ()) (httl : start.ttlSeconds ≠ 0)
    (hwrite : writeRecord serde w.lock (newRecord start.host start.requestedOwner start.root
      start.ttlSeconds asked (saturatingSucc old.generation) (some old.ownerId)) = .ok lock') :
    ∃ u, exec (next serde) w [.go p, .go p] = some u ∧ u.lock = lock' ∧
      u.authority p = some (newRecord start.host start.requestedOwner start.root start.ttlSeconds
        asked (saturatingSucc old.generation) (some old.ownerId)) := by
  have hfirst := next_resume hproc rfl hcontinue hstale
  have hpoint : resumePoint start (.stale old liveness) = .adopting := by
    simp [resumePoint, haddress]
  rw [hpoint] at hfirst
  have hthen : (w.setPoint p ⟨start, asked, .asking⟩ .adopting).procs p =
      some ⟨start, asked, .adopting⟩ := by simp [setPoint, setProc]
  have hsecond := @next_go _ _ serde _ _ _ _ hthen rfl
  simp only [processorResumeAddressMatches, Bool.and_eq_true, decide_eq_true_eq] at haddress
  have hrun := takeoverAddressed_of_stale hstale haddress.1 haddress.2 (Ne.symm hother) howner
    httl hwrite
  have hlock : (w.setPoint p ⟨start, asked, .asking⟩ .adopting).lock = w.lock := rfl
  rw [hlock, hrun] at hsecond
  have hruns : ∃ u, exec (next serde) w [.go p, .go p] = some u ∧
      u = { (w.setPoint p ⟨start, asked, .asking⟩ .adopting) with lock := lock' }.setPoint p
        ⟨start, asked, .adopting⟩ (.running (newRecord start.host start.requestedOwner start.root
          start.ttlSeconds asked (saturatingSucc old.generation) (some old.ownerId)) false) := by
    refine ⟨_, ?_, rfl⟩
    simp only [exec, hfirst, Option.bind_some, hsecond]
    rfl
  obtain ⟨u, hruns, rfl⟩ := hruns
  exact ⟨_, hruns, rfl, setPoint_authority⟩

end EngineWorld

open EngineWorld

/-- **One processor.** In every run in which nobody gets the lease under the owner id of another
process that has yet to release it: two processes that hold authority in time are one; who starts an
effect in time is the only holder; a holder refuses every other acquisition; a release leaves the
record of another process that is running; and a `--continue` of the same root adopts a record that
has run out, if its own record can be written. If besides nobody gets the lease while a process at
work is late, two processes that hold authority are one, in time or not. -/
theorem one_processor {ι : Type} [DecidableEq ι] {serde : Serde}
    (hserde : ∀ record : LeaseRecord, record.Fits →
      serde.read (serde.render record.toJson ++ "\n") = .ok record.toJson)
    {w₀ w : EngineWorld ι} (h0 : ∀ p, w₀.procs p = none)
    (h : Reach (EngineWorld.next serde) (Sole serde) w₀ w) :
    (∀ p q, w.Holds p → w.Holds q → p = q) ∧
    (∀ p u record, w.next serde (.effect p) = some u → w.authority p = some record →
      InTime w.clock record → ∀ q, w.Holds q → q = p) ∧
    (∀ p q u, w.Holds p → q ≠ p → Sole serde w (.go q) → w.next serde (.go q) = some u →
      u.lock = w.lock ∧ u.authority q = none) ∧
    (∀ p q u now record, w.next serde (.release p now) = some u → q ≠ p →
      standing serde w.lock = some record → w.claim q = some record.ownerId → u.lock = w.lock) ∧
    (∀ p start asked old liveness lock', w.procs p = some ⟨start, asked, .asking⟩ →
      start.continueRequested = true →
      readStatus serde w.lock asked = .ok (.stale old liveness) →
      processorResumeAddressMatches start.host old start.root = true →
      start.requestedOwner ≠ old.ownerId → validateOwner start.requestedOwner = .ok () →
      start.ttlSeconds ≠ 0 →
      writeRecord serde w.lock (newRecord start.host start.requestedOwner start.root
        start.ttlSeconds asked (saturatingSucc old.generation) (some old.ownerId)) = .ok lock' →
      ∃ u, exec (EngineWorld.next serde) w [.go p, .go p] = some u ∧ u.lock = lock' ∧
        u.authority p = some (newRecord start.host start.requestedOwner start.root
          start.ttlSeconds asked (saturatingSucc old.generation) (some old.ownerId))) ∧
    (Reach (EngineWorld.next serde) (fun w a => Sole serde w a ∧ Prompt serde w a) w₀ w →
      ∀ p q record record', w.authority p = some record → w.authority q = some record' → p = q) := by
  have hkept := kept_of_reach hserde h0 h
  refine ⟨hkept.single, fun p u record _ hauthority hlive q hq => ?_,
    fun p q u hp hqp hsole hn => hkept.refuses hp hqp hsole hn,
    fun p q u now record hn hqp hstands hclaim => ?_,
    fun p start asked old liveness lock' hproc hcontinue hstale haddress hother howner httl hwrite =>
      resumes hproc hcontinue hstale haddress hother howner httl hwrite,
    fun hprompt => (alone_of_reach hserde h0 hprompt).2⟩
  · exact hkept.single q p hq ⟨record, hauthority, hlive⟩
  · obtain ⟨proc, hproc, hact⟩ := Option.bind_eq_some_iff.1 hn
    simp only [act] at hact
    split at hact
    · rename_i owner hpoint
      obtain rfl := Option.some.inj hact
      exact hkept.apart_from_release hproc hpoint hqp
        (fun r hr => Option.some.inj (hr.symm.trans hstands)) hclaim
    · cases hact

/-! ## A `--continue` against a process at work -/

section Shared

variable {serde : Serde} {w : EngineWorld Bool} {first second : EngineStart}
  {old record : LeaseRecord} {lock lock' : LockEntry} {now : Nat}

/-- The first process acquires, the second renews the record of the first. -/
def sharing (first second : EngineStart) : List (EngineAction Bool) :=
  [.begin false first, .go false, .begin true second, .go true, .go true]

/-- The first process finds out and ends. -/
def parting (now : Nat) : List (EngineAction Bool) :=
  [.beat false now, .stop false, .release false now]

theorem exec_sharing (hfirst : first.continueRequested = false)
    (hsecond : second.continueRequested = true) (httl : first.ttlSeconds ≤ u64Max)
    (httl' : second.ttlSeconds ≤ u64Max) {liveness : LeaseLiveness}
    (hacquire : (LeaseCall.acquire first.requestedOwner first.root first.ttlSeconds).run serde
      first.host w.lock w.clock = .ok (.record old, lock))
    (hlive : readStatus serde lock w.clock = .ok (.live old liveness))
    (haddress : processorResumeAddressMatches second.host old second.root = true)
    (hbeat : (LeaseCall.heartbeat old.ownerId (some old.generation)).run serde second.host lock
      w.clock = .ok (.record record, lock'))
    (h0 : ∀ p, w.procs p = none) :
    ∃ u, exec (EngineWorld.next serde) w (sharing first second) = some u ∧ u.lock = lock' ∧
      u.clock = w.clock ∧
      u.procs false = some ⟨first, w.clock, .running old false⟩ ∧
      u.procs true = some ⟨second, w.clock, .running record false⟩ := by
  simp only [sharing, exec, EngineWorld.next, h0, Option.isNone_none, httl, httl', and_self, if_true,
    Option.bind_some, setProc, act, proceed, EngineProcess.acquisition, hfirst, hsecond,
    Bool.false_eq_true, if_false, hacquire, granted, setPoint, Bool.true_eq_false, hlive,
    resumePoint, haddress, hbeat]
  exact ⟨_, rfl, rfl, rfl, rfl, rfl⟩

theorem exec_parting {failure : LeaseError} {asked : Nat}
    (hproc : w.procs false = some ⟨first, asked, .running old false⟩) (hnow : now ≤ w.clock)
    (hlate : (LeaseCall.heartbeat old.ownerId (some old.generation)).run serde first.host w.lock now =
      .error failure)
    (hrelease : (LeaseCall.release old.ownerId).run serde first.host w.lock now =
      .ok (.released true, lock)) :
    ∃ u, exec (EngineWorld.next serde) w (parting now) = some u ∧ u.lock = lock ∧
      u.clock = w.clock ∧ u.procs true = w.procs true := by
  simp only [parting, exec, EngineWorld.next, hproc, Option.bind_some, act, hnow, if_true, hlate,
    renewed, setPoint, setProc, LeaseCall.after, hrelease, lockBehind]
  exact ⟨_, rfl, rfl, rfl, rfl⟩

end Shared

namespace Sample

/-- The processor, and the one that is started with `--continue` while the first is running. -/
def startOf (continueRequested : Bool) (owner : String) : EngineStart :=
  ⟨named "laptop", continueRequested, owner, "/repo", 10⟩

def quiet : EngineWorld Bool := ⟨.absent, 100, fun _ => none⟩

/-- The first record, renewed by the other process. -/
def continuedRecord : LeaseRecord :=
  { leaseRecord "laptop" with heartbeat := epochToIso 100, generation := saturatingSucc 1 }

def continuedLock : LockEntry :=
  .directory (some (.plain (document Tally.codec continuedRecord))) []

theorem continued_short : (document Tally.codec continuedRecord).length ≤ maxLeaseBytes := by
  rw [length_document]
  decide +kernel

theorem sample_valid : validateRecord (leaseRecord "laptop") = .ok () :=
  newRecord_valid (by decide) (demand_true (by decide)) (by decide) (by decide) (by decide)

theorem read_continued (now : Nat) :
    readStatus Tally.codec continuedLock now = judge continuedRecord now := by
  have hfits : continuedRecord.Fits := ⟨Nat.zero_le _, by decide, saturatingSucc_le 1⟩
  have hwrite : writeRecord Tally.codec .absent continuedRecord = .ok continuedLock :=
    if_neg (Nat.not_lt.2 continued_short)
  have hread := standing_written (tally_reads _ hfits) hfits hwrite now
  have hvalid : validateRecord continuedRecord = .ok () :=
    renewed_valid (by decide) sample_valid (saturatingSucc_pos 1)
  simp only [hvalid] at hread
  exact hread

theorem inTime_first : InTime 100 (leaseRecord "laptop") :=
  inTime_iff.2 ⟨100, isoToEpoch_epochToIso (by decide), .inr (by decide)⟩

theorem inTime_continued : InTime 100 continuedRecord :=
  inTime_iff.2 ⟨100, isoToEpoch_epochToIso (by decide), .inr (by decide)⟩

theorem heartbeat_first : (LeaseCall.heartbeat "engine-a" (some 1)).run Tally.codec (named "laptop")
    (acquiredLock "laptop") 100 = .ok (.record continuedRecord, continuedLock) := by
  obtain ⟨liveness, hlive⟩ := inTime_first
  have hstatus := (read_acquired 100).trans hlive
  have howner : validateOwner "engine-a" = .ok () := demand_true (by decide)
  have hwrite : writeRecord Tally.codec (acquiredLock "laptop") continuedRecord =
      .ok continuedLock := if_neg (Nat.not_lt.2 continued_short)
  have hrenew : renew Tally.codec (acquiredLock "laptop") (leaseRecord "laptop") "engine-a"
      (some 1) 100 = .ok (continuedRecord, continuedLock) := by
    have hmine : ¬ (leaseRecord "laptop").ownerId ≠ "engine-a" := fun h => h rfl
    have hsame : ¬ ∃ value ∈ some 1, value ≠ (leaseRecord "laptop").generation := by
      rintro ⟨value, hvalue, hne⟩
      obtain rfl := Option.some.inj hvalue
      exact hne rfl
    rw [renew, if_neg hmine, if_neg hsame]
    exact bind_eq_ok.2 ⟨_, hwrite, rfl⟩
  have hbeat : heartbeat Tally.codec (acquiredLock "laptop") "engine-a" (some 1) 100 =
      .ok (continuedRecord, continuedLock) :=
    bind_eq_ok.2 ⟨(), howner, bind_eq_ok.2 ⟨_, hstatus, hrenew⟩⟩
  exact bind_eq_ok.2 ⟨_, hbeat, rfl⟩

theorem standing_continued : standing Tally.codec continuedLock = some continuedRecord := by
  obtain ⟨liveness, hlive⟩ := inTime_continued
  exact standing_of_shown ⟨liveness, .inl ((read_continued 100).trans hlive)⟩

/-- The worker of the first processor is refused at its next renewal. -/
theorem heartbeat_late : ∃ e, (LeaseCall.heartbeat "engine-a" (some 1)).run Tally.codec
    (named "laptop") continuedLock 100 = .error e := by
  refine heartbeat_refused fun last hlast => ?_
  rw [standing_continued] at hlast
  obtain rfl := Option.some.inj hlast
  decide

/-- Its final release takes the record of the other. -/
theorem release_late : (LeaseCall.release "engine-a").run Tally.codec (named "laptop")
    continuedLock 100 = .ok (.released true, .absent) := by
  obtain ⟨liveness, hlive⟩ := inTime_continued
  have hstatus := (read_continued 100).trans hlive
  have howner : validateOwner "engine-a" = .ok () := demand_true (by decide)
  have hmine : ¬ continuedRecord.ownerId ≠ "engine-a" := fun h => h rfl
  have hrelease : release Tally.codec continuedLock "engine-a" 100 = .ok (true, .absent) :=
    bind_eq_ok.2 ⟨(), howner, bind_eq_ok.2 ⟨_, hstatus, if_neg hmine⟩⟩
  exact bind_eq_ok.2 ⟨_, hrelease, rfl⟩

theorem sample_address :
    processorResumeAddressMatches (named "laptop") (leaseRecord "laptop") "/repo" = true := by
  decide +kernel

end Sample

namespace Sample

/-- Two processes over one lock. -/
def pair (lock : LockEntry) (clock : Nat) (first second : Option EngineProcess) : EngineWorld Bool :=
  ⟨lock, clock, fun p => if p = true then second else first⟩

theorem pair_first {lock : LockEntry} {clock : Nat} {a b new : Option EngineProcess} :
    (pair lock clock a b).setProc false new = pair lock clock new b := by
  unfold pair setProc
  congr 1
  funext p
  cases p <;> rfl

theorem pair_second {lock : LockEntry} {clock : Nat} {a b new : Option EngineProcess} :
    (pair lock clock a b).setProc true new = pair lock clock a new := by
  unfold pair setProc
  congr 1
  funext p
  cases p <;> rfl

/-- The first process is at work. -/
def working : Option EngineProcess :=
  some ⟨startOf false "engine-a", 100, .running (leaseRecord "laptop") false⟩

/-- The second process asks while the first is at work. -/
def contested : EngineWorld Bool :=
  pair (acquiredLock "laptop") 100 working (some ⟨startOf false "engine-b", 100, .asking⟩)

/-- The second process has adopted the record of the first, which crashed. -/
def succeeded : EngineWorld Bool :=
  pair adoptedLock 200 none
    (some ⟨startOf true "engine-b", 200, .running adoptedRecord false⟩)

def guard (w : EngineWorld Bool) (a : EngineAction Bool) : Prop :=
  Sole Tally.codec w a ∧ Prompt Tally.codec w a

/-- The other process of a pair has nothing, or another owner id and is in time. -/
theorem guard_go {w : EngineWorld Bool} {p : Bool} {proc : EngineProcess}
    (hproc : w.procs p = some proc)
    (hother : ∀ call owner, proc.acquisition = some call →
      call.Names Tally.codec w.lock proc.asked owner → w.claim (!p) ≠ some owner)
    (hlive : ∀ record, w.authority (!p) = some record → InTime w.clock record) : guard w (.go p) := by
  have hnot : ∀ q, q ≠ p → q = !p := fun q hq => by cases p <;> cases q <;> simp_all
  constructor
  · intro proc' call owner hproc' hcall hnames q hq
    obtain rfl := Option.some.inj (hproc.symm.trans hproc')
    rw [hnot q hq]
    exact hother call owner hcall hnames
  · intro proc' call owner hproc' hcall hnames q record hq hauthority
    exact hlive record (hnot q hq ▸ hauthority)

theorem begun (first : Option EngineProcess) (lock : LockEntry) (clock : Nat) (start : EngineStart)
    (httl : start.ttlSeconds ≤ u64Max) : (pair lock clock first none).next Tally.codec
      (.begin true start) = some (pair lock clock first (some ⟨start, clock, .asking⟩)) := by
  rw [next_begin (by rfl) httl, pair_second]
  rfl

/-- The first process acquires, and the second begins. -/
theorem reach_contested : Reach (EngineWorld.next Tally.codec) guard quiet contested := by
  have hquiet : quiet = pair .absent 100 none none := by
    unfold quiet pair
    congr 1
    funext p
    cases p <;> rfl
  have hbegin : quiet.next Tally.codec (.begin false (startOf false "engine-a")) =
      some (pair .absent 100 (some ⟨startOf false "engine-a", 100, .asking⟩) none) := by
    rw [hquiet, next_begin (by rfl) (by decide), pair_first]
    rfl
  have hgo : (pair .absent 100 (some ⟨startOf false "engine-a", 100, .asking⟩) none).next Tally.codec
      (.go false) = some (pair (acquiredLock "laptop") 100 working none) := by
    have hgranted := next_granted (p := false)
      (w := pair .absent 100 (some ⟨startOf false "engine-a", 100, .asking⟩) none) rfl rfl
      (acquire_vacant document_short.1)
    exact hgranted.trans (congrArg some pair_first)
  have hguard : guard (pair .absent 100 (some ⟨startOf false "engine-a", 100, .asking⟩) none)
      (.go false) := guard_go rfl (fun call owner _ _ => by simp [claim, pair])
        fun record h => by simp [authority, pair] at h
  exact ((Reach.refl.step (show guard quiet (.begin false (startOf false "engine-a")) from
    ⟨trivial, trivial⟩) hbegin).step hguard hgo).step
    (show guard _ (.begin true (startOf false "engine-b")) from ⟨trivial, trivial⟩)
    (begun working _ 100 _ (by decide))

/-- The second process has an owner id of its own, and the first is in time. -/
theorem guard_contested : guard contested (.go true) := by
  refine guard_go rfl (fun call owner hcall hnames => ?_) fun record h => ?_
  · obtain rfl := Option.some.inj hcall
    obtain ⟨c, hc, rfl, -⟩ := hnames
    obtain rfl := Option.some.inj hc
    simp [claim, contested, pair, working, EnginePoint.claim, startOf, leaseRecord, newRecord]
  · obtain rfl : leaseRecord "laptop" = record := by
      simpa [authority, contested, pair, working] using h
    exact inTime_first

theorem read_expired : readStatus Tally.codec (acquiredLock "laptop") 200 =
    .ok (.stale (leaseRecord "laptop") ⟨false, 100, "heartbeat"⟩) := by
  rw [read_acquired]
  exact judge_stale heartbeat_acquired (by decide) (by decide)

/-- A live record refuses a first acquisition. -/
theorem acquire_live {lock : LockEntry} {now : Nat} {record : LeaseRecord} {liveness : LeaseLiveness}
    (h : readStatus Tally.codec lock now = .ok (.live record liveness)) (owner root : String)
    (ttl : Nat) : (LeaseCall.acquire owner root ttl).run Tally.codec (named "laptop") lock now =
      .error (.heldLive record.ownerId record.role) := by
  have hacquire : LeaseStore.acquire Tally.codec (named "laptop") lock owner root ttl now =
      .error (.heldLive record.ownerId record.role) := by
    unfold LeaseStore.acquire
    rw [h]
    rfl
  simp only [LeaseCall.run]
  rw [hacquire]
  rfl

theorem next_refused : contested.next Tally.codec (.go true) =
    some (pair (acquiredLock "laptop") 100 working none) := by
  obtain ⟨liveness, hlive⟩ := inTime_first
  have hdenied := next_denied (w := contested) (p := true) rfl rfl
    (acquire_live ((read_acquired 100).trans hlive) "engine-b" "/repo" 10)
  exact hdenied.trans (congrArg some pair_second)

theorem next_adopting : (pair (acquiredLock "laptop") 200 none
    (some ⟨startOf true "engine-b", 200, .asking⟩)).next Tally.codec (.go true) =
    some (pair (acquiredLock "laptop") 200 none
      (some ⟨startOf true "engine-b", 200, .adopting⟩)) := by
  have hfirst := next_resume (p := true)
    (w := pair (acquiredLock "laptop") 200 none (some ⟨startOf true "engine-b", 200, .asking⟩))
    rfl rfl rfl read_expired
  have haddress : processorResumeAddressMatches (startOf true "engine-b").host
      (leaseRecord "laptop") (startOf true "engine-b").root = true := sample_address
  have hpoint : resumePoint (startOf true "engine-b")
      (.stale (leaseRecord "laptop") ⟨false, 100, "heartbeat"⟩) = .adopting := by
    simp only [resumePoint, haddress, if_true]
  rw [hpoint] at hfirst
  exact hfirst.trans (congrArg some pair_second)

theorem next_adopted : (pair (acquiredLock "laptop") 200 none
    (some ⟨startOf true "engine-b", 200, .adopting⟩)).next Tally.codec (.go true) =
    some succeeded := by
  have haddress := sample_address
  simp only [processorResumeAddressMatches, Bool.and_eq_true, decide_eq_true_eq] at haddress
  have htake := takeoverAddressed_of_stale
    read_expired haddress.1 haddress.2 (by decide) (demand_true (by decide)) (by decide)
    write_adopted
  have hgranted := next_granted (p := true)
    (w := pair (acquiredLock "laptop") 200 none
      (some ⟨startOf true "engine-b", 200, .adopting⟩)) rfl rfl htake
  exact hgranted.trans (congrArg some pair_second)

/-- The second process is refused, the first one crashes, and a `--continue` adopts its record. -/
theorem reach_succeeded : Reach (EngineWorld.next Tally.codec) guard quiet succeeded := by
  have hcrash : (pair (acquiredLock "laptop") 100 working none).next Tally.codec (.crash false) =
      some (pair (acquiredLock "laptop") 100 none none) :=
    congrArg some (pair_first (a := working))
  have htick : (pair (acquiredLock "laptop") 100 none none).next Tally.codec (.tick 200) =
      some (pair (acquiredLock "laptop") 200 none none) := by
    have hlater : (pair (acquiredLock "laptop") 100 none none).clock ≤ 200 :=
      show (100 : Nat) ≤ 200 by decide
    rw [EngineWorld.next, if_pos hlater]
    rfl
  have hbegin := begun none (acquiredLock "laptop") 200 (startOf true "engine-b") (by decide)
  have hfree : ∀ point, guard (pair (acquiredLock "laptop") 200 none
      (some ⟨startOf true "engine-b", 200, point⟩)) (.go true) := fun point =>
    guard_go rfl (fun call owner _ _ => by simp [claim, pair])
      fun record h => by simp [authority, pair] at h
  have hrefused := reach_contested.step guard_contested next_refused
  have hcrashed := hrefused.step (show guard _ (.crash false) from ⟨trivial, trivial⟩) hcrash
  have hlate := hcrashed.step (show guard _ (.tick 200) from ⟨trivial, trivial⟩) htick
  have hbegun := hlate.step
    (show guard _ (.begin true (startOf true "engine-b")) from ⟨trivial, trivial⟩) hbegin
  exact (hbegun.step (hfree _) next_adopting).step (hfree _) next_adopted

end Sample

/-- A second process is refused while the first is at work; once the first has crashed and its record
has run out, a `--continue` adopts it and is the only one with authority. -/
theorem one_processor_succeeded :
    (∃ u, Sample.contested.next Tally.codec (.go true) = some u ∧
      u.lock = Sample.contested.lock ∧ u.authority true = none) ∧
    Sample.succeeded.authority true = some Sample.adoptedRecord ∧
    ∀ q record, Sample.succeeded.authority q = some record → q = true := by
  have hreach := Sample.reach_succeeded
  have hsole : Reach (EngineWorld.next Tally.codec) (Sole Tally.codec) Sample.quiet
      Sample.contested := Sample.reach_contested.mono fun _ _ h => h.1
  have hcontested := one_processor Sample.tally_reads (fun _ => rfl) hsole
  have hsucceeded := one_processor Sample.tally_reads (fun _ => rfl) (hreach.mono fun _ _ h => h.1)
  have hfirst : Sample.contested.Holds false := ⟨_, rfl, Sample.inTime_first⟩
  have hrefused := hcontested.2.2.1 false true _ hfirst (by decide)
    Sample.guard_contested.1 Sample.next_refused
  exact ⟨⟨_, Sample.next_refused, hrefused⟩, rfl, fun q record hq =>
    hsucceeded.2.2.2.2.2 hreach q true record Sample.adoptedRecord hq rfl⟩

/-- **Two processors**: a `--continue` renews the record of a processor at work, both hold authority
in time, and the final release of the first takes the record away from under the second. -/
theorem one_processor_broken :
    ∃ w u : EngineWorld Bool,
      Reach (EngineWorld.next Tally.codec) (fun _ _ => True) Sample.quiet w ∧
      w.Holds false ∧ w.Holds true ∧
      Reach (EngineWorld.next Tally.codec) (fun _ _ => True) w u ∧
      u.Holds true ∧ standing Tally.codec u.lock = none := by
  obtain ⟨liveness, hlive⟩ := Sample.inTime_first
  have hsharing : ∃ u, exec (EngineWorld.next Tally.codec) Sample.quiet
        (sharing (Sample.startOf false "engine-a") (Sample.startOf true "engine-b")) = some u ∧
      u.lock = Sample.continuedLock ∧ u.clock = Sample.quiet.clock ∧
      u.procs false = some ⟨Sample.startOf false "engine-a", Sample.quiet.clock,
        .running (Sample.leaseRecord "laptop") false⟩ ∧
      u.procs true = some ⟨Sample.startOf true "engine-b", Sample.quiet.clock,
        .running Sample.continuedRecord false⟩ :=
    exec_sharing rfl rfl (by decide) (by decide) (Sample.acquire_vacant Sample.document_short.1)
      ((Sample.read_acquired 100).trans hlive) Sample.sample_address Sample.heartbeat_first
      (fun _ => rfl)
  obtain ⟨w, hw, hlock, hclock, hfirst, hsecond⟩ := hsharing
  obtain ⟨failure, hlate⟩ := Sample.heartbeat_late
  have hparting : ∃ u, exec (EngineWorld.next Tally.codec) w (parting 100) = some u ∧
      u.lock = .absent ∧ u.clock = w.clock ∧ u.procs true = w.procs true :=
    exec_parting hfirst (by rw [hclock]; exact le_rfl) (by rw [hlock]; exact hlate)
      (by rw [hlock]; exact Sample.release_late)
  obtain ⟨u, hu, hulock, huclock, husecond⟩ := hparting
  have hholds : ∀ {v : EngineWorld Bool}, v.clock = 100 →
      v.procs true = some ⟨Sample.startOf true "engine-b", 100, .running Sample.continuedRecord false⟩ →
      v.Holds true := by
    intro v hv hproc
    refine ⟨Sample.continuedRecord, by simp [authority, hproc], ?_⟩
    rw [hv]
    exact Sample.inTime_continued
  refine ⟨w, u, exec_reach hw, ⟨Sample.leaseRecord "laptop", by simp [authority, hfirst], ?_⟩,
    hholds hclock hsecond, exec_reach hu, hholds (huclock.trans hclock) (husecond.trans hsecond), ?_⟩
  · rw [hclock]
    exact Sample.inTime_first
  · rw [hulock]
    rfl

end Orchestrail
