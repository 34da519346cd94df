import Mathlib.Data.List.Basic
import Orchestrail.Proof.Lease
import Orchestrail.Spec.Approval

/-!
# What an approval stands for

One call changes the record of one id, or none: it opens a record where there was none, decides an
open one, or clears the mark of its notification (`ApprovalFiles.changed`).
-/

namespace Orchestrail

open Text Outcome Steps

/-! ## The document of a record -/

namespace ApprovalRecord

open LeaseRecord (textField_text optionalField_optionalText numberField_integer numberField_le)

/-- The numbers are those of a `u64`. -/
structure Fits (record : ApprovalRecord) : Prop where
  createdAtSecs : record.createdAtSecs ≤ u64Max
  deadlineAtSecs : record.deadlineAtSecs ≤ u64Max
  decidedAtSecs : ∀ n, record.decidedAtSecs = some n → n ≤ u64Max

variable {record : ApprovalRecord} {obj : List (String × Json)} {field : String}

theorem optionalNumberField_optionalNumber {n : Option Nat}
    (h : obj.lookup field = some (optionalNumber n)) (hn : ∀ m, n = some m → m ≤ u64Max) :
    optionalNumberField obj field = .ok n := by
  cases n with
  | none =>
    unfold optionalNumberField
    rw [h]
    rfl
  | some m =>
    have hfield : LeaseRecord.numberField u64Max obj field = .ok m :=
      numberField_integer h (hn m rfl)
    unfold optionalNumberField
    rw [h]
    change (LeaseRecord.numberField u64Max obj field).map some = .ok (some m)
    rw [hfield]
    rfl

theorem optionalNumberField_le {n? : Option Nat} (h : optionalNumberField obj field = .ok n?) :
    ∀ n, n? = some n → n ≤ u64Max := by
  intro n hn
  subst hn
  unfold optionalNumberField at h
  split at h
  · cases h
  · cases h
  · cases hfield : LeaseRecord.numberField u64Max obj field with
    | error e => rw [hfield] at h; cases h
    | ok m =>
      rw [hfield] at h
      obtain rfl := Option.some.inj (Except.ok.inj h)
      exact numberField_le hfield

theorem decisionField_asStr {d : Option ApprovalDecision}
    (h : obj.lookup "decision" = some (LeaseRecord.optionalText (d.map ApprovalDecision.asStr))) :
    decisionField obj = .ok d := by
  unfold decisionField
  rw [optionalField_optionalText h]
  cases d with
  | none => rfl
  | some d => cases d <;> rfl

/-- **A record is read back** from its document. -/
theorem fromJson_toJson (h : record.Fits) : fromJson record.toJson = .ok record := by
  unfold toJson fromJson
  dsimp only
  rw [textField_text (s := record.schema) rfl, textField_text (s := record.id) rfl,
    textField_text (s := record.subject) rfl, optionalField_optionalText (s := record.taskId) rfl,
    optionalField_optionalText (s := record.batchId) rfl, textField_text (s := record.reason) rfl,
    textField_text (s := record.fingerprint) rfl, textField_text (s := record.policyHash) rfl,
    numberField_integer (n := record.createdAtSecs) rfl h.createdAtSecs,
    numberField_integer (n := record.deadlineAtSecs) rfl h.deadlineAtSecs,
    decisionField_asStr (d := record.decision) rfl,
    optionalField_optionalText (s := record.decidedBy) rfl,
    optionalNumberField_optionalNumber (n := record.decidedAtSecs) rfl h.decidedAtSecs,
    optionalField_optionalText (s := record.note) rfl]
  rfl

/-- What is read is of the source's types. -/
theorem fits_of_fromJson {value : Json} (h : fromJson value = .ok record) : record.Fits := by
  cases value with
  | object obj =>
    unfold fromJson at h
    simp only [bind_eq_ok] at h
    obtain ⟨_, _, _, _, _, _, _, _, _, _, _, _, _, _, _, _, created, hcreated, deadline, hdeadline,
      _, _, _, _, _, _, decided, hdecided, _, _, h⟩ := h
    obtain rfl := Except.ok.inj h
    exact ⟨numberField_le hcreated, numberField_le hdeadline, optionalNumberField_le hdecided⟩
  | _ => cases h

/-- What a later record of one id keeps of an earlier one. -/
structure Continues (later earlier : ApprovalRecord) : Prop where
  subject : later.subject = earlier.subject
  taskId : later.taskId = earlier.taskId
  batchId : later.batchId = earlier.batchId
  reason : later.reason = earlier.reason
  fingerprint : later.fingerprint = earlier.fingerprint
  policyHash : later.policyHash = earlier.policyHash
  createdAtSecs : later.createdAtSecs = earlier.createdAtSecs
  deadlineAtSecs : later.deadlineAtSecs = earlier.deadlineAtSecs
  verdict : earlier.decision.isSome = true →
    later.decision = earlier.decision ∧ later.decidedBy = earlier.decidedBy ∧
      later.decidedAtSecs = earlier.decidedAtSecs ∧ later.note = earlier.note

theorem Continues.refl (record : ApprovalRecord) : record.Continues record :=
  ⟨rfl, rfl, rfl, rfl, rfl, rfl, rfl, rfl, fun _ => ⟨rfl, rfl, rfl, rfl⟩⟩

theorem Continues.trans {a b c : ApprovalRecord} (hcb : c.Continues b) (hba : b.Continues a) :
    c.Continues a where
  subject := hcb.subject.trans hba.subject
  taskId := hcb.taskId.trans hba.taskId
  batchId := hcb.batchId.trans hba.batchId
  reason := hcb.reason.trans hba.reason
  fingerprint := hcb.fingerprint.trans hba.fingerprint
  policyHash := hcb.policyHash.trans hba.policyHash
  createdAtSecs := hcb.createdAtSecs.trans hba.createdAtSecs
  deadlineAtSecs := hcb.deadlineAtSecs.trans hba.deadlineAtSecs
  verdict hdecided := by
    obtain ⟨h₁, h₂, h₃, h₄⟩ := hba.verdict hdecided
    obtain ⟨g₁, g₂, g₃, g₄⟩ := hcb.verdict (h₁ ▸ hdecided)
    exact ⟨g₁.trans h₁, g₂.trans h₂, g₃.trans h₃, g₄.trans h₄⟩

end ApprovalRecord

/-! ## Files and their records -/

theorem length_of_validateApprovalId {id : String} (h : validateApprovalId id = .ok ()) :
    id.toList.length = 36 := by
  unfold validateApprovalId stripFront at h
  split at h
  · cases h
  · rename_i hex hstrip
    have hhex := demand_eq_ok.1 h
    unfold isHex at hhex
    simp only [String.toList_ofList, Bool.and_eq_true, beq_iff_eq] at hhex
    split at hstrip
    · rename_i hprefix
      have hle := (List.isPrefixOf_iff_prefix.1 hprefix).length_le
      have hfront : "apr-".toList.length = 4 := by decide
      have hdrop : (id.toList.drop 4).length = 32 := by
        rw [← hfront, Option.some.inj hstrip]
        exact hhex.1
      rw [List.length_drop] at hdrop
      omega
    · cases hstrip

theorem recordFile_inj {id id' : String} (h : recordFile id = recordFile id') : id = id' := by
  unfold recordFile at h
  exact String.append_left_inj ".json" |>.1 (by simpa [toString] using h)

/-- A manifest never stands where a record does. -/
theorem manifestFile_ne_recordFile {id id' : String} (h : validateApprovalId id = .ok ())
    (h' : validateApprovalId id' = .ok ()) : manifestFile id ≠ recordFile id' := by
  intro heq
  have hlength := congrArg (fun s => s.toList.length) heq
  have hid := length_of_validateApprovalId h
  have hid' := length_of_validateApprovalId h'
  simp only [manifestFile, recordFile, toString, String.toList_append, List.length_append, hid,
    hid'] at hlength
  exact absurd hlength (by decide)

section Files

variable {serde : Serde} {digest : String → String} {files files' : ApprovalFiles} {id : String}
variable {record : ApprovalRecord} {file : Replacement}

open ApprovalStore

theorem put_ne {name : String} (h : file.name ≠ name) : (files.put file) name = files name :=
  if_neg fun heq => h heq.symm

/-- What a record that is read has passed. -/
theorem load_spec (h : load serde files id = .ok (some record)) :
    validateApprovalId id = .ok () ∧ validateApprovalRecord record id = .ok () ∧ record.id = id ∧
      record.Fits := by
  unfold load at h
  obtain ⟨_, hid, h⟩ := bind_eq_ok.1 h
  refine ⟨hid, ?_⟩
  split at h
  · cases h
  · obtain ⟨_, -, h⟩ := bind_eq_ok.1 h
    obtain ⟨read, hread, h⟩ := bind_eq_ok.1 h
    obtain ⟨_, hvalid, h⟩ := bind_eq_ok.1 h
    obtain rfl := Option.some.inj (Except.ok.inj h)
    refine ⟨hvalid, ?_, ?_⟩
    · obtain ⟨_, -, hvalid⟩ := bind_eq_ok.1 hvalid
      obtain ⟨_, hsame, -⟩ := bind_eq_ok.1 hvalid
      exact demand_eq_ok.1 hsame
    · unfold readApproval at hread
      cases hvalue : serde.read _ with
      | error e => rw [hvalue] at hread; cases hread
      | ok value =>
        rw [hvalue] at hread
        change (ApprovalRecord.fromJson value).mapError ApprovalError.json = .ok read at hread
        cases hjson : ApprovalRecord.fromJson value with
        | error e => rw [hjson] at hread; cases hread
        | ok json =>
          rw [hjson] at hread
          obtain rfl := Except.ok.inj hread
          exact ApprovalRecord.fits_of_fromJson hjson

theorem existing_eq_ok : existing serde files id = .ok record ↔
    load serde files id = .ok (some record) := by
  unfold existing
  constructor
  · intro h
    obtain ⟨found, hload, h⟩ := bind_eq_ok.1 h
    cases found with
    | none => cases h
    | some found =>
      obtain ⟨_, -, h⟩ := bind_eq_ok.1 h
      obtain rfl := Except.ok.inj h
      exact hload
  · intro h
    rw [h]
    change (validateApprovalRecord record id >>= fun _ => Except.ok record) = _
    rw [(load_spec h).2.1]
    rfl

theorem replacePlain_eq_ok {name content : String} (h : replacePlain name content = .ok file) :
    file = ⟨name, content⟩ ∧ (utf8 content).length ≤ maxApprovalBytes := by
  unfold replacePlain at h
  obtain ⟨_, hshort, h⟩ := bind_eq_ok.1 h
  exact ⟨(Except.ok.inj h).symm, demand_eq_ok.1 hshort⟩

/-- The text of a record is read back as the record it was written from. -/
def Serde.KeepsApprovals (serde : Serde) : Prop :=
  ∀ record : ApprovalRecord, record.Fits →
    serde.read (serde.render record.toJson ++ "\n") = .ok record.toJson

/-- **A saved record is the one that is loaded.** -/
theorem load_saved (hserde : serde.KeepsApprovals) (hfits : record.Fits)
    (h : save serde record = .ok file) : load serde (files.put file) record.id = .ok (some record) := by
  unfold save at h
  obtain ⟨_, hvalid, h⟩ := bind_eq_ok.1 h
  obtain ⟨rfl, hshort⟩ := replacePlain_eq_ok h
  have hid : validateApprovalId record.id = .ok () := by
    obtain ⟨_, -, hrest⟩ := bind_eq_ok.1 hvalid
    obtain ⟨_, -, hrest⟩ := bind_eq_ok.1 hrest
    obtain ⟨_, hid, -⟩ := bind_eq_ok.1 hrest
    exact hid
  have hread : readApproval serde (serde.render record.toJson ++ "\n") = .ok record := by
    unfold readApproval
    rw [hserde record hfits]
    exact ApprovalRecord.fromJson_toJson hfits
  have hput : files.put ⟨recordFile record.id, serde.render record.toJson ++ "\n"⟩
      (recordFile record.id) = some (serde.render record.toJson ++ "\n") := if_pos rfl
  unfold load
  rw [hid, hput]
  change (demand _ _ >>= fun _ => _) = _
  rw [demand_true hshort]
  change ((readApproval serde _).mapError ApprovalError.json >>= fun _ => _) = _
  rw [hread]
  change (validateApprovalRecord record record.id >>= fun _ => _) = _
  rw [hvalid]
  rfl

theorem save_name (h : save serde record = .ok file) : file.name = recordFile record.id := by
  unfold save at h
  obtain ⟨_, -, h⟩ := bind_eq_ok.1 h
  obtain ⟨rfl, -⟩ := replacePlain_eq_ok h
  rfl

theorem load_put_ne (h : file.name ≠ recordFile id) :
    load serde (files.put file) id = load serde files id := by
  unfold load
  rw [put_ne h]

/-! ## What a call answers -/

theorem save_of (hvalid : validateApprovalRecord record record.id = .ok ())
    (hshort : (utf8 (serde.render record.toJson ++ "\n")).length ≤ maxApprovalBytes) :
    save serde record = .ok ⟨recordFile record.id, serde.render record.toJson ++ "\n"⟩ :=
  bind_eq_ok.2 ⟨(), hvalid, bind_eq_ok.2 ⟨(), demand_true hshort, rfl⟩⟩

theorem load_of_none (hid : validateApprovalId id = .ok ()) (h : files (recordFile id) = none) :
    load serde files id = .ok none := by
  refine bind_eq_ok.2 ⟨(), hid, ?_⟩
  rw [h]

/-- A request for which there is no record opens one. -/
theorem request_of_none {asked : ApprovalRequest} {subject : String}
    (hvalid : validateApprovalRequest asked = .ok ()) (hsubject : approvalSubject asked = .ok subject)
    (hid : id = approvalId digest subject asked.reason asked.fingerprint asked.policyHash)
    (hload : load serde files id = .ok none) (hsave : save serde (opened asked subject id) = .ok file) :
    request serde digest files asked = .ok (opened asked subject id, some file) := by
  subst hid
  exact bind_eq_ok.2 ⟨(), hvalid, bind_eq_ok.2 ⟨subject, hsubject, bind_eq_ok.2 ⟨none, hload,
    bind_eq_ok.2 ⟨file, hsave, rfl⟩⟩⟩⟩

/-- A request for which there is a record is answered with it. -/
theorem request_of_some {asked : ApprovalRequest} {subject : String}
    (hvalid : validateApprovalRequest asked = .ok ()) (hsubject : approvalSubject asked = .ok subject)
    (hid : id = approvalId digest subject asked.reason asked.fingerprint asked.policyHash)
    (hload : load serde files id = .ok (some record)) :
    request serde digest files asked = .ok (record, none) := by
  have hrecord := (load_spec hload).2.1
  subst hid
  exact bind_eq_ok.2 ⟨(), hvalid, bind_eq_ok.2 ⟨subject, hsubject, bind_eq_ok.2 ⟨some record, hload,
    bind_eq_ok.2 ⟨(), hrecord, rfl⟩⟩⟩⟩

/-! ## What a call writes -/

/-- A call writes a file as part of an answer. -/
theorem written_answer {α : Type} {x : Approval (α × Option Replacement)}
    (h : x.toOption.bind (·.2) = some file) : ∃ a, x = .ok (a, some file) := by
  cases x with
  | error e => cases h
  | ok answer =>
    obtain ⟨a, file?⟩ := answer
    obtain rfl : file? = some file := h
    exact ⟨a, rfl⟩

/-- **A request opens a record** only where there is none. -/
theorem request_writes {asked : ApprovalRequest}
    (h : (request serde digest files asked).toOption.bind (·.2) = some file) :
    ∃ subject, approvalSubject asked = .ok subject ∧
      load serde files (approvalId digest subject asked.reason asked.fingerprint asked.policyHash) =
        .ok none ∧
      save serde (opened asked subject
        (approvalId digest subject asked.reason asked.fingerprint asked.policyHash)) = .ok file := by
  obtain ⟨answer, hrun⟩ := written_answer h
  unfold request at hrun
  obtain ⟨_, -, hrun⟩ := bind_eq_ok.1 hrun
  obtain ⟨subject, hsubject, hrun⟩ := bind_eq_ok.1 hrun
  obtain ⟨found, hload, hrun⟩ := bind_eq_ok.1 hrun
  cases found with
  | some record =>
    obtain ⟨_, -, hrun⟩ := bind_eq_ok.1 hrun
    cases Except.ok.inj hrun
  | none =>
    obtain ⟨saved, hsave, hrun⟩ := bind_eq_ok.1 hrun
    cases Except.ok.inj hrun
    exact ⟨subject, hsubject, hload, hsave⟩

/-- The record a decision makes of an open one. -/
def ApprovalRecord.decided (record : ApprovalRecord) (decision : ApprovalDecision)
    (decider : String) (note : Option String) (nowSecs : Nat) : ApprovalRecord :=
  { record with
    decision := some decision
    decidedBy := some decider
    decidedAtSecs := some nowSecs
    note := note }

/-- An open record is decided within its deadline. -/
theorem decide_of_open {decision : ApprovalDecision} {decider : String} {note : Option String}
    {nowSecs : Nat} (hdecider : validateText decider "decision maker" = .ok ())
    (hnote : validateOptionalNote note = .ok ()) (hload : load serde files id = .ok (some record))
    (hopen : ¬record.decision.isSome) (hdeadline : ¬record.deadlineAtSecs < nowSecs)
    (hsave : save serde (record.decided decision decider note nowSecs) = .ok file) :
    ApprovalStore.decide serde files id decision decider note nowSecs =
      .ok (record.decided decision decider note nowSecs, some file) :=
  bind_eq_ok.2 ⟨(), (load_spec hload).1, bind_eq_ok.2 ⟨(), hdecider, bind_eq_ok.2 ⟨(), hnote,
    bind_eq_ok.2 ⟨record, existing_eq_ok.2 hload, bind_eq_ok.2 ⟨(), demand_true hopen,
      bind_eq_ok.2 ⟨(), demand_true hdeadline, bind_eq_ok.2 ⟨file, hsave, rfl⟩⟩⟩⟩⟩⟩⟩

/-- **A decision is written** over an open record within its deadline. -/
theorem decide_writes {decision : ApprovalDecision} {decider : String} {note : Option String}
    {nowSecs : Nat}
    (h : (ApprovalStore.decide serde files id decision decider note nowSecs).toOption.bind (·.2) =
      some file) :
    ∃ record, load serde files id = .ok (some record) ∧ record.decision = none ∧
      nowSecs ≤ record.deadlineAtSecs ∧
      save serde (record.decided decision decider note nowSecs) = .ok file := by
  obtain ⟨answer, hrun⟩ := written_answer h
  unfold ApprovalStore.decide at hrun
  obtain ⟨_, -, hrun⟩ := bind_eq_ok.1 hrun
  obtain ⟨_, -, hrun⟩ := bind_eq_ok.1 hrun
  obtain ⟨_, -, hrun⟩ := bind_eq_ok.1 hrun
  obtain ⟨record, hexisting, hrun⟩ := bind_eq_ok.1 hrun
  obtain ⟨_, hopen, hrun⟩ := bind_eq_ok.1 hrun
  obtain ⟨_, hdeadline, hrun⟩ := bind_eq_ok.1 hrun
  obtain ⟨saved, hsave, hrun⟩ := bind_eq_ok.1 hrun
  cases Except.ok.inj hrun
  exact ⟨record, existing_eq_ok.1 hexisting, by simpa using demand_eq_ok.1 hopen,
    Nat.not_lt.1 (demand_eq_ok.1 hdeadline), hsave⟩

theorem clearNotificationPending_writes
    (h : (clearNotificationPending serde files id).toOption.bind (·.2) = some file) :
    ∃ record, load serde files id = .ok (some record) ∧
      save serde { record with notificationPending := false } = .ok file := by
  obtain ⟨answer, hrun⟩ := written_answer h
  unfold clearNotificationPending at hrun
  obtain ⟨_, -, hrun⟩ := bind_eq_ok.1 hrun
  obtain ⟨record, hexisting, hrun⟩ := bind_eq_ok.1 hrun
  split at hrun
  · obtain ⟨saved, hsave, hrun⟩ := bind_eq_ok.1 hrun
    cases Except.ok.inj hrun
    exact ⟨record, existing_eq_ok.1 hexisting, hsave⟩
  · cases Except.ok.inj hrun

theorem saveManifest_writes {manifest : ApprovalManifest}
    (h : (saveManifest serde files id manifest).toOption.bind (·.2) = some file) :
    validateApprovalId id = .ok () ∧ file.name = manifestFile id := by
  obtain ⟨answer, hrun⟩ := written_answer h
  unfold saveManifest at hrun
  obtain ⟨_, hid, hrun⟩ := bind_eq_ok.1 hrun
  obtain ⟨_, -, hrun⟩ := bind_eq_ok.1 hrun
  obtain ⟨_, -, hrun⟩ := bind_eq_ok.1 hrun
  obtain ⟨_, -, hrun⟩ := bind_eq_ok.1 hrun
  obtain ⟨saved, hsave, hrun⟩ := bind_eq_ok.1 hrun
  cases Except.ok.inj hrun
  obtain ⟨rfl, -⟩ := replacePlain_eq_ok hsave
  exact ⟨hid, rfl⟩

/-! ## What a step changes -/

variable (serde digest files id) in
/-- A decision on an id whose write was made. -/
def ApprovalFiles.Decides (step : ApprovalCall × ApprovalFault) (decision : ApprovalDecision)
    (decider : String) (note : Option String) (nowSecs : Nat) : Prop :=
  step.1 = .decide id decision decider note nowSecs ∧
    (files.durable serde digest step).isSome = true

variable (serde digest files id) in
/-- A request whose write opened the record of an id. -/
def ApprovalFiles.Opens (step : ApprovalCall × ApprovalFault) (asked : ApprovalRequest)
    (subject : String) : Prop :=
  step.1 = .request asked ∧ (files.durable serde digest step).isSome = true ∧
    approvalSubject asked = .ok subject ∧
    id = approvalId digest subject asked.reason asked.fingerprint asked.policyHash

variable (serde digest files id) in
/-- What a step does to the record of an id: from what was loaded to what is loaded. -/
inductive ApprovalFiles.Changes (step : ApprovalCall × ApprovalFault) :
    Approval (Option ApprovalRecord) → Approval (Option ApprovalRecord) → Prop
  | same (shown : Approval (Option ApprovalRecord)) : Changes step shown shown
  | opened (asked : ApprovalRequest) (subject : String)
      (hopens : files.Opens serde digest id step asked subject) :
      Changes step (.ok none) (.ok (some (ApprovalStore.opened asked subject id)))
  | decided (record : ApprovalRecord) (decision : ApprovalDecision) (decider : String)
      (note : Option String) (nowSecs : Nat)
      (hdecides : files.Decides serde digest id step decision decider note nowSecs)
      (hopen : record.decision = none) (hdeadline : nowSecs ≤ record.deadlineAtSecs) :
      Changes step (.ok (some record)) (.ok (some (record.decided decision decider note nowSecs)))
  | notified (record : ApprovalRecord) :
      Changes step (.ok (some record)) (.ok (some { record with notificationPending := false }))

variable {step : ApprovalCall × ApprovalFault}

theorem ApprovalFiles.durable_writes (h : files.durable serde digest step = some file) :
    files.writes serde digest step.1 = some file := by
  unfold ApprovalFiles.durable at h
  cases hfault : step.2 with
  | before => rw [hfault] at h; cases h
  | none => rw [hfault] at h; exact h
  | after => rw [hfault] at h; exact h

/-- A step leaves the files alone, or puts what its call writes. -/
theorem ApprovalFiles.next_cases (h : files.next serde digest step = some files') :
    step.1.isU64 = true ∧ (files' = files ∧ files.durable serde digest step = none ∨
      ∃ file, files' = files.put file ∧ files.durable serde digest step = some file) := by
  unfold ApprovalFiles.next at h
  split at h
  · rename_i hu64
    refine ⟨hu64, ?_⟩
    cases hdurable : files.durable serde digest step with
    | none => rw [hdurable] at h; exact .inl ⟨(Option.some.inj h).symm, rfl⟩
    | some file => rw [hdurable] at h; exact .inr ⟨file, (Option.some.inj h).symm, rfl⟩
  · cases h

theorem ApprovalFiles.next_of_writes (hu64 : step.1.isU64 = true) (hfault : step.2 ≠ .before)
    (h : files.writes serde digest step.1 = some file) :
    files.next serde digest step = some (files.put file) := by
  have hdurable : files.durable serde digest step = some file := by
    unfold ApprovalFiles.durable
    cases hstep : step.2 with
    | before => exact absurd hstep hfault
    | none => exact h
    | after => exact h
  unfold ApprovalFiles.next
  rw [if_pos hu64, hdurable]

/-- A saved record changes what is loaded under its own id and nothing else. -/
theorem load_of_saved (hserde : serde.KeepsApprovals) (hfits : record.Fits)
    (h : save serde record = .ok file) (id : String) :
    load serde (files.put file) id =
      if record.id = id then .ok (some record) else load serde files id := by
  split
  · rename_i hsame
    subst hsame
    exact load_saved hserde hfits h
  · rename_i hne
    refine load_put_ne fun heq => hne ?_
    rw [save_name h] at heq
    exact recordFile_inj heq

theorem opened_fits {asked : ApprovalRequest} {subject : String}
    (h : (ApprovalCall.request asked).isU64 = true) : (opened asked subject id).Fits := by
  unfold ApprovalCall.isU64 at h
  simp only [Bool.and_eq_true, decide_eq_true_eq] at h
  exact ⟨h.1, Nat.min_le_right _ _, fun n hn => by cases hn⟩

theorem decided_fits {decision : ApprovalDecision} {decider : String} {note : Option String}
    {nowSecs : Nat} (h : record.Fits) (hnow : nowSecs ≤ u64Max) :
    (record.decided decision decider note nowSecs).Fits :=
  ⟨h.createdAtSecs, h.deadlineAtSecs, fun _ hn => Option.some.inj hn ▸ hnow⟩

/-- **One step changes one record in one way**, or none. -/
theorem ApprovalFiles.changed (hserde : serde.KeepsApprovals)
    (h : files.next serde digest step = some files') (id : String) :
    files.Changes serde digest id step (load serde files id) (load serde files' id) := by
  obtain ⟨hu64, ⟨rfl, -⟩ | ⟨file, rfl, hdurable⟩⟩ := next_cases h
  · exact .same _
  have hwrites := durable_writes hdurable
  have hsome : (files.durable serde digest step).isSome = true := by rw [hdurable]; rfl
  cases hcall : step.1 with
  | request asked =>
    rw [hcall] at hwrites hu64
    obtain ⟨subject, hsubject, hload, hsave⟩ := request_writes hwrites
    rw [load_of_saved hserde (opened_fits hu64) hsave]
    split
    · rename_i hsame
      obtain rfl : approvalId digest subject asked.reason asked.fingerprint asked.policyHash = id :=
        hsame
      rw [hload]
      exact .opened asked subject ⟨hcall, hsome, hsubject, rfl⟩
    · exact .same _
  | decide target decision decider note nowSecs =>
    rw [hcall] at hwrites hu64
    obtain ⟨record, hload, hopen, hdeadline, hsave⟩ := decide_writes hwrites
    obtain ⟨-, -, hid, hfits⟩ := load_spec hload
    rw [load_of_saved hserde (decided_fits hfits (of_decide_eq_true hu64)) hsave]
    split
    · rename_i hsame
      obtain rfl : target = id := hid.symm.trans hsame
      rw [hload]
      exact .decided record decision decider note nowSecs ⟨hcall, hsome⟩ hopen hdeadline
    · exact .same _
  | clearNotificationPending target =>
    rw [hcall] at hwrites
    obtain ⟨record, hload, hsave⟩ := clearNotificationPending_writes hwrites
    obtain ⟨-, -, hid, hfits⟩ := load_spec hload
    have hfits' : { record with notificationPending := false }.Fits :=
      ⟨hfits.createdAtSecs, hfits.deadlineAtSecs, hfits.decidedAtSecs⟩
    rw [load_of_saved hserde hfits' hsave]
    split
    · rename_i hsame
      obtain rfl : target = id := hid.symm.trans hsame
      rw [hload]
      exact .notified record
    · exact .same _
  | saveManifest target manifest =>
    rw [hcall] at hwrites
    obtain ⟨htarget, hname⟩ := saveManifest_writes hwrites
    by_cases hid : validateApprovalId id = .ok ()
    · have hne : file.name ≠ recordFile id := hname ▸ manifestFile_ne_recordFile htarget hid
      rw [load_put_ne hne]
      exact .same _
    · have hrefused : ∀ files : ApprovalFiles, load serde files id =
          (validateApprovalId id >>= fun _ => .ok none) := by
        intro files
        unfold load
        cases hcheck : validateApprovalId id with
        | ok u => exact absurd hcheck hid
        | error e => rfl
      rw [hrefused files, hrefused (files.put file)]
      exact .same _
  | status target fingerprint policyHash nowSecs =>
    rw [hcall] at hwrites
    cases hwrites

/-- **One step keeps every record**: a later one continues it. -/
theorem ApprovalFiles.Changes.continues {shown shown' : Approval (Option ApprovalRecord)}
    (h : files.Changes serde digest id step shown shown') (hshown : shown = .ok (some record)) :
    ∃ later, shown' = .ok (some later) ∧ later.Continues record := by
  cases h with
  | same => exact ⟨record, hshown, .refl record⟩
  | opened asked subject hopens => cases hshown
  | decided old decision decider note nowSecs hdecides hopen hdeadline =>
    obtain rfl := Option.some.inj (Except.ok.inj hshown)
    refine ⟨_, rfl, rfl, rfl, rfl, rfl, rfl, rfl, rfl, rfl, ?_⟩
    intro hdecided
    rw [hopen] at hdecided
    cases hdecided
  | notified old =>
    obtain rfl := Option.some.inj (Except.ok.inj hshown)
    exact ⟨_, rfl, rfl, rfl, rfl, rfl, rfl, rfl, rfl, rfl, fun _ => ⟨rfl, rfl, rfl, rfl⟩⟩

/-- A decision whose write was made was open and in time, and is in the record from then on. -/
theorem ApprovalFiles.Decides.spec {decision : ApprovalDecision} {decider : String}
    {note : Option String} {nowSecs : Nat} (hserde : serde.KeepsApprovals)
    (h : files.Decides serde digest id step decision decider note nowSecs)
    (hnext : files.next serde digest step = some files') :
    ∃ record, load serde files id = .ok (some record) ∧ record.decision = none ∧
      nowSecs ≤ record.deadlineAtSecs ∧
      load serde files' id = .ok (some (record.decided decision decider note nowSecs)) := by
  obtain ⟨hcall, hsome⟩ := h
  obtain ⟨hu64, ⟨-, hnone⟩ | ⟨file, rfl, hdurable⟩⟩ := next_cases hnext
  · rw [hnone] at hsome
    cases hsome
  have hwrites := durable_writes hdurable
  rw [hcall] at hwrites hu64
  obtain ⟨record, hload, hopen, hdeadline, hsave⟩ := decide_writes hwrites
  obtain ⟨-, -, hid, hfits⟩ := load_spec hload
  refine ⟨record, hload, hopen, hdeadline, ?_⟩
  rw [load_of_saved hserde (decided_fits hfits (of_decide_eq_true hu64)) hsave]
  exact if_pos hid

end Files

/-! ## Whole runs -/

section Runs

variable {serde : Serde} {digest : String → String} {files files' : ApprovalFiles} {id : String}
variable {record : ApprovalRecord} {tr : List (ApprovalFiles × (ApprovalCall × ApprovalFault))}

open ApprovalStore

/-- **Every record is kept**: what a run finds of an id it leaves there, or a later record of it. -/
theorem kept (hserde : serde.KeepsApprovals)
    (h : Run (ApprovalFiles.next serde digest) files tr files')
    (hload : load serde files id = .ok (some record)) :
    ∃ later, load serde files' id = .ok (some later) ∧ later.Continues record := by
  induction h with
  | nil => exact ⟨record, hload, .refl record⟩
  | snoc _ hnext ih =>
    obtain ⟨middle, hmiddle, hcontinues⟩ := ih
    obtain ⟨later, hlater, hcontinues'⟩ :=
      (ApprovalFiles.changed hserde hnext id).continues hmiddle
    exact ⟨later, hlater, hcontinues'.trans hcontinues⟩

variable (serde digest tr id record) in
/-- Where a record comes from: the request that opened it, and behind that the decision it shows. -/
def ApprovalFiles.Origin : Prop :=
  ∃ pre x post asked subject, tr = pre ++ x :: post ∧
    ApprovalFiles.Opens serde digest x.1 id x.2 asked subject ∧
    record.Continues (opened asked subject id) ∧
    ∀ decision, record.decision = some decision → ∃ y ∈ post, ∃ decider note nowSecs,
      ApprovalFiles.Decides serde digest y.1 id y.2 decision decider note nowSecs ∧
        record.decidedBy = some decider ∧ record.decidedAtSecs = some nowSecs ∧ record.note = note

/-- A longer run keeps the origin of a record that later ones continue. -/
theorem ApprovalFiles.Origin.snoc {x : ApprovalFiles × (ApprovalCall × ApprovalFault)}
    {later : ApprovalRecord} (h : ApprovalFiles.Origin serde digest id record tr)
    (hcontinues : later.Continues record)
    (hdecided : ∀ decision, later.decision = some decision → record.decision = some decision ∨
      ∃ decider note nowSecs,
        ApprovalFiles.Decides serde digest x.1 id x.2 decision decider note nowSecs ∧
        later.decidedBy = some decider ∧ later.decidedAtSecs = some nowSecs ∧ later.note = note) :
    ApprovalFiles.Origin serde digest id later (tr ++ [x]) := by
  obtain ⟨pre, y, post, asked, subject, rfl, hopens, hfrom, hverdict⟩ := h
  refine ⟨pre, y, post ++ [x], asked, subject, by simp, hopens, hcontinues.trans hfrom, ?_⟩
  intro decision hdecision
  rcases hdecided decision hdecision with hold | hnew
  · obtain ⟨z, hz, decider, note, nowSecs, hdecides, hby, hat, hnote⟩ := hverdict decision hold
    obtain ⟨-, hby', hat', hnote'⟩ := hcontinues.verdict (by rw [hold]; rfl)
    exact ⟨z, List.mem_append_left _ hz, decider, note, nowSecs, hdecides, hby'.trans hby,
      hat'.trans hat, hnote'.trans hnote⟩
  · exact ⟨x, List.mem_append_right _ List.mem_cons_self, hnew⟩

/-- **Every record has an origin.** -/
theorem origin (hserde : serde.KeepsApprovals)
    (h : Run (ApprovalFiles.next serde digest) (fun _ => none) tr files) :
    ∀ id record, load serde files id = .ok (some record) →
      ApprovalFiles.Origin serde digest id record tr := by
  induction h with
  | nil =>
    intro id record hload
    unfold load at hload
    obtain ⟨_, -, hload⟩ := bind_eq_ok.1 hload
    cases hload
  | @snoc tr files step files' _ hnext ih =>
    intro id later hload
    have hchanged := ApprovalFiles.changed hserde hnext id
    generalize hbefore : load serde files id = before at hchanged
    rw [hload] at hchanged
    cases hchanged with
    | same =>
      exact (ih id later hbefore).snoc (.refl later) fun _ hdecision => .inl hdecision
    | opened asked subject hopens =>
      refine ⟨tr, _, [], asked, subject, rfl, hopens, .refl _, ?_⟩
      intro decision hdecision
      cases hdecision
    | decided record decision decider note nowSecs hdecides hopen hdeadline =>
      refine (ih id record hbefore).snoc ?_ fun d hd => ?_
      · obtain ⟨_, hsome, hcontinues⟩ := (ApprovalFiles.Changes.decided record decision decider note
          nowSecs hdecides hopen hdeadline).continues rfl
        obtain rfl := Option.some.inj (Except.ok.inj hsome)
        exact hcontinues
      · obtain rfl : decision = d := Option.some.inj hd
        exact .inr ⟨decider, note, nowSecs, hdecides, rfl, rfl, rfl⟩
    | notified record =>
      refine (ih id record hbefore).snoc ?_ fun d hd => .inl hd
      exact ⟨rfl, rfl, rfl, rfl, rfl, rfl, rfl, rfl, fun _ => ⟨rfl, rfl, rfl, rfl⟩⟩

/-! ## What an id stands for -/

theorem cut_inj {ch : Char} {a a' b b' : List Char} (ha : ch ∉ a) (ha' : ch ∉ a')
    (h : a ++ ch :: b = a' ++ ch :: b') : a = a' ∧ b = b' := by
  induction a generalizing a' with
  | nil =>
    cases a' with
    | nil => exact ⟨rfl, (List.cons.inj h).2⟩
    | cons x a' => exact absurd (List.cons.inj h).1 (List.ne_of_not_mem_cons ha')
  | cons x a ih =>
    cases a' with
    | nil => exact absurd (List.cons.inj h).1.symm (List.ne_of_not_mem_cons ha)
    | cons y a' =>
      obtain ⟨rfl, htail⟩ := List.cons.inj h
      have hrest := ih (List.not_mem_of_not_mem_cons ha) (List.not_mem_of_not_mem_cons ha') htail
      exact ⟨congrArg _ hrest.1, hrest.2⟩

/-- Two texts cut at their first bar. -/
theorem bar_inj {a a' b b' : String} (ha : '|' ∉ a.toList) (ha' : '|' ∉ a'.toList)
    (h : a ++ "|" ++ b = a' ++ "|" ++ b') : a = a' ∧ b = b' := by
  have hlist := congrArg String.toList h
  have hbar : "|".toList = ['|'] := by decide
  simp only [String.toList_append, hbar, List.append_assoc, List.singleton_append] at hlist
  obtain ⟨hfront, hback⟩ := cut_inj ha ha' hlist
  exact ⟨String.toList_inj.1 hfront, String.toList_inj.1 hback⟩

theorem no_bar {s : String} (h : s.toList.any isSeparator = false) : '|' ∉ s.toList := by
  intro hmem
  have hbar := List.any_eq_false.1 h '|' hmem
  exact hbar rfl

theorem validatePresentId_no_bar {value label : String} (h : validatePresentId value label = .ok ()) :
    '|' ∉ value.toList := by
  unfold validatePresentId at h
  split at h
  · rename_i hempty
    subst hempty
    exact List.not_mem_nil
  · have hvalid := demand_eq_ok.1 h
    simp only [not_or, Bool.not_eq_true] at hvalid
    exact no_bar hvalid.2.1

/-- The subject names the task and the batch, and neither has a bar. -/
theorem approvalSubject_spec {asked : ApprovalRequest} {subject : String}
    (h : approvalSubject asked = .ok subject) :
    subject = "task:" ++ asked.taskId.getD "" ++ "|" ++ ("batch:" ++ asked.batchId.getD "") ∧
      '|' ∉ (asked.taskId.getD "").toList ∧ '|' ∉ (asked.batchId.getD "").toList := by
  unfold approvalSubject at h
  obtain ⟨_, -, h⟩ := bind_eq_ok.1 h
  obtain ⟨_, htask, h⟩ := bind_eq_ok.1 h
  obtain ⟨_, hbatch, h⟩ := bind_eq_ok.1 h
  refine ⟨?_, validatePresentId_no_bar htask, validatePresentId_no_bar hbatch⟩
  have hbar : "|batch:" = "|" ++ "batch:" := by decide
  rw [← Except.ok.inj h, hbar]
  simp only [toString, String.append_assoc]

theorem isHex_no_bar {n : Nat} {s : String} (h : isHex n s = true) : '|' ∉ s.toList := by
  unfold isHex at h
  simp only [Bool.and_eq_true, List.all_eq_true] at h
  intro hmem
  exact absurd (h.2 '|' hmem) (by decide)

theorem validateApprovalRequest_no_bar {asked : ApprovalRequest}
    (h : validateApprovalRequest asked = .ok ()) :
    '|' ∉ asked.reason.toList ∧ '|' ∉ asked.fingerprint.toList := by
  unfold validateApprovalRequest at h
  obtain ⟨_, -, h⟩ := bind_eq_ok.1 h
  obtain ⟨_, hreason, h⟩ := bind_eq_ok.1 h
  obtain ⟨_, hfingerprint, -⟩ := bind_eq_ok.1 h
  have htext := demand_eq_ok.1 hreason
  simp only [not_or, Bool.not_eq_true] at htext
  exact ⟨no_bar htext.2, isHex_no_bar (demand_eq_ok.1 hfingerprint)⟩

/-- **The text of an id names its request.** -/
theorem approvalText_inj {asked asked' : ApprovalRequest} {subject subject' : String}
    (hrequest : validateApprovalRequest asked = .ok ())
    (hrequest' : validateApprovalRequest asked' = .ok ())
    (hsubject : approvalSubject asked = .ok subject)
    (hsubject' : approvalSubject asked' = .ok subject')
    (h : approvalText subject asked.reason asked.fingerprint asked.policyHash =
      approvalText subject' asked'.reason asked'.fingerprint asked'.policyHash) :
    asked.taskId.getD "" = asked'.taskId.getD "" ∧
      asked.batchId.getD "" = asked'.batchId.getD "" ∧ asked.reason = asked'.reason ∧
      asked.fingerprint = asked'.fingerprint ∧ asked.policyHash = asked'.policyHash := by
  obtain ⟨hs, htask, hbatch⟩ := approvalSubject_spec hsubject
  obtain ⟨hs', htask', hbatch'⟩ := approvalSubject_spec hsubject'
  have hreason := validateApprovalRequest_no_bar hrequest
  have hreason' := validateApprovalRequest_no_bar hrequest'
  unfold approvalText at h
  simp only [toString, hs, hs'] at h
  have hfront : ∀ {name s : String}, '|' ∉ name.toList → '|' ∉ s.toList →
      '|' ∉ (name ++ s).toList := by
    intro name s hname hs
    rw [String.toList_append, List.mem_append]
    exact not_or.2 ⟨hname, hs⟩
  have htext : ∀ a b c d e : String, a ++ "|" ++ b ++ "|" ++ c ++ "|" ++ d ++ "|" ++ e =
      a ++ "|" ++ (b ++ "|" ++ (c ++ "|" ++ (d ++ "|" ++ e))) := by
    intro a b c d e
    simp only [String.append_assoc]
  rw [htext, htext] at h
  obtain ⟨htaskEq, h⟩ := bar_inj (hfront (by decide) htask) (hfront (by decide) htask') h
  obtain ⟨hbatchEq, h⟩ := bar_inj (hfront (by decide) hbatch) (hfront (by decide) hbatch') h
  obtain ⟨hreasonEq, h⟩ := bar_inj hreason.1 hreason'.1 h
  obtain ⟨hfingerprintEq, hpolicyEq⟩ := bar_inj hreason.2 hreason'.2 h
  exact ⟨String.append_right_inj _ |>.1 htaskEq, String.append_right_inj _ |>.1 hbatchEq, hreasonEq,
    hfingerprintEq, hpolicyEq⟩

/-- What an accepted request answers. -/
theorem request_accepted {asked : ApprovalRequest} {file? : Option Replacement}
    (h : request serde digest files asked = .ok (record, file?)) :
    validateApprovalRequest asked = .ok () ∧ ∃ subject, approvalSubject asked = .ok subject ∧
      record.id = approvalId digest subject asked.reason asked.fingerprint asked.policyHash := by
  unfold request at h
  obtain ⟨_, hvalid, h⟩ := bind_eq_ok.1 h
  obtain ⟨subject, hsubject, h⟩ := bind_eq_ok.1 h
  obtain ⟨found, hload, h⟩ := bind_eq_ok.1 h
  refine ⟨hvalid, subject, hsubject, ?_⟩
  cases found with
  | some found =>
    obtain ⟨_, -, h⟩ := bind_eq_ok.1 h
    cases Except.ok.inj h
    exact (load_spec hload).2.2.1
  | none =>
    obtain ⟨_, -, h⟩ := bind_eq_ok.1 h
    cases Except.ok.inj h
    rfl

/-- An approved status shows an approved record of this content. -/
theorem status_approved {id' fingerprint policyHash : String} {nowSecs : Nat}
    (h : status serde files id fingerprint policyHash nowSecs = .ok (.approved id')) :
    id' = id ∧ ∃ record, load serde files id = .ok (some record) ∧
      record.fingerprint = fingerprint ∧ record.policyHash = policyHash ∧
      record.decision = some .approve := by
  unfold status at h
  obtain ⟨_, -, h⟩ := bind_eq_ok.1 h
  obtain ⟨_, -, h⟩ := bind_eq_ok.1 h
  obtain ⟨_, -, h⟩ := bind_eq_ok.1 h
  obtain ⟨found, hload, h⟩ := bind_eq_ok.1 h
  cases found with
  | none => cases h
  | some record =>
    obtain ⟨_, -, h⟩ := bind_eq_ok.1 h
    split at h
    · cases h
    · rename_i hfresh
      obtain ⟨hfingerprint, hpolicy⟩ := not_or.1 hfresh
      cases hdecision : record.decision with
      | none =>
        rw [hdecision] at h
        dsimp only at h
        split at h <;> cases h
      | some decision =>
        rw [hdecision] at h
        cases decision with
        | reject => cases h
        | approve =>
          cases h
          exact ⟨rfl, record, hload, not_not.1 hfingerprint, not_not.1 hpolicy, hdecision⟩

/-- Behind a decided record no decision is written. -/
theorem decides_once (hserde : serde.KeepsApprovals)
    (h : Run (ApprovalFiles.next serde digest) files tr files')
    (hload : load serde files id = .ok (some record)) (hdecided : record.decision.isSome = true) :
    ∀ y ∈ tr, ∀ decision decider note nowSecs,
      ¬ApprovalFiles.Decides serde digest y.1 id y.2 decision decider note nowSecs := by
  intro y hy decision decider note nowSecs hdecides
  obtain ⟨pre, post, htr⟩ := List.append_of_mem hy
  obtain ⟨middle, hnext, -⟩ := h.cut pre y post htr
  obtain ⟨later, hlater, hcontinues⟩ := kept hserde (h.split pre y post htr) hload
  obtain ⟨found, hfound, hopen, -⟩ := hdecides.spec hserde hnext
  obtain rfl : found = later := Option.some.inj (Except.ok.inj (hfound.symm.trans hlater))
  rw [← (hcontinues.verdict hdecided).1, hopen] at hdecided
  cases hdecided

/-- An approved record is shown as such to the content it was asked for. -/
theorem status_of_approved {nowSecs : Nat} (hload : load serde files id = .ok (some record))
    (hfingerprint : validateIdentity record.fingerprint "fingerprint" = .ok ())
    (hpolicy : validateIdentity record.policyHash "policy hash" = .ok ())
    (happroved : record.decision = some .approve) :
    status serde files id record.fingerprint record.policyHash nowSecs = .ok (.approved id) := by
  obtain ⟨hid, hrecord, -⟩ := load_spec hload
  refine bind_eq_ok.2 ⟨(), hid, bind_eq_ok.2 ⟨(), hfingerprint, bind_eq_ok.2 ⟨(), hpolicy,
    bind_eq_ok.2 ⟨some record, hload, bind_eq_ok.2 ⟨(), hrecord, ?_⟩⟩⟩⟩⟩
  have hfresh : ¬(record.fingerprint ≠ record.fingerprint ∨ record.policyHash ≠ record.policyHash) :=
    not_or.2 ⟨not_not.2 rfl, not_not.2 rfl⟩
  rw [if_neg hfresh, happroved]

/-- **Approvals are safe** in every run from the empty store. A record keeps its identity; one
decision at most is written to it, within its deadline, and stays; an approved status has the request
of this very content and an approval behind it; and two requests that share an id agree in everything
that was asked, an absent task or batch being an empty one. -/
theorem approvals_safe (hserde : serde.KeepsApprovals)
    (h : Run (ApprovalFiles.next serde digest) (fun _ => none) tr files) :
    (∀ pre x post id record, tr = pre ++ x :: post → load serde x.1 id = .ok (some record) →
      ∃ later, load serde files id = .ok (some later) ∧ later.Continues record) ∧
    (∀ pre x post id decision decider note nowSecs, tr = pre ++ x :: post →
      ApprovalFiles.Decides serde digest x.1 id x.2 decision decider note nowSecs →
        (∃ record, load serde x.1 id = .ok (some record) ∧ nowSecs ≤ record.deadlineAtSecs) ∧
        (∀ y ∈ post, ∀ decision decider note nowSecs,
          ¬ApprovalFiles.Decides serde digest y.1 id y.2 decision decider note nowSecs) ∧
        ∃ later, load serde files id = .ok (some later) ∧ later.decision = some decision ∧
          later.decidedBy = some decider ∧ later.decidedAtSecs = some nowSecs ∧
          later.note = note) ∧
    (∀ id id' fingerprint policyHash nowSecs,
      status serde files id fingerprint policyHash nowSecs = .ok (.approved id') →
        id' = id ∧ ∃ pre x post asked subject, tr = pre ++ x :: post ∧
          ApprovalFiles.Opens serde digest x.1 id x.2 asked subject ∧
          asked.fingerprint = fingerprint ∧ asked.policyHash = policyHash ∧
          ∃ y ∈ post, ∃ decider note nowSecs,
            ApprovalFiles.Decides serde digest y.1 id y.2 .approve decider note nowSecs) ∧
    ∀ x ∈ tr, ∀ y ∈ tr, ∀ asked asked' answer answer',
      x.2.1 = .request asked → y.2.1 = .request asked' →
      request serde digest x.1 asked = .ok answer →
      request serde digest y.1 asked' = .ok answer' → answer.1.id = answer'.1.id →
      (∀ subject subject', approvalSubject asked = .ok subject →
        approvalSubject asked' = .ok subject' →
        digest (approvalText subject asked.reason asked.fingerprint asked.policyHash) =
          digest (approvalText subject' asked'.reason asked'.fingerprint asked'.policyHash) →
        approvalText subject asked.reason asked.fingerprint asked.policyHash =
          approvalText subject' asked'.reason asked'.fingerprint asked'.policyHash) →
      asked.taskId.getD "" = asked'.taskId.getD "" ∧
        asked.batchId.getD "" = asked'.batchId.getD "" ∧ asked.reason = asked'.reason ∧
        asked.fingerprint = asked'.fingerprint ∧ asked.policyHash = asked'.policyHash := by
  refine ⟨?_, ?_, ?_, ?_⟩
  · intro pre x post id record htr hload
    obtain ⟨middle, hnext, hrest⟩ := h.cut pre x post htr
    obtain ⟨next, hnextLoad, hcontinues⟩ :=
      (ApprovalFiles.changed hserde hnext id).continues hload
    obtain ⟨later, hlater, hcontinues'⟩ := kept hserde hrest hnextLoad
    exact ⟨later, hlater, hcontinues'.trans hcontinues⟩
  · intro pre x post id decision decider note nowSecs htr hdecides
    obtain ⟨middle, hnext, hrest⟩ := h.cut pre x post htr
    obtain ⟨record, hload, -, hdeadline, hdecided⟩ := hdecides.spec hserde hnext
    refine ⟨⟨record, hload, hdeadline⟩, decides_once hserde hrest hdecided rfl, ?_⟩
    obtain ⟨later, hlater, hcontinues⟩ := kept hserde hrest hdecided
    exact ⟨later, hlater, hcontinues.verdict rfl⟩
  · intro id id' fingerprint policyHash nowSecs hstatus
    obtain ⟨hid, record, hload, hfingerprint, hpolicy, hdecision⟩ := status_approved hstatus
    obtain ⟨pre, x, post, asked, subject, htr, hopens, hfrom, hverdict⟩ :=
      origin hserde h id record hload
    obtain ⟨y, hy, decider, note, nowSecs', hdecides, -⟩ := hverdict .approve hdecision
    exact ⟨hid, pre, x, post, asked, subject, htr, hopens, hfrom.fingerprint.symm.trans hfingerprint,
      hfrom.policyHash.symm.trans hpolicy, y, hy, decider, note, nowSecs', hdecides⟩
  · intro x _ y _ asked asked' answer answer' _ _ hrequest hrequest' hsame hdigest
    obtain ⟨hvalid, subject, hsubject, hid⟩ := request_accepted hrequest
    obtain ⟨hvalid', subject', hsubject', hid'⟩ := request_accepted hrequest'
    have hdigests : approvalId digest subject asked.reason asked.fingerprint asked.policyHash =
        approvalId digest subject' asked'.reason asked'.fingerprint asked'.policyHash :=
      hid.symm.trans (hsame.trans hid')
    unfold approvalId at hdigests
    have htexts := hdigest subject subject' hsubject hsubject'
      (String.append_right_inj "apr-" |>.1 (by simpa [toString] using hdigests))
    exact approvalText_inj hvalid hvalid' hsubject hsubject' htexts

end Runs

/-! ## A run, and two requests with one id -/

namespace ApprovalSample

open ApprovalStore

theorem tally_keeps : Tally.codec.KeepsApprovals := fun _ _ =>
  Tally.read_render _ _ (by decide)

/-- A review asked for batch `b1`, of this task if any. -/
def asked (taskId : Option String) : ApprovalRequest where
  taskId := taskId
  batchId := some "b1"
  reason := "review"
  fingerprint := "aaaaaaaaaaaaaaaaaaaaaaaaaaaaaaaaaaaaaaaaaaaaaaaaaaaaaaaaaaaaaaaa"
  policyHash := "bbbbbbbbbbbbbbbbbbbbbbbbbbbbbbbbbbbbbbbbbbbbbbbbbbbbbbbbbbbbbbbb"
  nowSecs := 10
  deadlineSecs := 100

def digest (_ : String) : String := "0123456789abcdef0123456789abcdef"

def subject : String := "task:|batch:b1"

def record : ApprovalRecord := opened (asked none) subject "apr-0123456789abcdef0123456789abcdef"

def file (record : ApprovalRecord) : Replacement :=
  ⟨recordFile record.id, Tally.codec.render record.toJson ++ "\n"⟩

def openFiles : ApprovalFiles := ApprovalFiles.put (fun _ => none) (file record)

def approved : ApprovalRecord := record.decided .approve "reviewer" none 20

def approvedFiles : ApprovalFiles := openFiles.put (file approved)

theorem save_short {record : ApprovalRecord} (hvalid : validateApprovalRecord record record.id = .ok ())
    (hshort : ((Tally.encode record.toJson).map (· + 1)).sum + 3 ≤ maxApprovalBytes) :
    save Tally.codec record = .ok (file record) := by
  have hline : (utf8 "\n").length = 1 := by decide
  refine save_of hvalid ?_
  rw [Tally.length_render, hline]
  exact hshort

theorem save_record : save Tally.codec record = .ok (file record) :=
  save_short (by decide +kernel) (by decide +kernel)

theorem save_approved : save Tally.codec approved = .ok (file approved) :=
  save_short (by decide +kernel) (by decide +kernel)

theorem record_fits : record.Fits := ⟨by decide, by decide, fun n hn => by cases hn⟩

theorem load_record : load Tally.codec openFiles record.id = .ok (some record) :=
  load_saved tally_keeps record_fits save_record

theorem load_approved : load Tally.codec approvedFiles approved.id = .ok (some approved) :=
  load_saved tally_keeps (decided_fits record_fits (by decide)) save_approved

theorem request_first :
    request Tally.codec digest (fun _ => none) (asked none) = .ok (record, some (file record)) :=
  request_of_none (by decide +kernel) (by decide +kernel) (by decide +kernel)
    (load_of_none (by decide +kernel) rfl) save_record

theorem request_again :
    request Tally.codec digest openFiles (asked (some "")) = .ok (record, none) := by
  have hsubject : approvalSubject (asked (some "")) = .ok subject := by decide +kernel
  exact request_of_some (by decide +kernel) hsubject (by decide +kernel) load_record

theorem decide_open :
    ApprovalStore.decide Tally.codec openFiles record.id .approve "reviewer" none 20 =
      .ok (approved, some (file approved)) :=
  decide_of_open (by decide +kernel) rfl load_record (by decide) (by decide) save_approved

theorem status_approved : status Tally.codec approvedFiles approved.id approved.fingerprint
    approved.policyHash 200 = .ok (.approved approved.id) :=
  status_of_approved load_approved (by decide +kernel) (by decide +kernel) rfl

/-- The two steps behind an approved status. -/
def steps : List (ApprovalFiles × (ApprovalCall × ApprovalFault)) :=
  [(fun _ => none, .request (asked none), .none),
    (openFiles, .decide record.id .approve "reviewer" none 20, .after)]

theorem run : Run (ApprovalFiles.next Tally.codec digest) (fun _ => none) steps approvedFiles := by
  have hfirst : ApprovalFiles.writes Tally.codec digest (fun _ => none) (.request (asked none)) =
      some (file record) := by
    unfold ApprovalFiles.writes
    dsimp only
    rw [request_first]
    rfl
  have hsecond : ApprovalFiles.writes Tally.codec digest openFiles
      (.decide record.id .approve "reviewer" none 20) = some (file approved) := by
    unfold ApprovalFiles.writes
    dsimp only
    rw [decide_open]
    rfl
  have hopened : ApprovalFiles.next Tally.codec digest (fun _ => none)
      (.request (asked none), .none) = some openFiles :=
    ApprovalFiles.next_of_writes rfl (by decide) hfirst
  have hdecided : ApprovalFiles.next Tally.codec digest openFiles
      (.decide record.id .approve "reviewer" none 20, .after) = some approvedFiles :=
    ApprovalFiles.next_of_writes rfl (by decide) hsecond
  exact .snoc (.snoc .nil hopened) hdecided

end ApprovalSample

/-- An approved status, and the approval behind it. -/
theorem approvals_safe_approved :
    ∃ y ∈ ApprovalSample.steps, ∃ decider note nowSecs, ApprovalFiles.Decides Tally.codec
      ApprovalSample.digest y.1 ApprovalSample.approved.id y.2 .approve decider note nowSecs := by
  obtain ⟨-, -, hstatus, -⟩ := approvals_safe ApprovalSample.tally_keeps ApprovalSample.run
  obtain ⟨-, pre, x, post, asked, subject, htr, -, -, -, y, hy, hdecides⟩ :=
    hstatus _ _ _ _ _ ApprovalSample.status_approved
  refine ⟨y, ?_, hdecides⟩
  rw [htr]
  exact List.mem_append_right _ (List.mem_cons_of_mem _ hy)

/-- **No task and an empty task are one request**: the second is answered with the record of the
first, whatever the digest. -/
theorem approvals_share_id :
    ApprovalStore.request Tally.codec ApprovalSample.digest (fun _ => none)
        (ApprovalSample.asked none) =
      .ok (ApprovalSample.record, some (ApprovalSample.file ApprovalSample.record)) ∧
    ApprovalStore.request Tally.codec ApprovalSample.digest ApprovalSample.openFiles
        (ApprovalSample.asked (some "")) = .ok (ApprovalSample.record, none) ∧
    approvalSubject (ApprovalSample.asked none) =
      approvalSubject (ApprovalSample.asked (some "")) ∧
    (ApprovalSample.asked none).taskId ≠ (ApprovalSample.asked (some "")).taskId :=
  ⟨ApprovalSample.request_first, ApprovalSample.request_again, by decide +kernel, by decide⟩

end Orchestrail
