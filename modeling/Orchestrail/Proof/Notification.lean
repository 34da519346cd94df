import Orchestrail.Proof.Approval
import Orchestrail.Spec.Notification

/-!
# How often the operator's command is launched

A receipt goes one way: it is created, whole or torn, and then replaced once by that of an outcome
(`NotificationWorld.moves`). What a process between its two locked operations may rely on is
`NotificationWorld.Kept`.
-/

namespace Orchestrail

open Text Outcome Steps NotificationDispatcher

/-! ## The document of a receipt -/

namespace NotificationReceipt

open LeaseRecord (textField_text optionalField_optionalText numberField_integer)

/-- The numbers are those of the source's types. -/
structure Fits (receipt : NotificationReceipt) : Prop where
  durationMs : ∀ n, receipt.durationMs = some n → n ≤ u128Max
  claimedAtSecs : ∀ n, receipt.claimedAtSecs = some n → n ≤ u64Max

variable {receipt : NotificationReceipt} {obj : List (String × Json)} {field : String}

theorem variant_event (event : NotificationEvent) :
    variant allEvents NotificationEvent.asStr event.asStr = .ok event := by
  cases event <;> rfl

theorem variant_status (status : NotificationStatus) :
    variant allStatuses NotificationStatus.asStr status.asStr = .ok status := by
  cases status <;> rfl

theorem variant_reason (reason : NotificationReason) :
    variant allReasons NotificationReason.snakeCase reason.snakeCase = .ok reason := by
  cases reason <;> rfl

theorem optionalVariant_name {α : Type} {all : List α} {name : α → String} {a : Option α}
    (hname : ∀ a, variant all name (name a) = .ok a)
    (h : obj.lookup field = some (LeaseRecord.optionalText (a.map name))) :
    optionalVariant all name obj field = .ok a := by
  unfold optionalVariant
  rw [optionalField_optionalText h]
  cases a with
  | none => rfl
  | some a =>
    change (variant all name (name a)).map some = .ok (some a)
    rw [hname]
    rfl

theorem optionalNumberField_optionalNumber {max : Nat} {n : Option Nat}
    (h : obj.lookup field = some (optionalNumber n)) (hn : ∀ m, n = some m → m ≤ max) :
    optionalNumberField max obj field = .ok n := by
  cases n with
  | none =>
    unfold optionalNumberField
    rw [h]
    rfl
  | some m =>
    have hfield : LeaseRecord.numberField max obj field = .ok m := numberField_integer h (hn m rfl)
    unfold optionalNumberField
    rw [h]
    change (LeaseRecord.numberField max obj field).map some = .ok (some m)
    rw [hfield]
    rfl

/-- A number that is left out when there is none is read as none. -/
theorem claimedAtSecs_toJson (h : receipt.Fits) : ∃ obj, receipt.toJson = .object obj ∧
    optionalNumberField u64Max obj "claimed_at_secs" = .ok receipt.claimedAtSecs := by
  refine ⟨_, rfl, ?_⟩
  cases hclaimed : receipt.claimedAtSecs with
  | none => rfl
  | some secs =>
    exact optionalNumberField_optionalNumber (n := some secs) rfl fun m hm =>
      h.claimedAtSecs m (hclaimed.trans hm)

/-- **A receipt is read back** from its document. -/
theorem fromJson_toJson (h : receipt.Fits) : fromJson receipt.toJson = .ok receipt := by
  obtain ⟨obj, hobj, hclaimed⟩ := claimedAtSecs_toJson h
  unfold toJson at hobj
  obtain rfl := Json.object.inj hobj
  unfold toJson fromJson
  dsimp only
  rw [hclaimed, textField_text (s := receipt.schema) rfl, textField_text (s := receipt.id) rfl,
    textField_text (s := receipt.event.asStr) rfl, textField_text (s := receipt.subject) rfl,
    optionalVariant_name (a := receipt.status) variant_status rfl,
    optionalVariant_name (a := receipt.reason) variant_reason rfl,
    optionalNumberField_optionalNumber (n := receipt.durationMs) rfl h.durationMs]
  change ((variant allEvents NotificationEvent.asStr receipt.event.asStr) >>= fun _ => _) = _
  rw [variant_event]
  rfl

end NotificationReceipt

/-! ## What a receipt shows -/

/-- A receipt as `load_existing_receipt_locked` meets it. -/
inductive ReceiptSight where
  | absent
  | oversize
  | corrupt
  | shown (receipt : NotificationReceipt)

def sightOf (serde : Serde) (text : String) : ReceiptSight :=
  if notificationReceiptMaxBytes < (utf8 text).length then .oversize
  else
    match serde.read text >>= NotificationReceipt.fromJson with
    | .error _ => .corrupt
    | .ok receipt => .shown receipt

def sight (serde : Serde) (receipts : Receipts) (id : String) : ReceiptSight :=
  match receipts id with
  | none => .absent
  | some text => sightOf serde text

/-- A receipt is read back with its last newline or without it, and no shorter part of it is a
document. -/
structure Serde.KeepsReceipts (serde : Serde) : Prop where
  read : ∀ receipt : NotificationReceipt, receipt.Fits →
    serde.read (serde.render receipt.toJson) = .ok receipt.toJson ∧
      serde.read (content serde receipt) = .ok receipt.toJson
  torn : ∀ receipt : NotificationReceipt, receipt.Fits →
    ∀ k < (serde.render receipt.toJson).toList.length,
      ∃ e, serde.read (String.ofList ((serde.render receipt.toJson).toList.take k)) = .error e

/-- An outcome that a receipt of this pair may hold. -/
structure NotificationOutcome.Final (digest : String → String) (event : NotificationEvent)
    (subject : String) (outcome : NotificationOutcome) : Prop where
  id : outcome.id = notificationId digest event subject
  event : outcome.event = event
  durationMs : outcome.durationMs ≤ u128Max
  errorClass : outcome.errorClass = none
  resolution : outcome.resolution = .resolved

/-- What the receipt of a pair may show. -/
inductive Stands (digest : String → String) (event : NotificationEvent) (subject : String) :
    ReceiptSight → Prop
  | absent : Stands digest event subject .absent
  | oversize : Stands digest event subject .oversize
  | corrupt : Stands digest event subject .corrupt
  | claimed (secs : Nat) (h : secs ≤ u64Max) :
      Stands digest event subject (.shown (claimReceipt digest event subject secs))
  | final (outcome : NotificationOutcome) (h : outcome.Final digest event subject) :
      Stands digest event subject (.shown (finalReceipt subject outcome))

/-- A claim of the pair is too long to be read again. -/
def LongClaim (serde : Serde) (digest : String → String) (event : NotificationEvent)
    (subject : String) : Prop :=
  ∃ secs ≤ u64Max, notificationReceiptMaxBytes <
    (utf8 (content serde (claimReceipt digest event subject secs))).length

section Moving

variable (serde : Serde) (digest : String → String) (event : NotificationEvent) (subject : String)

/-- How the receipt of a pair may change. -/
inductive ReceiptMoves : ReceiptSight → ReceiptSight → Prop
  | same (sight : ReceiptSight) : ReceiptMoves sight sight
  | oversize (hvalid : validSubject event subject = true)
      (hlong : LongClaim serde digest event subject) : ReceiptMoves .absent .oversize
  | torn (hvalid : validSubject event subject = true) : ReceiptMoves .absent .corrupt
  | claimed (hvalid : validSubject event subject = true) (secs : Nat) (h : secs ≤ u64Max) :
      ReceiptMoves .absent (.shown (claimReceipt digest event subject secs))
  | final (secs : Nat) (outcome : NotificationOutcome) (h : outcome.Final digest event subject) :
      ReceiptMoves (.shown (claimReceipt digest event subject secs))
        (.shown (finalReceipt subject outcome))
  | recovered (outcome : NotificationOutcome) (h : outcome.Final digest event subject) :
      ReceiptMoves .corrupt (.shown (finalReceipt subject outcome))

end Moving

theorem ReceiptMoves.stands {serde : Serde} {digest : String → String} {event : NotificationEvent} {subject : String}
    {before after : ReceiptSight} (h : ReceiptMoves serde digest event subject before after)
    (hbefore : Stands digest event subject before) : Stands digest event subject after := by
  cases h with
  | same => exact hbefore
  | oversize => exact .oversize
  | torn => exact .corrupt
  | claimed hvalid secs hsecs => exact .claimed secs hsecs
  | final secs outcome hfinal => exact .final outcome hfinal
  | recovered outcome hfinal => exact .final outcome hfinal

section Sights

variable {serde : Serde} {digest : String → String} {work : String} {receipts : Receipts}
variable {event : NotificationEvent} {subject id : String} {now : Nat}
variable {outcome : NotificationOutcome}

variable (digest event subject) in
theorem claimReceipt_fits (h : now ≤ u64Max) : (claimReceipt digest event subject now).Fits where
  durationMs _ hn := by cases hn
  claimedAtSecs _ hn := Option.some.inj hn ▸ h

theorem finalReceipt_fits (h : outcome.Final digest event subject) :
    (finalReceipt subject outcome).Fits where
  durationMs _ hn := Option.some.inj hn ▸ h.durationMs
  claimedAtSecs _ hn := by cases hn

/-- A written receipt shows itself, if it is short enough to be read. -/
theorem sightOf_content {receipt : NotificationReceipt} (hserde : serde.KeepsReceipts)
    (hfits : receipt.Fits)
    (hshort : (utf8 (content serde receipt)).length ≤ notificationReceiptMaxBytes) :
    sightOf serde (content serde receipt) = .shown receipt := by
  unfold sightOf
  rw [if_neg (Nat.not_lt.2 hshort), (hserde.read receipt hfits).2]
  change (match NotificationReceipt.fromJson receipt.toJson with
    | .error _ => ReceiptSight.corrupt
    | .ok receipt => .shown receipt) = _
  rw [NotificationReceipt.fromJson_toJson hfits]

theorem sightOf_whole {receipt : NotificationReceipt} (hserde : serde.KeepsReceipts)
    (hfits : receipt.Fits) : sightOf serde (content serde receipt) = .oversize ∨
      sightOf serde (content serde receipt) = .shown receipt := by
  by_cases hlong : notificationReceiptMaxBytes < (utf8 (content serde receipt)).length
  · exact .inl (if_pos hlong)
  · exact .inr (sightOf_content hserde hfits (Nat.not_lt.1 hlong))

/-- A part of a text is no longer than the text. -/
theorem length_utf8_take (s : String) (k : Nat) :
    (utf8 (String.ofList (s.toList.take k))).length ≤ (utf8 s).length := by
  have hsize : ∀ s : String, (utf8 s).length = s.utf8ByteSize := fun s => by
    simp [utf8]
  have hparts : s = String.ofList (s.toList.take k) ++ String.ofList (s.toList.drop k) := by
    apply String.toList_inj.1
    rw [String.toList_append, String.toList_ofList, String.toList_ofList, List.take_append_drop]
  have hwhole := congrArg String.utf8ByteSize hparts
  rw [String.utf8ByteSize_append] at hwhole
  rw [hsize, hsize]
  omega

/-- **A claim written in part** shows as the claim, as corrupt, or is too long to be read. -/
theorem sightOf_take (hserde : serde.KeepsReceipts) {receipt : NotificationReceipt}
    (hfits : receipt.Fits) (k : Nat) :
    let shown := sightOf serde (String.ofList ((content serde receipt).toList.take k))
    (shown = .oversize ∧ notificationReceiptMaxBytes < (utf8 (content serde receipt)).length) ∨
      shown = .corrupt ∨ shown = .shown receipt := by
  have hnewline : "\n".toList = ['\n'] := by decide
  have hcontent : (content serde receipt).toList =
      (serde.render receipt.toJson).toList ++ ['\n'] := by
    unfold content
    rw [String.toList_append, hnewline]
  intro shown
  have hshown : shown = sightOf serde (String.ofList ((content serde receipt).toList.take k)) := rfl
  unfold sightOf at hshown
  split at hshown
  · rename_i hlong
    exact .inl ⟨hshown, Nat.lt_of_lt_of_le hlong (length_utf8_take _ _)⟩
  · right
    rcases Nat.lt_trichotomy k (serde.render receipt.toJson).toList.length with hlt | heq | hgt
    · -- a strict part of the document
      obtain ⟨e, he⟩ := hserde.torn receipt hfits k hlt
      rw [hcontent, List.take_append_of_le_length (Nat.le_of_lt hlt), he] at hshown
      exact .inl hshown
    · -- the document without its last newline
      rw [hcontent, List.take_append_of_le_length (Nat.le_of_eq heq), heq, List.take_length,
        String.ofList_toList, (hserde.read receipt hfits).1] at hshown
      change shown = (match NotificationReceipt.fromJson receipt.toJson with
        | .error _ => ReceiptSight.corrupt
        | .ok receipt => .shown receipt) at hshown
      rw [NotificationReceipt.fromJson_toJson hfits] at hshown
      exact .inr hshown
    · have hall : (content serde receipt).toList.take k = (content serde receipt).toList := by
        apply List.take_of_length_le
        rw [hcontent, List.length_append]
        exact hgt
      rw [hall, String.ofList_toList, (hserde.read receipt hfits).2] at hshown
      change shown = (match NotificationReceipt.fromJson receipt.toJson with
        | .error _ => ReceiptSight.corrupt
        | .ok receipt => .shown receipt) at hshown
      rw [NotificationReceipt.fromJson_toJson hfits] at hshown
      exact .inr hshown

theorem sight_put (text other : String) : sight serde (receipts.put id text) other =
    if other = id then sightOf serde text else sight serde receipts other := by
  unfold sight Receipts.put
  by_cases hsame : other = id
  · rw [if_pos hsame, if_pos hsame]
  · rw [if_neg hsame, if_neg hsame]

theorem receipts_of_absent (h : sight serde receipts id = .absent) : receipts id = none := by
  unfold sight at h
  cases hreceipt : receipts id with
  | none => rfl
  | some text =>
    rw [hreceipt] at h
    dsimp only at h
    unfold sightOf at h
    split at h
    · cases h
    · split at h <;> cases h

variable (serde digest work receipts event subject now) in
/-- The ways the receipt of a pair is loaded, by what it shows. -/
inductive Loads : ReceiptSight → Except NotificationError Claim → Prop
  | absent (e : NotificationError) : Loads .absent (.error e)
  | oversize (e : NotificationError) : Loads .oversize (.error e)
  | corrupt : Loads .corrupt (.ok .corrupt)
  | stale (secs : Nat) (hsecs : secs ≤ u64Max) (hstale : claimIsStale (some secs) now = true) :
      Loads (.shown (claimReceipt digest event subject secs))
        (.ok (.stale (claimReceipt digest event subject secs)))
  | inProgress (secs : Nat) (hsecs : secs ≤ u64Max) (hfresh : claimIsStale (some secs) now = false) :
      Loads (.shown (claimReceipt digest event subject secs))
        (.ok (.inProgress (claimReceipt digest event subject secs)))
  | final (outcome : NotificationOutcome) (hfinal : outcome.Final digest event subject) :
      Loads (.shown (finalReceipt subject outcome)) (.ok (.final outcome))

variable (work now) in
/-- **Loading the receipt of a pair.** -/
theorem loads (h : Stands digest event subject
    (sight serde receipts (notificationId digest event subject))) :
    Loads digest event subject now (sight serde receipts (notificationId digest event subject))
      (loadExistingReceiptLocked serde work receipts event subject
        (notificationId digest event subject) now) := by
  unfold loadExistingReceiptLocked
  unfold sight at h ⊢
  cases hreceipt : receipts (notificationId digest event subject) with
  | none => exact .absent _
  | some text =>
    rw [hreceipt] at h
    dsimp only at h ⊢
    unfold sightOf at h ⊢
    by_cases hlong : notificationReceiptMaxBytes < (utf8 text).length
    · rw [if_pos hlong, if_pos hlong]
      exact .oversize _
    · rw [if_neg hlong] at h ⊢
      rw [if_neg hlong]
      cases hread : serde.read text >>= NotificationReceipt.fromJson with
      | error e => exact .corrupt
      | ok receipt =>
        rw [hread] at h
        dsimp only at h ⊢
        generalize hsight : ReceiptSight.shown receipt = shown at h
        cases h with
        | absent => cases hsight
        | oversize => cases hsight
        | corrupt => cases hsight
        | claimed secs hsecs =>
          obtain rfl := ReceiptSight.shown.inj hsight
          rw [if_neg (by simp [claimReceipt])]
          change Loads digest event subject now _ (if claimIsStale (some secs) now = true then
            .ok (.stale _) else .ok (.inProgress _))
          by_cases hstale : claimIsStale (some secs) now = true
          · rw [if_pos hstale]
            exact .stale secs hsecs hstale
          · rw [if_neg hstale]
            exact .inProgress secs hsecs (Bool.eq_false_iff.2 hstale)
        | final outcome hfinal =>
          obtain rfl := ReceiptSight.shown.inj hsight
          rw [if_neg (by simp [finalReceipt, hfinal.id, hfinal.event])]
          have houtcome : outcome = ⟨notificationId digest event subject, event, outcome.status,
              outcome.reason, outcome.durationMs, none, .resolved⟩ := by
            obtain ⟨id, event', status, reason, durationMs, errorClass, resolution⟩ := outcome
            obtain ⟨hid, hevent, -, herror, hresolution⟩ := hfinal
            dsimp only at hid hevent herror hresolution
            rw [hid, hevent, herror, hresolution]
          have hloaded := @Loads.final digest event subject now outcome hfinal
          rw [houtcome] at hloaded
          rw [houtcome]
          exact hloaded

/-! ## What an operation under the lock writes -/

variable (serde digest receipts) in
/-- An operation leaves the receipts alone, or moves the one of some pair. -/
def MovesOne (receipts' : Receipts) : Prop :=
  receipts' = receipts ∨ ∃ event subject text,
    receipts' = receipts.put (notificationId digest event subject) text ∧
      ReceiptMoves serde digest event subject (sight serde receipts (notificationId digest event subject))
        (sightOf serde text)

theorem claimOrLoad_moves (hserde : serde.KeepsReceipts) (hnow : now ≤ u64Max)
    (hvalid : validSubject event subject = true) (fault : LockFault) :
    MovesOne serde digest receipts
      (claimOrLoad serde digest work receipts event subject now fault).1 := by
  have hcreate : ∀ k, receipts (notificationId digest event subject) = none →
      MovesOne serde digest receipts (receipts.put (notificationId digest event subject)
        (String.ofList ((content serde (claimReceipt digest event subject now)).toList.take k))) := by
    intro k hnone
    refine .inr ⟨event, subject, _, rfl, ?_⟩
    have habsent : sight serde receipts (notificationId digest event subject) = .absent := by
      unfold sight
      rw [hnone]
    rw [habsent]
    rcases sightOf_take hserde (claimReceipt_fits digest event subject hnow) k with ⟨h, hlong⟩ | h | h
    · rw [h]
      exact .oversize hvalid ⟨now, hnow, hlong⟩
    · rw [h]
      exact .torn hvalid
    · rw [h]
      exact .claimed hvalid now hnow
  have hlocked : MovesOne serde digest receipts
      (claimOrLoadLocked serde digest work receipts event subject now).1 := by
    unfold claimOrLoadLocked
    dsimp only
    split
    · rename_i hnone
      have hwhole := hcreate
        (content serde (claimReceipt digest event subject now)).toList.length hnone
      rw [List.take_length, String.ofList_toList] at hwhole
      exact hwhole
    · exact .inl rfl
  unfold claimOrLoad
  cases fault with
  | none => exact hlocked
  | refused error => exact .inl rfl
  | torn kept error =>
    dsimp only
    split
    · rename_i hnone
      exact hcreate kept hnone
    · exact .inl rfl
  | after error => exact hlocked

theorem ready_eq_ok {command : Option (List String)} {argv : List String}
    (h : NotificationWorld.ready digest command event subject = .ok argv) :
    command = some argv ∧ validSubject event subject = true := by
  unfold NotificationWorld.ready at h
  split at h
  · rename_i hvalid
    split at h
    · cases h
    · cases h
    · split at h
      · cases h
      · obtain rfl := Except.ok.inj h
        exact ⟨rfl, hvalid⟩
  · cases h

variable (digest work receipts event subject) in
theorem begin_moves (hserde : serde.KeepsReceipts) (hnow : now ≤ u64Max)
    (command : Option (List String)) (fault : LockFault) :
    MovesOne serde digest receipts
      (NotificationWorld.begin serde digest work receipts command event subject now fault).1 := by
  unfold NotificationWorld.begin
  split
  · exact .inl rfl
  · rename_i argv hready
    exact claimOrLoad_moves hserde hnow (ready_eq_ok hready).2 fault

theorem finalizing_moves {fault : LockFault}
    {locked : Receipts × Except NotificationError NotificationOutcome}
    (h : MovesOne serde digest receipts locked.1) :
    MovesOne serde digest receipts (finalizing receipts fault locked).1 := by
  unfold finalizing
  cases fault with
  | none => exact h
  | refused error => exact .inl rfl
  | torn kept error => exact .inl rfl
  | after error => exact h

/-- A final receipt is written over one that it may replace. -/
theorem writeFinalReceiptLocked_moves (hserde : serde.KeepsReceipts)
    (hfinal : outcome.Final digest event subject)
    (hmoves : ReceiptMoves serde digest event subject
      (sight serde receipts (notificationId digest event subject))
      (.shown (finalReceipt subject outcome))) :
    MovesOne serde digest receipts (writeFinalReceiptLocked serde receipts subject outcome).1 := by
  unfold writeFinalReceiptLocked
  dsimp only
  split
  · exact .inl rfl
  · rename_i hshort
    refine .inr ⟨event, subject, content serde (finalReceipt subject outcome), ?_, ?_⟩
    · rw [hfinal.id]
    · rw [sightOf_content hserde (finalReceipt_fits hfinal) (Nat.not_lt.1 hshort)]
      exact hmoves

theorem saveFinalReceiptLocked_moves (hserde : serde.KeepsReceipts)
    (hstands : Stands digest event subject
      (sight serde receipts (notificationId digest event subject)))
    (hfinal : outcome.Final digest event subject) (claim : NotificationReceipt) :
    MovesOne serde digest receipts
      (saveFinalReceiptLocked serde work receipts subject claim outcome now).1 := by
  have hload := loads work now hstands
  unfold saveFinalReceiptLocked
  rw [hfinal.id, hfinal.event]
  generalize hsight : sight serde receipts (notificationId digest event subject) = shown at hload
  generalize loadExistingReceiptLocked serde work receipts event subject
    (notificationId digest event subject) now = loaded at hload
  have hclaim : ∀ secs, shown = .shown (claimReceipt digest event subject secs) →
      MovesOne serde digest receipts (writeFinalReceiptLocked serde receipts subject outcome).1 := by
    intro secs hshown
    refine writeFinalReceiptLocked_moves hserde hfinal ?_
    rw [hsight, hshown]
    exact .final secs outcome hfinal
  cases hload with
  | absent e => exact .inl rfl
  | oversize e => exact .inl rfl
  | corrupt => exact .inl rfl
  | stale secs hsecs hstale =>
    dsimp only
    split
    · exact hclaim secs rfl
    · exact .inl rfl
  | inProgress secs hsecs hfresh =>
    dsimp only
    split
    · exact hclaim secs rfl
    · exact .inl rfl
  | final outcome hfinal => exact .inl rfl

theorem finalizeCorruptReceiptLocked_moves (hserde : serde.KeepsReceipts)
    (hstands : Stands digest event subject
      (sight serde receipts (notificationId digest event subject)))
    (hfinal : outcome.Final digest event subject) :
    MovesOne serde digest receipts
      (finalizeCorruptReceiptLocked serde work receipts subject outcome now).1 := by
  have hload := loads work now hstands
  unfold finalizeCorruptReceiptLocked
  rw [hfinal.id, hfinal.event]
  generalize hsight : sight serde receipts (notificationId digest event subject) = shown at hload
  generalize loadExistingReceiptLocked serde work receipts event subject
    (notificationId digest event subject) now = loaded at hload
  cases hload with
  | corrupt =>
    refine writeFinalReceiptLocked_moves hserde hfinal ?_
    rw [hsight]
    exact .recovered outcome hfinal
  | absent e => exact .inl rfl
  | oversize e => exact .inl rfl
  | stale secs hsecs hstale => exact .inl rfl
  | inProgress secs hsecs hfresh => exact .inl rfl
  | final outcome hfinal => exact .inl rfl

end Sights

/-! ## What a process may rely on -/

/-- An id is that of one pair. -/
def DistinctIds (digest : String → String) : Prop :=
  ∀ event subject event' subject', notificationId digest event subject =
    notificationId digest event' subject' → event = event' ∧ subject = subject'

/-- A claim is what its receipt shows, unless that is final or too long to be read. -/
def ClaimHeld (digest : String → String) (event : NotificationEvent) (subject : String)
    (claim : NotificationReceipt) (shown : ReceiptSight) : Prop :=
  ∃ secs ≤ u64Max, claim = claimReceipt digest event subject secs ∧
    (shown = .oversize ∨ shown = .shown claim ∨
      ∃ outcome, outcome.Final digest event subject ∧ shown = .shown (finalReceipt subject outcome))

/-- What a phase relies on. -/
def PhaseHolds (serde : Serde) (digest : String → String) (receipts : Receipts) : DispatchPhase → Prop
  | .idle => True
  | .claimed _ event subject claim | .running _ event subject claim =>
    ClaimHeld digest event subject claim (sight serde receipts (notificationId digest event subject))
  | .stale event subject claim =>
    ClaimHeld digest event subject claim (sight serde receipts (notificationId digest event subject)) ∧
      sight serde receipts (notificationId digest event subject) ≠ .oversize
  | .corrupt event subject =>
    sight serde receipts (notificationId digest event subject) = .corrupt ∨
      ∃ outcome, outcome.Final digest event subject ∧
        sight serde receipts (notificationId digest event subject) =
          .shown (finalReceipt subject outcome)

/-- **What every state keeps.** -/
structure NotificationWorld.Kept (serde : Serde) (digest : String → String)
    (w : NotificationWorld) : Prop where
  valid : ∀ event subject, sight serde w.receipts (notificationId digest event subject) ≠ .absent →
    validSubject event subject = true
  long : ∀ event subject, sight serde w.receipts (notificationId digest event subject) = .oversize →
    LongClaim serde digest event subject
  stands : ∀ event subject, Stands digest event subject
    (sight serde w.receipts (notificationId digest event subject))
  holds : ∀ p, PhaseHolds serde digest w.receipts (w.procs p)

section Worlds

variable {serde : Serde} {digest : String → String} {work : String}
variable {receipts receipts' : Receipts} {event : NotificationEvent} {subject : String} {now p : Nat}
variable {w w' : NotificationWorld} {action : NotificationAction} {phase : DispatchPhase}
variable {answer : Option NotificationOutcome}

theorem MovesOne.moves (hid : DistinctIds digest) (h : MovesOne serde digest receipts receipts')
    (event : NotificationEvent) (subject : String) : ReceiptMoves serde digest event subject
      (sight serde receipts (notificationId digest event subject))
      (sight serde receipts' (notificationId digest event subject)) := by
  rcases h with rfl | ⟨event', subject', text, rfl, hmoves⟩
  · exact .same _
  · rw [sight_put]
    split
    · rename_i hsame
      obtain ⟨rfl, rfl⟩ := hid _ _ _ _ hsame
      exact hmoves
    · exact .same _

theorem ClaimHeld.moved {claim : NotificationReceipt} {before after : ReceiptSight}
    (h : ClaimHeld digest event subject claim before) (hmoves : ReceiptMoves serde digest event subject before after) :
    ClaimHeld digest event subject claim after := by
  obtain ⟨secs, hsecs, hclaim, hshown⟩ := h
  refine ⟨secs, hsecs, hclaim, ?_⟩
  cases hmoves with
  | same => exact hshown
  | oversize => exact .inl rfl
  | torn => rcases hshown with h | h | ⟨_, -, h⟩ <;> cases h
  | claimed hvalid secs' hsecs' => rcases hshown with h | h | ⟨_, -, h⟩ <;> cases h
  | final secs' outcome hfinal => exact .inr (.inr ⟨outcome, hfinal, rfl⟩)
  | recovered outcome hfinal => exact .inr (.inr ⟨outcome, hfinal, rfl⟩)

/-- A phase of one process survives what another does. -/
theorem PhaseHolds.moved (hid : DistinctIds digest) (h : PhaseHolds serde digest receipts phase)
    (hmoves : MovesOne serde digest receipts receipts') : PhaseHolds serde digest receipts' phase := by
  cases phase with
  | idle => trivial
  | claimed command event subject claim => exact ClaimHeld.moved h (hmoves.moves hid event subject)
  | running argv event subject claim => exact ClaimHeld.moved h (hmoves.moves hid event subject)
  | stale event subject claim =>
    obtain ⟨hheld, hread⟩ := h
    have hmoved := hmoves.moves hid event subject
    refine ⟨hheld.moved hmoved, ?_⟩
    obtain ⟨secs, hsecs, -, hshown⟩ := hheld
    intro hlong
    rw [hlong] at hmoved
    generalize sight serde receipts (notificationId digest event subject) = before at *
    cases hmoved with
    | same => exact hread rfl
    | oversize => rcases hshown with h | h | ⟨_, -, h⟩ <;> cases h
  | corrupt event subject =>
    have hmoved := hmoves.moves hid event subject
    change _ ∨ _
    generalize sight serde receipts' (notificationId digest event subject) = after at *
    rcases h with h | ⟨outcome, hfinal, h⟩
    · rw [h] at hmoved
      cases hmoved with
      | same => exact .inl rfl
      | recovered outcome hfinal => exact .inr ⟨outcome, hfinal, rfl⟩
    · rw [h] at hmoved
      generalize hshown : ReceiptSight.shown (finalReceipt subject outcome) = before at hmoved
      cases hmoved with
      | same => exact .inr ⟨outcome, hfinal, hshown.symm⟩
      | oversize => cases hshown
      | torn => cases hshown
      | claimed hvalid secs hsecs => cases hshown
      | final secs outcome' hfinal' => exact .inr ⟨outcome', hfinal', rfl⟩
      | recovered outcome' hfinal' => cases hshown

theorem ReceiptMoves.valid {before after : ReceiptSight} (h : ReceiptMoves serde digest event subject before after)
    (hbefore : before ≠ .absent → validSubject event subject = true) (hafter : after ≠ .absent) :
    validSubject event subject = true := by
  cases h with
  | same => exact hbefore hafter
  | oversize hvalid hlong => exact hvalid
  | torn hvalid => exact hvalid
  | claimed hvalid secs hsecs => exact hvalid
  | final secs outcome hfinal => exact hbefore fun h => by cases h
  | recovered outcome hfinal => exact hbefore fun h => by cases h

theorem ReceiptMoves.long {before after : ReceiptSight} (h : ReceiptMoves serde digest event subject before after)
    (hbefore : before = .oversize → LongClaim serde digest event subject)
    (hafter : after = .oversize) : LongClaim serde digest event subject := by
  cases h with
  | same => exact hbefore hafter
  | oversize hvalid hlong => exact hlong
  | torn hvalid => cases hafter
  | claimed hvalid secs hsecs => cases hafter
  | final secs outcome hfinal => cases hafter
  | recovered outcome hfinal => cases hafter

/-- A final receipt does not move. -/
theorem ReceiptMoves.of_final {outcome : NotificationOutcome} {after : ReceiptSight}
    (h : ReceiptMoves serde digest event subject (.shown (finalReceipt subject outcome)) after) :
    after = .shown (finalReceipt subject outcome) := by
  generalize hshown : ReceiptSight.shown (finalReceipt subject outcome) = before at h
  cases h with
  | same => rfl
  | final secs outcome' hfinal =>
    have hstatus := congrArg NotificationReceipt.status (ReceiptSight.shown.inj hshown)
    cases hstatus
  | oversize => cases hshown
  | torn => cases hshown
  | claimed hvalid secs hsecs => cases hshown
  | recovered outcome' hfinal => cases hshown

theorem held_of_shown {secs : Nat} (hsecs : secs ≤ u64Max)
    (h : sight serde receipts (notificationId digest event subject) =
      .shown (claimReceipt digest event subject secs)) :
    ClaimHeld digest event subject (claimReceipt digest event subject secs)
      (sight serde receipts (notificationId digest event subject)) :=
  ⟨secs, hsecs, rfl, .inr (.inl h)⟩

variable (digest event subject) in
theorem final_outcome (status : NotificationStatus) {durationMs : Nat}
    (h : durationMs ≤ u128Max) :
    (outcome digest event subject status durationMs).Final digest event subject :=
  ⟨rfl, rfl, h, rfl, rfl⟩

variable (digest event subject) in
theorem final_corruptClaimOutcome :
    (corruptClaimOutcome digest event subject).Final digest event subject :=
  ⟨rfl, rfl, Nat.zero_le _, rfl, rfl⟩

variable (digest work event subject) in
/-- A claim that is answered as made has created its receipt. -/
theorem claimOrLoad_cases (hserde : serde.KeepsReceipts) (hnow : now ≤ u64Max)
    (receipts : Receipts) (fault : LockFault) :
    (∃ e, (claimOrLoad serde digest work receipts event subject now fault).2 = .error e) ∨
    (fault = .none ∧ receipts (notificationId digest event subject) = none ∧
      claimOrLoad serde digest work receipts event subject now fault =
        (receipts.put (notificationId digest event subject)
          (content serde (claimReceipt digest event subject now)),
          .ok (.claimed (claimReceipt digest event subject now))) ∧
      ClaimHeld digest event subject (claimReceipt digest event subject now)
        (sightOf serde (content serde (claimReceipt digest event subject now)))) ∨
    (fault = .none ∧ receipts (notificationId digest event subject) ≠ none ∧
      claimOrLoad serde digest work receipts event subject now fault =
        (receipts, loadExistingReceiptLocked serde work receipts event subject
          (notificationId digest event subject) now)) := by
  cases fault with
  | refused error => exact .inl ⟨error, rfl⟩
  | torn kept error =>
    left
    unfold claimOrLoad
    dsimp only
    split <;> exact ⟨error, rfl⟩
  | after error => exact .inl ⟨error, rfl⟩
  | none =>
    right
    unfold claimOrLoad claimOrLoadLocked
    dsimp only
    cases hreceipt : receipts (notificationId digest event subject) with
    | some text => exact .inr ⟨rfl, by simp, rfl⟩
    | none =>
      refine .inl ⟨rfl, rfl, rfl, now, hnow, rfl, ?_⟩
      exact (sightOf_whole hserde (claimReceipt_fits digest event subject hnow)).imp id .inl

variable (serde digest work w p action) in
/-- What one action of a process does: to the receipts, and to where the process is. -/
structure Acted (receipts' : Receipts) (phase : DispatchPhase) : Prop where
  moves : MovesOne serde digest w.receipts receipts'
  holds : PhaseHolds serde digest receipts' phase
  claims : ∀ command event subject claim, phase = .claimed command event subject claim →
    ∃ now, action = .dispatch (some command) event subject now .none ∧
      w.receipts (notificationId digest event subject) = none ∧
      claim = claimReceipt digest event subject now ∧
      receipts' = w.receipts.put (notificationId digest event subject) (content serde claim)

/-- An action that ends a dispatch. -/
theorem Acted.idle (h : MovesOne serde digest w.receipts receipts') :
    Acted serde digest w action receipts' .idle :=
  ⟨h, trivial, fun _ _ _ _ h => by cases h⟩

theorem begin_acted (hserde : serde.KeepsReceipts) (hkept : w.Kept serde digest)
    (hnow : now ≤ u64Max) {command : Option (List String)} {fault : LockFault}
    (h : (NotificationWorld.begin serde digest work w.receipts command event subject now fault).2 =
      .inr phase) :
    Acted serde digest w (.dispatch command event subject now fault)
      (NotificationWorld.begin serde digest work w.receipts command event subject now fault).1
      phase := by
  have hmoves := begin_moves digest work w.receipts event subject hserde hnow command fault
  unfold NotificationWorld.begin at h hmoves ⊢
  cases hready : NotificationWorld.ready digest command event subject with
  | error outcome => rw [hready] at h; cases h
  | ok argv =>
    obtain ⟨rfl, -⟩ := ready_eq_ok hready
    rw [hready] at h hmoves
    dsimp only at h hmoves ⊢
    rcases claimOrLoad_cases digest work event subject hserde hnow w.receipts fault with
      ⟨e, he⟩ | ⟨rfl, hnone, hclaim, hheld⟩ | ⟨rfl, -, hload⟩
    · rw [he] at h
      cases h
    · rw [hclaim] at h hmoves ⊢
      cases h
      refine ⟨hmoves, ?_, ?_⟩
      · change ClaimHeld _ _ _ _ (sight _ _ _)
        rw [sight_put, if_pos rfl]
        exact hheld
      · intro command event' subject' claim hphase
        cases hphase
        exact ⟨now, rfl, hnone, rfl, rfl⟩
    · rw [hload] at h hmoves ⊢
      dsimp only at h hmoves ⊢
      have hloads := loads work now (hkept.stands event subject)
      generalize hsight : sight serde w.receipts (notificationId digest event subject) = shown
        at hloads
      generalize loadExistingReceiptLocked serde work w.receipts event subject
        (notificationId digest event subject) now = loaded at h hloads
      cases hloads with
      | absent e => cases h
      | oversize e => cases h
      | final outcome hfinal => cases h
      | inProgress secs hsecs hfresh => cases h
      | corrupt =>
        cases h
        exact ⟨hmoves, .inl hsight, fun _ _ _ _ h => by cases h⟩
      | stale secs hsecs hstale =>
        cases h
        refine ⟨hmoves, ⟨held_of_shown hsecs hsight, ?_⟩, fun _ _ _ _ h => by cases h⟩
        rw [hsight]
        exact fun h => by cases h

/-- **What one action does.** -/
theorem acted (hserde : serde.KeepsReceipts) (hkept : w.Kept serde digest)
    (h : w.act serde digest work p action = some (w', answer)) :
    ∃ receipts' phase, w' = w.set p receipts' phase ∧
      Acted serde digest w action receipts' phase := by
  cases action with
  | dispatch command event subject now fault =>
    unfold NotificationWorld.act at h
    dsimp only at h
    split at h
    · split at h
      · rename_i hnow
        have hmoves := begin_moves digest work w.receipts event subject hserde hnow command fault
        split at h
        · cases h
          exact ⟨_, _, rfl, .idle hmoves⟩
        · rename_i phase hphase
          cases h
          exact ⟨_, _, rfl, begin_acted hserde hkept hnow hphase⟩
      · cases h
    · cases h
  | launch =>
    unfold NotificationWorld.act at h
    dsimp only at h
    split at h
    · rename_i command event subject claim hphase
      cases h
      have hheld := hkept.holds p
      rw [hphase] at hheld
      exact ⟨_, _, rfl, .inl rfl, hheld, fun _ _ _ _ h => by cases h⟩
    · cases h
  | finish verdict durationMs now fault =>
    unfold NotificationWorld.act at h
    dsimp only at h
    split at h
    · rename_i argv event subject claim hphase
      split at h
      · rename_i hbounds
        cases h
        exact ⟨_, _, rfl, .idle (finalizing_moves (saveFinalReceiptLocked_moves hserde
          (hkept.stands event subject) (final_outcome _ _ _ _ hbounds.2) claim))⟩
      · cases h
    · cases h
  | recover now fault =>
    unfold NotificationWorld.act at h
    dsimp only at h
    split at h
    · split at h
      · rename_i event subject claim hphase
        cases h
        exact ⟨_, _, rfl, .idle (finalizing_moves (saveFinalReceiptLocked_moves hserde
          (hkept.stands event subject) (final_outcome _ _ _ _ (Nat.zero_le _)) claim))⟩
      · rename_i event subject hphase
        cases h
        exact ⟨_, _, rfl, .idle (finalizing_moves (finalizeCorruptReceiptLocked_moves hserde
          (hkept.stands event subject) (final_corruptClaimOutcome _ _ _)))⟩
      · cases h
    · cases h
  | crash =>
    cases h
    exact ⟨_, _, rfl, .idle (.inl rfl)⟩

theorem notification_kept_initial : NotificationWorld.initial.Kept serde digest :=
  ⟨fun _ _ h => absurd rfl h, fun _ _ h => (by cases h), fun _ _ => .absent, fun _ => trivial⟩

/-- **One action keeps it.** -/
theorem kept_act (hserde : serde.KeepsReceipts) (hid : DistinctIds digest)
    (hkept : w.Kept serde digest) (h : w.act serde digest work p action = some (w', answer)) :
    w'.Kept serde digest := by
  obtain ⟨receipts', phase, rfl, hacted⟩ := acted hserde hkept h
  refine ⟨fun event subject hpresent => ?_, fun event subject hlong => ?_, fun event subject =>
    (hacted.moves.moves hid event subject).stands (hkept.stands event subject), fun q => ?_⟩
  · exact (hacted.moves.moves hid event subject).valid (hkept.valid event subject) hpresent
  · exact (hacted.moves.moves hid event subject).long (hkept.long event subject) hlong
  change PhaseHolds serde digest receipts' (Function.update w.procs p phase q)
  by_cases hq : q = p
  · rw [hq, Function.update_self]
    exact hacted.holds
  · rw [Function.update_of_ne hq]
    exact (hkept.holds q).moved hid hacted.moves

end Worlds

/-! ## Whole runs -/

/-- A step of a run: the world it is taken in, who takes it, and what. -/
abbrev NotificationStep := NotificationWorld × (Nat × NotificationAction)

/-- A step that launches the command for a pair. -/
def NotificationStep.Launches (x : NotificationStep) (event : NotificationEvent)
    (subject : String) : Prop :=
  x.2.2 = .launch ∧ ∃ command claim, x.1.procs x.2.1 = .claimed command event subject claim

/-- A step of process `p` that leaves the complete claim of a pair behind. -/
def NotificationStep.Claims (serde : Serde) (digest : String → String) (work : String)
    (x : NotificationStep) (p : Nat) (event : NotificationEvent) (subject : String) : Prop :=
  ∃ command now w', x.2 = (p, .dispatch (some command) event subject now .none) ∧
    x.1.receipts (notificationId digest event subject) = none ∧
    x.1.next serde digest work x.2 = some w' ∧
    w'.receipts (notificationId digest event subject) =
      some (content serde (claimReceipt digest event subject now))

/-- **What a run has launched.** -/
structure Launched (serde : Serde) (digest : String → String) (work : String)
    (tr : List NotificationStep) (w : NotificationWorld) : Prop where
  kept : w.Kept serde digest
  /-- One process at a time is about to launch for a pair. -/
  alone : ∀ p q event subject command command' claim claim',
    w.procs p = .claimed command event subject claim →
    w.procs q = .claimed command' event subject claim' → p = q
  present : ∀ p command event subject claim, w.procs p = .claimed command event subject claim →
    w.receipts (notificationId digest event subject) ≠ none
  fresh : ∀ p command event subject claim, w.procs p = .claimed command event subject claim →
    ∀ x ∈ tr, ¬NotificationStep.Launches x event subject
  launched : ∀ x ∈ tr, ∀ event subject, NotificationStep.Launches x event subject →
    w.receipts (notificationId digest event subject) ≠ none
  behind : ∀ p command event subject claim, w.procs p = .claimed command event subject claim →
    ∃ y ∈ tr, NotificationStep.Claims serde digest work y p event subject
  once : ∀ pre x mid y post event subject, tr = pre ++ x :: (mid ++ y :: post) →
    NotificationStep.Launches x event subject → ¬NotificationStep.Launches y event subject
  claimed : ∀ pre x post event subject, tr = pre ++ x :: post →
    NotificationStep.Launches x event subject →
      ∃ y ∈ pre, NotificationStep.Claims serde digest work y x.2.1 event subject

section Runs

variable {serde : Serde} {digest : String → String} {work : String}
variable {tr : List NotificationStep} {w w' : NotificationWorld} {step : Nat × NotificationAction}

theorem launched_initial : Launched serde digest work [] NotificationWorld.initial where
  kept := notification_kept_initial
  alone _ _ _ _ _ _ _ _ h := by cases h
  present _ _ _ _ _ h := by cases h
  fresh _ _ _ _ _ h := by cases h
  launched x hx := by cases hx
  behind _ _ _ _ _ h := by cases h
  once pre x mid y post event subject h := by cases pre <;> cases h
  claimed pre x post event subject h := by cases pre <;> cases h

theorem MovesOne.present {receipts receipts' : Receipts} (h : MovesOne serde digest receipts receipts')
    {id : String} (hid : receipts id ≠ none) : receipts' id ≠ none := by
  rcases h with rfl | ⟨event, subject, text, rfl, -⟩
  · exact hid
  · unfold Receipts.put
    split
    · simp
    · exact hid

/-- The last step of a run, or an earlier one. -/
theorem snoc_cases {pre post : List NotificationStep} {x z : NotificationStep}
    (h : tr ++ [z] = pre ++ x :: post) :
    (x = z ∧ pre = tr ∧ post = []) ∨ ∃ post', post = post' ++ [z] ∧ tr = pre ++ x :: post' := by
  rcases List.eq_nil_or_concat post with rfl | ⟨post', y, rfl⟩
  · obtain ⟨htr, hz⟩ := List.append_inj' h rfl
    exact .inl ⟨(List.singleton_inj.1 hz).symm, htr.symm, rfl⟩
  · have h' : tr ++ [z] = (pre ++ x :: post') ++ [y] := by simpa using h
    obtain ⟨htr, hz⟩ := List.append_inj' h' rfl
    obtain rfl := List.singleton_inj.1 hz
    exact .inr ⟨post', List.concat_eq_append, htr⟩

/-- **One step keeps it.** -/
theorem Launched.snoc (hserde : serde.KeepsReceipts) (hid : DistinctIds digest)
    (h : Launched serde digest work tr w) (hnext : w.next serde digest work step = some w') :
    Launched serde digest work (tr ++ [(w, step)]) w' := by
  obtain ⟨p, action⟩ := step
  have hwhole := hnext
  unfold NotificationWorld.next at hnext
  obtain ⟨⟨w₁, answer⟩, hact, rfl⟩ := Option.map_eq_some_iff.1 hnext
  change w.act serde digest work p action = some (w₁, answer) at hact
  have hkept := kept_act hserde hid h.kept hact
  obtain ⟨receipts', phase, rfl, hacted⟩ := acted hserde h.kept hact
  -- who is about to launch behind the step was so before it, or has just claimed
  have hold : ∀ q command event subject claim,
      (w.set p receipts' phase).procs q = .claimed command event subject claim →
      (q ≠ p ∧ w.procs q = .claimed command event subject claim) ∨
      (q = p ∧ phase = .claimed command event subject claim) := by
    intro q command event subject claim hq
    change Function.update w.procs p phase q = _ at hq
    by_cases hqp : q = p
    · rw [hqp, Function.update_self] at hq
      exact .inr ⟨hqp, hq⟩
    · rw [Function.update_of_ne hqp] at hq
      exact .inl ⟨hqp, hq⟩
  have hnew : ∀ command event subject claim, phase = .claimed command event subject claim →
      w.receipts (notificationId digest event subject) = none ∧
        (∀ q command claim, w.procs q ≠ .claimed command event subject claim) ∧
        (∀ x ∈ tr ++ [(w, (p, action))], ¬NotificationStep.Launches x event subject) ∧
        NotificationStep.Claims serde digest work (w, (p, action)) p event subject := by
    intro command event subject claim hphase
    obtain ⟨now, haction, hnone, rfl, hreceipts⟩ := hacted.claims _ _ _ _ hphase
    refine ⟨hnone, fun q command claim hq => h.present _ _ _ _ _ hq hnone, ?_, ?_⟩
    · intro x hx hlaunches
      rcases List.mem_append.1 hx with hx | hx
      · exact h.launched x hx _ _ hlaunches hnone
      · obtain rfl := List.mem_singleton.1 hx
        have hlaunch : action = .launch := hlaunches.1
        rw [haction] at hlaunch
        cases hlaunch
    · subst haction
      refine ⟨command, now, _, rfl, hnone, hwhole, ?_⟩
      change receipts' _ = _
      rw [hreceipts]
      exact if_pos rfl
  have hpresent : ∀ id, w.receipts id ≠ none → receipts' id ≠ none :=
    fun id hpresent => hacted.moves.present hpresent
  refine ⟨hkept, ?_, ?_, ?_, ?_, ?_, ?_, ?_⟩
  · intro q q' event subject command command' claim claim' hq hq'
    rcases hold _ _ _ _ _ hq with ⟨hqp, hq⟩ | ⟨hqp, hphase⟩ <;>
      rcases hold _ _ _ _ _ hq' with ⟨hqp', hq'⟩ | ⟨hqp', hphase'⟩
    · exact h.alone _ _ _ _ _ _ _ _ hq hq'
    · exact absurd hq ((hnew _ _ _ _ hphase').2.1 _ _ _)
    · exact absurd hq' ((hnew _ _ _ _ hphase).2.1 _ _ _)
    · exact hqp.trans hqp'.symm
  · intro q command event subject claim hq
    rcases hold _ _ _ _ _ hq with ⟨-, hq⟩ | ⟨-, hphase⟩
    · exact hpresent _ (h.present _ _ _ _ _ hq)
    · obtain ⟨now, -, -, -, hreceipts⟩ := hacted.claims _ _ _ _ hphase
      change receipts' _ ≠ none
      rw [hreceipts]
      unfold Receipts.put
      rw [if_pos rfl]
      simp
  · intro q command event subject claim hq x hx hlaunches
    rcases hold _ _ _ _ _ hq with ⟨hqp, hq⟩ | ⟨-, hphase⟩
    · rcases List.mem_append.1 hx with hx | hx
      · exact h.fresh _ _ _ _ _ hq x hx hlaunches
      · obtain rfl := List.mem_singleton.1 hx
        obtain ⟨-, command', claim', hp⟩ := hlaunches
        exact hqp (h.alone _ _ _ _ _ _ _ _ hq hp)
    · exact (hnew _ _ _ _ hphase).2.2.1 x hx hlaunches
  · intro x hx event subject hlaunches
    refine hpresent _ ?_
    rcases List.mem_append.1 hx with hx | hx
    · exact h.launched x hx event subject hlaunches
    · obtain rfl := List.mem_singleton.1 hx
      obtain ⟨-, command', claim', hp⟩ := hlaunches
      exact h.present _ _ _ _ _ hp
  · intro q command event subject claim hq
    rcases hold _ _ _ _ _ hq with ⟨-, hq⟩ | ⟨rfl, hphase⟩
    · obtain ⟨y, hy, hclaims⟩ := h.behind _ _ _ _ _ hq
      exact ⟨y, List.mem_append_left _ hy, hclaims⟩
    · exact ⟨_, List.mem_append_right _ List.mem_cons_self, (hnew _ _ _ _ hphase).2.2.2⟩
  · intro pre x mid y post event subject htr hx hy
    have htr' : tr ++ [(w, (p, action))] = (pre ++ x :: mid) ++ y :: post := by simpa using htr
    rcases snoc_cases htr' with ⟨rfl, hpre, -⟩ | ⟨post', -, hpre⟩
    · obtain ⟨-, command, claim, hp⟩ := hy
      refine h.fresh _ _ _ _ _ hp x ?_ hx
      rw [← hpre]
      exact List.mem_append_right _ List.mem_cons_self
    · exact h.once pre x mid y post' event subject (by simpa using hpre) hx hy
  · intro pre x post event subject htr hx
    rcases snoc_cases htr with ⟨rfl, rfl, -⟩ | ⟨post', -, hpre⟩
    · obtain ⟨-, command, claim, hp⟩ := hx
      exact h.behind _ _ _ _ _ hp
    · exact h.claimed pre x post' event subject hpre hx

theorem launched (hserde : serde.KeepsReceipts) (hid : DistinctIds digest)
    (h : Run (NotificationWorld.next serde digest work) .initial tr w) :
    Launched serde digest work tr w := by
  induction h with
  | nil => exact launched_initial
  | snoc _ hnext ih => exact ih.snoc hserde hid hnext

/-- The receipt of a pair is final, and this is the outcome it reports. -/
def Settled (serde : Serde) (digest : String → String) (work : String) (receipts : Receipts)
    (event : NotificationEvent) (subject : String) (outcome : NotificationOutcome) : Prop :=
  ∀ now, loadExistingReceiptLocked serde work receipts event subject
    (notificationId digest event subject) now = .ok (.final outcome)

/-- Every receipt of the pair is short enough to be read again. -/
structure Short (serde : Serde) (digest : String → String) (event : NotificationEvent)
    (subject : String) : Prop where
  claim : ∀ secs ≤ u64Max, (utf8 (content serde (claimReceipt digest event subject secs))).length ≤
    notificationReceiptMaxBytes
  final : ∀ outcome : NotificationOutcome, outcome.Final digest event subject →
    (utf8 (content serde (finalReceipt subject outcome))).length ≤ notificationReceiptMaxBytes

section Settling

variable {receipts : Receipts} {event : NotificationEvent} {subject : String} {now p : Nat}
variable {outcome : NotificationOutcome} {action : NotificationAction}
variable {answer : Option NotificationOutcome}

theorem finalReceipt_inj {other : NotificationOutcome} (h : outcome.Final digest event subject)
    (hother : other.Final digest event subject)
    (heq : finalReceipt subject outcome = finalReceipt subject other) : outcome = other := by
  obtain ⟨id, event₁, status, reason, durationMs, errorClass, resolution⟩ := outcome
  obtain ⟨id', event₂, status', reason', durationMs', errorClass', resolution'⟩ := other
  obtain ⟨hid, hevent, -, herror, hresolution⟩ := h
  obtain ⟨hid', hevent', -, herror', hresolution'⟩ := hother
  dsimp only at hid hevent herror hresolution hid' hevent' herror' hresolution'
  unfold finalReceipt at heq
  simp only [NotificationReceipt.mk.injEq, Option.some.injEq, true_and] at heq
  rw [hid, hid', hevent, hevent', herror, herror', hresolution, hresolution', heq.2.2.1, heq.2.2.2.1,
    heq.2.2.2.2.1]

variable (work) in
/-- A final receipt is settled. -/
theorem settled_of_shown (hfinal : outcome.Final digest event subject)
    (h : sight serde receipts (notificationId digest event subject) =
      .shown (finalReceipt subject outcome)) :
    Settled serde digest work receipts event subject outcome := by
  intro now
  have hstands : Stands digest event subject
      (sight serde receipts (notificationId digest event subject)) := h ▸ .final outcome hfinal
  have hloads := loads work now hstands
  rw [h] at hloads
  generalize hshown : ReceiptSight.shown (finalReceipt subject outcome) = shown at hloads
  generalize loadExistingReceiptLocked serde work receipts event subject
    (notificationId digest event subject) now = loaded at hloads
  cases hloads with
  | absent e => cases hshown
  | oversize e => cases hshown
  | corrupt => cases hshown
  | stale secs hsecs hstale =>
    cases congrArg NotificationReceipt.status (ReceiptSight.shown.inj hshown)
  | inProgress secs hsecs hfresh =>
    cases congrArg NotificationReceipt.status (ReceiptSight.shown.inj hshown)
  | final other hother =>
    rw [finalReceipt_inj hfinal hother (ReceiptSight.shown.inj hshown)]

/-- What is settled is a final receipt. -/
theorem Settled.shown (h : Settled serde digest work receipts event subject outcome)
    (hstands : Stands digest event subject
      (sight serde receipts (notificationId digest event subject))) :
    outcome.Final digest event subject ∧
      sight serde receipts (notificationId digest event subject) =
        .shown (finalReceipt subject outcome) := by
  have hloads := loads work 0 hstands
  rw [h 0] at hloads
  generalize hsight : sight serde receipts (notificationId digest event subject) = shown at hloads
  cases hloads with
  | final other hfinal => exact ⟨hfinal, rfl⟩

/-- **What is settled stays**, whatever is done. -/
theorem settled_act (hserde : serde.KeepsReceipts) (hid : DistinctIds digest)
    (hkept : w.Kept serde digest) (h : w.act serde digest work p action = some (w', answer))
    (hsettled : Settled serde digest work w.receipts event subject outcome) :
    Settled serde digest work w'.receipts event subject outcome := by
  obtain ⟨hfinal, hshown⟩ := hsettled.shown (hkept.stands event subject)
  obtain ⟨receipts', phase, rfl, hacted⟩ := acted hserde hkept h
  have hmoves := hacted.moves.moves hid event subject
  rw [hshown] at hmoves
  exact settled_of_shown work hfinal hmoves.of_final

theorem kept_run (hserde : serde.KeepsReceipts) (hid : DistinctIds digest)
    (h : Run (NotificationWorld.next serde digest work) w tr w') (hkept : w.Kept serde digest) :
    w'.Kept serde digest := by
  induction h with
  | nil => exact hkept
  | snoc _ hnext ih =>
    obtain ⟨⟨w₁, answer⟩, hact, rfl⟩ := Option.map_eq_some_iff.1 hnext
    exact kept_act hserde hid ih hact

theorem settled_run (hserde : serde.KeepsReceipts) (hid : DistinctIds digest)
    (h : Run (NotificationWorld.next serde digest work) w tr w') (hkept : w.Kept serde digest)
    (hsettled : Settled serde digest work w.receipts event subject outcome) :
    Settled serde digest work w'.receipts event subject outcome := by
  induction h with
  | nil => exact hsettled
  | snoc hrun hnext ih =>
    obtain ⟨⟨w₁, answer⟩, hact, rfl⟩ := Option.map_eq_some_iff.1 hnext
    exact settled_act hserde hid (kept_run hserde hid hrun hkept) hact ih

/-- What others do leaves a process where it is. -/
theorem procs_run (hserde : serde.KeepsReceipts) (hid : DistinctIds digest)
    (h : Run (NotificationWorld.next serde digest work) w tr w') (hkept : w.Kept serde digest)
    (hothers : ∀ x ∈ tr, x.2.1 ≠ p) : w'.procs p = w.procs p := by
  induction h with
  | nil => rfl
  | @snoc tr t step u hrun hnext ih =>
    obtain ⟨⟨w₁, answer⟩, hact, rfl⟩ := Option.map_eq_some_iff.1 hnext
    obtain ⟨receipts', phase, rfl, -⟩ := acted hserde (kept_run hserde hid hrun hkept) hact
    have hp : p ≠ step.1 :=
      (hothers (t, step) (List.mem_append_right _ List.mem_cons_self)).symm
    rw [← ih fun x hx => hothers x (List.mem_append_left _ hx)]
    exact Function.update_of_ne hp _ _

/-- A claim of a pair whose receipt is settled is answered with its outcome, or fails. -/
theorem claimOrLoad_settled (hserde : serde.KeepsReceipts) (hnow : now ≤ u64Max)
    (hsettled : Settled serde digest work receipts event subject outcome) (fault : LockFault) :
    (∃ e, (claimOrLoad serde digest work receipts event subject now fault).2 = .error e ∧
      fault ≠ .none) ∨
    claimOrLoad serde digest work receipts event subject now fault = (receipts, .ok (.final outcome)) := by
  rcases claimOrLoad_cases digest work event subject hserde hnow receipts fault with ⟨e, he⟩ | ⟨-, hnone, -⟩ | ⟨-, -, hload⟩
  · refine or_iff_not_imp_right.2 fun hne => ⟨e, he, ?_⟩
    rintro rfl
    unfold claimOrLoad claimOrLoadLocked at he hne
    dsimp only at he hne
    split at he
    · cases he
    · rw [hsettled now] at he
      cases he
  · have hload := hsettled now
    unfold loadExistingReceiptLocked at hload
    rw [hnone] at hload
    cases hload
  · rw [hsettled now] at hload
    exact .inr hload

/-- **A later dispatch reports** the settled outcome; without a command, or where its lock fails, it
reports that. -/
theorem dispatch_settled (hserde : serde.KeepsReceipts) (hkept : w.Kept serde digest)
    (hsettled : Settled serde digest work w.receipts event subject outcome)
    {command : Option (List String)} {fault : LockFault}
    (h : w.act serde digest work p (.dispatch command event subject now fault) =
      some (w', answer)) :
    (∃ o, answer = some o ∧
      (o = outcome ∨ o.resolution = .retry ∨ (command = none ∧ o.status = .disabled))) ∧
    ((∃ program args, command = some (program :: args) ∧ program ≠ "") → fault = .none →
      answer = some outcome) := by
  have hpresent : sight serde w.receipts (notificationId digest event subject) ≠ .absent := by
    rw [(hsettled.shown (hkept.stands event subject)).2]
    exact fun h => by cases h
  have hvalid := hkept.valid event subject hpresent
  unfold NotificationWorld.act at h
  dsimp only at h
  split at h
  · split at h
    · rename_i hnow
      unfold NotificationWorld.begin NotificationWorld.ready at h
      rw [if_pos hvalid] at h
      cases command with
      | none =>
        cases h
        exact ⟨⟨_, rfl, .inr (.inr ⟨rfl, rfl⟩)⟩, fun ⟨_, _, hcommand, _⟩ => by cases hcommand⟩
      | some argv =>
        cases argv with
        | nil =>
          cases h
          exact ⟨⟨_, rfl, .inr (.inl rfl)⟩, fun ⟨_, _, hcommand, _⟩ => by cases hcommand⟩
        | cons program args =>
          by_cases hprogram : program = ""
          · rw [hprogram] at h
            cases h
            refine ⟨⟨_, rfl, .inr (.inl rfl)⟩, ?_⟩
            rintro ⟨program', args', hcommand, hne⟩
            cases hcommand
            exact absurd hprogram hne
          · dsimp only at h
            rw [if_neg hprogram] at h
            dsimp only at h
            rcases claimOrLoad_settled hserde hnow hsettled fault with ⟨e, he, hfault⟩ | hload
            · rw [he] at h
              cases h
              exact ⟨⟨_, rfl, .inr (.inl rfl)⟩, fun _ hnone => absurd hnone hfault⟩
            · rw [hload] at h
              cases h
              exact ⟨⟨_, rfl, .inl rfl⟩, fun _ _ => rfl⟩
    · cases h
  · cases h

/-- A final receipt that is written is settled. -/
theorem settled_put (hserde : serde.KeepsReceipts) (hfinal : outcome.Final digest event subject)
    (hshort : (utf8 (content serde (finalReceipt subject outcome))).length ≤
      notificationReceiptMaxBytes) :
    Settled serde digest work (receipts.put (notificationId digest event subject)
      (content serde (finalReceipt subject outcome))) event subject outcome := by
  refine settled_of_shown work hfinal ?_
  rw [sight_put, if_pos rfl]
  exact sightOf_content hserde (finalReceipt_fits hfinal) hshort

theorem writeFinalReceiptLocked_short (hfinal : outcome.Final digest event subject)
    (hshort : (utf8 (content serde (finalReceipt subject outcome))).length ≤
      notificationReceiptMaxBytes) :
    writeFinalReceiptLocked serde receipts subject outcome =
      (receipts.put (notificationId digest event subject)
        (content serde (finalReceipt subject outcome)), .ok outcome) := by
  unfold writeFinalReceiptLocked
  dsimp only
  rw [if_neg (Nat.not_lt.2 hshort), hfinal.id]

/-- **A claim that still stands is finalized.** -/
theorem saveFinalReceiptLocked_shown {secs : Nat} (hsecs : secs ≤ u64Max)
    (hsight : sight serde receipts (notificationId digest event subject) =
      .shown (claimReceipt digest event subject secs))
    (hfinal : outcome.Final digest event subject)
    (hshort : (utf8 (content serde (finalReceipt subject outcome))).length ≤
      notificationReceiptMaxBytes) :
    saveFinalReceiptLocked serde work receipts subject (claimReceipt digest event subject secs)
        outcome now =
      (receipts.put (notificationId digest event subject)
        (content serde (finalReceipt subject outcome)), .ok outcome) := by
  have hstands : Stands digest event subject
      (sight serde receipts (notificationId digest event subject)) :=
    hsight ▸ .claimed secs hsecs
  have hloads := loads work now hstands
  have hwritten : writeFinalReceiptLocked serde receipts subject outcome = _ :=
    writeFinalReceiptLocked_short hfinal hshort
  unfold saveFinalReceiptLocked
  rw [hfinal.id, hfinal.event]
  rw [hsight] at hloads
  generalize hshown : ReceiptSight.shown (claimReceipt digest event subject secs) = shown at hloads
  generalize loadExistingReceiptLocked serde work receipts event subject
    (notificationId digest event subject) now = loaded at hloads
  cases hloads with
  | absent e => cases hshown
  | oversize e => cases hshown
  | corrupt => cases hshown
  | stale secs' hsecs' hstale =>
    dsimp only
    rw [if_pos (ReceiptSight.shown.inj hshown).symm, hwritten]
  | inProgress secs' hsecs' hfresh =>
    dsimp only
    rw [if_pos (ReceiptSight.shown.inj hshown).symm, hwritten]
  | final other hother =>
    cases congrArg NotificationReceipt.status (ReceiptSight.shown.inj hshown)

/-- **A recovery settles its receipt.** -/
theorem recover_settles (hserde : serde.KeepsReceipts) (hkept : w.Kept serde digest)
    (hshort : Short serde digest event subject) (hnow : now ≤ u64Max)
    (hphase : (∃ claim, w.procs p = .stale event subject claim) ∨ w.procs p = .corrupt event subject) :
    ∃ w' answer, w.act serde digest work p (.recover now .none) = some (w', answer) ∧
      ∃ outcome, Settled serde digest work w'.receipts event subject outcome := by
  have hholds := hkept.holds p
  unfold NotificationWorld.act
  dsimp only
  rw [if_pos hnow]
  rcases hphase with ⟨claim, hphase⟩ | hphase
  · rw [hphase] at hholds ⊢
    refine ⟨_, _, rfl, ?_⟩
    obtain ⟨⟨secs, hsecs, rfl, hshown⟩, hread⟩ := hholds
    have hfinal := final_outcome digest event subject .unknown
      (Nat.zero_le u128Max)
    change ∃ outcome', Settled serde digest work (saveFinalReceiptLocked serde work w.receipts subject
      (claimReceipt digest event subject secs) _ now).1 event subject outcome'
    rcases hshown with hlong | hclaim | ⟨outcome, houtcome, hshown⟩
    · exact absurd hlong hread
    · rw [saveFinalReceiptLocked_shown hsecs hclaim hfinal (hshort.final _ hfinal)]
      exact ⟨_, settled_put hserde hfinal (hshort.final _ hfinal)⟩
    · have hsettled := settled_of_shown work houtcome hshown
      refine ⟨outcome, ?_⟩
      unfold saveFinalReceiptLocked
      rw [hfinal.id, hfinal.event, hsettled now]
      exact hsettled
  · rw [hphase] at hholds ⊢
    refine ⟨_, _, rfl, ?_⟩
    have hfinal := final_corruptClaimOutcome digest event subject
    change ∃ outcome', Settled serde digest work (finalizeCorruptReceiptLocked serde work w.receipts
      subject _ now).1 event subject outcome'
    unfold finalizeCorruptReceiptLocked
    rw [hfinal.id, hfinal.event]
    rcases hholds with hcorrupt | ⟨outcome, houtcome, hshown⟩
    · have hloads := loads work now (hkept.stands event subject)
      rw [hcorrupt] at hloads
      generalize hshown : ReceiptSight.corrupt = shown at hloads
      generalize loadExistingReceiptLocked serde work w.receipts event subject
        (notificationId digest event subject) now = loaded at hloads
      cases hloads with
      | corrupt =>
        dsimp only
        rw [writeFinalReceiptLocked_short hfinal (hshort.final _ hfinal)]
        exact ⟨_, settled_put hserde hfinal (hshort.final _ hfinal)⟩
      | absent e => cases hshown
      | oversize e => cases hshown
      | stale secs hsecs hstale => cases hshown
      | inProgress secs hsecs hfresh => cases hshown
      | final outcome hfinal => cases hshown
    · have hsettled := settled_of_shown work houtcome hshown
      rw [hsettled now]
      exact ⟨outcome, hsettled⟩

variable (work) in
/-- **A dispatch behind the staleness bound** meets a settled receipt, or goes on to settle it. -/
theorem dispatch_recovers (args : List String) (hkept : w.Kept serde digest)
    (hshort : Short serde digest event subject) (hnow : now ≤ u64Max) (hidle : w.procs p = .idle)
    (hpresent : w.receipts (notificationId digest event subject) ≠ none)
    (hpast : ∀ secs, sight serde w.receipts (notificationId digest event subject) =
      .shown (claimReceipt digest event subject secs) → claimIsStale (some secs) now = true)
    {program : String} (hprogram : program ≠ "") :
    ∃ w' answer, w.act serde digest work p
        (.dispatch (some (program :: args)) event subject now .none) = some (w', answer) ∧
      ((∃ outcome, Settled serde digest work w'.receipts event subject outcome) ∨
        (∃ claim, w'.procs p = .stale event subject claim) ∨ w'.procs p = .corrupt event subject) := by
  have hshown : sight serde w.receipts (notificationId digest event subject) ≠ .absent :=
    fun h => hpresent (receipts_of_absent h)
  have hvalid := hkept.valid event subject hshown
  have hloads := loads work now (hkept.stands event subject)
  have hclaimed : claimOrLoad serde digest work w.receipts event subject now .none =
      (w.receipts, loadExistingReceiptLocked serde work w.receipts event subject
        (notificationId digest event subject) now) := by
    unfold claimOrLoad claimOrLoadLocked
    dsimp only
    split
    · rename_i hnone
      exact absurd hnone hpresent
    · rfl
  have hsettled : ∀ outcome, outcome.Final digest event subject →
      sight serde w.receipts (notificationId digest event subject) =
        .shown (finalReceipt subject outcome) →
      Settled serde digest work w.receipts event subject outcome :=
    fun _ hfinal hshown => settled_of_shown work hfinal hshown
  have hlong := hkept.long event subject
  unfold NotificationWorld.act NotificationWorld.begin NotificationWorld.ready
  dsimp only
  rw [hidle, if_pos hvalid, if_neg hprogram]
  dsimp only
  rw [if_pos hnow, hclaimed]
  dsimp only
  generalize hsight : sight serde w.receipts (notificationId digest event subject) = shown
    at hloads hshown hpast hlong
  generalize loadExistingReceiptLocked serde work w.receipts event subject
    (notificationId digest event subject) now = loaded at hloads
  cases hloads with
  | absent e => exact absurd rfl hshown
  | oversize e =>
    obtain ⟨secs, hsecs, hlong⟩ := hlong rfl
    exact absurd (hshort.claim secs hsecs) (Nat.not_le.2 hlong)
  | corrupt => exact ⟨_, _, rfl, .inr (.inr (Function.update_self _ _ _))⟩
  | stale secs hsecs hstale => exact ⟨_, _, rfl, .inr (.inl ⟨_, Function.update_self _ _ _⟩)⟩
  | inProgress secs hsecs hfresh =>
    rw [hpast secs rfl] at hfresh
    cases hfresh
  | final outcome hfinal => exact ⟨_, _, rfl, .inl ⟨outcome, hsettled outcome hfinal hsight⟩⟩

/-- **The operator is notified at most once.** In every run, for every pair: its command is launched at
most once, by a process that has left the complete claim behind; a final receipt stays, and later
dispatches report it; and a dispatch behind the staleness bound that gets through its two operations
leaves a final receipt, whatever others do in between. -/
theorem notified_once (hserde : serde.KeepsReceipts) (hid : DistinctIds digest)
    (h : Run (NotificationWorld.next serde digest work) .initial tr w) :
    (∀ pre x mid y post event subject, tr = pre ++ x :: (mid ++ y :: post) →
      NotificationStep.Launches x event subject → ¬NotificationStep.Launches y event subject) ∧
    (∀ pre x post event subject, tr = pre ++ x :: post → NotificationStep.Launches x event subject →
      ∃ y ∈ pre, NotificationStep.Claims serde digest work y x.2.1 event subject) ∧
    (∀ event subject outcome, Settled serde digest work w.receipts event subject outcome →
      ∀ tr' w', Run (NotificationWorld.next serde digest work) w tr' w' →
        Settled serde digest work w'.receipts event subject outcome ∧
        ∀ p command now fault w'' answer,
          w'.act serde digest work p (.dispatch command event subject now fault) =
            some (w'', answer) →
          (∃ o, answer = some o ∧
            (o = outcome ∨ o.resolution = .retry ∨ (command = none ∧ o.status = .disabled))) ∧
          ((∃ program args, command = some (program :: args) ∧ program ≠ "") → fault = .none →
            answer = some outcome)) ∧
    ∀ event subject, Short serde digest event subject →
      w.receipts (notificationId digest event subject) ≠ none →
      ∀ p program args now, now ≤ u64Max → program ≠ "" → w.procs p = .idle →
        (∀ secs, sight serde w.receipts (notificationId digest event subject) =
          .shown (claimReceipt digest event subject secs) → claimIsStale (some secs) now = true) →
        ∃ w₁ answer, w.act serde digest work p
            (.dispatch (some (program :: args)) event subject now .none) = some (w₁, answer) ∧
          ((∃ outcome, Settled serde digest work w₁.receipts event subject outcome) ∨
            ∀ tr' w₂, Run (NotificationWorld.next serde digest work) w₁ tr' w₂ →
              (∀ x ∈ tr', x.2.1 ≠ p) → ∀ now' ≤ u64Max, ∃ w₃ answer',
                w₂.act serde digest work p (.recover now' .none) = some (w₃, answer') ∧
                ∃ outcome, Settled serde digest work w₃.receipts event subject outcome) := by
  have hlaunched := launched hserde hid h
  refine ⟨hlaunched.once, hlaunched.claimed, ?_, ?_⟩
  · intro event subject outcome hsettled tr' w' hrun
    have hlater := settled_run hserde hid hrun hlaunched.kept hsettled
    refine ⟨hlater, fun p command now fault w'' answer hact => ?_⟩
    exact dispatch_settled hserde (kept_run hserde hid hrun hlaunched.kept) hlater hact
  · intro event subject hshort hpresent p program args now hnow hprogram hidle hpast
    obtain ⟨w₁, answer, hact, hgoes⟩ := dispatch_recovers work args hlaunched.kept hshort hnow hidle
      hpresent hpast hprogram
    refine ⟨w₁, answer, hact, hgoes.imp id fun hphase => ?_⟩
    intro tr' w₂ hrun hothers now' hnow'
    have hkept₁ := kept_act hserde hid hlaunched.kept hact
    have hkept₂ := kept_run hserde hid hrun hkept₁
    refine recover_settles hserde hkept₂ hshort hnow' ?_
    rw [procs_run hserde hid hrun hkept₁ hothers]
    exact hphase

end Settling

end Runs

/-! ## One notification, and a report of it that is lost -/

section Answers

variable {serde : Serde} {digest : String → String} {work : String} {w : NotificationWorld}
variable {event : NotificationEvent} {subject : String} {now p : Nat}

theorem act_dispatch {command : Option (List String)} {argv : List String} {fault : LockFault}
    (hidle : w.procs p = .idle) (hnow : now ≤ u64Max)
    (hready : NotificationWorld.ready digest command event subject = .ok argv)
    (hnone : w.receipts (notificationId digest event subject) = none) (hfault : fault = .none) :
    w.act serde digest work p (.dispatch command event subject now fault) =
      some (w.set p (w.receipts.put (notificationId digest event subject)
          (content serde (claimReceipt digest event subject now)))
        (.claimed argv event subject (claimReceipt digest event subject now)), none) := by
  subst hfault
  unfold NotificationWorld.act NotificationWorld.begin claimOrLoad claimOrLoadLocked
  dsimp only
  rw [hidle, hready]
  dsimp only
  rw [if_pos hnow, hnone]

theorem act_finish {argv : List String} {claim : NotificationReceipt} {verdict : SuperviseReason}
    {durationMs : Nat} {done : Receipts × Except NotificationError NotificationOutcome}
    (hrunning : w.procs p = .running argv event subject claim)
    (hbounds : now ≤ u64Max ∧ durationMs ≤ u128Max)
    (hsaved : saveFinalReceiptLocked serde work w.receipts subject claim
      (outcome digest event subject verdict.status durationMs) now = done) :
    w.act serde digest work p (.finish verdict durationMs now .none) =
      some (w.set p done.1 .idle,
        some (NotificationWorld.answered digest event subject durationMs done.2)) := by
  unfold NotificationWorld.act
  dsimp only
  rw [hrunning]
  dsimp only
  rw [if_pos hbounds, hsaved]
  rfl

variable (serde work) in
/-- A dispatch whose lock is not released reports a failure. -/
theorem act_dispatch_after {command : Option (List String)} {argv : List String}
    (error : NotificationError) (hidle : w.procs p = .idle) (hnow : now ≤ u64Max)
    (hready : NotificationWorld.ready digest command event subject = .ok argv) :
    ∃ w', w.act serde digest work p (.dispatch command event subject now (.after error)) =
      some (w', some (failureOutcome digest event subject 0 error)) := by
  unfold NotificationWorld.act NotificationWorld.begin claimOrLoad
  dsimp only
  rw [hidle, hready]
  dsimp only
  rw [if_pos hnow]
  exact ⟨_, rfl⟩

variable (serde work) in
/-- A dispatch without a command, and one of an invalid subject, goes no further. -/
theorem act_dispatch_unready {command : Option (List String)} {o : NotificationOutcome}
    (fault : LockFault) (hidle : w.procs p = .idle) (hnow : now ≤ u64Max)
    (hready : NotificationWorld.ready digest command event subject = .error o) :
    ∃ w', w.act serde digest work p (.dispatch command event subject now fault) =
      some (w', some o) := by
  unfold NotificationWorld.act NotificationWorld.begin
  dsimp only
  rw [hidle, hready]
  dsimp only
  rw [if_pos hnow]
  exact ⟨_, rfl⟩

end Answers

namespace NotificationSample

/-- The tallies, read to their closing brace only. -/
def sealed : Serde where
  render := Tally.codec.render
  read s := if s.toList.contains '\x7d' then Tally.codec.read s else .error "no end"

theorem sealed_reads (value : Json) (after : String) (h : Tally.count 0 ('\x7d' :: after.toList) = []) :
    sealed.read (sealed.render value ++ after) = .ok value := by
  have hend : (sealed.render value ++ after).toList.contains '\x7d' = true := by
    simp [sealed, Tally.codec]
  change (if (sealed.render value ++ after).toList.contains '\x7d' = true then _ else _) = _
  rw [if_pos hend]
  exact Tally.read_render value after h

theorem strokes_open (n : Nat) : '\x7d' ∉ Tally.strokes n := by
  unfold Tally.strokes
  intro h
  rcases List.mem_append.1 h with h | h
  · exact absurd (List.eq_of_mem_replicate h) (by decide)
  · exact absurd (List.mem_singleton.1 h) (by decide)

theorem sealed_keeps : sealed.KeepsReceipts where
  read receipt _ := by
    have hnone := sealed_reads receipt.toJson "" (by decide)
    rw [String.append_empty] at hnone
    exact ⟨hnone, sealed_reads receipt.toJson "\n" (by decide)⟩
  torn receipt _ k hk := by
    refine ⟨"no end", if_neg ?_⟩
    simp only [sealed, Tally.codec, String.toList_ofList] at hk ⊢
    rw [List.length_append, List.length_singleton] at hk
    rw [List.take_append_of_le_length (Nat.le_of_lt_succ hk), List.contains_iff_mem]
    intro hmem
    rcases List.mem_cons.1 (List.mem_of_mem_take hmem) with h | h
    · exact absurd h (by decide)
    · obtain ⟨n, -, hn⟩ := List.mem_flatMap.1 h
      exact strokes_open n hn

theorem distinct : DistinctIds id := by
  intro event subject event' subject' h
  have hbar : ∀ event : NotificationEvent, '|' ∉ event.asStr.toList := by
    intro event
    cases event <;> decide
  unfold notificationId notificationText at h
  simp only [toString, id] at h
  obtain ⟨hevent, hsubject⟩ := bar_inj (hbar event) (hbar event') (String.append_right_inj "nfy-" |>.1 h)
  refine ⟨?_, hsubject⟩
  cases event <;> cases event' <;> first | rfl | exact absurd hevent (by decide)

def claim : NotificationReceipt := claimReceipt id .taskEscalated "T-1" 100

def claimFile : String := content sealed claim

def notify : NotificationAction := .dispatch (some ["notify"]) .taskEscalated "T-1" 100 .none

def claimedWorld : NotificationWorld :=
  NotificationWorld.initial.set 0 (Receipts.put (fun _ => none) claim.id claimFile)
    (.claimed ["notify"] .taskEscalated "T-1" claim)

def runningWorld : NotificationWorld :=
  claimedWorld.set 0 claimedWorld.receipts
    (.running (NotificationWorld.launchArgv ["notify"] .taskEscalated "T-1") .taskEscalated "T-1"
      claim)

def sent : NotificationOutcome := outcome id .taskEscalated "T-1" .sent 5

def sentWorld : NotificationWorld :=
  runningWorld.set 0 (runningWorld.receipts.put claim.id (content sealed (finalReceipt "T-1" sent)))
    .idle

theorem ready : NotificationWorld.ready id (some ["notify"]) .taskEscalated "T-1" =
    .ok ["notify"] := by
  have hvalid : validSubject .taskEscalated "T-1" = true := by decide +kernel
  unfold NotificationWorld.ready
  rw [if_pos hvalid]
  exact if_neg (by decide)

theorem act_claim :
    NotificationWorld.initial.act sealed id ".work" 0 notify = some (claimedWorld, none) :=
  act_dispatch rfl (by decide) ready rfl rfl

theorem act_launch : claimedWorld.act sealed id ".work" 0 .launch = some (runningWorld, none) := rfl

theorem length_content (receipt : NotificationReceipt) : (utf8 (content sealed receipt)).length =
    ((Tally.encode receipt.toJson).map (· + 1)).sum + 3 := by
  have hline : (utf8 "\n").length = 1 := by decide
  have hlength := Tally.length_render receipt.toJson "\n"
  rw [hline] at hlength
  exact hlength

theorem contents_short :
    (utf8 (content sealed claim)).length ≤ notificationReceiptMaxBytes ∧
      (utf8 (content sealed (finalReceipt "T-1" sent))).length ≤ notificationReceiptMaxBytes := by
  rw [length_content, length_content]
  decide +kernel

theorem final_sent : sent.Final id .taskEscalated "T-1" := final_outcome _ _ _ _ (by decide)

theorem sight_claim : sight sealed runningWorld.receipts claim.id = .shown claim := by
  have hsight := sightOf_content sealed_keeps
    (claimReceipt_fits id .taskEscalated "T-1" (by decide)) contents_short.1
  change sight sealed (Receipts.put (fun _ => none) claim.id claimFile) claim.id = _
  rw [sight_put, if_pos rfl]
  exact hsight

theorem finish_sent : runningWorld.act sealed id ".work" 0 (.finish .ok 5 101 .none) =
    some (sentWorld, some sent) := by
  have hsaved : saveFinalReceiptLocked sealed ".work" runningWorld.receipts "T-1" claim sent 101 =
      (runningWorld.receipts.put claim.id (content sealed (finalReceipt "T-1" sent)), .ok sent) :=
    saveFinalReceiptLocked_shown (by decide) sight_claim final_sent contents_short.2
  have hrunning : runningWorld.procs 0 = .running (NotificationWorld.launchArgv ["notify"]
      .taskEscalated "T-1") .taskEscalated "T-1" claim := rfl
  have hbounds : 101 ≤ u64Max ∧ 5 ≤ u128Max := by decide
  have hverdict : sent = outcome id .taskEscalated "T-1" (SuperviseReason.status .ok) 5 := rfl
  rw [hverdict] at hsaved
  exact act_finish hrunning hbounds hsaved

theorem settled_sent : Settled sealed id ".work" sentWorld.receipts .taskEscalated "T-1" sent :=
  settled_put sealed_keeps final_sent contents_short.2

/-- The steps up to the launch. -/
def steps : List NotificationStep :=
  [(NotificationWorld.initial, (0, notify)), (claimedWorld, (0, .launch))]

theorem run : Run (NotificationWorld.next sealed id ".work") .initial steps runningWorld := by
  have hclaim : NotificationWorld.initial.next sealed id ".work" (0, notify) = some claimedWorld := by
    unfold NotificationWorld.next
    rw [act_claim]
    rfl
  have hlaunch : claimedWorld.next sealed id ".work" (0, .launch) = some runningWorld := by
    unfold NotificationWorld.next
    rw [act_launch]
    rfl
  exact .snoc (.snoc .nil hclaim) hlaunch

end NotificationSample

/-- A launched command, and the claim behind it. -/
theorem notified_once_launched :
    ∃ y ∈ [(NotificationWorld.initial, (0, NotificationSample.notify))],
      NotificationStep.Claims NotificationSample.sealed id ".work" y 0 .taskEscalated "T-1" := by
  obtain ⟨-, hclaimed, -⟩ := notified_once NotificationSample.sealed_keeps
    NotificationSample.distinct NotificationSample.run
  exact hclaimed [_] _ [] .taskEscalated "T-1" rfl ⟨rfl, _, _, rfl⟩

/-- **A final receipt that is not reported**: the notification was sent, and a later dispatch whose
lock is not released reports a failure, one without a command that notifications are disabled. -/
theorem report_lost :
    Run (NotificationWorld.next NotificationSample.sealed id ".work") .initial
        NotificationSample.steps NotificationSample.runningWorld ∧
      NotificationSample.runningWorld.act NotificationSample.sealed id ".work" 0
          (.finish .ok 5 101 .none) =
        some (NotificationSample.sentWorld, some NotificationSample.sent) ∧
      Settled NotificationSample.sealed id ".work" NotificationSample.sentWorld.receipts
        .taskEscalated "T-1" NotificationSample.sent ∧
      (∃ w' o, NotificationSample.sentWorld.act NotificationSample.sealed id ".work" 1
          (.dispatch (some ["notify"]) .taskEscalated "T-1" 102 (.after (.lock "not released"))) =
        some (w', some o) ∧ o.status = .failed) ∧
      ∃ w' o, NotificationSample.sentWorld.act NotificationSample.sealed id ".work" 1
          (.dispatch none .taskEscalated "T-1" 102 .none) = some (w', some o) ∧
        o.status = .disabled := by
  refine ⟨NotificationSample.run, NotificationSample.finish_sent, NotificationSample.settled_sent, ?_,
    ?_⟩
  · have hidle : NotificationSample.sentWorld.procs 1 = .idle := rfl
    have hnow : 102 ≤ u64Max := by decide
    obtain ⟨w', hact⟩ := act_dispatch_after NotificationSample.sealed ".work" (.lock "not released")
      hidle hnow NotificationSample.ready
    exact ⟨w', _, hact, rfl⟩
  · have hidle : NotificationSample.sentWorld.procs 1 = .idle := rfl
    have hnow : 102 ≤ u64Max := by decide
    have hready : NotificationWorld.ready id none .taskEscalated "T-1" =
        .error (outcome id .taskEscalated "T-1" .disabled 0) := if_pos (by decide +kernel)
    obtain ⟨w', hact⟩ := act_dispatch_unready NotificationSample.sealed ".work" .none hidle hnow hready
    exact ⟨w', _, hact, rfl⟩

end Orchestrail
