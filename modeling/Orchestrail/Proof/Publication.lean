import Orchestrail.Proof.Approval
import Orchestrail.Proof.Verification
import Orchestrail.Spec.Publication

/-!
# What is pushed is what was checked
-/

namespace Orchestrail

open Text Outcome Steps

/-! ## Calls of the store -/

section

variable {ε α β : Type} {files files' : ApprovalFiles}

/-- **Two calls of the store**, the second of which succeeds. -/
theorem StoreM.bind_ok {x : StoreM α} {f : α → StoreM β} {b : β}
    (h : (x >>= f) files = (.ok b, files')) :
    ∃ a between, x files = (.ok a, between) ∧ f a between = (.ok b, files') := by
  have hbind : (x >>= f) files = match x files with
      | (.ok a, between) => f a between
      | (.error e, between) => (.error e, between) := by
    show (ExceptT.bindCont f (x files).1) (x files).2 = _
    rcases x files with ⟨_ | _, _⟩ <;> rfl
  rw [hbind] at h
  rcases hx : x files with ⟨_ | a, between⟩
  · rw [hx] at h
    cases (Prod.mk.inj h).1
  · rw [hx] at h
    exact ⟨a, between, rfl, h⟩

theorem StoreM.lift_ok {wrap : ε → PublishError} {answer : Except ε α} {a : α}
    (h : StoreM.lift wrap answer files = (.ok a, files')) : answer = .ok a ∧ files' = files := by
  unfold StoreM.lift at h
  obtain ⟨hanswer, rfl⟩ := Prod.mk.inj h
  cases answer with
  | error e => cases hanswer
  | ok b => exact ⟨congrArg _ (Except.ok.inj hanswer), rfl⟩

theorem StoreM.pure_ok {a b : α} (h : (pure a : StoreM α) files = (.ok b, files')) : a = b :=
  Except.ok.inj (Prod.mk.inj h).1

theorem mapError_eq_ok {wrap : ε → β} {answer : Except ε α} {a : α} :
    answer.mapError wrap = .ok a ↔ answer = .ok a := by
  cases answer <;> simp [Except.mapError]

end

/-! ## What a push is released on -/

/-- The record behind a consent is an approval of its manifest and of its policy. -/
def Consent.Approves (codec : PublishCodec) (consent : Consent) : Prop :=
  ∃ record, ApprovalStore.load codec.serde consent.files consent.id = .ok (some record) ∧
    record.fingerprint = consent.manifest.fingerprint codec ∧
    record.policyHash = consent.policyHash ∧ record.decision = some .approve

section

variable {port : PublishPort} {answers : PublishAnswers} {files files' : ApprovalFiles}
  {push : Bool} {consent : Option Consent}

/-- **A push is released on an approval of the manifest** under the policy it was asked for. -/
theorem approvePush_release {batchId policyHash : String} {manifest : ApprovalChangeManifest}
    (h : approvePush port answers batchId manifest policyHash files =
      (.ok (.release push consent), files')) : ∃ given, consent = some given ∧
      given.manifest = manifest ∧ given.policyHash = policyHash ∧ given.Approves port.codec := by
  unfold approvePush at h
  obtain ⟨nowSecs, files₁, -, h⟩ := StoreM.bind_ok h
  obtain ⟨requested, files₂, -, h⟩ := StoreM.bind_ok h
  obtain ⟨_, files₃, -, h⟩ := StoreM.bind_ok h
  obtain ⟨auto, files₄, -, h⟩ := StoreM.bind_ok h
  obtain ⟨approval, files₅, -, h⟩ := StoreM.bind_ok h
  obtain ⟨_, files₆, -, h⟩ := StoreM.bind_ok h
  obtain ⟨store, files₇, -, h⟩ := StoreM.bind_ok h
  obtain ⟨status, files₈, hstatus, h⟩ := StoreM.bind_ok h
  obtain ⟨hstatus, -⟩ := StoreM.lift_ok hstatus
  cases status with
  | approved id =>
    obtain ⟨_, files₉, -, h⟩ := StoreM.bind_ok h
    obtain ⟨-, rfl⟩ := PushDecision.release.inj (StoreM.pure_ok h)
    obtain ⟨-, happroves⟩ := status_approved hstatus
    exact ⟨_, rfl, rfl, rfl, happroves⟩
  | pending id deadline =>
    obtain ⟨_, files₉, -, h⟩ := StoreM.bind_ok h
    cases StoreM.pure_ok h
  | rejected id => cases StoreM.pure_ok h
  | expiredTimeout id => cases StoreM.pure_ok h
  | expiredStale id => cases StoreM.pure_ok h
  | missing id => cases (Prod.mk.inj h).1

theorem checkPublication_free {policy : Policy} {branch remote : String}
    (h : policy.checkPublication branch remote = .ok ()) : policy.pushRequiresApproval = false := by
  obtain ⟨_, -, h⟩ := bind_eq_ok.1 h
  obtain ⟨_, -, h⟩ := bind_eq_ok.1 h
  obtain ⟨_, -, h⟩ := bind_eq_ok.1 h
  exact demand_eq_ok.1 h

/-- What a push is released on, if it is released. -/
theorem decidePush_release {attempt : Attempt} {refs : Refs} {constraints : Option String}
    (h : decidePush port answers attempt refs constraints files =
      (.ok (.release true consent), files')) : attempt.push = true ∧
      (attempt.policy.pushRequiresApproval = true → ∃ given, consent = some given ∧
        integrationApprovalManifest port.codec port.graph refs attempt.batch.base attempt.head =
          .ok given.manifest ∧
        given.policyHash = snapshotHash port.codec constraints ∧ given.Approves port.codec) := by
  unfold decidePush at h
  split at h
  · cases StoreM.pure_ok h
  · rename_i hpush
    refine ⟨by simpa using hpush, fun hrequires => ?_⟩
    cases hcheck : attempt.policy.checkPublication attempt.batch.base "origin" with
    | ok _ =>
      rw [checkPublication_free hcheck] at hrequires
      cases hrequires
    | error error =>
      rw [hcheck] at h
      cases error with
      | approvalRequired =>
        obtain ⟨manifest, files₁, hmanifest, h⟩ := StoreM.bind_ok h
        obtain ⟨hmanifest, -⟩ := StoreM.lift_ok hmanifest
        obtain ⟨given, hconsent, rfl, hpolicy, happroves⟩ := approvePush_release h
        exact ⟨given, hconsent, hmanifest, hpolicy, happroves⟩
      | _ => cases (Prod.mk.inj h).1

theorem integrationApprovalManifest_spec {refs : Refs} {base head : String}
    {manifest : ApprovalChangeManifest}
    (h : integrationApprovalManifest port.codec port.graph refs base head = .ok manifest) :
    changeEntries port.codec port.graph refs.base head = .ok manifest.changes ∧
      manifest.base = base ∧ manifest.head = head := by
  obtain ⟨_, -, h⟩ := bind_eq_ok.1 h
  obtain ⟨_, -, h⟩ := bind_eq_ok.1 h
  obtain ⟨_, -, h⟩ := bind_eq_ok.1 h
  obtain ⟨changes, hchanges, h⟩ := bind_eq_ok.1 h
  obtain rfl := Except.ok.inj h
  exact ⟨hchanges, rfl, rfl⟩

end

/-! ## The attempt -/

section

variable {port : PublishPort} {answers : PublishAnswers}

/-- The call may push: it was asked to, and there is a remote. -/
def PublishAnswers.pushes (answers : PublishAnswers) (port : PublishPort) : Prop :=
  port.pushRequested = true ∧ answers.remoteConfigured = .ok true

theorem changedPathsBetween_eq_ok {tip : Commit} {base head : String} {paths : List String}
    (h : changedPathsBetween port.codec port.graph tip base head = .ok paths) :
    paths = changedPaths port.graph tip head := by
  obtain ⟨_, -, h⟩ := bind_eq_ok.1 h
  obtain ⟨_, -, h⟩ := bind_eq_ok.1 h
  exact (Except.ok.inj h).symm

/-- **What has been checked** before the repository is touched. -/
theorem checkAttempt_spec {batchId : String} {state : ProcessorState} {refs : Refs}
    {constraints : Option String} {attempt : Attempt}
    (h : checkAttempt port answers batchId state refs constraints = .ok attempt) :
    (attempt.push = true → answers.pushes port) ∧
      attempt.paths = changedPaths port.graph refs.base attempt.head ∧
      loadPolicy port.codec constraints = .ok attempt.policy ∧
      attempt.policy.checkPaths attempt.paths = .ok () := by
  unfold checkAttempt at h
  split at h
  · cases h
  · obtain ⟨_, -, h⟩ := bind_eq_ok.1 h
    obtain ⟨push, hpush, h⟩ := bind_eq_ok.1 h
    obtain ⟨_, -, h⟩ := bind_eq_ok.1 h
    obtain ⟨head, -, h⟩ := bind_eq_ok.1 h
    obtain ⟨_, -, h⟩ := bind_eq_ok.1 h
    obtain ⟨paths, hpaths, h⟩ := bind_eq_ok.1 h
    obtain ⟨policy, hpolicy, h⟩ := bind_eq_ok.1 h
    obtain ⟨_, -, h⟩ := bind_eq_ok.1 h
    obtain ⟨_, hcheck, h⟩ := bind_eq_ok.1 h
    obtain ⟨_, -, h⟩ := bind_eq_ok.1 h
    obtain rfl := Except.ok.inj h
    refine ⟨fun htrue => ?_, changedPathsBetween_eq_ok (mapError_eq_ok.1 hpaths),
      mapError_eq_ok.1 hpolicy, mapError_eq_ok.1 hcheck⟩
    obtain rfl : push = true := htrue
    unfold pushConfigured at hpush
    split at hpush
    · rename_i hrequested
      exact ⟨hrequested, mapError_eq_ok.1 hpush⟩
    · cases hpush

theorem forwardGit_spec {primary : PrimaryCheckout} {batchId base : String} {refs refs' : Refs}
    (h : forwardGit port answers primary batchId base refs = .ok refs') :
    refs' = { refs with base := refs.integration } := by
  obtain ⟨_, -, h⟩ := bind_eq_ok.1 h
  obtain ⟨_, -, h⟩ := bind_eq_ok.1 h
  obtain ⟨_, -, h⟩ := bind_eq_ok.1 h
  exact (Except.ok.inj h).symm

theorem forwardJj_spec {primary : PrimaryCheckout} {batchId base : String} {refs refs' : Refs}
    (h : forwardJj port answers primary batchId base refs = .ok refs') :
    refs' = { refs with base := refs.integration } := by
  obtain ⟨_, -, h⟩ := bind_eq_ok.1 h
  obtain ⟨_, -, h⟩ := bind_eq_ok.1 h
  obtain ⟨_, -, h⟩ := bind_eq_ok.1 h
  exact (Except.ok.inj h).symm

/-- The local half leaves the remote alone and puts the branch on the commit that was checked. -/
theorem forwardLocal_spec {batchId base head : String} {refs refs' : Refs}
    (h : forwardLocal port answers batchId base head refs = .ok refs') :
    refs'.base = head ∧ refs'.remote = refs.remote := by
  obtain ⟨_, -, h⟩ := bind_eq_ok.1 h
  obtain ⟨_, -, h⟩ := bind_eq_ok.1 h
  obtain ⟨_, -, h⟩ := bind_eq_ok.1 h
  obtain ⟨_, hhead, h⟩ := bind_eq_ok.1 h
  obtain ⟨primary, -, h⟩ := bind_eq_ok.1 h
  obtain ⟨_, -, h⟩ := bind_eq_ok.1 h
  split at h
  · rw [forwardGit_spec h]
    exact ⟨demand_eq_ok.1 hhead, rfl⟩
  · rw [forwardJj_spec h]
    exact ⟨demand_eq_ok.1 hhead, rfl⟩

end

/-! ## One call -/

/-- What was checked for a push is what lies between a commit and its target. -/
def Push.CheckedFrom (port : PublishPort) (tip : Commit) (push : Push) : Prop :=
  push.paths = changedPaths port.graph tip push.target ∧
    loadPolicy port.codec push.constraints = .ok push.policy ∧
    push.policy.checkPaths push.paths = .ok () ∧
    (push.policy.pushRequiresApproval = true → ∃ given, push.consent = some given ∧
      changeEntries port.codec port.graph tip push.target = .ok given.manifest.changes ∧
      given.manifest.head = push.target ∧
      given.policyHash = snapshotHash port.codec push.constraints ∧ given.Approves port.codec)

/-- **What is pushed is what was checked and approved**: the changes over the branch of the remote
as the push found it. -/
def Push.Faithful (port : PublishPort) (push : Push) : Prop :=
  ∃ before, push.before = some before ∧ push.CheckedFrom port before

section

variable {port : PublishPort} {answers : PublishAnswers}

theorem pushBase_pushes (attempt : Attempt) (constraints : Option String)
    (consent : Option Consent) (repo : Repository) :
    (pushBase port answers attempt constraints consent repo).2.pushes = repo.pushes ∨
      (pushBase port answers attempt constraints consent repo).2.pushes = repo.pushes ++
        [⟨answers.push.found repo.refs.remote, repo.refs.base, constraints, attempt.paths,
          attempt.policy, consent⟩] := by
  have hreceived : ∀ (accepted : Bool) (pushed : Push),
      (receivePush accepted pushed repo).pushes = repo.pushes ∨
        (receivePush accepted pushed repo).pushes = repo.pushes ++ [pushed] := by
    intro accepted pushed
    cases accepted with
    | true => exact .inr rfl
    | false => exact .inl rfl
  unfold pushBase
  simp only
  split
  · exact hreceived _ _
  · exact hreceived _ _

/-- A call of the VCS pushes nothing, or the commit it was given. -/
theorem publishIntegration_pushes (attempt : Attempt) (constraints : Option String) (push : Bool)
    (consent : Option Consent) (repo : Repository) :
    (publishIntegration port answers attempt constraints push consent repo).2.pushes =
        repo.pushes ∨
      push = true ∧
        (publishIntegration port answers attempt constraints push consent repo).2.pushes =
          repo.pushes ++ [⟨answers.push.found repo.refs.remote, attempt.head, constraints,
            attempt.paths, attempt.policy, consent⟩] := by
  unfold publishIntegration
  cases hforward : forwardLocal port answers attempt.batch.id attempt.batch.base attempt.head
      repo.refs with
  | error error => exact .inl rfl
  | ok refs =>
    obtain ⟨hbase, hremote⟩ := forwardLocal_spec hforward
    simp only
    split
    · exact .inl rfl
    · split
      · exact .inl rfl
      · split
        · rename_i hpush
          have hpushes := @pushBase_pushes port answers attempt constraints consent
            { repo with refs }
          rw [hbase, hremote] at hpushes
          rcases hpushes with h | h
          · exact .inl h
          · exact .inr ⟨hpush, h⟩
        · exact .inl rfl

/-- **A call pushes nothing, or the commit it checked**, over what it read from where the local
branch stood. -/
theorem publish_pushed (batchId : String) (state : ProcessorState) (world : PublishWorld) :
    (publish port answers batchId state world).2.repo.pushes = world.repo.pushes ∨
      answers.pushes port ∧ ∃ push : Push,
        (publish port answers batchId state world).2.repo.pushes = world.repo.pushes ++ [push] ∧
        push.before = answers.push.found world.repo.refs.remote ∧
        push.CheckedFrom port world.repo.refs.base := by
  unfold publish
  cases hattempt : checkAttempt port answers batchId state world.repo.refs world.constraints with
  | error error => exact .inl rfl
  | ok attempt =>
    obtain ⟨hpushes, hpaths, hpolicy, hcheck⟩ := checkAttempt_spec hattempt
    simp only
    split
    · exact .inl rfl
    · exact .inl rfl
    · exact .inl rfl
    · rename_i push consent files hdecision
      rcases publishIntegration_pushes attempt world.constraints push consent world.repo with
        h | ⟨rfl, h⟩
      · exact .inl h
      · obtain ⟨hpush, hconsent⟩ := decidePush_release hdecision
        refine .inr ⟨hpushes hpush, _, h, rfl, hpaths, hpolicy, hcheck, fun hrequires => ?_⟩
        obtain ⟨given, hgiven, hmanifest, hhash, happroves⟩ := hconsent hrequires
        obtain ⟨hchanges, -, hhead⟩ := integrationApprovalManifest_spec hmanifest
        exact ⟨given, hgiven, hchanges, hhead, hhash, happroves⟩

end

/-! ## The identity of a manifest -/

theorem digitChar_inj {a b : Nat} (ha : a < 16) (hb : b < 16)
    (h : Nat.digitChar a = Nat.digitChar b) : a = b := by
  have hall : ∀ a b : Fin 16, Nat.digitChar a = Nat.digitChar b → a = b := by decide
  exact congrArg Fin.val (hall ⟨a, ha⟩ ⟨b, hb⟩ h)

theorem hex_inj {a b : List UInt8} (h : hex a = hex b) : a = b := by
  have hchars : (a.flatMap fun x => hexPad 2 x.toNat) = b.flatMap fun x => hexPad 2 x.toNat :=
    String.ofList_injective h
  clear h
  induction a generalizing b with
  | nil =>
    cases b with
    | nil => rfl
    | cons y b => simp [hexPad] at hchars
  | cons x a ih =>
    cases b with
    | nil => simp [hexPad] at hchars
    | cons y b =>
      simp only [List.flatMap_cons, hexPad, List.nil_append, List.cons_append,
        List.cons.injEq] at hchars
      obtain ⟨hhigh, hlow, hrest⟩ := hchars
      have hx := x.toNat_lt
      have hy := y.toNat_lt
      have h1 := digitChar_inj (Nat.mod_lt _ (by omega)) (Nat.mod_lt _ (by omega)) hhigh
      have h2 := digitChar_inj (Nat.mod_lt _ (by omega)) (Nat.mod_lt _ (by omega)) hlow
      have hbyte : x.toNat = y.toNat := by omega
      rw [UInt8.toNat_inj.1 hbyte, ih hrest]

theorem be64_length (n : Nat) : (be64 n).length = 8 := rfl

/-- A number is the sum of its bytes. -/
theorem bytes_inj {k a b : Nat} (ha : a < 256 ^ k) (hb : b < 256 ^ k)
    (h : ∀ i < k, a / 256 ^ i % 256 = b / 256 ^ i % 256) : a = b := by
  induction k generalizing a b with
  | zero => omega
  | succ k ih =>
    have hlow : a % 256 = b % 256 := by simpa using h 0 (Nat.succ_pos k)
    have hhigh : a / 256 = b / 256 := by
      rw [Nat.pow_succ] at ha hb
      refine ih (Nat.div_lt_of_lt_mul (by rwa [Nat.mul_comm]))
        (Nat.div_lt_of_lt_mul (by rwa [Nat.mul_comm])) fun i hi => ?_
      have hbyte := h (i + 1) (Nat.succ_lt_succ hi)
      rwa [Nat.pow_succ, Nat.mul_comm, ← Nat.div_div_eq_div_mul, ← Nat.div_div_eq_div_mul] at hbyte
    omega

theorem be64_inj {a b : Nat} (ha : a < 2 ^ 64) (hb : b < 2 ^ 64) (h : be64 a = be64 b) : a = b := by
  have hpow : 256 ^ 8 = 2 ^ 64 := by norm_num
  refine @bytes_inj 8 a b (by rwa [hpow]) (by rwa [hpow]) fun i hi => ?_
  have hmap := List.map_inj_left.1 h i (by simpa using hi)
  simpa using congrArg UInt8.toNat hmap

/-- The length of a text is a `u64`. -/
def SizedText (text : String) : Prop := (utf8 text).length < 2 ^ 64

theorem utf8_inj {a b : String} (h : utf8 a = utf8 b) : a = b := by
  unfold utf8 at h
  have hdata : a.toByteArray.data = b.toByteArray.data := Array.toList_inj.1 h
  exact String.toByteArray_inj.1 (ByteArray.ext hdata)

/-- **A field is told from what follows it** by its length. -/
theorem manifestField_append {a b : String} {rest rest' : List UInt8} (ha : SizedText a)
    (hb : SizedText b) (h : manifestField a ++ rest = manifestField b ++ rest') :
    a = b ∧ rest = rest' := by
  unfold manifestField at h
  rw [List.append_assoc, List.append_assoc] at h
  obtain ⟨hlength, hbytes⟩ := List.append_inj h (by rw [be64_length, be64_length])
  obtain ⟨htext, hrest⟩ := List.append_inj hbytes (be64_inj ha hb hlength)
  exact ⟨utf8_inj htext, hrest⟩

structure ApprovalChangeEntry.Sized (change : ApprovalChangeEntry) : Prop where
  path : SizedText change.path
  oldPath : SizedText (change.oldPath.getD "")
  diffSha256 : SizedText change.diffSha256
  /-- no path of a diff is empty -/
  named : change.oldPath ≠ some ""

structure ApprovalChangeManifest.Sized (manifest : ApprovalChangeManifest) : Prop where
  base : SizedText manifest.base
  head : SizedText manifest.head
  changes : ∀ change ∈ manifest.changes, change.Sized

theorem oldPath_inj {a b : Option String} (ha : a ≠ some "") (hb : b ≠ some "")
    (h : a.getD "" = b.getD "") : a = b := by
  cases a <;> cases b <;> simp_all

theorem changes_encoded_inj {changes changes' : List ApprovalChangeEntry}
    (hs : ∀ change ∈ changes, change.Sized) (hs' : ∀ change ∈ changes', change.Sized)
    (h : (changes.flatMap fun change => manifestField change.path ++
        manifestField (change.oldPath.getD "") ++ manifestField change.diffSha256) =
      changes'.flatMap fun change => manifestField change.path ++
        manifestField (change.oldPath.getD "") ++ manifestField change.diffSha256) :
    changes = changes' := by
  have hnonempty : ∀ (text : String) (rest : List UInt8), manifestField text ++ rest ≠ [] := by
    intro text rest hnil
    have hlength := congrArg List.length hnil
    simp [manifestField, be64_length] at hlength
  induction changes generalizing changes' with
  | nil =>
    cases changes' with
    | nil => rfl
    | cons change' rest' =>
      rw [List.flatMap_nil, List.flatMap_cons, List.append_assoc, List.append_assoc] at h
      exact absurd h.symm (hnonempty _ _)
  | cons change rest ih =>
    cases changes' with
    | nil =>
      rw [List.flatMap_nil, List.flatMap_cons, List.append_assoc, List.append_assoc] at h
      exact absurd h (hnonempty _ _)
    | cons change' rest' =>
      rw [List.forall_mem_cons] at hs hs'
      simp only [List.flatMap_cons, List.append_assoc] at h
      obtain ⟨hpath, h⟩ := manifestField_append hs.1.path hs'.1.path h
      obtain ⟨hold, h⟩ := manifestField_append hs.1.oldPath hs'.1.oldPath h
      obtain ⟨hdigest, h⟩ := manifestField_append hs.1.diffSha256 hs'.1.diffSha256 h
      have hsame : change = change' := by
        cases change
        cases change'
        simp only [ApprovalChangeEntry.mk.injEq]
        exact ⟨hpath, oldPath_inj hs.1.named hs'.1.named hold, hdigest⟩
      rw [hsame, ih hs.2 hs'.2 (by simpa only [List.append_assoc] using h)]

/-- **Two manifests with one fingerprint show the same changes**, or the digest has collided. -/
theorem fingerprint_changes {codec : PublishCodec} {manifest other : ApprovalChangeManifest}
    (hs : manifest.Sized) (hs' : other.Sized)
    (h : manifest.fingerprint codec = other.fingerprint codec)
    (hne : manifest.changes ≠ other.changes) :
    ∃ a b, a ≠ b ∧ codec.sha256 a = codec.sha256 b := by
  refine ⟨manifest.encoded, other.encoded, fun heq => hne ?_, hex_inj h⟩
  unfold ApprovalChangeManifest.encoded at heq
  simp only [List.append_assoc] at heq
  have hrest := List.append_cancel_left heq
  obtain ⟨-, hrest⟩ := manifestField_append hs.base hs'.base hrest
  obtain ⟨-, hrest⟩ := manifestField_append hs.head hs'.head hrest
  refine changes_encoded_inj hs.changes hs'.changes ?_
  simpa only [List.append_assoc] using hrest

/-! ## Runs -/

/-- A call that may push finds the branch of the remote where it reads the local one. -/
def PublishWorld.Agrees (port : PublishPort) (world : PublishWorld) : PublishAction → Prop
  | .publish _ _ answers => answers.pushes port →
    answers.push.found world.repo.refs.remote = some world.repo.refs.base
  | _ => True

section

variable {port : PublishPort} {start world : PublishWorld}
  {tr : List (PublishWorld × PublishAction)}

/-- **One step** adds a faithful push or none. -/
theorem next_pushes {world' : PublishWorld} {action : PublishAction}
    (h : world.next port action = some world') (hagrees : world.Agrees port action) :
    world'.repo.pushes = world.repo.pushes ∨
      ∃ push : Push, world'.repo.pushes = world.repo.pushes ++ [push] ∧ push.Faithful port := by
  cases action with
  | publish batchId state answers =>
    obtain rfl := Option.some.inj h
    rcases publish_pushed batchId state world with hsame | ⟨hpushes, push, hpush, hbefore, hchecked⟩
    · exact .inl hsame
    · exact .inr ⟨push, hpush, _, by rw [hbefore, hagrees hpushes], hchecked⟩
  | approval step =>
    obtain ⟨files, -, rfl⟩ := Option.map_eq_some_iff.1 h
    exact .inl rfl
  | constraints text =>
    obtain rfl := Option.some.inj h
    exact .inl rfl
  | moveLocal base integration =>
    obtain rfl := Option.some.inj h
    exact .inl rfl
  | moveRemote tip =>
    obtain rfl := Option.some.inj h
    exact .inl rfl

theorem run_pushes (hstart : start.repo.pushes = [])
    (hrun : Run (PublishWorld.next port) start tr world) (hagrees : ∀ x ∈ tr, x.1.Agrees port x.2) :
    ∀ push ∈ world.repo.pushes, push.Faithful port := by
  have hreach : Reach (PublishWorld.next port) (fun world action => world.Agrees port action)
      start world := hrun.reach hagrees
  refine Reach.invariant (I := fun world => ∀ push ∈ world.repo.pushes, push.Faithful port)
    hreach ?_ ?_
  · rw [hstart]
    exact fun push hpush => absurd hpush List.not_mem_nil
  · intro before action after hfaithful hagree hnext push hpush
    rcases next_pushes hnext hagree with hsame | ⟨made, hmade, hmadeFaithful⟩
    · rw [hsame] at hpush
      exact hfaithful push hpush
    · rw [hmade] at hpush
      rcases List.mem_append.1 hpush with hold | hnew
      · exact hfaithful push hold
      · obtain rfl := List.mem_singleton.1 hnew
        exact hmadeFaithful

/-- **What is pushed is what was checked and approved**, in every run in which each call that may
push finds the remote branch where it reads the local one: every push is faithful, two attempts over
one remote branch read the same changes, and an approval covers another change set only where the
digest collides. -/
theorem publication_faithful (port : PublishPort) (hstart : start.repo.pushes = [])
    (hrun : Run (PublishWorld.next port) start tr world)
    (hagrees : ∀ x ∈ tr, x.1.Agrees port x.2) :
    (∀ push ∈ world.repo.pushes, push.Faithful port) ∧
    (∀ world₁ batchId₁ state₁ answers₁ world₂ batchId₂ state₂ answers₂,
      (world₁, .publish batchId₁ state₁ answers₁) ∈ tr →
      (world₂, .publish batchId₂ state₂ answers₂) ∈ tr →
      answers₁.pushes port → answers₂.pushes port →
      answers₁.push.found world₁.repo.refs.remote = answers₂.push.found world₂.repo.refs.remote →
      ∀ base head,
        changedPathsBetween port.codec port.graph world₁.repo.refs.base base head =
          changedPathsBetween port.codec port.graph world₂.repo.refs.base base head ∧
        approvalChangeManifestBetween port.codec port.graph world₁.repo.refs.base base head =
          approvalChangeManifestBetween port.codec port.graph world₂.repo.refs.base base head) ∧
    ∀ push ∈ world.repo.pushes, ∀ given, push.consent = some given →
      ∀ other : ApprovalChangeManifest, given.manifest.Sized → other.Sized →
        given.manifest.fingerprint port.codec = other.fingerprint port.codec →
        given.manifest.changes ≠ other.changes →
        ∃ a b, a ≠ b ∧ port.codec.sha256 a = port.codec.sha256 b := by
  refine ⟨run_pushes hstart hrun hagrees, ?_, fun _ _ _ _ _ hs hs' hsame hne =>
    fingerprint_changes hs hs' hsame hne⟩
  intro world₁ batchId₁ state₁ answers₁ world₂ batchId₂ state₂ answers₂ hmem₁ hmem₂ hpushes₁
    hpushes₂ hfound base head
  have hbase₁ := hagrees _ hmem₁ hpushes₁
  have hbase₂ := hagrees _ hmem₂ hpushes₂
  rw [hfound, hbase₂] at hbase₁
  rw [Option.some.inj hbase₁]
  exact ⟨rfl, rfl⟩

end

/-! ## A release, and one that is repeated -/

namespace PublicationSample

/-- Two commits, the second of which adds a file. -/
def graph : CommitGraph where
  diff base head := if base = head then [] else [⟨"a", none, "+x"⟩]
  isAncestor base head := base = head || base = "c0"

def port : PublishPort where
  codec :=
    { serde := Tally.codec, sha256 := fun _ => List.replicate 32 0
      approvalDigest := ApprovalSample.digest, parseTypedArgv := fun _ => .ok []
      rejectFlagLike := fun _ _ => .ok () }
  graph := graph
  backend := .git
  pushRequested := true
  policyVerificationCommands := []
  verificationProfile := none
  approvalDeadlineSecs := 60

def state : ProcessorState :=
  { batch := some ⟨"b1", "main", 0, 0, 0, none, none, none, false, none, false⟩
    integration := { integrationHead := some "c1", verificationHead := some "c1" } }

def answers (stopsBeforePush : Bool) : PublishAnswers where
  remoteConfigured := .ok true
  integrationWorkspace := .ok ()
  nowSecs := .ok 10
  systemAutoApproval := .ok false
  meanwhile := id
  notified := false
  primary := .ok ⟨false, false, some "main", "c0"⟩
  forward := none
  newChild := none
  stopsBeforePush := stopsBeforePush
  push := ⟨none, true, none⟩
  observation := none
  recorded := .ok ()

def start : PublishWorld := ⟨⟨⟨"c0", some "c0", "c1"⟩, []⟩, fun _ => none, none⟩

/-- A call that ends between its fast-forward and its push. -/
def stopped : PublishWorld := (publish port (answers true) "b1" state start).2

end PublicationSample

open PublicationSample in
/-- A call that is not disturbed. -/
theorem publication_faithful_once :
    ∃ push : Push, (publish port (answers false) "b1" state start).2.repo.pushes = [push] ∧
      push.Faithful port := by
  have hrun : Run (PublishWorld.next port) start [(start, .publish "b1" state (answers false))]
      (publish port (answers false) "b1" state start).2 := .snoc .nil rfl
  obtain ⟨hfaithful, -⟩ := publication_faithful port rfl hrun (by
    intro x hx
    obtain rfl := List.mem_singleton.1 hx
    exact fun _ => rfl)
  exact ⟨_, rfl, hfaithful _ List.mem_cons_self⟩

open PublicationSample in
/-- **The same candidate again, after a call that ended between its fast-forward and its push**: the
file it adds is pushed, and no path was checked for that push. -/
theorem publication_crash : ∃ tr world, Run (PublishWorld.next port) start tr world ∧
    (world.repo.pushes.map fun push => (push.before, push.target, push.paths)) =
      [(some "c0", "c1", [])] ∧ changedPaths port.graph "c0" "c1" = ["a"] := by
  have hrun : Run (PublishWorld.next port) start
      ([(start, .publish "b1" state (answers true))] ++
        [(stopped, .publish "b1" state (answers false))])
      (publish port (answers false) "b1" state stopped).2 :=
    .snoc (.snoc .nil rfl) rfl
  exact ⟨_, _, hrun, rfl, rfl⟩

end Orchestrail
