import Orchestrail.Spec.Verification

/-!
# Evidence and its check

A run leaves one result for each command that started, up to the first that did not end well. The
check of the evidence has a case for each outcome; they agree but for one: a call that is cancelled
blocks the run with its commands started, and blocked evidence must have none.
-/

namespace Orchestrail

open Text Outcome

/-! ## Fingerprints -/

theorem hexPad_length (width n : Nat) : (hexPad width n).length = width := by
  induction width generalizing n with
  | zero => rfl
  | succ width ih => rw [hexPad, List.length_append, ih, List.length_singleton]

theorem digitChar_hex (n : Nat) : isAsciiHex (Nat.digitChar (n % 16)) = true := by
  have hdigits : ∀ d < 16, isAsciiHex (Nat.digitChar d) = true := by decide
  exact hdigits _ (Nat.mod_lt n (by decide))

theorem hexPad_hex (width n : Nat) : (hexPad width n).all isAsciiHex = true := by
  induction width generalizing n with
  | zero => rfl
  | succ width ih => simp [hexPad, ih, digitChar_hex]

/-- **A fingerprint is 64 hexadecimal digits.** -/
theorem hex_digest {bytes : List UInt8} (h : bytes.length = 32) : isHex 64 (hex bytes) = true := by
  have hlength : (bytes.flatMap fun b => hexPad 2 b.toNat).length = 2 * bytes.length := by
    clear h
    induction bytes with
    | nil => rfl
    | cons b bytes ih =>
      rw [List.flatMap_cons, List.length_append, ih, hexPad_length, List.length_cons]
      omega
  unfold isHex hex
  rw [String.toList_ofList, hlength, h, Bool.and_eq_true]
  refine ⟨rfl, List.all_eq_true.2 fun ch hch => ?_⟩
  obtain ⟨b, -, hb⟩ := List.mem_flatMap.1 hch
  exact List.all_eq_true.1 (hexPad_hex 2 b.toNat) ch hb

theorem fingerprint_hex {codec : ProfileCodec} (h : ∀ bytes, (codec.sha256 bytes).length = 32)
    (mode : VerificationMode) (commands : List String) (smokeCmd : Option String)
    (policyCommands : List String) :
    isHex 64 (profileWithPolicyCommands codec mode commands smokeCmd policyCommands).fingerprint
      = true :=
  hex_digest (h _)

/-! ## What an accepted document says -/

/-- The first of the commands, in their order. -/
theorem zip_all_iff {results : List VerificationCommandRun} {commands : List String} :
    (results.length ≤ commands.length ∧
        (results.zip commands).all (fun (result, command) => result.command = command) = true) ↔
      results.map (·.command) <+: commands := by
  induction results generalizing commands with
  | nil => simp
  | cons result results ih =>
    cases commands with
    | nil => simp
    | cons command commands =>
      rw [List.map_cons, List.cons_prefix_cons, ← ih]
      simp only [List.length_cons, List.zip_cons_cons, List.all_cons, Bool.and_eq_true,
        decide_eq_true_eq]
      constructor
      · rintro ⟨hlength, hfirst, hrest⟩
        exact ⟨hfirst, by omega, hrest⟩
      · rintro ⟨hfirst, hlength, hrest⟩
        exact ⟨by omega, hfirst, hrest⟩

/-- What the check of evidence demands, with a profile to compare with. -/
structure Accepted (evidence : VerificationEvidence) (outcome : VerificationOutcome)
    (head base : String) (profile : VerificationProfile) : Prop where
  schema : evidence.schema = evidenceSchema
  head : evidence.verifiedHead = head
  base : evidence.base = base
  verdict : evidence.verdict = outcome.verdict
  exemption : validateExemption evidence.exemption outcome = .ok ()
  hex : isHex 64 evidence.profileFingerprint = true
  fingerprint : evidence.profileFingerprint = profile.fingerprint
  state : evidence.profileState = profile.state
  source : evidence.profileSource = profile.source
  commands : evidence.commands.map (·.command) <+: profile.commands
  started : validateStarted evidence.commands profile.commands.length outcome = .ok ()

theorem validateEvidence_iff {evidence : VerificationEvidence} {outcome : VerificationOutcome}
    {head base : String} {profile : VerificationProfile} :
    validateEvidenceForProfile evidence outcome head base (some profile) = .ok () ↔
      Accepted evidence outcome head base profile := by
  unfold validateEvidenceForProfile
  constructor
  · intro h
    obtain ⟨_, hschema, h⟩ := bind_eq_ok.1 h
    obtain ⟨_, htip, h⟩ := bind_eq_ok.1 h
    obtain ⟨_, hverdict, h⟩ := bind_eq_ok.1 h
    obtain ⟨_, hexemption, h⟩ := bind_eq_ok.1 h
    obtain ⟨_, hhex, h⟩ := bind_eq_ok.1 h
    obtain ⟨_, hprofile, h⟩ := bind_eq_ok.1 h
    obtain ⟨_, hcommands, h⟩ := bind_eq_ok.1 h
    obtain ⟨hhead, hbase⟩ := demand_eq_ok.1 htip
    obtain ⟨hfingerprint, hstate, hsource⟩ := demand_eq_ok.1 hprofile
    exact ⟨demand_eq_ok.1 hschema, hhead, hbase, demand_eq_ok.1 hverdict, hexemption,
      demand_eq_ok.1 hhex, hfingerprint, hstate, hsource,
      zip_all_iff.1 (demand_eq_ok.1 hcommands), h⟩
  · intro h
    refine bind_eq_ok.2 ⟨(), demand_eq_ok.2 h.schema, ?_⟩
    refine bind_eq_ok.2 ⟨(), demand_eq_ok.2 ⟨h.head, h.base⟩, ?_⟩
    refine bind_eq_ok.2 ⟨(), demand_eq_ok.2 h.verdict, ?_⟩
    refine bind_eq_ok.2 ⟨(), h.exemption, ?_⟩
    refine bind_eq_ok.2 ⟨(), demand_eq_ok.2 h.hex, ?_⟩
    refine bind_eq_ok.2 ⟨(), demand_eq_ok.2 ⟨h.fingerprint, h.state, h.source⟩, ?_⟩
    exact bind_eq_ok.2 ⟨(), demand_eq_ok.2 (zip_all_iff.2 h.commands), h.started⟩

/-- Every command of the profile is recorded and ended well. -/
def AllSucceeded (results : List VerificationCommandRun) (commands : List String) : Prop :=
  results.map (·.command) = commands ∧
    ∀ result ∈ results, result.reason = "ok" ∧ result.exitCode = some 0

theorem validateStarted_passed {results : List VerificationCommandRun} {commands : List String}
    (hstart : results.map (·.command) <+: commands) :
    validateStarted results commands.length .passed = .ok () ↔ AllSucceeded results commands := by
  have hany : results.any (fun result => result.reason ≠ "ok" ∨ result.exitCode ≠ some 0) = false ↔
      ∀ result ∈ results, result.reason = "ok" ∧ result.exitCode = some 0 := by
    simp
  unfold validateStarted AllSucceeded
  rw [← hany]
  constructor
  · intro h
    obtain ⟨_, hlength, h⟩ := bind_eq_ok.1 h
    refine ⟨hstart.eq_of_length ?_, demand_eq_ok.1 h⟩
    rw [List.length_map]
    exact demand_eq_ok.1 hlength
  · rintro ⟨heq, hall⟩
    refine bind_eq_ok.2 ⟨(), demand_eq_ok.2 ?_, demand_eq_ok.2 hall⟩
    rw [← heq, List.length_map]

/-! ## What a run leaves -/

section Run

variable (children : Children) (deadlineSecs : Nat)

/-- The results of the commands that start: all up to the first that does not end well. -/
def startedResults : Nat → List (String × List (List Char)) → List VerificationCommandRun
  | _, [] => []
  | number, (command, argv) :: rest =>
    let verdict := verdictOf children deadlineSecs number argv
    ⟨command, verdict.reason.asStr, verdict.exitCode⟩ ::
      if verdict.reason = .ok then startedResults (number + 1) rest else []

/-- How the first call ends that does not end well; well, if all do. -/
def stopReason : Nat → List (String × List (List Char)) → SuperviseReason
  | _, [] => .ok
  | number, (_, argv) :: rest =>
    let reason := (verdictOf children deadlineSecs number argv).reason
    if reason = .ok then stopReason (number + 1) rest else reason

/-- The outcome a run has when it stops for a reason. -/
inductive EndsAs : SuperviseReason → VerificationOutcome → Prop
  | passed : EndsAs .ok .passed
  | blocked {reason : String} : EndsAs .cancelled (.blocked reason)
  | failed {why : SuperviseReason} {signature reason : String} :
      why ≠ .ok → why ≠ .cancelled → EndsAs why (.failed signature reason)

variable {children deadlineSecs}

theorem runInvocations_spec {subject : String} {number : Nat} {transcript : String}
    {results : List VerificationCommandRun} {invocations : List (String × List (List Char))} :
    (runInvocations children deadlineSecs subject number transcript results invocations).commands =
        results ++ startedResults children deadlineSecs number invocations ∧
      EndsAs (stopReason children deadlineSecs number invocations)
        (runInvocations children deadlineSecs subject number transcript results
          invocations).outcome := by
  induction invocations generalizing number transcript results with
  | nil => exact ⟨(List.append_nil results).symm, .passed⟩
  | cons invocation rest ih =>
    obtain ⟨command, argv⟩ := invocation
    unfold runInvocations startedResults stopReason
    dsimp only
    by_cases hok : (verdictOf children deadlineSecs number argv).reason = .ok
    · rw [if_pos hok, if_pos hok, if_pos hok]
      obtain ⟨hcommands, hends⟩ := @ih (number + 1) _ _
      exact ⟨hcommands.trans (by rw [List.append_assoc, List.singleton_append]), hends⟩
    · rw [if_neg hok, if_neg hok, if_neg hok]
      refine ⟨rfl, ?_⟩
      by_cases hcancelled : (verdictOf children deadlineSecs number argv).reason = .cancelled
      · rw [if_pos hcancelled, hcancelled]
        exact .blocked
      · rw [if_neg hcancelled]
        exact .failed hok hcancelled

/-- The results stand in the order of the commands. -/
theorem startedResults_prefix {number : Nat} {invocations : List (String × List (List Char))} :
    (startedResults children deadlineSecs number invocations).map (·.command) <+:
      invocations.map (·.1) := by
  induction invocations generalizing number with
  | nil => exact List.prefix_rfl
  | cons invocation rest ih =>
    obtain ⟨command, argv⟩ := invocation
    unfold startedResults
    dsimp only
    rw [List.map_cons, List.map_cons, List.cons_prefix_cons]
    refine ⟨rfl, ?_⟩
    split
    · exact ih
    · exact List.nil_prefix

end Run

/-- A call that ends well has ended with exit code zero. -/
theorem supervise_ok {deadlineSecs durationMs : Nat} {callEnd : CallEnd}
    (h : (supervise deadlineSecs durationMs callEnd).reason = .ok) :
    (supervise deadlineSecs durationMs callEnd).exitCode = some 0 := by
  cases callEnd with
  | cancelledBeforeSpawn => cases h
  | noRuntime error => cases h
  | finished timedOut code signal stdout stderr =>
    cases timedOut with
    | true => cases h
    | false =>
      cases code with
      | none => cases h
      | some code =>
        simp only [supervise, verdictFromResult, Bool.false_eq_true, if_false] at h ⊢
        split at h
        · rename_i hzero
          rw [if_pos hzero]
        · cases h
  | failed kind code error stdout stderr => cases kind <;> cases h

section Run

variable {children : Children} {deadlineSecs : Nat}

theorem asStr_ok {reason : SuperviseReason} : reason.asStr = "ok" ↔ reason = .ok := by
  cases reason <;> decide

/-- If every call ends well, every command is recorded so. -/
theorem startedResults_succeeded {number : Nat} {invocations : List (String × List (List Char))}
    (h : stopReason children deadlineSecs number invocations = .ok) :
    AllSucceeded (startedResults children deadlineSecs number invocations)
      (invocations.map (·.1)) := by
  induction invocations generalizing number with
  | nil => exact ⟨rfl, fun result hresult => nomatch hresult⟩
  | cons invocation rest ih =>
    obtain ⟨command, argv⟩ := invocation
    unfold stopReason at h
    dsimp only at h
    split at h
    · rename_i hok
      obtain ⟨hcommands, hall⟩ := ih h
      unfold startedResults
      dsimp only
      rw [if_pos hok]
      refine ⟨by rw [List.map_cons, hcommands, List.map_cons], fun result hresult => ?_⟩
      rcases List.mem_cons.1 hresult with rfl | hresult
      · exact ⟨asStr_ok.2 hok, supervise_ok hok⟩
      · exact hall result hresult
    · rename_i hok
      exact absurd h hok

/-- If a call does not end well, the last result says how it ended. -/
theorem startedResults_last {number : Nat} {invocations : List (String × List (List Char))}
    (h : stopReason children deadlineSecs number invocations ≠ .ok) :
    ∃ result, (startedResults children deadlineSecs number invocations).getLast? = some result ∧
      result.reason = (stopReason children deadlineSecs number invocations).asStr := by
  induction invocations generalizing number with
  | nil => exact absurd rfl h
  | cons invocation rest ih =>
    obtain ⟨command, argv⟩ := invocation
    unfold stopReason at h ⊢
    unfold startedResults
    dsimp only at h ⊢
    split at h
    · rename_i hok
      rw [if_pos hok, if_pos hok]
      obtain ⟨result, hlast, hreason⟩ := ih h
      exact ⟨result, by rw [List.getLast?_cons, hlast]; rfl, hreason⟩
    · rename_i hok
      rw [if_neg hok, if_neg hok]
      exact ⟨_, rfl, rfl⟩

/-- **The check of the started commands** refuses a run that a cancelled call has blocked, and no
other. -/
theorem validateStarted_iff {number : Nat} {invocations : List (String × List (List Char))}
    {outcome : VerificationOutcome}
    (h : EndsAs (stopReason children deadlineSecs number invocations) outcome) :
    validateStarted (startedResults children deadlineSecs number invocations) invocations.length
        outcome = .ok () ↔
      stopReason children deadlineSecs number invocations ≠ .cancelled := by
  have hlength : (invocations.map (·.1)).length = invocations.length := List.length_map _
  generalize hwhy : stopReason children deadlineSecs number invocations = why at h
  cases h with
  | passed =>
    rw [← hlength, validateStarted_passed startedResults_prefix]
    exact ⟨fun _ => nofun, fun _ => startedResults_succeeded hwhy⟩
  | blocked =>
    have hne : stopReason children deadlineSecs number invocations ≠ .ok := by
      rw [hwhy]
      exact nofun
    obtain ⟨result, hlast, -⟩ := startedResults_last hne
    refine ⟨fun hstarted => ?_, fun hne => absurd rfl hne⟩
    have hnil := demand_eq_ok.1 hstarted
    rw [hnil] at hlast
    cases hlast
  | failed hok hcancelled =>
    refine ⟨fun _ => hcancelled, fun _ => ?_⟩
    have hne : stopReason children deadlineSecs number invocations ≠ .ok := by rwa [hwhy]
    obtain ⟨result, hlast, hreason⟩ := startedResults_last hne
    refine bind_eq_ok.2 ⟨(), demand_eq_ok.2 fun hnil => ?_, demand_eq_ok.2 ?_⟩
    · rw [hnil] at hlast
      cases hlast
    · rw [hlast]
      have hbad : result.reason ≠ "ok" := by
        rw [hreason, hwhy]
        exact fun heq => hok (asStr_ok.1 heq)
      simpa using hbad

end Run

/-! ## The evidence of a run -/

theorem decodeInvocations_commands {commands : List String}
    {invocations : List (String × List (List Char))}
    (h : decodeInvocations commands = .ok invocations) : invocations.map (·.1) = commands := by
  unfold decodeInvocations at h
  induction commands generalizing invocations with
  | nil =>
    obtain rfl := Except.ok.inj h
    rfl
  | cons command commands ih =>
    rw [List.mapM_cons] at h
    obtain ⟨invocation, hfirst, h⟩ := bind_eq_ok.1 h
    obtain ⟨rest, hrest, h⟩ := bind_eq_ok.1 h
    obtain rfl := Except.ok.inj h
    rw [List.map_cons, ih hrest]
    split at hfirst
    · obtain rfl := Except.ok.inj hfirst
      rfl
    · cases hfirst

/-- The first call of a run that does not end well is a cancelled one. -/
def Interrupted (children : Children) (deadlineSecs : Nat) (codec : ProfileCodec)
    (mode : VerificationMode) (commands : List String) (smokeCmd : Option String) : Prop :=
  mode ≠ .disabled ∧ ∃ invocations,
    decodeInvocations (verificationProfile codec mode commands smokeCmd).commands
        = .ok invocations ∧
      stopReason children deadlineSecs 1 invocations = .cancelled

theorem evidence_verdict (run : VerificationRun) (head base updatedAt : String) :
    (run.evidence head base updatedAt).verdict = run.outcome.verdict := by
  unfold VerificationRun.evidence VerificationOutcome.verdict
  cases run.outcome <;> rfl

theorem evidence_exemption (run : VerificationRun) (head base updatedAt : String) :
    validateExemption (run.evidence head base updatedAt).exemption run.outcome = .ok () := by
  unfold VerificationRun.evidence
  cases run.outcome with
  | passed => rfl
  | exempt reason => exact demand_eq_ok.2 rfl
  | failed signature reason => rfl
  | blocked reason =>
    refine demand_eq_ok.2 ?_
    by_cases h : reason = missingProfileReason <;> simp [h]

/-- The evidence of a run is accepted if its commands are the first of the profile and pass the
check of its outcome. -/
theorem evidence_accepted_iff {run : VerificationRun} {head base updatedAt : String}
    (hhex : isHex 64 run.profile.fingerprint = true)
    (hstart : run.commands.map (·.command) <+: run.profile.commands) :
    validateEvidenceForProfile (run.evidence head base updatedAt) run.outcome head base
        (some run.profile) = .ok () ↔
      validateStarted run.commands run.profile.commands.length run.outcome = .ok () := by
  rw [validateEvidence_iff]
  exact ⟨fun h => h.started, fun h => ⟨rfl, rfl, rfl, evidence_verdict run head base updatedAt,
    evidence_exemption run head base updatedAt, hhex, rfl, rfl, rfl, hstart, h⟩⟩

theorem profile_state {codec : ProfileCodec} {mode : VerificationMode} {commands : List String}
    {smokeCmd : Option String} :
    (verificationProfile codec mode commands smokeCmd).state =
      if mode = .disabled then "disabled"
      else if (verificationProfile codec mode commands smokeCmd).commands.isEmpty then "missing"
      else "configured" := by
  have hmode : mode.asStr = "disabled" ↔ mode = .disabled := by cases mode <;> decide
  unfold verificationProfile profileWithPolicyCommands fingerprintedProfile
  simp only [hmode]

theorem disposition_cases (codec : ProfileCodec) (mode : VerificationMode) (commands : List String)
    (smokeCmd : Option String) (profile : VerificationProfile)
    (h : profile = verificationProfile codec mode commands smokeCmd) :
    mode = .disabled ∧ disposition profile = .exempt "operator-disabled" ∨
      mode ≠ .disabled ∧ profile.commands = [] ∧
        disposition profile = .blocked missingProfileReason ∨
      mode ≠ .disabled ∧ disposition profile = .configured := by
  have hstate := @profile_state codec mode commands smokeCmd
  rw [← h] at hstate
  unfold disposition
  by_cases hmode : mode = .disabled
  · rw [if_pos hmode] at hstate
    exact .inl ⟨hmode, if_pos hstate⟩
  rw [if_neg hmode] at hstate
  by_cases hempty : profile.commands.isEmpty = true
  · rw [if_pos hempty] at hstate
    refine .inr (.inl ⟨hmode, List.isEmpty_iff.1 hempty, ?_⟩)
    rw [hstate, if_neg (by decide), if_neg (by decide)]
  · rw [if_neg hempty] at hstate
    refine .inr (.inr ⟨hmode, ?_⟩)
    rw [hstate, if_neg (by decide), if_pos rfl]

/-- **A run passes the check of its commands** unless it was interrupted. -/
theorem verifyIntegration_started (children : Children) (deadlineSecs : Nat) (codec : ProfileCodec)
    (mode : VerificationMode) (commands : List String) (smokeCmd : Option String)
    (run : VerificationRun)
    (h : run = verifyIntegration children deadlineSecs codec mode commands smokeCmd) :
    run.profile = verificationProfile codec mode commands smokeCmd ∧
      run.commands.map (·.command) <+: run.profile.commands ∧
      (validateStarted run.commands run.profile.commands.length run.outcome = .ok () ↔
        ¬Interrupted children deadlineSecs codec mode commands smokeCmd) := by
  unfold Interrupted
  unfold verifyIntegration at h
  have hcases := disposition_cases codec mode commands smokeCmd _ rfl
  generalize verificationProfile codec mode commands smokeCmd = profile at h hcases ⊢
  dsimp only at h
  rcases hcases with ⟨hmode, hdisposition⟩ | ⟨-, hempty, hdisposition⟩ | ⟨hmode, hdisposition⟩
  · rw [hdisposition] at h
    subst h
    exact ⟨rfl, List.nil_prefix, fun _ h => h.1 hmode, fun _ => rfl⟩
  · rw [hdisposition] at h
    subst h
    refine ⟨rfl, List.nil_prefix, fun _ => ?_, fun _ => rfl⟩
    rintro ⟨-, invocations, hdecode, hstop⟩
    rw [hempty] at hdecode
    obtain rfl := Except.ok.inj hdecode
    cases hstop
  · rw [hdisposition] at h
    unfold runCommandSequence at h
    cases hdecode : decodeInvocations profile.commands with
    | error error =>
      rw [hdecode] at h
      subst h
      refine ⟨rfl, List.nil_prefix, fun _ => ?_, fun _ => rfl⟩
      rintro ⟨-, invocations, hok, -⟩
      cases hok
    | ok invocations =>
      rw [hdecode] at h
      subst h
      have hcommands := decodeInvocations_commands hdecode
      have hlength : profile.commands.length = invocations.length := by
        rw [← hcommands, List.length_map]
      obtain ⟨hresults, hends⟩ := @runInvocations_spec children deadlineSecs
        integrationFindingSubject 1 "" [] invocations
      rw [List.nil_append] at hresults
      refine ⟨rfl, ?_, ?_⟩
      · dsimp only
        rw [hresults, ← hcommands]
        exact startedResults_prefix
      · dsimp only
        rw [hresults, hlength, validateStarted_iff hends]
        refine ⟨fun hne => ?_, fun h hstop => h ⟨hmode, invocations, rfl, hstop⟩⟩
        rintro ⟨-, other, hother, hstop⟩
        obtain rfl := Except.ok.inj hother
        exact hne hstop

/-- **Evidence is accepted for its own run and for nothing else**, but for a run that a cancelled
call has blocked: its evidence has the commands that started, and is refused. -/
theorem evidence_valid_iff {codec : ProfileCodec}
    (hsha : ∀ bytes, (codec.sha256 bytes).length = 32) :
    (∀ (children : Children) (deadlineSecs : Nat) (mode : VerificationMode)
        (commands : List String) (smokeCmd : Option String) (head base updatedAt : String)
        (run : VerificationRun),
      run = verifyIntegration children deadlineSecs codec mode commands smokeCmd →
      (validateEvidenceForProfile (run.evidence head base updatedAt) run.outcome head base
          (some run.profile) = .ok () ↔
        ¬Interrupted children deadlineSecs codec mode commands smokeCmd)) ∧
    (∀ (mode : VerificationMode) (commands : List String) (smokeCmd : Option String)
        (policyCommands : List String) (head base reason updatedAt : String)
        (profile : VerificationProfile),
      profile = profileWithPolicyCommands codec mode commands smokeCmd policyCommands →
      validateEvidenceForProfile (exemptionEvidence profile head base reason updatedAt)
        (.exempt reason) head base (some profile) = .ok ()) ∧
    (∀ (evidence : VerificationEvidence) (outcome : VerificationOutcome) (head base : String)
        (profile : VerificationProfile),
      validateEvidenceForProfile evidence outcome head base (some profile) = .ok () →
      evidence.verifiedHead = head ∧ evidence.base = base ∧ evidence.verdict = outcome.verdict ∧
        evidence.commands.map (·.command) <+: profile.commands ∧
        (outcome = .passed → AllSucceeded evidence.commands profile.commands)) ∧
    ∀ (run : VerificationRun) (head base head' base' updatedAt : String)
        (profile : VerificationProfile),
      validateEvidenceForProfile (run.evidence head base updatedAt) .passed head' base'
        (some profile) = .ok () → run.outcome = .passed := by
  refine ⟨?_, ?_, ?_, ?_⟩
  · intro children deadlineSecs mode commands smokeCmd head base updatedAt run hrun
    obtain ⟨hprofile, hstart, hstarted⟩ :=
      verifyIntegration_started children deadlineSecs codec mode commands smokeCmd run hrun
    have hhex : isHex 64 run.profile.fingerprint = true := by
      rw [hprofile]
      exact fingerprint_hex hsha mode commands smokeCmd []
    exact (evidence_accepted_iff hhex hstart).trans hstarted
  · rintro mode commands smokeCmd policyCommands head base reason updatedAt profile rfl
    rw [validateEvidence_iff]
    exact ⟨rfl, rfl, rfl, rfl, demand_eq_ok.2 rfl,
      fingerprint_hex hsha mode commands smokeCmd policyCommands, rfl, rfl, rfl, List.nil_prefix,
      rfl⟩
  · intro evidence outcome head base profile h
    have haccepted := validateEvidence_iff.1 h
    refine ⟨haccepted.head, haccepted.base, haccepted.verdict, haccepted.commands, ?_⟩
    rintro rfl
    exact (validateStarted_passed haccepted.commands).1 haccepted.started
  · intro run head base head' base' updatedAt profile h
    have hverdict := (validateEvidence_iff.1 h).verdict
    rw [evidence_verdict] at hverdict
    cases houtcome : run.outcome with
    | passed => rfl
    | exempt | failed | blocked =>
      rw [houtcome] at hverdict
      exact absurd hverdict (by simp [VerificationOutcome.verdict])

/-! ## A run to its end and one that is cancelled -/

namespace VerificationSample

def commands : List String := ["cargo fmt --check", "cargo test"]

/-- The encoding of texts without escapes, and the digest of the profile of these commands. -/
def codec : ProfileCodec where
  jsonString text := "\"" ++ text ++ "\""
  jsonStrings texts := "[" ++ ",".intercalate (texts.map fun text => "\"" ++ text ++ "\"") ++ "]"
  sha256 _ := [0x1d, 0x11, 0x38, 0x20, 0x57, 0xf8, 0x84, 0x8c, 0xa9, 0xd4, 0xfd, 0x56,
    0xf0, 0x7b, 0xa6, 0xee, 0xd9, 0x1c, 0xb0, 0x41, 0x6a, 0xab, 0x64, 0xb8,
    0xd0, 0x41, 0xd5, 0x45, 0xb0, 0x36, 0xf6, 0x44]

/-- Both commands end well. -/
def succeeding : Children := fun _ _ => (.finished false (some 0) none "" "", 5)

/-- The second command is cancelled while it runs. -/
def cancelledSecond : Children := fun number _ =>
  if number = 1 then (.finished false (some 0) none "" "", 5)
  else (.failed .cancelled none "" "" "", 7)

def run (children : Children) : VerificationRun :=
  verifyIntegration children 60 codec .required commands none

end VerificationSample

/-- The evidence of a run to its end. -/
theorem evidence_valid_iff_succeeding :
    validateEvidenceForProfile
      ((VerificationSample.run VerificationSample.succeeding).evidence "h" "b" "t")
      (VerificationSample.run VerificationSample.succeeding).outcome "h" "b"
      (some (VerificationSample.run VerificationSample.succeeding).profile) = .ok () := by
  refine ((evidence_valid_iff fun _ => rfl).1 VerificationSample.succeeding 60 .required
    VerificationSample.commands none "h" "b" "t" _ rfl).2 ?_
  rintro ⟨-, invocations, -, hstop⟩
  have hok : ∀ invocations number,
      stopReason VerificationSample.succeeding 60 number invocations = .ok := by
    intro invocations
    induction invocations with
    | nil => exact fun _ => rfl
    | cons invocation rest ih =>
      intro number
      unfold stopReason
      exact (if_pos rfl).trans (ih (number + 1))
  rw [hok invocations 1] at hstop
  cases hstop

/-- **A run that is cancelled in its second command** leaves evidence that is refused. -/
theorem evidence_cancelled :
    validateEvidenceForProfile
      ((VerificationSample.run VerificationSample.cancelledSecond).evidence "h" "b" "t")
      (VerificationSample.run VerificationSample.cancelledSecond).outcome "h" "b"
      (some (VerificationSample.run VerificationSample.cancelledSecond).profile) =
        .error "exempt or blocked verification evidence must not report started commands" := by
  decide +kernel

end Orchestrail
