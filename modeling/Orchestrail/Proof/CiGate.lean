import Orchestrail.Spec.CiGate
import Mathlib.Data.List.Perm.Basic
import Mathlib.Data.List.Nodup

/-!
# What the publication CI gate answers

The three adapters of the gate select the checks that count in the same way and then read them in
their order, ending at the first one that is not green.
-/

namespace Orchestrail.CiGate

open Text

/-! ## The newest entry -/

section Newest

variable {α β : Type}

theorem maxByKey_eq_none {key : α → Nat} {l : List α} : maxByKey key l = none ↔ l = [] := by
  cases l with
  | nil => simp [maxByKey]
  | cons entry rest =>
    cases h : maxByKey key rest with
    | none => simp [maxByKey, h]
    | some best =>
      simp only [maxByKey, h]
      split <;> simp

theorem maxByKey_spec {key : α → Nat} : ∀ {l : List α} {best : α}, maxByKey key l = some best →
    best ∈ l ∧ ∀ entry ∈ l, key entry ≤ key best := by
  intro l
  induction l with
  | nil => intro best h; simp [maxByKey] at h
  | cons first rest ih =>
    intro best h
    cases hr : maxByKey key rest with
    | none =>
      simp only [maxByKey, hr, Option.some.injEq] at h
      have hrest := maxByKey_eq_none.1 hr
      subst h hrest
      simp
    | some inner =>
      obtain ⟨hmem, hle⟩ := ih hr
      simp only [maxByKey, hr] at h
      by_cases hk : key first ≤ key inner
      · rw [if_pos hk, Option.some.injEq] at h
        subst h
        refine ⟨List.mem_cons_of_mem _ hmem, fun entry he => ?_⟩
        rcases List.mem_cons.1 he with rfl | he
        · exact hk
        · exact hle entry he
      · rw [if_neg hk, Option.some.injEq] at h
        subst h
        refine ⟨List.mem_cons_self, fun entry he => ?_⟩
        rcases List.mem_cons.1 he with rfl | he
        · exact le_rfl
        · exact (hle entry he).trans (by omega)

theorem maxByKey_map (key : β → Nat) (f : α → β) (l : List α) :
    maxByKey key (l.map f) = (maxByKey (fun entry => key (f entry)) l).map f := by
  induction l with
  | nil => rfl
  | cons entry rest ih =>
    rw [List.map_cons, maxByKey, maxByKey, ih]
    cases maxByKey (fun entry => key (f entry)) rest with
    | none => rfl
    | some best =>
      simp only [Option.map_some]
      split <;> rfl

/-- With distinct keys the newest entry does not depend on the order. -/
theorem maxByKey_perm {key : α → Nat} {l l' : List α} (h : l.Perm l') (hd : (l.map key).Nodup) :
    maxByKey key l = maxByKey key l' := by
  cases hl : maxByKey key l with
  | none =>
    have := maxByKey_eq_none.1 hl
    subst this
    rw [← h.nil_eq, maxByKey]
  | some best =>
    cases hl' : maxByKey key l' with
    | none =>
      have := maxByKey_eq_none.1 hl'
      subst this
      rw [h.eq_nil] at hl
      simp [maxByKey] at hl
    | some best' =>
      obtain ⟨hmem, hle⟩ := maxByKey_spec hl
      obtain ⟨hmem', hle'⟩ := maxByKey_spec hl'
      have hk : key best = key best' :=
        le_antisymm (hle' best (h.mem_iff.1 hmem)) (hle best' (h.mem_iff.2 hmem'))
      rw [List.inj_on_of_nodup_map hd hmem (h.mem_iff.2 hmem') hk]

end Newest

/-! ## The selection -/

/-- `Snapshot.selected`, of the entries alone. -/
def selectedOf (checks : List Check) (required : List String) : List Check :=
  if required = [] then checks.filter (·.blocking)
  else required.filterMap fun name => maxByKey (·.id) (checks.filter (·.name = name))

def ReportedIn (checks : List Check) (required : List String) : Prop :=
  ∀ name ∈ required, ∃ check ∈ checks, check.name = name

section Selection

variable {α : Type} (forge : Forge) (name : α → String) (id : α → Nat) (view : α → Check)

theorem newest_view (hid : ∀ e, (view e).id = id e) (hname : ∀ e, (view e).name = trimmed (name e))
    (entries : List α) (required : String) :
    maxByKey (·.id) ((entries.map view).filter (·.name = required)) =
      (maxByKey id (entries.filter fun entry => trimmed (name entry) = required)).map view := by
  have hf : (entries.map view).filter (·.name = required) =
      (entries.filter fun entry => trimmed (name entry) = required).map view := by
    rw [List.filter_map]
    congr 1
    refine List.filter_congr fun entry _ => ?_
    simp [hname]
  rw [hf, maxByKey_map]
  simp only [hid]

theorem selectRequired_spec (hid : ∀ e, (view e).id = id e)
    (hname : ∀ e, (view e).name = trimmed (name e)) (entries : List α) (required : List String) :
    (ReportedIn (entries.map view) required ∧
      ∃ chosen, selectRequired forge name id entries required = .ok chosen ∧
        chosen.map view = required.filterMap fun name =>
          maxByKey (·.id) ((entries.map view).filter (·.name = name))) ∨
    (¬ ReportedIn (entries.map view) required ∧
      ∃ reason, selectRequired forge name id entries required = .error (.pending reason)) := by
  induction required with
  | nil => exact .inl ⟨by simp [ReportedIn], [], rfl, rfl⟩
  | cons asked rest ih =>
    have hnew := newest_view name id view hid hname entries asked
    cases hl : maxByKey id (entries.filter fun entry => trimmed (name entry) = asked) with
    | none =>
      refine .inr ⟨fun h => ?_, _, by rw [selectRequired, hl]⟩
      obtain ⟨check, hc, he⟩ := h asked List.mem_cons_self
      obtain ⟨entry, hentry, rfl⟩ := List.mem_map.1 hc
      have hnone := maxByKey_eq_none.1 hl
      rw [List.filter_eq_nil_iff] at hnone
      exact hnone entry hentry (by simpa [hname] using he)
    | some entry =>
      have hmem := (maxByKey_spec hl).1
      rw [List.mem_filter, decide_eq_true_eq] at hmem
      rw [hl, Option.map_some] at hnew
      rcases ih with ⟨hrep, chosen, hsel, hmap⟩ | ⟨hrep, reason, hsel⟩
      · refine .inl ⟨fun asked' h => ?_, entry :: chosen, ?_, ?_⟩
        · rcases List.mem_cons.1 h with rfl | h
          · exact ⟨view entry, List.mem_map_of_mem hmem.1, (hname entry).trans hmem.2⟩
          · exact hrep asked' h
        · rw [selectRequired, hl]
          simp only [hsel]
          rfl
        · rw [List.map_cons, hmap]
          simp only [List.filterMap_cons, hnew]
      · refine .inr ⟨fun h => hrep fun asked' h' => h asked' (List.mem_cons_of_mem _ h'), reason, ?_⟩
        rw [selectRequired, hl]
        simp only [hsel]
        rfl

/-- What an adapter goes on with: the selected entries, or the name that nobody reported. -/
theorem selection_spec (blocking : α → Bool) (hid : ∀ e, (view e).id = id e)
    (hname : ∀ e, (view e).name = trimmed (name e)) (hb : ∀ e, (view e).blocking = blocking e)
    (entries : List α) (required : List String) :
    (ReportedIn (entries.map view) required ∧
      ∃ chosen, (if required.isEmpty then .ok (entries.filter blocking)
          else selectRequired forge name id entries required) = Except.ok chosen ∧
        chosen.map view = selectedOf (entries.map view) required) ∨
    (¬ ReportedIn (entries.map view) required ∧
      ∃ reason, (if required.isEmpty then .ok (entries.filter blocking)
          else selectRequired forge name id entries required) = .error (.pending reason)) := by
  cases required with
  | nil =>
    refine .inl ⟨by simp [ReportedIn], entries.filter blocking, rfl, ?_⟩
    rw [selectedOf, if_pos rfl, List.filter_map]
    congr 1
    exact List.filter_congr fun entry _ => (hb entry).symm
  | cons asked rest => exact selectRequired_spec forge name id view hid hname entries _

end Selection

/-! ## The fold -/

/-- The fingerprint a red check is answered with. -/
def Check.signature (toLowercase : List Char → List Char) (forge : Forge) (head : String)
    (check : Check) : String :=
  checkSignature toLowercase forge head
    (if check.name = "" then "<unnamed check>" else check.name) check.state

/-- The answer of a loop over checks that ends at the first one that is not green. -/
inductive Folds (signature : Check → String) : List Check → CiPoll → Prop
  | done : Folds signature [] .passing
  | success {check rest poll} (h : check.verdict = .success) (t : Folds signature rest poll) :
      Folds signature (check :: rest) poll
  | failure {check rest reason} (h : check.verdict = .failure) :
      Folds signature (check :: rest) (.failing (signature check) reason)
  | unsettled {check rest reason} (h : check.verdict = .unsettled) :
      Folds signature (check :: rest) (.pending reason)

namespace Folds

variable {signature : Check → String} {checks : List Check} {poll : CiPoll}

theorem passing_iff (h : Folds signature checks poll) :
    poll = .passing ↔ ∀ check ∈ checks, check.verdict = .success := by
  induction h with
  | done => simp
  | success h _ ih => simp [ih, h]
  | failure h => simp [h]
  | unsettled h => simp [h]

theorem named (h : Folds signature checks poll) {sig reason : String}
    (hp : poll = .failing sig reason) :
    ∃ check ∈ checks, check.verdict = .failure ∧ sig = signature check := by
  induction h with
  | done => cases hp
  | success _ _ ih =>
    obtain ⟨check, hc, hv⟩ := ih hp
    exact ⟨check, List.mem_cons_of_mem _ hc, hv⟩
  | @failure check rest _ h =>
    cases hp
    exact ⟨check, List.mem_cons_self, h, rfl⟩
  | unsettled => cases hp

/-- Without unsettled checks a red one is found. -/
theorem failing (h : Folds signature checks poll) (hs : ∀ check ∈ checks, check.verdict ≠ .unsettled)
    (hr : ∃ check ∈ checks, check.verdict = .failure) : ∃ sig reason, poll = .failing sig reason := by
  induction h with
  | done => simp at hr
  | @success check rest _ h _ ih =>
    refine ih (fun c hc => hs c (List.mem_cons_of_mem _ hc)) ?_
    obtain ⟨red, hred, hv⟩ := hr
    rcases List.mem_cons.1 hred with rfl | hred
    · rw [h] at hv; cases hv
    · exact ⟨red, hred, hv⟩
  | failure => exact ⟨_, _, rfl⟩
  | @unsettled check rest _ h => exact absurd h (hs check List.mem_cons_self)

/-- An unsettled check in front hides what stands behind it. -/
theorem hidden {check : Check} (h : Folds signature (check :: checks) poll)
    (hv : check.verdict = .unsettled) : ∃ reason, poll = .pending reason := by
  cases h with
  | success h => rw [hv] at h; cases h
  | failure h => rw [hv] at h; cases h
  | unsettled => exact ⟨_, rfl⟩

end Folds

section Loops

variable (toLowercase : List Char → List Char) (head : String)

theorem signature_shown {check : Check} (forge : Forge) {rawName state : String}
    (hn : check.name = trimmed rawName) (hs : check.state = state) :
    checkSignature toLowercase forge head (shownName rawName) state =
      check.signature toLowercase forge head := by
  rw [Check.signature, hn, hs, shownName]

theorem classifySelected_folds {α : Type} (forge : Forge) (verdict : String → CheckVerdict)
    (name state : α → String) (view : α → Check) (hname : ∀ e, (view e).name = trimmed (name e))
    (hstate : ∀ e, (view e).state = foldedState (state e))
    (hverdict : ∀ e, (view e).verdict = verdict (foldedState (state e))) (entries : List α) :
    Folds (Check.signature toLowercase forge head) (entries.map view)
      (classifySelected toLowercase head forge verdict
        (entries.map fun e => (name e, state e))) := by
  induction entries with
  | nil => exact .done
  | cons entry rest ih =>
    have hv := hverdict entry
    simp only [List.map_cons, classifySelected]
    cases h : verdict (foldedState (state entry)) with
    | success => exact .success (hv.trans h) ih
    | failure =>
      simp only [signature_shown toLowercase head forge (hname entry) (hstate entry)]
      exact .failure (hv.trans h)
    | unsettled => exact .unsettled (hv.trans h)

theorem check_completed {run : GitHubCheckRun} (h : foldedState run.status = "completed") :
    run.check.verdict = githubVerdict (foldedState (run.conclusion.getD "")) := by
  simp only [GitHubCheckRun.check, if_pos h]

theorem check_running {run : GitHubCheckRun} (h : foldedState run.status ≠ "completed") :
    run.check.verdict = .unsettled := by
  simp only [GitHubCheckRun.check, if_neg h]

theorem classifyCheckRuns_folds (runs : List GitHubCheckRun) :
    Folds (Check.signature toLowercase .gitHub head) (runs.map (·.check))
      (classifyCheckRuns toLowercase head runs) := by
  induction runs with
  | nil => exact .done
  | cons run rest ih =>
    simp only [List.map_cons, classifyCheckRuns]
    by_cases hs : foldedState run.status = "completed"
    · have hv := check_completed hs
      rw [if_neg (not_not.2 hs)]
      cases h : githubVerdict (foldedState (run.conclusion.getD "")) with
      | success => exact .success (hv.trans h) ih
      | failure =>
        have hsig := signature_shown toLowercase head .gitHub
          (show run.check.name = trimmed run.name from rfl)
          (show run.check.state = foldedState (run.conclusion.getD "") from rfl)
        simp only [hsig]
        exact .failure (hv.trans h)
      | unsettled => exact .unsettled (hv.trans h)
    · rw [if_pos hs]
      exact .unsettled (check_running hs)

end Loops

/-! ## What an adapter answers -/

section Adapters

variable {ε : Type} (toLowercase : List Char → List Char) (head : String) (required : List String)

/-- The answers a page can get, from its selected checks. -/
inductive Judged (page : Snapshot ε) : Except ε CiPoll → Prop
  | refused {reason} (h : ¬ page.Usable head required) : Judged page (.ok (.pending reason))
  | folded {poll} (h : page.Usable head required)
      (f : Folds (Check.signature toLowercase page.forge head) (page.selected required) poll)
      (hp : poll ≠ .passing) : Judged page (.ok poll)
  | passed (h : page.Usable head required)
      (f : Folds (Check.signature toLowercase page.forge head) (page.selected required) .passing)
      (hn : page.nextEmpty = .ok true) : Judged page (.ok .passing)
  | more {reason} (h : page.Usable head required)
      (f : Folds (Check.signature toLowercase page.forge head) (page.selected required) .passing)
      (hn : page.nextEmpty = .ok false) : Judged page (.ok (.pending reason))
  | outage {error} (h : page.Usable head required)
      (f : Folds (Check.signature toLowercase page.forge head) (page.selected required) .passing)
      (hn : page.nextEmpty = .error error) : Judged page (.error error)

variable {toLowercase head required}

theorem gitlab_id (status : GitLabCommitStatus) : status.check.id = status.id := by
  simp only [GitLabCommitStatus.check]

theorem gitlab_name (status : GitLabCommitStatus) : status.check.name = trimmed status.name := by
  simp only [GitLabCommitStatus.check]

theorem gitlab_state (status : GitLabCommitStatus) :
    status.check.state = foldedState status.status := by
  simp only [GitLabCommitStatus.check]

theorem gitlab_verdict (status : GitLabCommitStatus) :
    status.check.verdict = gitlabVerdict (foldedState status.status) := by
  simp only [GitLabCommitStatus.check]

theorem gitlab_blocking (status : GitLabCommitStatus) :
    status.check.blocking = !status.allowFailure := by
  simp only [GitLabCommitStatus.check]

theorem gitea_id (status : GiteaCommitStatus) : status.check.id = status.id := by
  simp only [GiteaCommitStatus.check]

theorem gitea_name (status : GiteaCommitStatus) : status.check.name = trimmed status.context := by
  simp only [GiteaCommitStatus.check]

theorem gitea_state (status : GiteaCommitStatus) :
    status.check.state = foldedState status.status := by
  simp only [GiteaCommitStatus.check]

theorem gitea_verdict (status : GiteaCommitStatus) :
    status.check.verdict = giteaVerdict (foldedState status.status) := by
  simp only [GiteaCommitStatus.check]

theorem gitea_blocking (status : GiteaCommitStatus) : status.check.blocking = true := by
  simp only [GiteaCommitStatus.check]

theorem github_id (run : GitHubCheckRun) : run.check.id = run.id := by
  simp only [GitHubCheckRun.check]

theorem github_name (run : GitHubCheckRun) : run.check.name = trimmed run.name := by
  simp only [GitHubCheckRun.check]

theorem github_blocking (run : GitHubCheckRun) : run.check.blocking = true := by
  simp only [GitHubCheckRun.check]

theorem Snapshot.Usable.of_selected {page : Snapshot ε} (full : page.Full) (ours : page.Ours head)
    (reported : ReportedIn page.checks required) (nonempty : selectedOf page.checks required ≠ []) :
    page.Usable head required := ⟨full, ours, reported, nonempty⟩

/-- Of a page that reports what is asked for, each name selects something. -/
theorem selectedOf_ne_nil_of_names {checks : List Check} (hr : ReportedIn checks required)
    (hne : required ≠ []) : selectedOf checks required ≠ [] := by
  intro hnil
  obtain ⟨name, rest, rfl⟩ := List.exists_cons_of_ne_nil hne
  obtain ⟨check, hc, hn⟩ := hr name List.mem_cons_self
  rw [selectedOf, if_neg hne] at hnil
  have hnone := maxByKey_eq_none.1 (List.filterMap_eq_nil_iff.1 hnil name List.mem_cons_self)
  exact List.filter_eq_nil_iff.1 hnone check hc (by simpa using hn)

theorem selectedOf_ne_nil {checks : List Check} (hr : ReportedIn checks required)
    (hne : checks ≠ []) (hb : ∀ check ∈ checks, check.blocking = true) :
    selectedOf checks required ≠ [] := by
  by_cases hreq : required = []
  · rw [selectedOf, if_pos hreq, List.filter_eq_self.2 hb]
    exact hne
  · exact selectedOf_ne_nil_of_names hr hreq

theorem not_usable_of_empty {page : Snapshot ε} (h : page.checks = []) :
    ¬ page.Usable head required := by
  intro hu
  cases required with
  | nil => exact hu.nonempty (by simp [Snapshot.selected, h])
  | cons name rest =>
    obtain ⟨check, hc, -⟩ := hu.reported name List.mem_cons_self
    rw [h] at hc
    cases hc

/-- A page without a next one: the fold is the answer. -/
theorem Judged.of_folds {page : Snapshot ε} {poll : CiPoll} (h : page.Usable head required)
    (f : Folds (Check.signature toLowercase page.forge head) (page.selected required) poll)
    (hn : page.nextEmpty = .ok true) : Judged toLowercase head required page (.ok poll) := by
  by_cases hp : poll = .passing
  · subst hp
    exact .passed h f hn
  · exact .folded h f hp

theorem gitlab_judged (statuses : List GitLabCommitStatus) :
    Judged toLowercase head required (.gitLab statuses : Snapshot ε)
      (.ok (classifyGitlabStatuses toLowercase head statuses required)) := by
  unfold classifyGitlabStatuses
  by_cases hf : gitlabStatusPageSize ≤ statuses.length
  · rw [if_pos hf]
    exact .refused fun h => absurd h.full (Nat.not_lt.2 hf)
  rw [if_neg hf]
  cases ho : statuses.find? fun status => status.sha ≠ "" && !eqIgnoreAsciiCase status.sha head with
  | some foreign =>
    refine .refused fun h => ?_
    have hsome := List.find?_some ho
    rcases h.ours foreign (List.mem_of_find?_eq_some ho) with h | h <;> simp [h] at hsome
  | none =>
    have hours : (Snapshot.gitLab statuses : Snapshot ε).Ours head := by
      intro status hs
      have := List.find?_eq_none.1 ho status hs
      by_cases he : status.sha = ""
      · exact .inl he
      · exact .inr (by simpa [he] using this)
    by_cases hempty : statuses.isEmpty = true
    · simp only [hempty, if_true]
      exact .refused (not_usable_of_empty (by simp [Snapshot.checks, List.isEmpty_iff.1 hempty]))
    simp only [if_neg hempty]
    rcases @selection_spec GitLabCommitStatus .gitLab (·.name) (·.id) GitLabCommitStatus.check
        (!·.allowFailure) gitlab_id gitlab_name gitlab_blocking statuses required with
      ⟨hrep, chosen, hsel, hmap⟩ | ⟨hrep, reason, hsel⟩
    · simp only [hsel]
      by_cases hc : chosen.isEmpty = true
      · simp only [hc, if_true]
        refine .refused fun h => h.nonempty ?_
        exact hmap.symm.trans (by simp [List.isEmpty_iff.1 hc])
      · simp only [if_neg hc]
        have hne : selectedOf (statuses.map (·.check)) required ≠ [] := by
          rw [← hmap]
          simpa using hc
        refine .of_folds (.of_selected (Nat.not_le.1 hf) hours hrep hne) ?_ rfl
        have hfold := @classifySelected_folds toLowercase head GitLabCommitStatus .gitLab
          gitlabVerdict (·.name) (·.status) GitLabCommitStatus.check gitlab_name gitlab_state
          gitlab_verdict chosen
        rw [hmap] at hfold
        exact hfold
    · simp only [hsel]
      exact .refused fun h => hrep h.reported

theorem gitea_judged (combined : GiteaCombinedStatus) (nextPage : Except ε GiteaCombinedStatus) :
    Judged toLowercase head required (.gitea combined nextPage)
      (classifyGiteaStatuses toLowercase head combined required nextPage) := by
  unfold classifyGiteaStatuses
  by_cases hf : combined.totalCount = combined.statuses.length
  · rw [if_neg (not_not.2 hf)]
    by_cases ho : combined.sha ≠ "" ∧ eqIgnoreAsciiCase combined.sha head = false
    · rw [if_pos ho]
      refine .refused fun h => ?_
      rcases h.ours with h | h
      · exact ho.1 h
      · rw [ho.2] at h
        cases h
    rw [if_neg ho]
    have hours : (Snapshot.gitea combined nextPage).Ours head := by
      by_cases he : combined.sha = ""
      · exact .inl he
      · exact .inr (by simpa [he] using ho)
    by_cases hempty : combined.statuses.isEmpty = true
    · simp only [hempty, if_true]
      exact .refused (not_usable_of_empty (by simp [Snapshot.checks, List.isEmpty_iff.1 hempty]))
    simp only [if_neg hempty]
    have hspec := @selection_spec GiteaCommitStatus .gitea (·.context) (·.id)
      GiteaCommitStatus.check (fun _ => true) gitea_id gitea_name gitea_blocking combined.statuses
      required
    rw [List.filter_true] at hspec
    rcases hspec with ⟨hrep, chosen, hsel, hmap⟩ | ⟨hrep, reason, hsel⟩
    · simp only [hsel]
      have hne := selectedOf_ne_nil hrep (by simpa using hempty) (by simp [gitea_blocking])
      have hu : (Snapshot.gitea combined nextPage).Usable head required :=
        .of_selected hf hours hrep hne
      have hfold := @classifySelected_folds toLowercase head GiteaCommitStatus .gitea giteaVerdict
        (·.context) (·.status) GiteaCommitStatus.check gitea_name gitea_state gitea_verdict chosen
      rw [hmap] at hfold
      cases hp : classifySelected toLowercase head .gitea giteaVerdict
          (chosen.map fun status => (status.context, status.status)) with
      | passing =>
        rw [hp] at hfold
        cases nextPage with
        | error e => exact .outage hu hfold rfl
        | ok page =>
          by_cases hpage : page.statuses.isEmpty = true
          · simp only [bind, Except.bind, hpage, if_true]
            exact .passed hu hfold (by simp [Snapshot.nextEmpty, Except.map, hpage])
          · simp only [bind, Except.bind, if_neg hpage]
            exact .more hu hfold (by simpa [Snapshot.nextEmpty, Except.map] using hpage)
      | pending reason => exact .folded hu (hp ▸ hfold) (by simp)
      | failing sig reason => exact .folded hu (hp ▸ hfold) (by simp)
    · simp only [hsel]
      exact .refused fun h => hrep h.reported
  · rw [if_pos hf]
    exact .refused fun h => hf h.full

theorem github_judged (totalCount : Nat) (runs : List GitHubCheckRun) :
    Judged toLowercase head required (.gitHub totalCount runs : Snapshot ε)
      (.ok (classifyGithubChecks toLowercase head totalCount runs required)) := by
  unfold classifyGithubChecks
  by_cases hf : runs.length < totalCount
  · rw [if_pos hf]
    exact .refused fun h => absurd h.full (Nat.not_le.2 hf)
  rw [if_neg hf]
  by_cases hempty : runs.isEmpty = true
  · simp only [hempty, if_true]
    exact .refused (not_usable_of_empty (by simp [Snapshot.checks, List.isEmpty_iff.1 hempty]))
  simp only [if_neg hempty]
  have hspec := @selection_spec GitHubCheckRun .gitHub (·.name) (·.id) GitHubCheckRun.check
    (fun _ => true) github_id github_name github_blocking runs required
  rw [List.filter_true] at hspec
  rcases hspec with ⟨hrep, chosen, hsel, hmap⟩ | ⟨hrep, reason, hsel⟩
  · simp only [hsel]
    have hne := selectedOf_ne_nil hrep (by simpa using hempty) (by simp [github_blocking])
    have hfold := classifyCheckRuns_folds toLowercase head chosen
    rw [hmap] at hfold
    exact .of_folds (.of_selected (Nat.not_lt.1 hf) trivial hrep hne) hfold rfl
  · simp only [hsel]
    exact .refused fun h => hrep h.reported

/-- **The three adapters answer alike.** -/
theorem classify_judged (page : Snapshot ε) :
    Judged toLowercase head required page (page.classify toLowercase head required) := by
  cases page with
  | gitLab statuses => exact gitlab_judged statuses
  | gitea combined nextPage => exact gitea_judged combined nextPage
  | gitHub totalCount runs => exact github_judged totalCount runs

end Adapters

/-! ## The rule -/

section Rule

variable {ε : Type} (toLowercase : List Char → List Char) (head : String) (required : List String)

/-- The rule of the gate, for one response: it passes on proof, fails exactly on a red check, and
names it. -/
structure Rule (page : Snapshot ε) : Prop where
  passing : page.classify toLowercase head required = .ok .passing ↔
    page.Usable head required ∧ page.nextEmpty = .ok true ∧
      ∀ check ∈ page.selected required, check.verdict = .success
  failing : (∃ signature reason,
      page.classify toLowercase head required = .ok (.failing signature reason)) ↔
    page.Usable head required ∧ ∃ check ∈ page.selected required, check.verdict = .failure
  named : ∀ signature reason,
    page.classify toLowercase head required = .ok (.failing signature reason) →
      ∃ check ∈ page.selected required, check.verdict = .failure ∧
        signature = check.signature toLowercase page.forge head
  outage : ∀ error, page.classify toLowercase head required = .error error ↔
    page.Usable head required ∧ page.nextEmpty = .error error ∧
      ∀ check ∈ page.selected required, check.verdict = .success

/-- A usable page whose selected checks are red and unsettled. -/
def Mixed (page : Snapshot ε) : Prop :=
  page.Usable head required ∧ (∃ check ∈ page.selected required, check.verdict = .failure) ∧
    ∃ check ∈ page.selected required, check.verdict = .unsettled

variable {toLowercase head required}

namespace Judged

variable {page : Snapshot ε} {answer : Except ε CiPoll}

theorem passing_iff (h : Judged toLowercase head required page answer) :
    answer = .ok .passing ↔ page.Usable head required ∧ page.nextEmpty = .ok true ∧
      ∀ check ∈ page.selected required, check.verdict = .success := by
  cases h with
  | refused h => simp [h]
  | folded h f hp => simp [← f.passing_iff, hp]
  | passed h f hn => simp [← f.passing_iff, h, hn]
  | more h f hn => simp [hn]
  | outage h f hn => simp [hn]

theorem outage_iff (h : Judged toLowercase head required page answer) (error : ε) :
    answer = .error error ↔ page.Usable head required ∧ page.nextEmpty = .error error ∧
      ∀ check ∈ page.selected required, check.verdict = .success := by
  cases h with
  | refused h => simp [h]
  | folded h f hp => simp [← f.passing_iff, hp]
  | passed h f hn => simp [hn]
  | more h f hn => simp [hn]
  | outage h f hn => simp [← f.passing_iff, h, hn]

theorem named (h : Judged toLowercase head required page answer) {signature reason : String}
    (ha : answer = .ok (.failing signature reason)) :
    page.Usable head required ∧ ∃ check ∈ page.selected required, check.verdict = .failure ∧
      signature = check.signature toLowercase page.forge head := by
  cases h with
  | folded h f hp => exact ⟨h, f.named (Except.ok.inj ha)⟩
  | refused h => cases ha
  | passed h f hn => cases ha
  | more h f hn => cases ha
  | outage h f hn => cases ha

/-- Without an unsettled check next to it a red one is told. -/
theorem failing_iff (h : Judged toLowercase head required page answer)
    (hm : ¬ Mixed head required page) :
    (∃ signature reason, answer = .ok (.failing signature reason)) ↔
      page.Usable head required ∧ ∃ check ∈ page.selected required, check.verdict = .failure := by
  constructor
  · rintro ⟨signature, reason, ha⟩
    obtain ⟨hu, check, hc, hv, -⟩ := h.named ha
    exact ⟨hu, check, hc, hv⟩
  · rintro ⟨hu, hred⟩
    have hs : ∀ check ∈ page.selected required, check.verdict ≠ .unsettled :=
      fun check hc hv => hm ⟨hu, hred, check, hc, hv⟩
    have hgreen : ∀ {poll : CiPoll},
        Folds (Check.signature toLowercase page.forge head) (page.selected required) poll →
          poll ≠ .passing := by
      rintro poll f rfl
      obtain ⟨check, hc, hv⟩ := hred
      have := f.passing_iff.1 rfl check hc
      rw [hv] at this
      cases this
    cases h with
    | refused h => exact absurd hu h
    | folded h f hp =>
      obtain ⟨signature, reason, rfl⟩ := f.failing hs hred
      exact ⟨signature, reason, rfl⟩
    | passed h f hn => exact absurd rfl (hgreen f)
    | more h f hn => exact absurd rfl (hgreen f)
    | outage h f hn => exact absurd rfl (hgreen f)

/-- An unsettled check in front decides. -/
theorem hidden (h : Judged toLowercase head required page answer) {check : Check}
    {rest : List Check} (hs : page.selected required = check :: rest)
    (hv : check.verdict = .unsettled) : ∃ reason, answer = .ok (.pending reason) := by
  have hpoll : ∀ {poll : CiPoll},
      Folds (Check.signature toLowercase page.forge head) (page.selected required) poll →
        ∃ reason, poll = .pending reason := by
    intro poll f
    rw [hs] at f
    exact f.hidden hv
  cases h with
  | refused h => exact ⟨_, rfl⟩
  | folded h f hp =>
    obtain ⟨reason, rfl⟩ := hpoll f
    exact ⟨reason, rfl⟩
  | passed h f hn =>
    obtain ⟨reason, hr⟩ := hpoll f
    cases hr
  | more h f hn => exact ⟨_, rfl⟩
  | outage h f hn =>
    obtain ⟨reason, hr⟩ := hpoll f
    cases hr

end Judged

/-- **The rule, away from mixed sets.** -/
theorem rule_of_unmixed {page : Snapshot ε} (hm : ¬ Mixed head required page) :
    Rule toLowercase head required page :=
  have hj := classify_judged page
  ⟨hj.passing_iff, hj.failing_iff hm, fun _ _ ha => (hj.named ha).2, hj.outage_iff⟩

end Rule

/-! ## Order -/

section Order

variable {ε : Type}

/-- The same response, with its entries in another order. -/
inductive Reorder : Snapshot ε → Snapshot ε → Prop
  | gitLab {statuses statuses'} (h : List.Perm statuses statuses') :
      Reorder (.gitLab statuses) (.gitLab statuses')
  | gitea {sha totalCount statuses statuses' nextPage} (h : List.Perm statuses statuses') :
      Reorder (.gitea ⟨sha, totalCount, statuses⟩ nextPage)
        (.gitea ⟨sha, totalCount, statuses'⟩ nextPage)
  | gitHub {totalCount runs runs'} (h : List.Perm runs runs') :
      Reorder (.gitHub totalCount runs) (.gitHub totalCount runs')

/-- No two entries carry one id. -/
def Snapshot.Distinct (page : Snapshot ε) : Prop := (page.checks.map (·.id)).Nodup

/-- An answer up to the check it names. -/
def answerOf (answer : Except ε CiPoll) : Except ε Answer := answer.map CiPoll.answer

variable {page page' : Snapshot ε} {head : String} {required required' : List String}

namespace Reorder

theorem refl (page : Snapshot ε) : Reorder page page := by
  cases page with
  | gitLab => exact .gitLab (.refl _)
  | gitea combined => cases combined; exact .gitea (.refl _)
  | gitHub => exact .gitHub (.refl _)

theorem trans {page'' : Snapshot ε} (h : Reorder page page') (h' : Reorder page' page'') :
    Reorder page page'' := by
  cases h with
  | gitLab h => cases h' with | gitLab h' => exact .gitLab (h.trans h')
  | gitea h => cases h' with | gitea h' => exact .gitea (h.trans h')
  | gitHub h => cases h' with | gitHub h' => exact .gitHub (h.trans h')

theorem symm (h : Reorder page page') : Reorder page' page := by
  cases h with
  | gitLab h => exact .gitLab h.symm
  | gitea h => exact .gitea h.symm
  | gitHub h => exact .gitHub h.symm

theorem checks (h : Reorder page page') : page.checks.Perm page'.checks := by
  cases h with
  | gitLab h => exact h.map _
  | gitea h => exact h.map _
  | gitHub h => exact h.map _

theorem nextEmpty (h : Reorder page page') : page'.nextEmpty = page.nextEmpty := by
  cases h <;> rfl

theorem full (h : Reorder page page') (hf : page.Full) : page'.Full := by
  cases h with
  | gitLab h => exact h.length_eq.symm.trans_lt hf
  | gitea h => exact hf.trans h.length_eq
  | gitHub h => exact hf.trans_eq h.length_eq

theorem ours (h : Reorder page page') (ho : page.Ours head) : page'.Ours head := by
  cases h with
  | gitLab h => exact fun status hs => ho status (h.mem_iff.2 hs)
  | gitea h => exact ho
  | gitHub h => trivial

theorem usable (h : Reorder page page') (hp : required.Perm required')
    (hu : page.Usable head required) : page'.Usable head required' := by
  have hrep : ReportedIn page'.checks required' := by
    intro name hn
    obtain ⟨check, hc, he⟩ := hu.reported name (hp.mem_iff.2 hn)
    exact ⟨check, h.checks.mem_iff.1 hc, he⟩
  refine .of_selected (h.full hu.full) (h.ours hu.ours) hrep ?_
  by_cases hr : required' = []
  · subst hr
    have hempty := hp.eq_nil
    subst hempty
    intro hnil
    rw [selectedOf, if_pos rfl] at hnil
    exact hu.nonempty (((h.checks.filter _).trans (.of_eq hnil)).eq_nil)
  · exact selectedOf_ne_nil_of_names hrep hr

end Reorder

/-- The order of the names only orders what is selected. -/
theorem selected_names (page : Snapshot ε) (hp : required.Perm required') :
    (page.selected required).Perm (page.selected required') := by
  by_cases hr : required = []
  · subst hr
    rw [hp.nil_eq]
  · have hr' : required' ≠ [] := fun h => hr (by subst h; exact hp.eq_nil)
    rw [Snapshot.selected, if_neg hr, Snapshot.selected, if_neg hr']
    exact hp.filterMap _

/-- **With distinct ids the order of the entries only orders what is selected.** -/
theorem selected_reorder (h : Reorder page page') (hd : page.Distinct) (required : List String) :
    (page.selected required).Perm (page'.selected required) := by
  by_cases hr : required = []
  · rw [Snapshot.selected, if_pos hr, Snapshot.selected, if_pos hr]
    exact h.checks.filter _
  · rw [Snapshot.selected, if_neg hr, Snapshot.selected, if_neg hr]
    refine .of_eq (List.filterMap_congr fun name _ => ?_)
    refine maxByKey_perm (h.checks.filter _) ?_
    exact List.Nodup.sublist ((List.filter_sublist).map _) hd

variable {toLowercase : List Char → List Char}

/-- Two answers that pass together, fail together and are missing together are alike. -/
theorem answerOf_eq {answer answer' : Except ε CiPoll}
    (hp : answer = .ok .passing ↔ answer' = .ok .passing)
    (hf : (∃ signature reason, answer = .ok (.failing signature reason)) ↔
      ∃ signature reason, answer' = .ok (.failing signature reason))
    (he : ∀ error, answer = .error error ↔ answer' = .error error) :
    answerOf answer = answerOf answer' := by
  cases answer with
  | error e => rw [(he e).1 rfl]
  | ok poll =>
    cases answer' with
    | error e => exact absurd ((he e).2 rfl) (by simp)
    | ok poll' =>
      cases poll <;> cases poll' <;> simp_all [answerOf, Except.map, CiPoll.answer]

theorem answerOf_of_rule (h : Rule toLowercase head required page)
    (h' : Rule toLowercase head required' page')
    (hu : page.Usable head required ↔ page'.Usable head required')
    (hn : page'.nextEmpty = page.nextEmpty)
    (hs : (page.selected required).Perm (page'.selected required')) :
    answerOf (page.classify toLowercase head required) =
      answerOf (page'.classify toLowercase head required') := by
  apply answerOf_eq
  · rw [h.passing, h'.passing, hu, hn]
    simp only [hs.mem_iff]
  · rw [h.failing, h'.failing, hu]
    simp only [hs.mem_iff]
  · intro error
    rw [h.outage, h'.outage, hu, hn]
    simp only [hs.mem_iff]

theorem filter_front {α : Type} (view : α → Check) {entry : α} {before behind : List α}
    (hb : (view entry).blocking = true) :
    ((entry :: (before ++ behind)).map view).filter (·.blocking) =
      view entry :: ((before ++ behind).map view).filter (·.blocking) := by
  rw [List.map_cons, List.filter_cons_of_pos hb]

/-- Some order of the entries and names brings a selected check to the front. -/
theorem exists_front {check : Check} (hc : check ∈ page.selected required) :
    ∃ page' required' rest, Reorder page page' ∧ required.Perm required' ∧
      page'.selected required' = check :: rest ∧
      (page.selected required).Perm (page'.selected required') := by
  by_cases hr : required = []
  · subst hr
    rw [Snapshot.selected, if_pos rfl, List.mem_filter] at hc
    obtain ⟨hc, hb⟩ := hc
    cases page with
    | gitLab statuses =>
      obtain ⟨status, hs, rfl⟩ := List.mem_map.1 hc
      obtain ⟨before, behind, rfl⟩ := List.append_of_mem hs
      have hre : Reorder (.gitLab (before ++ status :: behind) : Snapshot ε) _ :=
        .gitLab List.perm_middle
      exact ⟨_, [], _, hre, .refl _, filter_front _ hb, hre.checks.filter _⟩
    | gitea combined nextPage =>
      obtain ⟨sha, totalCount, statuses⟩ := combined
      obtain ⟨status, hs, rfl⟩ := List.mem_map.1 hc
      obtain ⟨before, behind, rfl⟩ := List.append_of_mem hs
      have hre : Reorder (.gitea ⟨sha, totalCount, before ++ status :: behind⟩ nextPage) _ :=
        .gitea List.perm_middle
      exact ⟨_, [], _, hre, .refl _, filter_front _ hb, hre.checks.filter _⟩
    | gitHub totalCount runs =>
      obtain ⟨run, hs, rfl⟩ := List.mem_map.1 hc
      obtain ⟨before, behind, rfl⟩ := List.append_of_mem hs
      have hre : Reorder (.gitHub totalCount (before ++ run :: behind) : Snapshot ε) _ :=
        .gitHub List.perm_middle
      exact ⟨_, [], _, hre, .refl _, filter_front _ hb, hre.checks.filter _⟩
  · rw [Snapshot.selected, if_neg hr, List.mem_filterMap] at hc
    obtain ⟨name, hn, hnew⟩ := hc
    obtain ⟨before, behind, rfl⟩ := List.append_of_mem hn
    have hfront : page.selected (name :: (before ++ behind)) = check :: (before ++ behind).filterMap
        fun name => maxByKey (·.id) (page.checks.filter (·.name = name)) := by
      rw [Snapshot.selected, if_neg (List.cons_ne_nil _ _)]
      simp only [List.filterMap_cons, hnew]
    exact ⟨page, _, _, .refl page, List.perm_middle, hfront,
      selected_names page List.perm_middle⟩

/-- In every order of the entries and of the names the gate obeys its rule, with one answer for all
of them when the ids are distinct. -/
def Obeyed (toLowercase : List Char → List Char) (head : String) (required : List String)
    (page : Snapshot ε) : Prop :=
  ∀ page' required', Reorder page page' → required.Perm required' →
    Rule toLowercase head required' page' ∧
      (page.Distinct → answerOf (page'.classify toLowercase head required') =
        answerOf (page.classify toLowercase head required))

/-- A mixed page has an order in which the rule is broken. -/
theorem broken_of_mixed (toLowercase : List Char → List Char) (hm : Mixed head required page) :
    ∃ page' required', Reorder page page' ∧ required.Perm required' ∧
      ¬ Rule toLowercase head required' page' := by
  obtain ⟨hu, ⟨red, hred, hr⟩, unsettled, hun, hv⟩ := hm
  obtain ⟨page', required', rest, hre, hp, hfront, hperm⟩ := exists_front hun
  refine ⟨page', required', hre, hp, fun hrule => ?_⟩
  obtain ⟨reason, hpending⟩ := (classify_judged page').hidden hfront hv
  obtain ⟨signature, text, hfailing⟩ :=
    hrule.failing.2 ⟨hre.usable hp hu, red, hperm.mem_iff.1 hred, hr⟩
  rw [hpending] at hfailing
  cases hfailing

/-- **The CI gate.** The rule holds in every order, with one answer for all of them, exactly if no
order of the entries selects a red check next to an unsettled one. -/
theorem ci_gate (toLowercase : List Char → List Char) (head : String) (required : List String)
    (page : Snapshot ε) :
    Obeyed toLowercase head required page ↔
      ∀ page', Reorder page page' → ¬ Mixed head required page' := by
  constructor
  · intro h page' hpage hm
    obtain ⟨page'', required', hre, hp, hbroken⟩ := broken_of_mixed toLowercase hm
    exact hbroken (h page'' required' (hpage.trans hre) hp).1
  · intro h page' required' hre hp
    have hrule : Rule toLowercase head required' page' := by
      refine rule_of_unmixed fun hm => h page' hre ⟨?_, ?_, ?_⟩
      · exact (Reorder.refl page').usable hp.symm hm.1
      · obtain ⟨check, hc, hv⟩ := hm.2.1
        exact ⟨check, (selected_names page' hp).mem_iff.2 hc, hv⟩
      · obtain ⟨check, hc, hv⟩ := hm.2.2
        exact ⟨check, (selected_names page' hp).mem_iff.2 hc, hv⟩
    refine ⟨hrule, fun hd => ?_⟩
    refine answerOf_of_rule hrule (rule_of_unmixed (h page (.refl page)))
      ⟨hre.symm.usable hp.symm, hre.usable hp⟩ hre.symm.nextEmpty ?_
    exact ((selected_reorder hre hd required).trans (selected_names page' hp)).symm

/-- A lint still runs, the tests have failed. -/
def lintRunning : GitHubCheckRun :=
  { id := 2, name := "lint", status := "in_progress", conclusion := none }

def testsFailed : GitHubCheckRun :=
  { id := 1, name := "tests", status := "completed", conclusion := some "failure" }

/-- The same two checks are waited for in one order and red in the other. -/
theorem ci_gate_hidden :
    answerOf ((Snapshot.gitHub 2 [lintRunning, testsFailed] : Snapshot String).classify
        (·.map Char.toLower) "1f2e" []) = .ok .pending ∧
      answerOf ((Snapshot.gitHub 2 [testsFailed, lintRunning] : Snapshot String).classify
        (·.map Char.toLower) "1f2e" []) = .ok .failing ∧
      ¬ Obeyed (·.map Char.toLower) "1f2e" []
        (.gitHub 2 [lintRunning, testsFailed] : Snapshot String) := by
  have hwait : answerOf ((Snapshot.gitHub 2 [lintRunning, testsFailed] : Snapshot String).classify
      (·.map Char.toLower) "1f2e" []) = .ok .pending := by decide +kernel
  have hred : answerOf ((Snapshot.gitHub 2 [testsFailed, lintRunning] : Snapshot String).classify
      (·.map Char.toLower) "1f2e" []) = .ok .failing := by decide +kernel
  refine ⟨hwait, hred, fun h => ?_⟩
  have hsame := (h _ [] (.gitHub (List.Perm.swap testsFailed lintRunning [])) (.refl _)).2
    (by simp [Snapshot.Distinct, Snapshot.checks, github_id, lintRunning, testsFailed])
  rw [hwait, hred] at hsame
  cases hsame

end Order

end Orchestrail.CiGate
