import Orchestrail.Proof.LeafLaunches
import Orchestrail.Proof.Quiescence

/-!
# The retry budget of a leaf round

A transient failure is retried below `leaf_max_attempts`. The source compares the limit with the
attempts of the leaf kind the task has on record, which the fix rounds of one task share.

* `tracked_of_reach`: the record of a task is the sum of its rounds, and no round is launched more
  often than the limit.
-/

namespace Orchestrail

open Std Table Outcome Steps

namespace Processor

variable {p q : Processor}

/-- The launches a step asks for. A budget check only hands on one that was asked for before. -/
def launches (p : Processor) : ProcessorStep → List (String × LeafKind)
  | .apply cmd =>
    if (p.standingReply cmd).isSome ∨ isBudgetCheck cmd = true then []
    else match p.dispatch cmd with
      | .ok (_, effects) => effects.filterMap Effect.launch
      | .error _ => []
  | _ => []

end Processor

/-- The step reports a transient failure of a leaf of this task. -/
def retries (id : String) : ProcessorStep → Bool
  | .apply (.taskLeaf taskId (.retryableFailure _)) => taskId == id
  | _ => false

/-- The launches of one task since its capture: of its implementation, of the fix rounds that are
closed, and of the fix round that was opened last. -/
structure Rounds where
  implement : Nat := 0
  earlier : Nat := 0
  fix : Nat := 0

namespace Rounds

/-- A step adds its launches: a retry to the round it belongs to, any other launch opens a round. A
task that is not there has launched nothing. -/
def note (p : Processor) (step : ProcessorStep) (id : String) (r : Rounds) : Rounds :=
  if p.state.tasks[id]? = none then {}
  else if (id, LeafKind.implement) ∈ p.launches step then
    if retries id step then { r with implement := r.implement + 1 } else { implement := 1 }
  else if (id, LeafKind.fix) ∈ p.launches step then
    if retries id step then { r with fix := r.fix + 1 }
    else { r with earlier := r.earlier + r.fix, fix := 1 }
  else r

/-- The launches of the round of a kind that was opened last. -/
def current (r : Rounds) : LeafKind → Nat
  | .implement => r.implement
  | _ => r.fix

/-- The launches of the rounds of a kind before it. -/
def before (r : Rounds) : LeafKind → Nat
  | .implement => 0
  | _ => r.earlier

end Rounds

/-- A reducer together with what its run has launched. -/
abbrev Tracked := Processor × (String → Rounds)

def track (s : Tracked) (step : ProcessorStep) : Option Tracked :=
  (s.1.next step).map fun q => (q, fun id => (s.2 id).note s.1 step id)

/-- The record of a task agrees with its rounds. -/
structure Logged (t : TaskRuntime) (r : Rounds) : Prop where
  implement : t.launched .implement = min r.implement u32Max
  fix : t.launched .fix = min (r.earlier + r.fix) u32Max
  capturing : t.phase = .capturing → t.launched .implement = 0 ∧ t.launched .fix = 0

/-- No round is launched more often than the limit. -/
def Bounded (limit : Nat) (r : Rounds) : Prop := r.implement ≤ limit ∧ r.fix ≤ limit

structure Tracks (config : ProcessorConfig) (s : Tracked) : Prop where
  sound : Sound s.1
  configured : s.1.config = config
  logged : ∀ (id : String) (t : TaskRuntime), s.1.state.tasks[id]? = some t → Logged t (s.2 id)
  bounded : ∀ id, Bounded config.leafMaxAttempts.toNat (s.2 id)

section Step

variable {p q : Processor} {rounds : String → Rounds} {config : ProcessorConfig}
  {step : ProcessorStep}

theorem limit_le (config : ProcessorConfig) : config.leafMaxAttempts.toNat ≤ u32Max :=
  Nat.le_of_lt_succ config.leafMaxAttempts.toNat_lt

theorem limit_pos (h : config.validate = .ok ()) : 1 ≤ config.leafMaxAttempts.toNat := by
  simp only [ProcessorConfig.validate, bind_unit_eq_ok, require_eq_ok] at h
  obtain ⟨-, -, -, -, -, -, -, hne⟩ := h
  have hpos : config.leafMaxAttempts.toNat ≠ 0 := fun h0 => hne (UInt32.toNat_inj.1 h0)
  omega

theorem note_quiet {id : String} (h : p.launches step = []) (r : Rounds) :
    r.note p step id = if p.state.tasks[id]? = none then {} else r := by
  simp [Rounds.note, h]

theorem note_other {id other : String} {kind : LeafKind} (h : p.launches step = [(other, kind)])
    (hne : id ≠ other) (r : Rounds) :
    r.note p step id = if p.state.tasks[id]? = none then {} else r := by
  simp [Rounds.note, h, hne]

theorem bounded_zero {limit : Nat} : Bounded limit {} := ⟨Nat.zero_le _, Nat.zero_le _⟩

theorem Logged.steady {t u : TaskRuntime} {r : Rounds} (h : Logged t r) (hs : Paced t u) :
    Logged u r := by
  refine ⟨hs.implement.trans h.implement, hs.fix.trans h.fix, fun hc => ?_⟩
  rcases hs.phase with hp | hp
  · rw [hs.implement, hs.fix]
    exact h.capturing (hp.symm.trans hc)
  · rw [hc] at hp
    exact absurd hp (by decide)

/-- A step that launches nothing keeps the books. -/
theorem Tracks.quiet (h : Tracks config (p, rounds)) (hsound : Sound q)
    (hconfig : q.config = p.config) (hl : p.launches step = [])
    (htasks : ∀ (id : String) (u : TaskRuntime), q.state.tasks[id]? = some u →
      (∃ t, p.state.tasks[id]? = some t ∧ Paced t u) ∨
        p.state.tasks[id]? = none ∧ u.phase = .capturing ∧ ∀ kind, u.launched kind = 0) :
    Tracks config (q, fun id => (rounds id).note p step id) := by
  refine ⟨hsound, hconfig.trans h.configured, fun id u hu => ?_, fun id => ?_⟩
  · rcases htasks id u hu with ⟨t, ht, hst⟩ | ⟨hnone, -, hzero⟩
    · simp only [note_quiet hl, ht, reduceCtorEq, if_false]
      exact (h.logged id t ht).steady hst
    · simp only [note_quiet hl, hnone, if_true]
      exact ⟨by simp [hzero], by simp [hzero], fun _ => ⟨hzero _, hzero _⟩⟩
  · simp only [note_quiet hl]
    split
    · exact bounded_zero
    · exact h.bounded id

/-- A step that launches a leaf of one task keeps the books, if it does so for that task. -/
theorem Tracks.launch (h : Tracks config (p, rounds)) (hsound : Sound q)
    (hconfig : q.config = p.config) {id : String} {kind : LeafKind} {t : TaskRuntime}
    {x : Processor × List Effect} (hl : p.launches step = [(id, kind)])
    (hx : p.Launches id kind t x) (hq : q = x.1)
    (hlog : ∀ u : TaskRuntime, u.phase = Processor.leafPhase kind →
      u.launched kind = satAdd (t.launched kind) 1 →
      (∀ other ∈ [LeafKind.implement, LeafKind.fix], other ≠ kind →
        u.launched other = t.launched other) → Logged u ((rounds id).note p step id))
    (hb : Bounded config.leafMaxAttempts.toNat ((rounds id).note p step id)) :
    Tracks config (q, fun id => (rounds id).note p step id) := by
  subst hq
  refine ⟨hsound, hconfig.trans h.configured, fun k v hv => ?_, fun k => ?_⟩
  · by_cases hk : k = id
    · subst hk
      obtain ⟨u, hu, hph, hlaunched, hother⟩ := hx.task
      obtain rfl : v = u := Option.some.inj (hv.symm.trans hu)
      exact hlog v hph hlaunched hother
    · have hv : p.state.tasks[k]? = some v := (hx.rest k hk).symm.trans hv
      simp only [note_other hl hk, hv, reduceCtorEq, if_false]
      exact h.logged k v hv
  · by_cases hk : k = id
    · subst hk; exact hb
    · simp only [note_other hl hk]
      split
      · exact bounded_zero
      · exact h.bounded k

theorem note_here {id : String} {kind : LeafKind} {t : TaskRuntime}
    (ht : p.state.tasks[id]? = some t) (hl : p.launches step = [(id, kind)]) (r : Rounds) :
    r.note p step id =
      if LeafKind.implement = kind then
        if retries id step then { r with implement := r.implement + 1 } else { implement := 1 }
      else if LeafKind.fix = kind then
        if retries id step then { r with fix := r.fix + 1 }
        else { r with earlier := r.earlier + r.fix, fix := 1 }
      else r := by
  simp [Rounds.note, ht, hl]

/-- The capture of a task opens its implementation. -/
theorem Tracks.ready (h : Tracks config (p, rounds)) (hv : config.validate = .ok ())
    (hsound : Sound q) (hconfig : q.config = p.config) {id : String} {t : TaskRuntime}
    {x : Processor × List Effect} (hl : p.launches step = [(id, .implement)])
    (ht : t.phase = .capturing) (hx : p.Launches id .implement t x) (hq : q = x.1)
    (hretry : retries id step = false) :
    Tracks config (q, fun id => (rounds id).note p step id) := by
  have hnote : (rounds id).note p step id = { implement := 1 } := by
    simp [note_here hx.before hl, hretry]
  obtain ⟨hi, hf⟩ := (h.logged id t hx.before).capturing ht
  have hlimit := limit_pos hv
  refine h.launch hsound hconfig hl hx hq (fun u hu hone hother => ?_) ?_
  · rw [hnote]
    refine ⟨?_, ?_, fun hc => absurd (hu.symm.trans hc) (by decide)⟩
    · rw [hone, hi]; rfl
    · rw [hother .fix (by simp) (by decide), hf]; rfl
  · rw [hnote]
    exact ⟨hlimit, Nat.zero_le _⟩

/-- A review pass with findings opens a fix round. -/
theorem Tracks.findings (h : Tracks config (p, rounds)) (hv : config.validate = .ok ())
    (hsound : Sound q) (hconfig : q.config = p.config) {id : String} {t : TaskRuntime}
    {x : Processor × List Effect} (hl : p.launches step = [(id, .fix)])
    (hx : p.Launches id .fix t x) (hq : q = x.1) (hretry : retries id step = false) :
    Tracks config (q, fun id => (rounds id).note p step id) := by
  have hnote : (rounds id).note p step id =
      ⟨(rounds id).implement, (rounds id).earlier + (rounds id).fix, 1⟩ := by
    simp [note_here hx.before hl, hretry]
  have hlog : Logged t (rounds id) := h.logged id t hx.before
  have hlimit := limit_pos hv
  refine h.launch hsound hconfig hl hx hq (fun u hu hone hother => ?_) ?_
  · rw [hnote]
    refine ⟨?_, ?_, fun hc => absurd (hu.symm.trans hc) (by decide)⟩
    · rw [hother .implement (by simp) (by decide)]
      exact hlog.implement
    · rw [hone, hlog.fix, satAdd]
      show _ = min ((rounds id).earlier + (rounds id).fix + 1) u32Max
      omega
  · rw [hnote]
    exact ⟨(h.bounded id).1, hlimit⟩

/-- A retry belongs to the round that is open. -/
theorem Tracks.retry (h : Tracks config (p, rounds)) (hsound : Sound q)
    (hconfig : q.config = p.config) {id : String} {kind : LeafKind} {t : TaskRuntime}
    {x : Processor × List Effect} (hkind : kind = .implement ∨ kind = .fix)
    (hl : p.launches step = [(id, kind)]) (hlt : t.launched kind < config.leafMaxAttempts.toNat)
    (hx : p.Launches id kind t x) (hq : q = x.1) (hretry : retries id step = true) :
    Tracks config (q, fun id => (rounds id).note p step id) := by
  have hlog : Logged t (rounds id) := h.logged id t hx.before
  have hbound : Bounded config.leafMaxAttempts.toNat (rounds id) := h.bounded id
  have hmax := limit_le config
  rcases hkind with rfl | rfl
  · have hnote : (rounds id).note p step id =
        ⟨(rounds id).implement + 1, (rounds id).earlier, (rounds id).fix⟩ := by
      simp [note_here hx.before hl, hretry]
    refine h.launch hsound hconfig hl hx hq (fun u hu hone hother => ?_) ?_
    · rw [hnote]
      refine ⟨?_, ?_, fun hc => absurd (hu.symm.trans hc) (by decide)⟩
      · rw [hone, hlog.implement, satAdd]
        show _ = min ((rounds id).implement + 1) u32Max
        omega
      · rw [hother .fix (by simp) (by decide)]
        exact hlog.fix
    · rw [hnote]
      rw [hlog.implement] at hlt
      exact ⟨show (rounds id).implement + 1 ≤ _ by omega, hbound.2⟩
  · have hnote : (rounds id).note p step id =
        ⟨(rounds id).implement, (rounds id).earlier, (rounds id).fix + 1⟩ := by
      simp [note_here hx.before hl, hretry]
    refine h.launch hsound hconfig hl hx hq (fun u hu hone hother => ?_) ?_
    · rw [hnote]
      refine ⟨?_, ?_, fun hc => absurd (hu.symm.trans hc) (by decide)⟩
      · rw [hother .implement (by simp) (by decide)]
        exact hlog.implement
      · rw [hone, hlog.fix, satAdd]
        show _ = min ((rounds id).earlier + ((rounds id).fix + 1)) u32Max
        omega
    · rw [hnote]
      rw [hlog.fix] at hlt
      exact ⟨hbound.1, show (rounds id).fix + 1 ≤ _ by omega⟩

theorem launches_dispatch {cmd : ProcessorCommand} {x : Processor × List Effect}
    (hstand : p.standingReply cmd = none) (hcheck : Processor.isBudgetCheck cmd = false)
    (h : p.dispatch cmd = .ok x) : p.launches (.apply cmd) = x.2.filterMap Effect.launch := by
  simp [Processor.launches, hstand, hcheck, h]

/-- **The books are kept by every step.** -/
theorem Tracks.next (h : Tracks config (p, rounds)) (hv : config.validate = .ok ())
    (hn : p.next step = some q) : Tracks config (q, fun id => (rounds id).note p step id) := by
  obtain ⟨hkeep, -⟩ := Processor.next_moves h.sound hn
  have hsame : q.state.tasks = p.state.tasks → p.launches step = [] →
      Tracks config (q, fun id => (rounds id).note p step id) := fun htasks hl =>
    h.quiet hkeep.sound hkeep.config hl fun id u hu => .inl ⟨u, htasks ▸ hu, .refl⟩
  cases step with
  | acknowledge effect =>
    have ha : p.acknowledgeNonCommandEffect effect = .ok q := by
      cases ha : p.acknowledgeNonCommandEffect effect <;> simp_all [Processor.next, Except.toOption]
    refine hsame ?_ rfl
    rcases Processor.acknowledge_spec h.sound ha with rfl | ⟨-, -, rfl⟩ <;> rfl
  | restart =>
    have ha : Processor.fromCheckpoint p.config p.state = .ok q := by
      cases ha : Processor.fromCheckpoint p.config p.state <;>
        simp_all [Processor.next, Except.toOption]
    exact hsame (by rw [Processor.fromCheckpoint_eq ha]) rfl
  | apply cmd =>
    simp only [Processor.next, Option.map_eq_some_iff, Prod.exists, exists_and_right,
      exists_eq_right] at hn
    obtain ⟨effects, hn⟩ := hn
    have ha : p.apply cmd = .ok (q, effects) := by
      cases ha : p.apply cmd <;> simp_all [Except.toOption]
    rcases Processor.apply_cases ha with ⟨hstand, rfl⟩ | ⟨hstand, more, hd⟩
    · exact hsame rfl (by simp [Processor.launches, hstand])
    have hl : Processor.isBudgetCheck cmd = false →
        p.launches (.apply cmd) = more.filterMap Effect.launch :=
      fun hcheck => launches_dispatch hstand hcheck hd
    have hnone : (∀ e ∈ more, e.launch = none) → p.launches (.apply cmd) = [] := fun hquiet => by
      by_cases hcheck : Processor.isBudgetCheck cmd = true
      · simp [Processor.launches, hcheck]
      · rw [hl (by simpa using hcheck), List.filterMap_eq_nil_iff]
        exact hquiet
    have hhandled := Processor.dispatch_launches h.sound _ hd
    generalize hx : (q, more) = x at hhandled
    cases hhandled with
    | fresh hf =>
      subst hx
      exact h.quiet hkeep.sound hkeep.config (hnone hf.quiet) hf.tasks
    | checked hcheck hs =>
      subst hx
      exact h.quiet hkeep.sound hkeep.config (by simp [Processor.launches, hcheck])
        fun id u hu => .inl (hs id u hu)
    | @ready id t _ ht hf =>
      subst hx
      have heff : more = [.prepareTaskLeaf id .implement] := hf.effects
      exact h.ready hv hkeep.sound hkeep.config (by rw [hl rfl, heff]; rfl) ht hf rfl rfl
    | @findings _ id t _ hcmd hcheck ht hf =>
      subst hx
      have heff : more = [.prepareTaskLeaf id .fix] := hf.effects
      refine h.findings hv hkeep.sound hkeep.config (by rw [hl hcheck, heff]; rfl) hf rfl ?_
      unfold retries
      split
      · rename_i heq
        obtain rfl := ProcessorStep.apply.inj heq
        exact absurd rfl (hcmd _ _)
      · rfl
    | @retry id reason kind t _ hkind ht hlt hf =>
      subst hx
      have heff : more = [.prepareTaskLeaf id kind] := hf.effects
      exact h.retry hkeep.sound hkeep.config hkind (by rw [hl rfl, heff]; rfl) (h.configured ▸ hlt)
        hf rfl (by simp [retries])

end Step

section Runs

variable {config : ProcessorConfig} {p0 p : Processor} {rounds : String → Rounds}

theorem tracked_of_reach (hnew : Processor.new config = .ok p0)
    (h : Reach track (fun _ _ => True) (p0, fun _ => {}) (p, rounds)) :
    Tracks config (p, rounds) := by
  obtain ⟨hv, hs, hc, -⟩ := Processor.new_spec hnew
  refine h.invariant (I := Tracks config) ⟨hs, hc, fun id t ht => ?_, fun _ => bounded_zero⟩ ?_
  · simp only [Processor.new, bind_eq_ok] at hnew
    obtain ⟨_, -, hnew⟩ := hnew
    obtain rfl := Except.ok.inj hnew
    simp at ht
  · rintro ⟨p, rounds⟩ step ⟨q, rounds'⟩ ht - hn
    simp only [track, Option.map_eq_some_iff, Prod.mk.injEq] at hn
    obtain ⟨q', hq, rfl, rfl⟩ := hn
    exact ht.next hv hq

/-- The task is escalated because its retries are used up. -/
def Exhausted (q : Processor) (effects : List Effect) (id reason : String) : Prop :=
  (∃ t, q.state.tasks[id]? = some t ∧ t.phase = .escalated ∧
      t.reason = some s!"{reason}; retry limit exhausted") ∧
    .escalateTask id s!"{reason}; retry limit exhausted" ∈ effects

theorem Logged.launched {t : TaskRuntime} {r : Rounds} (h : Logged t r) {kind : LeafKind}
    (hkind : kind = .implement ∨ kind = .fix) :
    t.launched kind = min (r.before kind + r.current kind) u32Max := by
  rcases hkind with rfl | rfl
  · rw [h.implement, Rounds.before, Rounds.current, Nat.zero_add]
  · exact h.fix

/-- A failure that is taken up escalates its task exactly when the record has reached the limit. -/
theorem exhausted_iff {id reason : String} {q : Processor} {effects : List Effect}
    (hstand : p.standingReply (.taskLeaf id (.retryableFailure reason)) = none)
    (ha : p.apply (.taskLeaf id (.retryableFailure reason)) = .ok (q, effects)) :
    ∃ kind t, (kind = .implement ∨ kind = .fix) ∧ p.state.tasks[id]? = some t ∧
      t.phase = Processor.leafPhase kind ∧
      (Exhausted q effects id reason ↔ p.config.leafMaxAttempts.toNat ≤ t.launched kind) := by
  unfold Processor.apply at ha
  rw [hstand] at ha
  simp only [bind_eq_ok] at ha
  obtain ⟨⟨next, more⟩, hd, ha⟩ := ha
  obtain ⟨rfl, rfl⟩ := Prod.mk.inj (Except.ok.inj ha)
  obtain ⟨kind, t, hkind, ht, hph, hcase⟩ := Processor.retryableFailure_spec _ hd
  refine ⟨kind, t, hkind, ht, hph, ?_⟩
  rcases hcase with ⟨hlt, hlaunch⟩ | ⟨hge, hx⟩
  · -- the task stays in its leaf phase
    refine ⟨fun hexhausted => ?_, fun hge => absurd hge (Nat.not_le.2 hlt)⟩
    obtain ⟨⟨u, hu, hescalated, -⟩, -⟩ := hexhausted
    obtain ⟨v, hv, hleaf, -⟩ := hlaunch.task
    obtain rfl : u = v := Option.some.inj (hu.symm.trans hv)
    rw [hescalated] at hleaf
    rcases hkind with rfl | rfl <;> cases hleaf
  · obtain ⟨rfl, rfl⟩ := Prod.mk.inj hx
    refine ⟨fun _ => hge, fun _ => ⟨⟨{ t with
      phase := .escalated, reason := some s!"{reason}; retry limit exhausted" }, ?_, rfl, rfl⟩, ?_⟩⟩
    · simp [Processor.withTask, Processor.withTasks]
    simp [Processor.isBudgetCheck, Processor.guardModelEffects, Processor.guardModelEffect,
      ModelCall.fromEffect, Processor.persistFirst]

/-- **The retry budget of a leaf.** No round is launched more often than the limit. That a failure
escalates its task exactly when the open round has been launched as often as the limit says is true
if and only if it has been, or it and the rounds of this leaf before it stay below the limit. -/
theorem retry_budget (hnew : Processor.new config = .ok p0)
    (h : Reach track (fun _ _ => True) (p0, fun _ => {}) (p, rounds)) :
    (∀ id, (rounds id).implement ≤ config.leafMaxAttempts.toNat ∧
      (rounds id).fix ≤ config.leafMaxAttempts.toNat) ∧
    ∀ id reason q effects,
      p.standingReply (.taskLeaf id (.retryableFailure reason)) = none →
      p.apply (.taskLeaf id (.retryableFailure reason)) = .ok (q, effects) →
      ∃ kind, (kind = .implement ∨ kind = .fix) ∧ p.Has id (Processor.leafPhase kind) ∧
        ((Exhausted q effects id reason ↔
            (rounds id).current kind = config.leafMaxAttempts.toNat) ↔
          (rounds id).current kind = config.leafMaxAttempts.toNat ∨
            (rounds id).before kind + (rounds id).current kind < config.leafMaxAttempts.toNat) := by
  have htracks := tracked_of_reach hnew h
  refine ⟨htracks.bounded, fun id reason q effects hstand ha => ?_⟩
  obtain ⟨kind, t, hkind, ht, hph, hexhausted⟩ := exhausted_iff hstand ha
  refine ⟨kind, hkind, ⟨t, ht, hph⟩, ?_⟩
  have hmax := limit_le config
  have hlaunched := (htracks.logged id t ht).launched hkind
  have hbound : (rounds id).current kind ≤ config.leafMaxAttempts.toNat := by
    rcases hkind with rfl | rfl
    · exact (htracks.bounded id).1
    · exact (htracks.bounded id).2
  have hreached : Exhausted q effects id reason ↔
      config.leafMaxAttempts.toNat ≤ (rounds id).before kind + (rounds id).current kind := by
    rw [hexhausted, htracks.configured, hlaunched]
    show _ ≤ min ((rounds id).before kind + (rounds id).current kind) u32Max ↔ _
    omega
  rw [hreached]
  omega

/-- One task up to a fix round: its leaf is done and its review finds something. -/
def fixRound (id tip signature : String) : List ProcessorStep :=
  [.apply (.taskLeaf id (.completed none)), .apply (.taskCommitted id tip),
    .apply (.taskReview id (.findings signature 1 ["R-01"]))]

/-- A task in its first fix round. -/
def firstFixRound : List ProcessorStep :=
  Processor.cohortOf [Processor.proposal "T-1" "a/**"] ++
    [.apply (.workspaceReady "T-1")] ++ fixRound "T-1" "c1" "00000000000000aa"

/-- A transient failure of its leaf. -/
def leafFailure : ProcessorCommand := .taskLeaf "T-1" (.retryableFailure "timeout")

theorem retry_budget_first :
    ∃ (p q : Processor) (effects : List Effect) (rounds : String → Rounds) (kind : LeafKind),
      p.apply leafFailure = .ok (q, effects) ∧ p.Has "T-1" (Processor.leafPhase kind) ∧
        ((Exhausted q effects "T-1" "timeout" ↔ (rounds "T-1").current kind = 2) ↔
          (rounds "T-1").current kind = 2 ∨
            (rounds "T-1").before kind + (rounds "T-1").current kind < 2) := by
  have hrun : (exec (guarded (fun _ _ => true) track) (Processor.fresh, fun _ => {})
      firstFixRound).any (fun s => decide (s.1.standingReply leafFailure = none) &&
        (s.1.apply leafFailure).toBool) = true := by decide +kernel
  obtain ⟨⟨p, rounds⟩, hreach, hp⟩ := exec_any hrun
  simp only [Bool.and_eq_true, decide_eq_true_eq] at hp
  cases ha : p.apply leafFailure with
  | error e => rw [ha] at hp; exact absurd hp.2 (by simp [Except.toBool])
  | ok x =>
    obtain ⟨kind, -, hhas, hiff⟩ := (retry_budget Processor.fresh_new
      (hreach.mono fun _ _ _ => trivial)).2 "T-1" "timeout" x.1 x.2 hp.1 ha
    exact ⟨p, x.1, x.2, rounds, kind, ha, hhas, hiff⟩

/-- The second fix round of a task gets no retry: its one launch meets the attempts of the first. -/
theorem retry_budget_shared :
    ¬ ∀ (config : ProcessorConfig) (p0 p : Processor) (rounds : String → Rounds),
      Processor.new config = .ok p0 →
      Reach track (fun _ _ => True) (p0, fun _ => {}) (p, rounds) →
      ∀ id reason q effects, p.standingReply (.taskLeaf id (.retryableFailure reason)) = none →
        p.apply (.taskLeaf id (.retryableFailure reason)) = .ok (q, effects) →
        ∀ kind, p.Has id (Processor.leafPhase kind) →
          (Exhausted q effects id reason ↔
            (rounds id).current kind = config.leafMaxAttempts.toNat) := by
  intro hall
  have hrun : (exec (guarded (fun _ _ => true) track) (Processor.fresh, fun _ => {})
      (firstFixRound ++ fixRound "T-1" "c2" "00000000000000bb")).any (fun s =>
        decide (s.1.standingReply leafFailure = none) && decide ((s.2 "T-1").fix = 1) &&
          (s.1.state.tasks["T-1"]?).any (·.phase = .fixing) &&
          match s.1.apply leafFailure with
          | .ok (q, effects) =>
            (q.state.tasks["T-1"]?).any (fun t => decide (t.phase = .escalated) &&
              decide (t.reason = some "timeout; retry limit exhausted")) &&
              effects.contains (.escalateTask "T-1" "timeout; retry limit exhausted")
          | .error _ => false) = true := by decide +kernel
  obtain ⟨⟨p, rounds⟩, hreach, hp⟩ := exec_any hrun
  simp only [Bool.and_eq_true, decide_eq_true_eq] at hp
  obtain ⟨⟨⟨hstand, hfix⟩, hphase⟩, happly⟩ := hp
  obtain ⟨t, ht, hph⟩ := (Option.any_eq_true _ _).1 hphase
  cases ha : p.apply leafFailure with
  | error e => rw [ha] at happly; cases happly
  | ok x =>
    obtain ⟨q, effects⟩ := x
    rw [ha] at happly
    simp only [Bool.and_eq_true] at happly
    obtain ⟨u, hu, hescalated⟩ := (Option.any_eq_true _ _).1 happly.1
    simp only [Bool.and_eq_true, decide_eq_true_eq] at hescalated
    have hexhausted : Exhausted q effects "T-1" "timeout" :=
      ⟨⟨u, hu, hescalated⟩, List.contains_iff_mem.1 happly.2⟩
    have htwo : (rounds "T-1").fix = 2 :=
      (hall {} Processor.fresh p rounds Processor.fresh_new (hreach.mono fun _ _ _ => trivial)
        "T-1" "timeout" q effects hstand ha .fix ⟨t, ht, of_decide_eq_true hph⟩).1 hexhausted
    rw [hfix] at htwo
    cases htwo

end Runs

end Orchestrail
