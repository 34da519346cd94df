import Orchestrail.Spec.NativeLoop
import Orchestrail.Proof.Admission
import Orchestrail.Proof.ReviewCycle

/-!
# The ids of successive cohorts
-/

namespace Orchestrail

open Std Table Steps Course Text

/-! ## An idle processor -/

/-- The processor has no cohort in `Idle`, nor in a pause that would lead back there. -/
structure Rested (c : Course) : Prop where
  idle : c.phase = .idle → c.batch = none
  paused : c.phase = .paused → c.pausedFrom = some .idle → c.batch = none
  target : c.phase = .recovery → c.target = some .paused → c.pausedFrom = some .idle →
    c.batch = none

section Rested

variable {config : ProcessorConfig} {c d : Course}

theorem rested_of_busy (h : d.phase ≠ .idle ∧ d.phase ≠ .paused ∧ d.phase ≠ .recovery) :
    Rested d :=
  ⟨fun hp => absurd hp h.1, fun hp => absurd hp h.2.1, fun hp => absurd hp h.2.2⟩

theorem Rested.of_same (hc : Rested c) (hp : d.phase = c.phase) (hb : d.batch = c.batch)
    (hf : d.pausedFrom = c.pausedFrom) (ht : d.target = c.target) : Rested d := by
  constructor
  · rw [hp, hb]
    exact hc.idle
  · rw [hp, hb, hf]
    exact hc.paused
  · rw [hp, hb, hf, ht]
    exact hc.target

theorem Next.busy (h : Next c d) (hp : c.phase = .joining) :
    d.phase ≠ .idle ∧ d.phase ≠ .paused ∧ d.phase ≠ .recovery := by
  cases h <;> simp [hp]

theorem Closed.busy (h : Closed c d)
    (hp : c.phase ≠ .idle ∧ c.phase ≠ .paused ∧ c.phase ≠ .recovery) :
    d.phase ≠ .idle ∧ d.phase ≠ .paused ∧ d.phase ≠ .recovery := by
  cases h with
  | wait => exact hp
  | join => simp
  | clean => simp

theorem Observed.same {cmd : ProcessorCommand} {outcome : CiOutcome} (h : Observed c cmd outcome d)
    (hc : Rested c) : Rested d := by
  cases h <;>
    first
    | exact hc.of_same rfl rfl rfl rfl
    | exact rested_of_busy ⟨nofun, nofun, nofun⟩

/-- With a cohort there is nothing to ask. -/
theorem rested_of_batch {b : CohortRuntime} (hc : Rested c) (hb : c.batch = some b)
    (hp : d.phase = c.phase) (hf : d.pausedFrom = c.pausedFrom) (ht : d.target = c.target) :
    Rested d := by
  constructor
  · intro h
    exact absurd (hc.idle (hp ▸ h)) (by simp [hb])
  · intro h hfrom
    exact absurd (hc.paused (hp ▸ h) (hf ▸ hfrom)) (by simp [hb])
  · intro h htarget hfrom
    exact absurd (hc.target (hp ▸ h) (ht ▸ htarget) (hf ▸ hfrom)) (by simp [hb])

theorem Shift.rested {cmd : ProcessorCommand} (h : Shift config c cmd d) (hc : Rested c) :
    Rested d := by
  -- most turns end busy, where nothing is claimed; the others keep the phase or return to idle
  cases h with
  | stay => exact hc
  | pause hp =>
    refine ⟨fun h => by simp at h, fun _ hf => ?_, fun h => by simp at h⟩
    exact hc.idle (Option.some.inj hf)
  | resumeStay hp heq hne =>
    refine ⟨fun hidle => ?_, fun _ hf => by simp at hf, fun _ _ hf => by simp at hf⟩
    obtain rfl : _ = Phase.idle := hidle
    cases hfrom : c.pausedFrom with
    | none => simp [hfrom] at heq
    | some from_ =>
      rw [hfrom] at heq
      exact hc.paused hp (hfrom.trans (congrArg some heq.symm))
  | resumeJoin _ _ hn => exact rested_of_busy (hn.busy rfl)
  | recoverIdle _ _ hb => exact ⟨fun _ => hb, fun h => by simp at h, fun h => by simp at h⟩
  | recoverTo hp hb ht hor =>
    rcases hor with rfl | rfl | rfl
    · exact ⟨fun h => by simp at h, fun _ hf => hc.target hp ht hf, fun h => by simp at h⟩
    · exact rested_of_busy (by simp)
    · exact rested_of_busy (by simp)
  | recoverNext _ _ _ _ _ hn => exact rested_of_busy (hn.busy rfl)
  | closeWave hp _ _ hn | advance hp _ _ hn => exact rested_of_busy (hn.busy (by simp [hp]))
  | halt hb _ hn =>
    cases hn with
    | wait => exact rested_of_batch hc hb rfl rfl rfl
    | join => exact rested_of_busy ⟨nofun, nofun, nofun⟩
    | clean => exact rested_of_busy ⟨nofun, nofun, nofun⟩
  | workspaceReady hp hn => exact rested_of_busy (hn.busy hp)
  | merged hp _ hn | quarantined hp _ hn => exact rested_of_busy (hn.busy hp)
  | resolved hp _ _ hn | unresolved hp _ _ _ hn => exact rested_of_busy (hn.busy hp)
  | task => exact hc.of_same rfl rfl rfl rfl
  | findings hp hor | fixCommitted hp hor =>
    rcases hor with rfl | rfl <;> exact rested_of_busy (by simp)
  | ciOpen hobs | ciFailed hobs => exact (hobs.same hc).of_same rfl rfl rfl rfl
  | finished => exact ⟨fun _ => rfl, fun h => by simp at h, fun h => by simp at h⟩
  | admitWave hp => exact rested_of_busy (by simp [hp])
  | _ =>
    first
    | exact hc.of_same rfl rfl rfl rfl
    | exact rested_of_busy ⟨nofun, nofun, nofun⟩

theorem Moves.rested {step : ProcessorStep} (h : Moves config c step d) (hc : Rested c) :
    Rested d := by
  cases h with
  | stand => exact hc
  | shift _ hs => exact hs.rested hc
  | noted => exact hc
  | journal => exact hc.of_same rfl rfl rfl rfl
  | restart =>
    refine ⟨fun h => by simp at h, fun h => by simp at h, fun _ ht hf => ?_⟩
    exact hc.paused (Option.some.inj ht) hf

end Rested

namespace ProcessorRuntime

variable {eventId : String → String} {config : ProcessorConfig} {r0 r s : ProcessorRuntime}

/-- What the loops rely on. -/
structure Rests (r : ProcessorRuntime) : Prop where
  sound : Sound r.processor
  rested : Rested r.processor.course

theorem Rests.idle (h : r.Rests) (hidle : r.processor.state.phase = .idle) :
    r.processor.state.batch = none :=
  batch_none (h.rested.idle hidle)

theorem Rests.step {step : RuntimeStep} (h : r.Rests) (hn : r.next eventId step = some s) :
    s.Rests := by
  have hmove := next_reducer hn
  cases hstep : r.reducerStep step with
  | none =>
    rw [hstep] at hmove
    obtain hmove : s.processor = r.processor := hmove
    exact ⟨hmove ▸ h.sound, hmove ▸ h.rested⟩
  | some move =>
    rw [hstep] at hmove
    obtain ⟨hkeep, hm⟩ := Processor.next_moves h.sound hmove
    exact ⟨hkeep.sound, hm.rested h.rested⟩

theorem rests_of_reach (hnew : new config = .ok r0)
    (h : Reach (next eventId) (fun _ _ => True) r0 r) : r.Rests := by
  refine h.invariant (I := Rests) ⟨(new_sailing hnew).sound, ?_⟩ fun _ _ _ hr _ hn => hr.step hn
  obtain ⟨hp, -, -⟩ := new_reducer hnew
  obtain ⟨-, -, -, hc⟩ := Processor.new_spec hp
  rw [hc]
  exact ⟨fun _ => rfl, fun _ _ => rfl, fun _ _ _ => rfl⟩

/-- A restart keeps the cohort. -/
theorem resume_batch (hs : r.Rests) (h : r.next eventId .resume = some s) :
    s.processor.state.batch.isSome = r.processor.state.batch.isSome := by
  have hmove := next_reducer h
  obtain ⟨-, hm⟩ := Processor.next_moves hs.sound hmove
  have hbatch : s.processor.course.batch = r.processor.course.batch := by
    generalize r.processor.course = c at hm
    generalize s.processor.course = d at hm
    cases hm
    rfl
  have hsome := congrArg Option.isSome hbatch
  simpa [Processor.course] using hsome

end ProcessorRuntime

/-! ## Ids -/

/-- The first id of a wave. -/
def firstBatchIdOf (batchId : String) (wave : Nat) : String :=
  if wave = 1 then batchId else waveBatchId batchId wave

/-- The id of the cohort opened in a wave behind so many completed ones. -/
def cohortBatchId (batchId : String) (wave completed : Nat) : String :=
  if completed = 0 then firstBatchIdOf batchId wave
  else descendantBatchId (firstBatchIdOf batchId wave) completed

/-- What a derived id adds to the first one. -/
def derivedSuffix (wave completed : Nat) : List Char :=
  (if wave = 1 then [] else '-' :: 'w' :: Nat.toDigits 10 wave) ++
    if completed = 0 then [] else '-' :: Nat.toDigits 10 (satAdd completed 1)

theorem cohortBatchId_toList (batchId : String) (wave completed : Nat) :
    (cohortBatchId batchId wave completed).toList =
      batchId.toList ++ derivedSuffix wave completed := by
  have hminus : "-".toList = ['-'] := rfl
  have hwave : "-w".toList = ['-', 'w'] := rfl
  unfold cohortBatchId firstBatchIdOf descendantBatchId waveBatchId derivedSuffix
  by_cases hw : wave = 1 <;> by_cases hc : completed = 0 <;>
    simp [hw, hc, hminus, hwave, String.toList_append, Nat.toList_repr]

theorem toDigits_inj {n m : Nat} (h : Nat.toDigits 10 n = Nat.toDigits 10 m) : n = m := by
  rw [← Nat.ofDigitChars_ten_toDigits (n := n), h, Nat.ofDigitChars_ten_toDigits]

theorem takeWhile_toDigits (n : Nat) {rest : List Char}
    (h : ∀ ch ∈ rest.head?, isAsciiDigit ch = false) :
    (Nat.toDigits 10 n ++ rest).takeWhile isAsciiDigit = Nat.toDigits 10 n := by
  rw [List.takeWhile_append_of_pos digit_toDigits]
  cases rest with
  | nil => simp
  | cons ch rest => simp [h ch rfl]

theorem satAdd_succ {n : Nat} (h : n < u32Max) : satAdd n 1 = n + 1 :=
  Nat.min_eq_left h

/-- The count at the end of an id, below the end of its type. -/
theorem countSuffix_inj {n m : Nat} (hn : n < u32Max) (hm : m < u32Max)
    (h : (if n = 0 then [] else '-' :: Nat.toDigits 10 (satAdd n 1)) =
      if m = 0 then [] else '-' :: Nat.toDigits 10 (satAdd m 1)) : n = m := by
  rw [satAdd_succ hn, satAdd_succ hm] at h
  by_cases hzero : n = 0
  · by_cases hzero' : m = 0
    · rw [hzero, hzero']
    · simp [hzero, hzero'] at h
  · by_cases hzero' : m = 0
    · simp [hzero, hzero'] at h
    · rw [if_neg hzero, if_neg hzero'] at h
      exact Nat.succ.inj (toDigits_inj (List.cons.inj h).2)

/-- A wave number does not look like a count. -/
theorem count_ne_wave {n wave : Nat} {rest : List Char} :
    (if n = 0 then [] else '-' :: Nat.toDigits 10 (satAdd n 1)) ≠
      '-' :: 'w' :: Nat.toDigits 10 wave ++ rest := by
  intro h
  by_cases hzero : n = 0
  · simp [hzero] at h
  · rw [if_neg hzero] at h
    have hw : 'w' ∈ Nat.toDigits 10 (satAdd n 1) := by
      rw [(List.cons.inj h).2]
      exact List.mem_cons_self
    have := digit_toDigits 'w' hw
    revert this
    decide

theorem derivedSuffix_inj {wave wave' n m : Nat} (hn : n < u32Max) (hm : m < u32Max)
    (h : derivedSuffix wave n = derivedSuffix wave' m) : wave = wave' ∧ n = m := by
  have hstop : ∀ k : Nat, ∀ ch ∈ (if k = 0 then [] else
      '-' :: Nat.toDigits 10 (satAdd k 1)).head?, isAsciiDigit ch = false := by
    intro k ch hch
    by_cases hk : k = 0
    · simp [hk] at hch
    · simp only [hk, if_false, List.head?_cons, Option.mem_some_iff] at hch
      subst hch
      decide
  -- the wave is written from the second one on, so a suffix without a wave is the count alone
  unfold derivedSuffix at h
  by_cases hw : wave = 1
  · by_cases hw' : wave' = 1
    · rw [if_pos hw, if_pos hw', List.nil_append, List.nil_append] at h
      exact ⟨hw.trans hw'.symm, countSuffix_inj hn hm h⟩
    · rw [if_pos hw, if_neg hw', List.nil_append] at h
      exact absurd h count_ne_wave
  · by_cases hw' : wave' = 1
    · rw [if_neg hw, if_pos hw', List.nil_append] at h
      exact absurd h.symm count_ne_wave
    · rw [if_neg hw, if_neg hw'] at h
      have htail := (List.cons.inj (List.cons.inj h).2).2
      have hdigits : Nat.toDigits 10 wave = Nat.toDigits 10 wave' := by
        rw [← takeWhile_toDigits wave (hstop n), ← takeWhile_toDigits wave' (hstop m)]
        exact congrArg _ htail
      refine ⟨toDigits_inj hdigits, countSuffix_inj hn hm ?_⟩
      rw [hdigits] at htail
      exact List.append_cancel_left htail

/-- **An id tells the wave and the count of its cohort.** -/
theorem cohortBatchId_inj {batchId : String} {wave wave' n m : Nat} (hn : n < u32Max)
    (hm : m < u32Max) (h : cohortBatchId batchId wave n = cohortBatchId batchId wave' m) :
    wave = wave' ∧ n = m := by
  have hlist := congrArg String.toList h
  rw [cohortBatchId_toList, cohortBatchId_toList] at hlist
  exact derivedSuffix_inj hn hm (List.append_cancel_left hlist)

/-- The count is stuck at the end of its type. -/
theorem cohortBatchId_stuck (batchId : String) (wave : Nat) {n : Nat} (hn : n + 1 = u32Max) :
    cohortBatchId batchId wave n = cohortBatchId batchId wave u32Max := by
  have hzero : n ≠ 0 := by
    intro h
    rw [h] at hn
    revert hn
    decide
  unfold cohortBatchId descendantBatchId
  rw [if_neg hzero, if_neg (by decide), satAdd_succ (by omega), hn]
  rfl

/-! ## The history of a command line -/

namespace LoopWorld

variable {eventId : String → String} {watch : Bool} {batchId : String} {w w' : LoopWorld}

/-- The count of the first derived cohort of a pass. -/
def firstCount (wave : Nat) : Nat := if wave = 1 then 1 else 0

/-- What the cohorts opened so far have in common. -/
structure Records (batchId : String) (passes : Nat) (opened : List OpenedCohort) : Prop where
  named : ∀ c ∈ opened, c.batchId = cohortBatchId batchId c.waveNumber c.completedCohortCount
  past : ∀ c ∈ opened, c.pass ≤ passes
  counted : ∀ c ∈ opened, c.completedCohortCount ≤ u32Max
  /-- the cohort under the id of the command line is that of the first pass -/
  first : ∀ c ∈ opened, c.waveNumber = 1 → c.completedCohortCount = 0 → c.pass = 1
  wave : ∀ c ∈ opened, ∀ d ∈ opened, c.pass = d.pass → c.waveNumber = d.waveNumber
  /-- no count is left out -/
  steps : ∀ c ∈ opened, firstCount c.waveNumber < c.completedCohortCount →
    ∃ d ∈ opened, d.pass = c.pass ∧ d.completedCohortCount + 1 = c.completedCohortCount
  grows : opened.Pairwise fun c d => c.pass = d.pass →
    d.completedCohortCount < c.completedCohortCount ∨ c.completedCohortCount = u32Max

/-- Where the running invocation stands in its pass. -/
def Standing (w : LoopWorld) (loop : NativeLoop) : Prop :=
  match loop.point with
  | .running true =>
    (∀ c ∈ w.opened, c.pass = w.passes → c.completedCohortCount ≤ loop.completedCohortCount) ∧
    (loop.waveNumber = 1 ∧ loop.completedCohortCount = 0 ∧ (∀ c ∈ w.opened, c.pass ≠ w.passes) ∨
      ∃ c ∈ w.opened, c.pass = w.passes ∧ c.completedCohortCount = loop.completedCohortCount)
  | .running false =>
    (∀ c ∈ w.opened, c.pass = w.passes →
      c.completedCohortCount < loop.completedCohortCount ∨ loop.completedCohortCount = u32Max) ∧
    (loop.waveNumber = 1 → loop.completedCohortCount = 0 → w.passes = 1) ∧
    (firstCount loop.waveNumber < loop.completedCohortCount →
      ∃ d ∈ w.opened, d.pass = w.passes ∧ d.completedCohortCount + 1 = loop.completedCohortCount)
  | .waiting => w.runtime.processor.state.batch = none

/-- The variables of the running invocation. -/
structure Invoked (batchId : String) (w : LoopWorld) (loop : NativeLoop) : Prop where
  positive : 1 ≤ loop.waveNumber
  first : loop.firstBatchId = firstBatchIdOf batchId loop.waveNumber
  named : loop.batchId = cohortBatchId batchId loop.waveNumber loop.completedCohortCount
  counted : loop.completedCohortCount ≤ u32Max
  wave : ∀ c ∈ w.opened, c.pass = w.passes → c.waveNumber = loop.waveNumber
  standing : w.Standing loop

/-- The invariant of a command line. -/
structure Kept (batchId : String) (w : LoopWorld) : Prop where
  rests : w.runtime.Rests
  records : Records batchId w.passes w.opened
  invoked : ∀ loop, w.invocation = some loop → Invoked batchId w loop
  unstarted : w.passes = 0 → w.invocation = none ∧ w.runtime.processor.state.batch = none

/-- Only the first invocation finds no cohort in its checkpoint. -/
def resumes (w : LoopWorld) : LoopAction → Bool
  | .start => decide (w.passes = 0) || w.runtime.processor.state.batch.isSome
  | _ => true

/-- Every invocation but the first resumes the cohort the one before it was stopped in. -/
abbrev Resumes (w : LoopWorld) (a : LoopAction) : Prop := w.resumes a = true

theorem Records.later {passes passes' : Nat} {opened : List OpenedCohort}
    (h : Records batchId passes opened) (hle : passes ≤ passes') :
    Records batchId passes' opened :=
  { h with past := fun c hc => (h.past c hc).trans hle }

/-- Entering a wave: nothing has been opened in the new pass. -/
theorem invoked_enterWave (hw : Records batchId w.passes w.opened) {wave : Nat}
    {r : ProcessorRuntime} (hwave : 1 ≤ wave)
    (hresumed : r.processor.state.batch.isSome = true → wave = 1)
    (hfresh : r.processor.state.batch.isSome = false → wave = 1 → w.passes = 0) :
    Invoked batchId { w with
      runtime := r
      invocation := some (enterWave (firstBatchIdOf batchId wave) wave r)
      passes := w.passes + 1 } (enterWave (firstBatchIdOf batchId wave) wave r) := by
  have hnew : ∀ c ∈ w.opened, c.pass ≠ w.passes + 1 := fun c hc => by
    have := hw.past c hc
    omega
  refine ⟨hwave, rfl, rfl, Nat.zero_le _, fun c hc hp => absurd hp (hnew c hc), ?_⟩
  unfold Standing enterWave
  cases hb : r.processor.state.batch.isSome with
  | true =>
    exact ⟨fun c hc hp => absurd hp (hnew c hc), .inl ⟨hresumed hb, rfl, hnew⟩⟩
  | false =>
    refine ⟨fun c hc hp => absurd hp (hnew c hc), fun hone _ => ?_, fun hlt => ?_⟩
    · show w.passes + 1 = 1
      rw [hfresh hb hone]
    · exact absurd hlt (Nat.not_lt_zero _)

/-- A cohort opened in its turn. -/
theorem Kept.opens {loop : NativeLoop} {r : ProcessorRuntime} (h : Kept batchId w)
    (hl : w.invocation = some loop) (hpoint : loop.point = .running false) (hr : r.Rests) :
    Kept batchId { w with
      runtime := r
      invocation := some { loop with point := .running true }
      opened := ⟨loop.batchId, w.passes, loop.waveNumber, loop.completedCohortCount⟩ ::
        w.opened } := by
  have hinv := h.invoked loop hl
  have hstand := hinv.standing
  rw [Standing, hpoint] at hstand
  obtain ⟨hbelow, hfirst, hstep⟩ := hstand
  have hpasses : w.passes ≠ 0 := fun hzero => by
    have := (h.unstarted hzero).1
    rw [hl] at this
    cases this
  -- the new cohort stands at the head of the record; what was there keeps what it had
  refine ⟨hr, ⟨?_, ?_, ?_, ?_, ?_, ?_, ?_⟩, ?_, fun hzero => absurd hzero hpasses⟩
  · exact List.forall_mem_cons.2 ⟨hinv.named, h.records.named⟩
  · exact List.forall_mem_cons.2 ⟨le_rfl, h.records.past⟩
  · exact List.forall_mem_cons.2 ⟨hinv.counted, h.records.counted⟩
  · exact List.forall_mem_cons.2 ⟨hfirst, h.records.first⟩
  · refine List.forall_mem_cons.2 ⟨List.forall_mem_cons.2 ⟨fun _ => rfl, fun d hd hp => ?_⟩,
      fun c hc => List.forall_mem_cons.2 ⟨fun hp => ?_, h.records.wave c hc⟩⟩
    · exact (hinv.wave d hd hp.symm).symm
    · exact hinv.wave c hc hp
  · refine List.forall_mem_cons.2 ⟨fun hlt => ?_, fun c hc hlt => ?_⟩
    · obtain ⟨d, hd, hp, hcount⟩ := hstep hlt
      exact ⟨d, List.mem_cons_of_mem _ hd, hp, hcount⟩
    · obtain ⟨d, hd, hp, hcount⟩ := h.records.steps c hc hlt
      exact ⟨d, List.mem_cons_of_mem _ hd, hp, hcount⟩
  · exact List.pairwise_cons.2 ⟨fun d hd hp => hbelow d hd hp.symm, h.records.grows⟩
  · intro loop' hl'
    obtain rfl := Option.some.inj hl'
    refine ⟨hinv.positive, hinv.first, hinv.named, hinv.counted, ?_, ?_, .inr ?_⟩
    · exact List.forall_mem_cons.2 ⟨fun _ => rfl, hinv.wave⟩
    · refine List.forall_mem_cons.2 ⟨fun _ => le_rfl, fun d hd hp => ?_⟩
      rcases hbelow d hd hp with hlt | hmax
      · exact hlt.le
      · exact hmax ▸ h.records.counted d hd
    · exact ⟨_, List.mem_cons_self, rfl, rfl⟩

/-- The next cohort of a pass: its count goes up by one, or is stuck at the end of its type. -/
theorem Kept.goesOn {loop : NativeLoop} (h : Kept batchId w) (hl : w.invocation = some loop)
    (hpoint : loop.point = .running true) :
    Invoked batchId { w with invocation := some { loop with
        batchId := descendantBatchId loop.firstBatchId (satAdd loop.completedCohortCount 1)
        completedCohortCount := satAdd loop.completedCohortCount 1
        resumedExistingCohort := false
        point := .running false } }
      { loop with
        batchId := descendantBatchId loop.firstBatchId (satAdd loop.completedCohortCount 1)
        completedCohortCount := satAdd loop.completedCohortCount 1
        resumedExistingCohort := false
        point := .running false } := by
  have hinv := h.invoked loop hl
  have hstand := hinv.standing
  rw [Standing, hpoint] at hstand
  obtain ⟨hbelow, hlast⟩ := hstand
  -- the count goes up, or it is stuck at the end of its type
  have hcount : satAdd loop.completedCohortCount 1 = loop.completedCohortCount + 1 ∨
      satAdd loop.completedCohortCount 1 = u32Max ∧ loop.completedCohortCount = u32Max := by
    have := hinv.counted
    unfold satAdd
    omega
  have hpositive : satAdd loop.completedCohortCount 1 ≠ 0 := by
    rcases hcount with hone | ⟨hmax, -⟩
    · omega
    · rw [hmax]
      decide
  refine ⟨hinv.positive, hinv.first, ?_, ?_, hinv.wave, ?_, ?_, ?_⟩
  · show descendantBatchId loop.firstBatchId _ = _
    unfold cohortBatchId
    rw [if_neg hpositive, hinv.first]
  · exact Nat.min_le_right _ _
  · intro c hc hp
    have hle := hbelow c hc hp
    show c.completedCohortCount < satAdd loop.completedCohortCount 1 ∨ _
    rcases hcount with hone | ⟨hmax, -⟩
    · left
      omega
    · exact .inr hmax
  · exact fun _ hzero => absurd hzero hpositive
  · intro hlt
    have hlt : firstCount loop.waveNumber < satAdd loop.completedCohortCount 1 := hlt
    show ∃ d ∈ w.opened, d.pass = w.passes ∧ d.completedCohortCount + 1 =
      satAdd loop.completedCohortCount 1
    rcases hlast with ⟨hwave, hzero, -⟩ | ⟨c, hc, hp, heq⟩
    · rw [hwave, hzero] at hlt
      exact absurd hlt (by decide)
    · rcases hcount with hone | ⟨hmax, hstuck⟩
      · exact ⟨c, hc, hp, by omega⟩
      · obtain ⟨d, hd, hpd, hd1⟩ := h.records.steps c hc (by
          rw [hinv.wave c hc hp, heq, hstuck, ← hmax]
          exact hlt)
        exact ⟨d, hd, hpd.trans hp, by omega⟩

theorem Kept.drained {loop : NativeLoop} {escalated : Nat} (h : Kept batchId w)
    (hl : w.invocation = some loop) (hidle : w.runtime.processor.state.phase = .idle) :
    Kept batchId (w.drained watch loop escalated) := by
  have hpasses : w.passes ≠ 0 := fun hzero => by
    have := (h.unstarted hzero).1
    rw [hl] at this
    cases this
  refine ⟨h.rests, h.records, fun loop' hl' => ?_, fun hzero => absurd hzero hpasses⟩
  unfold LoopWorld.drained at hl'
  dsimp only at hl'
  split at hl'
  · obtain rfl := Option.some.inj hl'
    have hinv := h.invoked loop hl
    exact ⟨hinv.positive, hinv.first, hinv.named, hinv.counted, hinv.wave, h.rests.idle hidle⟩
  · cases hl'

theorem Kept.over {r : ProcessorRuntime} (h : Kept batchId w) (hr : r.Rests)
    (hpasses : w.passes ≠ 0 ∨ r = w.runtime) :
    Kept batchId { w with runtime := r, invocation := none } := by
  refine ⟨hr, h.records, nofun, fun hzero => ⟨rfl, ?_⟩⟩
  rcases hpasses with hne | rfl
  · exact absurd hzero hne
  · exact (h.unstarted hzero).2

theorem standingAt_eq {stands : LoopPoint → Bool} {loop : NativeLoop} :
    w.standingAt stands = some loop ↔ w.invocation = some loop ∧ stands loop.point = true :=
  Option.filter_eq_some_iff

theorem idleTurn_eq {opened : Bool} {loop : NativeLoop} (h : w.idleTurn opened = some loop) :
    w.invocation = some loop ∧ loop.point = .running opened ∧
      w.runtime.processor.state.phase = .idle := by
  unfold idleTurn at h
  split at h
  · rename_i hidle
    obtain ⟨hl, hpoint⟩ := standingAt_eq.1 h
    exact ⟨hl, of_decide_eq_true hpoint, hidle⟩
  · cases h

/-- **Every step of the loops keeps the records.** -/
theorem Kept.step {a : LoopAction} (h : Kept batchId w) (hok : Resumes w a)
    (hn : w.next eventId watch batchId a = some w') : Kept batchId w' := by
  have hpasses : ∀ {loop}, w.invocation = some loop → w.passes ≠ 0 := fun hl hzero => by
    rw [(h.unstarted hzero).1] at hl
    cases hl
  cases a with
  | start =>
    simp only [next, Option.ite_none_left_eq_some, Option.map_eq_some_iff] at hn
    obtain ⟨-, r, hr, rfl⟩ := hn
    have hbatch := ProcessorRuntime.resume_batch h.rests hr
    refine ⟨h.rests.step hr, h.records.later (Nat.le_succ _), ?_,
      fun hzero => absurd hzero (Nat.succ_ne_zero _)⟩
    intro loop hloop
    obtain rfl := Option.some.inj hloop
    refine invoked_enterWave h.records le_rfl (fun _ => rfl) fun hb _ => ?_
    rcases Bool.or_eq_true_iff.1 hok with hzero | hsome
    · exact of_decide_eq_true hzero
    · rw [hbatch, hsome] at hb
      cases hb
  | turn step =>
    simp only [next, bind, Option.bind_eq_some_iff, Option.ite_none_left_eq_some, pure,
      Option.some.injEq] at hn
    obtain ⟨-, loop, hloop, r, hr, rfl⟩ := hn
    obtain ⟨hl, hpoint⟩ := standingAt_eq.1 hloop
    refine ⟨h.rests.step hr, h.records, fun loop' hl' => ?_,
      fun hzero => absurd hzero (hpasses hl)⟩
    obtain rfl := Option.some.inj (hl.symm.trans hl')
    have hinv := h.invoked loop hl
    refine ⟨hinv.positive, hinv.first, hinv.named, hinv.counted, hinv.wave, ?_⟩
    have hstand := hinv.standing
    unfold Standing at hstand ⊢
    cases hp : loop.point with
    | waiting => simp [hp] at hpoint
    | running opened =>
      rw [hp] at hstand
      cases opened <;> exact hstand
  | openCohort base nowSecs occurredAt =>
    simp only [next, bind, Option.bind_eq_some_iff, pure, Option.some.injEq] at hn
    obtain ⟨loop, hloop, r, hr, rfl⟩ := hn
    obtain ⟨hl, hpoint, -⟩ := idleTurn_eq hloop
    exact h.opens hl hpoint (h.rests.step hr)
  | nothingToOpen escalated =>
    simp only [next, Option.map_eq_some_iff] at hn
    obtain ⟨loop, hloop, rfl⟩ := hn
    obtain ⟨hl, -, hidle⟩ := idleTurn_eq hloop
    exact h.drained hl hidle
  | completed readiness occurredAt =>
    simp only [next, Option.bind_eq_some_iff] at hn
    obtain ⟨loop, hloop, hn⟩ := hn
    obtain ⟨hl, hpoint, hidle⟩ := idleTurn_eq hloop
    cases readiness with
    | exhausted escalated =>
      obtain rfl := Option.some.inj hn
      exact h.drained hl hidle
    | pending =>
      simp only [cohortCompleted] at hn
      split at hn
      · simp only [Option.map_eq_some_iff] at hn
        obtain ⟨r, hr, rfl⟩ := hn
        exact h.over (h.rests.step hr) (.inl (hpasses hl))
      · obtain rfl := Option.some.inj hn
        rw [h.rests.idle hidle]
        refine ⟨h.rests, h.records, fun loop' hl' => ?_,
          fun hzero => absurd hzero (hpasses hl)⟩
        obtain rfl := Option.some.inj hl'
        exact h.goesOn hl hpoint
  | currentLaneWork =>
    simp only [next, bind, Option.bind_eq_some_iff, pure, Option.some.injEq] at hn
    obtain ⟨loop, hloop, rfl⟩ := hn
    obtain ⟨hl, hpoint⟩ := standingAt_eq.1 hloop
    have hinv := h.invoked loop hl
    have hrest := hinv.standing
    rw [Standing, of_decide_eq_true hpoint] at hrest
    have hwave : satAdd loop.waveNumber 1 ≠ 1 ∧ 1 ≤ satAdd loop.waveNumber 1 := by
      have := hinv.positive
      have : 2 ≤ u32Max := by decide
      unfold satAdd
      omega
    have hname : waveBatchId batchId (satAdd loop.waveNumber 1) =
        firstBatchIdOf batchId (satAdd loop.waveNumber 1) := (if_neg hwave.1).symm
    rw [hname]
    refine ⟨h.rests, h.records.later (Nat.le_succ _), fun loop' hl' => ?_,
      fun hzero => absurd hzero (Nat.succ_ne_zero _)⟩
    obtain rfl := Option.some.inj hl'
    refine invoked_enterWave h.records hwave.2 (fun hsome => ?_) fun _ hone =>
      absurd hone hwave.1
    rw [hrest] at hsome
    cases hsome
  | stop =>
    obtain rfl := Option.some.inj hn
    exact h.over h.rests (.inr rfl)

/-! ## Distinct ids -/

theorem kept_of_reach {r : ProcessorRuntime} (hr : r.Rests)
    (hidle : r.processor.state.batch = none)
    (h : Reach (next eventId watch batchId) Resumes { runtime := r } w) : Kept batchId w := by
  refine h.invariant (I := Kept batchId) ?_ fun _ _ _ hk hok hn => hk.step hok hn
  exact ⟨hr, ⟨by simp, by simp, by simp, by simp, by simp, by simp, .nil⟩, nofun,
    fun _ => ⟨rfl, hidle⟩⟩

end LoopWorld

/-- The cohort is not the one under the id of the command line. -/
def OpenedCohort.Derived (c : OpenedCohort) : Prop :=
  ¬ (c.waveNumber = 1 ∧ c.completedCohortCount = 0)

/-- The derived cohorts of a wave all belong to one pass over the queue, and no cohort is opened
behind as many others as the count can tell. -/
structure Apart (opened : List OpenedCohort) : Prop where
  passes : ∀ c ∈ opened, ∀ d ∈ opened, c.Derived → d.Derived → c.waveNumber = d.waveNumber →
    c.pass = d.pass
  counts : ∀ c ∈ opened, c.completedCohortCount < u32Max

namespace LoopWorld

theorem Derived.firstCount_le {c : OpenedCohort} (h : c.Derived) :
    firstCount c.waveNumber ≤ c.completedCohortCount := by
  unfold firstCount
  split
  · rename_i hwave
    exact Nat.one_le_iff_ne_zero.2 fun hzero => h ⟨hwave, hzero⟩
  · exact Nat.zero_le _

/-- A pass with a derived cohort has the first derived one of its wave. -/
theorem Records.begins {passes : Nat} {opened : List OpenedCohort}
    (h : Records batchId passes opened) {n : Nat} {c : OpenedCohort} (hc : c ∈ opened)
    (hn : c.completedCohortCount = firstCount c.waveNumber + n) :
    ∃ d ∈ opened, d.pass = c.pass ∧ d.completedCohortCount = firstCount c.waveNumber := by
  induction n generalizing c with
  | zero => exact ⟨c, hc, rfl, hn⟩
  | succ n ih =>
    obtain ⟨d, hd, hp, hcount⟩ := h.steps c hc (by omega)
    have hwave := h.wave d hd c hc hp
    obtain ⟨e, he, hpe, hce⟩ := ih hd (by rw [hwave]; omega)
    exact ⟨e, he, hpe.trans hp, hwave ▸ hce⟩

theorem Records.nodup {passes : Nat} {opened : List OpenedCohort}
    (h : Records batchId passes opened) (ha : Apart opened) :
    (opened.map OpenedCohort.batchId).Nodup := by
  refine List.pairwise_map.2 (h.grows.imp_of_mem fun {c d} hc hd hgrow heq => ?_)
  rw [h.named c hc, h.named d hd] at heq
  obtain ⟨hwave, hcount⟩ := cohortBatchId_inj (ha.counts c hc) (ha.counts d hd) heq
  have hpass : c.pass = d.pass := by
    by_cases hderived : c.Derived
    · refine ha.passes c hc d hd hderived ?_ hwave
      unfold OpenedCohort.Derived at hderived ⊢
      rwa [← hwave, ← hcount]
    · obtain ⟨hone, hzero⟩ := not_not.1 hderived
      rw [h.first c hc hone hzero, h.first d hd (hwave ▸ hone) (hcount ▸ hzero)]
  rcases hgrow hpass with hlt | hmax
  · exact absurd hcount (by omega)
  · exact absurd (ha.counts c hc) (by omega)

theorem Records.apart {passes : Nat} {opened : List OpenedCohort}
    (h : Records batchId passes opened) (hnodup : (opened.map OpenedCohort.batchId).Nodup) :
    Apart opened := by
  have hinj := List.inj_on_of_nodup_map hnodup
  constructor
  -- two passes that derive ids in one wave both begin with its first count, under one id
  · intro c hc d hd hcd hdd hwave
    obtain ⟨c', hc', hpc, hcountc⟩ := h.begins hc
      (Nat.add_sub_cancel' (Derived.firstCount_le hcd)).symm
    obtain ⟨d', hd', hpd, hcountd⟩ := h.begins hd
      (Nat.add_sub_cancel' (Derived.firstCount_le hdd)).symm
    have heq : c'.batchId = d'.batchId := by
      rw [h.named c' hc', h.named d' hd', hcountc, hcountd, h.wave c' hc' c hc hpc,
        h.wave d' hd' d hd hpd, hwave]
    rw [← hpc, ← hpd, hinj hc' hd' heq]
  · intro c hc
    refine Nat.lt_of_le_of_ne (h.counted c hc) fun hmax => ?_
    obtain ⟨d, hd, hp, hcount⟩ := h.steps c hc (by
      rw [hmax]
      unfold firstCount
      split <;> decide)
    have heq : d.batchId = c.batchId := by
      rw [h.named d hd, h.named c hc, hmax, h.wave d hd c hc hp]
      exact cohortBatchId_stuck _ _ (hcount.trans hmax)
    rw [hinj hd hc heq] at hcount
    omega

end LoopWorld

/-! ## Accepted ids -/

/-- Wherever the one id is accepted, the other is. -/
structure AcceptedLike (id id' : String) : Prop where
  reducer : isBatchId id = true → isBatchId id' = true
  control : ControlPlane.validateBatchId id = .ok () → ControlPlane.validateBatchId id' = .ok ()
  found : findBatchId id.toList = some id.toList → findBatchId id'.toList = some id'.toList
  telemetry : validBatchId id.toList = true → validBatchId id'.toList = true

theorem stripFront_iff {front s rest : List Char} :
    stripFront front s = some rest ↔ s = front ++ rest := by
  unfold stripFront
  constructor
  · intro h
    split at h
    · rename_i hprefix
      obtain ⟨tail, rfl⟩ := List.isPrefixOf_iff_prefix.1 hprefix
      rw [← Option.some.inj h, List.drop_left]
    · cases h
  · rintro rfl
    rw [if_pos (List.isPrefixOf_iff_prefix.2 (List.prefix_append _ _)), List.drop_left]

/-- The characters of a derived suffix. -/
def isSuffixChar (ch : Char) : Bool := ch == '-' || ch == 'w' || isAsciiDigit ch

theorem derivedSuffix_chars {wave n : Nat} :
    ∀ ch ∈ derivedSuffix wave n, isSuffixChar ch = true := by
  have hdigits : ∀ k : Nat, ∀ ch ∈ Nat.toDigits 10 k, isSuffixChar ch = true := by
    intro k ch hch
    simp [isSuffixChar, digit_toDigits ch hch]
  unfold derivedSuffix
  intro ch hch
  rcases List.mem_append.1 hch with hch | hch
  · split at hch
    · cases hch
    · rcases List.mem_cons.1 hch with rfl | hch
      · decide
      · rcases List.mem_cons.1 hch with rfl | hch
        · decide
        · exact hdigits _ ch hch
  · split at hch
    · cases hch
    · rcases List.mem_cons.1 hch with rfl | hch
      · decide
      · exact hdigits _ ch hch

theorem isSuffixChar_cases {ch : Char} (h : isSuffixChar ch = true) :
    ch = '-' ∨ ch = 'w' ∨ isAsciiDigit ch = true := by
  simpa [isSuffixChar, or_assoc] using h

theorem suffixChar_not_space {ch : Char} (h : isSuffixChar ch = true) :
    isWhiteSpace ch = false := by
  rcases isSuffixChar_cases h with rfl | rfl | hdigit
  · decide
  · decide
  · exact digit_not_space hdigit

theorem suffixChar_ne {suffix : List Char} (h : ∀ ch ∈ suffix, isSuffixChar ch = true) {ch : Char}
    (hch : isSuffixChar ch = false) : ch ∉ suffix := by
  intro hmem
  rw [h ch hmem] at hch
  cases hch

section Accepted

variable {id id' : String} {t : List Char}

theorem reducer_accepts (hid : id'.toList = id.toList ++ t)
    (ht : ∀ ch ∈ t, isSuffixChar ch = true) (h : isBatchId id = true) : isBatchId id' = true := by
  unfold isBatchId at h ⊢
  cases hstrip : stripFront ['B', '-'] id.toList with
  | none =>
    rw [hstrip] at h
    cases h
  | some suffix =>
    have hlist := stripFront_iff.1 hstrip
    have hstrip' : stripFront ['B', '-'] id'.toList = some (suffix ++ t) := by
      rw [stripFront_iff, hid, hlist, List.append_assoc]
    have hspace : t.any isWhiteSpace = false := by
      rw [List.any_eq_false]
      exact fun ch hch => by simp [suffixChar_not_space (ht ch hch)]
    have hnul : '\x00' ∉ t := suffixChar_ne ht (by decide)
    rw [hstrip] at h
    rw [hstrip']
    simp only [startsWith, contains, hid, hlist] at h ⊢
    simp_all

theorem control_accepts (hid : id'.toList = id.toList ++ t)
    (ht : ∀ ch ∈ t, isSuffixChar ch = true) (h : ControlPlane.validateBatchId id = .ok ()) :
    ControlPlane.validateBatchId id' = .ok () := by
  unfold ControlPlane.validateBatchId at h ⊢
  rw [Outcome.demand_eq_ok] at h ⊢
  obtain ⟨hne, hfront, hnul, hcr, hlf⟩ := h
  have hnul' : '\x00' ∉ t := suffixChar_ne ht (by decide)
  have hcr' : '\r' ∉ t := suffixChar_ne ht (by decide)
  have hlf' : '\n' ∉ t := suffixChar_ne ht (by decide)
  simp only [startsWith, contains, hid] at *
  simp_all

theorem find_accepts (hid : id'.toList = id.toList ++ t)
    (ht : ∀ ch ∈ t, isSuffixChar ch = true) (h : findBatchId id.toList = some id.toList) :
    findBatchId id'.toList = some id'.toList := by
  unfold findBatchId at h ⊢
  have hmem := List.mem_of_find?_eq_some h
  have htoken := List.find?_some h
  have hpiece : id.toList ∈ pieces isWhiteSpace id.toList := (List.mem_filter.1 hmem).1
  -- the suffix adds no white space, and the front of the token stays
  have hspace : ∀ ch ∈ id'.toList, isWhiteSpace ch = false := by
    rw [hid]
    intro ch hch
    rcases List.mem_append.1 hch with hch | hch
    · exact piece_not_sep hpiece ch hch
    · exact suffixChar_not_space (ht ch hch)
  have hbatch : isBatchToken id'.toList = true := by
    unfold isBatchToken at htoken ⊢
    cases hstrip : stripFront "B-".toList id.toList with
    | none =>
      rw [hstrip] at htoken
      cases htoken
    | some rest =>
      have hstrip' : stripFront "B-".toList id'.toList = some (rest ++ t) := by
        rw [stripFront_iff, hid, stripFront_iff.1 hstrip, List.append_assoc]
      rw [hstrip] at htoken
      rw [hstrip']
      cases rest with
      | nil => cases htoken
      | cons ch rest => exact htoken
  have hne : id'.toList ≠ [] := by
    intro hnil
    rw [hnil] at hbatch
    revert hbatch
    decide
  unfold splitWhitespace
  rw [pieces_of_none hspace, List.filter_cons_of_pos (by simpa using hne)]
  exact List.find?_cons_of_pos hbatch

theorem telemetry_accepts (hid : id'.toList = id.toList ++ t)
    (ht : ∀ ch ∈ t, isSuffixChar ch = true) (h : validBatchId id.toList = true) :
    validBatchId id'.toList = true := by
  unfold validBatchId at h ⊢
  cases hstrip : stripFront "B-".toList id.toList with
  | none =>
    rw [hstrip] at h
    cases h
  | some suffix =>
    have hstrip' : stripFront "B-".toList id'.toList = some (suffix ++ t) := by
      rw [stripFront_iff, hid, stripFront_iff.1 hstrip, List.append_assoc]
    rw [hstrip] at h
    rw [hstrip']
    -- every character of the suffix is one that telemetry allows
    have hall : t.all (fun ch =>
        isAsciiAlpha ch || isAsciiDigit ch || ch == '.' || ch == '_' || ch == '-') = true := by
      refine List.all_eq_true.2 fun ch hch => ?_
      rcases isSuffixChar_cases (ht ch hch) with rfl | rfl | hdigit
      · decide
      · decide
      · simp [hdigit]
    simp only [Bool.and_eq_true, List.all_append, hall, and_true] at h ⊢
    refine ⟨?_, h.2⟩
    cases suffix with
    | nil => cases h.1
    | cons ch suffix => rfl

end Accepted

theorem acceptedLike (batchId : String) (wave n : Nat) :
    AcceptedLike batchId (cohortBatchId batchId wave n) where
  reducer := reducer_accepts (cohortBatchId_toList ..) derivedSuffix_chars
  control := control_accepts (cohortBatchId_toList ..) derivedSuffix_chars
  found := find_accepts (cohortBatchId_toList ..) derivedSuffix_chars
  telemetry := telemetry_accepts (cohortBatchId_toList ..) derivedSuffix_chars

/-- **The ids of successive cohorts are distinct** exactly when the derived cohorts of each wave
belong to one pass and no count reaches the end of its type; every id is accepted like the first
one. -/
theorem cohort_ids {eventId : String → String} {watch : Bool} {batchId : String}
    {config : ProcessorConfig} {r0 r : ProcessorRuntime} {w : LoopWorld}
    (hnew : ProcessorRuntime.new config = .ok r0)
    (hr : Reach (ProcessorRuntime.next eventId) (fun _ _ => True) r0 r)
    (hidle : r.processor.state.batch = none)
    (h : Reach (LoopWorld.next eventId watch batchId) LoopWorld.Resumes { runtime := r } w) :
    ((w.opened.map OpenedCohort.batchId).Nodup ↔ Apart w.opened) ∧
      ∀ c ∈ w.opened, AcceptedLike batchId c.batchId := by
  have hkept := LoopWorld.kept_of_reach (ProcessorRuntime.rests_of_reach hnew hr) hidle h
  refine ⟨⟨hkept.records.apart, hkept.records.nodup⟩, fun c hc => ?_⟩
  rw [hkept.records.named c hc]
  exact acceptedLike ..

section Sample

open ProcessorRuntime LoopWorld

/-- Turns of the loop that settle these steps of the runtime. -/
def turns (steps : List RuntimeStep) : List LoopAction := steps.map .turn

/-- A cohort of one task that gets no workspace. -/
def cohortOfOne (task : String) : List LoopAction :=
  .openCohort "base" 0 "2026-07-24T12:00:00Z" ::
    turns (applied [.dependencyGraphRefreshed .cohortOpen (.completed none),
      .inboxReconciled 3 false, .inboxDrained 3, .admitWave [Processor.proposal task "a/**"] 0,
      .workspaceFailed task "no disk"])

/-- From the end of its wave to `Idle`, with more in the queue. -/
def closing (task : String) : List LoopAction :=
  turns (applied [.inboxReconciled 3 false, .inboxDrained 3, .admitWave [] 0] ++
    [.complete "write-journal-and-status"] ++ applied [.archivalPrepared .skipped] ++
    [.complete ("cleanup-workspace:" ++ task), .complete "cleanup-integration-workspace",
      .complete "cleanup-cohort-control-plane"] ++
    applied [.cleanupComplete, .dependencyGraphRefreshed .postArchive (.completed none),
      .inboxFinalizationReconciled false, .cleanupComplete] ++
    [.complete "write-journal-and-status", .complete "release-lease"]) ++
    [.completed .pending "2026-07-24T12:00:00Z"]

/-- Stopped, and started again. -/
def restarted : List LoopAction := [.stop, .start] ++ turns (applied [.recover ∅])

/-- The first invocation, from its start to its first cohort. -/
def firstCohort : List LoopAction :=
  .start :: turns (applied [.recover ∅] ++ [.complete "write-journal-and-status"]) ++
    cohortOfOne "T-1"

/-- The workspace of a task stays away. -/
def escalated (task : String) : List LoopAction := turns [.complete ("escalate-task:" ++ task)]

end Sample

open ProcessorRuntime in
/-- A restart in the first cohort; the second one has an id of its own. -/
theorem cohort_ids_distinct :
    ∃ w, Reach (LoopWorld.next id false "B-1") LoopWorld.Resumes { runtime := freshRuntime } w ∧
      w.opened.map OpenedCohort.batchId = ["B-1-2", "B-1"] ∧ Apart w.opened := by
  have hrun : (exec (guarded LoopWorld.resumes (LoopWorld.next id false "B-1"))
      { runtime := freshRuntime }
      (firstCohort ++ restarted ++ escalated "T-1" ++ closing "T-1" ++ cohortOfOne "T-2")).any
        (fun w => w.opened.map OpenedCohort.batchId == ["B-1-2", "B-1"]) = true := by
    decide +kernel
  obtain ⟨w, hreach, hids⟩ := exec_any hrun
  have hids := beq_iff_eq.1 hids
  have hnew : ProcessorRuntime.new {} = .ok freshRuntime := rfl
  refine ⟨w, hreach, hids, (cohort_ids hnew .refl rfl hreach).1.1 ?_⟩
  rw [hids]
  decide

open ProcessorRuntime in
/-- A restart in the second cohort; the third one is opened under its id. -/
theorem cohort_ids_reused :
    ∃ w, Reach (LoopWorld.next id false "B-1") LoopWorld.Resumes { runtime := freshRuntime } w ∧
      w.opened.map OpenedCohort.batchId = ["B-1-2", "B-1-2", "B-1"] := by
  have hrun : (exec (guarded LoopWorld.resumes (LoopWorld.next id false "B-1"))
      { runtime := freshRuntime }
      (firstCohort ++ escalated "T-1" ++ turns (applied [.advance 0]) ++ closing "T-1" ++
        cohortOfOne "T-2" ++ restarted ++ escalated "T-2" ++ closing "T-2" ++
        [.openCohort "base" 0 "2026-07-24T12:00:00Z"])).any
        (fun w => w.opened.map OpenedCohort.batchId == ["B-1-2", "B-1-2", "B-1"]) = true := by
    decide +kernel
  obtain ⟨w, hreach, hids⟩ := exec_any hrun
  exact ⟨w, hreach, beq_iff_eq.1 hids⟩

end Orchestrail
