import Orchestrail.Proof.Probes

/-!
# The cache of snapshots

`Loads` lists the ways one load goes. A run of loads keeps `Sound`: what the cache holds is the
snapshot of the files at one instant, with their stamps, and no file was written while it was read.
-/

namespace Orchestrail.Observer

open Text Watch

/-! ## Loads of the snapshot -/

section Loads

variable {κ δ γ ι β : Type} (parsers : Parsers κ δ γ ι β) (sight : Nat → World)

/-- The ways a load goes. -/
inductive Loads (cache : SnapshotCache κ δ γ ι β) (work : String) (n : Nat) :
    Snapshot κ δ γ ι β → SnapshotCache κ δ γ ι β → Nat → Prop
  | unstamped {error : IoError} {m : Nat}
      (hstamp : snapshotInputStamp work sight n = (.error error, m)) :
      Loads cache work n
        (Snapshot.orEmpty parsers work (Snapshot.tryLoad parsers work sight m).1) {}
        (Snapshot.tryLoad parsers work sight m).2
  | hit {before : SnapshotInputStamp} {snapshot : Snapshot κ δ γ ι β} {m : Nat}
      (hstamp : snapshotInputStamp work sight n = (.ok before, m))
      (hheld : cache.held before = some snapshot) : Loads cache work n snapshot cache m
  | unread {before : SnapshotInputStamp} {error : IoError} {m m' : Nat}
      (hstamp : snapshotInputStamp work sight n = (.ok before, m))
      (hheld : cache.held before = none)
      (hread : Snapshot.tryLoad parsers work sight m = (.error error, m')) :
      Loads cache work n (Snapshot.empty parsers work) {} m'
  | stale {before : SnapshotInputStamp} {snapshot : Snapshot κ δ γ ι β} {m m' m'' : Nat}
      (hstamp : snapshotInputStamp work sight n = (.ok before, m))
      (hheld : cache.held before = none)
      (hread : Snapshot.tryLoad parsers work sight m = (.ok snapshot, m'))
      (hafter : (snapshotInputStamp work sight m').2 = m'') :
      Loads cache work n snapshot {} m''
  | kept {before : SnapshotInputStamp} {snapshot : Snapshot κ δ γ ι β} {m m' m'' : Nat}
      (hstamp : snapshotInputStamp work sight n = (.ok before, m))
      (hheld : cache.held before = none)
      (hread : Snapshot.tryLoad parsers work sight m = (.ok snapshot, m'))
      (hafter : snapshotInputStamp work sight m' = (.ok before, m'')) :
      Loads cache work n snapshot ⟨some (before, snapshot)⟩ m''

/-- Every load returns. -/
theorem load_loads (cache : SnapshotCache κ δ γ ι β) (work : String) (n : Nat) :
    ∃ value after finish, cache.load parsers work sight n = (.ok (value, after), finish) ∧
      Loads parsers sight cache work n value after finish := by
  have hcapture : ∀ {α : Type} (prog : Looks α) (k : Nat),
      capture prog sight k = (.ok (prog sight k).1, (prog sight k).2) := fun _ _ => rfl
  unfold SnapshotCache.load
  rw [run_bind, hcapture]
  rcases hstamp : snapshotInputStamp work sight n with ⟨error | before, m⟩
  · exact ⟨_, _, _, rfl, .unstamped hstamp⟩
  · dsimp only
    cases hheld : cache.held before with
    | some snapshot => exact ⟨_, _, _, rfl, .hit hstamp hheld⟩
    | none =>
      show ∃ value after finish, SnapshotCache.reload parsers work before sight m =
        (.ok (value, after), finish) ∧ _
      unfold SnapshotCache.reload
      rw [run_bind, hcapture]
      rcases hread : Snapshot.tryLoad parsers work sight m with ⟨error | snapshot, m'⟩
      · exact ⟨_, _, _, rfl, .unread hstamp hheld hread⟩
      · dsimp only
        rw [run_bind, hcapture]
        rcases hafter : snapshotInputStamp work sight m' with ⟨error | after, m''⟩
        · exact ⟨_, _, _, rfl, .stale hstamp hheld hread (by rw [hafter])⟩
        · by_cases heq : after = before
          · refine ⟨snapshot, ⟨some (after, snapshot)⟩, m'', ?_, ?_⟩
            · dsimp only
              rw [if_pos heq]
              rfl
            · subst heq
              exact .kept hstamp hheld hread hafter
          · refine ⟨snapshot, {}, m'', ?_, .stale hstamp hheld hread (by rw [hafter])⟩
            dsimp only
            rw [if_neg heq]
            rfl

/-- What is asked of a cache. -/
inductive Call where
  | load (work : String)
  | invalidate

/-- A load of a run: where it begins and ends among the looks, and the cache in front of it. -/
structure Visit (κ δ γ ι β : Type) where
  work : String
  start : Nat
  cache : SnapshotCache κ δ γ ι β
  value : Snapshot κ δ γ ι β
  finish : Nat

/-- The loads of a run. -/
def visits : List Call → SnapshotCache κ δ γ ι β → Nat → List (Visit κ δ γ ι β)
  | [], _, _ => []
  | .invalidate :: calls, _, n => visits calls {} n
  | .load work :: calls, cache, n =>
    match cache.load parsers work sight n with
    | (.ok (value, after), finish) => ⟨work, n, cache, value, finish⟩ :: visits calls after finish
    | (.error _, _) => []

variable {parsers sight}

/-- The load returned what the cache held. -/
def Visit.Hit (sight : Nat → World) (visit : Visit κ δ γ ι β) : Prop :=
  ∃ before m, snapshotInputStamp visit.work sight visit.start = (.ok before, m) ∧
    (visit.cache.held before).isSome

/-- The look at which a load that is no hit begins to read. -/
def Visit.reads (sight : Nat → World) (visit : Visit κ δ γ ι β) : Nat :=
  (snapshotInputStamp visit.work sight visit.start).2

/-- The look behind its reads. -/
def Visit.hasRead (parsers : Parsers κ δ γ ι β) (sight : Nat → World) (visit : Visit κ δ γ ι β) :
    Nat := (Snapshot.tryLoad parsers visit.work sight (visit.reads sight)).2

end Loads

section Runs

variable {κ δ γ ι β : Type} (parsers : Parsers κ δ γ ι β) (history : Nat → World)
  (clock : Nat → Nat)

/-- What the looks see. -/
def seen (i : Nat) : World := history (clock i)

/-- No writer touches a file of the snapshot while the load reads. -/
def Visit.Quiet (visit : Visit κ δ γ ι β) : Prop :=
  let begins := clock (visit.reads (seen history clock))
  ∀ u, begins ≤ u → u ≤ clock (visit.hasRead parsers (seen history clock)) →
    (history u).file visit.work = (history begins).file visit.work

/-- A load behind others is as good as an uncached one. -/
structure Visit.Transparent (past : List (Visit κ δ γ ι β)) (visit : Visit κ δ γ ι β) : Prop where
  still : (∀ u, clock visit.start ≤ u → u ≤ clock (visit.finish - 1) →
      history u = history (clock visit.start)) →
    Uncached parsers visit.work (history (clock visit.start)) visit.value
  instant : visit.Hit (seen history clock) → ∃ u, clock visit.start ≤ u ∧
    u ≤ clock (visit.finish - 1) ∧ Uncached parsers visit.work (history u) visit.value
  parsed : visit.Hit (seen history clock) → ∃ front origin between,
    past = front ++ origin :: between ∧ (∀ other ∈ between, other.Hit (seen history clock)) ∧
      origin.work = visit.work ∧ origin.value = visit.value ∧
      ¬ origin.Hit (seen history clock) ∧ origin.Quiet parsers history clock

/-- The cache records that the place is empty. -/
def RecordsAbsent (cache : SnapshotCache κ δ γ ι β) (work : String) (place : Place) : Prop :=
  ∃ stamp snapshot, cache.cached = some (stamp, snapshot) ∧ stamp.work = work ∧
    stamp.of place = none

/-- While the load runs no file is removed that was absent earlier in it, or that the cache records
as absent. -/
def Visit.Undisturbed (visit : Visit κ δ γ ι β) : Prop := ∀ place,
  KeepsNew (fun u => (history u).file visit.work place) (clock visit.start)
      (clock (visit.finish - 1)) ∧
    (RecordsAbsent visit.cache visit.work place → ∀ u, clock visit.start ≤ u →
      u < clock (visit.finish - 1) → (history u).file visit.work place ≠ none →
        (history (u + 1)).file visit.work place ≠ none)

/-- What a cache holds is what the files were at one instant, and was parsed in quiet. -/
structure Sound (past : List (Visit κ δ γ ι β)) (cache : SnapshotCache κ δ γ ι β) (n : Nat) :
    Prop where
  shows : ∀ stamp snapshot, cache.cached = some (stamp, snapshot) → ∃ r ≤ clock n,
    (∀ place, ((history r).file stamp.work place).map File.stamp = stamp.of place) ∧
      View parsers stamp.work ((history r).file stamp.work) snapshot
  parsed : ∀ stamp snapshot, cache.cached = some (stamp, snapshot) → ∃ front origin between,
    past = front ++ origin :: between ∧ (∀ other ∈ between, other.Hit (seen history clock)) ∧
      origin.work = stamp.work ∧ origin.value = snapshot ∧
      ¬ origin.Hit (seen history clock) ∧ origin.Quiet parsers history clock

variable {parsers history clock}

theorem Sound.nothing {past : List (Visit κ δ γ ι β)} {n : Nat} :
    Sound parsers history clock past {} n where
  shows _ _ h := nomatch h
  parsed _ _ h := nomatch h

theorem held_eq_some {cache : SnapshotCache κ δ γ ι β} {stamp : SnapshotInputStamp}
    {snapshot : Snapshot κ δ γ ι β} (h : cache.held stamp = some snapshot) :
    cache.cached = some (stamp, snapshot) := by
  unfold SnapshotCache.held at h
  obtain ⟨⟨stamp', snapshot'⟩, hcached, hsome⟩ := Option.bind_eq_some_iff.1 h
  dsimp only at hsome
  split at hsome
  · rename_i heq
    rw [hcached, ← heq, Option.some.inj hsome]
  · cases hsome

theorem stamps_patient (work : String) (history : Nat → World) (clock : Nat → Nat) (n : Nat) :
    n ≤ (snapshotInputStamp work (seen history clock) n).2 := patient_snapshotInputStamp _ n

theorem stamped_of_run {sight : Nat → World} {work : String} {n m : Nat}
    {stamp : SnapshotInputStamp} (h : snapshotInputStamp work sight n = (.ok stamp, m)) :
    Stamped sight n m work stamp :=
  till_snapshotInputStamp (by rw [h]) stamp (by rw [h])

theorem not_hit_of_error {visit : Visit κ δ γ ι β} {error : IoError} {m : Nat}
    (h : snapshotInputStamp visit.work (seen history clock) visit.start = (.error error, m)) :
    ¬ visit.Hit (seen history clock) := by
  rintro ⟨before, m', hstamp, -⟩
  rw [h] at hstamp
  cases hstamp

theorem not_hit_of_miss {visit : Visit κ δ γ ι β} {before : SnapshotInputStamp} {m : Nat}
    (h : snapshotInputStamp visit.work (seen history clock) visit.start = (.ok before, m))
    (hheld : visit.cache.held before = none) : ¬ visit.Hit (seen history clock) := by
  rintro ⟨before', m', hstamp, hsome⟩
  rw [h] at hstamp
  cases hstamp
  rw [hheld] at hsome
  cases hsome

section Step

variable (hclock : Monotone clock)
  (hfresh : ∀ work place, Fresh fun u => (history u).file work place)
  {past : List (Visit κ δ γ ι β)} {visit : Visit κ δ γ ι β}

include hclock

/-- A load that reads returns, of files that stand still, what the uncached load does. -/
theorem miss_transparent (hmiss : ¬ visit.Hit (seen history clock)) {m : Nat}
    (hm : visit.start ≤ m)
    (hfinish : (Snapshot.tryLoad parsers visit.work (seen history clock) m).2 ≤ visit.finish)
    (hvalue : visit.value = Snapshot.orEmpty parsers visit.work
      (Snapshot.tryLoad parsers visit.work (seen history clock) m).1) :
    visit.Transparent parsers history clock past := by
  refine ⟨fun h => ?_, fun hhit => absurd hhit hmiss, fun hhit => absurd hhit hmiss⟩
  rw [hvalue]
  refine uncached_of_still fun i hi hlast => ?_
  exact h (clock i) (hclock (hm.trans hi)) (hclock (by omega))

include hfresh

/-- **A hit** shows the files as they were at the first look of the load. -/
theorem hit_view (hsound : Sound parsers history clock past visit.cache visit.start)
    (hcalm : visit.Undisturbed history clock) {before : SnapshotInputStamp}
    (hstamp : snapshotInputStamp visit.work (seen history clock) visit.start =
      (.ok before, visit.finish))
    (hheld : visit.cache.held before = some visit.value) :
    visit.start < visit.finish ∧
      Uncached parsers visit.work (history (clock visit.start)) visit.value := by
  obtain ⟨hwork, hlooked, hbounded, hsaw⟩ := stamped_of_run hstamp
  have hcached := held_eq_some hheld
  obtain ⟨r, hr, hrecorded, hview⟩ := hsound.shows before visit.value hcached
  rw [hwork] at hrecorded hview
  refine ⟨hlooked, ?_⟩
  have hfiles : (history (clock visit.start)).file visit.work = (history r).file visit.work := by
    funext place
    obtain ⟨i, hi, hlast, hfile⟩ := hsaw place
    have hle : clock visit.start ≤ clock i := hclock hi
    have hfinish : clock i ≤ clock (visit.finish - 1) := hclock (by omega)
    cases hplace : before.of place with
    | some σ =>
      rw [hplace] at hfile
      have hthen := hrecorded place
      rw [hplace] at hthen
      exact (hfresh visit.work place).stands hthen hfile hr hle
    | none =>
      rw [hplace] at hfile
      have hthen := hrecorded place
      rw [hplace] at hthen
      rw [Option.map_eq_none_iff.1 hthen]
      -- what stood at the first look was removed before the probe, although recorded as absent
      by_contra hthere
      obtain ⟨v, hv, hvi, hpresent, hgone⟩ : ∃ v, clock visit.start ≤ v ∧ v < clock i ∧
          (history v).file visit.work place ≠ none ∧
          (history (v + 1)).file visit.work place = none :=
        removed_between hthere (Option.map_eq_none_iff.1 hfile) hle
      exact (hcalm place).2 ⟨before, visit.value, hcached, hwork, hplace⟩ v hv
        (hvi.trans_le hfinish) hpresent hgone
  refine uncached_of_view hbounded ?_
  rw [hfiles]
  exact hview

/-- **What is kept** was read of files that stood still. -/
theorem kept_still (hcalm : visit.Undisturbed history clock) {before : SnapshotInputStamp}
    {m m' : Nat}
    (hstamp : snapshotInputStamp visit.work (seen history clock) visit.start = (.ok before, m))
    (hm : m ≤ m')
    (hafter : snapshotInputStamp visit.work (seen history clock) m' = (.ok before, visit.finish)) :
    ∀ u, clock m ≤ u → u ≤ clock m' →
      (history u).file visit.work = (history (clock m')).file visit.work ∧
        ∀ place, ((history u).file visit.work place).map File.stamp = before.of place := by
  obtain ⟨-, -, -, hsaw⟩ := stamped_of_run hstamp
  obtain ⟨-, -, -, hsaw'⟩ := stamped_of_run hafter
  have hplace : ∀ place, ∃ i, clock i ≤ clock m ∧
      ((history (clock i)).file visit.work place).map File.stamp = before.of place ∧
      ∀ u, clock i ≤ u → u ≤ clock m' →
        (history u).file visit.work place = (history (clock i)).file visit.work place := by
    intro place
    obtain ⟨i, hi, him, hfile⟩ := hsaw place
    obtain ⟨j, hj, hjlast, hfile'⟩ := hsaw' place
    refine ⟨i, hclock him.le, hfile, fun u hu hu' => ?_⟩
    exact unchanged (hfresh visit.work place) (hcalm place).1 (hclock hi)
      (hclock (show j ≤ visit.finish - 1 by omega)) (hfile.trans hfile'.symm) hu
      (hu'.trans (hclock hj))
  intro u hu hu'
  refine ⟨funext fun place => ?_, fun place => ?_⟩
  · obtain ⟨i, hi, -, hsame⟩ := hplace place
    rw [hsame u (hi.trans hu) hu', hsame (clock m') (hi.trans (hu.trans hu')) le_rfl]
  · obtain ⟨i, hi, hfile, hsame⟩ := hplace place
    rw [hsame u (hi.trans hu) hu', hfile]

theorem hit_step (hsound : Sound parsers history clock past visit.cache visit.start)
    (hcalm : visit.Undisturbed history clock) {before : SnapshotInputStamp}
    (hstamp : snapshotInputStamp visit.work (seen history clock) visit.start =
      (.ok before, visit.finish))
    (hheld : visit.cache.held before = some visit.value) :
    visit.Transparent parsers history clock past ∧
      Sound parsers history clock (past ++ [visit]) visit.cache visit.finish := by
  obtain ⟨hlooked, huncached⟩ := hit_view hclock hfresh hsound hcalm hstamp hheld
  have hcached := held_eq_some hheld
  have hwork := (stamped_of_run hstamp).workDir
  have hhit : visit.Hit (seen history clock) := ⟨before, _, hstamp, by rw [hheld]; rfl⟩
  have hlast : clock visit.start ≤ clock (visit.finish - 1) := hclock (by omega)
  refine ⟨⟨fun _ => huncached, fun _ => ⟨_, le_rfl, hlast, huncached⟩, fun _ => ?_⟩, ?_, ?_⟩
  · obtain ⟨front, origin, between, hpast, hhits, hsame, hrest⟩ := hsound.parsed _ _ hcached
    exact ⟨front, origin, between, hpast, hhits, hsame.trans hwork, hrest⟩
  · intro stamp snapshot hentry
    obtain ⟨r, hr, hshows⟩ := hsound.shows stamp snapshot hentry
    exact ⟨r, hr.trans (hclock hlooked.le), hshows⟩
  · intro stamp snapshot hentry
    obtain ⟨front, origin, between, hpast, hhits, hrest⟩ := hsound.parsed stamp snapshot hentry
    refine ⟨front, origin, between ++ [visit], by rw [hpast, List.append_assoc]; rfl, ?_, hrest⟩
    intro other hother
    rcases List.mem_append.1 hother with hother | hother
    · exact hhits other hother
    · rw [List.mem_singleton.1 hother]
      exact hhit

theorem kept_step (hcalm : visit.Undisturbed history clock) {before : SnapshotInputStamp}
    {m m' : Nat}
    (hstamp : snapshotInputStamp visit.work (seen history clock) visit.start = (.ok before, m))
    (hheld : visit.cache.held before = none)
    (hread : Snapshot.tryLoad parsers visit.work (seen history clock) m = (.ok visit.value, m'))
    (hafter : snapshotInputStamp visit.work (seen history clock) m' = (.ok before, visit.finish)) :
    Sound parsers history clock (past ++ [visit]) ⟨some (before, visit.value)⟩ visit.finish := by
  have hmiss := not_hit_of_miss hstamp hheld
  have hm : m ≤ m' := by
    have hpatient : Patient (Snapshot.tryLoad parsers visit.work) := patient_tryLoad
    have hle := hpatient (seen history clock) m
    rwa [hread] at hle
  have hm' : m' ≤ visit.finish := by
    have hle := stamps_patient visit.work history clock m'
    rwa [hafter] at hle
  have hstood := kept_still hclock hfresh hcalm hstamp hm hafter
  have hwork := (stamped_of_run hstamp).workDir
  constructor
  · rintro _ _ ⟨⟩
    have hsteady : Steady (seen history clock) m m' visit.work
        ((history (clock m')).file visit.work) :=
      fun i hi hlast => (hstood (clock i) (hclock hi) (hclock hlast.le)).1
    rw [hwork]
    refine ⟨clock m', hclock hm', (hstood (clock m') (hclock hm) le_rfl).2, ?_⟩
    exact till_tryLoad hsteady (by rw [hread]) _ (by rw [hread])
  · rintro _ _ ⟨⟩
    refine ⟨past, visit, [], rfl, fun _ hother => absurd hother List.not_mem_nil, hwork.symm, rfl,
      hmiss, ?_⟩
    have hbegins : visit.reads (seen history clock) = m := by
      unfold Visit.reads
      rw [hstamp]
    have hends : visit.hasRead parsers (seen history clock) = m' := by
      unfold Visit.hasRead
      rw [hbegins, hread]
    unfold Visit.Quiet
    rw [hbegins, hends]
    intro _ u hu hu'
    rw [(hstood u hu hu').1, (hstood (clock m) le_rfl (hclock hm)).1]

/-- **One load** is transparent and leaves a sound cache. -/
theorem step {after : SnapshotCache κ δ γ ι β}
    (hsound : Sound parsers history clock past visit.cache visit.start)
    (hcalm : visit.Undisturbed history clock)
    (h : Loads parsers (seen history clock) visit.cache visit.work visit.start visit.value after
      visit.finish) :
    visit.Transparent parsers history clock past ∧
      Sound parsers history clock (past ++ [visit]) after visit.finish := by
  have hpatient := stamps_patient visit.work history clock visit.start
  generalize hvalue : visit.value = value at h
  generalize hfinish : visit.finish = finish at h ⊢
  cases h with
  | unstamped hstamp =>
    rw [hstamp] at hpatient
    exact ⟨miss_transparent hclock (not_hit_of_error hstamp) hpatient hfinish.ge hvalue,
      Sound.nothing⟩
  | hit hstamp hheld =>
    subst hvalue hfinish
    exact hit_step hclock hfresh hsound hcalm hstamp hheld
  | unread hstamp hheld hread =>
    rw [hstamp] at hpatient
    exact ⟨miss_transparent hclock (not_hit_of_miss hstamp hheld) hpatient
      (by rw [hread]; exact hfinish.ge) (by rw [hread]; exact hvalue), Sound.nothing⟩
  | @stale _ _ m m' _ hstamp hheld hread hafter =>
    have hpatient' := stamps_patient visit.work history clock m'
    rw [hstamp] at hpatient
    rw [hafter] at hpatient'
    exact ⟨miss_transparent hclock (not_hit_of_miss hstamp hheld) hpatient
      (by rw [hread]; exact hpatient'.trans hfinish.ge) (by rw [hread]; exact hvalue),
      Sound.nothing⟩
  | @kept _ _ m m' _ hstamp hheld hread hafter =>
    have hpatient' := stamps_patient visit.work history clock m'
    rw [hstamp] at hpatient
    rw [hafter] at hpatient'
    subst hvalue hfinish
    exact ⟨miss_transparent hclock (not_hit_of_miss hstamp hheld) hpatient
      (by rw [hread]; exact hpatient') (by rw [hread]; rfl),
      kept_step hclock hfresh hcalm hstamp hheld hread hafter⟩

/-- **Every load of a run** is transparent. -/
theorem run {calls : List Call} {cache : SnapshotCache κ δ γ ι β} {n : Nat}
    (hsound : Sound parsers history clock past cache n)
    (hcalm : ∀ visit ∈ visits parsers (seen history clock) calls cache n,
      visit.Undisturbed history clock) :
    ∀ front visit behind,
      visits parsers (seen history clock) calls cache n = front ++ visit :: behind →
        visit.Transparent parsers history clock (past ++ front) := by
  induction calls generalizing past cache n with
  | nil =>
    intro front visit behind h
    unfold visits at h
    cases front <;> cases h
  | cons call calls ih =>
    cases call with
    | invalidate => exact ih Sound.nothing hcalm
    | load work =>
      obtain ⟨value, after, finish, hload, hloads⟩ := load_loads parsers (seen history clock) cache
        work n
      have hvisits : visits parsers (seen history clock) (.load work :: calls) cache n =
          ⟨work, n, cache, value, finish⟩ ::
            visits parsers (seen history clock) calls after finish := by
        rw [visits, hload]
      rw [hvisits] at hcalm ⊢
      have hfirst : (⟨work, n, cache, value, finish⟩ : Visit κ δ γ ι β).Transparent parsers history
            clock past ∧ Sound parsers history clock
              (past ++ [⟨work, n, cache, value, finish⟩]) after finish :=
        step hclock hfresh hsound (hcalm _ List.mem_cons_self) hloads
      obtain ⟨htransparent, hsound'⟩ := hfirst
      intro front visit behind h
      cases front with
      | nil =>
        cases h
        rw [List.append_nil]
        exact htransparent
      | cons first front =>
        obtain ⟨rfl, hrest⟩ := List.cons.inj h
        have hnext := ih hsound' (fun other hother => hcalm other (List.mem_cons_of_mem _ hother))
          front visit behind hrest
        rwa [List.append_assoc] at hnext

end Step

/-- The loads that are asked for. -/
def Call.work : Call → Option String
  | load work => some work
  | invalidate => none

theorem visits_work {sight : Nat → World} {calls : List Call} {cache : SnapshotCache κ δ γ ι β}
    {n : Nat} : (visits parsers sight calls cache n).map (·.work) = calls.filterMap Call.work := by
  induction calls generalizing cache n with
  | nil => rfl
  | cons call calls ih =>
    cases call with
    | invalidate => exact ih
    | load work =>
      obtain ⟨value, after, finish, hload, -⟩ := load_loads parsers sight cache work n
      rw [visits, hload]
      exact congrArg (work :: ·) ih

end Runs

end Orchestrail.Observer
