import Orchestrail.Spec.Observer

/-!
# What probes and reads of moving files show

A stamp that comes back after a file was written is a new one, so two equal stamps mean a file that
stood still (`Fresh.stands`). Two absences mean nothing of the kind: `KeepsNew` excludes that a file
comes and goes between them.
-/

namespace Orchestrail.Observer

open Text Watch

/-! ## The history of a file -/

/-- A file is removed, or it is written with a stamp that it never had. -/
def Fresh (file : Nat → Option File) : Prop :=
  ∀ v, file (v + 1) = file v ∨ file (v + 1) = none ∨
    ∃ new, file (v + 1) = some new ∧ ∀ u ≤ v, ∀ old, file u = some old → old.stamp ≠ new.stamp

/-- From `start` to `finish` nothing is removed that came in between. -/
def KeepsNew (file : Nat → Option File) (start finish : Nat) : Prop :=
  ∀ v, start ≤ v → v < finish → file v ≠ none → file (v + 1) = none →
    ∀ u, start ≤ u → u ≤ v → file u ≠ none

section History

variable {file : Nat → Option File} {s t u start finish : Nat}

/-- **A stamp stands for its file**: it is there at two instants with one stamp, and between them. -/
theorem Fresh.stands (h : Fresh file) {σ : PlainFileStamp} (hs : (file s).map File.stamp = some σ)
    (ht : (file t).map File.stamp = some σ) (hsu : s ≤ u) (hut : u ≤ t) : file u = file s := by
  obtain ⟨old, hold, hstamp⟩ := Option.map_eq_some_iff.1 hs
  -- the file is still there, or its stamp will not come back
  have hstep : ∀ v, s ≤ v → (∀ new, file v = some new → new.stamp ≠ σ) →
      ∀ new, file (v + 1) = some new → new.stamp ≠ σ := by
    intro v hsv hlost new hnew
    rcases h v with hsame | hgone | ⟨new', hnew', hfresh⟩
    · exact hlost new (hsame ▸ hnew)
    · rw [hgone] at hnew
      cases hnew
    · rw [hnew'] at hnew
      cases hnew
      exact fun heq => hfresh s hsv old hold (hstamp.trans heq.symm)
  have hlost : ∀ v w, s ≤ v → v ≤ w → (∀ new, file v = some new → new.stamp ≠ σ) →
      ∀ new, file w = some new → new.stamp ≠ σ := by
    intro v w hsv hvw hv
    induction w, hvw using Nat.le_induction with
    | base => exact hv
    | succ w hvw ih => exact hstep w (hsv.trans hvw) ih
  have hstays : file u = some old ∨ ∀ new, file u = some new → new.stamp ≠ σ := by
    clear hut
    induction u, hsu using Nat.le_induction with
    | base => exact .inl hold
    | succ v hsv ih =>
      rcases ih with hthere | hv
      · rcases h v with hsame | hgone | ⟨new, hnew, hfresh⟩
        · exact .inl (hsame.trans hthere)
        · exact .inr fun new hnew => by rw [hgone] at hnew; cases hnew
        · refine .inr fun new' hnew' => ?_
          rw [hnew] at hnew'
          cases hnew'
          exact fun heq => hfresh v le_rfl old hthere (hstamp.trans heq.symm)
      · exact .inr (hstep v hsv hv)
  rcases hstays with hthere | hv
  · rw [hthere, hold]
  · obtain ⟨new, hnew, hnewStamp⟩ := Option.map_eq_some_iff.1 ht
    exact absurd hnewStamp (hlost u t hsu hut hv new hnew)

theorem removed_between (hu : file u ≠ none) (ht : file t = none) (hut : u ≤ t) :
    ∃ v, u ≤ v ∧ v < t ∧ file v ≠ none ∧ file (v + 1) = none := by
  induction t, hut using Nat.le_induction with
  | base => exact absurd ht hu
  | succ t hut ih =>
    by_cases hnone : file t = none
    · obtain ⟨v, huv, hvt, hv⟩ := ih hnone
      exact ⟨v, huv, hvt.trans (Nat.lt_succ_self t), hv⟩
    · exact ⟨t, hut, Nat.lt_succ_self t, hnone, ht⟩

theorem KeepsNew.absent (h : KeepsNew file start finish) (hstart : start ≤ s) (hfinish : t ≤ finish)
    (hs : file s = none) (ht : file t = none) (hsu : s ≤ u) (hut : u ≤ t) : file u = none := by
  by_contra hu
  obtain ⟨v, huv, hvt, hv, hgone⟩ := removed_between hu ht hut
  exact h v (hstart.trans (hsu.trans huv)) (hvt.trans_le hfinish) hv hgone s hstart
    (hsu.trans huv) hs

/-- **Equal stamps mean an unchanged file**, absent ones too, if nothing new is removed. -/
theorem unchanged (h : Fresh file) (hnew : KeepsNew file start finish) (hstart : start ≤ s)
    (hfinish : t ≤ finish) (hst : (file s).map File.stamp = (file t).map File.stamp) (hsu : s ≤ u)
    (hut : u ≤ t) : file u = file s := by
  cases hs : (file s).map File.stamp with
  | some σ => exact h.stands hs (hst ▸ hs) hsu hut
  | none =>
    have ht := Option.map_eq_none_iff.1 (hst ▸ hs)
    have hs' := Option.map_eq_none_iff.1 hs
    rw [hs', hnew.absent hstart hfinish hs' ht hsu hut]

end History

/-! ## What a probe sees -/

section Probes

variable {work : String} {place : Place} {sight : Nat → World} {n last : Nat}

/-- Between two looks the place had the stamp. -/
def Saw (sight : Nat → World) (n last : Nat) (work : String) (place : Place)
    (stamp : Option PlainFileStamp) : Prop :=
  ∃ i, n ≤ i ∧ i < last ∧ ((sight i).file work place).map File.stamp = stamp

theorem Saw.mono {stamp : Option PlainFileStamp} {n' : Nat} (h : Saw sight n' last work place stamp)
    (hn : n ≤ n') : Saw sight n last work place stamp := by
  obtain ⟨i, hi, hlast, hstamp⟩ := h
  exact ⟨i, hn.trans hi, hlast, hstamp⟩

theorem run_give {ω ε α : Type} {x : Except ε α} {sight : Nat → ω} {n : Nat} :
    (give x : Watch ω ε α) sight n = (x, n) := by
  cases x <;> rfl

theorem run_stampOf : stampOf work place sight n =
    (optionalPlainFileStamp (place.path work) maxControlBytes ((sight n).file work place), n + 1) :=
  run_give

theorem run_textOf : textOf work place sight n =
    (readOptionalText (place.path work) maxControlBytes ((sight n).file work place), n + 1) :=
  run_give

theorem run_plainDirectoryEntries : plainDirectoryEntries work sight n =
    (boundedEntries work ((sight n).tasks work), n + 1) := run_give

theorem run_isTaskDirectory {entry : Entry} : isTaskDirectory work entry sight n =
    (match plainDirectory work entry.name ((sight n).tasks work) with
      | .ok () => .ok true
      | .error error => if entry.isDir then .error error else .ok false, n + 1) := by
  have hrun : requirePlainDirectory work entry.name sight n =
      (plainDirectory work entry.name ((sight n).tasks work), n + 1) := run_give
  have hcapture : capture (requirePlainDirectory work entry.name) sight n =
      (.ok (plainDirectory work entry.name ((sight n).tasks work)), n + 1) := by
    unfold capture
    rw [hrun]
  unfold isTaskDirectory
  rw [run_bind, hcapture]
  cases plainDirectory work entry.name ((sight n).tasks work) with
  | ok => rfl
  | error e =>
    by_cases hdir : entry.isDir
    · dsimp only
      rw [if_pos hdir, if_pos hdir]
      rfl
    · dsimp only
      rw [if_neg hdir, if_neg hdir]
      rfl

theorem optionalPlainFileStamp_ok {path : String} {maxBytes : Nat} {file : Option File}
    {stamp : Option PlainFileStamp} (h : optionalPlainFileStamp path maxBytes file = .ok stamp) :
    file.map File.stamp = stamp := by
  unfold optionalPlainFileStamp at h
  split at h
  · exact Except.ok.inj h
  · split at h
    · cases h
    · exact Except.ok.inj h

/-- A listed name is that of one entry. -/
theorem plainDirectory_of_mem {world : World} {entries : List Entry} {entry : Entry}
    (htasks : world.tasks work = some entries) (hmem : entry ∈ entries) :
    plainDirectory work entry.name (world.tasks work) = if entry.isDir then .ok () else
      .error ⟨.invalidData,
        s!"control-plane path is not a plain directory: {work}/tasks/{entry.name}"⟩ := by
  have hfind : entries.find? (·.name = entry.name) = some entry := by
    cases hfind : entries.find? (·.name = entry.name) with
    | none =>
      have hnone := List.find?_eq_none.1 hfind _ hmem
      simp at hnone
    | some found =>
      have hname : found.name = entry.name := by simpa using List.find?_some hfind
      rw [List.inj_on_of_nodup_map (world.distinct work entries htasks)
        (List.mem_of_find?_eq_some hfind) hmem hname]
  unfold plainDirectory
  rw [htasks, Option.getD_some, hfind]

/-- A directory that holds a task file is a plain one. -/
theorem plainDirectory_of_within {world : World} {name : String}
    (h : world.file work (.task name) ≠ none) :
    plainDirectory work name (world.tasks work) = .ok () := by
  obtain ⟨entries, htasks, hmem⟩ := world.within work name h
  exact plainDirectory_of_mem htasks hmem

theorem patient_stampOf : Patient (stampOf work place) := fun _ n => by
  rw [run_stampOf]
  exact n.le_succ

theorem patient_textOf : Patient (textOf work place) := fun _ n => by
  rw [run_textOf]
  exact n.le_succ

theorem patient_plainDirectoryEntries : Patient (plainDirectoryEntries work) := fun _ n => by
  rw [run_plainDirectoryEntries]
  exact n.le_succ

theorem patient_isTaskDirectory {entry : Entry} : Patient (isTaskDirectory work entry) :=
  fun _ n => by
    rw [run_isTaskDirectory]
    exact n.le_succ

theorem till_stampOf : Till sight last (stampOf work place) n (Saw sight n last work place) := by
  unfold Till Sees
  rw [run_stampOf]
  intro hlast stamp hstamp
  exact ⟨n, le_rfl, hlast, optionalPlainFileStamp_ok hstamp⟩

/-- An entry is passed over only while its task file is absent. -/
theorem till_isTaskDirectory {entry : Entry} : Till sight last (isTaskDirectory work entry) n
    fun isTask => isTask = false →
      ∃ i, n ≤ i ∧ i < last ∧ (sight i).file work (.task entry.name) = none := by
  unfold Till Sees
  rw [run_isTaskDirectory]
  intro hlast isTask hrun hfalse
  refine ⟨n, le_rfl, hlast, ?_⟩
  by_contra hfile
  rw [plainDirectory_of_within hfile] at hrun
  subst hfalse
  cases hrun

theorem patient_stampTasks (entries : List Entry) : Patient (stampTasks work entries) := by
  induction entries with
  | nil => exact patient_pure
  | cons entry entries ih =>
    refine patient_bind patient_isTaskDirectory fun isTask => ?_
    split
    · exact patient_bind patient_stampOf fun _ => patient_bind ih fun _ => patient_pure
    · exact ih

theorem till_stampTasks (entries : List Entry) : Till sight last (stampTasks work entries) n
    fun stamps => (∀ e ∈ stamps, Saw sight n last work (.task e.1) e.2) ∧
      ∀ entry ∈ entries, (∀ e ∈ stamps, e.1 ≠ entry.name) →
        Saw sight n last work (.task entry.name) none := by
  induction entries generalizing n with
  | nil =>
    exact till_pure ⟨fun _ he => absurd he List.not_mem_nil,
      fun _ he => absurd he List.not_mem_nil⟩
  | cons entry entries ih =>
    refine till_bind patient_isTaskDirectory (fun isTask => ?_) till_isTaskDirectory ?_
    · split
      · exact patient_bind patient_stampOf fun _ =>
          patient_bind (patient_stampTasks entries) fun _ => patient_pure
      · exact patient_stampTasks entries
    · intro isTask m hnm _ hskipped
      cases isTask with
      | true =>
        refine till_bind patient_stampOf (fun _ => patient_bind (patient_stampTasks entries)
          fun _ => patient_pure) till_stampOf ?_
        intro stamp m' hm' _ hstamp
        refine till_bind (patient_stampTasks entries) (fun _ => patient_pure) ih ?_
        rintro stamps m'' hm'' _ ⟨hstamps, hrest⟩
        refine till_pure ⟨?_, ?_⟩
        · rintro e he
          rcases List.mem_cons.1 he with rfl | he
          · exact hstamp.mono hnm
          · exact (hstamps e he).mono (hnm.trans hm')
        · intro other hother hnone
          rcases List.mem_cons.1 hother with rfl | hother
          · exact absurd rfl (hnone _ List.mem_cons_self)
          · exact (hrest other hother fun e he => hnone e (List.mem_cons_of_mem _ he)).mono
              (hnm.trans hm')
      | false =>
        obtain ⟨i, hi, hlast, habsent⟩ := hskipped rfl
        refine (ih (n := m)).mono fun r m' h hm' a ha => ?_
        obtain ⟨hstamps, hrest⟩ := h hm' a ha
        refine ⟨fun e he => (hstamps e he).mono hnm, fun other hother hnone => ?_⟩
        rcases List.mem_cons.1 hother with rfl | hother
        · exact ⟨i, hi, hlast, by rw [habsent]; rfl⟩
        · exact (hrest other hother hnone).mono hnm

/-- The stamp that is recorded for a place. -/
def SnapshotInputStamp.of (stamp : SnapshotInputStamp) : Place → Option PlainFileStamp
  | .queue => stamp.queue
  | .cohort => stamp.cohort
  | .integration => stamp.integration
  | .batch => stamp.batch
  | .task name => (stamp.descriptors.lookup name).join

theorem boundedEntries_ok {tasks found : Option (List Entry)}
    (h : boundedEntries work tasks = .ok found) : found = tasks := by
  unfold boundedEntries at h
  split at h
  · exact (Except.ok.inj h).symm
  · split at h
    · cases h
    · exact (Except.ok.inj h).symm

/-- What a listing looks at. -/
theorem till_plainDirectoryEntries : Till sight last (plainDirectoryEntries work) n
    fun found => n < last ∧ found = (sight n).tasks work ∧
      boundedEntries work ((sight n).tasks work) = .ok ((sight n).tasks work) := by
  unfold Till Sees
  rw [run_plainDirectoryEntries]
  intro hlast found hfound
  have heq := boundedEntries_ok hfound
  exact ⟨hlast, heq, heq ▸ hfound⟩

theorem patient_stampDescriptors : Patient (stampDescriptors work) := by
  refine patient_bind patient_plainDirectoryEntries fun found => ?_
  split
  · exact patient_pure
  · exact patient_bind (patient_stampTasks _) fun _ => patient_pure

/-- The name of a task file that is there is listed. -/
theorem listed_of_within {world : World} {name : String} {entries : List Entry}
    (h : world.file work (.task name) ≠ none) (htasks : world.tasks work = some entries) :
    ⟨name, true⟩ ∈ entries := by
  obtain ⟨entries', htasks', hmem⟩ := world.within work name h
  rw [htasks'] at htasks
  cases htasks
  exact hmem

theorem till_stampDescriptors : Till sight last (stampDescriptors work) n fun stamps =>
    n < last ∧ boundedEntries work ((sight n).tasks work) = .ok ((sight n).tasks work) ∧
      ∀ name, Saw sight n last work (.task name) (stamps.lookup name).join := by
  refine till_bind patient_plainDirectoryEntries (fun found => ?_) till_plainDirectoryEntries ?_
  · split
    · exact patient_pure
    · exact patient_bind (patient_stampTasks _) fun _ => patient_pure
  rintro found m hnm _ ⟨hlast, hfound, hbounded⟩
  split
  · rename_i hnone
    refine till_pure ⟨hlast, hbounded, fun name => ⟨n, le_rfl, hlast, ?_⟩⟩
    rw [List.lookup_nil, Option.join_none, Option.map_eq_none_iff]
    by_contra hfile
    obtain ⟨entries, htasks, -⟩ := (sight n).within work name hfile
    rw [htasks] at hfound
    cases hfound
  · rename_i entries
    refine till_bind (patient_stampTasks _) (fun _ => patient_pure) (till_stampTasks entries) ?_
    rintro stamps m' hm' _ ⟨hstamps, hskipped⟩
    refine till_pure ⟨hlast, hbounded, fun name => ?_⟩
    have hmem : ∀ e, e ∈ stamps.insertionSort (fun left right => left.1 ≤ right.1) ↔ e ∈ stamps :=
      fun e => List.mem_insertionSort _
    cases hlookup : (stamps.insertionSort fun left right => left.1 ≤ right.1).lookup name with
    | some stamp =>
      obtain ⟨front, behind, hsplit, -⟩ := List.lookup_eq_some_iff.1 hlookup
      have hin : (name, stamp) ∈ stamps := by
        rw [← hmem, hsplit]
        exact List.mem_append_right _ List.mem_cons_self
      exact (hstamps _ hin).mono hnm
    | none =>
      have hnone : ∀ e ∈ stamps, e.1 ≠ name := by
        intro e he heq
        have hne := List.lookup_eq_none_iff.1 hlookup e ((hmem e).2 he)
        simp [heq] at hne
      by_cases hfile : (sight n).file work (.task name) = none
      · exact ⟨n, le_rfl, hlast, by rw [hfile]; rfl⟩
      · have hlisted := listed_of_within hfile hfound.symm
        exact (hskipped _ hlisted hnone).mono hnm

theorem patient_snapshotInputStamp : Patient (snapshotInputStamp work) :=
  patient_bind patient_stampDescriptors fun _ => patient_bind patient_stampOf fun _ =>
    patient_bind patient_stampOf fun _ => patient_bind patient_stampOf fun _ =>
      patient_bind patient_stampOf fun _ => patient_pure

/-- What the stamps of a load say: the listing was no longer than it may be, and every place had its
stamp at some look. -/
structure Stamped (sight : Nat → World) (n last : Nat) (work : String)
    (stamp : SnapshotInputStamp) : Prop where
  workDir : stamp.work = work
  looked : n < last
  bounded : boundedEntries work ((sight n).tasks work) = .ok ((sight n).tasks work)
  saw : ∀ place, Saw sight n last work place (stamp.of place)

theorem till_snapshotInputStamp :
    Till sight last (snapshotInputStamp work) n (Stamped sight n last work) := by
  refine till_bind patient_stampDescriptors (fun _ => patient_bind patient_stampOf fun _ =>
    patient_bind patient_stampOf fun _ => patient_bind patient_stampOf fun _ =>
      patient_bind patient_stampOf fun _ => patient_pure) till_stampDescriptors ?_
  rintro descriptors m hm _ ⟨hlast, hbounded, htasks⟩
  refine till_bind patient_stampOf (fun _ => patient_bind patient_stampOf fun _ =>
    patient_bind patient_stampOf fun _ => patient_bind patient_stampOf fun _ => patient_pure)
    till_stampOf ?_
  intro queue m₁ hm₁ _ hqueue
  refine till_bind patient_stampOf (fun _ => patient_bind patient_stampOf fun _ =>
    patient_bind patient_stampOf fun _ => patient_pure) till_stampOf ?_
  intro cohort m₂ hm₂ _ hcohort
  refine till_bind patient_stampOf (fun _ => patient_bind patient_stampOf fun _ => patient_pure)
    till_stampOf ?_
  intro integration m₃ hm₃ _ hintegration
  refine till_bind patient_stampOf (fun _ => patient_pure) till_stampOf ?_
  intro batch m₄ hm₄ _ hbatch
  refine till_pure ⟨rfl, hlast, hbounded, fun place => ?_⟩
  cases place with
  | queue => exact hqueue.mono hm
  | cohort => exact hcohort.mono (hm.trans hm₁)
  | integration => exact hintegration.mono (hm.trans (hm₁.trans hm₂))
  | batch => exact hbatch.mono (hm.trans (hm₁.trans (hm₂.trans hm₃)))
  | task name => exact htasks name

end Probes

/-! ## What a read sees -/

/-- The text of a file. -/
def shown (file : Option File) : Option String := file.bind fun file => fromUtf8 file.bytes

theorem readOptionalText_ok {path : String} {maxBytes : Nat} {file : Option File}
    {text : Option String} (h : readOptionalText path maxBytes file = .ok text) :
    text = shown file := by
  unfold readOptionalText at h
  split at h
  · exact (Except.ok.inj h).symm
  · split at h
    · cases h
    · split at h
      · cases h
      · rename_i htext
        rw [← Except.ok.inj h]
        exact htext.symm

section Reads

variable {κ δ γ ι β : Type} {parsers : Parsers κ δ γ ι β} {work : String} {sight : Nat → World}
  {n last : Nat} {files : Place → Option File}

/-- The descriptors of some files: those of the task directories, in the order of their names. -/
def Described (parsers : Parsers κ δ γ ι β) (files : Place → Option File)
    (descriptors : List δ) : Prop :=
  ∃ names : List String, names.Nodup ∧ names.Pairwise (· ≤ ·) ∧
    (∀ name, files (.task name) ≠ none → name ∈ names) ∧
    descriptors = names.filterMap fun name =>
      (shown (files (.task name))).map (parsers.descriptor name)

/-- What an uncached load makes of files that it can read. -/
structure View (parsers : Parsers κ δ γ ι β) (work : String) (files : Place → Option File)
    (snapshot : Snapshot κ δ γ ι β) : Prop where
  readable : ∀ place : Place, readOptionalText (place.path work) maxControlBytes (files place) =
    .ok (shown (files place))
  workDir : snapshot.workDir = work
  queue : snapshot.queue = ((shown (files .queue)).map parsers.queue).getD []
  descriptors : Described parsers files snapshot.descriptors
  cohort : snapshot.cohort = (shown (files .cohort)).map parsers.cohort
  integration : snapshot.integration =
    ((shown (files .integration)).map parsers.integration).getD parsers.noIntegration
  batch : snapshot.batch = (shown (files .batch)).map parsers.batch

/-- Files have one list of descriptors. -/
theorem Described.unique {a b : List δ} (ha : Described parsers files a)
    (hb : Described parsers files b) : a = b := by
  obtain ⟨names, hnodup, hsorted, hall, rfl⟩ := ha
  obtain ⟨names', hnodup', hsorted', hall', rfl⟩ := hb
  -- only the directories with a file count
  have hkept : ∀ l : List String, l.filterMap (fun name =>
        (shown (files (.task name))).map (parsers.descriptor name)) =
      (l.filter fun name => (files (.task name)).isSome).filterMap fun name =>
        (shown (files (.task name))).map (parsers.descriptor name) := by
    intro l
    rw [List.filterMap_filter]
    refine List.filterMap_congr fun name _ => ?_
    cases hfile : files (.task name) with
    | none => rfl
    | some file => rfl
  rw [hkept names, hkept names']
  congr 1
  refine List.Perm.eq_of_pairwise' (r := (· ≤ ·)) (hsorted.filter _) (hsorted'.filter _) ?_
  rw [List.perm_ext_iff_of_nodup (hnodup.filter _) (hnodup'.filter _)]
  intro name
  rw [List.mem_filter, List.mem_filter, Option.isSome_iff_ne_none]
  exact ⟨fun h => ⟨hall' name h.2, h.2⟩, fun h => ⟨hall name h.2, h.2⟩⟩

theorem View.unique {a b : Snapshot κ δ γ ι β} (ha : View parsers work files a)
    (hb : View parsers work files b) : a = b := by
  obtain ⟨-, hw, hq, hd, hc, hi, hbatch⟩ := ha
  obtain ⟨-, hw', hq', hd', hc', hi', hbatch'⟩ := hb
  cases a
  cases b
  simp only [Snapshot.mk.injEq]
  exact ⟨hw.trans hw'.symm, hq.trans hq'.symm, hd.unique hd', hc.trans hc'.symm, hi.trans hi'.symm,
    hbatch.trans hbatch'.symm⟩

/-- The files stand still from one look to another. -/
def Steady (sight : Nat → World) (n last : Nat) (work : String) (files : Place → Option File) :
    Prop := ∀ i, n ≤ i → i < last → (sight i).file work = files

theorem Steady.mono {n' : Nat} (h : Steady sight n last work files) (hn : n ≤ n') :
    Steady sight n' last work files := fun i hi => h i (hn.trans hi)

theorem till_textOf {place : Place} (h : Steady sight n last work files) :
    Till sight last (textOf work place) n fun text => text = shown (files place) ∧
      readOptionalText (place.path work) maxControlBytes (files place) =
        .ok (shown (files place)) := by
  unfold Till Sees
  rw [run_textOf]
  intro hlast text htext
  rw [h n le_rfl hlast] at htext
  have heq := readOptionalText_ok htext
  exact ⟨heq, heq ▸ htext⟩

theorem patient_readTasks (names : List String) : Patient (readTasks parsers work names) := by
  induction names with
  | nil => exact patient_pure
  | cons name names ih =>
    exact patient_bind patient_textOf fun _ => patient_bind ih fun _ => patient_pure

theorem till_readTasks (names : List String) (h : Steady sight n last work files) :
    Till sight last (readTasks parsers work names) n fun descriptors =>
      (descriptors = names.filterMap fun name =>
        (shown (files (.task name))).map (parsers.descriptor name)) ∧
      ∀ name ∈ names, readOptionalText ((Place.task name).path work) maxControlBytes
        (files (.task name)) = .ok (shown (files (.task name))) := by
  induction names generalizing n with
  | nil => exact till_pure ⟨rfl, fun _ hname => absurd hname List.not_mem_nil⟩
  | cons name names ih =>
    refine till_bind patient_textOf (fun _ => patient_bind (patient_readTasks names)
      fun _ => patient_pure) (till_textOf h) ?_
    rintro text m hm _ ⟨htext, hreadable⟩
    refine till_bind (patient_readTasks names) (fun _ => patient_pure) (ih (h.mono hm)) ?_
    rintro descriptors m' _ _ ⟨hdescriptors, hrest⟩
    refine till_pure ⟨?_, ?_⟩
    · rw [htext, hdescriptors, List.filterMap_cons]
      cases (shown (files (.task name))).map (parsers.descriptor name) <;> rfl
    · intro other hother
      rcases List.mem_cons.1 hother with rfl | hother
      · exact hreadable
      · exact hrest other hother

theorem patient_taskDirectories (entries : List Entry) :
    Patient (taskDirectories work entries) := by
  induction entries with
  | nil => exact patient_pure
  | cons entry entries ih =>
    exact patient_bind patient_isTaskDirectory fun _ => patient_bind ih fun _ => patient_pure

/-- The names are some of the listed ones, and a listed name is left out only while its task file is
absent. -/
theorem till_taskDirectories (entries : List Entry) :
    Till sight last (taskDirectories work entries) n fun names =>
      names.Sublist (entries.map (·.name)) ∧ ∀ entry ∈ entries, entry.name ∉ names →
        ∃ i, n ≤ i ∧ i < last ∧ (sight i).file work (.task entry.name) = none := by
  induction entries generalizing n with
  | nil => exact till_pure ⟨List.Sublist.refl _, fun _ hentry => absurd hentry List.not_mem_nil⟩
  | cons entry entries ih =>
    refine till_bind patient_isTaskDirectory (fun _ => patient_bind (patient_taskDirectories _)
      fun _ => patient_pure) till_isTaskDirectory ?_
    intro isTask m hm _ hskipped
    refine till_bind (patient_taskDirectories _) (fun _ => patient_pure) ih ?_
    rintro names m' hm' _ ⟨hsublist, hrest⟩
    refine till_pure ?_
    cases isTask with
    | true =>
      refine ⟨hsublist.cons_cons _, fun other hother hnot => ?_⟩
      rw [if_pos rfl, List.mem_cons, not_or] at hnot
      rcases List.mem_cons.1 hother with rfl | hother
      · exact absurd rfl hnot.1
      · obtain ⟨i, hi, hlast, habsent⟩ := hrest other hother hnot.2
        exact ⟨i, hm.trans hi, hlast, habsent⟩
    | false =>
      obtain ⟨i, hi, hlast, habsent⟩ := hskipped rfl
      refine ⟨hsublist.cons _, fun other hother hnot => ?_⟩
      rcases List.mem_cons.1 hother with rfl | hother
      · exact ⟨i, hi, hlast, habsent⟩
      · obtain ⟨j, hj, hlast', habsent'⟩ := hrest other hother hnot
        exact ⟨j, hm.trans hj, hlast', habsent'⟩

theorem patient_tryLoadDescriptors : Patient (tryLoadDescriptors parsers work) := by
  refine patient_bind patient_plainDirectoryEntries fun found => ?_
  split
  · exact patient_pure
  · exact patient_bind (patient_taskDirectories _) fun _ => patient_readTasks _

theorem till_tryLoadDescriptors (h : Steady sight n last work files) :
    Till sight last (tryLoadDescriptors parsers work) n fun descriptors =>
      Described parsers files descriptors ∧ ∀ name, readOptionalText ((Place.task name).path work)
        maxControlBytes (files (.task name)) = .ok (shown (files (.task name))) := by
  have hreadable : ∀ {path : String} {file : Option File}, file = none →
      readOptionalText path maxControlBytes file = .ok (shown file) := by
    rintro path file rfl
    rfl
  refine till_bind patient_plainDirectoryEntries (fun found => ?_) till_plainDirectoryEntries ?_
  · split
    · exact patient_pure
    · exact patient_bind (patient_taskDirectories _) fun _ => patient_readTasks _
  rintro found m hm _ ⟨hlast, hfound, -⟩
  have hfiles := h n le_rfl hlast
  split
  · have hnone : ∀ name, files (.task name) = none := by
      intro name
      by_contra hfile
      rw [← hfiles] at hfile
      obtain ⟨entries, htasks, -⟩ := (sight n).within work name hfile
      rw [htasks] at hfound
      cases hfound
    exact till_pure ⟨⟨[], List.nodup_nil, List.Pairwise.nil,
      fun name hname => absurd (hnone name) hname, rfl⟩, fun name => hreadable (hnone name)⟩
  · rename_i entries
    refine till_bind (patient_taskDirectories _) (fun _ => patient_readTasks _)
      (till_taskDirectories entries) ?_
    rintro names m' hm' _ ⟨hsublist, hskipped⟩
    have hall : ∀ name, files (.task name) ≠ none → name ∈ names := by
      intro name hfile
      by_contra hnot
      have hlisted := listed_of_within (hfiles ▸ hfile) hfound.symm
      obtain ⟨i, hi, hlast', habsent⟩ := hskipped _ hlisted hnot
      rw [h i (hm.trans hi) hlast'] at habsent
      exact hfile habsent
    have hmem : ∀ name, name ∈ names.insertionSort (· ≤ ·) ↔ name ∈ names := fun name =>
      List.mem_insertionSort _
    refine (till_readTasks _ (h.mono (hm.trans hm'))).mono fun r m'' hrun hlast'' a ha => ?_
    obtain ⟨hdescriptors, hread⟩ := hrun hlast'' a ha
    refine ⟨⟨_, ?_, List.pairwise_insertionSort _ _,
      fun name hname => (hmem name).2 (hall name hname), hdescriptors⟩, fun name => ?_⟩
    · exact (List.perm_insertionSort _ _).nodup_iff.2
        (hsublist.nodup ((sight n).distinct work entries hfound.symm))
    · by_cases hfile : files (.task name) = none
      · exact hreadable hfile
      · exact hread name ((hmem name).2 (hall name hfile))

theorem patient_tryLoad : Patient (Snapshot.tryLoad parsers work) :=
  patient_bind patient_textOf fun _ => patient_bind patient_tryLoadDescriptors fun _ =>
    patient_bind patient_textOf fun _ => patient_bind patient_textOf fun _ =>
      patient_bind patient_textOf fun _ => patient_pure

/-- **A load of files that stand still** shows them. -/
theorem till_tryLoad (h : Steady sight n last work files) :
    Till sight last (Snapshot.tryLoad parsers work) n (View parsers work files) := by
  refine till_bind patient_textOf (fun _ => patient_bind patient_tryLoadDescriptors fun _ =>
    patient_bind patient_textOf fun _ => patient_bind patient_textOf fun _ =>
      patient_bind patient_textOf fun _ => patient_pure) (till_textOf h) ?_
  rintro queue m hm _ ⟨hqueue, hqueueRead⟩
  refine till_bind patient_tryLoadDescriptors (fun _ => patient_bind patient_textOf fun _ =>
    patient_bind patient_textOf fun _ => patient_bind patient_textOf fun _ => patient_pure)
    (till_tryLoadDescriptors (h.mono hm)) ?_
  rintro descriptors m₁ hm₁ _ ⟨hdescriptors, htasksRead⟩
  have h₁ := h.mono (hm.trans hm₁)
  refine till_bind patient_textOf (fun _ => patient_bind patient_textOf fun _ =>
    patient_bind patient_textOf fun _ => patient_pure) (till_textOf h₁) ?_
  rintro cohort m₂ hm₂ _ ⟨hcohort, hcohortRead⟩
  refine till_bind patient_textOf (fun _ => patient_bind patient_textOf fun _ => patient_pure)
    (till_textOf (h₁.mono hm₂)) ?_
  rintro integration m₃ hm₃ _ ⟨hintegration, hintegrationRead⟩
  refine till_bind patient_textOf (fun _ => patient_pure)
    (till_textOf (h₁.mono (hm₂.trans hm₃))) ?_
  rintro batch m₄ _ _ ⟨hbatch, hbatchRead⟩
  subst hqueue hcohort hintegration hbatch
  refine till_pure ⟨fun place => ?_, rfl, rfl, hdescriptors, rfl, rfl, rfl⟩
  cases place with
  | queue => exact hqueueRead
  | cohort => exact hcohortRead
  | integration => exact hintegrationRead
  | batch => exact hbatchRead
  | task name => exact htasksRead name

/-! ## The uncached load -/

/-- What the uncached load returns for one state of the files. -/
def Uncached (parsers : Parsers κ δ γ ι β) (work : String) (world : World)
    (snapshot : Snapshot κ δ γ ι β) : Prop :=
  (Snapshot.load parsers work (fun _ => world) 0).1 = .ok snapshot

theorem run_load : Snapshot.load parsers work sight n =
    (.ok (Snapshot.orEmpty parsers work (Snapshot.tryLoad parsers work sight n).1),
      (Snapshot.tryLoad parsers work sight n).2) := rfl

theorem near_textOf {place : Place} : Near (textOf work place) :=
  near_bind patient_look (fun _ => patient_give) near_look fun _ => near_give

theorem near_isTaskDirectory {entry : Entry} : Near (isTaskDirectory work entry) := by
  have hrequire : Near (requirePlainDirectory work entry.name) :=
    near_bind patient_look (fun _ => patient_give) near_look fun _ => near_give
  have hpatient : Patient (requirePlainDirectory work entry.name) :=
    patient_bind patient_look fun _ => patient_give
  refine near_bind (patient_capture hpatient) (fun r => ?_) (near_capture hrequire) fun r => ?_
  · split
    · exact patient_pure
    · split
      · exact patient_throw
      · exact patient_pure
  · split
    · exact near_pure
    · split
      · exact near_throw
      · exact near_pure

theorem near_taskDirectories (entries : List Entry) : Near (taskDirectories work entries) := by
  induction entries with
  | nil => exact near_pure
  | cons entry entries ih =>
    exact near_bind patient_isTaskDirectory (fun _ => patient_bind (patient_taskDirectories _)
      fun _ => patient_pure) near_isTaskDirectory fun _ =>
        near_bind (patient_taskDirectories _) (fun _ => patient_pure) ih fun _ => near_pure

theorem near_readTasks (names : List String) : Near (readTasks parsers work names) := by
  induction names with
  | nil => exact near_pure
  | cons name names ih =>
    exact near_bind patient_textOf (fun _ => patient_bind (patient_readTasks _)
      fun _ => patient_pure) near_textOf fun _ =>
        near_bind (patient_readTasks _) (fun _ => patient_pure) ih fun _ => near_pure

theorem near_tryLoadDescriptors : Near (tryLoadDescriptors parsers work) := by
  have hentries : Near (plainDirectoryEntries work) :=
    near_bind patient_look (fun _ => patient_give) near_look fun _ => near_give
  refine near_bind patient_plainDirectoryEntries (fun found => ?_) hentries fun found => ?_
  · split
    · exact patient_pure
    · exact patient_bind (patient_taskDirectories _) fun _ => patient_readTasks _
  · split
    · exact near_pure
    · exact near_bind (patient_taskDirectories _) (fun _ => patient_readTasks _)
        (near_taskDirectories _) fun _ => near_readTasks _

theorem near_tryLoad : Near (Snapshot.tryLoad parsers work) :=
  near_bind patient_textOf (fun _ => patient_bind patient_tryLoadDescriptors fun _ =>
    patient_bind patient_textOf fun _ => patient_bind patient_textOf fun _ =>
      patient_bind patient_textOf fun _ => patient_pure) near_textOf fun _ =>
  near_bind patient_tryLoadDescriptors (fun _ => patient_bind patient_textOf fun _ =>
    patient_bind patient_textOf fun _ => patient_bind patient_textOf fun _ => patient_pure)
    near_tryLoadDescriptors fun _ =>
  near_bind patient_textOf (fun _ => patient_bind patient_textOf fun _ =>
    patient_bind patient_textOf fun _ => patient_pure) near_textOf fun _ =>
  near_bind patient_textOf (fun _ => patient_bind patient_textOf fun _ => patient_pure)
    near_textOf fun _ =>
  near_bind patient_textOf (fun _ => patient_pure) near_textOf fun _ => near_pure

/-- A load that sees one state of the files returns what the uncached load does. -/
theorem uncached_of_still {world : World}
    (h : ∀ i, n ≤ i → i < (Snapshot.tryLoad parsers work sight n).2 → sight i = world) :
    Uncached parsers work world
      (Snapshot.orEmpty parsers work (Snapshot.tryLoad parsers work sight n).1) := by
  unfold Uncached
  rw [run_load, near_tryLoad sight world n h 0]

section Readable

variable {world : World} (hread : ∀ place : Place, readOptionalText (place.path work)
  maxControlBytes (world.file work place) = .ok (shown (world.file work place)))

include hread

theorem yields_textOf {place : Place} :
    Yields (fun _ => world) (textOf work place) fun _ => True := by
  intro n
  unfold Sees
  rw [run_textOf]
  exact ⟨_, hread place, trivial⟩

theorem yields_readTasks (names : List String) :
    Yields (fun _ => world) (readTasks parsers work names) fun _ => True := by
  induction names with
  | nil => exact yields_pure trivial
  | cons name names ih =>
    exact yields_bind (yields_textOf hread) fun _ _ =>
      yields_bind ih fun _ _ => yields_pure trivial

omit hread in
theorem yields_taskDirectories {entries : List Entry} (htasks : world.tasks work = some entries)
    {chosen : List Entry} (h : ∀ entry ∈ chosen, entry ∈ entries) :
    Yields (fun _ => world) (taskDirectories work chosen) fun _ => True := by
  induction chosen with
  | nil => exact yields_pure trivial
  | cons entry rest ih =>
    have hentry : Yields (fun _ => world) (isTaskDirectory work entry) fun _ => True := by
      intro n
      unfold Sees
      rw [run_isTaskDirectory, plainDirectory_of_mem htasks (h entry List.mem_cons_self)]
      cases entry.isDir with
      | true => exact ⟨true, rfl, trivial⟩
      | false => exact ⟨false, rfl, trivial⟩
    exact yields_bind hentry fun _ _ =>
      yields_bind (ih fun other hother => h other (List.mem_cons_of_mem _ hother)) fun _ _ =>
        yields_pure trivial

theorem yields_tryLoad
    (hbounded : boundedEntries work (world.tasks work) = .ok (world.tasks work)) :
    Yields (fun _ => world) (Snapshot.tryLoad parsers work) fun _ => True := by
  have hentries : Yields (fun _ => world) (plainDirectoryEntries work)
      fun found => found = world.tasks work := by
    intro n
    unfold Sees
    rw [run_plainDirectoryEntries]
    exact ⟨_, hbounded, rfl⟩
  have hdescriptors : Yields (fun _ => world) (tryLoadDescriptors parsers work)
      fun _ => True := by
    refine yields_bind hentries fun found hfound => ?_
    split
    · exact yields_pure trivial
    · exact yields_bind (yields_taskDirectories hfound.symm fun _ h => h) fun _ _ =>
        yields_readTasks hread _
  exact yields_bind (yields_textOf hread) fun _ _ => yields_bind hdescriptors fun _ _ =>
    yields_bind (yields_textOf hread) fun _ _ => yields_bind (yields_textOf hread) fun _ _ =>
      yields_bind (yields_textOf hread) fun _ _ => yields_pure trivial

end Readable

/-- What shows the files of a state is what the uncached load returns for it. -/
theorem uncached_of_view {world : World} {snapshot : Snapshot κ δ γ ι β}
    (hbounded : boundedEntries work (world.tasks work) = .ok (world.tasks work))
    (h : View parsers work (world.file work) snapshot) : Uncached parsers work world snapshot := by
  have hyields : Yields (fun _ => world) (Snapshot.tryLoad parsers work) fun _ => True :=
    yields_tryLoad h.readable hbounded
  obtain ⟨found, hfound, -⟩ := hyields 0
  have hsteady : Steady (fun _ => world) 0
      (Snapshot.tryLoad parsers work (fun _ => world) 0).2 work (world.file work) :=
    fun _ _ _ => rfl
  have hview : View parsers work (world.file work) found :=
    till_tryLoad hsteady le_rfl found hfound
  unfold Uncached
  rw [run_load, hfound, h.unique hview]
  rfl

end Reads

end Orchestrail.Observer
