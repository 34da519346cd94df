import Orchestrail.Proof.SnapshotCache

/-!
# The caches of observers

The cache of one file goes the way of the cache of snapshots, with one probe where that one has
many. `observer_caches` is about the runs of both.
-/

namespace Orchestrail.Observer

open Text Watch

/-! ## Loads of one file -/

section FileLoads

variable {τ : Type} (parse : Option String → τ) (sight : Nat → String → Option File)

inductive FileCall where
  | load (path : String) (maxBytes : Nat)
  | invalidate

/-- A load of one file in a run. -/
structure FileVisit (τ : Type) where
  path : String
  maxBytes : Nat
  start : Nat
  cache : PlainFileCache τ
  value : Io τ
  finish : Nat

/-- The loads of a run; a missing value is an error here. -/
def fileVisits : List FileCall → PlainFileCache τ → Nat → List (FileVisit τ)
  | [], _, _ => []
  | .invalidate :: calls, _, n => fileVisits calls {} n
  | .load path maxBytes :: calls, cache, n =>
    match cache.loadWith parse path maxBytes sight n with
    | (.ok (value, after), finish) =>
      ⟨path, maxBytes, n, cache, value, finish⟩ :: fileVisits calls after finish
    | (.error error, finish) =>
      ⟨path, maxBytes, n, cache, .error error, finish⟩ :: fileVisits calls {} finish

/-- The uncached way: read and parse. -/
def uncachedFile (path : String) (maxBytes : Nat) (files : String → Option File) : Io τ :=
  (readOptionalText path maxBytes (files path)).map parse

/-- The ways a load of a cache with a value goes. -/
inductive FileLoads (cache : PlainFileCache τ) (path : String) (maxBytes n : Nat) :
    Io τ → PlainFileCache τ → Nat → Prop
  | unstamped {error : IoError}
      (hstamp : optionalPlainFileStamp path maxBytes (sight n path) = .error error) :
      FileLoads cache path maxBytes n (.error error) {} (n + 1)
  | hit {before : Option PlainFileStamp} {value : τ}
      (hstamp : optionalPlainFileStamp path maxBytes (sight n path) = .ok before)
      (hkey : cache.key = some (path, before)) (hvalue : cache.value = some value) :
      FileLoads cache path maxBytes n (.ok value) cache (n + 1)
  | unread {before : Option PlainFileStamp} {error : IoError}
      (hstamp : optionalPlainFileStamp path maxBytes (sight n path) = .ok before)
      (hkey : cache.key ≠ some (path, before))
      (hread : readOptionalText path maxBytes (sight (n + 1) path) = .error error) :
      FileLoads cache path maxBytes n (.error error) {} (n + 2)
  | lost {before : Option PlainFileStamp} {error : IoError}
      (hstamp : optionalPlainFileStamp path maxBytes (sight n path) = .ok before)
      (hkey : cache.key ≠ some (path, before))
      (hafter : optionalPlainFileStamp path maxBytes (sight (n + 2) path) = .error error) :
      FileLoads cache path maxBytes n (.error error) {} (n + 3)
  | parsed {before after : Option PlainFileStamp} {text : Option String}
      (hstamp : optionalPlainFileStamp path maxBytes (sight n path) = .ok before)
      (hkey : cache.key ≠ some (path, before))
      (hread : readOptionalText path maxBytes (sight (n + 1) path) = .ok text)
      (hafter : optionalPlainFileStamp path maxBytes (sight (n + 2) path) = .ok after) :
      FileLoads cache path maxBytes n (.ok (parse text))
        ⟨if after = before then some (path, after) else none, some (parse text)⟩ (n + 3)

theorem loadWith_loads {cache : PlainFileCache τ} {path : String} (maxBytes n : Nat)
    (h : ∀ stamp, cache.key = some (path, stamp) → cache.value.isSome) :
    ∃ value after finish,
      cache.loadWith parse path maxBytes sight n = (.ok (value, after), finish) ∧
        FileLoads parse sight cache path maxBytes n value after finish := by
  have hstampRun : ∀ k, capture (lookStamp path maxBytes) sight k =
      (.ok (optionalPlainFileStamp path maxBytes (sight k path)), k + 1) := by
    intro k
    have hrun : lookStamp path maxBytes sight k =
      (optionalPlainFileStamp path maxBytes (sight k path), k + 1) := run_give
    unfold capture
    rw [hrun]
  have hreadRun : ∀ k, capture (lookText path maxBytes) sight k =
      (.ok (readOptionalText path maxBytes (sight k path)), k + 1) := by
    intro k
    have hrun : lookText path maxBytes sight k =
      (readOptionalText path maxBytes (sight k path), k + 1) := run_give
    unfold capture
    rw [hrun]
  unfold PlainFileCache.loadWith
  rw [run_bind, hstampRun]
  cases hstamp : optionalPlainFileStamp path maxBytes (sight n path) with
  | error error => exact ⟨_, _, _, rfl, .unstamped hstamp⟩
  | ok before =>
    dsimp only
    by_cases hkey : cache.key = some (path, before)
    · rw [if_pos hkey]
      obtain ⟨value, hvalue⟩ := Option.isSome_iff_exists.1 (h before hkey)
      rw [hvalue]
      exact ⟨_, _, _, rfl, .hit hstamp hkey hvalue⟩
    · rw [if_neg hkey]
      unfold PlainFileCache.reload
      rw [run_bind, hreadRun]
      cases hread : readOptionalText path maxBytes (sight (n + 1) path) with
      | error error => exact ⟨_, _, _, rfl, .unread hstamp hkey hread⟩
      | ok text =>
        dsimp only
        rw [run_bind, hstampRun]
        cases hafter : optionalPlainFileStamp path maxBytes (sight (n + 2) path) with
        | error error => exact ⟨_, _, _, rfl, .lost hstamp hkey hafter⟩
        | ok after => exact ⟨_, _, _, rfl, .parsed hstamp hkey hread hafter⟩

variable {parse sight}

def FileVisit.Hit (sight : Nat → String → Option File) (visit : FileVisit τ) : Prop :=
  ∃ before, optionalPlainFileStamp visit.path visit.maxBytes (sight visit.start visit.path) =
    .ok before ∧ visit.cache.key = some (visit.path, before)

end FileLoads

section FileRuns

variable {τ : Type} (parse : Option String → τ) (history : Nat → String → Option File)
  (clock : Nat → Nat)

def seenFiles (i : Nat) : String → Option File := history (clock i)

/-- No writer touches the file from the first probe of a load that reads to the last one. -/
def FileVisit.Quiet (visit : FileVisit τ) : Prop :=
  ∀ u, clock visit.start ≤ u → u ≤ clock (visit.start + 2) →
    history u visit.path = history (clock visit.start) visit.path

structure FileVisit.Transparent (past : List (FileVisit τ)) (visit : FileVisit τ) : Prop where
  still : (∀ u, clock visit.start ≤ u → u ≤ clock (visit.finish - 1) →
      history u = history (clock visit.start)) →
    visit.value = uncachedFile parse visit.path visit.maxBytes (history (clock visit.start))
  instant : visit.Hit (seenFiles history clock) → ∃ u, clock visit.start ≤ u ∧
    u ≤ clock (visit.finish - 1) ∧
      visit.value = uncachedFile parse visit.path visit.maxBytes (history u)
  parsed : visit.Hit (seenFiles history clock) → ∃ front origin between,
    past = front ++ origin :: between ∧
      (∀ other ∈ between, other.Hit (seenFiles history clock)) ∧
      origin.path = visit.path ∧ origin.value = visit.value ∧
      ¬ origin.Hit (seenFiles history clock) ∧ origin.Quiet history clock

/-- While the load runs its file is not removed after it came. -/
def FileVisit.Undisturbed (visit : FileVisit τ) : Prop :=
  KeepsNew (fun u => history u visit.path) (clock visit.start) (clock (visit.finish - 1))

/-- What a cache holds under a key is what was parsed in quiet of the file as it was at one
instant. -/
structure SoundFile (past : List (FileVisit τ)) (cache : PlainFileCache τ) (n : Nat) : Prop where
  shows : ∀ path stamp, cache.key = some (path, stamp) → ∃ r ≤ clock n,
    (history r path).map File.stamp = stamp ∧
      (∀ file, history r path = some file → (fromUtf8 file.bytes).isSome) ∧
      cache.value = some (parse (shown (history r path)))
  parsed : ∀ path stamp value, cache.key = some (path, stamp) → cache.value = some value →
    ∃ front origin between, past = front ++ origin :: between ∧
      (∀ other ∈ between, other.Hit (seenFiles history clock)) ∧ origin.path = path ∧
      origin.value = .ok value ∧ ¬ origin.Hit (seenFiles history clock) ∧
      origin.Quiet history clock

variable {parse history clock}

theorem SoundFile.keyless {past : List (FileVisit τ)} {n : Nat} {value : Option τ} :
    SoundFile parse history clock past ⟨none, value⟩ n where
  shows _ _ h := nomatch h
  parsed _ _ _ h := nomatch h

theorem optionalPlainFileStamp_error {path : String} {maxBytes : Nat} {file : Option File}
    {error : IoError} (h : optionalPlainFileStamp path maxBytes file = .error error) :
    readOptionalText path maxBytes file = .error error := by
  unfold optionalPlainFileStamp at h
  split at h
  · cases h
  · split at h
    · rename_i hlen
      unfold readOptionalText
      dsimp only
      rw [if_pos hlen]
      exact congrArg Except.error (Except.error.inj h)
    · cases h

/-- A file with a stamp that is text can be read. -/
theorem readOptionalText_of_stamp {path : String} {maxBytes : Nat} {file : Option File}
    {stamp : Option PlainFileStamp} (h : optionalPlainFileStamp path maxBytes file = .ok stamp)
    (htext : ∀ file', file = some file' → (fromUtf8 file'.bytes).isSome) :
    readOptionalText path maxBytes file = .ok (shown file) := by
  unfold optionalPlainFileStamp at h
  split at h
  · rfl
  · rename_i file'
    split at h
    · cases h
    · rename_i hlen
      obtain ⟨text, hsome⟩ := Option.isSome_iff_exists.1 (htext file' rfl)
      unfold readOptionalText shown
      dsimp only
      rw [if_neg hlen, Option.bind_some, hsome]

theorem text_of_readOptionalText {path : String} {maxBytes : Nat} {file : Option File}
    {text : Option String} (h : readOptionalText path maxBytes file = .ok text) :
    ∀ file', file = some file' → (fromUtf8 file'.bytes).isSome := by
  rintro file' rfl
  cases hsome : fromUtf8 file'.bytes with
  | some text' => rfl
  | none =>
    unfold readOptionalText at h
    dsimp only at h
    rw [hsome] at h
    split at h <;> cases h

section FileStep

variable (hclock : Monotone clock) (hfresh : ∀ path, Fresh fun u => history u path)
  {past : List (FileVisit τ)} {visit : FileVisit τ}

include hclock hfresh

theorem file_hit_step (hsound : SoundFile parse history clock past visit.cache visit.start)
    {before : Option PlainFileStamp} {value : τ}
    (hstamp : optionalPlainFileStamp visit.path visit.maxBytes
      (history (clock visit.start) visit.path) = .ok before)
    (hkey : visit.cache.key = some (visit.path, before)) (hheld : visit.cache.value = some value)
    (hvalue : visit.value = .ok value) (hfinish : visit.finish = visit.start + 1) :
    visit.Transparent parse history clock past ∧
      SoundFile parse history clock (past ++ [visit]) visit.cache visit.finish := by
  obtain ⟨r, hr, hstamped, htext, hparsed⟩ := hsound.shows _ _ hkey
  -- one probe, so the stamp decides alone
  have hsame : history (clock visit.start) visit.path = history r visit.path := by
    have hnow := optionalPlainFileStamp_ok hstamp
    cases before with
    | none => rw [Option.map_eq_none_iff.1 hnow, Option.map_eq_none_iff.1 hstamped]
    | some σ => exact (hfresh visit.path).stands hstamped hnow hr le_rfl
  have huncached : visit.value =
      uncachedFile parse visit.path visit.maxBytes (history (clock visit.start)) := by
    rw [hparsed] at hheld
    unfold uncachedFile
    rw [readOptionalText_of_stamp hstamp (hsame ▸ htext), hvalue, ← Option.some.inj hheld, hsame]
    rfl
  have hhit : visit.Hit (seenFiles history clock) := ⟨before, hstamp, hkey⟩
  have hlast : clock visit.start ≤ clock (visit.finish - 1) := hclock (by omega)
  refine ⟨⟨fun _ => huncached, fun _ => ⟨_, le_rfl, hlast, huncached⟩, fun _ => ?_⟩, ?_, ?_⟩
  · rw [hvalue]
    exact hsound.parsed _ _ _ hkey hheld
  · intro path stamp hentry
    obtain ⟨r', hr', hshows⟩ := hsound.shows path stamp hentry
    exact ⟨r', hr'.trans (hclock (by omega)), hshows⟩
  · intro path stamp value' hentry hvalue'
    obtain ⟨front, origin, between, hpast, hhits, hrest⟩ :=
      hsound.parsed path stamp value' hentry hvalue'
    refine ⟨front, origin, between ++ [visit], by rw [hpast, List.append_assoc]; rfl, ?_, hrest⟩
    intro other hother
    rcases List.mem_append.1 hother with hother | hother
    · exact hhits other hother
    · rw [List.mem_singleton.1 hother]
      exact hhit

theorem file_parsed_step (hcalm : visit.Undisturbed history clock)
    {before : Option PlainFileStamp} {text : Option String}
    (hstamp : optionalPlainFileStamp visit.path visit.maxBytes
      (history (clock visit.start) visit.path) = .ok before)
    (hkey : visit.cache.key ≠ some (visit.path, before))
    (hread : readOptionalText visit.path visit.maxBytes
      (history (clock (visit.start + 1)) visit.path) = .ok text)
    (hafter : optionalPlainFileStamp visit.path visit.maxBytes
      (history (clock (visit.start + 2)) visit.path) = .ok before)
    (hvalue : visit.value = .ok (parse text)) (hfinish : visit.finish = visit.start + 3) :
    SoundFile parse history clock (past ++ [visit])
      ⟨some (visit.path, before), some (parse text)⟩ visit.finish := by
  have hnow := optionalPlainFileStamp_ok hstamp
  have hthen := optionalPlainFileStamp_ok hafter
  have hquiet : visit.Quiet history clock := by
    intro u hu hu'
    exact unchanged (hfresh visit.path) hcalm le_rfl (hclock (by omega)) (hnow.trans hthen.symm) hu
      hu'
  have hmiss : ¬ visit.Hit (seenFiles history clock) := by
    rintro ⟨before', hstamp', hkey'⟩
    have heq : before' = before := Except.ok.inj (hstamp'.symm.trans hstamp)
    exact hkey (heq ▸ hkey')
  constructor
  · rintro _ _ ⟨⟩
    have hsame : history (clock (visit.start + 1)) visit.path =
        history (clock visit.start) visit.path :=
      hquiet _ (hclock (by omega)) (hclock (by omega))
    rw [hsame] at hread
    refine ⟨clock visit.start, hclock (by omega), hnow, text_of_readOptionalText hread, ?_⟩
    rw [readOptionalText_ok hread]
  · rintro _ _ _ ⟨⟩ ⟨⟩
    exact ⟨past, visit, [], rfl, fun _ hother => absurd hother List.not_mem_nil, rfl, hvalue, hmiss,
      hquiet⟩

theorem file_step {after : PlainFileCache τ}
    (hsound : SoundFile parse history clock past visit.cache visit.start)
    (hcalm : visit.Undisturbed history clock)
    (h : FileLoads parse (seenFiles history clock) visit.cache visit.path visit.maxBytes visit.start
      visit.value after visit.finish) :
    visit.Transparent parse history clock past ∧
      SoundFile parse history clock (past ++ [visit]) after visit.finish := by
  have hother : ∀ {before : Option PlainFileStamp},
      optionalPlainFileStamp visit.path visit.maxBytes
        (seenFiles history clock visit.start visit.path) = .ok before →
      visit.cache.key ≠ some (visit.path, before) → ¬ visit.Hit (seenFiles history clock) := by
    rintro before hstamp hkey ⟨before', hstamp', hkey'⟩
    have heq : before' = before := Except.ok.inj (hstamp'.symm.trans hstamp)
    exact hkey (heq ▸ hkey')
  -- while nothing is written the three looks see one file
  have hlooks : (∀ u, clock visit.start ≤ u → u ≤ clock (visit.finish - 1) →
      history u = history (clock visit.start)) → ∀ i, visit.start + i < visit.finish →
        seenFiles history clock (visit.start + i) = history (clock visit.start) :=
    fun hstill i hi => hstill _ (hclock (by omega)) (hclock (by omega))
  generalize hvalue : visit.value = value at h
  generalize hfinish : visit.finish = finish at h
  cases h with
  | unstamped hstamp =>
    have hmiss : ¬ visit.Hit (seenFiles history clock) := by
      rintro ⟨before, hstamp', -⟩
      rw [hstamp] at hstamp'
      cases hstamp'
    refine ⟨⟨fun _ => ?_, fun hhit => absurd hhit hmiss, fun hhit => absurd hhit hmiss⟩,
      SoundFile.keyless⟩
    have hread := optionalPlainFileStamp_error hstamp
    rw [hvalue]
    unfold uncachedFile
    unfold seenFiles at hread
    rw [hread]
    rfl
  | hit hstamp hkey hheld =>
    exact hfinish ▸ file_hit_step hclock hfresh hsound hstamp hkey hheld hvalue hfinish
  | unread hstamp hkey hread =>
    have hmiss := hother hstamp hkey
    refine ⟨⟨fun hstill => ?_, fun hhit => absurd hhit hmiss, fun hhit => absurd hhit hmiss⟩,
      SoundFile.keyless⟩
    rw [hlooks hstill 1 (by omega)] at hread
    rw [hvalue]
    unfold uncachedFile
    rw [hread]
    rfl
  | lost hstamp hkey hafter =>
    have hmiss := hother hstamp hkey
    refine ⟨⟨fun hstill => ?_, fun hhit => absurd hhit hmiss, fun hhit => absurd hhit hmiss⟩,
      SoundFile.keyless⟩
    rw [hlooks hstill 2 (by omega), ← hlooks hstill 0 (by omega), Nat.add_zero, hstamp] at hafter
    cases hafter
  | @parsed before stamp text hstamp hkey hread hafter =>
    have hmiss := hother hstamp hkey
    refine ⟨⟨fun hstill => ?_, fun hhit => absurd hhit hmiss, fun hhit => absurd hhit hmiss⟩, ?_⟩
    · rw [hlooks hstill 1 (by omega)] at hread
      rw [hvalue]
      unfold uncachedFile
      rw [hread]
      rfl
    · by_cases heq : stamp = before
      · subst heq
        rw [if_pos rfl, ← hfinish]
        exact file_parsed_step hclock hfresh hcalm hstamp hkey hread hafter hvalue hfinish
      · rw [if_neg heq]
        exact SoundFile.keyless

theorem file_run {calls : List FileCall} {cache : PlainFileCache τ} {n : Nat}
    (hsound : SoundFile parse history clock past cache n)
    (hcalm : ∀ visit ∈ fileVisits parse (seenFiles history clock) calls cache n,
      visit.Undisturbed history clock) :
    ∀ front visit behind,
      fileVisits parse (seenFiles history clock) calls cache n = front ++ visit :: behind →
        visit.Transparent parse history clock (past ++ front) := by
  induction calls generalizing past cache n with
  | nil =>
    intro front visit behind h
    unfold fileVisits at h
    cases front <;> cases h
  | cons call calls ih =>
    cases call with
    | invalidate => exact ih SoundFile.keyless hcalm
    | load path maxBytes =>
      have hheld : ∀ stamp, cache.key = some (path, stamp) → cache.value.isSome := by
        intro stamp hkey
        obtain ⟨r, -, -, -, hvalue⟩ := hsound.shows path stamp hkey
        rw [hvalue]
        rfl
      obtain ⟨value, after, finish, hload, hloads⟩ := loadWith_loads parse
        (seenFiles history clock) maxBytes n hheld
      have hvisits : fileVisits parse (seenFiles history clock) (.load path maxBytes :: calls) cache
          n = ⟨path, maxBytes, n, cache, value, finish⟩ ::
            fileVisits parse (seenFiles history clock) calls after finish := by
        rw [fileVisits, hload]
      rw [hvisits] at hcalm ⊢
      have hfirst : (⟨path, maxBytes, n, cache, value, finish⟩ : FileVisit τ).Transparent parse
            history clock past ∧ SoundFile parse history clock
              (past ++ [⟨path, maxBytes, n, cache, value, finish⟩]) after finish :=
        file_step hclock hfresh hsound (hcalm _ List.mem_cons_self) hloads
      obtain ⟨htransparent, hsound'⟩ := hfirst
      intro front visit behind h
      cases front with
      | nil =>
        cases h
        rw [List.append_nil]
        exact htransparent
      | cons first front =>
        obtain ⟨rfl, hrest⟩ := List.cons.inj h
        have hnext := ih hsound' (fun other hother => hcalm other (List.mem_cons_of_mem _ hother))
          front visit behind hrest
        rwa [List.append_assoc] at hnext

end FileStep

end FileRuns

/-! ## Both caches -/

section Caches

variable {κ δ γ ι β τ : Type}

/-- Every load of a run returns, as good as the uncached one. -/
def TransparentRun (parsers : Parsers κ δ γ ι β) (history : Nat → World) (clock : Nat → Nat)
    (calls : List Call) : Prop :=
  (visits parsers (seen history clock) calls {} 0).map (·.work) = calls.filterMap Call.work ∧
    ∀ front visit behind,
      visits parsers (seen history clock) calls {} 0 = front ++ visit :: behind →
        visit.Transparent parsers history clock front

def TransparentFileRun (parse : Option String → τ) (history : Nat → String → Option File)
    (clock : Nat → Nat) (calls : List FileCall) : Prop :=
  ∀ front visit behind,
    fileVisits parse (seenFiles history clock) calls {} 0 = front ++ visit :: behind →
      visit.Transparent parse history clock front

/-- **The caches of observers are transparent** in every run of loads in which no file is removed,
while a load runs, that came after the load began or is recorded as absent. -/
theorem observer_caches (parsers : Parsers κ δ γ ι β) (parse : Option String → τ) :
    (∀ (history : Nat → World) (clock : Nat → Nat), Monotone clock →
      (∀ work place, Fresh fun u => (history u).file work place) → ∀ calls,
        (∀ visit ∈ visits parsers (seen history clock) calls {} 0,
          visit.Undisturbed history clock) → TransparentRun parsers history clock calls) ∧
    ∀ (history : Nat → String → Option File) (clock : Nat → Nat), Monotone clock →
      (∀ path, Fresh fun u => history u path) → ∀ calls,
        (∀ visit ∈ fileVisits parse (seenFiles history clock) calls {} 0,
          visit.Undisturbed history clock) → TransparentFileRun parse history clock calls := by
  refine ⟨fun history clock hclock hfresh calls hcalm => ⟨visits_work, ?_⟩,
    fun history clock hclock hfresh calls hcalm => ?_⟩
  · have hnothing : Sound parsers history clock [] {} 0 := Sound.nothing
    exact run hclock hfresh hnothing hcalm
  · have hnothing : SoundFile parse history clock [] {} 0 := SoundFile.keyless
    exact file_run hclock hfresh hnothing hcalm

end Caches

/-- Parsers that keep the texts. -/
def plainParsers : Parsers String String String String String where
  queue := fun text => [text]
  descriptor := fun _ text => text
  cohort := id
  integration := id
  noIntegration := ""
  batch := id

def emptyWorld : World where
  file := fun _ _ => none
  tasks := fun _ => none
  distinct := fun _ _ h => nomatch h
  within := fun _ _ h => absurd rfl h

/-- A queue and nothing else. -/
def queueWorld (text : String) (modified : Nat) : World where
  file := fun _ place => if place = .queue then some ⟨utf8 text, some modified⟩ else none
  tasks := fun _ => none
  distinct := fun _ _ h => nomatch h
  within := fun _ _ h => absurd (if_neg nofun) h

/-- A file that is replaced once. -/
def replacedAt (n : Nat) (u : Nat) : Option File :=
  some (if u < n then ⟨utf8 "", some 1⟩ else ⟨utf8 "a", some 2⟩)

theorem fresh_replacedAt (n : Nat) : Fresh (replacedAt n) := by
  intro v
  by_cases hnow : v + 1 = n
  · refine .inr (.inr ⟨⟨utf8 "a", some 2⟩, by simp [replacedAt, hnow], fun u hu old hold => ?_⟩)
    obtain rfl : old = ⟨utf8 "", some 1⟩ := by simpa [replacedAt, show u < n by omega, eq_comm] using hold
    simp [File.stamp]
  · have hsame : v + 1 < n ↔ v < n := by omega
    exact .inl (by simp only [replacedAt, hsame])

/-- The queue is replaced between the two probes of the first load. -/
def replaced (u : Nat) : World := if u < 5 then queueWorld "" 1 else queueWorld "a" 2

theorem replaced_file (work : String) (place : Place) :
    (fun u => (replaced u).file work place) =
      if place = .queue then replacedAt 5 else fun _ => none := by
  funext u
  by_cases hplace : place = .queue <;> by_cases hu : u < 5 <;>
    simp [replaced, replacedAt, queueWorld, hplace, hu]

/-- A replacement during a load: the first load returns what it read and caches nothing, the second
one caches, and the third one returns that. -/
theorem observer_caches_replaced :
    ((visits plainParsers (seen replaced id) [.load ".work", .load ".work", .load ".work"] {} 0).map
      fun visit => (visit.value.queue, visit.cache.cached.isSome)) =
        [(["a"], false), (["a"], false), (["a"], true)] ∧
      TransparentRun plainParsers replaced id [.load ".work", .load ".work", .load ".work"] ∧
      TransparentFileRun id (fun u _ => replacedAt 1 u) id
        [.load "done.md" 64, .load "done.md" 64, .load "done.md" 64] := by
  have h := observer_caches plainParsers (id : Option String → Option String)
  have hthere : ∀ n u, replacedAt n u ≠ none := fun n u => by simp [replacedAt]
  refine ⟨by decide +kernel, h.1 _ _ monotone_id (fun work place => ?_) _ fun visit _ place => ?_,
    h.2 _ _ monotone_id (fun path => fresh_replacedAt 1) _ fun visit _ v _ _ _ hgone =>
      absurd hgone (hthere _ _)⟩
  · rw [replaced_file]
    split
    · exact fresh_replacedAt 5
    · exact fun v => .inl rfl
  · -- the queue is never removed, and no other file ever comes
    have hfile : ∀ u, (replaced u).file visit.work place =
        (if place = .queue then replacedAt 5 else fun _ => none) u :=
      fun u => congrFun (replaced_file visit.work place) u
    by_cases hplace : place = .queue
    · simp only [hplace, if_true] at hfile
      refine ⟨fun v _ _ _ hgone => absurd hgone ?_, fun _ v _ _ _ => ?_⟩ <;>
        simp [hplace, hfile, hthere]
    · simp only [hplace, if_false] at hfile
      exact ⟨fun v _ _ hcame => absurd (hfile v) hcame, fun _ v _ _ hcame => absurd (hfile v) hcame⟩

/-- The queue is there at the sixth look only. -/
def passing (u : Nat) : World := if u = 5 then queueWorld "" 1 else emptyWorld

/-- The queue comes before it is read and goes before its second probe: the next load, of no files,
still returns it. -/
theorem observer_caches_passing : ¬ ∀ (history : Nat → World) (clock : Nat → Nat), Monotone clock →
    (∀ work place, Fresh fun u => (history u).file work place) → ∀ calls,
      TransparentRun plainParsers history clock calls := by
  intro h
  have hfresh : ∀ work place, Fresh fun u => (passing u).file work place := by
    intro work place v
    have hother : ∀ u, u ≠ 5 → (passing u).file work place = none := fun u hu => by
      unfold passing
      rw [if_neg hu]
      rfl
    by_cases hnow : v + 1 = 5
    · have hearlier : ∀ u ≤ v, (passing u).file work place = none := fun u hu =>
        hother u (by omega)
      cases hfile : (passing (v + 1)).file work place with
      | none => exact .inr (.inl hfile)
      | some new =>
        refine .inr (.inr ⟨new, hfile, fun u hu old hold => ?_⟩)
        dsimp only at hold
        rw [hearlier u hu] at hold
        cases hold
    · exact .inr (.inl (hother _ hnow))
  have hrun := (h passing id monotone_id hfresh [.load ".work", .load ".work"]).2
  obtain ⟨a, b, hsplit, hwork, hstart, hfinish, hqueue⟩ : ∃ a b,
      visits plainParsers (seen passing id) [.load ".work", .load ".work"] {} 0 = [a] ++ b :: [] ∧
        b.work = ".work" ∧ b.start = 15 ∧ b.finish = 20 ∧ b.value.queue = [""] :=
    ⟨_, _, rfl, rfl, rfl, rfl, by decide +kernel⟩
  have hstill := (hrun _ _ _ hsplit).still
  rw [hwork, hstart, hfinish] at hstill
  simp only [id_eq] at hstill
  have hlate : ∀ u, 15 ≤ u → passing u = emptyWorld := fun u hu => if_neg (by omega)
  have huncached := hstill fun u hu _ => by rw [hlate u hu, hlate 15 le_rfl]
  unfold Uncached at huncached
  rw [hlate 15 le_rfl] at huncached
  have hempty : (Snapshot.load plainParsers ".work" (fun _ => emptyWorld) 0).1.map (·.queue) =
      .ok [] := rfl
  rw [huncached] at hempty
  have hnil : b.value.queue = [] := Except.ok.inj hempty
  rw [hqueue] at hnil
  cases hnil

end Orchestrail.Observer
