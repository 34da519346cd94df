import Orchestrail.Spec.Pitfalls

/-!
# Every known limit counts
-/

namespace Orchestrail.Pitfalls

open Canary

/-! ## Ranks -/

/-- How strong a limit is in the folds. -/
def rank : EnvLimitClass → Nat
  | .vcsWrite | .profileDenied | .unknown => 2
  | .sandboxInitWorktree => 1
  | .network | .tlsSchannel => 0

theorem rank_eq_one {limit : EnvLimitClass} : rank limit = 1 ↔ limit = .sandboxInitWorktree := by
  cases limit <;> decide

/-- The limit is one of the markers, and none is stronger; no limit stands for no marker. -/
def Strongest (ms : List EnvLimitClass) : Option EnvLimitClass → Prop
  | none => ms = []
  | some limit => limit ∈ ms ∧ ∀ other ∈ ms, rank other ≤ rank limit

/-- A slot that keeps the first limit of its rank. -/
def Slot (r : Nat) (slot : Option EnvLimitClass) (ms : List EnvLimitClass) : Prop :=
  match slot with
  | none => ∀ limit ∈ ms, rank limit ≠ r
  | some limit => limit ∈ ms ∧ rank limit = r

theorem Slot.first {r : Nat} {slot : Option EnvLimitClass} {ms : List EnvLimitClass}
    {limit : EnvLimitClass} (h : Slot r slot ms) (hr : rank limit = r) :
    Slot r (slot.or (some limit)) (ms ++ [limit]) := by
  cases slot with
  | none => exact ⟨List.mem_append_right _ List.mem_cons_self, hr⟩
  | some kept => exact ⟨List.mem_append_left _ h.1, h.2⟩

theorem Slot.skip {r : Nat} {slot : Option EnvLimitClass} {ms : List EnvLimitClass}
    {limit : EnvLimitClass} (h : Slot r slot ms) (hr : rank limit ≠ r) :
    Slot r slot (ms ++ [limit]) := by
  cases slot with
  | none =>
    intro other hother
    rcases List.mem_append.1 hother with hother | hother
    · exact h other hother
    · rw [List.mem_singleton.1 hother]
      exact hr
  | some kept => exact ⟨List.mem_append_left _ h.1, h.2⟩

theorem Slot.or_strongest {ms : List EnvLimitClass} {hard canary path : Option EnvLimitClass}
    (hhard : Slot 2 hard ms) (hcanary : Slot 1 canary ms) (hpath : Slot 0 path ms) :
    Strongest ms ((hard.or canary).or path) := by
  have hle : ∀ limit : EnvLimitClass, rank limit ≤ 2 := fun limit => by cases limit <;> decide
  cases hard with
  | some limit => exact ⟨hhard.1, fun other _ => hhard.2 ▸ hle other⟩
  | none =>
    cases canary with
    | some limit =>
      refine ⟨hcanary.1, fun other hother => ?_⟩
      have := hhard other hother
      have := hle other
      have := hcanary.2
      omega
    | none =>
      have hzero : ∀ other ∈ ms, rank other = 0 := by
        intro other hother
        have := hhard other hother
        have := hcanary other hother
        have := hle other
        omega
      cases path with
      | some limit =>
        refine ⟨hpath.1, fun other hother => ?_⟩
        rw [hzero other hother]
        exact Nat.zero_le _
      | none =>
        refine List.eq_nil_iff_forall_not_mem.2 fun other hother => ?_
        exact hpath other hother (hzero other hother)

/-! ## The two loops -/

theorem scanMarkers_strongest {limits seen : List EnvLimitClass}
    {canary path : Option EnvLimitClass} (hhard : ∀ limit ∈ seen, rank limit ≠ 2)
    (hcanary : Slot 1 canary seen) (hpath : Slot 0 path seen) :
    Strongest (seen ++ limits) (scanMarkers limits canary path) := by
  induction limits generalizing seen canary path with
  | nil =>
    rw [List.append_nil, scanMarkers]
    have hnone : Slot 2 none seen := hhard
    exact hnone.or_strongest hcanary hpath
  | cons limit limits ih =>
    have hnext : seen ++ limit :: limits = (seen ++ [limit]) ++ limits := by simp
    have hmem : limit ∈ seen ++ limit :: limits := by simp
    have hseen : rank limit ≠ 2 → ∀ other ∈ seen ++ [limit], rank other ≠ 2 := by
      intro hne other hother
      rcases List.mem_append.1 hother with hother | hother
      · exact hhard other hother
      · rw [List.mem_singleton.1 hother]
        exact hne
    have htop : rank limit = 2 → Strongest (seen ++ limit :: limits) (some limit) :=
      fun hr => ⟨hmem, fun other _ => hr ▸ (by cases other <;> decide)⟩
    cases limit with
    | vcsWrite => exact htop rfl
    | profileDenied => exact htop rfl
    | unknown => exact htop rfl
    | sandboxInitWorktree =>
      rw [hnext]
      exact ih (hseen (by decide)) (hcanary.first rfl) (hpath.skip (by decide))
    | network =>
      rw [hnext]
      exact ih (hseen (by decide)) (hcanary.skip (by decide)) (hpath.first rfl)
    | tlsSchannel =>
      rw [hnext]
      exact ih (hseen (by decide)) (hcanary.skip (by decide)) (hpath.first rfl)

/-- **A file answers its strongest marker.** -/
theorem strongest_scan (text : List Char) : Strongest (markers text) (envLimitClass text) :=
  have hscan : Strongest ([] ++ markers text) (scanMarkers (markers text) none none) :=
    scanMarkers_strongest (by simp) (by simp [Slot]) (by simp [Slot])
  hscan

/-- The markers of the files that count for a task. -/
def inScopeMarkers (domain : Domain) (files : List PitfallFile) : List EnvLimitClass :=
  files.flatMap fun file => match file.text with
    | .ok text => if isMarkdown file.name ∧ inScope domain text then markers text else []
    | .error _ => []

/-- What is kept of the files read so far, and the markers it stands for. -/
structure Kept (l : Limits) (ms : List EnvLimitClass) : Prop where
  kept : ∃ ks, Slot 2 l.hardLimit ks ∧ Slot 1 l.worktreeCanary ks ∧ Slot 0 l.pathDependent ks ∧
    (∀ k ∈ ks, k ∈ ms) ∧ ∀ m ∈ ms, ∃ k ∈ ks, rank m ≤ rank k

theorem Kept.strongest {l : Limits} {ms : List EnvLimitClass} (h : Kept l ms) :
    Strongest ms l.strongest := by
  obtain ⟨ks, hhard, hcanary, hpath, hsub, hcover⟩ := h.kept
  have hks := Slot.or_strongest hhard hcanary hpath
  unfold Limits.strongest
  cases hlimit : (l.hardLimit.or l.worktreeCanary).or l.pathDependent with
  | none =>
    rw [hlimit] at hks
    obtain rfl : ks = [] := hks
    refine List.eq_nil_iff_forall_not_mem.2 fun m hm => ?_
    obtain ⟨k, hk, -⟩ := hcover m hm
    cases hk
  | some limit =>
    rw [hlimit] at hks
    refine ⟨hsub limit hks.1, fun m hm => ?_⟩
    obtain ⟨k, hk, hle⟩ := hcover m hm
    exact hle.trans (hks.2 k hk)

theorem Kept.keep {l : Limits} {ms more : List EnvLimitClass} {limit : EnvLimitClass}
    (h : Kept l ms) (hmore : Strongest more (some limit)) : Kept (l.keep limit) (ms ++ more) := by
  obtain ⟨ks, hhard, hcanary, hpath, hsub, hcover⟩ := h.kept
  have hsub' : ∀ k ∈ ks ++ [limit], k ∈ ms ++ more := by
    intro k hk
    rcases List.mem_append.1 hk with hk | hk
    · exact List.mem_append_left _ (hsub k hk)
    · rw [List.mem_singleton.1 hk]
      exact List.mem_append_right _ hmore.1
  have hcover' : ∀ m ∈ ms ++ more, ∃ k ∈ ks ++ [limit], rank m ≤ rank k := by
    intro m hm
    rcases List.mem_append.1 hm with hm | hm
    · obtain ⟨k, hk, hle⟩ := hcover m hm
      exact ⟨k, List.mem_append_left _ hk, hle⟩
    · exact ⟨limit, List.mem_append_right _ List.mem_cons_self, hmore.2 m hm⟩
  refine ⟨ks ++ [limit], ?_, ?_, ?_, hsub', hcover'⟩
  all_goals
    cases limit <;>
      first
      | exact hhard.first rfl
      | exact hhard.skip (by decide)
      | exact hcanary.first rfl
      | exact hcanary.skip (by decide)
      | exact hpath.first rfl
      | exact hpath.skip (by decide)

theorem Kept.nothing {l : Limits} {ms more : List EnvLimitClass} (h : Kept l ms)
    (hmore : more = []) : Kept l (ms ++ more) := by
  rw [hmore, List.append_nil]
  exact h

theorem readPitfalls_kept {domain : Domain} {files : List PitfallFile} {l l' : Limits}
    {ms : List EnvLimitClass} (hl : Kept l ms) (h : readPitfalls domain l files = .ok l') :
    Kept l' (ms ++ inScopeMarkers domain files) := by
  induction files generalizing l ms with
  | nil =>
    obtain rfl := Except.ok.inj h
    exact hl.nothing rfl
  | cons file files ih =>
    have hsplit : ∀ more, more = (match file.text with
        | .ok text => if isMarkdown file.name ∧ inScope domain text then markers text else []
        | .error _ => []) →
          ms ++ inScopeMarkers domain (file :: files) =
            (ms ++ more) ++ inScopeMarkers domain files := by
      rintro more rfl
      unfold inScopeMarkers
      rw [List.flatMap_cons, List.append_assoc]
    rw [hsplit _ rfl]
    unfold readPitfalls at h
    by_cases hmd : isMarkdown file.name
    · rw [if_pos hmd] at h
      cases htext : file.text with
      | error error =>
        rw [htext] at h
        cases h
      | ok text =>
        simp only [htext, bind, Except.bind] at h
        by_cases hscope : inScope domain text
        · rw [if_pos hscope] at h
          simp only [hmd, hscope, and_self, if_true]
          have hstrong := strongest_scan text
          cases hlimit : envLimitClass text with
          | none =>
            rw [hlimit] at h hstrong
            exact ih (hl.nothing hstrong) h
          | some limit =>
            rw [hlimit] at h hstrong
            exact ih (hl.keep hstrong) h
        · rw [if_neg hscope] at h
          exact ih (hl.nothing (if_neg fun hboth => hscope hboth.2)) h
    · rw [if_neg hmd] at h
      refine ih (hl.nothing ?_) h
      cases file.text <;> simp [hmd]

/-- **The knowledge base answers a strongest marker of its pitfalls.** -/
theorem strongest_read {globs : Option (List String)} {pitfalls : Option (List PitfallFile)}
    {limit : Option EnvLimitClass} (h : taskKbPitfall true (.ok globs) (.ok pitfalls) = .ok limit) :
    Strongest (inScopeMarkers (taskDomain globs) (pitfalls.getD [])) limit := by
  cases pitfalls with
  | none =>
    obtain rfl := Except.ok.inj h
    rfl
  | some files =>
    simp only [taskKbPitfall, if_true, bind, Except.bind] at h
    cases hread : readPitfalls (taskDomain globs) {}
        (files.mergeSort fun a b => decide (a.name ≤ b.name)) with
    | error error =>
      rw [hread] at h
      cases h
    | ok limits =>
      rw [hread] at h
      obtain rfl := Except.ok.inj h
      have hempty : Kept {} [] := ⟨[], by simp [Slot], by simp [Slot], by simp [Slot], by simp,
        by simp⟩
      have hsorted := (readPitfalls_kept hempty hread).strongest
      rw [List.nil_append] at hsorted
      have hperm : (inScopeMarkers (taskDomain globs)
          (files.mergeSort fun a b => decide (a.name ≤ b.name))).Perm
            (inScopeMarkers (taskDomain globs) files) :=
        (List.mergeSort_perm files _).flatMap_right _
      revert hsorted
      cases limits.strongest with
      | none => exact fun hnil => List.nil_perm.1 (hnil ▸ hperm)
      | some limit =>
        exact fun hs => ⟨hperm.mem_iff.1 hs.1,
          fun other hother => hs.2 other (hperm.mem_iff.2 hother)⟩

/-! ## Routing -/

variable {inp : CoderRouteInput} {ms : List EnvLimitClass} {limit : Option EnvLimitClass}

/-- The task is routed to Codex with this limit. -/
def Routed (inp : CoderRouteInput) (limit : Option EnvLimitClass) : Prop :=
  routeCoder { inp with kbPitfall := limit } = .codex

/-- The limit blocks Codex for the task. -/
def Blocks (inp : CoderRouteInput) (limit : EnvLimitClass) : Prop :=
  pitfallBlocks limit inp.network inp.codexNetwork = true

instance (inp : CoderRouteInput) (limit : EnvLimitClass) : Decidable (Blocks inp limit) :=
  inferInstanceAs (Decidable (_ = true))

/-- A limit only adds to what keeps a task on Claude. -/
theorem routed_some (c : EnvLimitClass) :
    Routed inp (some c) ↔ Routed inp none ∧ ¬ Blocks inp c := by
  unfold Routed routeCoder Blocks
  cases hlevel : levelGate inp.codexCoder inp.level with
  | some reason => simp
  | none =>
    dsimp only
    by_cases hnetwork : inp.network.any fun need => !need.ecosystem.pathAvailable inp.codexNetwork
    · simp [hnetwork]
    · by_cases hblocks : pitfallBlocks c inp.network inp.codexNetwork = true <;>
        simp [hnetwork, hblocks]

/-- The one limit of the knowledge base is worth all markers that count for the task. -/
structure Agrees (inp : CoderRouteInput) (limit : Option EnvLimitClass)
    (ms : List EnvLimitClass) : Prop where
  route : Routed inp limit ↔ Routed inp none ∧ ∀ c ∈ ms, Routed inp (some c)
  canary : limit = some .sandboxInitWorktree ↔
    .sandboxInitWorktree ∈ ms ∧ ∀ c ∈ ms, ¬ Blocks inp c

/-- A retained worktree failure stands in front of a network limit that blocks, and no stronger
limit is there. -/
structure Hides (inp : CoderRouteInput) (ms : List EnvLimitClass) : Prop where
  soft : .vcsWrite ∉ ms ∧ .profileDenied ∉ ms ∧ .unknown ∉ ms
  retained : .sandboxInitWorktree ∈ ms
  network : .network ∈ ms ∨ .tlsSchannel ∈ ms
  unavailable : ((inp.network.map NetworkNeed.ecosystem).getD .other).pathAvailable
    inp.codexNetwork = false

theorem blocks_of_rank_two {c : EnvLimitClass} (h : rank c = 2) : Blocks inp c := by
  cases c with
  | vcsWrite => exact (rfl : true = true)
  | profileDenied => exact (rfl : true = true)
  | unknown => exact (rfl : true = true)
  | sandboxInitWorktree => exact absurd h (by decide)
  | network => exact absurd h (by decide)
  | tlsSchannel => exact absurd h (by decide)

theorem not_blocks_retained : ¬ Blocks inp .sandboxInitWorktree := by
  unfold Blocks pitfallBlocks
  exact Bool.false_ne_true

/-- The limits of the network block alike. -/
theorem blocks_of_rank_zero {c : EnvLimitClass} (h : rank c = 0) :
    Blocks inp c ↔ ((inp.network.map NetworkNeed.ecosystem).getD .other).pathAvailable
      inp.codexNetwork = false := by
  unfold Blocks pitfallBlocks
  cases c with
  | network => simp
  | tlsSchannel => simp
  | vcsWrite => exact absurd h (by decide)
  | profileDenied => exact absurd h (by decide)
  | unknown => exact absurd h (by decide)
  | sandboxInitWorktree => exact absurd h (by decide)

theorem rank_eq_zero {c : EnvLimitClass} : rank c = 0 ↔ c = .network ∨ c = .tlsSchannel := by
  cases c <;> decide

theorem hides_iff (inp : CoderRouteInput) (ms : List EnvLimitClass) : Hides inp ms ↔
    (∀ c ∈ ms, rank c ≤ 1) ∧ .sandboxInitWorktree ∈ ms ∧ ∃ c ∈ ms, rank c = 0 ∧ Blocks inp c := by
  constructor
  · rintro ⟨⟨hvcs, hprofile, hunknown⟩, hretained, hnetwork, hdown⟩
    refine ⟨fun c hc => ?_, hretained, ?_⟩
    · cases c with
      | vcsWrite => exact absurd hc hvcs
      | profileDenied => exact absurd hc hprofile
      | unknown => exact absurd hc hunknown
      | sandboxInitWorktree => decide
      | network => decide
      | tlsSchannel => decide
    · rcases hnetwork with hc | hc
      · exact ⟨_, hc, rfl, (blocks_of_rank_zero rfl).2 hdown⟩
      · exact ⟨_, hc, rfl, (blocks_of_rank_zero rfl).2 hdown⟩
  · rintro ⟨hsoft, hretained, c, hc, hrank, hblocks⟩
    refine ⟨⟨?_, ?_, ?_⟩, hretained, ?_, (blocks_of_rank_zero hrank).1 hblocks⟩
    · exact fun h => absurd (hsoft _ h) (by decide)
    · exact fun h => absurd (hsoft _ h) (by decide)
    · exact fun h => absurd (hsoft _ h) (by decide)
    · rcases rank_eq_zero.1 hrank with rfl | rfl
      · exact .inl hc
      · exact .inr hc

/-- **The strongest limit stands for all** exactly when it hides none that blocks. -/
theorem agrees_iff (h : Strongest ms limit) : Agrees inp limit ms ↔ ¬ Hides inp ms := by
  rw [hides_iff]
  constructor
  · rintro ⟨-, hcanary⟩ ⟨hsoft, hretained, c, hc, -, hblocks⟩
    have hlimit : limit = some .sandboxInitWorktree := by
      cases limit with
      | none =>
        obtain rfl : ms = [] := h
        cases hretained
      | some top =>
        have hone : rank top = 1 := Nat.le_antisymm (hsoft top h.1) (h.2 _ hretained)
        rw [rank_eq_one.1 hone]
    exact (hcanary.1 hlimit).2 c hc hblocks
  · intro hhides
    cases limit with
    | none =>
      obtain rfl : ms = [] := h
      exact ⟨⟨fun hr => ⟨hr, by simp⟩, And.left⟩, by simp⟩
    | some top =>
      -- whatever blocks, the strongest limit blocks
      have hworst : (∃ c ∈ ms, Blocks inp c) → Blocks inp top := by
        rintro ⟨c, hc, hblocks⟩
        rcases Nat.lt_or_ge 1 (rank top) with htwo | hle
        · exact blocks_of_rank_two (by cases top <;> revert htwo <;> decide)
        · have hsoft : ∀ d ∈ ms, rank d ≤ 1 := fun d hd => (h.2 d hd).trans hle
          have hzero : rank c = 0 := by
            by_contra hne
            have hone : rank c = 1 := Nat.le_antisymm (hsoft c hc) (by omega)
            rw [rank_eq_one.1 hone] at hblocks
            exact not_blocks_retained hblocks
          by_cases htop : rank top = 0
          · exact (blocks_of_rank_zero htop).2 ((blocks_of_rank_zero hzero).1 hblocks)
          · have hone : rank top = 1 := Nat.le_antisymm hle (by omega)
            exact absurd ⟨hsoft, rank_eq_one.1 hone ▸ h.1, c, hc, hzero, hblocks⟩ hhides
      refine ⟨?_, ?_⟩
      · rw [routed_some]
        constructor
        · rintro ⟨hnone, htop⟩
          exact ⟨hnone, fun c hc => routed_some c |>.2 ⟨hnone, fun hb => htop (hworst ⟨c, hc, hb⟩)⟩⟩
        · rintro ⟨hnone, hall⟩
          exact ⟨hnone, ((routed_some top).1 (hall top h.1)).2⟩
      · constructor
        · intro heq
          obtain rfl := Option.some.inj heq
          exact ⟨h.1, fun c hc hb => not_blocks_retained (hworst ⟨c, hc, hb⟩)⟩
        · rintro ⟨hretained, hnone⟩
          have hlow : ¬ rank top = 2 := fun htwo => hnone top h.1 (blocks_of_rank_two htwo)
          have hhigh : 1 ≤ rank top := h.2 _ hretained
          have hone : rank top = 1 := by
            cases top <;> revert hlow hhigh <;> decide
          rw [rank_eq_one.1 hone]

/-- **Every known environment limit counts**, and so does every order of them, exactly when no
retained worktree failure hides a network limit that blocks. -/
theorem known_limits {globs : Option (List String)} {pitfalls pitfalls' : Option (List PitfallFile)}
    {limit limit' : Option EnvLimitClass}
    (h : taskKbPitfall true (.ok globs) (.ok pitfalls) = .ok limit)
    (h' : taskKbPitfall true (.ok globs) (.ok pitfalls') = .ok limit') (inp : CoderRouteInput) :
    (Agrees inp limit (inScopeMarkers (taskDomain globs) (pitfalls.getD [])) ↔
      ¬ Hides inp (inScopeMarkers (taskDomain globs) (pitfalls.getD []))) ∧
    ((∀ c, c ∈ inScopeMarkers (taskDomain globs) (pitfalls.getD []) ↔
        c ∈ inScopeMarkers (taskDomain globs) (pitfalls'.getD [])) →
      limit.map rank = limit'.map rank ∧ (Routed inp limit ↔ Routed inp limit')) := by
  have hs := strongest_read h
  have hs' := strongest_read h'
  refine ⟨agrees_iff hs, fun hsame => ?_⟩
  generalize inScopeMarkers (taskDomain globs) (pitfalls.getD []) = ms at hs hsame
  generalize inScopeMarkers (taskDomain globs) (pitfalls'.getD []) = ms' at hs' hsame
  cases limit with
  | none =>
    obtain rfl : ms = [] := hs
    obtain rfl : limit' = none := by
      cases limit' with
      | none => rfl
      | some top => exact absurd ((hsame top).2 hs'.1) List.not_mem_nil
    exact ⟨rfl, Iff.rfl⟩
  | some top =>
    cases limit' with
    | none =>
      obtain rfl : ms' = [] := hs'
      exact absurd ((hsame top).1 hs.1) List.not_mem_nil
    | some top' =>
      have hrank : rank top = rank top' :=
        Nat.le_antisymm (hs'.2 top ((hsame top).1 hs.1)) (hs.2 top' ((hsame top').2 hs'.1))
      refine ⟨congrArg some hrank, ?_⟩
      rw [routed_some, routed_some]
      have hblocks : Blocks inp top ↔ Blocks inp top' := by
        by_cases htwo : rank top = 2
        · exact iff_of_true (blocks_of_rank_two htwo) (blocks_of_rank_two (hrank ▸ htwo))
        by_cases hone : rank top = 1
        · obtain rfl := rank_eq_one.1 hone
          rw [rank_eq_one.1 (hrank.symm.trans hone)]
        have hzero : rank top = 0 := by cases top <;> revert htwo hone <;> decide
        rw [blocks_of_rank_zero hzero, blocks_of_rank_zero (hrank ▸ hzero)]
      rw [hblocks]

/-- A pitfall of every task, with the markers of its body. -/
def pitfallFile (name body : String) : PitfallFile :=
  ⟨name, .ok ("---\ntype: pitfall\nscope: runtime:codex-worktree\nstatus: active\n---\n" ++
    body).toList⟩

/-- A task of the fast coder that names no network, on a Codex without a network path. -/
def offlineTask : CoderRouteInput := ⟨.fast, .coderFast, false, none, none⟩

/-- A listing that is in the order of its names is read as it is. -/
theorem taskKbPitfall_sorted {globs : Option (List String)} {files : List PitfallFile}
    (h : files.Pairwise fun a b => a.name ≤ b.name) :
    taskKbPitfall true (.ok globs) (.ok (some files)) =
      (readPitfalls (taskDomain globs) {} files).map Limits.strongest := by
  have hsorted : files.mergeSort (fun a b => decide (a.name ≤ b.name)) = files :=
    List.mergeSort_of_pairwise (by simpa using h)
  simp only [taskKbPitfall, if_true, bind, Except.bind, hsorted]
  cases readPitfalls (taskDomain globs) {} files <;> rfl

/-- Two files with two limits each, and the same limits the other way round: another limit of the same
rank stands for them, and the task is routed alike. -/
theorem known_limits_reordered :
    let files := [pitfallFile "K-1.md" "ENV_LIMIT/network\nENV_LIMIT/vcs-write",
      pitfallFile "K-2.md" "ENV_LIMIT/profile-denied\nENV_LIMIT/sandbox-init-worktree"]
    let files' := [pitfallFile "K-1.md" "ENV_LIMIT/sandbox-init-worktree\nENV_LIMIT/profile-denied",
      pitfallFile "K-2.md" "ENV_LIMIT/vcs-write\nENV_LIMIT/network"]
    taskKbPitfall true (.ok none) (.ok (some files)) = .ok (some .vcsWrite) ∧
    taskKbPitfall true (.ok none) (.ok (some files')) = .ok (some .profileDenied) ∧
    Agrees offlineTask (some .vcsWrite) (inScopeMarkers (taskDomain none) files) ∧
    (Routed offlineTask (some .vcsWrite) ↔ Routed offlineTask (some .profileDenied)) := by
  intro files files'
  have hread : taskKbPitfall true (.ok none) (.ok (some files)) = .ok (some .vcsWrite) := by
    rw [taskKbPitfall_sorted (by decide)]
    decide +kernel
  have hread' : taskKbPitfall true (.ok none) (.ok (some files')) = .ok (some .profileDenied) := by
    rw [taskKbPitfall_sorted (by decide)]
    decide +kernel
  obtain ⟨hmarkers, hmarkers'⟩ :
      inScopeMarkers (taskDomain none) files =
        [.network, .vcsWrite, .profileDenied, .sandboxInitWorktree] ∧
      inScopeMarkers (taskDomain none) files' =
        [.sandboxInitWorktree, .profileDenied, .vcsWrite, .network] := by decide +kernel
  obtain ⟨hagrees, hsame⟩ := known_limits hread hread' offlineTask
  refine ⟨hread, hread', hagrees.2 fun hhides => ?_, (hsame fun c => ?_).2⟩
  · refine hhides.soft.1 ?_
    change .vcsWrite ∈ inScopeMarkers (taskDomain none) files
    rw [hmarkers]
    decide
  · change c ∈ inScopeMarkers (taskDomain none) files ↔ c ∈ inScopeMarkers (taskDomain none) files'
    rw [hmarkers, hmarkers']
    cases c <;> decide

/-- The file answers the retained worktree failure: the task goes to Codex as the canary, although
the network limit beside it keeps the task on Claude. -/
theorem known_limits_hidden :
    let files := [pitfallFile "K-1.md" "ENV_LIMIT/network\nENV_LIMIT/sandbox-init-worktree"]
    taskKbPitfall true (.ok none) (.ok (some files)) = .ok (some .sandboxInitWorktree) ∧
    .network ∈ inScopeMarkers (taskDomain none) files ∧
    routeCoder { offlineTask with kbPitfall := some .sandboxInitWorktree } = .codex ∧
    routeCoder { offlineTask with kbPitfall := some .network } = .claude (.kbPitfall .network) := by
  decide +kernel

end Orchestrail.Pitfalls
