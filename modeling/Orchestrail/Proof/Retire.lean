import Orchestrail.Proof.Archive
import Orchestrail.Lib.Retry

/-!
# Retiring a task

The archive takes in the section of a task, at its end or in the place of an incomplete one
(`projectedArchive_spec`), and then it is complete (`Recorded`): `project_task_archive` has nothing
more to write. The three steps of a retirement decide by what is on disk, so that each disk an
interruption leaves leads to the same end.
-/

namespace Orchestrail

open Text Outcome Outline Durable ControlPlane

section Archive

variable {alphanumeric : Char → Bool} {taskId batchId : String}

/-! ## The archive -/

/-- The sections of the other tasks. -/
def othersOf (taskId : String) (ps : List (String × List Char)) : List (String × List Char) :=
  ps.filter fun p => p.1 != taskId

/-- From `old` to `new`, the section of one task is recorded: it is there once, with its metrics,
and the other sections are unchanged, but for white space at the end of the one in front of it. -/
def Recorded (taskId batchId : String) (old new : List (String × List Char)) : Prop :=
  ∃ front back space text, othersOf taskId old = front ++ back ∧
    (∀ ch ∈ space, isWhiteSpace ch = true) ∧
    new = padLast space front ++ (taskId, text) :: back ∧ countMarkers taskId batchId text = 1

theorem mem_othersOf {ps : List (String × List Char)} {p : String × List Char} :
    p ∈ othersOf taskId ps ↔ p ∈ ps ∧ p.1 ≠ taskId := by
  simp [othersOf]

theorem filter_of_keys {ps : List (String × List Char)} (h : taskId ∉ ps.map Prod.fst) :
    ps.filter (fun p => p.1 == taskId) = [] := by
  rw [List.filter_eq_nil_iff]
  intro p hp heq
  exact h (List.mem_map.2 ⟨p, hp, by simpa using heq⟩)

theorem othersOf_of_keys {ps : List (String × List Char)} (h : taskId ∉ ps.map Prod.fst) :
    othersOf taskId ps = ps := by
  unfold othersOf
  rw [List.filter_eq_self]
  intro p hp
  simp only [bne_iff_ne, ne_eq]
  exact fun heq => h (List.mem_map.2 ⟨p, hp, heq⟩)

variable (taskId) in
theorem othersOf_keys (ps : List (String × List Char)) :
    taskId ∉ (othersOf taskId ps).map Prod.fst := by
  intro hmem
  obtain ⟨p, hp, heq⟩ := List.mem_map.1 hmem
  exact (mem_othersOf.1 hp).2 heq

namespace Recorded

variable {old new : List (String × List Char)}

/-- The task has one section, with one marker. -/
theorem single (h : Recorded taskId batchId old new) :
    ∃ text, new.filter (fun p => p.1 == taskId) = [(taskId, text)] ∧
      countMarkers taskId batchId text = 1 := by
  obtain ⟨front, back, space, text, hothers, -, rfl, hcount⟩ := h
  have hkeys := othersOf_keys taskId old
  rw [hothers, List.map_append, List.mem_append, not_or] at hkeys
  refine ⟨text, ?_, hcount⟩
  rw [List.filter_append, List.filter_cons, filter_of_keys (by rw [padLast_keys]; exact hkeys.1),
    filter_of_keys hkeys.2]
  simp

/-- The completed ids are the old ones and the task. -/
theorem keys (h : Recorded taskId batchId old new) :
    (new.map Prod.fst).toFinset = insert taskId (old.map Prod.fst).toFinset := by
  obtain ⟨front, back, space, text, hothers, -, rfl, -⟩ := h
  have hmem : ∀ id, id ≠ taskId → (id ∈ old.map Prod.fst ↔ id ∈ (front ++ back).map Prod.fst) := by
    intro id hid
    rw [← hothers]
    simp only [List.mem_map, mem_othersOf]
    constructor
    · rintro ⟨p, hp, rfl⟩
      exact ⟨p, ⟨hp, hid⟩, rfl⟩
    · rintro ⟨p, ⟨hp, -⟩, rfl⟩
      exact ⟨p, hp, rfl⟩
  ext id
  rw [List.mem_toFinset, Finset.mem_insert, List.mem_toFinset, List.map_append, padLast_keys,
    List.map_cons]
  by_cases hid : id = taskId
  · simp [hid]
  · rw [hmem id hid, List.map_append]
    simp [hid]

end Recorded

variable (alphanumeric) in
theorem sectionsOf_parts (taskId : String) (text : List Char) :
    (sectionsOf alphanumeric taskId text).map (fun p => (p.taskId, p.text)) =
      (archiveParts alphanumeric text).filter fun p => p.1 == taskId := by
  unfold sectionsOf
  rw [← archiveSections_parts, List.filter_map]
  rfl

/-- Two line endings at the end, and white space only is added. -/
theorem withBlankLine_spec (text : List Char) :
    ∃ w, withBlankLine text = text ++ w ∧ (∀ ch ∈ w, isWhiteSpace ch = true) ∧
      LineEnd (withBlankLine text) := by
  unfold withBlankLine
  simp only
  split
  · rename_i hlast
    split
    · refine ⟨[], (List.append_nil _).symm, by simp, ?_⟩
      intro ch hch
      rw [hlast] at hch
      exact (Option.some.inj hch).symm
    · exact ⟨['\n'], rfl, List.all_eq_true.1 rfl, lineEnd_concat _⟩
  · split
    · exact ⟨['\n'], rfl, List.all_eq_true.1 rfl, lineEnd_concat _⟩
    · exact ⟨['\n', '\n'], by simp, List.all_eq_true.1 rfl, lineEnd_concat _⟩

/-- A section taken in at the end. -/
theorem recorded_append {done desired : List Char}
    (hsection : TaskSection alphanumeric taskId batchId desired)
    (hnone : sectionsOf alphanumeric taskId done = []) :
    Recorded taskId batchId (archiveParts alphanumeric done)
      (archiveParts alphanumeric (withBlankLine done ++ desired)) := by
  obtain ⟨text, hparts, hcount⟩ := hsection.parts
  obtain ⟨w, hblank, hw, hend⟩ := withBlankLine_spec done
  have hkeys : taskId ∉ (archiveParts alphanumeric done).map Prod.fst := by
    have hfilter := sectionsOf_parts alphanumeric taskId done
    rw [hnone, List.map_nil] at hfilter
    rintro hmem
    obtain ⟨p, hp, heq⟩ := List.mem_map.1 hmem
    have := List.filter_eq_nil_iff.1 hfilter.symm p hp
    simp [heq] at this
  refine ⟨archiveParts alphanumeric done, [],
    w ++ archiveLead alphanumeric desired, text, ?_, ?_, ?_, hcount⟩
  · rw [othersOf_of_keys hkeys, List.append_nil]
  · intro ch hch
    rcases List.mem_append.1 hch with hch | hch
    · exact hw ch hch
    · exact hsection.lead ch hch
  · rw [archiveParts_join _ hend, hparts, hblank, archiveParts_space _ _ hw, padLast_padLast]

/-- What a section of an archive is made of. -/
theorem archiveSection_spec {done : List Char} {p : ArchiveSection}
    (hp : p ∈ archiveSections alphanumeric done) :
    p.before ++ p.text ++ p.after = done ∧ LineEnd p.before ∧
      archiveLead alphanumeric p.after = [] ∧
      archiveParts alphanumeric done =
        archiveParts alphanumeric p.before ++
          (p.taskId, p.text) :: archiveParts alphanumeric p.after := by
  unfold archiveSections at hp
  rw [show archiveHeading alphanumeric = archiveHeaderTaskId alphanumeric from
    funext archiveHeading_eq] at hp
  obtain ⟨piece, hpiece, rfl⟩ := List.mem_map.1 hp
  obtain ⟨l, rest, hlines, hl, hrest, hafter, hall⟩ := pieces_spec hpiece
  rw [List.nil_append] at hall
  have hcut : Cut (piece.before ++ (piece.lines ++ piece.after)) := by
    rw [← List.append_assoc, hall]
    exact cut_inclusive done
  have hbefore : inclusive piece.before.flatten = piece.before := inclusive_of_cut hcut.left
  have hbehind : inclusive piece.after.flatten = piece.after :=
    inclusive_of_cut hcut.right.right
  refine ⟨?_, hcut.lineEnd (by rw [hlines]; simp), ?_, ?_⟩
  · rw [← List.flatten_append, ← List.flatten_append, hall, inclusive_flatten]
  · unfold archiveLead lead
    rw [hbehind]
    cases hcase : piece.after with
    | nil => rfl
    | cons x after =>
      have hx := hafter x (by rw [hcase]; rfl)
      cases hkey : archiveHeaderTaskId alphanumeric x with
      | none => exact absurd hkey hx
      | some key => simp [hkey]
  · have hsplit := sections_split piece.before hl hrest hafter
    rw [← hlines, hall] at hsplit
    unfold archiveParts parts
    rw [hbefore, hbehind, hsplit]
    simp

/-- The only section of a task divides the archive. -/
theorem sectionsOf_single {done : List Char} {existing : ArchiveSection}
    (hone : sectionsOf alphanumeric taskId done = [existing]) :
    LineEnd existing.before ∧ archiveLead alphanumeric existing.after = [] ∧
      archiveParts alphanumeric done = archiveParts alphanumeric existing.before ++
        (taskId, existing.text) :: archiveParts alphanumeric existing.after ∧
      othersOf taskId (archiveParts alphanumeric done) =
        archiveParts alphanumeric existing.before ++
          archiveParts alphanumeric existing.after := by
  have hmem : existing ∈ sectionsOf alphanumeric taskId done := by rw [hone]; simp
  obtain ⟨hmem, hid⟩ := List.mem_filter.1 hmem
  rw [beq_iff_eq] at hid
  obtain ⟨-, hend, hlead, hdone⟩ := archiveSection_spec hmem
  rw [hid] at hdone
  refine ⟨hend, hlead, hdone, ?_⟩
  -- the count of the task's sections leaves none for the two sides
  have hfilter := sectionsOf_parts alphanumeric taskId done
  rw [hone, hdone, List.filter_append, List.filter_cons] at hfilter
  simp only [beq_self_eq_true, if_true, List.map_cons, List.map_nil] at hfilter
  have hlen := congrArg List.length hfilter
  simp only [List.length_append, List.length_cons, List.length_nil] at hlen
  have hnot : ∀ ps : List (String × List Char),
      (ps.filter fun p => p.1 == taskId).length = 0 → othersOf taskId ps = ps := by
    intro ps hps
    refine othersOf_of_keys fun hmem => ?_
    obtain ⟨p, hp, heq⟩ := List.mem_map.1 hmem
    have := List.filter_eq_nil_iff.1 (List.length_eq_zero_iff.1 hps) p hp
    simp [heq] at this
  have hfront := hnot (archiveParts alphanumeric existing.before) (by omega)
  have hback := hnot (archiveParts alphanumeric existing.after) (by omega)
  unfold othersOf at hfront hback ⊢
  rw [hdone, List.filter_append, List.filter_cons, hfront, hback]
  simp

/-- A section put in the place of another of the same task. -/
theorem recorded_replace {done desired : List Char} {existing : ArchiveSection}
    (hsection : TaskSection alphanumeric taskId batchId desired)
    (hone : sectionsOf alphanumeric taskId done = [existing]) :
    Recorded taskId batchId (archiveParts alphanumeric done)
      (archiveParts alphanumeric (existing.before ++ desired ++ existing.after)) := by
  obtain ⟨text, hparts, hcount⟩ := hsection.parts
  obtain ⟨hend, hlead, -, hothers⟩ := sectionsOf_single hone
  refine ⟨archiveParts alphanumeric existing.before, archiveParts alphanumeric existing.after,
    archiveLead alphanumeric desired, text, hothers, hsection.lead, ?_, hcount⟩
  have hend' : LineEnd (existing.before ++ desired) := by
    intro ch hch
    rw [List.getLast?_append] at hch
    cases hlast : desired.getLast? with
    | none =>
      rw [hlast] at hch
      exact hend ch hch
    | some x =>
      rw [hlast] at hch
      obtain rfl : x = ch := Option.some.inj hch
      exact hsection.lineEnd x hlast
  rw [archiveParts_join _ hend', hlead, padLast_nil, archiveParts_join _ hend, hparts]
  simp

/-- Nothing to write: the section is there already. -/
theorem recorded_same {done : List Char} {existing : ArchiveSection}
    (hone : sectionsOf alphanumeric taskId done = [existing])
    (hcount : countMarkers taskId batchId existing.text = 1) :
    Recorded taskId batchId (archiveParts alphanumeric done)
      (archiveParts alphanumeric done) := by
  obtain ⟨-, -, hdone, hothers⟩ := sectionsOf_single hone
  refine ⟨archiveParts alphanumeric existing.before, archiveParts alphanumeric existing.after,
    [], existing.text, hothers, by simp, ?_, hcount⟩
  rw [padLast_nil, ← hdone]

/-- An archive that has recorded a task has one section of it, with one marker. -/
theorem Recorded.section {old : List (String × List Char)} {done : List Char}
    (h : Recorded taskId batchId old (archiveParts alphanumeric done)) :
    ∃ existing, sectionsOf alphanumeric taskId done = [existing] ∧
      countMarkers taskId batchId existing.text = 1 := by
  obtain ⟨text, hfilter, hcount⟩ := h.single
  rw [← sectionsOf_parts] at hfilter
  cases hlist : sectionsOf alphanumeric taskId done with
  | nil =>
    rw [hlist] at hfilter
    cases hfilter
  | cons p ps =>
    rw [hlist] at hfilter
    obtain ⟨hp, hps⟩ := List.cons.inj hfilter
    rw [List.map_eq_nil_iff.1 hps]
    exact ⟨p, rfl, by rw [(Prod.mk.inj hp).2]; exact hcount⟩

/-- **What a call writes records the task**; where it writes nothing, the task is recorded. -/
theorem projectedArchive_spec {done desired : List Char} {projected : Option (List Char)}
    (hsection : TaskSection alphanumeric taskId batchId desired)
    (h : projectedArchive alphanumeric taskId batchId desired done = .ok projected) :
    Recorded taskId batchId (archiveParts alphanumeric done)
      (archiveParts alphanumeric (projected.getD done)) := by
  unfold projectedArchive at h
  split at h
  · rename_i hnone
    rw [← Except.ok.inj h]
    exact recorded_append hsection hnone
  · rename_i existing hone
    obtain ⟨_, hdemand, hvalue⟩ := bind_eq_ok.1 h
    have hle := demand_eq_ok.1 hdemand
    simp only [pure, Except.pure, Except.ok.injEq] at hvalue
    rw [← hvalue]
    split
    · exact recorded_replace hsection hone
    · exact recorded_same hone (by omega)
  · cases h

/-- A recorded task leaves nothing to write and passes the verification. -/
theorem Recorded.projected {old : List (String × List Char)} {done : List Char}
    (h : Recorded taskId batchId old (archiveParts alphanumeric done)) (desired : List Char) :
    projectedArchive alphanumeric taskId batchId desired done = .ok none ∧
      verifyArchive alphanumeric taskId batchId done = .ok () := by
  obtain ⟨existing, hone, hcount⟩ := h.section
  constructor
  · unfold projectedArchive
    rw [hone]
    simp only [hcount]
    rfl
  · unfold verifyArchive
    simp only [hone]
    exact demand_true hcount

/-! ## The queue -/

theorem textBytes_append (a b : List Char) : textBytes (a ++ b) = textBytes a + textBytes b := by
  simp [textBytes]

theorem wanted_line (hid : isTaskId taskId = true) :
    '\n' ∉ wantedHeader taskId := by
  have hT : '\n' ∉ taskId.toList := notMem_taskId hid (by decide) (by decide) (by decide)
  unfold wantedHeader
  rw [String.toList_append, String.toList_append, List.mem_append, List.mem_append, not_or, not_or]
  exact ⟨⟨by decide, hT⟩, by decide⟩

/-- A block is the task's by its own text. -/
theorem wanted_block {content wanted : List Char} (hwanted : '\n' ∉ wanted)
    {p : Piece Unit (List Char)} (hp : p ∈ Outline.pieces queueHeading [] (inclusive content)) :
    wanted.isPrefixOf (p.lines.flatten ++ p.after.flatten) =
      wanted.isPrefixOf p.lines.flatten := by
  obtain ⟨l, rest, hlines, -, -, -, hall⟩ := pieces_spec hp
  rw [List.nil_append, List.append_assoc] at hall
  have hcut : Cut (p.lines ++ p.after) := by
    have := cut_inclusive content
    rw [← hall] at this
    exact this.right
  rw [Bool.eq_iff_iff, List.isPrefixOf_iff_prefix, List.isPrefixOf_iff_prefix]
  constructor
  · intro hpre
    by_cases hafter : p.after = []
    · simpa [hafter] using hpre
    · have hend := hcut.lineEnd hafter
      rcases List.eq_nil_or_concat p.lines.flatten with hnil | ⟨y, ch, hy⟩
      · -- a block is not empty
        have hne : l ≠ [] := (hcut [] l (rest ++ p.after) (by rw [hlines]; rfl)).1
        rw [hlines, List.flatten_cons] at hnil
        exact absurd (List.append_eq_nil_iff.1 hnil).1 hne
      · rw [List.concat_eq_append] at hy
        obtain rfl : ch = '\n' := hend ch (by rw [hy]; simp)
        rw [hy, List.append_assoc] at hpre
        have := prefix_of_notMem hwanted hpre
        rw [hy]
        exact this.trans (List.prefix_append ..)
  · exact fun hpre => hpre.trans (List.prefix_append ..)

/-- The texts of the blocks of one task. -/
theorem queueBlocks {wanted : List Char} (hwanted : '\n' ∉ wanted) (content : List Char) :
    ((Outline.pieces queueHeading [] (inclusive content)).filter fun p =>
        wanted.isPrefixOf (p.lines.flatten ++ p.after.flatten)).map Piece.lines =
      ((sections queueHeading (inclusive content)).map Prod.snd).filter fun ls =>
        wanted.isPrefixOf ls.flatten := by
  have hfilter : (Outline.pieces queueHeading [] (inclusive content)).filter (fun p =>
        wanted.isPrefixOf (p.lines.flatten ++ p.after.flatten)) =
      (Outline.pieces queueHeading [] (inclusive content)).filter fun p =>
        wanted.isPrefixOf p.lines.flatten :=
    List.filter_congr fun p hp => wanted_block hwanted hp
  rw [hfilter, ← pieces_sections [], List.map_map, List.filter_map]
  rfl

theorem findQueueBlock_ok {content : List Char} {entry : QueueBlock}
    (h : findQueueBlock content taskId = .ok entry) :
    ∃ p : Piece Unit (List Char), (Outline.pieces queueHeading [] (inclusive content)).filter
        (fun p => (wantedHeader taskId).isPrefixOf (p.lines.flatten ++ p.after.flatten)) =
          [p] ∧
      entry.before = p.before.flatten ∧ entry.text = p.lines.flatten ∧
        entry.after = p.after.flatten := by
  unfold findQueueBlock at h
  split at h
  · cases h
  · rename_i p heq
    refine ⟨p, heq, ?_⟩
    split at h
    · cases h
    · split at h
      · cases h
      · rw [← Except.ok.inj h]
        exact ⟨rfl, rfl, rfl⟩
  · cases h

/-- The queue without the block has none of the task. -/
theorem findQueueBlock_removed {content : List Char} {entry : QueueBlock}
    (hid : isTaskId taskId = true) (h : findQueueBlock content taskId = .ok entry) :
    findQueueBlock (removeBlock entry) taskId = .error (.contradiction (noQueueBlock taskId)) ∧
      textBytes (removeBlock entry) ≤ textBytes content := by
  have hwanted := wanted_line hid
  obtain ⟨p, hone, hbefore, htext, hafter⟩ := findQueueBlock_ok h
  have hp := (List.mem_filter.1 (show p ∈ _ by rw [hone]; simp)).1
  obtain ⟨l, rest, hlines, hl, hrest, hhead, hall⟩ := pieces_spec hp
  rw [List.nil_append] at hall
  have hcut : Cut (p.before ++ (p.lines ++ p.after)) := by
    rw [← List.append_assoc, hall]
    exact cut_inclusive content
  -- the lines of the rest
  have hinclusive : inclusive (removeBlock entry) = p.before ++ p.after := by
    unfold removeBlock
    rw [hbefore, hafter, inclusive_append (hcut.lineEnd (by rw [hlines]; simp)),
      inclusive_of_cut hcut.left, inclusive_of_cut hcut.right.right]
  have hsplit := sections_split p.before hl hrest hhead
  rw [← hlines, hall] at hsplit
  have hjoined : sections queueHeading (p.before ++ p.after) =
      sections queueHeading p.before ++ sections queueHeading p.after := by
    have htake : p.after.takeWhile (fun x => (queueHeading x).isNone) = [] := by
      cases hcase : p.after with
      | nil => rfl
      | cons x after =>
        have hx := hhead x (by rw [hcase]; rfl)
        cases hkey : queueHeading x with
        | none => exact absurd hkey hx
        | some key => simp [hkey]
    rw [sections_append, htake, extendLast_nil]
  have hblocks := queueBlocks hwanted content
  have hown : (wantedHeader taskId).isPrefixOf p.lines.flatten = true := by
    have := (List.mem_filter.1 (show p ∈ _ by rw [hone]; simp)).2
    rwa [wanted_block hwanted hp] at this
  rw [hone, hsplit, List.map_append, List.map_cons, List.map_cons,
    List.filter_append, List.filter_cons, if_pos hown] at hblocks
  have hlen := congrArg List.length hblocks
  simp only [List.length_append, List.length_cons, List.length_map, List.length_nil] at hlen
  have hblocks' := congrArg List.length (queueBlocks hwanted (removeBlock entry))
  rw [hinclusive, hjoined, List.map_append, List.filter_append, List.length_append,
    List.length_map] at hblocks'
  constructor
  · have hnone := List.length_eq_zero_iff.1 (hblocks'.trans (by omega))
    unfold findQueueBlock
    rw [hinclusive, hnone]
  · have hcontent : content = p.before.flatten ++ (p.lines.flatten ++ p.after.flatten) := by
      rw [← List.flatten_append, ← List.flatten_append, ← List.append_assoc, hall,
        inclusive_flatten]
    unfold removeBlock
    rw [hcontent, hbefore, hafter]
    simp only [textBytes_append]
    omega

theorem queueEntry_removed {content : List Char} {entry : QueueBlock}
    (hid : isTaskId taskId = true) (h : queueEntry content taskId = .ok (some entry)) :
    queueEntry (removeBlock entry) taskId = .ok none ∧
      textBytes (removeBlock entry) ≤ textBytes content := by
  have hfind : findQueueBlock content taskId = .ok entry := by
    unfold queueEntry at h
    split at h
    · rename_i heq
      rw [heq, Option.some.inj (Except.ok.inj h)]
    · split at h <;> cases h
    · cases h
  obtain ⟨hnone, hsize⟩ := findQueueBlock_removed hid hfind
  refine ⟨?_, hsize⟩
  unfold queueEntry
  rw [hnone]
  simp

/-! ## Single writes -/

theorem readOptionalText_ok {path : String} {file text : Option (List Char)}
    (h : readOptionalText path file = .ok text) :
    text = file ∧ ∀ t, file = some t → textBytes t ≤ maxControlBytes := by
  cases file with
  | none => exact ⟨(Except.ok.inj h).symm, by simp⟩
  | some t =>
    rw [readOptionalText] at h
    split at h
    · rename_i hsize
      refine ⟨(Except.ok.inj h).symm, fun x hx => ?_⟩
      rw [← Option.some.inj hx]
      exact hsize
    · cases h

theorem readOptionalText_some {path : String} {text : List Char}
    (hsize : textBytes text ≤ maxControlBytes) :
    readOptionalText path (some text) = .ok (some text) := if_pos hsize

theorem readRequired_some {path : String} {text : List Char}
    (hsize : textBytes text ≤ maxControlBytes) :
    readRequired path (some text) = .ok text := by
  unfold readRequired
  rw [readOptionalText_some hsize]
  rfl

theorem readRequired_ok {path : String} {file : Option (List Char)} {text : List Char}
    (h : readRequired path file = .ok text) :
    file = some text ∧ textBytes text ≤ maxControlBytes := by
  unfold readRequired at h
  obtain ⟨found, hread, hvalue⟩ := bind_eq_ok.1 h
  obtain ⟨hfound, hsize⟩ := readOptionalText_ok hread
  cases found with
  | none => cases hvalue
  | some t =>
    obtain rfl : t = text := Except.ok.inj hvalue
    exact ⟨hfound.symm, hsize t hfound.symm⟩

section Runs

variable {s t : ControlFiles} {Q : Except (Halt ControlError) Unit → ControlFiles → Unit → Prop}

/-- Any link between durable states. -/
abbrev anyLink : ControlFiles → ControlFiles → Prop := fun _ _ => True

theorem runs_writeText {path : String} {text : List Char} {f : ControlFiles → ControlFiles}
    (hstay : ∀ e, Q (.error e) s ())
    (hdone : textBytes text ≤ maxControlBytes →
      Q (.error .interrupted) (f s) () ∧ Q (.ok ()) (f s) ()) :
    Runs id anyLink (writeText path text f) s () Q := by
  unfold writeText
  split
  · rename_i hsize
    exact runs_atomically (f s) rfl trivial (hdone hsize).2 (hdone hsize).1 (hstay _)
  · exact runs_refuse (hstay _)

theorem completes_writeText {path : String} {text : List Char} {f : ControlFiles → ControlFiles}
    (hsize : textBytes text ≤ maxControlBytes) :
    Completes (writeText path text f) s () (.ok ()) (f s) := by
  unfold writeText
  rw [if_pos hsize]
  exact completes_atomically f

theorem steady_writeText {path : String} {text : List Char} {f : ControlFiles → ControlFiles} :
    Steady (writeText path text f) := by
  unfold writeText
  split
  · exact steady_atomically f
  · exact steady_refuse _

/-- A check goes on with its value, or not at all. -/
theorem runs_check {α : Type} {x : Control α} {f : α → ControlProg Unit}
    (hstay : ∀ e, Q (.error e) s ()) (hgo : ∀ a, x = .ok a → Runs id anyLink (f a) s () Q) :
    Runs id anyLink (attempt x >>= f) s () Q :=
  runs_bind (runs_attempt (fun a ha => hgo a ha) fun _ _ => hstay _)

/-! ## Marking -/

/-- Everything `mark_task_done_for_archive` reads before it writes. -/
structure MarkReady (s : ControlFiles) (taskId : String) (text : List Char) (state : TaskState)
    (queue : List Char) (entry : Option QueueBlock) : Prop where
  validId : isTaskId taskId = true
  reads : readDescriptor s taskId = .ok text
  mayArchive : publishable taskId text = .ok state
  readsQueue : readRequired s.queuePath s.queue = .ok queue
  finds : queueEntry queue taskId = .ok entry
  allowed : checkQueueEntry taskId state entry = .ok ()

/-- The descriptor is `done`. -/
def halfMarked (s : ControlFiles) (taskId : String) (text : List Char) : ControlFiles :=
  s.setDescriptor taskId (some (markedDescriptor text))

/-- The block is gone, too. -/
def fullyMarked (s : ControlFiles) (taskId : String) (text : List Char) :
    Option QueueBlock → ControlFiles
  | some entry => { halfMarked s taskId text with queue := some (removeBlock entry) }
  | none => halfMarked s taskId text

theorem setDescriptor_same {text : List Char} (h : s.descriptor taskId = some text) :
    s.setDescriptor taskId (some text) = s := by
  unfold ControlFiles.setDescriptor
  have : (fun id => if id = taskId then some text else s.descriptor id) = s.descriptor := by
    funext id
    split
    · rename_i hid
      rw [hid, h]
    · rfl
  rw [this]

theorem publishable_ok {text : List Char} {state : TaskState}
    (h : publishable taskId text = .ok state) :
    descriptorState text = some state ∧ (state = .published ∨ state = .done) := by
  unfold publishable at h
  split at h
  · cases h
  · rename_i found heq
    obtain ⟨_, hdemand, hvalue⟩ := bind_eq_ok.1 h
    obtain rfl : found = state := Except.ok.inj hvalue
    exact ⟨heq, demand_eq_ok.1 hdemand⟩

theorem publishable_done {text : List Char} (h : descriptorState text = some .done) :
    publishable taskId text = .ok .done := by
  unfold publishable
  rw [h]
  rfl

theorem markedDescriptor_done {text : List Char} (h : descriptorState text = some .done) :
    markedDescriptor text = text := by
  unfold markedDescriptor
  rw [h, if_neg (by simp)]

theorem readDescriptor_ok {text : List Char} (h : readDescriptor s taskId = .ok text) :
    s.descriptor taskId = some text ∧ textBytes text ≤ maxControlBytes := readRequired_ok h

variable (taskId s) in
theorem readDescriptor_set {text : List Char} (hsize : textBytes text ≤ maxControlBytes) :
    readDescriptor (s.setDescriptor taskId (some text)) taskId = .ok text := by
  unfold readDescriptor ControlFiles.setDescriptor
  simp only [if_true]
  exact readRequired_some hsize

variable {text queue : List Char} {state : TaskState} {entry : Option QueueBlock}

/-- The transition from published to done is a legal one. -/
theorem completes_patchDescriptor (hid : isTaskId taskId = true)
    (htext : readDescriptor s taskId = .ok text)
    (hstate : descriptorState text = some .published)
    (hsize : textBytes (markedDescriptor text) ≤ maxControlBytes) :
    Completes (patchDescriptor taskId .done) s () (.ok ()) (halfMarked s taskId text) := by
  have hmarked : markedDescriptor text =
      setLineField text "Статус:" (TaskState.literal .done) := if_pos hstate
  have hcheck : patchDescriptor.checkTransition taskId (descriptorState text) .done = .ok () := by
    rw [hstate]
    exact demand_true (.inr rfl)
  unfold patchDescriptor halfMarked
  refine completes_check (demand_true hid) (completes_onDisk (completes_check htext
    (completes_check hcheck ?_)))
  rw [hmarked] at hsize ⊢
  exact completes_writeText hsize

theorem runs_patchDescriptor (htext : readDescriptor s taskId = .ok text)
    (hstate : descriptorState text = some .published) (hstay : ∀ e, Q (.error e) s ())
    (hdone : textBytes (markedDescriptor text) ≤ maxControlBytes →
      Q (.error .interrupted) (halfMarked s taskId text) () ∧
        Q (.ok ()) (halfMarked s taskId text) ()) :
    Runs id anyLink (patchDescriptor taskId .done) s () Q := by
  have hmarked : markedDescriptor text =
      setLineField text "Статус:" (TaskState.literal .done) := if_pos hstate
  unfold halfMarked at hdone
  unfold patchDescriptor
  refine runs_check hstay fun _ _ => runs_onDisk (runs_check hstay fun content hcontent => ?_)
  obtain rfl : content = text := Except.ok.inj (hcontent.symm.trans htext)
  refine runs_check hstay fun _ _ => runs_writeText hstay ?_
  rw [hmarked] at hdone
  exact hdone

/-- **Marking, disturbed or not**: nothing is written, or the descriptor, or the queue, too. -/
theorem runs_markTaskDone (hstay : ∀ e, Q (.error e) s ())
    (hgo : ∀ text state queue entry, MarkReady s taskId text state queue entry →
      textBytes (markedDescriptor text) ≤ maxControlBytes →
      (∀ e, Q (.error e) (halfMarked s taskId text) ()) ∧
        (∀ e, Q (.error e) (fullyMarked s taskId text entry) ()) ∧
        Q (.ok ()) (fullyMarked s taskId text entry) ()) :
    Runs id anyLink (markTaskDoneForArchive taskId) s () Q := by
  unfold markTaskDoneForArchive
  refine runs_check hstay fun _ hid => runs_onDisk (runs_check hstay fun text htext => ?_)
  refine runs_check hstay fun state hstate => runs_check hstay fun queue hqueue => ?_
  refine runs_check hstay fun entry hentry => runs_check hstay fun _ hallowed => ?_
  have hready : MarkReady s taskId text state queue entry :=
    ⟨demand_eq_ok.1 hid, htext, hstate, hqueue, hentry, hallowed⟩
  obtain ⟨hfound, hcase⟩ := publishable_ok hstate
  -- the block is dropped behind either branch
  have hdrop : textBytes (markedDescriptor text) ≤ maxControlBytes →
      Runs id anyLink (dropQueueBlock s entry) (halfMarked s taskId text) () Q := by
    intro hsize
    obtain ⟨hhalf, hfull, hok⟩ := hgo text state queue entry hready hsize
    cases entry with
    | none => exact runs_pure hok
    | some entry => exact runs_writeText hhalf fun _ => ⟨hfull _, hok⟩
  refine runs_bind ?_
  split
  · rename_i hpublished
    rw [hpublished] at hfound
    refine runs_patchDescriptor htext hfound (fun e => hstay e) fun hsize => ?_
    exact ⟨(hgo text state queue entry hready hsize).1 _, hdrop hsize⟩
  · rename_i hnot
    have hdone : state = .done := hcase.resolve_left hnot
    rw [hdone] at hfound
    obtain ⟨hhas, hsize⟩ := readDescriptor_ok htext
    have hmarked := markedDescriptor_done hfound
    have hsame : halfMarked s taskId text = s := by
      unfold halfMarked
      rw [hmarked]
      exact setDescriptor_same hhas
    have hrest := hdrop (by rw [hmarked]; exact hsize)
    rw [hsame] at hrest
    exact runs_pure hrest

theorem completes_markTaskDone (hready : MarkReady s taskId text state queue entry)
    (hsize : textBytes (markedDescriptor text) ≤ maxControlBytes) :
    Completes (markTaskDoneForArchive taskId) s () (.ok ()) (fullyMarked s taskId text entry) := by
  obtain ⟨hfound, hcase⟩ := publishable_ok hready.mayArchive
  unfold markTaskDoneForArchive
  refine completes_check (demand_true hready.validId) (completes_onDisk
    (completes_check hready.reads (completes_check hready.mayArchive
      (completes_check hready.readsQueue (completes_check hready.finds
        (completes_check hready.allowed ?_))))))
  have hdrop : Completes (dropQueueBlock s entry) (halfMarked s taskId text) () (.ok ())
      (fullyMarked s taskId text entry) := by
    have hentry := hready.finds
    cases entry with
    | none => exact completes_pure ()
    | some entry =>
      have hsmaller := (queueEntry_removed hready.validId hentry).2
      exact completes_writeText (hsmaller.trans (readRequired_ok hready.readsQueue).2)
  refine completes_bind (a := ()) ?_ hdrop
  split
  · rename_i hpublished
    rw [hpublished] at hfound
    exact completes_patchDescriptor hready.validId hready.reads hfound hsize
  · rename_i hnot
    have hdone : state = .done := hcase.resolve_left hnot
    rw [hdone] at hfound
    have hsame : halfMarked s taskId text = s := by
      unfold halfMarked
      rw [markedDescriptor_done hfound]
      exact setDescriptor_same (readDescriptor_ok hready.reads).1
    rw [hsame]
    exact completes_pure ()

theorem checkQueueEntry_done (h : checkQueueEntry taskId state entry = .ok ()) :
    checkQueueEntry taskId .done entry = .ok () := by
  cases entry with
  | none => exact demand_true rfl
  | some entry => exact h

/-- What the first write leaves is ready for the same end. -/
theorem MarkReady.half (hready : MarkReady s taskId text state queue entry)
    (hsize : textBytes (markedDescriptor text) ≤ maxControlBytes)
    (hdone : descriptorState (markedDescriptor text) = some .done) :
    MarkReady (halfMarked s taskId text) taskId (markedDescriptor text) .done queue entry ∧
      fullyMarked (halfMarked s taskId text) taskId (markedDescriptor text) entry =
        fullyMarked s taskId text entry := by
  have hreads := readDescriptor_set taskId s hsize
  refine ⟨⟨hready.validId, hreads, publishable_done hdone, hready.readsQueue, hready.finds,
    checkQueueEntry_done hready.allowed⟩, ?_⟩
  have hsame : halfMarked (halfMarked s taskId text) taskId (markedDescriptor text) =
      halfMarked s taskId text := by
    unfold halfMarked
    rw [markedDescriptor_done hdone]
    exact setDescriptor_same (readDescriptor_ok hreads).1
  cases entry with
  | none => exact hsame
  | some entry =>
    unfold fullyMarked
    rw [hsame]

/-- A task whose descriptor is done and which the queue does not have. -/
structure Marked (s : ControlFiles) (taskId : String) (text : List Char) : Prop where
  validId : isTaskId taskId = true
  reads : readDescriptor s taskId = .ok text
  done : descriptorState text = some .done
  gone : ∃ queue, readRequired s.queuePath s.queue = .ok queue ∧ queueEntry queue taskId = .ok none

theorem MarkReady.full (hready : MarkReady s taskId text state queue entry)
    (hsize : textBytes (markedDescriptor text) ≤ maxControlBytes)
    (hdone : descriptorState (markedDescriptor text) = some .done) :
    Marked (fullyMarked s taskId text entry) taskId (markedDescriptor text) := by
  have hreads := readDescriptor_set taskId s hsize
  have hfinds := hready.finds
  cases entry with
  | none => exact ⟨hready.validId, hreads, hdone, queue, hready.readsQueue, hfinds⟩
  | some entry =>
    obtain ⟨hnone, hsmaller⟩ := queueEntry_removed hready.validId hfinds
    refine ⟨hready.validId, hreads, hdone, removeBlock entry, ?_, hnone⟩
    exact readRequired_some (hsmaller.trans (readRequired_ok hready.readsQueue).2)

/-- A marked task is marked again without a write. -/
theorem Marked.completes (hmarked : Marked s taskId text) :
    Completes (markTaskDoneForArchive taskId) s () (.ok ()) s := by
  obtain ⟨queue, hqueue, hnone⟩ := hmarked.gone
  obtain ⟨hhas, hsize⟩ := readDescriptor_ok hmarked.reads
  have hready : MarkReady s taskId text .done queue none :=
    ⟨hmarked.validId, hmarked.reads, publishable_done hmarked.done, hqueue, hnone,
      demand_true rfl⟩
  have hsame := markedDescriptor_done hmarked.done
  have hcompletes := completes_markTaskDone hready (by rw [hsame]; exact hsize)
  have hfull : fullyMarked s taskId text none = s := by
    unfold fullyMarked halfMarked
    rw [hsame]
    exact setDescriptor_same hhas
  rwa [hfull] at hcompletes

/-! ## Recording -/

variable {metrics : List Char}

/-- The archive text a call starts from. -/
def archiveText (s : ControlFiles) : List Char := s.done.getD "# Completed tasks\n\n".toList

/-- The disk with the archive a call writes. -/
def archivedAs (s : ControlFiles) : Option (List Char) → ControlFiles
  | some new => { s with done := some new }
  | none => s

variable (alphanumeric) in
/-- What a call reads and checks, up to what it writes. -/
structure Archives (s : ControlFiles) (taskId batchId : String) (metrics text : List Char)
    (projected : Option (List Char)) : Prop where
  validId : isTaskId taskId = true
  validBatch : ControlPlane.validateBatchId batchId = .ok ()
  validMetrics : validateTaskMetricsBlock alphanumeric metrics taskId batchId = .ok ()
  reads : readDescriptor s taskId = .ok text
  done : descriptorState text = some .done
  readsDone : readOptionalText s.donePath s.done = .ok s.done
  writes : projectedArchive alphanumeric taskId batchId
    (formatArchiveSection alphanumeric taskId text metrics) (archiveText s) = .ok projected
  fits : ∀ new, projected = some new → textBytes new ≤ maxControlBytes

namespace Archives

variable {projected : Option (List Char)}

theorem recorded (h : Archives alphanumeric s taskId batchId metrics text projected)
    (hplain : Plain alphanumeric taskId batchId text) :
    Recorded taskId batchId (archiveParts alphanumeric (archiveText s))
      (archiveParts alphanumeric (projected.getD (archiveText s))) := by
  have hbatch : contains batchId '\n' = false :=
    (demand_eq_ok.1 h.validBatch).2.2.2.2
  exact projectedArchive_spec (formatArchiveSection_spec h.validId hbatch h.validMetrics hplain)
    h.writes

/-- The archive a call begins has no section. -/
theorem sectionsOf_empty : sectionsOf alphanumeric taskId "# Completed tasks\n\n".toList = [] := rfl

/-- Where a call has nothing to write, there is an archive. -/
theorem archive_is (h : Archives alphanumeric s taskId batchId metrics text projected) :
    (archivedAs s projected).done = some (projected.getD (archiveText s)) ∧
      textBytes (projected.getD (archiveText s)) ≤ maxControlBytes := by
  cases hcase : projected with
  | some new => exact ⟨rfl, h.fits new hcase⟩
  | none =>
    have hwrites := h.writes
    rw [hcase] at hwrites
    cases hdone : s.done with
    | none =>
      unfold projectedArchive archiveText at hwrites
      rw [hdone, Option.getD_none, sectionsOf_empty] at hwrites
      cases hwrites
    | some done =>
      refine ⟨by simp [archivedAs, archiveText, hdone], ?_⟩
      simpa [archiveText, hdone] using (readOptionalText_ok h.readsDone).2 done hdone

theorem verified (h : Archives alphanumeric s taskId batchId metrics text projected)
    (hplain : Plain alphanumeric taskId batchId text) (path : String) :
    readRequired path (archivedAs s projected).done = .ok (projected.getD (archiveText s)) ∧
      verifyArchive alphanumeric taskId batchId (projected.getD (archiveText s)) = .ok () := by
  obtain ⟨hdone, hsize⟩ := h.archive_is
  rw [hdone]
  exact ⟨readRequired_some hsize, ((h.recorded hplain).projected []).2⟩

/-- **Undisturbed**, the call records the task. -/
theorem completes (h : Archives alphanumeric s taskId batchId metrics text projected)
    (hplain : Plain alphanumeric taskId batchId text) :
    Completes (projectTaskArchive alphanumeric taskId batchId metrics) s () (.ok ())
      (archivedAs s projected) := by
  obtain ⟨hread, hverify⟩ := h.verified hplain (archivedAs s projected).donePath
  unfold projectTaskArchive
  refine completes_check (demand_true h.validId) (completes_check h.validBatch
    (completes_check h.validMetrics (completes_onDisk (completes_check h.reads
      (completes_check (demand_true h.done) (completes_check h.readsDone
        (completes_check h.writes ?_)))))))
  have hwrite : Completes (writeArchive s projected) s () (.ok ()) (archivedAs s projected) := by
    cases hcase : projected with
    | none => exact completes_pure ()
    | some new => exact completes_writeText (h.fits new hcase)
  exact completes_bind hwrite
    (completes_onDisk (completes_check hread (completes_attempt hverify)))

/-- The next call has nothing to write. -/
theorem again (h : Archives alphanumeric s taskId batchId metrics text projected)
    (hplain : Plain alphanumeric taskId batchId text) :
    Archives alphanumeric (archivedAs s projected) taskId batchId metrics text none := by
  obtain ⟨hdone, hsize⟩ := h.archive_is
  refine ⟨h.validId, h.validBatch, h.validMetrics, ?_, h.done, ?_, ?_, by simp⟩
  · cases projected with
    | none => exact h.reads
    | some new => exact h.reads
  · rw [hdone]
    exact readOptionalText_some hsize
  · have htext : archiveText (archivedAs s projected) = projected.getD (archiveText s) := by
      unfold archiveText
      rw [hdone]
      rfl
    rw [htext]
    exact ((h.recorded hplain).projected _).1

end Archives

/-- **Recording, disturbed or not**: nothing is written, or the archive with the task. -/
theorem runs_projectTaskArchive
    (hplain : ∀ text, s.descriptor taskId = some text → descriptorState text = some .done →
      Plain alphanumeric taskId batchId text)
    (hstay : ∀ e, Q (.error e) s ())
    (hgo : ∀ text projected,
      Archives alphanumeric s taskId batchId metrics text projected →
      Q (.error .interrupted) (archivedAs s projected) () ∧
        Q (.ok ()) (archivedAs s projected) ()) :
    Runs id anyLink (projectTaskArchive alphanumeric taskId batchId metrics) s () Q := by
  unfold projectTaskArchive
  refine runs_check hstay fun _ hid => runs_check hstay fun _ hbatch => ?_
  refine runs_check hstay fun _ hmetrics => runs_onDisk (runs_check hstay fun text htext => ?_)
  refine runs_check hstay fun _ hdone => runs_check hstay fun done hread => ?_
  refine runs_check hstay fun projected hprojected => ?_
  obtain ⟨rfl, -⟩ := readOptionalText_ok hread
  have hready : (∀ new, projected = some new → textBytes new ≤ maxControlBytes) →
      Archives alphanumeric s taskId batchId metrics text projected :=
    fun hfits => ⟨demand_eq_ok.1 hid, hbatch, hmetrics, htext, demand_eq_ok.1 hdone, hread,
      hprojected, hfits⟩
  -- behind the write, the verification cannot fail
  have hverify : (∀ new, projected = some new → textBytes new ≤ maxControlBytes) →
      Runs id anyLink (onDisk >>= fun s => attempt (readRequired s.donePath s.done) >>=
        fun verified => attempt (verifyArchive alphanumeric taskId batchId verified))
        (archivedAs s projected) () Q := by
    intro hfits
    have harchives := hready hfits
    obtain ⟨hread', hverified⟩ := harchives.verified
      (hplain text (readDescriptor_ok htext).1 harchives.done) (archivedAs s projected).donePath
    refine runs_onDisk (runs_bind (runs_attempt (fun found hfound => ?_) fun e he => ?_))
    · obtain rfl := Except.ok.inj (hfound.symm.trans hread')
      refine runs_attempt (fun _ _ => (hgo text projected harchives).2) fun e he => ?_
      cases he.symm.trans hverified
    · cases he.symm.trans hread'
  refine runs_bind ?_
  cases projected with
  | none => exact runs_pure (hverify (by simp))
  | some new =>
    refine runs_writeText (fun e => hstay e) fun hsize => ?_
    have hfits : ∀ x, some new = some x → textBytes x ≤ maxControlBytes := by
      rintro x hx
      rw [← Option.some.inj hx]
      exact hsize
    exact ⟨(hgo text (some new) (hready hfits)).1, hverify hfits⟩

/-! ## The three steps -/

theorem steady_check {α : Type} {f : α → ControlProg Unit} {x : Control α}
    (h : ∀ a, Steady (f a)) : Steady (attempt x >>= f) :=
  steady_bind (steady_attempt x) h

theorem steady_projectTaskArchive :
    Steady (projectTaskArchive alphanumeric taskId batchId metrics) := by
  unfold projectTaskArchive
  refine steady_check fun _ => steady_check fun _ => steady_check fun _ => ?_
  refine steady_onDisk fun s => steady_check fun _ => steady_check fun _ => ?_
  refine steady_check fun _ => steady_check fun projected => steady_bind ?_ fun _ => ?_
  · cases projected with
    | none => exact steady_pure ()
    | some new => exact steady_writeText
  · exact steady_onDisk fun _ => steady_check fun _ => steady_attempt _

theorem steady_removeTerminal : Steady (removeTerminalTaskDescriptor taskId) := by
  unfold removeTerminalTaskDescriptor
  refine steady_check fun _ => steady_onDisk fun s => ?_
  split
  · exact steady_pure ()
  · exact steady_check fun _ => steady_check fun _ => steady_atomically _

/-- A descriptor that is done may be removed. -/
theorem Marked.removes (hmarked : Marked s taskId text) :
    Completes (removeTerminalTaskDescriptor taskId) s () (.ok ())
      (s.setDescriptor taskId none) := by
  have hhas := (readDescriptor_ok hmarked.reads).1
  have hremovable : removable taskId text = .ok () := by
    unfold removable
    rw [hmarked.done]
    rfl
  unfold removeTerminalTaskDescriptor
  refine completes_check (demand_true hmarked.validId) (completes_onDisk ?_)
  rw [hhas]
  exact completes_check hmarked.reads (completes_check hremovable (completes_atomically _))

theorem runs_removeTerminal (hstay : ∀ r, Q r s ())
    (hgone : ∀ r, Q r (s.setDescriptor taskId none) ()) :
    Runs id anyLink (removeTerminalTaskDescriptor taskId) s () Q := by
  unfold removeTerminalTaskDescriptor
  refine runs_check (fun e => hstay _) fun _ _ => runs_onDisk ?_
  split
  · exact runs_pure (hstay _)
  · refine runs_check (fun e => hstay _) fun _ _ => runs_check (fun e => hstay _) fun _ _ => ?_
    exact runs_atomically _ rfl trivial (hgone _) (hgone _) (hstay _)

variable (alphanumeric batchId metrics) in
/-- Without its descriptor a task is not marked. -/
theorem completes_gone (hid : isTaskId taskId = true) (hnone : s.descriptor taskId = none) :
    ∃ e, Completes (retireTask alphanumeric taskId batchId metrics) s () (.error e) s := by
  have hread : ∃ e, readDescriptor s taskId = .error e := by
    unfold readDescriptor
    rw [hnone]
    exact ⟨_, rfl⟩
  obtain ⟨e, hread⟩ := hread
  refine ⟨.failed e, completes_bind_error ?_⟩
  unfold markTaskDoneForArchive
  refine completes_check (demand_true hid) (completes_onDisk (completes_bind_error ?_))
  rw [hread]
  exact completes_refuse e

theorem Marked.archived (hmarked : Marked s taskId text) (projected : Option (List Char)) :
    Marked (archivedAs s projected) taskId text := by
  cases projected with
  | none => exact hmarked
  | some new => exact ⟨hmarked.validId, hmarked.reads, hmarked.done, hmarked.gone⟩

/-- What may be left behind a marked task leads to one end. -/
theorem Marked.runs (hmarked : Marked s taskId text)
    (hplain : Plain alphanumeric taskId batchId text)
    (hend : SameEnd (retireTask alphanumeric taskId batchId metrics) () t s) :
    Runs id anyLink (projectTaskArchive alphanumeric taskId batchId metrics >>= fun _ =>
        removeTerminalTaskDescriptor taskId) s ()
      fun _ u _ => SameEnd (retireTask alphanumeric taskId batchId metrics) () t u := by
  have hhas := (readDescriptor_ok hmarked.reads).1
  refine runs_bind (runs_projectTaskArchive ?_ (fun _ => hend) ?_)
  · intro found hfound _
    obtain rfl := Option.some.inj (hfound.symm.trans hhas)
    exact hplain
  · intro found projected harchives
    obtain rfl := Except.ok.inj (harchives.reads.symm.trans hmarked.reads)
    have hmarked' := hmarked.archived projected
    have hfirst := harchives.completes hplain
    have hagain := (harchives.again hplain).completes hplain
    have hremoves := hmarked'.removes
    -- from either disk, the archive is as it is here when the descriptor goes
    have hrun : Completes (retireTask alphanumeric taskId batchId metrics) s () (.ok ())
        ((archivedAs s projected).setDescriptor taskId none) :=
      completes_bind hmarked.completes (completes_bind hfirst hremoves)
    have hrun' : Completes (retireTask alphanumeric taskId batchId metrics)
        (archivedAs s projected) () (.ok ())
        ((archivedAs s projected).setDescriptor taskId none) :=
      completes_bind hmarked'.completes (completes_bind hagain hremoves)
    have harchived := hend.trans (sameEnd_of_completes hrun hrun')
    have hgone : ((archivedAs s projected).setDescriptor taskId none).descriptor taskId = none :=
      if_pos rfl
    obtain ⟨e, hgoneRun⟩ := completes_gone alphanumeric batchId metrics hmarked.validId hgone
    have hremoved := hend.trans (sameEnd_of_completes hrun hgoneRun)
    exact ⟨harchived, runs_removeTerminal (fun _ => harchived) fun _ => hremoved⟩

/-- **A retirement disturbed anywhere** leaves a disk that leads to the same end. -/
theorem runs_retireTask
    (hdone : ∀ text, s.descriptor taskId = some text →
      descriptorState text = some .published → descriptorState (markedDescriptor text) = some .done)
    (hplain : ∀ text, s.descriptor taskId = some text →
      Plain alphanumeric taskId batchId (markedDescriptor text)) :
    Runs id anyLink (retireTask alphanumeric taskId batchId metrics) s ()
      fun _ t _ => SameEnd (retireTask alphanumeric taskId batchId metrics) () s t := by
  unfold retireTask
  refine runs_bind (runs_markTaskDone (fun _ => SameEnd.rfl) ?_)
  intro text state queue entry hready hsize
  obtain ⟨hhas, -⟩ := readDescriptor_ok hready.reads
  obtain ⟨hfound, hcase⟩ := publishable_ok hready.mayArchive
  have hmarkedDone : descriptorState (markedDescriptor text) = some .done := by
    rcases hcase with rfl | rfl
    · exact hdone text hhas hfound
    · rw [markedDescriptor_done hfound]
      exact hfound
  obtain ⟨hhalf, hsame⟩ := hready.half hsize hmarkedDone
  have hfull := hready.full hsize hmarkedDone
  have hsteady : Steady (projectTaskArchive alphanumeric taskId batchId metrics >>= fun _ =>
      removeTerminalTaskDescriptor taskId) :=
    steady_bind steady_projectTaskArchive fun _ => steady_removeTerminal
  have hrun := completes_markTaskDone hready hsize
  have hrunHalf := completes_markTaskDone hhalf (by
    rw [markedDescriptor_done hmarkedDone]
    exact hsize)
  rw [hsame] at hrunHalf
  have hendHalf : SameEnd (retireTask alphanumeric taskId batchId metrics) () s
      (halfMarked s taskId text) := sameEnd_bind hsteady hrun hrunHalf
  have hendFull : SameEnd (retireTask alphanumeric taskId batchId metrics) () s
      (fullyMarked s taskId text entry) := sameEnd_bind hsteady hrun hfull.completes
  exact ⟨fun _ => hendHalf, fun _ => hendFull, hfull.runs (hplain text hhas) hendFull⟩

end Runs

/-! ## The archive of a task -/

/-- The sections of an archive file, each with its task. -/
def sectionTexts (alphanumeric : Char → Bool) (file : Option (List Char)) :
    List (String × List Char) :=
  match file with
  | none => []
  | some text => (archiveSections alphanumeric text).map fun p => (p.taskId, p.text)

theorem sectionTexts_archiveText (s : ControlFiles) :
    sectionTexts alphanumeric s.done = archiveParts alphanumeric (archiveText s) := by
  unfold sectionTexts archiveText
  cases s.done with
  | none => rfl
  | some text => exact archiveSections_parts text

theorem tryCompletedIds_ok {s : ControlFiles}
    (hread : readOptionalText s.donePath s.done = .ok s.done) :
    tryCompletedIds alphanumeric s =
      .ok ((sectionTexts alphanumeric s.done).map Prod.fst).toFinset := by
  unfold tryCompletedIds
  rw [hread]
  cases hdone : s.done with
  | none => rfl
  | some text =>
    show Except.ok _ = _
    rw [completed_keys]
    exact congrArg _ (congrArg _ (congrArg _ (archiveSections_parts text).symm))

/-- From `s` to `t`, the archive has recorded the task, and nothing else has changed. -/
structure ArchivedOnce (alphanumeric : Char → Bool) (taskId batchId : String)
    (metrics : List Char) (s t : ControlFiles) : Prop where
  /-- the completed ids -/
  ids : ∃ ids, tryCompletedIds alphanumeric s = .ok ids ∧
    tryCompletedIds alphanumeric t = .ok (insert taskId ids)
  /-- the sections -/
  recorded : Recorded taskId batchId (sectionTexts alphanumeric s.done)
    (sectionTexts alphanumeric t.done)
  /-- the other files -/
  frame : ∃ done, t = { s with done := some done }
  complete : taskArchiveComplete alphanumeric t taskId batchId = .ok true
  /-- another call -/
  stable : ∀ faults,
    ((projectTaskArchive alphanumeric taskId batchId metrics).run ⟨t, (), faults, []⟩).2.disk = t

theorem Archives.once {s : ControlFiles} {metrics text : List Char}
    {projected : Option (List Char)}
    (h : Archives alphanumeric s taskId batchId metrics text projected)
    (hplain : Plain alphanumeric taskId batchId text) :
    ArchivedOnce alphanumeric taskId batchId metrics s (archivedAs s projected) := by
  obtain ⟨hdone, hsize⟩ := h.archive_is
  have hagain := h.again hplain
  have hrecorded : Recorded taskId batchId (sectionTexts alphanumeric s.done)
      (sectionTexts alphanumeric (archivedAs s projected).done) := by
    have := h.recorded hplain
    rw [sectionTexts_archiveText, sectionTexts_archiveText]
    unfold archiveText at this ⊢
    rw [hdone]
    exact this
  refine ⟨⟨_, tryCompletedIds_ok h.readsDone, ?_⟩, hrecorded, ?_, ?_, ?_⟩
  · rw [tryCompletedIds_ok hagain.readsDone, hrecorded.keys]
  · refine ⟨projected.getD (archiveText s), ?_⟩
    cases projected with
    | some new => rfl
    | none => exact congrArg (fun done => { s with done := done }) hdone
  · obtain ⟨existing, hone, hcount⟩ := (h.recorded hplain).section
    unfold taskArchiveComplete
    rw [hagain.readsDone, hdone]
    rw [show ControlPlane.validateTaskId taskId = .ok () from demand_true h.validId, h.validBatch]
    dsimp only [bind, Except.bind]
    rw [hone]
    show Except.ok (countMarkers taskId batchId existing.text == 1) = _
    rw [hcount]
    rfl
  · intro faults
    have hruns : Runs id anyLink (projectTaskArchive alphanumeric taskId batchId metrics)
        (archivedAs s projected) () fun _ t _ => t = archivedAs s projected := by
      refine runs_projectTaskArchive ?_ (fun _ => rfl) ?_
      · intro found hfound _
        obtain rfl := Option.some.inj (hfound.symm.trans (readDescriptor_ok hagain.reads).1)
        exact hplain
      · intro found again harchives
        obtain rfl := Except.ok.inj (harchives.reads.symm.trans hagain.reads)
        obtain rfl := Except.ok.inj (harchives.writes.symm.trans hagain.writes)
        exact ⟨rfl, rfl⟩
    obtain ⟨⟨passed, t, -, -, hdisk, hsame⟩, -⟩ := hruns faults []
    exact hdisk.trans hsame

/-- **The archive records exactly the completed task**, and retiring it may be interrupted: a call
that returns has recorded the task, one that refuses has changed nothing, one that is interrupted
has done the one or the other; and what an interrupted retirement leaves on disk leads to the end
it would have had. -/
theorem task_archived (alphanumeric : Char → Bool) (s : ControlFiles) (taskId batchId : String)
    (metrics : List Char)
    (hplain : ∀ text, s.descriptor taskId = some text →
      Plain alphanumeric taskId batchId (markedDescriptor text)) (faults : List (Option Fault)) :
    let out := (projectTaskArchive alphanumeric taskId batchId metrics).run ⟨s, (), faults, []⟩
    (out.1 = .ok () → ArchivedOnce alphanumeric taskId batchId metrics s out.2.disk) ∧
      (∀ e, out.1 = .error (.failed e) → out.2.disk = s) ∧
      (out.1 = .error .interrupted → out.2.disk = s ∨
        ArchivedOnce alphanumeric taskId batchId metrics s out.2.disk) ∧
      ((∀ text, s.descriptor taskId = some text → descriptorState text = some .published →
          descriptorState (markedDescriptor text) = some .done) →
        let retire := retireTask alphanumeric taskId batchId metrics
        (retire.run ⟨(retire.run ⟨s, (), faults, []⟩).2.disk, (), [], []⟩).2.disk =
          (retire.run ⟨s, (), [], []⟩).2.disk) := by
  have hplain' : ∀ text, s.descriptor taskId = some text → descriptorState text = some .done →
      Plain alphanumeric taskId batchId text := by
    intro text htext hdone
    have := hplain text htext
    rwa [markedDescriptor_done hdone] at this
  have hruns : Runs id anyLink (projectTaskArchive alphanumeric taskId batchId metrics) s ()
      fun r t _ => (r = .ok () → ArchivedOnce alphanumeric taskId batchId metrics s t) ∧
        (∀ e, r = .error (.failed e) → t = s) ∧
        (r = .error .interrupted → t = s ∨
          ArchivedOnce alphanumeric taskId batchId metrics s t) := by
    refine runs_projectTaskArchive hplain' ?_ ?_
    · exact fun e => ⟨fun h => by (cases h), fun _ _ => rfl, fun _ => .inl rfl⟩
    · intro text projected harchives
      have honce := harchives.once
        (hplain' text (readDescriptor_ok harchives.reads).1 harchives.done)
      exact ⟨⟨fun h => by (cases h), fun _ h => by (cases h), fun _ => .inr honce⟩,
        ⟨fun _ => honce, fun _ h => by (cases h), fun h => by cases h⟩⟩
  obtain ⟨⟨passed, t, -, -, hdisk, hok, hfailed, hinterrupted⟩, -⟩ := hruns faults []
  have hdisk : ((projectTaskArchive alphanumeric taskId batchId metrics).run
      ⟨s, (), faults, []⟩).2.disk = t := hdisk
  intro out
  refine ⟨?_, ?_, ?_, ?_⟩
  · intro h
    exact hdisk ▸ hok h
  · intro e h
    exact hdisk.trans (hfailed e h)
  · intro h
    rcases hinterrupted h with hsame | honce
    · exact .inl (hdisk.trans hsame)
    · exact .inr (hdisk ▸ honce)
  · intro hdone
    exact rerun_same (runs_retireTask hdone hplain) faults

end Archive

namespace ArchiveSample

def letters (ch : Char) : Bool := isAsciiAlpha ch || isAsciiDigit ch

def metrics : List Char :=
  ("#### Метрики выполнения\n<!-- orchestra/task-execution-metrics@1 task_id=T-1 batch_id=B-1 " ++
    "status=complete -->\n").toList

/-- One task, as its descriptor says. -/
def work (descriptor : String) : ControlFiles where
  work := ".work"
  queue := some "# Tasks\n".toList
  done := some "### [T-7] x\n".toList
  descriptor := fun id => if id = "T-1" then some descriptor.toList else none

theorem work_descriptor (descriptor : String) :
    (work descriptor).descriptor "T-1" = some descriptor.toList := by
  unfold work
  simp

def project (descriptor : String) (faults : List (Option Fault)) :
    Except (Halt ControlError) Unit × Machine ControlFiles Unit :=
  (projectTaskArchive letters "T-1" "B-1" metrics).run ⟨work descriptor, (), faults, []⟩

/-- The completed ids that a call leaves. -/
def idsAfter (descriptor : String) (faults : List (Option Fault)) : List String :=
  (sectionTexts letters (project descriptor faults).2.disk.done).map Prod.fst

end ArchiveSample

/-- A task whose descriptor is done. -/
theorem task_archived_done :
    ArchivedOnce ArchiveSample.letters "T-1" "B-1" ArchiveSample.metrics
      (ArchiveSample.work "Статус: выполнена\n")
      ((projectTaskArchive ArchiveSample.letters "T-1" "B-1" ArchiveSample.metrics).run
        ⟨ArchiveSample.work "Статус: выполнена\n", (), [], []⟩).2.disk := by
  have hplain : ∀ text, (ArchiveSample.work "Статус: выполнена\n").descriptor "T-1" = some text →
      Plain ArchiveSample.letters "T-1" "B-1" (markedDescriptor text) := by
    intro text htext
    rw [ArchiveSample.work_descriptor] at htext
    rw [← Option.some.inj htext]
    exact ⟨by decide +kernel, by decide +kernel⟩
  have hok : ((projectTaskArchive ArchiveSample.letters "T-1" "B-1" ArchiveSample.metrics).run
      ⟨ArchiveSample.work "Статус: выполнена\n", (), [], []⟩).1 = .ok () := by decide +kernel
  exact (task_archived ArchiveSample.letters (ArchiveSample.work "Статус: выполнена\n") "T-1" "B-1"
    ArchiveSample.metrics hplain []).1 hok

/-- **The archive is more than the task**: the section in front grows by a blank line; a heading in
the descriptor archives a task that was never done and stays behind a refusal; with a marker in
front of that heading the call even returns; and a replacement may fail after it happened. -/
theorem archive_spoiled :
    (ArchiveSample.project "Статус: выполнена\n" []).1 = .ok () ∧
      othersOf "T-1" (sectionTexts ArchiveSample.letters
        (ArchiveSample.project "Статус: выполнена\n" []).2.disk.done) =
          [("T-7", "### [T-7] x\n\n".toList)] ∧
      sectionTexts ArchiveSample.letters (ArchiveSample.work "Статус: выполнена\n").done =
        [("T-7", "### [T-7] x\n".toList)] ∧
      (ArchiveSample.project "Статус: выполнена\n## [T-9] x\n" []).1 =
        .error (.failed (.contradiction
          "archive verification found an incomplete metrics block for T-1")) ∧
      ArchiveSample.idsAfter "Статус: выполнена\n## [T-9] x\n" [] = ["T-7", "T-1", "T-9"] ∧
      (ArchiveSample.project ("Статус: выполнена\n<!-- orchestra/task-execution-metrics@1 " ++
        "task_id=T-1 batch_id=B-1 status=\n## [T-9] x\n") []).1 = .ok () ∧
      ArchiveSample.idsAfter ("Статус: выполнена\n<!-- orchestra/task-execution-metrics@1 " ++
        "task_id=T-1 batch_id=B-1 status=\n## [T-9] x\n") [] = ["T-7", "T-1", "T-9"] ∧
      (ArchiveSample.project "Статус: выполнена\n" [some .unconfirmed]).1 =
        .error .interrupted ∧
      ArchiveSample.idsAfter "Статус: выполнена\n" [some .unconfirmed] = ["T-7", "T-1"] := by
  decide +kernel

end Orchestrail
