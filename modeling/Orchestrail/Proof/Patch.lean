import Orchestrail.Proof.Descriptor

/-!
# What a patch of a descriptor is read as
-/

namespace Orchestrail.Descriptor

open Text Outcome Manifest

/-! ## What a patch writes -/

def optional (field : String) (value : Option (List Char)) : List Write :=
  value.toList.map fun value => (field, value)

/-- The writes of a patch, with what it writes of the risk. -/
def writesOf (patch : DescriptorPatch) (old : Parsed) (risk : Option (List Char)) : List Write :=
  ("Статус:", patch.state.literal.toList) :: (optional "Батч:" patch.batchId ++
    optional "Ветка:" patch.branch ++ optional "Worktree:" patch.worktree ++
    optional "Волна:" (patch.wave.map decimal) ++
    optional "Реализовано:" (patch.implementationAuthor.map fun value =>
      joinAuthors (appendAuthor old.implementationAuthors value)) ++
    optional "Риск:" risk ++ optional "Ревью-SHA:" patch.reviewSha ++
    optional "Циклов-ревью:" (patch.reviewCycles.map decimal) ++
    optional "Причина:" (patch.reason.map QueueEntry.sanitizeReason))

theorem setSome_eq (field : String) (value : Option (List Char)) (content : List Char) :
    setSome field value content = writeAll (optional field value) content := by
  cases value <;> rfl

theorem writeAll_append (a b : List Write) (content : List Char) :
    writeAll (a ++ b) content = writeAll b (writeAll a content) := List.foldl_append

/-- What a patch passes, and what it writes of the risk. -/
structure Accepted (taskId : String) (patch : DescriptorPatch) (old : Parsed)
    (risk : Option (List Char)) : Prop where
  transition : checkTransition taskId old.state patch.state = .ok ()
  risk : elevatedRisk taskId old.risk patch.risk = .ok risk
  reviewSha : checkReviewSha patch.reviewSha = .ok ()

theorem patched_eq_ok {taskId : String} {patch : DescriptorPatch} {content text : List Char} :
    patched taskId patch content = .ok text ↔
      ∃ risk, Accepted taskId patch (parseDescriptor taskId content) risk ∧
        text = writeAll (writesOf patch (parseDescriptor taskId content) risk) content := by
  have hwrites : ∀ risk, writeAll (writesOf patch (parseDescriptor taskId content) risk) content =
      setSome "Причина:" (patch.reason.map QueueEntry.sanitizeReason)
        (setSome "Циклов-ревью:" (patch.reviewCycles.map decimal)
          (setSome "Ревью-SHA:" patch.reviewSha (setSome "Риск:" risk
            (setSome "Реализовано:" (patch.implementationAuthor.map fun value =>
              joinAuthors
                (appendAuthor (parseDescriptor taskId content).implementationAuthors value))
              (setSome "Волна:" (patch.wave.map decimal) (setSome "Worktree:" patch.worktree
                (setSome "Ветка:" patch.branch (setSome "Батч:" patch.batchId
                  (setLineField content "Статус:" patch.state.literal))))))))) := by
    intro risk
    have hcons : ∀ (w : Write) ws content, writeAll (w :: ws) content =
        writeAll ws (setLineField content w.1 (String.ofList w.2)) := fun _ _ _ => rfl
    unfold writesOf
    rw [hcons]
    simp only [writeAll_append, setSome_eq, String.ofList_toList]
  simp only [hwrites]
  unfold patched
  constructor
  · intro h
    dsimp only [bind, Except.bind] at h
    split at h
    · cases h
    rename_i htransition
    split at h
    · cases h
    rename_i risk hrisk
    split at h
    · cases h
    rename_i hsha
    exact ⟨risk, ⟨htransition, hrisk, hsha⟩, (Except.ok.inj h).symm⟩
  · rintro ⟨risk, ⟨htransition, hrisk, hsha⟩, rfl⟩
    dsimp only [bind, Except.bind]
    rw [htransition, hrisk, hsha]
    rfl

/-- The fields that `parse_descriptor` reads and those that `patch_descriptor` sets. -/
def fields : List String :=
  ["Статус:", "Предпосылки:", "Конфликт-домен:", "Рекомендуемый исполнитель:", "Риск:", "Сеть:",
    "Экосистема:", "Реализовано:", "Батч:", "Ветка:", "Worktree:", "Ревью-SHA:", "Циклов-ревью:",
    "Волна:", "Причина:"]

theorem isKey_of {key : List Char} (hlast : key.getLast? = some ':') (hname : ':' ∉ key.dropLast)
    (htrim : trim key = key) (hnewline : '\n' ∉ key) (hreturn : '\r' ∉ key) : IsKey key := by
  obtain ⟨name, rfl⟩ := List.getLast?_eq_some_iff.1 hlast
  rw [List.dropLast_concat] at hname
  exact ⟨⟨name, rfl, hname⟩, htrim, hnewline, hreturn⟩

theorem isKey_field {field : String} (h : field ∈ fields) : IsKey field.toList := by
  have hall : ∀ field ∈ fields, field.toList.getLast? = some ':' ∧ ':' ∉ field.toList.dropLast ∧
      trim field.toList = field.toList ∧ '\n' ∉ field.toList ∧ '\r' ∉ field.toList := by
    decide +kernel
  obtain ⟨hlast, hname, htrim, hnewline, hreturn⟩ := hall field h
  exact isKey_of hlast hname htrim hnewline hreturn

theorem lineField_writeAll {ws : List Write} (hws : ∀ w ∈ ws, Plain w) (hapart : Apart ws)
    {field : String} (hfield : field ∈ fields) (text : List Char) :
    lineField (writeAll ws text) field = match ws.lookup field with
      | some value => if ClearField text field then some (trim value) else lineField text field
      | none => lineField text field := by
  split
  · rename_i value hlookup
    have hmem : (field, value) ∈ ws := by
      obtain ⟨a, b, rfl, -⟩ := List.lookup_eq_some_iff.1 hlookup
      simp
    exact lineField_writeAll_self hws hapart hmem text
  · rename_i hlookup
    refine lineField_writeAll_other hws (isKey_field hfield) ?_ text
    intro hmem
    obtain ⟨w, hw, rfl⟩ := List.mem_map.1 hmem
    simpa using List.lookup_eq_none_iff.1 hlookup w hw

theorem lookup_optional (field key : String) (value : Option (List Char)) :
    (optional key value).lookup field = if field = key then value else none := by
  cases value with
  | none => simp [optional]
  | some value =>
    by_cases h : field = key
    · subst h
      rw [if_pos rfl]
      exact List.lookup_cons_self
    · rw [if_neg h, List.lookup_eq_none_iff]
      simpa [optional] using h

/-! ## The reader -/

section Reader

variable (taskId : String) (text : List Char)

theorem state_eq : (parseDescriptor taskId text).state =
    (lineField text "Статус:").bind TaskState.fromMarkdown := rfl

theorem authors_eq : (parseDescriptor taskId text).implementationAuthors =
    ((lineField text "Реализовано:").map parseAuthors).getD [] := rfl

theorem risk_eq : (parseDescriptor taskId text).risk =
    (lineField text "Риск:").bind Risk.fromField := rfl

theorem reviewCycles_eq : (parseDescriptor taskId text).reviewCycles =
    (lineField text "Циклов-ревью:").bind fun value =>
      (splitWhitespace value).head?.bind parseU32 := rfl

theorem prerequisites_eq : (parseDescriptor taskId text).prerequisites =
    ((lineField text "Предпосылки:").map parseTaskIdList).getD [] := rfl

theorem conflictDomain_eq : (parseDescriptor taskId text).conflictDomain =
    (lineField text "Конфликт-домен:").bind fun value =>
      parseConflictDomain (String.ofList value) := rfl

theorem level_eq : (parseDescriptor taskId text).level =
    (lineField text "Рекомендуемый исполнитель:").bind Level.fromField := rfl

theorem network_eq : (parseDescriptor taskId text).network =
    Canary.networkNeed (lineField text "Сеть:") (lineField text "Экосистема:") := rfl

end Reader

/-! ## The values that are written -/

theorem plain_of_isLine {w : Write} (hfield : w.1 ∈ fields) (h : IsLine w.2) : Plain w := by
  refine ⟨isKey_field hfield, h.1, fewer_one ?_⟩
  unfold fieldLine
  rw [List.getLast?_append, List.getLast?_cons]
  cases hlast : w.2.getLast? with
  | none => simp
  | some ch =>
    intro heq
    refine h.2 ?_
    rw [hlast]
    simpa using heq

/-- A trimmed text of one line. -/
def Line (value : List Char) : Prop := trim value = value ∧ '\n' ∉ value

theorem Line.isLine {value : List Char} (h : Line value) : IsLine value := by
  refine ⟨h.2, fun hlast => ?_⟩
  obtain ⟨front, rfl⟩ := List.getLast?_eq_some_iff.1 hlast
  have hback := trim_back (front ++ ['\r'])
  rw [h.1, List.reverse_append, List.reverse_singleton, List.singleton_append,
    List.dropWhile_cons, if_pos (by decide)] at hback
  have hlength := (List.dropWhile_suffix (l := front.reverse) isWhiteSpace).length_le
  rw [hback, List.length_cons] at hlength
  omega

theorem isLine_of_notMem {value : List Char} (hline : '\n' ∉ value) (hreturn : '\r' ∉ value) :
    IsLine value :=
  ⟨hline, fun h => hreturn (List.mem_of_getLast? h)⟩

theorem isLine_decimal (n : Manifest.U32) : IsLine (decimal n) :=
  isLine_of_notMem (QueueEntry.digits_notMem (by decide)) (QueueEntry.digits_notMem (by decide))

theorem isLine_literal (state : TaskState) : IsLine state.literal.toList := by
  cases state <;> exact ⟨by decide, by decide⟩

theorem isLine_reason (reason : List Char) : IsLine (QueueEntry.sanitizeReason reason) :=
  isLine_of_notMem (QueueEntry.sanitizeReason_line reason) (sanitized_no_return reason)

/-- One author, as the field is read. -/
structure IsAuthor (author : List Char) : Prop where
  line : Line author
  ne_nil : author ≠ []
  comma : ',' ∉ author

theorem isAuthor_of_mem {text author : List Char} {taskId : String}
    (h : author ∈ (parseDescriptor taskId text).implementationAuthors) : IsAuthor author := by
  rw [authors_eq] at h
  cases hfield : lineField text "Реализовано:" with
  | none =>
    rw [hfield] at h
    exact absurd h List.not_mem_nil
  | some value =>
    rw [hfield] at h
    obtain ⟨htoken, hne⟩ := List.mem_filter.1 h
    obtain ⟨piece, hpiece, rfl⟩ := List.mem_map.1 htoken
    have hsub : ∀ {ch}, ch ∈ trim piece → ch ∈ value := fun hch =>
      pieces_subset hpiece ((trim_within piece).subset hch)
    refine ⟨⟨trim_trim piece, fun hmem => (lineField_shape hfield).2 (hsub hmem)⟩,
      by simpa using hne, fun hcomma => ?_⟩
    have hsep := piece_not_sep hpiece ',' ((trim_within piece).subset hcomma)
    exact absurd hsep (by decide)

theorem joinAuthors_cons (author : List Char) {authors : List (List Char)} (hne : authors ≠ []) :
    joinAuthors (author :: authors) = author ++ ',' :: ' ' :: joinAuthors authors := by
  cases authors with
  | nil => exact absurd rfl hne
  | cons next authors => simp [joinAuthors, List.intercalate, List.intersperse]

theorem joinAuthors_one (author : List Char) : joinAuthors [author] = author := by
  simp [joinAuthors, List.intercalate]

/-- Joined with a space behind each comma, and cut there and trimmed again. -/
theorem pieces_joinAuthors {authors : List (List Char)} (hne : authors ≠ [])
    (h : ∀ author ∈ authors, IsAuthor author) {lead : List Char}
    (hlead : ∀ ch ∈ lead, isWhiteSpace ch = true) :
    (Text.pieces (· == ',') (lead ++ joinAuthors authors)).map trim = authors := by
  induction authors generalizing lead with
  | nil => exact absurd rfl hne
  | cons author authors ih =>
    have hauthor := h author List.mem_cons_self
    have hone : Text.pieces (· == ',') (lead ++ author) = [lead ++ author] := by
      refine pieces_of_none fun ch hch => ?_
      rw [beq_eq_false_iff_ne]
      rintro rfl
      rcases List.mem_append.1 hch with hch | hch
      · exact absurd (hlead _ hch) (by decide)
      · exact hauthor.comma hch
    have htrim : trim (lead ++ author) = author := by rw [trim_lead hlead, hauthor.line.1]
    by_cases hnil : authors = []
    · subst hnil
      rw [joinAuthors_one, hone, List.map_singleton, htrim]
    · have hspace : ∀ ch ∈ [' '], isWhiteSpace ch = true :=
        List.forall_mem_singleton.2 (by decide)
      have hrest := ih hnil (fun a ha => h a (List.mem_cons_of_mem _ ha)) hspace
      rw [joinAuthors_cons author hnil, ← List.append_assoc, pieces_cut _ _ _ (by rfl), hone,
        List.singleton_append, List.map_cons, htrim]
      exact congrArg (author :: ·) hrest

theorem parseAuthors_join {authors : List (List Char)} (hne : authors ≠ [])
    (h : ∀ author ∈ authors, IsAuthor author) : parseAuthors (joinAuthors authors) = authors := by
  have hnone : ∀ ch ∈ ([] : List Char), isWhiteSpace ch = true := fun ch hch =>
    absurd hch List.not_mem_nil
  have hpieces := pieces_joinAuthors hne h hnone
  rw [List.nil_append] at hpieces
  unfold parseAuthors
  rw [hpieces, List.filter_eq_self]
  intro author hauthor
  simpa using (h author hauthor).ne_nil

theorem joinAuthors_concat (authors : List (List Char)) (last : List Char) :
    ∃ front, joinAuthors (authors ++ [last]) = front ++ last := by
  induction authors with
  | nil => exact ⟨[], joinAuthors_one last⟩
  | cons author authors ih =>
    obtain ⟨front, hfront⟩ := ih
    refine ⟨author ++ ',' :: ' ' :: front, ?_⟩
    rw [List.cons_append, joinAuthors_cons author (by simp), hfront]
    simp

theorem Line.trimmed {value : List Char} (h : Line value) :
    value.dropWhile isWhiteSpace = value ∧
      value.reverse.dropWhile isWhiteSpace = value.reverse := by
  have hfront := trim_front value
  have hback := trim_back value
  rw [h.1] at hfront hback
  exact ⟨hfront, hback⟩

theorem line_joinAuthors {authors : List (List Char)} (hne : authors ≠ [])
    (h : ∀ author ∈ authors, IsAuthor author) : Line (joinAuthors authors) := by
  refine ⟨?_, notMem_intercalate (by decide) fun a ha => (h a ha).line.2⟩
  cases authors with
  | nil => exact absurd rfl hne
  | cons author authors =>
    have hauthor := h author List.mem_cons_self
    rcases List.eq_nil_or_concat authors with rfl | ⟨middle, last, rfl⟩
    · rw [joinAuthors_one, hauthor.line.1]
    · have hlast := h last (by simp)
      obtain ⟨front, hfront⟩ := joinAuthors_concat middle last
      have hjoin : joinAuthors (author :: (middle ++ [last])) =
          author ++ (',' :: ' ' :: front) ++ last := by
        rw [joinAuthors_cons author (by simp), hfront]
        simp
      rw [List.concat_eq_append, hjoin]
      exact trim_join hauthor.line.trimmed.1 hauthor.ne_nil hlast.line.trimmed.2 hlast.ne_nil

theorem elevatedRisk_some {taskId : String} {old : Option Risk} {value : Risk}
    {risk : Option (List Char)} (h : elevatedRisk taskId old (some value) = .ok risk) :
    (old = some value ∧ risk = none) ∨
      (∃ text, risk = some text ∧ IsLine text ∧ Risk.fromField (trim text) = some value) ∧
        ∀ previous ∈ old, previous.rank < value.rank := by
  unfold elevatedRisk at h
  cases old with
  | none =>
    refine .inr ⟨⟨_, (Except.ok.inj h).symm, ?_⟩, by simp⟩
    cases value <;> exact ⟨⟨by decide +kernel, by decide +kernel⟩, by decide +kernel⟩
  | some previous =>
    dsimp only at h
    split at h
    · cases h
    rename_i hlower
    split at h
    · rename_i heq
      exact .inl ⟨congrArg some heq.symm, (Except.ok.inj h).symm⟩
    · rename_i hne
      refine .inr ⟨⟨_, (Except.ok.inj h).symm, ?_⟩, ?_⟩
      · cases value <;> cases previous <;>
          exact ⟨⟨by decide +kernel, by decide +kernel⟩, by decide +kernel⟩
      · intro p hp
        obtain rfl : previous = p := Option.some.inj hp
        revert hlower hne
        cases value <;> cases previous <;> decide

theorem elevatedRisk_none {taskId : String} {old : Option Risk} {risk : Option (List Char)}
    (h : elevatedRisk taskId old none = .ok risk) : risk = none := (Except.ok.inj h).symm

theorem isLine_risk {taskId : String} {old value : Option Risk} {risk : Option (List Char)}
    (h : elevatedRisk taskId old value = .ok risk) : ∀ v ∈ risk, IsLine v := by
  intro v hv
  cases value with
  | none =>
    rw [elevatedRisk_none h] at hv
    cases hv
  | some value =>
    obtain ⟨-, hnone⟩ | ⟨⟨text, htext, hisLine, -⟩, -⟩ := elevatedRisk_some h
    · rw [hnone] at hv
      cases hv
    · rw [htext] at hv
      obtain rfl : text = v := Option.some.inj hv
      exact hisLine

theorem appendAuthor_ne_nil (authors : List (List Char)) (value : List Char) :
    appendAuthor authors value ≠ [] := by
  unfold appendAuthor
  split
  · rename_i hlast
    rintro rfl
    cases hlast
  · simp

theorem isAuthor_append {taskId : String} {text value : List Char} (h : IsAuthor value) :
    ∀ author ∈ appendAuthor (parseDescriptor taskId text).implementationAuthors value,
      IsAuthor author := by
  intro author hauthor
  unfold appendAuthor at hauthor
  split at hauthor
  · exact isAuthor_of_mem hauthor
  · rcases List.mem_append.1 hauthor with hmem | hmem
    · exact isAuthor_of_mem hmem
    · exact List.mem_singleton.1 hmem ▸ h

/-! ## The writes of an accepted patch -/

/-- The values of a patch that are names of their own stay on their lines. -/
structure Lined (patch : DescriptorPatch) : Prop where
  batchId : ∀ v ∈ patch.batchId, Line v
  branch : ∀ v ∈ patch.branch, Line v
  worktree : ∀ v ∈ patch.worktree, Line v
  implementationAuthor : ∀ v ∈ patch.implementationAuthor, IsAuthor v

section Accepted

variable {taskId : String} {patch : DescriptorPatch} {content : List Char}
  {risk : Option (List Char)}

theorem forall_optional {field : String} {value : Option (List Char)} {P : Write → Prop} :
    (∀ w ∈ optional field value, P w) ↔ ∀ v ∈ value, P (field, v) := by
  cases value <;> simp [optional]

theorem plain_writesOf (h : Accepted taskId patch (parseDescriptor taskId content) risk)
    (hlined : Lined patch) :
    ∀ w ∈ writesOf patch (parseDescriptor taskId content) risk, Plain w := by
  have hplain : ∀ {field : String} {value : Option (List Char)}, field ∈ fields →
      (∀ v ∈ value, IsLine v) → ∀ w ∈ optional field value, Plain w := fun hfield hvalue =>
    forall_optional.2 fun v hv => plain_of_isLine hfield (hvalue v hv)
  have hauthors : ∀ v ∈ patch.implementationAuthor.map fun value =>
      joinAuthors (appendAuthor (parseDescriptor taskId content).implementationAuthors value),
      IsLine v := by
    intro v hv
    obtain ⟨author, hauthor, rfl⟩ := Option.map_eq_some_iff.1 hv
    exact (line_joinAuthors (appendAuthor_ne_nil _ _)
      (isAuthor_append (hlined.implementationAuthor author hauthor))).isLine
  have hsha : ∀ v ∈ patch.reviewSha, IsLine v := by
    intro v hv
    have hcheck := h.reviewSha
    rw [hv] at hcheck
    obtain ⟨-, -, -, hreturn, hline⟩ := demand_eq_ok.1 hcheck
    exact isLine_of_notMem hline hreturn
  unfold writesOf
  simp only [List.forall_mem_cons, List.forall_mem_append]
  have hstate : "Статус:" ∈ fields := by decide
  refine ⟨plain_of_isLine hstate (isLine_literal _),
    ⟨⟨⟨⟨⟨⟨⟨⟨?_, ?_⟩, ?_⟩, ?_⟩, ?_⟩, ?_⟩, ?_⟩, ?_⟩, ?_⟩⟩
  · exact hplain (by decide) fun v hv => (hlined.batchId v hv).isLine
  · exact hplain (by decide) fun v hv => (hlined.branch v hv).isLine
  · exact hplain (by decide) fun v hv => (hlined.worktree v hv).isLine
  · exact hplain (by decide) fun v hv => by
      obtain ⟨n, -, rfl⟩ := Option.map_eq_some_iff.1 hv
      exact isLine_decimal n
  · exact hplain (by decide) hauthors
  · exact hplain (by decide) (isLine_risk h.risk)
  · exact hplain (by decide) hsha
  · exact hplain (by decide) fun v hv => by
      obtain ⟨n, -, rfl⟩ := Option.map_eq_some_iff.1 hv
      exact isLine_decimal n
  · exact hplain (by decide) fun v hv => by
      obtain ⟨reason, -, rfl⟩ := Option.map_eq_some_iff.1 hv
      exact isLine_reason reason

end Accepted

theorem fst_optional (field : String) (value : Option (List Char)) :
    List.Sublist ((optional field value).map Prod.fst) [field] := by
  cases value <;> simp [optional]

theorem apart_writesOf (patch : DescriptorPatch) (old : Parsed) (risk : Option (List Char)) :
    Apart (writesOf patch old risk) := by
  have hsub : List.Sublist ((writesOf patch old risk).map Prod.fst) ("Статус:" :: (["Батч:"] ++
      ["Ветка:"] ++ ["Worktree:"] ++ ["Волна:"] ++ ["Реализовано:"] ++ ["Риск:"] ++
      ["Ревью-SHA:"] ++ ["Циклов-ревью:"] ++ ["Причина:"])) := by
    unfold writesOf
    simp only [List.map_cons, List.map_append]
    exact .cons_cons _ (((((((((fst_optional _ _).append (fst_optional _ _)).append
      (fst_optional _ _)).append (fst_optional _ _)).append (fst_optional _ _)).append
      (fst_optional _ _)).append (fst_optional _ _)).append (fst_optional _ _)).append
      (fst_optional _ _))
  exact hsub.nodup (by decide)

theorem lookup_writesOf (patch : DescriptorPatch) (old : Parsed) (risk : Option (List Char)) :
    let ws := writesOf patch old risk
    ws.lookup "Статус:" = some patch.state.literal.toList ∧ ws.lookup "Батч:" = patch.batchId ∧
      ws.lookup "Ветка:" = patch.branch ∧ ws.lookup "Worktree:" = patch.worktree ∧
      ws.lookup "Реализовано:" = (patch.implementationAuthor.map fun value =>
        joinAuthors (appendAuthor old.implementationAuthors value)) ∧
      ws.lookup "Риск:" = risk ∧ ws.lookup "Ревью-SHA:" = patch.reviewSha ∧
      ws.lookup "Циклов-ревью:" = patch.reviewCycles.map decimal ∧
      ∀ field ∈ ["Предпосылки:", "Конфликт-домен:", "Рекомендуемый исполнитель:", "Сеть:",
        "Экосистема:"], ws.lookup field = none := by
  dsimp only
  unfold writesOf
  simp [List.lookup_cons, List.lookup_append, lookup_optional]

/-- The higher of a risk and the one before. -/
def highest (old : Option Risk) (value : Risk) : Risk :=
  match old with
  | some previous => if previous.rank < value.rank then value else previous
  | none => value

/-- The text is read as the patch says, and the patch changes nothing more. -/
structure ReadsBack (taskId : String) (patch : DescriptorPatch) (old new : Parsed)
    (text : List Char) : Prop where
  state : new.state = some patch.state
  batchId : new.batchId = patch.batchId.or old.batchId
  branch : new.branch = patch.branch.or old.branch
  worktree : new.worktree = patch.worktree.or old.worktree
  reviewSha : new.reviewSha = patch.reviewSha.or old.reviewSha
  reviewCycles : new.reviewCycles = (patch.reviewCycles.map Subtype.val).or old.reviewCycles
  implementationAuthors : new.implementationAuthors = match patch.implementationAuthor with
    | some author =>
      if old.implementationAuthors.getLast? = some author then old.implementationAuthors
      else old.implementationAuthors ++ [author]
    | none => old.implementationAuthors
  risk : new.risk = match patch.risk with
    | some value => some (highest old.risk value)
    | none => old.risk
  prerequisites : new.prerequisites = old.prerequisites
  conflictDomain : new.conflictDomain = old.conflictDomain
  level : new.level = old.level
  network : new.network = old.network
  again : patchDescriptor taskId patch (some text) = (.ok (), some text)

/-- A name that is set for a field: it stands there, or it is trimmed, on one line, and no line
above the one that is written holds the field. -/
def Kept (content : List Char) (field : String) (value : List Char) : Prop :=
  lineField content field = some value ∨
    ClearField content field ∧ trim value = value ∧ '\n' ∉ value

def given (field : String) (value : Bool) : List String := if value then [field] else []

/-- The fields that a patch sets. -/
def written (patch : DescriptorPatch) (old : Parsed) : List String :=
  ["Статус:"] ++ given "Батч:" patch.batchId.isSome ++ given "Ветка:" patch.branch.isSome ++
    given "Worktree:" patch.worktree.isSome ++ given "Волна:" patch.wave.isSome ++
    given "Реализовано:" patch.implementationAuthor.isSome ++
    given "Риск:" (patch.risk.isSome && patch.risk != old.risk) ++
    given "Ревью-SHA:" patch.reviewSha.isSome ++ given "Циклов-ревью:" patch.reviewCycles.isSome ++
    given "Причина:" patch.reason.isSome

/-- The layout of the text is the one the writer expects, and the names fit it. -/
structure Readable (patch : DescriptorPatch) (old : Parsed) (content : List Char) : Prop where
  state : old.state = some patch.state ∨ ClearField content "Статус:"
  batchId : ∀ value ∈ patch.batchId, Kept content "Батч:" value
  branch : ∀ value ∈ patch.branch, Kept content "Ветка:" value
  worktree : ∀ value ∈ patch.worktree, Kept content "Worktree:" value
  reviewSha : ∀ value ∈ patch.reviewSha, Kept content "Ревью-SHA:" value
  reviewCycles : ∀ value ∈ patch.reviewCycles,
    old.reviewCycles = some value.1 ∨ ClearField content "Циклов-ревью:"
  implementationAuthor : ∀ author ∈ patch.implementationAuthor,
    old.implementationAuthors.getLast? = some author ∨ ClearField content "Реализовано:" ∧
      trim author = author ∧ author ≠ [] ∧ ',' ∉ author ∧ '\n' ∉ author
  risk : ∀ value ∈ patch.risk, old.risk = some value ∨ ClearField content "Риск:"
  returns : ∀ line ∈ untouched ((written patch old).map String.toList) (textLines content),
    ¬ List.replicate (written patch old).length '\r' <:+ line

/-- An accepted risk is the highest. -/
theorem highest_eq {taskId : String} {old : Option Risk} {value : Risk}
    {risk : Option (List Char)} (h : elevatedRisk taskId old (some value) = .ok risk) :
    highest old value = value := by
  obtain ⟨rfl, -⟩ | ⟨-, hlower⟩ := elevatedRisk_some h
  · simp [highest]
  · cases old with
    | none => rfl
    | some previous => exact if_pos (hlower previous rfl)

section Fields

variable {taskId : String} {patch : DescriptorPatch} {content : List Char}
  {risk : Option (List Char)} (h : Accepted taskId patch (parseDescriptor taskId content) risk)
  (hlined : Lined patch)

/-- The text with the writes of the patch. -/
def textOf (taskId : String) (patch : DescriptorPatch) (content : List Char)
    (risk : Option (List Char)) : List Char :=
  writeAll (writesOf patch (parseDescriptor taskId content) risk) content

include h hlined

theorem lineField_textOf {field : String} (hfield : field ∈ fields) :
    lineField (textOf taskId patch content risk) field =
      match (writesOf patch (parseDescriptor taskId content) risk).lookup field with
      | some value =>
        if ClearField content field then some (trim value) else lineField content field
      | none => lineField content field :=
  lineField_writeAll (plain_writesOf h hlined) (apart_writesOf patch _ risk) hfield content

theorem state_iff : (parseDescriptor taskId (textOf taskId patch content risk)).state =
      some patch.state ↔
    (parseDescriptor taskId content).state = some patch.state ∨ ClearField content "Статус:" := by
  have hread := lineField_textOf h hlined (show "Статус:" ∈ fields by decide)
  rw [(lookup_writesOf patch _ risk).1] at hread
  have hliteral : (some (trim patch.state.literal.toList)).bind TaskState.fromMarkdown =
      some patch.state := by
    cases patch.state <;> decide
  rw [state_eq taskId (textOf taskId patch content risk), hread]
  dsimp only
  split
  · rename_i hclear
    exact iff_of_true hliteral (.inr hclear)
  · rename_i hclear
    exact (or_iff_left hclear).symm

theorem name_iff {field : String} (hfield : field ∈ fields) {value : Option (List Char)}
    (hlookup : (writesOf patch (parseDescriptor taskId content) risk).lookup field = value) :
    lineField (textOf taskId patch content risk) field = value.or (lineField content field) ↔
      ∀ v ∈ value, Kept content field v := by
  have hread := lineField_textOf h hlined hfield
  rw [hlookup] at hread
  cases value with
  | none => simpa using hread
  | some v =>
    dsimp only at hread
    rw [hread]
    simp only [Option.some_or, Option.mem_def, Option.some.injEq, forall_eq']
    unfold Kept
    constructor
    · intro heq
      split at heq
      · rename_i hclear
        have htrim : trim v = v := Option.some.inj heq
        rw [if_pos hclear, heq] at hread
        exact .inr ⟨hclear, htrim, (lineField_shape hread).2⟩
      · exact .inl heq
    · rintro (heq | ⟨hclear, htrim, -⟩)
      · rw [heq, (lineField_shape heq).1, ite_self]
      · rw [if_pos hclear, htrim]

/-! The four names of a patch are read back exactly where they are kept. -/

theorem batchId_iff : (parseDescriptor taskId (textOf taskId patch content risk)).batchId =
      patch.batchId.or (parseDescriptor taskId content).batchId ↔
    ∀ value ∈ patch.batchId, Kept content "Батч:" value := by
  have hfield : "Батч:" ∈ fields := by decide +kernel
  have hread := name_iff h hlined hfield (lookup_writesOf patch _ risk).2.1
  exact hread

theorem branch_iff : (parseDescriptor taskId (textOf taskId patch content risk)).branch =
      patch.branch.or (parseDescriptor taskId content).branch ↔
    ∀ value ∈ patch.branch, Kept content "Ветка:" value := by
  have hfield : "Ветка:" ∈ fields := by decide +kernel
  have hread := name_iff h hlined hfield (lookup_writesOf patch _ risk).2.2.1
  exact hread

theorem worktree_iff : (parseDescriptor taskId (textOf taskId patch content risk)).worktree =
      patch.worktree.or (parseDescriptor taskId content).worktree ↔
    ∀ value ∈ patch.worktree, Kept content "Worktree:" value := by
  have hfield : "Worktree:" ∈ fields := by decide +kernel
  have hread := name_iff h hlined hfield (lookup_writesOf patch _ risk).2.2.2.1
  exact hread

theorem reviewSha_iff : (parseDescriptor taskId (textOf taskId patch content risk)).reviewSha =
      patch.reviewSha.or (parseDescriptor taskId content).reviewSha ↔
    ∀ value ∈ patch.reviewSha, Kept content "Ревью-SHA:" value := by
  have hfield : "Ревью-SHA:" ∈ fields := by decide +kernel
  have hread := name_iff h hlined hfield (lookup_writesOf patch _ risk).2.2.2.2.2.2.1
  exact hread

theorem cycles_iff : (parseDescriptor taskId (textOf taskId patch content risk)).reviewCycles =
      (patch.reviewCycles.map Subtype.val).or (parseDescriptor taskId content).reviewCycles ↔
    ∀ value ∈ patch.reviewCycles, (parseDescriptor taskId content).reviewCycles = some value.1 ∨
      ClearField content "Циклов-ревью:" := by
  have hread := lineField_textOf h hlined (show "Циклов-ревью:" ∈ fields by decide)
  rw [(lookup_writesOf patch _ risk).2.2.2.2.2.2.2.1] at hread
  rw [reviewCycles_eq taskId (textOf taskId patch content risk), hread]
  cases patch.reviewCycles with
  | none => exact iff_of_true (reviewCycles_eq taskId content).symm (by simp)
  | some n =>
    simp only [Option.map_some, Option.some_or, Option.mem_def, Option.some.injEq, forall_eq']
    split
    · rename_i hclear
      refine iff_of_true ?_ (.inr hclear)
      unfold decimal
      rw [trim_digits, Option.bind_some, splitWhitespace_one noSpace_digits (by simp)]
      exact QueueEntry.parseU32_toDigits n.2
    · rename_i hclear
      exact (or_iff_left hclear).symm

theorem authors_iff :
    (parseDescriptor taskId (textOf taskId patch content risk)).implementationAuthors =
      (match patch.implementationAuthor with
      | some author =>
        if (parseDescriptor taskId content).implementationAuthors.getLast? = some author then
          (parseDescriptor taskId content).implementationAuthors
        else (parseDescriptor taskId content).implementationAuthors ++ [author]
      | none => (parseDescriptor taskId content).implementationAuthors) ↔
    ∀ author ∈ patch.implementationAuthor,
      (parseDescriptor taskId content).implementationAuthors.getLast? = some author ∨
        ClearField content "Реализовано:" ∧ trim author = author ∧ author ≠ [] ∧ ',' ∉ author ∧
          '\n' ∉ author := by
  have hread := lineField_textOf h hlined (show "Реализовано:" ∈ fields by decide)
  rw [(lookup_writesOf patch _ risk).2.2.2.2.1] at hread
  have hnew := authors_eq taskId (textOf taskId patch content risk)
  rw [hread] at hnew
  cases hauthor : patch.implementationAuthor with
  | none =>
    rw [hauthor] at hnew
    exact iff_of_true (hnew.trans (authors_eq taskId content).symm) (by simp)
  | some author =>
    rw [hauthor] at hnew
    simp only [Option.mem_def, Option.some.injEq, forall_eq']
    have hgood : IsAuthor author := hlined.implementationAuthor author hauthor
    have happend : (if (parseDescriptor taskId content).implementationAuthors.getLast? =
        some author then (parseDescriptor taskId content).implementationAuthors
        else (parseDescriptor taskId content).implementationAuthors ++ [author]) =
        appendAuthor (parseDescriptor taskId content).implementationAuthors author := rfl
    rw [happend]
    by_cases hclear : ClearField content "Реализовано:"
    · refine iff_of_true ?_ (.inr ⟨hclear, hgood.line.1, hgood.ne_nil, hgood.comma, hgood.line.2⟩)
      rw [hnew, Option.map_some]
      dsimp only
      rw [if_pos hclear, (line_joinAuthors (appendAuthor_ne_nil _ _) (isAuthor_append hgood)).1,
        Option.map_some, Option.getD_some,
        parseAuthors_join (appendAuthor_ne_nil _ _) (isAuthor_append hgood)]
    · rw [hnew, Option.map_some]
      dsimp only
      rw [if_neg hclear, ← authors_eq taskId content]
      unfold appendAuthor
      split
      · rename_i hlast
        exact iff_of_true rfl (.inl hlast)
      · rename_i hlast
        refine iff_of_false (by simp) ?_
        rintro (hlast' | ⟨hclear', -⟩)
        · exact hlast hlast'
        · exact hclear hclear'

theorem risk_iff : (parseDescriptor taskId (textOf taskId patch content risk)).risk =
      (match patch.risk with
      | some value => some (highest (parseDescriptor taskId content).risk value)
      | none => (parseDescriptor taskId content).risk) ↔
    ∀ value ∈ patch.risk, (parseDescriptor taskId content).risk = some value ∨
      ClearField content "Риск:" := by
  have hread := lineField_textOf h hlined (show "Риск:" ∈ fields by decide)
  rw [(lookup_writesOf patch _ risk).2.2.2.2.2.1] at hread
  have hnew := risk_eq taskId (textOf taskId patch content risk)
  rw [hread] at hnew
  have helevated := h.risk
  cases hvalue : patch.risk with
  | none =>
    rw [hvalue] at helevated
    obtain rfl : risk = none := elevatedRisk_none helevated
    exact iff_of_true (hnew.trans (risk_eq taskId content).symm) (by simp)
  | some value =>
    rw [hvalue] at helevated
    simp only [Option.mem_def, Option.some.injEq, forall_eq']
    obtain ⟨hsame, hnone⟩ | ⟨⟨text, htext, -, hfrom⟩, -⟩ := elevatedRisk_some helevated
    · subst hnone
      refine iff_of_true ?_ (.inl hsame)
      rw [hnew, ← risk_eq taskId content, hsame]
      simp [highest]
    · subst htext
      rw [hnew, highest_eq helevated]
      dsimp only
      split
      · rename_i hclear
        exact iff_of_true hfrom (.inr hclear)
      · rename_i hclear
        rw [← risk_eq taskId content]
        exact (or_iff_left hclear).symm

theorem frame (field : String) (hmem : field ∈ ["Предпосылки:", "Конфликт-домен:",
    "Рекомендуемый исполнитель:", "Сеть:", "Экосистема:"]) :
    lineField (textOf taskId patch content risk) field = lineField content field := by
  have hfield : field ∈ fields := by
    revert field
    decide
  have hread := lineField_textOf h hlined hfield
  rw [(lookup_writesOf patch _ risk).2.2.2.2.2.2.2.2 field hmem] at hread
  exact hread

end Fields

theorem descriptorPatched_eq_ok {taskId : String} {patch : DescriptorPatch}
    {content text : List Char} :
    descriptorPatched taskId patch (some content) = .ok text ↔ isTaskId taskId = true ∧
      textBytes content ≤ maxControlBytes ∧ patched taskId patch content = .ok text ∧
        textBytes text ≤ maxControlBytes := by
  unfold descriptorPatched ControlPlane.validateTaskId readRequired readOptionalText
  constructor
  · intro h
    dsimp only [bind, Except.bind] at h
    split at h
    · cases h
    rename_i htask
    split at h
    · cases h
    rename_i content' hread
    split at h
    · cases h
    rename_i text' hpatched
    split at h
    · cases h
    rename_i hsize
    obtain rfl : text' = text := Except.ok.inj h
    by_cases hle : textBytes content ≤ maxControlBytes
    · rw [if_pos hle] at hread
      obtain rfl : content = content' := Except.ok.inj hread
      exact ⟨demand_eq_ok.1 htask, hle, hpatched, demand_eq_ok.1 hsize⟩
    · rw [if_neg hle] at hread
      cases hread
  · rintro ⟨htask, hle, hpatched, hsize⟩
    dsimp only [bind, Except.bind]
    rw [demand_true htask, if_pos hle]
    dsimp only [pure, Except.pure]
    rw [hpatched]
    dsimp only
    rw [demand_true hsize]

theorem patchDescriptor_eq_ok {taskId : String} {patch : DescriptorPatch}
    {file : Option (List Char)} {text : List Char} :
    patchDescriptor taskId patch file = (.ok (), some text) ↔
      descriptorPatched taskId patch file = .ok text := by
  unfold patchDescriptor
  cases descriptorPatched taskId patch file with
  | ok text' => simp
  | error error => simp

theorem appendAuthor_again (authors : List (List Char)) (author : List Char) :
    appendAuthor (appendAuthor authors author) author = appendAuthor authors author := by
  have hlast : (appendAuthor authors author).getLast? = some author := by
    unfold appendAuthor
    split
    · assumption
    · exact List.getLast?_concat
  exact if_pos hlast

/-- The fields of the writes are those that the patch sets. -/
theorem written_eq {taskId : String} {patch : DescriptorPatch} {old : Parsed}
    {risk : Option (List Char)} (h : Accepted taskId patch old risk) :
    (writesOf patch old risk).map Prod.fst = written patch old := by
  have hgiven : ∀ (field : String) (value : Option (List Char)),
      (optional field value).map Prod.fst = given field value.isSome := by
    intro field value
    cases value <;> rfl
  have hrisk : risk.isSome = (patch.risk.isSome && patch.risk != old.risk) := by
    have helevated := h.risk
    cases hvalue : patch.risk with
    | none =>
      rw [hvalue] at helevated
      rw [elevatedRisk_none helevated]
      rfl
    | some value =>
      rw [hvalue] at helevated
      obtain ⟨hsame, hnone⟩ | ⟨⟨text, htext, -⟩, hlower⟩ := elevatedRisk_some helevated
      · rw [hnone, hsame]
        simp
      · have hne : some value ≠ old.risk := by
          intro heq
          exact absurd (hlower value heq.symm) (lt_irrefl _)
        rw [htext]
        simpa using hne
  unfold writesOf written
  simp only [List.map_cons, List.map_append, hgiven, Option.isSome_map, hrisk, List.cons_append,
    List.nil_append, List.append_assoc]

theorem writesOf_ne_nil (patch : DescriptorPatch) (old : Parsed) (risk : Option (List Char)) :
    writesOf patch old risk ≠ [] := List.cons_ne_nil _ _

theorem writesOf_again {patch : DescriptorPatch} {old new : Parsed} {risk : Option (List Char)}
    (hauthors : new.implementationAuthors = match patch.implementationAuthor with
      | some author => appendAuthor old.implementationAuthors author
      | none => old.implementationAuthors) :
    ∀ w ∈ writesOf patch new none, w ∈ writesOf patch old risk := by
  have hsame : (patch.implementationAuthor.map fun value =>
      joinAuthors (appendAuthor new.implementationAuthors value)) =
      patch.implementationAuthor.map fun value =>
        joinAuthors (appendAuthor old.implementationAuthors value) := by
    rw [hauthors]
    cases patch.implementationAuthor with
    | none => rfl
    | some author => simp [appendAuthor_again]
  have hrisk : List.Sublist (optional "Риск:" none) (optional "Риск:" risk) := List.nil_sublist _
  intro w hw
  refine List.Sublist.mem hw ?_
  unfold writesOf
  rw [hsame]
  exact .cons_cons _ ((((List.Sublist.refl _).append hrisk).append (.refl _)).append (.refl _)
    |>.append (.refl _))

theorem again_iff {taskId : String} {patch : DescriptorPatch} {content : List Char}
    {risk : Option (List Char)} (h : Accepted taskId patch (parseDescriptor taskId content) risk)
    (hlined : Lined patch) (htask : isTaskId taskId = true)
    (hbytes : textBytes (textOf taskId patch content risk) ≤ maxControlBytes)
    (hstate : (parseDescriptor taskId (textOf taskId patch content risk)).state = some patch.state)
    (hauthors : (parseDescriptor taskId (textOf taskId patch content risk)).implementationAuthors =
      match patch.implementationAuthor with
      | some author => appendAuthor (parseDescriptor taskId content).implementationAuthors author
      | none => (parseDescriptor taskId content).implementationAuthors)
    (hrisk : ∀ value ∈ patch.risk,
      (parseDescriptor taskId (textOf taskId patch content risk)).risk = some value) :
    patchDescriptor taskId patch (some (textOf taskId patch content risk)) =
        (.ok (), some (textOf taskId patch content risk)) ↔
      ∀ line ∈ untouched ((written patch (parseDescriptor taskId content)).map String.toList)
        (textLines content),
        Fewer (written patch (parseDescriptor taskId content)).length line := by
  have haccepted : Accepted taskId patch
      (parseDescriptor taskId (textOf taskId patch content risk)) none := by
    refine ⟨?_, ?_, h.reviewSha⟩
    · unfold checkTransition
      rw [hstate]
      exact demand_true (.inl rfl)
    · cases hvalue : patch.risk with
      | none => rfl
      | some value =>
        rw [hrisk value hvalue]
        simp [elevatedRisk]
  -- the second run writes what the first one wrote, and nothing of the risk
  have hsub : ∀ w ∈ writesOf patch (parseDescriptor taskId (textOf taskId patch content risk)) none,
      w ∈ writesOf patch (parseDescriptor taskId content) risk := writesOf_again hauthors
  have hplain := plain_writesOf h hlined
  have hapart := apart_writesOf patch (parseDescriptor taskId content) risk
  obtain ⟨lines, htext, hlines, hreturns⟩ :=
    writeAll_lines (writesOf_ne_nil _ _ _) hplain hapart content
  have hplaced := allPlaced_writeAll hplain hapart content
  have hagain := writeAll_again (fun w hw => hplain w (hsub w hw)) hlines
    (writesOf_ne_nil _ _ _) fun w hw => htext ▸ hplaced w (hsub w hw)
  have hwritten := written_eq h
  have hfields : fieldsOf (writesOf patch (parseDescriptor taskId content) risk) =
      (written patch (parseDescriptor taskId content)).map String.toList := by
    rw [← hwritten, List.map_map]
    rfl
  have hlength : (writesOf patch (parseDescriptor taskId content) risk).length =
      (written patch (parseDescriptor taskId content)).length := by
    rw [← hwritten, List.length_map]
  rw [hfields, hlength] at hreturns
  rw [← hreturns, ← hagain, ← htext, patchDescriptor_eq_ok, descriptorPatched_eq_ok, patched_eq_ok]
  constructor
  · rintro ⟨-, -, ⟨risk', haccepted', heq⟩, -⟩
    obtain rfl : risk' = none := Except.ok.inj (haccepted'.risk.symm.trans haccepted.risk)
    exact heq.symm
  · intro heq
    exact ⟨htask, hbytes, ⟨none, haccepted, heq.symm⟩, hbytes⟩

theorem risk_of_highest {taskId : String} {patch : DescriptorPatch} {old : Parsed}
    {risk : Option (List Char)} (h : Accepted taskId patch old risk) {new : Option Risk}
    (hnew : new = match patch.risk with
      | some value => some (highest old.risk value)
      | none => old.risk) : ∀ value ∈ patch.risk, new = some value := by
  intro value hvalue
  have helevated := h.risk
  rw [hvalue] at hnew helevated
  exact hnew.trans (congrArg some (highest_eq helevated))

theorem Kept.line {content : List Char} {field : String} {value : List Char}
    (h : Kept content field value) : Line value := by
  obtain heq | ⟨-, htrim, hline⟩ := h
  · exact lineField_shape heq
  · exact ⟨htrim, hline⟩

theorem Readable.lined {taskId : String} {patch : DescriptorPatch} {content : List Char}
    (h : Readable patch (parseDescriptor taskId content) content) : Lined patch where
  batchId value hvalue := (h.batchId value hvalue).line
  branch value hvalue := (h.branch value hvalue).line
  worktree value hvalue := (h.worktree value hvalue).line
  implementationAuthor author hauthor := by
    obtain hlast | ⟨-, htrim, hne, hcomma, hline⟩ := h.implementationAuthor author hauthor
    · exact isAuthor_of_mem (List.mem_of_getLast? hlast)
    · exact ⟨⟨htrim, hline⟩, hne, hcomma⟩

theorem ReadsBack.lined {taskId : String} {patch : DescriptorPatch} {old : Parsed}
    {text : List Char} (h : ReadsBack taskId patch old (parseDescriptor taskId text) text) :
    Lined patch := by
  have hname : ∀ {field : String} {value other : Option (List Char)},
      lineField text field = value.or other → ∀ v ∈ value, Line v := by
    rintro field _ other heq v rfl
    exact lineField_shape heq
  refine ⟨hname h.batchId, hname h.branch, hname h.worktree, fun author hauthor => ?_⟩
  have hauthors := h.implementationAuthors
  rw [hauthor] at hauthors
  dsimp only at hauthors
  have hmem : author ∈ (parseDescriptor taskId text).implementationAuthors := by
    rw [hauthors]
    split
    · rename_i hlast
      exact List.mem_of_getLast? hlast
    · simp
  exact isAuthor_of_mem hmem

/-- A patch is read back exactly where the text is laid out as the writer expects and the names fit;
what is refused leaves the file. -/
theorem descriptor_patches (taskId : String) (patch : DescriptorPatch)
    (file : Option (List Char)) :
    (∀ error after, patchDescriptor taskId patch file = (.error error, after) → after = file) ∧
      ∀ content text, file = some content →
        patchDescriptor taskId patch file = (.ok (), some text) →
        (ReadsBack taskId patch (parseDescriptor taskId content) (parseDescriptor taskId text)
            text ↔
          Readable patch (parseDescriptor taskId content) content) := by
  refine ⟨fun error after h => ?_, ?_⟩
  · unfold patchDescriptor at h
    split at h
    · cases congrArg Prod.fst h
    · exact (congrArg Prod.snd h).symm
  rintro content text rfl h
  obtain ⟨htask, -, hpatched, hbytes⟩ := descriptorPatched_eq_ok.1 (patchDescriptor_eq_ok.1 h)
  obtain ⟨risk, haccepted, htext⟩ := patched_eq_ok.1 hpatched
  replace htext : text = textOf taskId patch content risk := htext
  subst htext
  constructor
  · intro hback
    have hlined := hback.lined
    have hrisk : ∀ value ∈ patch.risk,
        (parseDescriptor taskId (textOf taskId patch content risk)).risk = some value :=
      risk_of_highest haccepted hback.risk
    exact {
      state := (state_iff haccepted hlined).1 hback.state
      batchId := (batchId_iff haccepted hlined).1 hback.batchId
      branch := (branch_iff haccepted hlined).1 hback.branch
      worktree := (worktree_iff haccepted hlined).1 hback.worktree
      reviewSha := (reviewSha_iff haccepted hlined).1 hback.reviewSha
      reviewCycles := (cycles_iff haccepted hlined).1 hback.reviewCycles
      implementationAuthor := (authors_iff haccepted hlined).1 hback.implementationAuthors
      risk := (risk_iff haccepted hlined).1 hback.risk
      returns := (again_iff haccepted hlined htask hbytes hback.state hback.implementationAuthors
        hrisk).1 hback.again }
  · intro hread
    have hlined := hread.lined
    have hstate := (state_iff haccepted hlined).2 hread.state
    have hauthors := (authors_iff haccepted hlined).2 hread.implementationAuthor
    have hvalue := (risk_iff haccepted hlined).2 hread.risk
    have hrisk : ∀ value ∈ patch.risk,
        (parseDescriptor taskId (textOf taskId patch content risk)).risk = some value :=
      risk_of_highest haccepted hvalue
    have hframe := frame haccepted hlined
    exact {
      state := hstate
      batchId := (batchId_iff haccepted hlined).2 hread.batchId
      branch := (branch_iff haccepted hlined).2 hread.branch
      worktree := (worktree_iff haccepted hlined).2 hread.worktree
      reviewSha := (reviewSha_iff haccepted hlined).2 hread.reviewSha
      reviewCycles := (cycles_iff haccepted hlined).2 hread.reviewCycles
      implementationAuthors := hauthors
      risk := hvalue
      prerequisites := by
        rw [prerequisites_eq, hframe _ (by decide), ← prerequisites_eq]
      conflictDomain := by
        rw [conflictDomain_eq, hframe _ (by decide), ← conflictDomain_eq]
      level := by
        rw [level_eq, hframe _ (by decide), ← level_eq]
      network := by
        rw [network_eq, hframe _ (by decide), hframe _ (by decide), ← network_eq]
      again := (again_iff haccepted hlined htask hbytes hstate hauthors hrisk).2 hread.returns }

/-- A task goes to review. -/
def reviewPatch : DescriptorPatch := { state := .inReview, branch := some "task/T-1".toList }

def plainDescriptor : List Char := "Статус: в работе\nВетка: нет\n".toList

def reviewedDescriptor : List Char := "Статус: на ревью\nВетка: task/T-1\n".toList

theorem descriptor_patches_plain :
    patchDescriptor "T-1" reviewPatch (some plainDescriptor) = (.ok (), some reviewedDescriptor) ∧
      ReadsBack "T-1" reviewPatch (parseDescriptor "T-1" plainDescriptor)
        (parseDescriptor "T-1" reviewedDescriptor) reviewedDescriptor := by
  have hpatch : patchDescriptor "T-1" reviewPatch (some plainDescriptor) =
      (.ok (), some reviewedDescriptor) := by
    rfl
  refine ⟨hpatch, ((descriptor_patches "T-1" reviewPatch (some plainDescriptor)).2 plainDescriptor
    reviewedDescriptor rfl hpatch).2 ?_⟩
  exact {
    state := .inr (by decide)
    batchId := fun _ h => nomatch h
    branch := fun _ h => .inr (by cases h; decide)
    worktree := fun _ h => nomatch h
    reviewSha := fun _ h => nomatch h
    reviewCycles := fun _ h => nomatch h
    implementationAuthor := fun _ h => nomatch h
    risk := fun _ h => nomatch h
    returns := by decide }

/-- The status is indented: it is read first, and the one that is written is never reached. -/
def indentedDescriptor : List Char := " Статус: в работе\n".toList

theorem descriptor_patches_indented : ¬ ∀ taskId patch content text,
    patchDescriptor taskId patch (some content) = (.ok (), some text) →
      ReadsBack taskId patch (parseDescriptor taskId content) (parseDescriptor taskId text)
        text := by
  intro h
  have hpatch : patchDescriptor "T-1" { state := .inReview } (some indentedDescriptor) =
      (.ok (), some " Статус: в работе\n\nСтатус: на ревью\n".toList) := by
    rfl
  have hstate := (h _ _ _ _ hpatch).state
  revert hstate
  decide

end Orchestrail.Descriptor
