import Orchestrail.Proof.NativeLoop
import Orchestrail.Proof.QueueEntry
import Orchestrail.Spec.Manifest

/-!
# Reading back the manifests of a cohort

* `lineField_document`, `parseTaskLine_row`: what is written in a line is read there.
-/

namespace Orchestrail.Manifest

open Text Outcome ControlPlane QueueEntry

/-! ## Lines and tokens -/

/-- A text without white space. -/
def NoSpace (text : List Char) : Prop := ∀ ch ∈ text, isWhiteSpace ch = false

instance (text : List Char) : Decidable (NoSpace text) :=
  decidable_of_iff ((text.all fun ch => !isWhiteSpace ch) = true) (by simp [NoSpace])

/-- A text that `str::lines` leaves as it is. -/
def IsLine (text : List Char) : Prop := '\n' ∉ text ∧ text.getLast? ≠ some '\r'

def document (lines : List (List Char)) : List Char := (lines.map (· ++ ['\n'])).flatten

theorem document_append (a b : List (List Char)) :
    document (a ++ b) = document a ++ document b := by
  unfold document
  rw [List.map_append, List.flatten_append]

theorem stripLineEnding_line {line : List Char} (h : IsLine line) :
    stripLineEnding (line ++ ['\n']) = line := by
  unfold stripLineEnding
  rw [List.reverse_append, List.reverse_singleton, List.singleton_append]
  split
  case h_1 rest heq =>
    obtain ⟨-, hrest⟩ := List.cons.inj heq
    refine absurd ?_ h.2
    rw [← List.reverse_reverse line, hrest, List.reverse_cons, List.getLast?_concat]
  case h_2 rest _ heq =>
    obtain ⟨-, hrest⟩ := List.cons.inj heq
    rw [← hrest, List.reverse_reverse]
  case h_3 _ hno => exact absurd rfl (hno _)

/-- The lines of a document are those it is made of. -/
theorem textLines_document {lines : List (List Char)} (h : ∀ line ∈ lines, IsLine line) :
    textLines (document lines) = lines := by
  have hcut : Outline.Cut (lines.map (· ++ ['\n'])) := by
    intro b l r heq
    have hmem : l ∈ lines.map (· ++ ['\n']) := by
      rw [heq]
      simp
    obtain ⟨line, hline, rfl⟩ := List.mem_map.1 hmem
    exact ⟨by simp, by simpa using (h line hline).1, fun _ => by simp⟩
  unfold textLines document
  rw [Outline.inclusive_of_cut hcut, List.map_map]
  conv_rhs => rw [← List.map_id lines]
  exact List.map_congr_left fun line hline => stripLineEnding_line (h line hline)

theorem splitWhitespace_token {token : List Char} {ch : Char} (htoken : NoSpace token)
    (hne : token ≠ []) (hch : isWhiteSpace ch = true) (rest : List Char) :
    splitWhitespace (token ++ ch :: rest) = token :: splitWhitespace rest := by
  unfold splitWhitespace
  rw [pieces_cut _ _ _ hch, pieces_of_none htoken, List.filter_append,
    List.filter_cons_of_pos (by simpa using hne)]
  rfl

theorem splitWhitespace_space {ch : Char} (hch : isWhiteSpace ch = true) (rest : List Char) :
    splitWhitespace (ch :: rest) = splitWhitespace rest := by
  unfold splitWhitespace
  rw [show ch :: rest = [] ++ ch :: rest from rfl, pieces_cut _ _ _ hch]
  rfl

theorem splitWhitespace_one {token : List Char} (htoken : NoSpace token) (hne : token ≠ []) :
    splitWhitespace token = [token] := by
  unfold splitWhitespace
  rw [pieces_of_none htoken, List.filter_cons_of_pos (by simpa using hne)]
  rfl

theorem noSpace_token {text token : List Char} (h : token ∈ splitWhitespace text) :
    NoSpace token :=
  piece_not_sep (List.mem_filter.1 h).1

theorem NoSpace.append {a b : List Char} (ha : NoSpace a) (hb : NoSpace b) : NoSpace (a ++ b) := by
  intro ch hch
  rcases List.mem_append.1 hch with hch | hch
  · exact ha ch hch
  · exact hb ch hch

theorem NoSpace.notMem {text : List Char} (h : NoSpace text) {ch : Char}
    (hch : isWhiteSpace ch = true) : ch ∉ text := by
  intro hmem
  rw [h ch hmem] at hch
  cases hch

theorem noSpace_of_all {text : List Char} (h : (text.all fun ch => !isWhiteSpace ch) = true) :
    NoSpace text := notSpace_of_all h

theorem noSpace_digits {n : Nat} : NoSpace (Nat.toDigits 10 n) :=
  fun ch hch => digit_not_space (digit_toDigits ch hch)

/-! ## What the readers return at all -/

theorem batchId_shape {text id : List Char} (h : findBatchId text = some id) :
    NoSpace id ∧ isBatchToken id = true :=
  ⟨noSpace_token (List.mem_of_find?_eq_some h), List.find?_some h⟩

/-- A field of a line is trimmed, and one line. -/
theorem lineField_shape {text value : List Char} {key : String}
    (h : lineField text key = some value) : trim value = value ∧ '\n' ∉ value := by
  obtain ⟨line, hline, hvalue⟩ := List.exists_of_findSome?_eq_some h
  obtain ⟨rest, hrest, rfl⟩ := Option.map_eq_some_iff.1 hvalue
  refine ⟨trim_trim rest, fun hmem => newline_textLines hline ?_⟩
  refine (trim_within line).subset ?_
  rw [stripFront_iff.1 hrest]
  exact List.mem_append_right _ ((trim_within rest).subset hmem)

/-- A field of a task line has no white space. -/
theorem tokenField_shape {fields value : List Char} {key : String}
    (h : tokenField fields key = some value) : NoSpace value := by
  obtain ⟨token, htoken, hvalue⟩ := List.exists_of_findSome?_eq_some h
  intro ch hch
  refine noSpace_token htoken ch ?_
  rw [stripFront_iff.1 hvalue]
  exact List.mem_append_right _ hch

theorem taskLine_shape {line : List Char} {task : BatchTask} (h : parseTaskLine line = some task) :
    (∀ v ∈ task.level, NoSpace v) ∧ (∀ v ∈ task.branch, NoSpace v) ∧
      ∀ v ∈ task.domain, NoSpace v := by
  unfold parseTaskLine at h
  obtain ⟨rest, -, h⟩ := Option.bind_eq_some_iff.1 h
  obtain ⟨rest, -, h⟩ := Option.bind_eq_some_iff.1 h
  split at h
  · dsimp only at h
    split at h
    · obtain rfl := Option.some.inj h
      exact ⟨fun _ hv => tokenField_shape hv, fun _ hv => tokenField_shape hv,
        fun _ hv => tokenField_shape hv⟩
    · cases h
  · cases h

/-- A field of a status is trimmed, and has no separator. -/
theorem suffixField_shape {literal key value : List Char}
    (h : suffixField literal key = some value) : trim value = value ∧ '·' ∉ value := by
  obtain ⟨seg, hseg, hvalue⟩ := List.exists_of_findSome?_eq_some h
  obtain ⟨rest, hrest, rfl⟩ := Option.map_eq_some_iff.1 hvalue
  refine ⟨trim_trim rest, fun hmem => ?_⟩
  have hin : '·' ∈ seg := by
    refine (trim_within seg).subset ?_
    rw [stripFront_iff.1 hrest]
    exact List.mem_append_right _ ((trim_within rest).subset hmem)
  have := piece_not_sep hseg '·' hin
  simp at this

/-! ## Fields of a document -/

/-- A line that starts with the key has the text behind it as its value. -/
theorem field_here {key : List Char} (hkey : trim key = key) (hne : key ≠ []) (value : List Char) :
    (stripFront key (trim (key ++ ' ' :: value))).map trim = some (trim value) := by
  obtain ⟨a, b, hvalue, ha, hb⟩ := trim_parts value
  have hlead : ∀ ch ∈ ' ' :: a, isWhiteSpace ch = true := by
    intro ch hch
    rcases List.mem_cons.1 hch with rfl | hch
    · decide
    · exact ha ch hch
  have hfront : key.dropWhile isWhiteSpace = key := by
    rw [← hkey]
    exact trim_front key
  have hlist : key ++ ' ' :: value = key ++ ' ' :: a ++ trim value ++ b := by
    conv_lhs => rw [hvalue]
    simp
  rw [hlist, trim_tail hb]
  by_cases hnil : trim value = []
  · rw [hnil, List.append_nil, trim_tail hlead, hkey, stripFront_iff.2 (List.append_nil key).symm]
    rfl
  · rw [trim_join hfront hne (trim_back value) hnil,
      stripFront_iff.2 (List.append_assoc key _ _), Option.map_some, trim_lead hlead, trim_trim]

/-- A line that starts otherwise has no value of the key. -/
theorem field_other {c k : Char} {key : List Char} (hc : isWhiteSpace c = false) (hck : k ≠ c)
    (rest : List Char) : (stripFront (k :: key) (trim (c :: rest))).map trim = none := by
  obtain ⟨behind, htrim, -⟩ := trim_cons hc rest
  rw [htrim, Option.map_eq_none_iff]
  refine if_neg fun hpre => hck ?_
  exact (List.cons_prefix_cons.1 (List.isPrefixOf_iff_prefix.1 hpre)).1

/-- A token has the value of its own key. -/
theorem stripFront_here (key value : List Char) : stripFront key (key ++ value) = some value :=
  stripFront_iff.2 rfl

/-! ## The rows -/

/-- The fields of a row. -/
def Row.fields (row : Row) : List Char :=
  " уровень=".toList ++ row.level ++ " ветка=".toList ++ row.branch ++ " домен=".toList ++
    [','].intercalate row.domain ++ " волна=".toList ++ Nat.toDigits 10 row.wave.1

theorem Row.text_eq (row : Row) : row.text = rowHead row.id ++ row.fields := by
  unfold Row.text Row.fields
  simp only [List.append_assoc]

/-- What the task line of a row is read as. -/
def Row.task (row : Row) : BatchTask where
  id := row.id
  level := some row.level
  branch := some row.branch
  worktree := none
  domain := some ([','].intercalate row.domain)
  wave := some row.wave.1

/-- No text of the row has white space. -/
structure Row.Plain (row : Row) : Prop where
  level : NoSpace row.level
  branch : NoSpace row.branch
  domain : ∀ glob ∈ row.domain, NoSpace glob

theorem noSpace_joined {globs : List (List Char)} (h : ∀ glob ∈ globs, NoSpace glob) :
    NoSpace ([','].intercalate globs) := by
  induction globs with
  | nil => exact List.forall_mem_nil _
  | cons glob globs ih =>
    have hrest := ih fun g hg => h g (List.mem_cons_of_mem _ hg)
    have hglob := h glob List.mem_cons_self
    cases globs with
    | nil =>
      have hone : [','].intercalate [glob] = glob := by simp [List.intercalate]
      rw [hone]
      exact hglob
    | cons next globs =>
      have hjoin : [','].intercalate (glob :: next :: globs) =
          glob ++ ([','] ++ [','].intercalate (next :: globs)) := by
        simp [List.intercalate, List.intersperse]
      rw [hjoin]
      exact hglob.append (NoSpace.append (by decide) hrest)

/-- Joined at commas, and cut there again. -/
theorem pieces_joined {globs : List (List Char)} (hne : globs ≠ [])
    (h : ∀ glob ∈ globs, ',' ∉ glob) :
    Text.pieces (· == ',') ([','].intercalate globs) = globs := by
  have hone : ∀ glob ∈ globs, Text.pieces (· == ',') glob = [glob] := by
    intro glob hglob
    refine pieces_of_none fun ch hch => ?_
    rw [beq_eq_false_iff_ne]
    rintro rfl
    exact h glob hglob hch
  -- on the globs: none has a comma, so the cuts are those of the join
  induction globs with
  | nil => exact absurd rfl hne
  | cons glob globs ih =>
    cases globs with
    | nil =>
      have hsingle : [','].intercalate [glob] = glob := by simp [List.intercalate]
      rw [hsingle]
      exact hone glob List.mem_cons_self
    | cons next globs =>
      have hjoin : [','].intercalate (glob :: next :: globs) =
          glob ++ ',' :: [','].intercalate (next :: globs) := by
        simp [List.intercalate, List.intersperse]
      rw [hjoin, pieces_cut _ _ _ (by rfl), hone glob List.mem_cons_self,
        ih (List.cons_ne_nil _ _) (fun g hg => h g (List.mem_cons_of_mem _ hg))
          fun g hg => hone g (List.mem_cons_of_mem _ hg)]
      rfl

/-- The tokens of the fields. -/
theorem Row.tokens {row : Row} (h : row.Plain) : splitWhitespace row.fields =
    ["уровень=".toList ++ row.level, "ветка=".toList ++ row.branch,
      "домен=".toList ++ [','].intercalate row.domain,
      "волна=".toList ++ Nat.toDigits 10 row.wave.1] := by
  have hlevel : NoSpace ("уровень=".toList ++ row.level) :=
    (noSpace_of_all (by decide)).append h.level
  have hbranch : NoSpace ("ветка=".toList ++ row.branch) :=
    (noSpace_of_all (by decide)).append h.branch
  have hdomain : NoSpace ("домен=".toList ++ [','].intercalate row.domain) :=
    (noSpace_of_all (by decide)).append (noSpace_joined h.domain)
  have hwave : NoSpace ("волна=".toList ++ Nat.toDigits 10 row.wave.1) :=
    (noSpace_of_all (by decide)).append noSpace_digits
  -- every field is one token behind one space
  have hlist : row.fields = ' ' :: ("уровень=".toList ++ row.level ++ ' ' ::
      ("ветка=".toList ++ row.branch ++ ' ' :: ("домен=".toList ++ [','].intercalate row.domain ++
        ' ' :: ("волна=".toList ++ Nat.toDigits 10 row.wave.1)))) := by
    have h1 : " уровень=".toList = ' ' :: "уровень=".toList := by decide
    have h2 : " ветка=".toList = ' ' :: "ветка=".toList := by decide
    have h3 : " домен=".toList = ' ' :: "домен=".toList := by decide
    have h4 : " волна=".toList = ' ' :: "волна=".toList := by decide
    unfold Row.fields
    rw [h1, h2, h3, h4]
    simp only [List.append_assoc, List.cons_append]
  have hsp : isWhiteSpace ' ' = true := by decide
  rw [hlist, splitWhitespace_space hsp,
    splitWhitespace_token hlevel (List.append_ne_nil_of_left_ne_nil (by decide) _) hsp,
    splitWhitespace_token hbranch (List.append_ne_nil_of_left_ne_nil (by decide) _) hsp,
    splitWhitespace_token hdomain (List.append_ne_nil_of_left_ne_nil (by decide) _) hsp,
    splitWhitespace_one hwave (List.append_ne_nil_of_left_ne_nil (by decide) _)]

theorem stripFront_none {front s : List Char} (h : ¬ front <+: s) : stripFront front s = none :=
  if_neg fun hpre => h (List.isPrefixOf_iff_prefix.1 hpre)

/-- Keys that differ in one of their first two characters. -/
theorem stripFront_key {a b c d : Char} {front key : List Char} (h : ¬ (a = c ∧ b = d))
    (value : List Char) : stripFront (a :: b :: front) ((c :: d :: key) ++ value) = none := by
  refine stripFront_none fun hpre => h ?_
  rw [List.cons_append, List.cons_append] at hpre
  exact ⟨(List.cons_prefix_cons.1 hpre).1,
    (List.cons_prefix_cons.1 (List.cons_prefix_cons.1 hpre).2).1⟩

section Fields

variable {row : Row}

theorem tokenField_level (h : row.Plain) :
    tokenField row.fields "уровень=" = some row.level := by
  unfold tokenField
  rw [Row.tokens h, List.findSome?_cons, stripFront_here]

theorem tokenField_branch (h : row.Plain) :
    tokenField row.fields "ветка=" = some row.branch := by
  have hlevel : stripFront "ветка=".toList ("уровень=".toList ++ row.level) = none :=
    stripFront_key (by decide) _
  unfold tokenField
  rw [Row.tokens h, List.findSome?_cons, hlevel, List.findSome?_cons, stripFront_here]

theorem tokenField_domain (h : row.Plain) :
    tokenField row.fields "домен=" = some ([','].intercalate row.domain) := by
  have hlevel : stripFront "домен=".toList ("уровень=".toList ++ row.level) = none :=
    stripFront_key (by decide) _
  have hbranch : stripFront "домен=".toList ("ветка=".toList ++ row.branch) = none :=
    stripFront_key (by decide) _
  unfold tokenField
  rw [Row.tokens h, List.findSome?_cons, hlevel, List.findSome?_cons, hbranch,
    List.findSome?_cons, stripFront_here]

theorem tokenField_wave (h : row.Plain) :
    tokenField row.fields "волна=" = some (Nat.toDigits 10 row.wave.1) := by
  have hlevel : stripFront "волна=".toList ("уровень=".toList ++ row.level) = none :=
    stripFront_key (by decide) _
  have hbranch : stripFront "волна=".toList ("ветка=".toList ++ row.branch) = none :=
    stripFront_key (by decide) _
  have hdomain : stripFront "волна=".toList ("домен=".toList ++ [','].intercalate row.domain) =
      none :=
    stripFront_key (by decide) _
  unfold tokenField
  rw [Row.tokens h, List.findSome?_cons, hlevel, List.findSome?_cons, hbranch,
    List.findSome?_cons, hdomain, List.findSome?_cons, stripFront_here]

theorem tokenField_worktree (h : row.Plain) : tokenField row.fields "worktree=" = none := by
  have hlevel : stripFront "worktree=".toList ("уровень=".toList ++ row.level) = none :=
    stripFront_key (by decide) _
  have hbranch : stripFront "worktree=".toList ("ветка=".toList ++ row.branch) = none :=
    stripFront_key (by decide) _
  have hdomain : stripFront "worktree=".toList ("домен=".toList ++ [','].intercalate row.domain) =
      none :=
    stripFront_key (by decide) _
  have hwave : stripFront "worktree=".toList ("волна=".toList ++ Nat.toDigits 10 row.wave.1) =
      none :=
    stripFront_key (by decide) _
  unfold tokenField
  rw [Row.tokens h, List.findSome?_cons, hlevel, List.findSome?_cons, hbranch,
    List.findSome?_cons, hdomain, List.findSome?_cons, hwave, List.findSome?_nil]

/-- The row is trimmed: it starts with a dash and ends with a digit. -/
theorem Row.trim_text (row : Row) : trim row.text = row.text := by
  have hdigits : (Nat.toDigits 10 row.wave.1).reverse.dropWhile isWhiteSpace =
      (Nat.toDigits 10 row.wave.1).reverse := by
    rw [← trim_of_not_space noSpace_digits]
    exact trim_back _
  have hlist : row.text = ['-'] ++ ((" [" ++ row.id ++ "]").toList ++ (" уровень=".toList ++
      row.level ++ " ветка=".toList ++ row.branch ++ " домен=".toList ++
      [','].intercalate row.domain ++ " волна=".toList)) ++ Nat.toDigits 10 row.wave.1 := by
    unfold Row.text rowHead
    simp only [String.toList_append, List.append_assoc]
    have h1 : "- [".toList = ['-'] ++ " [".toList := by decide
    rw [h1, List.append_assoc]
  rw [hlist]
  exact trim_join (by decide) (by decide) hdigits Nat.toDigits_ne_nil

/-- A row is read as it was captured. -/
theorem parseTaskLine_row (hid : isTaskId row.id = true) (h : row.Plain) :
    parseTaskLine row.text = some row.task := by
  have hdash : row.text = ['-'] ++ (' ' :: (['['] ++ (row.id.toList ++ ']' :: row.fields))) := by
    rw [Row.text_eq]
    unfold rowHead
    simp only [String.toList_append, List.append_assoc]
    rfl
  have hspace : (' ' :: (['['] ++ (row.id.toList ++ ']' :: row.fields))).dropWhile isWhiteSpace =
      ['['] ++ (row.id.toList ++ ']' :: row.fields) := by
    rw [List.dropWhile_cons_of_pos (by decide), List.singleton_append,
      List.dropWhile_cons_of_neg (by decide)]
  -- a task id has no bracket in it, so the first one closes it
  have hbracket : ∀ ch ∈ row.id.toList, decide (ch ≠ ']') = true := by
    intro ch hch
    rw [decide_eq_true_eq]
    rintro rfl
    exact notMem_taskId hid (by decide) (by decide) (by decide) hch
  have htake : (row.id.toList ++ ']' :: row.fields).takeWhile (· ≠ ']') = row.id.toList := by
    rw [List.takeWhile_append_of_pos hbracket, List.takeWhile_cons_of_neg (by decide),
      List.append_nil]
  have hdrop : (row.id.toList ++ ']' :: row.fields).dropWhile (· ≠ ']') = ']' :: row.fields := by
    rw [List.dropWhile_append_of_pos hbracket, List.dropWhile_cons_of_neg (by decide)]
  have hread : String.ofList (trim row.id.toList) = row.id := by
    rw [trim_of_not_space (taskId_not_space hid), String.ofList_toList]
  unfold parseTaskLine
  rw [Row.trim_text, hdash, stripFront_here, Option.bind_eq_bind, Option.bind_some, hspace,
    stripFront_here, Option.bind_some, if_pos (by simp)]
  simp only [htake, hdrop, hread, List.tail_cons]
  rw [if_pos hid, tokenField_level h, tokenField_branch h, tokenField_domain h, tokenField_wave h,
    tokenField_worktree h, Option.bind_some, parseU32_toDigits row.wave.2]
  rfl

end Fields

/-- Only a line that starts with a dash is a task line. -/
theorem parseTaskLine_other {c : Char} (hc : isWhiteSpace c = false) (hdash : c ≠ '-')
    (rest : List Char) : parseTaskLine (c :: rest) = none := by
  obtain ⟨behind, htrim, -⟩ := trim_cons hc rest
  have hnone : stripFront ['-'] (trim (c :: rest)) = none := by
    rw [htrim]
    refine stripFront_none fun hpre => hdash ?_
    exact (List.cons_prefix_cons.1 hpre).1.symm
  unfold parseTaskLine
  rw [hnone]
  rfl

/-! ## The batch manifest -/

/-- The lines of the manifest above its rows. -/
def headLines (batchId base : List Char) : List (List Char) :=
  ["# Batch ".toList ++ batchId, [], "База: ".toList ++ base,
    "Интеграционная ветка: integration/".toList ++ batchId, [], "## Задачи".toList]

def batchText (batchId base : List Char) (rows : List Row) : List Char :=
  document (headLines batchId base ++ rows.map Row.text)

theorem batchHeading_eq (batchId base : List Char) :
    batchHeading batchId base = batchText batchId base [] := by
  have h1 : "\n\nБаза: ".toList = '\n' :: '\n' :: "База: ".toList := by decide
  have h2 : "\nИнтеграционная ветка: integration/".toList =
      '\n' :: "Интеграционная ветка: integration/".toList := by decide
  have h3 : "\n\n## Задачи\n".toList = '\n' :: '\n' :: ("## Задачи".toList ++ ['\n']) := by decide
  unfold batchHeading batchText document headLines
  rw [h1, h2, h3]
  simp only [List.map_nil, List.append_nil, List.map_cons, List.flatten_cons, List.flatten_nil,
    List.append_assoc, List.cons_append, List.nil_append]

theorem batchText_snoc (batchId base : List Char) (rows : List Row) (row : Row) :
    batchText batchId base (rows ++ [row]) = batchText batchId base rows ++ row.text ++ ['\n'] := by
  unfold batchText
  rw [List.map_append, ← List.append_assoc, document_append]
  simp [document]

theorem batchText_end (batchId base : List Char) (rows : List Row) :
    (batchText batchId base rows).getLast? = some '\n' := by
  unfold batchText
  rcases List.eq_nil_or_concat rows with rfl | ⟨rows, row, rfl⟩
  · rw [List.map_nil, List.append_nil]
    unfold document headLines
    simp only [List.map_cons, List.map_nil, List.flatten_cons, List.flatten_nil, List.append_nil,
      ← List.append_assoc, List.getLast?_concat]
  · rw [List.concat_eq_append, List.map_append, ← List.append_assoc, document_append]
    unfold document
    simp only [List.map_cons, List.map_nil, List.flatten_cons, List.flatten_nil, List.append_nil,
      ← List.append_assoc, List.getLast?_concat]

theorem isLine_of_noSpace {text : List Char} (h : NoSpace text) : IsLine text := by
  refine ⟨h.notMem (by decide), fun hlast => ?_⟩
  exact h.notMem (by decide) (List.mem_of_getLast? hlast)

theorem IsLine.behind {front text : List Char} (hfront : front.all (fun ch => ch != '\n') = true)
    (hback : front.getLast? ≠ some '\r') (h : IsLine text) : IsLine (front ++ text) := by
  refine ⟨fun hmem => ?_, fun hlast => ?_⟩
  · rcases List.mem_append.1 hmem with hmem | hmem
    · have := List.all_eq_true.1 hfront _ hmem
      simp at this
    · exact h.1 hmem
  · rw [List.getLast?_append] at hlast
    cases htext : text.getLast? with
    | none =>
      rw [htext] at hlast
      exact hback hlast
    | some ch =>
      rw [htext] at hlast
      exact h.2 (htext.trans hlast)

section Rows

variable {batchId base : List Char} {rows : List Row}

/-- A token that `find_batch_id` looks for. -/
structure IsToken (batchId : List Char) : Prop where
  space : NoSpace batchId
  stamp : isBatchToken batchId = true

theorem IsToken.ne_nil (h : IsToken batchId) : batchId ≠ [] := by
  intro hnil
  have hstamp := h.stamp
  rw [hnil] at hstamp
  revert hstamp
  decide

theorem headLines_lines (hid : IsToken batchId) (hbase : IsLine base) :
    ∀ line ∈ headLines batchId base, IsLine line := by
  have hline := isLine_of_noSpace hid.space
  intro line hmem
  simp only [headLines, List.mem_cons, List.not_mem_nil, or_false] at hmem
  rcases hmem with rfl | rfl | rfl | rfl | rfl | rfl
  · exact hline.behind (by decide) (by decide)
  · exact ⟨by decide, by decide⟩
  · exact hbase.behind (by decide) (by decide)
  · exact hline.behind (by decide) (by decide)
  · exact ⟨by decide, by decide⟩
  · exact ⟨by decide, by decide⟩

theorem Row.isLine {row : Row} (hid : isTaskId row.id = true) (h : row.Plain) :
    IsLine row.text := by
  have hline : '\n' ∉ row.text := by
    have hdomain := noSpace_joined h.domain
    unfold Row.text rowHead
    simp only [String.toList_append, List.mem_append, not_or, and_assoc]
    exact ⟨by decide, notMem_taskId hid (by decide) (by decide) (by decide), by decide, by decide,
      h.level.notMem (by decide), by decide, h.branch.notMem (by decide), by decide,
      hdomain.notMem (by decide), by decide, noSpace_digits.notMem (by decide)⟩
  refine ⟨hline, ?_⟩
  unfold Row.text
  rw [List.getLast?_append]
  cases hlast : (Nat.toDigits 10 row.wave.1).getLast? with
  | none => exact absurd (List.getLast?_eq_none_iff.1 hlast) Nat.toDigits_ne_nil
  | some ch =>
    intro heq
    obtain rfl := Option.some.inj heq
    exact noSpace_digits.notMem (by decide) (List.mem_of_getLast? hlast)

/-- The rows of a manifest, and what surrounds them. -/
structure Writable (batchId base : List Char) (rows : List Row) : Prop where
  batchId : IsToken batchId
  base : IsLine base
  ids : ∀ row ∈ rows, isTaskId row.id = true
  plain : ∀ row ∈ rows, row.Plain

theorem Writable.lines (h : Writable batchId base rows) :
    textLines (batchText batchId base rows) = headLines batchId base ++ rows.map Row.text := by
  refine textLines_document fun line hline => ?_
  rcases List.mem_append.1 hline with hline | hline
  · exact headLines_lines h.batchId h.base line hline
  · obtain ⟨row, hrow, rfl⟩ := List.mem_map.1 hline
    exact Row.isLine (h.ids row hrow) (h.plain row hrow)

theorem headLines_tasks : (headLines batchId base).filterMap parseTaskLine = [] := by
  have h1 : parseTaskLine ("# Batch ".toList ++ batchId) = none :=
    parseTaskLine_other (by decide) (by decide) _
  have h2 : parseTaskLine [] = none := rfl
  have h3 : parseTaskLine ("База: ".toList ++ base) = none :=
    parseTaskLine_other (by decide) (by decide) _
  have h4 : parseTaskLine ("Интеграционная ветка: integration/".toList ++ batchId) = none :=
    parseTaskLine_other (by decide) (by decide) _
  have h5 : parseTaskLine "## Задачи".toList = none :=
    parseTaskLine_other (by decide) (by decide) _
  simp only [headLines, List.filterMap_cons, h1, h2, h3, h4, h5, List.filterMap_nil]

theorem Writable.tasks (h : Writable batchId base rows) :
    (parseBatch (batchText batchId base rows)).tasks = rows.map Row.task := by
  show (textLines _).filterMap parseTaskLine = _
  rw [h.lines, List.filterMap_append, headLines_tasks, List.nil_append, List.filterMap_map]
  induction rows with
  | nil => rfl
  | cons row rows ih =>
    have hrow : (parseTaskLine ∘ Row.text) row = some row.task :=
      parseTaskLine_row (h.ids row List.mem_cons_self) (h.plain row List.mem_cons_self)
    rw [List.filterMap_cons, hrow, List.map_cons]
    exact congrArg (row.task :: ·) (ih ⟨h.batchId, h.base,
      fun r hr => h.ids r (List.mem_cons_of_mem _ hr),
      fun r hr => h.plain r (List.mem_cons_of_mem _ hr)⟩)

theorem Writable.batchBase (h : Writable batchId base rows) :
    (parseBatch (batchText batchId base rows)).base = some (trim base) := by
  have h1 : (stripFront "База:".toList (trim ("# Batch ".toList ++ batchId))).map trim = none :=
    field_other (by decide) (by decide) _
  have h2 : (stripFront "База:".toList (trim [])).map trim = none := rfl
  have h3 : (stripFront "База:".toList (trim ("База: ".toList ++ base))).map trim =
      some (trim base) := by
    have hhead : "База: ".toList ++ base = "База:".toList ++ ' ' :: base := by
      rw [show "База: ".toList = "База:".toList ++ [' '] by decide, List.append_assoc]
      rfl
    rw [hhead]
    exact field_here (by decide) (by decide) base
  show (textLines _).findSome? _ = _
  rw [h.lines]
  unfold headLines
  simp only [List.cons_append, List.findSome?_cons, h1, h2, h3]

theorem Writable.branch (h : Writable batchId base rows) :
    (parseBatch (batchText batchId base rows)).integrationBranch =
      some ("integration/".toList ++ batchId) := by
  -- of the lines in front, none has the marker; the fourth one has it
  have h1 : (stripFront "Интеграционная ветка:".toList
      (trim ("# Batch ".toList ++ batchId))).map trim = none :=
    field_other (by decide) (by decide) _
  have h2 : (stripFront "Интеграционная ветка:".toList (trim [])).map trim = none := rfl
  have h3 : (stripFront "Интеграционная ветка:".toList (trim ("База: ".toList ++ base))).map trim =
      none :=
    field_other (by decide) (by decide) _
  have h4 : (stripFront "Интеграционная ветка:".toList (trim
      ("Интеграционная ветка: integration/".toList ++ batchId))).map trim =
      some (trim ("integration/".toList ++ batchId)) := by
    have hhead : "Интеграционная ветка: integration/".toList ++ batchId =
        "Интеграционная ветка:".toList ++ ' ' :: ("integration/".toList ++ batchId) := by
      rw [show "Интеграционная ветка: integration/".toList =
        "Интеграционная ветка:".toList ++ ' ' :: "integration/".toList by decide, List.append_assoc,
        List.cons_append]
    rw [hhead]
    exact field_here (by decide) (by decide) _
  have hspace : NoSpace ("integration/".toList ++ batchId) :=
    (noSpace_of_all (by decide)).append h.batchId.space
  show (textLines _).findSome? _ = _
  rw [h.lines, ← trim_of_not_space hspace]
  unfold headLines
  simp only [List.cons_append, List.findSome?_cons, h1, h2, h3, h4]

theorem findBatchId_token (h : IsToken batchId) {ch : Char} (hch : isWhiteSpace ch = true)
    (rest : List Char) : findBatchId (batchId ++ ch :: rest) = some batchId := by
  unfold findBatchId
  rw [splitWhitespace_token h.space h.ne_nil hch]
  exact List.find?_cons_of_pos h.stamp

theorem findBatchId_behind {word : List Char} (hword : NoSpace word) (hne : word ≠ [])
    (hno : isBatchToken word = false) (rest : List Char) :
    findBatchId (word ++ ' ' :: rest) = findBatchId rest := by
  unfold findBatchId
  rw [splitWhitespace_token hword hne (by decide), List.find?_cons_of_neg (by simp [hno])]

theorem Writable.found (h : Writable batchId base rows) :
    (parseBatch (batchText batchId base rows)).batchId = some batchId := by
  have hhead : "# Batch ".toList = "#".toList ++ ' ' :: ("Batch".toList ++ [' ']) := by decide
  have htext : batchText batchId base rows = "#".toList ++ ' ' :: ("Batch".toList ++ ' ' ::
      (batchId ++ '\n' :: document ((headLines batchId base).tail ++ rows.map Row.text))) := by
    unfold batchText document headLines
    simp only [hhead, List.cons_append, List.map_cons, List.flatten_cons, List.append_assoc,
      List.nil_append, List.tail_cons]
  show findBatchId _ = _
  rw [htext, findBatchId_behind (by decide) (by decide) (by decide),
    findBatchId_behind (by decide) (by decide) (by decide),
    findBatchId_token h.batchId (by decide)]

/-! ### Rows already recorded -/

/-- The lines of a task. -/
def isRowOf (id : String) (line : List Char) : Bool :=
  (rowHead id).isPrefixOf (line.dropWhile isWhiteSpace)

theorem rowHead_toList (id : String) : rowHead id = '-' :: ' ' :: '[' :: (id.toList ++ [']']) := by
  unfold rowHead
  simp only [String.toList_append, List.append_assoc]
  rfl

theorem isRowOf_other {id : String} {c : Char} (hc : isWhiteSpace c = false) (hdash : c ≠ '-')
    (rest : List Char) : isRowOf id (c :: rest) = false := by
  unfold isRowOf
  rw [List.dropWhile_cons_of_neg (by simp [hc]), rowHead_toList, Bool.eq_false_iff]
  intro hpre
  exact hdash (List.cons_prefix_cons.1 (List.isPrefixOf_iff_prefix.1 hpre)).1.symm

theorem isRowOf_row {id : String} {row : Row} (hid : isTaskId id = true)
    (hrow : isTaskId row.id = true) : isRowOf id row.text = decide (row.id = id) := by
  have hnot : ∀ {name : String}, isTaskId name = true →
      ∀ ch ∈ name.toList, decide (ch ≠ ']') = true := by
    intro name hname ch hch
    rw [decide_eq_true_eq]
    rintro rfl
    exact notMem_taskId hname (by decide) (by decide) (by decide) hch
  have htext : row.text = '-' :: ' ' :: '[' :: (row.id.toList ++ ']' :: row.fields) := by
    rw [Row.text_eq, rowHead_toList]
    simp
  unfold isRowOf
  rw [htext, List.dropWhile_cons_of_neg (by decide), rowHead_toList, Bool.eq_iff_iff,
    List.isPrefixOf_iff_prefix, decide_eq_true_eq]
  -- both heads end at the first bracket, so their ids are one
  constructor
  · rintro ⟨behind, hbehind⟩
    simp only [List.cons_append, List.append_assoc, List.cons.injEq, true_and] at hbehind
    have htake := congrArg (List.takeWhile (· ≠ ']')) hbehind
    rw [List.takeWhile_append_of_pos (hnot hid), List.takeWhile_append_of_pos (hnot hrow),
      List.takeWhile_cons_of_neg (by decide), List.takeWhile_cons_of_neg (by decide),
      List.append_nil, List.append_nil] at htake
    exact (String.toList_inj.1 htake).symm
  · rintro rfl
    exact ⟨row.fields, by simp⟩

theorem Writable.recorded {id : String} (h : Writable batchId base rows)
    (hid : isTaskId id = true) : (textLines (batchText batchId base rows)).filter (isRowOf id) =
      (rows.filter fun row => row.id = id).map Row.text := by
  have hhead : (headLines batchId base).filter (isRowOf id) = [] := by
    have h1 : isRowOf id ("# Batch ".toList ++ batchId) = false :=
      isRowOf_other (by decide) (by decide) _
    have h2 : isRowOf id [] = false := by
      unfold isRowOf
      rw [rowHead_toList]
      rfl
    have h3 : isRowOf id ("База: ".toList ++ base) = false :=
      isRowOf_other (by decide) (by decide) _
    have h4 : isRowOf id ("Интеграционная ветка: integration/".toList ++ batchId) = false :=
      isRowOf_other (by decide) (by decide) _
    have h5 : isRowOf id "## Задачи".toList = false := isRowOf_other (by decide) (by decide) _
    simp only [headLines, List.filter_cons, h1, h2, h3, h4, h5, List.filter_nil,
      Bool.false_eq_true, if_false]
  rw [h.lines, List.filter_append, hhead, List.nil_append, List.filter_map]
  refine congrArg (List.map Row.text) (List.filter_congr fun row hrow => ?_)
  exact isRowOf_row hid (h.ids row hrow)

end Rows

/-! ## The calls -/

theorem written_ok {path : String} {text : List Char} {file : Option (List Char)}
    (h : written path text = .ok file) : file = some text ∧ textBytes text ≤ maxControlBytes := by
  unfold written at h
  split at h
  · rename_i hsize
    exact ⟨(Except.ok.inj h).symm, hsize⟩
  · cases h

theorem written_eq {path : String} {text : List Char} (h : textBytes text ≤ maxControlBytes) :
    written path text = .ok (some text) := if_pos h

/-- What is checked of a task before it is recorded. -/
structure Row.Valid (row : Row) : Prop where
  id : isTaskId row.id = true
  branch : QueueEntry.validateRef row.branch "task branch" = .ok ()
  level : trim row.level ≠ []
  domain : ∃ value, parseConflictDomain value = some row.domain

theorem appendBatchTask_ok {files files' : CohortFiles} {row : Row}
    (h : appendBatchTask files row = .ok files') :
    isTaskId row.id = true ∧ QueueEntry.validateRef row.branch "task branch" = .ok () ∧
      trim row.level ≠ [] ∧ row.domain ≠ [] ∧ ∃ content, files.batch = some content ∧
      ((textLines content).filter (isRowOf row.id) = [] ∧
        (∃ text, text = (if content.getLast? = some '\n' then content else content ++ ['\n']) ++
          row.text ++ ['\n'] ∧ textBytes text ≤ maxControlBytes ∧
          files' = { files with batch := some text }) ∨
      (textLines content).filter (isRowOf row.id) ≠ [] ∧ files' = files) := by
  unfold appendBatchTask at h
  obtain ⟨_, hid, h⟩ := bind_eq_ok.1 h
  obtain ⟨_, hbranch, h⟩ := bind_eq_ok.1 h
  obtain ⟨_, hlevel, h⟩ := bind_eq_ok.1 h
  obtain ⟨content, hread, h⟩ := bind_eq_ok.1 h
  obtain ⟨hlevel, hdomain⟩ := demand_eq_ok.1 hlevel
  refine ⟨demand_eq_ok.1 hid, hbranch, hlevel, hdomain, content, (readRequired_ok hread).1, ?_⟩
  -- no row of the task: it is written; a row of it: the text stays
  cases hrows : (textLines content).filter (isRowOf row.id) with
  | nil =>
    rw [show (textLines content).filter (fun line => (rowHead row.id).isPrefixOf
      (line.dropWhile isWhiteSpace)) = [] from hrows] at h
    obtain ⟨file, hwritten, h⟩ := bind_eq_ok.1 h
    obtain ⟨rfl, hsize⟩ := written_ok hwritten
    exact .inl ⟨rfl, _, rfl, hsize, (Except.ok.inj h).symm⟩
  | cons first more =>
    rw [show (textLines content).filter (fun line => (rowHead row.id).isPrefixOf
      (line.dropWhile isWhiteSpace)) = first :: more from hrows] at h
    obtain ⟨_, -, h⟩ := bind_eq_ok.1 h
    exact .inr ⟨List.cons_ne_nil _ _, (Except.ok.inj h).symm⟩

theorem writeCohort_ok {files files' : CohortFiles} {batchId : List Char} {args : CohortArgs}
    (h : writeCohort files batchId args = .ok files') :
    textBytes (cohortText batchId args) ≤ maxControlBytes ∧
      files' = { files with cohort := some (cohortText batchId args) } := by
  unfold writeCohort at h
  obtain ⟨_, -, h⟩ := bind_eq_ok.1 h
  obtain ⟨file, hwritten, h⟩ := bind_eq_ok.1 h
  obtain ⟨rfl, hsize⟩ := written_ok hwritten
  exact ⟨hsize, (Except.ok.inj h).symm⟩

theorem writeIntegration_ok {files files' : CohortFiles} {batchId : List Char}
    {args : IntegrationArgs} (h : writeIntegration files batchId args = .ok files') :
    textBytes (integrationText batchId args) ≤ maxControlBytes ∧
      (∀ sha ∈ args.reviewSha, QueueEntry.validateRef sha "integration review SHA" = .ok ()) ∧
      files' = { files with integration := some (integrationText batchId args) } := by
  unfold writeIntegration at h
  obtain ⟨_, -, h⟩ := bind_eq_ok.1 h
  cases hsha : args.reviewSha with
  | none =>
    simp only [hsha] at h
    obtain ⟨file, hwritten, h⟩ := bind_eq_ok.1 h
    obtain ⟨rfl, hsize⟩ := written_ok hwritten
    refine ⟨hsize, ?_, (Except.ok.inj h).symm⟩
    intro sha hmem
    cases hmem
  | some sha =>
    simp only [hsha] at h
    obtain ⟨_, hvalid, h⟩ := bind_eq_ok.1 h
    obtain ⟨file, hwritten, h⟩ := bind_eq_ok.1 h
    obtain ⟨rfl, hsize⟩ := written_ok hwritten
    refine ⟨hsize, fun sha' hmem => ?_, (Except.ok.inj h).symm⟩
    rw [← Option.some.inj hmem]
    exact hvalid

section Kept

variable {batchId base : List Char}

/-- What the files of a cohort are, as long as no row needs an escape. -/
structure Kept (batchId base : List Char) (l : Ledger) : Prop where
  ids : (l.rows.map Row.id).Nodup
  valid : ∀ row ∈ l.rows, row.Valid
  batch : (∀ row ∈ l.rows, row.Plain) → l.files.batch = some (batchText batchId base l.rows) ∧
    textBytes (batchText batchId base l.rows) ≤ maxControlBytes
  cohort : ∀ args ∈ l.cohort, l.files.cohort = some (cohortText batchId args) ∧
    textBytes (cohortText batchId args) ≤ maxControlBytes
  integration : ∀ args ∈ l.integration, l.files.integration = some (integrationText batchId args) ∧
    textBytes (integrationText batchId args) ≤ maxControlBytes ∧
    ∀ sha ∈ args.reviewSha, QueueEntry.validateRef sha "integration review SHA" = .ok ()

/-- The conflict domains of the calls are those `parse_conflict_domain` returns. -/
def Parsed : Call → Prop
  | .appendBatchTask row => ∃ value, parseConflictDomain value = some row.domain
  | _ => True

theorem Kept.append {l : Ledger} {row : Row} {files : CohortFiles} (hid : IsToken batchId)
    (hbase : IsLine base) (h : Kept batchId base l) (hrow : Parsed (.appendBatchTask row))
    (hcall : appendBatchTask l.files row = .ok files) :
    Kept batchId base { l.record (.appendBatchTask row) with files := files } := by
  obtain ⟨hrid, hbranch, hlevel, -, content, hcontent, hcases⟩ := appendBatchTask_ok hcall
  -- only the batch file is touched
  have hothers : files.cohort = l.files.cohort ∧ files.integration = l.files.integration := by
    rcases hcases with ⟨-, _, -, -, rfl⟩ | ⟨-, rfl⟩ <;> exact ⟨rfl, rfl⟩
  have hwritable : (∀ r ∈ l.rows, r.Plain) → Writable batchId base l.rows := fun hplain =>
    ⟨hid, hbase, fun r hr => (h.valid r hr).id, hplain⟩
  by_cases hmem : row.id ∈ l.rows.map Row.id
  · have hrecord : l.record (.appendBatchTask row) = l := if_pos hmem
    rw [hrecord]
    refine ⟨h.ids, h.valid, fun hplain => ?_, fun args hargs => ?_, fun args hargs => ?_⟩
    · -- the row is found again, and nothing is written
      obtain ⟨hbatch, hsize⟩ := h.batch hplain
      obtain rfl := Option.some.inj (hbatch.symm.trans hcontent)
      rcases hcases with ⟨hnil, -⟩ | ⟨-, rfl⟩
      · rw [(hwritable hplain).recorded hrid, List.map_eq_nil_iff, List.filter_eq_nil_iff] at hnil
        obtain ⟨r, hr, heq⟩ := List.mem_map.1 hmem
        exact absurd (by simpa using heq) (hnil r hr)
      · exact ⟨hbatch, hsize⟩
    · exact hothers.1 ▸ h.cohort args hargs
    · exact hothers.2 ▸ h.integration args hargs
  · have hrecord : l.record (.appendBatchTask row) = { l with rows := l.rows ++ [row] } :=
      if_neg hmem
    rw [hrecord]
    refine ⟨?_, fun r hr => ?_, fun hplain => ?_, fun args hargs => ?_, fun args hargs => ?_⟩
    · show ((l.rows ++ [row]).map Row.id).Nodup
      rw [List.map_append, List.nodup_append]
      refine ⟨h.ids, by simp, fun a ha b hb => ?_⟩
      obtain rfl : b = row.id := by simpa using hb
      rintro rfl
      exact hmem ha
    · rcases List.mem_append.1 hr with hr | hr
      · exact h.valid r hr
      · obtain rfl := List.mem_singleton.1 hr
        exact ⟨hrid, hbranch, hlevel, hrow⟩
    · have hplain' : ∀ r ∈ l.rows, r.Plain := fun r hr => hplain r (List.mem_append_left _ hr)
      obtain ⟨hbatch, hsize⟩ := h.batch hplain'
      obtain rfl := Option.some.inj (hbatch.symm.trans hcontent)
      rcases hcases with ⟨-, text, htext, hbytes, rfl⟩ | ⟨hsome, -⟩
      · rw [if_pos (batchText_end batchId base l.rows), ← batchText_snoc] at htext
        subst htext
        exact ⟨rfl, hbytes⟩
      · refine absurd ?_ hsome
        rw [(hwritable hplain').recorded hrid, List.map_eq_nil_iff, List.filter_eq_nil_iff]
        intro r hr heq
        exact hmem (List.mem_map.2 ⟨r, hr, by simpa using heq⟩)
    · exact hothers.1 ▸ h.cohort args hargs
    · exact hothers.2 ▸ h.integration args hargs

/-- Every call that succeeds keeps it. -/
theorem Kept.step {l m : Ledger} {c : Call} (hid : IsToken batchId) (hbase : IsLine base)
    (h : Kept batchId base l) (hc : Parsed c) (hnext : l.next batchId c = some m) :
    Kept batchId base m := by
  unfold Ledger.next at hnext
  obtain ⟨files, hfiles, rfl⟩ := Option.map_eq_some_iff.1 hnext
  have hcall : call batchId l.files c = .ok files := by
    cases hcall : call batchId l.files c with
    | error e =>
      rw [hcall] at hfiles
      cases hfiles
    | ok found =>
      rw [hcall] at hfiles
      rw [Option.some.inj hfiles]
  -- each call writes one of the three files, and it is that file whose text has to be kept
  cases c with
  | appendBatchTask row => exact h.append hid hbase hc hcall
  | writeCohort args =>
    obtain ⟨hsize, rfl⟩ := writeCohort_ok hcall
    refine ⟨h.ids, h.valid, h.batch, fun args' hargs => ?_, h.integration⟩
    obtain rfl := Option.some.inj hargs
    exact ⟨rfl, hsize⟩
  | writeIntegration args =>
    obtain ⟨hsize, hsha, rfl⟩ := writeIntegration_ok hcall
    refine ⟨h.ids, h.valid, h.batch, h.cohort, fun args' hargs => ?_⟩
    obtain rfl := Option.some.inj hargs
    exact ⟨rfl, hsize, hsha⟩

/-- The manifest of a batch that has just been opened. -/
theorem openBatch_new {files opened : CohortFiles} (hnew : files.batch = none)
    (h : openBatch files batchId base = .ok opened) :
    QueueEntry.validateBatchId batchId = .ok () ∧ QueueEntry.validateRef base "base" = .ok () ∧
      textBytes (batchText batchId base []) ≤ maxControlBytes ∧
      opened = { files with batch := some (batchText batchId base []) } := by
  unfold openBatch at h
  obtain ⟨_, hid, h⟩ := bind_eq_ok.1 h
  obtain ⟨_, hbase, h⟩ := bind_eq_ok.1 h
  rw [hnew] at h
  obtain ⟨found, hread, h⟩ := bind_eq_ok.1 h
  obtain ⟨rfl, -⟩ := readOptionalText_ok hread
  obtain ⟨file, hwritten, h⟩ := bind_eq_ok.1 h
  obtain ⟨rfl, hsize⟩ := written_ok hwritten
  rw [batchHeading_eq] at hsize h
  exact ⟨hid, hbase, hsize, (Except.ok.inj h).symm⟩

end Kept

/-! ## The state of a cohort and of its integration -/

theorem isLine_of_trim {text : List Char} (htrim : trim text = text) (hline : '\n' ∉ text) :
    IsLine text := by
  refine ⟨hline, fun hlast => ?_⟩
  have hback := trim_back text
  rw [htrim] at hback
  have hhead : text.reverse.head? = some '\r' := by rw [List.head?_reverse, hlast]
  cases hrev : text.reverse with
  | nil =>
    rw [hrev] at hhead
    cases hhead
  | cons ch more =>
    rw [hrev] at hhead hback
    obtain rfl := Option.some.inj hhead
    have hlen := congrArg List.length hback
    have hle := (List.dropWhile_suffix (l := more) isWhiteSpace).length_le
    rw [List.dropWhile_cons_of_pos (by decide), List.length_cons] at hlen
    omega

theorem lineField_document {lines : List (List Char)} (h : ∀ line ∈ lines, IsLine line)
    (key : String) : lineField (document lines) key =
      lines.findSome? fun line => (stripFront key.toList (trim line)).map trim := by
  unfold lineField
  rw [textLines_document h]

theorem trim_digits (n : Nat) : trim (Nat.toDigits 10 n) = Nat.toDigits 10 n :=
  trim_of_not_space noSpace_digits

theorem isLine_digits {front : List Char} (hfront : front.all (fun ch => ch != '\n') = true)
    (hback : front.getLast? ≠ some '\r') (n : Nat) : IsLine (front ++ Nat.toDigits 10 n) :=
  (isLine_of_noSpace noSpace_digits).behind hfront hback

section Cohort

variable {batchId : List Char} {args : CohortArgs}

/-- The admission and the reason need no escape. -/
structure CohortArgs.Plain (args : CohortArgs) : Prop where
  trimmed : trim args.literal = args.literal
  line : '\n' ∉ args.literal
  reason : ∀ value ∈ args.shown, trim value = value ∧ '·' ∉ value
  other : ∀ value ∈ suffixField args.admission reasonKey, args.shown = some value

def cohortLines (batchId : List Char) (args : CohortArgs) : List (List Char) :=
  ["# Cohort state — Batch ".toList ++ batchId, [], "Приём: ".toList ++ args.literal,
    "Волна: ".toList ++ Nat.toDigits 10 args.wave.1,
    "Admitted всего: ".toList ++ Nat.toDigits 10 args.admittedTotal.1]

theorem cohortText_eq (batchId : List Char) (args : CohortArgs) :
    cohortText batchId args = document (cohortLines batchId args) := by
  have h1 : "\n\nПриём: ".toList = '\n' :: '\n' :: "Приём: ".toList := by decide
  have h2 : "\nВолна: ".toList = '\n' :: "Волна: ".toList := by decide
  have h3 : "\nAdmitted всего: ".toList = '\n' :: "Admitted всего: ".toList := by decide
  unfold cohortText document cohortLines
  rw [h1, h2, h3]
  simp only [List.map_cons, List.map_nil, List.flatten_cons, List.flatten_nil, List.append_assoc,
    List.cons_append, List.nil_append, List.append_nil]

theorem cohortLines_lines (hid : IsToken batchId) (h : args.Plain) :
    ∀ line ∈ cohortLines batchId args, IsLine line := by
  intro line hmem
  simp only [cohortLines, List.mem_cons, List.not_mem_nil, or_false] at hmem
  rcases hmem with rfl | rfl | rfl | rfl | rfl
  · exact (isLine_of_noSpace hid.space).behind (by decide) (by decide)
  · exact ⟨by decide, by decide⟩
  · exact (isLine_of_trim h.trimmed h.line).behind (by decide) (by decide)
  · exact isLine_digits (by decide) (by decide) _
  · exact isLine_digits (by decide) (by decide) _

theorem cohort_literal (hid : IsToken batchId) (h : args.Plain) :
    lineField (cohortText batchId args) "Приём:" = some args.literal := by
  have h1 : (stripFront "Приём:".toList
      (trim ("# Cohort state — Batch ".toList ++ batchId))).map trim = none :=
    field_other (by decide) (by decide) _
  have h2 : (stripFront "Приём:".toList (trim [])).map trim = none := rfl
  have h3 : (stripFront "Приём:".toList (trim ("Приём: ".toList ++ args.literal))).map trim =
      some args.literal := by
    rw [show "Приём: ".toList = "Приём:".toList ++ [' '] by decide, List.append_assoc,
      List.singleton_append, field_here (by decide) (by decide), h.trimmed]
  rw [cohortText_eq, lineField_document (cohortLines_lines hid h)]
  unfold cohortLines
  simp only [List.findSome?_cons, h1, h2, h3]

theorem cohort_wave (hid : IsToken batchId) (h : args.Plain) :
    lineField (cohortText batchId args) "Волна:" = some (Nat.toDigits 10 args.wave.1) := by
  have h1 : (stripFront "Волна:".toList
      (trim ("# Cohort state — Batch ".toList ++ batchId))).map trim = none :=
    field_other (by decide) (by decide) _
  have h2 : (stripFront "Волна:".toList (trim [])).map trim = none := rfl
  have h3 : (stripFront "Волна:".toList
      (trim ("Приём: ".toList ++ args.literal))).map trim = none :=
    field_other (by decide) (by decide) _
  have h4 : (stripFront "Волна:".toList
      (trim ("Волна: ".toList ++ Nat.toDigits 10 args.wave.1))).map trim =
      some (Nat.toDigits 10 args.wave.1) := by
    rw [show "Волна: ".toList = "Волна:".toList ++ [' '] by decide, List.append_assoc,
      List.singleton_append, field_here (by decide) (by decide), trim_digits]
  rw [cohortText_eq, lineField_document (cohortLines_lines hid h)]
  unfold cohortLines
  simp only [List.findSome?_cons, h1, h2, h3, h4]

theorem cohort_total (hid : IsToken batchId) (h : args.Plain) :
    lineField (cohortText batchId args) "Admitted всего:" =
      some (Nat.toDigits 10 args.admittedTotal.1) := by
  have h1 : (stripFront "Admitted всего:".toList
      (trim ("# Cohort state — Batch ".toList ++ batchId))).map trim = none :=
    field_other (by decide) (by decide) _
  have h2 : (stripFront "Admitted всего:".toList (trim [])).map trim = none := rfl
  have h3 : (stripFront "Admitted всего:".toList
      (trim ("Приём: ".toList ++ args.literal))).map trim = none :=
    field_other (by decide) (by decide) _
  have h4 : (stripFront "Admitted всего:".toList
      (trim ("Волна: ".toList ++ Nat.toDigits 10 args.wave.1))).map trim = none :=
    field_other (by decide) (by decide) _
  have h5 : (stripFront "Admitted всего:".toList
      (trim ("Admitted всего: ".toList ++ Nat.toDigits 10 args.admittedTotal.1))).map trim =
      some (Nat.toDigits 10 args.admittedTotal.1) := by
    rw [show "Admitted всего: ".toList = "Admitted всего:".toList ++ [' '] by decide,
      List.append_assoc, List.singleton_append, field_here (by decide) (by decide), trim_digits]
  rw [cohortText_eq, lineField_document (cohortLines_lines hid h)]
  unfold cohortLines
  simp only [List.findSome?_cons, h1, h2, h3, h4, h5]

theorem cohort_batchId (hid : IsToken batchId) :
    findBatchId (cohortText batchId args) = some batchId := by
  have hhead : "# Cohort state — Batch ".toList = "#".toList ++ ' ' :: ("Cohort".toList ++ ' ' ::
      ("state".toList ++ ' ' :: ("—".toList ++ ' ' :: ("Batch".toList ++ [' '])))) := by decide
  have htext : cohortText batchId args = "#".toList ++ ' ' :: ("Cohort".toList ++ ' ' ::
      ("state".toList ++ ' ' :: ("—".toList ++ ' ' :: ("Batch".toList ++ ' ' ::
        (batchId ++ '\n' :: document (cohortLines batchId args).tail))))) := by
    rw [cohortText_eq]
    unfold document cohortLines
    simp only [hhead, List.map_cons, List.flatten_cons, List.append_assoc, List.cons_append,
      List.nil_append, List.tail_cons]
  rw [htext, findBatchId_behind (by decide) (by decide) (by decide),
    findBatchId_behind (by decide) (by decide) (by decide),
    findBatchId_behind (by decide) (by decide) (by decide),
    findBatchId_behind (by decide) (by decide) (by decide),
    findBatchId_behind (by decide) (by decide) (by decide), findBatchId_token hid (by decide)]

theorem literal_some {value : List Char} (h : args.shown = some value) :
    args.literal = args.admission ++ ' ' :: '·' :: (" причина=".toList ++ value) := by
  have hhead : " · причина=".toList = ' ' :: '·' :: " причина=".toList := by decide
  unfold CohortArgs.literal
  simp only [h, hhead, List.cons_append]

theorem literal_none (h : args.shown = none) : args.literal = args.admission := by
  unfold CohortArgs.literal
  simp only [h, List.append_nil]

/-- The reason changes nothing of the admission. -/
theorem baseWord_literal (args : CohortArgs) :
    TaskState.baseWord args.literal = TaskState.baseWord args.admission := by
  cases hshown : args.shown with
  | none => rw [literal_none hshown]
  | some value =>
    rw [literal_some hshown]
    unfold TaskState.baseWord
    by_cases hdot : '·' ∈ args.admission
    · obtain ⟨x, y, hadm, hx⟩ := List.eq_append_cons_of_mem hdot
      have hall : ∀ ch ∈ x, decide (ch ≠ '·') = true := by
        intro ch hch
        rw [decide_eq_true_eq]
        rintro rfl
        exact hx hch
      rw [hadm, List.append_assoc, List.takeWhile_append_of_pos hall,
        List.takeWhile_append_of_pos hall, List.cons_append, List.takeWhile_cons_of_neg (by simp),
        List.takeWhile_cons_of_neg (by simp)]
    · have hall : ∀ ch ∈ args.admission, decide (ch ≠ '·') = true := by
        intro ch hch
        rw [decide_eq_true_eq]
        rintro rfl
        exact hdot hch
      rw [List.takeWhile_append_of_pos hall, List.takeWhile_cons_of_pos (by decide),
        List.takeWhile_cons_of_neg (by decide), trim_tail space_only,
        List.takeWhile_eq_self_iff.2 hall]

theorem suffixField_reason {value : List Char} (hdot : '·' ∉ value) :
    suffixField (" причина=".toList ++ value) reasonKey = some (trim value) := by
  have hfront : reasonKey.dropWhile isWhiteSpace = reasonKey := by decide
  obtain ⟨a, b, hvalue, ha, hb⟩ := trim_parts value
  have hhead : " причина=".toList = [' '] ++ reasonKey := by decide
  have hno : '·' ∉ reasonKey ++ value := by
    intro hmem
    rcases List.mem_append.1 hmem with hmem | hmem
    · revert hmem
      decide
    · exact hdot hmem
  rw [hhead, List.append_assoc, suffixField_lead space_only, suffixField_single hno]
  by_cases hnil : trim value = []
  · have hall : ∀ ch ∈ value, isWhiteSpace ch = true := trim_eq_nil.1 hnil
    have hkey : trim reasonKey = reasonKey := by decide
    rw [trim_tail hall, hkey, hnil, stripFront_iff.2 (List.append_nil reasonKey).symm]
    rfl
  · have hlist : reasonKey ++ value = reasonKey ++ a ++ trim value ++ b := by
      conv_lhs => rw [hvalue]
      simp
    rw [hlist, trim_tail hb, trim_join hfront (by decide) (trim_back value) hnil,
      stripFront_iff.2 (List.append_assoc reasonKey _ _), Option.map_some, trim_lead ha, trim_trim]

theorem cohort_reason (h : args.Plain) :
    suffixField args.literal reasonKey = args.shown := by
  cases hshown : args.shown with
  | none =>
    rw [literal_none hshown]
    cases hother : suffixField args.admission reasonKey with
    | none => rfl
    | some value =>
      have := h.other value hother
      rw [hshown] at this
      cases this
  | some value =>
    obtain ⟨htrim, hdot⟩ := h.reason value hshown
    rw [literal_some hshown, suffixField_next, suffixField_reason hdot, htrim]
    cases hother : suffixField args.admission reasonKey with
    | none => rfl
    | some found =>
      have := h.other found hother
      rw [hshown] at this
      rw [Option.some_or, this]

end Cohort

section Integration

variable {batchId : List Char} {args : IntegrationArgs}

def integrationLines (batchId : List Char) (args : IntegrationArgs) : List (List Char) :=
  ["# Integration state — Batch ".toList ++ batchId, [],
    "Состояние: ".toList ++ args.state.literal.toList,
    "F-циклов: ".toList ++ Nat.toDigits 10 args.fCycles.1] ++
  (args.reviewSha.map fun sha => "Ревью-SHA: ".toList ++ sha).toList ++
  (args.reason.map fun reason => "Причина: ".toList ++ sanitizeReason reason).toList

theorem integrationText_eq (batchId : List Char) (args : IntegrationArgs) :
    integrationText batchId args = document (integrationLines batchId args) := by
  have h1 : "\n\nСостояние: ".toList = '\n' :: '\n' :: "Состояние: ".toList := by decide
  have h2 : "\nF-циклов: ".toList = '\n' :: "F-циклов: ".toList := by decide
  unfold integrationText document integrationLines
  rw [h1, h2]
  cases args.reviewSha <;> cases args.reason <;>
    simp only [Option.map_some, Option.map_none, Option.toList_some, Option.toList_none,
      List.map_cons, List.map_nil, List.flatten_cons, List.flatten_nil, List.append_assoc,
      List.cons_append, List.nil_append, List.append_nil]

theorem sanitized_no_return (reason : List Char) : '\r' ∉ sanitizeReason reason := by
  have hall : ∀ ch ∈ [' '].intercalate (splitWhitespace reason), ch ≠ '\r' := by
    refine forall_joined (by decide) fun token htoken ch hch => ?_
    rintro rfl
    exact (noSpace_token htoken).notMem (by decide) hch
  intro hmem
  exact hall _ (List.mem_of_mem_take hmem) rfl

theorem integrationLines_lines (hid : IsToken batchId) (hsha : ∀ sha ∈ args.reviewSha, IsLine sha) :
    ∀ line ∈ integrationLines batchId args, IsLine line := by
  intro line hmem
  simp only [integrationLines, List.mem_append, List.mem_cons, List.not_mem_nil, or_false,
    Option.mem_toList, Option.map_eq_some_iff] at hmem
  rcases hmem with ((rfl | rfl | rfl | rfl) | ⟨sha, hmem, rfl⟩) | ⟨reason, -, rfl⟩
  · exact (isLine_of_noSpace hid.space).behind (by decide) (by decide)
  · exact ⟨by decide, by decide⟩
  · cases args.state <;> exact ⟨by decide, by decide⟩
  · exact isLine_digits (by decide) (by decide) _
  · exact (hsha sha hmem).behind (by decide) (by decide)
  · refine IsLine.behind (by decide) (by decide) ⟨sanitizeReason_line reason, fun hlast => ?_⟩
    exact sanitized_no_return reason (List.mem_of_getLast? hlast)

theorem integration_cycles (hid : IsToken batchId) (hsha : ∀ sha ∈ args.reviewSha, IsLine sha) :
    lineField (integrationText batchId args) "F-циклов:" =
      some (Nat.toDigits 10 args.fCycles.1) := by
  have h1 : (stripFront "F-циклов:".toList
      (trim ("# Integration state — Batch ".toList ++ batchId))).map trim = none :=
    field_other (by decide) (by decide) _
  have h2 : (stripFront "F-циклов:".toList (trim [])).map trim = none := rfl
  have h3 : (stripFront "F-циклов:".toList
      (trim ("Состояние: ".toList ++ args.state.literal.toList))).map trim = none :=
    field_other (by decide) (by decide) _
  have h4 : (stripFront "F-циклов:".toList
      (trim ("F-циклов: ".toList ++ Nat.toDigits 10 args.fCycles.1))).map trim =
      some (Nat.toDigits 10 args.fCycles.1) := by
    rw [show "F-циклов: ".toList = "F-циклов:".toList ++ [' '] by decide, List.append_assoc,
      List.singleton_append, field_here (by decide) (by decide), trim_digits]
  rw [integrationText_eq, lineField_document (integrationLines_lines hid hsha)]
  unfold integrationLines
  simp only [List.cons_append, List.findSome?_cons, h1, h2, h3, h4]

theorem integration_sha (hid : IsToken batchId) (hsha : ∀ sha ∈ args.reviewSha, IsLine sha) :
    lineField (integrationText batchId args) "Ревью-SHA:" = args.reviewSha.map trim := by
  have h1 : (stripFront "Ревью-SHA:".toList
      (trim ("# Integration state — Batch ".toList ++ batchId))).map trim = none :=
    field_other (by decide) (by decide) _
  have h2 : (stripFront "Ревью-SHA:".toList (trim [])).map trim = none := rfl
  have h3 : (stripFront "Ревью-SHA:".toList
      (trim ("Состояние: ".toList ++ args.state.literal.toList))).map trim = none :=
    field_other (by decide) (by decide) _
  have h4 : (stripFront "Ревью-SHA:".toList
      (trim ("F-циклов: ".toList ++ Nat.toDigits 10 args.fCycles.1))).map trim = none :=
    field_other (by decide) (by decide) _
  have h5 : ∀ sha, (stripFront "Ревью-SHA:".toList (trim ("Ревью-SHA: ".toList ++ sha))).map trim =
      some (trim sha) := by
    intro sha
    rw [show "Ревью-SHA: ".toList = "Ревью-SHA:".toList ++ [' '] by decide, List.append_assoc,
      List.singleton_append, field_here (by decide) (by decide)]
  have h6 : ∀ reason, (stripFront "Ревью-SHA:".toList
      (trim ("Причина: ".toList ++ sanitizeReason reason))).map trim = none :=
    fun reason => field_other (by decide) (by decide) _
  rw [integrationText_eq, lineField_document (integrationLines_lines hid hsha)]
  unfold integrationLines
  cases args.reviewSha <;> cases args.reason <;>
    simp only [List.cons_append, List.nil_append, List.append_nil, List.findSome?_cons, h1, h2, h3,
      h4, h5, h6, Option.map_some, Option.map_none, Option.toList_some, Option.toList_none,
      List.findSome?_nil]

end Integration

/-! ## Round trips -/

section RoundTrips

variable {batchId base : List Char} {l : Ledger}

/-- A task line is read as it was captured. -/
structure BatchTask.Shows (task : BatchTask) (row : Row) : Prop where
  id : task.id = row.id
  level : task.level = some row.level
  branch : task.branch = some row.branch
  domain : task.domain.map (Text.pieces (· == ',')) = some row.domain
  wave : task.wave = some row.wave.1

structure BatchState.Shows (batch : BatchState) (batchId base : List Char) (rows : List Row) :
    Prop where
  branch : batch.integrationBranch = some ("integration/".toList ++ batchId)
  batchId : batch.batchId = some batchId
  base : batch.base = some base
  tasks : List.Forall₂ BatchTask.Shows batch.tasks rows

structure CohortState.Shows (cohort : CohortState) (batchId : List Char) (args : CohortArgs) :
    Prop where
  batchId : cohort.batchId = some batchId
  admission : cohort.admission = CohortAdmission.fromMarkdown args.admission
  literal : cohort.admissionLiteral = some args.literal
  reason : cohort.admissionReason = args.shown
  wave : cohort.wave = some args.wave.1
  total : cohort.admittedTotal = some args.admittedTotal.1

structure IntegrationSnapshot.Shows (snapshot : IntegrationSnapshot) (args : IntegrationArgs) :
    Prop where
  reviewSha : snapshot.reviewSha = args.reviewSha
  fCycles : snapshot.fCycles = some args.fCycles.1

/-- The calls whose effect is in the files. -/
def Ledger.Stands (l : Ledger) : Call → Prop
  | .appendBatchTask row => row ∈ l.rows
  | .writeCohort args => l.cohort = some args
  | .writeIntegration args => l.integration = some args

/-- The files are read as they were written, and no call has to be refused. -/
structure RoundTrips (batchId base : List Char) (l : Ledger) : Prop where
  batch : ∃ text ∈ l.files.batch, (parseBatch text).Shows batchId base l.rows
  cohort : ∀ args ∈ l.cohort, ∃ text ∈ l.files.cohort, (parseCohort text).Shows batchId args
  integration : ∀ args ∈ l.integration,
    ∃ text ∈ l.files.integration, (parseIntegration text).Shows args
  again : ∀ c, l.Stands c → call batchId l.files c = .ok l.files
  reopened : openBatch l.files batchId base = .ok l.files
  removed : removeCohortArtifacts l.files batchId = .ok {}

/-- Nothing that was written needs an escape. -/
structure Plain (batchId base : List Char) (l : Ledger) : Prop where
  batchId : IsToken batchId
  base : trim base = base
  rows : ∀ row ∈ l.rows, row.Plain
  cohort : ∀ args ∈ l.cohort, args.Plain
  integration : ∀ args ∈ l.integration, ∀ sha ∈ args.reviewSha, trim sha = sha

/-- What is read back needed no escape: the readers return nothing else. -/
theorem RoundTrips.plain (h : RoundTrips batchId base l) : Plain batchId base l := by
  obtain ⟨text, -, hbatch⟩ := h.batch
  obtain ⟨hspace, hstamp⟩ := batchId_shape hbatch.batchId
  refine ⟨⟨hspace, hstamp⟩, (lineField_shape hbatch.base).1, fun row hrow => ?_,
    fun args hargs => ?_, fun args hargs sha hsha => ?_⟩
  · obtain ⟨i, hi, rfl⟩ := List.mem_iff_getElem.1 hrow
    have hlen := hbatch.tasks.length_eq
    have hshows := (List.forall₂_iff_get.1 hbatch.tasks).2 i (hlen ▸ hi) hi
    obtain ⟨line, -, hline⟩ := List.mem_filterMap.1
      (List.getElem_mem (l := (parseBatch text).tasks) (hlen ▸ hi))
    obtain ⟨hlevel, hbranch, hdomain⟩ := taskLine_shape hline
    refine ⟨hlevel _ hshows.level, hbranch _ hshows.branch, fun glob hglob => ?_⟩
    obtain ⟨joined, hjoined, hpieces⟩ := Option.map_eq_some_iff.1 hshows.domain
    have hmem : glob ∈ Text.pieces (· == ',') joined := hpieces ▸ hglob
    exact fun ch hch => hdomain joined hjoined ch (pieces_subset hmem hch)
  · obtain ⟨text, -, hcohort⟩ := h.cohort args hargs
    obtain ⟨htrim, hline⟩ := lineField_shape hcohort.literal
    have hreason : suffixField args.literal reasonKey = args.shown := by
      have hread : (parseCohort text).admissionReason =
          (parseCohort text).admissionLiteral.bind (suffixField · reasonKey) := rfl
      rw [hcohort.literal, hcohort.reason, Option.bind_some] at hread
      exact hread.symm
    refine ⟨htrim, hline, fun value hvalue => suffixField_shape (hreason.trans hvalue),
      fun value hvalue => ?_⟩
    rw [← hreason]
    cases hshown : args.shown with
    | none => rw [literal_none hshown, hvalue]
    | some shown => rw [literal_some hshown, suffixField_next, hvalue, Option.some_or]
  · obtain ⟨text, -, hintegration⟩ := h.integration args hargs
    exact (lineField_shape (hintegration.reviewSha.trans hsha)).1

theorem single_line {value : List Char} {name : String}
    (h : QueueEntry.validateRef value name = .ok ()) : IsLine value := by
  obtain ⟨-, -, -, hcr, hlf⟩ := demand_eq_ok.1 h
  exact ⟨hlf, fun hlast => hcr (List.mem_of_getLast? hlast)⟩

/-- The globs of a conflict domain have no comma. -/
theorem parseConflictDomain_globs {value : String} {globs : List (List Char)}
    (h : parseConflictDomain value = some globs) : globs ≠ [] ∧ ∀ glob ∈ globs, ',' ∉ glob := by
  unfold parseConflictDomain at h
  dsimp only at h
  split at h
  · rename_i hchecks
    obtain rfl := Option.some.inj h
    refine ⟨hchecks.1, fun glob hglob hmem => ?_⟩
    obtain ⟨piece, hpiece, rfl⟩ := List.mem_map.1 (List.mem_filter.1 hglob).1
    have := piece_not_sep hpiece ',' ((trim_within piece).subset hmem)
    simp at this
  · cases h

theorem shows_task {row : Row} (h : row.Valid) : row.task.Shows row := by
  obtain ⟨value, hvalue⟩ := h.domain
  obtain ⟨hne, hcomma⟩ := parseConflictDomain_globs hvalue
  exact ⟨rfl, rfl, rfl, congrArg some (pieces_joined hne hcomma), rfl⟩

section Back

variable (h : Kept batchId base l) (hp : Plain batchId base l) (hbase : IsLine base)

include h hp hbase

theorem Kept.writable : Writable batchId base l.rows :=
  ⟨hp.batchId, hbase, fun row hrow => (h.valid row hrow).id, hp.rows⟩

theorem Kept.shows :
    (parseBatch (batchText batchId base l.rows)).Shows batchId base l.rows := by
  have hw := h.writable hp hbase
  refine ⟨hw.branch, hw.found, hw.batchBase.trans (congrArg some hp.base), ?_⟩
  rw [hw.tasks, List.forall₂_map_left_iff, List.forall₂_same]
  exact fun row hrow => shows_task (h.valid row hrow)

/-- A captured task is captured once more. -/
theorem Kept.appendAgain {row : Row} (hrow : row ∈ l.rows) :
    appendBatchTask l.files row = .ok l.files := by
  have hw := h.writable hp hbase
  have hvalid := h.valid row hrow
  obtain ⟨hbatch, hsize⟩ := h.batch hp.rows
  obtain ⟨value, hvalue⟩ := hvalid.domain
  have hone : l.rows.filter (fun r => r.id = row.id) = [row] := by
    have hsame : (l.rows.filter fun r => r.id = row.id) = l.rows.filter (· = row) := by
      refine List.filter_congr fun r hr => ?_
      have hinj := List.inj_on_of_nodup_map h.ids hr hrow
      exact decide_eq_decide.2 ⟨hinj, fun heq => heq ▸ rfl⟩
    have hcount := List.count_eq_one_of_mem h.ids.of_map hrow
    rw [hsame, List.filter_eq, hcount]
    rfl
  have hfound : (textLines (batchText batchId base l.rows)).filter (fun line =>
      (rowHead row.id).isPrefixOf (line.dropWhile isWhiteSpace)) = [row.text] := by
    rw [show (fun line : List Char => (rowHead row.id).isPrefixOf (line.dropWhile isWhiteSpace)) =
      isRowOf row.id from rfl, hw.recorded hvalid.id, hone]
    rfl
  have hid : ControlPlane.validateTaskId row.id = .ok () := demand_true hvalid.id
  unfold appendBatchTask
  rw [hid, hvalid.branch, demand_true ⟨hvalid.level, (parseConflictDomain_globs hvalue).1⟩, hbatch,
    readRequired_some hsize]
  dsimp only [bind, Except.bind]
  rw [hfound]
  dsimp only
  rw [demand_true (by rw [List.map_singleton, Row.trim_text])]
  rfl

theorem Kept.reopened (hvid : QueueEntry.validateBatchId batchId = .ok ())
    (hvbase : QueueEntry.validateRef base "base" = .ok ()) :
    openBatch l.files batchId base = .ok l.files := by
  have hshows := h.shows hp hbase
  obtain ⟨hbatch, hsize⟩ := h.batch hp.rows
  have hsection : (afterFirst "## Задачи".toList (batchText batchId base l.rows)).isSome := by
    cases hnone : afterFirst "## Задачи".toList (batchText batchId base l.rows) with
    | some _ => rfl
    | none =>
      have htext : batchText batchId base l.rows = document (headLines batchId base).dropLast ++
          ("## Задачи".toList ++ '\n' :: document (l.rows.map Row.text)) := by
        unfold batchText document headLines
        simp
      rw [htext] at hnone
      have hhere := afterFirst_behind _ hnone
      rw [afterFirst_here (by decide)] at hhere
      cases hhere
  unfold openBatch
  rw [hvid, hvbase, hbatch, readOptionalText_some hsize]
  show (demand ((parseBatch (batchText batchId base l.rows)).batchId = some batchId ∧ _) _ >>=
    _) = _
  rw [demand_true ⟨hshows.batchId, hshows.base⟩]
  show (demand (afterFirst "## Задачи".toList (batchText batchId base l.rows)).isSome _ >>= _) = _
  rw [demand_true hsection]
  rfl

theorem Kept.removed (hvid : QueueEntry.validateBatchId batchId = .ok ()) :
    removeCohortArtifacts l.files batchId = .ok {} := by
  obtain ⟨hbatch, hsize⟩ := h.batch hp.rows
  unfold removeCohortArtifacts
  rw [hvid, hbatch, readOptionalText_some hsize]
  show (demand ((parseBatch (batchText batchId base l.rows)).batchId = some batchId) _ >>= _) = _
  rw [demand_true (h.shows hp hbase).batchId]
  rfl

end Back

theorem cohort_shows {args : CohortArgs} (hid : IsToken batchId) (h : args.Plain) :
    (parseCohort (cohortText batchId args)).Shows batchId args := by
  have hliteral := cohort_literal hid h
  have hwave := cohort_wave hid h
  have htotal := cohort_total hid h
  have hfound := @cohort_batchId batchId args hid
  generalize cohortText batchId args = text at hliteral hwave htotal hfound
  refine ⟨hfound, ?_, hliteral, ?_, ?_, ?_⟩
  · show (lineField text "Приём:").bind CohortAdmission.fromMarkdown = _
    rw [hliteral, Option.bind_some]
    unfold CohortAdmission.fromMarkdown
    rw [baseWord_literal]
  · show (lineField text "Приём:").bind (suffixField · reasonKey) = _
    rw [hliteral, Option.bind_some, cohort_reason h]
  · show (lineField text "Волна:").bind parseU32 = _
    rw [hwave, Option.bind_some, parseU32_toDigits args.wave.2]
  · show (lineField text "Admitted всего:").bind parseU32 = _
    rw [htotal, Option.bind_some, parseU32_toDigits args.admittedTotal.2]

theorem integration_shows {args : IntegrationArgs} (hid : IsToken batchId)
    (hsha : ∀ sha ∈ args.reviewSha, IsLine sha) (htrim : ∀ sha ∈ args.reviewSha, trim sha = sha) :
    (parseIntegration (integrationText batchId args)).Shows args := by
  have hreview := integration_sha hid hsha
  have hcycles := integration_cycles hid hsha
  generalize integrationText batchId args = text at hreview hcycles
  refine ⟨hreview.trans ?_, ?_⟩
  · cases hsome : args.reviewSha with
    | none => rfl
    | some sha => exact congrArg some (htrim sha hsome)
  · show (lineField text "F-циклов:").bind parseU32 = _
    rw [hcycles, Option.bind_some, parseU32_toDigits args.fCycles.2]

/-- The run of a cohort from its new manifest on. -/
theorem kept_of_reach {files opened : CohortFiles} (hid : IsToken batchId) (hbase : IsLine base)
    (hnew : files.batch = none) (hopen : openBatch files batchId base = .ok opened)
    (h : Steps.Reach (Ledger.next batchId) (fun _ c => Parsed c) { files := opened } l) :
    Kept batchId base l := by
  obtain ⟨-, -, hsize, rfl⟩ := openBatch_new hnew hopen
  refine h.invariant ?_ fun m c n hm hc hn => hm.step hid hbase hc hn
  refine ⟨List.nodup_nil, ?_, fun _ => ⟨rfl, hsize⟩, ?_, ?_⟩
  · intro row hrow
    cases hrow
  · intro args hargs
    cases hargs
  · intro args hargs
    cases hargs

/-- **The manifests of a cohort are read back exactly when nothing in them needs an escape.** -/
theorem round_trips {files opened : CohortFiles} (hnew : files.batch = none)
    (hopen : openBatch files batchId base = .ok opened)
    (h : Steps.Reach (Ledger.next batchId) (fun _ c => Parsed c) { files := opened } l) :
    RoundTrips batchId base l ↔ Plain batchId base l := by
  obtain ⟨hvid, hvbase, -, -⟩ := openBatch_new hnew hopen
  have hbase : IsLine base := single_line hvbase
  refine ⟨RoundTrips.plain, fun hp => ?_⟩
  have hkept := kept_of_reach hp.batchId hbase hnew hopen h
  refine ⟨⟨_, (hkept.batch hp.rows).1, hkept.shows hp hbase⟩, fun args hargs => ?_,
    fun args hargs => ?_, fun c hc => ?_, hkept.reopened hp hbase hvid hvbase,
    hkept.removed hp hbase hvid⟩
  · exact ⟨_, (hkept.cohort args hargs).1, cohort_shows hp.batchId (hp.cohort args hargs)⟩
  · obtain ⟨hfile, -, hvalid⟩ := hkept.integration args hargs
    exact ⟨_, hfile, integration_shows hp.batchId (fun sha hmem => single_line (hvalid sha hmem))
      (hp.integration args hargs)⟩
  · cases c with
    | appendBatchTask row => exact hkept.appendAgain hp hbase hc
    | writeCohort args =>
      obtain ⟨hfile, hsize⟩ := hkept.cohort args hc
      show writeCohort l.files batchId args = .ok l.files
      unfold writeCohort
      rw [hvid, written_eq hsize, ← hfile]
      rfl
    | writeIntegration args =>
      obtain ⟨hfile, hsize, hvalid⟩ := hkept.integration args hc
      show writeIntegration l.files batchId args = .ok l.files
      unfold writeIntegration
      rw [hvid, written_eq hsize, ← hfile]
      cases hsha : args.reviewSha with
      | none => rfl
      | some sha =>
        show (QueueEntry.validateRef sha "integration review SHA" >>= _) = _
        rw [hvalid sha hsha]
        rfl

end RoundTrips

/-! ### Two cohorts -/

namespace Sample

def row : Row where
  id := "T-7"
  level := "S".toList
  branch := "task/T-7".toList
  domain := ["src/**".toList, "docs".toList]
  wave := ⟨1, by decide⟩

def cohort : CohortArgs where
  admission := "закрыт".toList
  reason := some "очередь  пуста".toList
  wave := ⟨1, by decide⟩
  admittedTotal := ⟨1, by decide⟩

def integration : IntegrationArgs where
  state := .published
  reviewSha := some "3f2a".toList
  fCycles := ⟨2, by decide⟩
  reason := none

/-- The ledger after the calls. -/
def ledger : Ledger where
  files := {
    batch := some (batchText "B-1".toList "main".toList [row])
    cohort := some (cohortText "B-1".toList cohort)
    integration := some (integrationText "B-1".toList integration) }
  rows := [row]
  cohort := some cohort
  integration := some integration

/-- A batch id without a digit behind its front. -/
def opened : CohortFiles := { batch := some (batchHeading "B-x".toList "main".toList) }

end Sample

theorem round_trips_closed : RoundTrips "B-1".toList "main".toList Sample.ledger := by
  let new : CohortFiles := { batch := some (batchHeading "B-1".toList "main".toList) }
  let appended : Ledger := {
    files := { batch := some (batchText "B-1".toList "main".toList [Sample.row]) }
    rows := [Sample.row] }
  let waiting : Ledger := { Sample.ledger with
    files := { Sample.ledger.files with integration := none }
    integration := none }
  have hopen : openBatch {} "B-1".toList "main".toList = .ok new := by rfl
  have happend : Ledger.next "B-1".toList { files := new } (.appendBatchTask Sample.row) =
      some appended := by decide +kernel
  have hcohort : Ledger.next "B-1".toList appended (.writeCohort Sample.cohort) =
      some waiting := by decide +kernel
  have hintegration : Ledger.next "B-1".toList waiting (.writeIntegration Sample.integration) =
      some Sample.ledger := by decide +kernel
  have hparse : parseConflictDomain "src/**, docs" = some Sample.row.domain := by decide +kernel
  have hdomain : Parsed (.appendBatchTask Sample.row) := ⟨_, hparse⟩
  have hwrite : ∀ args, Parsed (.writeCohort args) := fun _ => trivial
  have hjoin : ∀ args, Parsed (.writeIntegration args) := fun _ => trivial
  have hfirst : Steps.Reach (Ledger.next "B-1".toList) (fun _ c => Parsed c) { files := new }
      appended := .step .refl hdomain happend
  have hreach := (hfirst.step (hwrite Sample.cohort) hcohort).step (hjoin Sample.integration)
    hintegration
  refine (round_trips rfl hopen hreach).2 ?_
  refine ⟨⟨by decide, by decide⟩, by decide, ?_, ?_, ?_⟩
  · intro row hrow
    obtain rfl := List.mem_singleton.1 hrow
    exact ⟨by decide, by decide, by decide⟩
  · intro args hargs
    obtain rfl := Option.some.inj hargs
    have hshown : Sample.cohort.shown = some "очередь пуста".toList := by decide +kernel
    have hother : suffixField Sample.cohort.admission reasonKey = none := by decide +kernel
    refine ⟨by decide +kernel, by decide +kernel, fun value hvalue => ?_, fun value hvalue => ?_⟩
    · obtain rfl := Option.some.inj (hshown.symm.trans hvalue)
      exact ⟨by decide, by decide⟩
    · rw [hother] at hvalue
      cases hvalue
  · intro args hargs sha hsha
    obtain rfl := Option.some.inj hargs
    obtain rfl := Option.some.inj hsha
    decide

theorem round_trips_unstamped : openBatch {} "B-x".toList "main".toList = .ok Sample.opened ∧
    (openBatch Sample.opened "B-x".toList "main".toList).isOk = false ∧
    (removeCohortArtifacts Sample.opened "B-x".toList).isOk = false ∧
    ¬ RoundTrips "B-x".toList "main".toList { files := Sample.opened } := by
  refine ⟨by rfl, by decide +kernel, by decide +kernel, fun h => ?_⟩
  have hstamp := h.plain.batchId.stamp
  revert hstamp
  decide

end Orchestrail.Manifest
