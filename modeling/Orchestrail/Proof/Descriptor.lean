import Orchestrail.Spec.Descriptor
import Orchestrail.Proof.Manifest

/-!
# Fields that are set line by line

`set_line_field` and `line_field` on the lines of a text. The writer looks for a line that starts
with the key, the reader for one whose trimmed form does. Over both: what a run of writes does to
each field and to the others (`lineField_writeAll_self`, `lineField_writeAll_other`), and when the
same run leaves the text it made (`writeAll_again`, `writeAll_lines`).
-/

namespace Orchestrail.Descriptor

open Text Outcome Manifest

/-! ## Lines -/

/-- A line without one carriage return at its end. -/
def stripReturn (line : List Char) : List Char :=
  if line.getLast? = some '\r' then line.dropLast else line

/-- The lines with the field set. -/
def setLines (key line : List Char) (lines : List (List Char)) : List (List Char) :=
  let starts : List Char → Bool := fun l => key.isPrefixOf l
  if lines.any starts then
    lines.takeWhile (fun l => !starts l) ++ line :: (lines.dropWhile fun l => !starts l).tail
  else if lines.getLast?.any (fun l => !l.isEmpty) then lines ++ [[], line]
  else lines ++ [line]

/-- The value of a key in some lines. -/
def valueOf (key : List Char) (lines : List (List Char)) : Option (List Char) :=
  lines.findSome? fun line => (stripFront key (trim line)).map trim

theorem lineField_eq (text : List Char) (key : String) :
    lineField text key = valueOf key.toList (textLines text) := rfl

theorem document_eq {lines : List (List Char)} (h : lines ≠ []) :
    (lines.intersperse ['\n']).flatten ++ ['\n'] = document lines := by
  induction lines with
  | nil => exact absurd rfl h
  | cons line lines ih =>
    cases lines with
    | nil => simp [document]
    | cons next lines =>
      have hrest := ih (List.cons_ne_nil _ _)
      have hcons : document (line :: next :: lines) =
          line ++ ['\n'] ++ document (next :: lines) := by
        simp [document]
      rw [hcons, ← hrest, List.intersperse_cons_cons]
      simp

theorem setLines_ne_nil {key line : List Char} (lines : List (List Char)) :
    setLines key line lines ≠ [] := by
  unfold setLines
  dsimp only
  split
  · simp
  · split <;> simp

theorem setLineField_eq (text : List Char) (field value : String) :
    setLineField text field value =
      document (setLines field.toList (field ++ " " ++ value).toList (textLines text)) :=
  document_eq (setLines_ne_nil _)

theorem stripLineEnding_newline (line : List Char) :
    stripLineEnding (line ++ ['\n']) = stripReturn line := by
  unfold stripLineEnding stripReturn
  rw [List.reverse_append, List.reverse_singleton, List.singleton_append]
  split
  case h_1 rest heq =>
    obtain ⟨-, hrest⟩ := List.cons.inj heq
    have hline : line = rest.reverse ++ ['\r'] := by
      rw [← List.reverse_reverse line, hrest, List.reverse_cons]
    rw [hline, List.getLast?_concat, if_pos rfl, List.dropLast_concat]
  case h_2 rest hno heq =>
    obtain ⟨-, hrest⟩ := List.cons.inj heq
    rw [if_neg, ← hrest, List.reverse_reverse]
    intro hlast
    obtain ⟨front, hfront⟩ := List.getLast?_eq_some_iff.1 hlast
    refine hno front.reverse ?_
    rw [← hrest, hfront]
    simp
  case h_3 _ hno => exact absurd rfl (hno _)

/-- The lines of what was written, as they are read again. -/
theorem textLines_documented {lines : List (List Char)} (h : ∀ line ∈ lines, '\n' ∉ line) :
    textLines (document lines) = lines.map stripReturn := by
  have hcut : Outline.Cut (lines.map (· ++ ['\n'])) := by
    intro b l r heq
    have hmem : l ∈ lines.map (· ++ ['\n']) := by
      rw [heq]
      simp
    obtain ⟨line, hline, rfl⟩ := List.mem_map.1 hmem
    exact ⟨by simp, by simpa using h line hline, fun _ => by simp⟩
  unfold textLines document
  rw [Outline.inclusive_of_cut hcut, List.map_map]
  exact List.map_congr_left fun line _ => stripLineEnding_newline line

theorem trim_stripReturn (line : List Char) : trim (stripReturn line) = trim line := by
  unfold stripReturn
  split
  · rename_i hlast
    obtain ⟨front, rfl⟩ := List.getLast?_eq_some_iff.1 hlast
    rw [List.dropLast_concat, trim_tail QueueEntry.return_only]
  · rfl

theorem valueOf_stripReturn (key : List Char) (lines : List (List Char)) :
    valueOf key (lines.map stripReturn) = valueOf key lines := by
  unfold valueOf
  rw [List.findSome?_map]
  congr 1
  funext line
  rw [Function.comp, trim_stripReturn]

/-! ## One field -/

/-- A name with a colon at its end, trimmed and on one line. -/
structure IsKey (key : List Char) : Prop where
  name : ∃ name, key = name ++ [':'] ∧ ':' ∉ name
  trimmed : trim key = key
  newline : '\n' ∉ key
  carriage : '\r' ∉ key

theorem IsKey.ne_nil {key : List Char} (h : IsKey key) : key ≠ [] := by
  obtain ⟨name, rfl, -⟩ := h.name
  simp

theorem IsKey.eq_of_start {a b rest : List Char} (ha : IsKey a) (hb : IsKey b)
    (h : a <+: b ++ rest) : a = b := by
  obtain ⟨m, rfl, hm⟩ := ha.name
  obtain ⟨n, rfl, hn⟩ := hb.name
  obtain ⟨behind, heq⟩ := h
  have hname : ∀ {name : List Char} (x : List Char), ':' ∉ name →
      (name ++ [':'] ++ x).takeWhile (fun ch => ch != ':') = name := by
    intro name x hname
    have hall : ∀ ch ∈ name, (ch != ':') = true := by
      intro ch hch
      rw [bne_iff_ne]
      rintro rfl
      exact hname hch
    rw [List.append_assoc, List.takeWhile_append_of_pos hall]
    simp
  have hsame := congrArg (List.takeWhile fun ch => ch != ':') heq
  rw [hname _ hm, hname _ hn] at hsame
  rw [hsame]

/-- A line whose trimmed text starts with the key. -/
def Holds (key line : List Char) : Prop := key <+: trim line

instance (key line : List Char) : Decidable (Holds key line) :=
  inferInstanceAs (Decidable (key <+: trim line))

theorem trim_key {key : List Char} (hkey : IsKey key) (value : List Char) :
    ∃ behind, trim (key ++ value) = key ++ behind ∧ trim behind = trim value := by
  obtain ⟨a, b, hvalue, ha, hb⟩ := trim_parts value
  by_cases hnil : trim value = []
  · refine ⟨[], ?_, hnil.symm⟩
    rw [trim_tail (trim_eq_nil.1 hnil), hkey.trimmed, List.append_nil]
  · refine ⟨a ++ trim value, ?_, by rw [trim_lead ha, trim_trim]⟩
    have hfront := trim_front key
    have hback := trim_back value
    rw [hkey.trimmed] at hfront
    conv_lhs => rw [hvalue, ← List.append_assoc, trim_tail hb, ← List.append_assoc]
    rw [trim_join hfront hkey.ne_nil hback hnil, List.append_assoc]

theorem holds_of_start {key line : List Char} (hkey : IsKey key) (h : key <+: line) :
    Holds key line := by
  obtain ⟨value, rfl⟩ := h
  obtain ⟨behind, htrim, -⟩ := trim_key hkey value
  exact ⟨behind, htrim.symm⟩

theorem not_holds_nil {key : List Char} (hkey : IsKey key) : ¬ Holds key [] := by
  intro h
  exact hkey.ne_nil (List.prefix_nil.1 h)

theorem not_holds_of_holds {a b line : List Char} (ha : IsKey a) (hb : IsKey b) (hne : a ≠ b)
    (h : Holds b line) : ¬ Holds a line := by
  intro hline
  obtain ⟨rest, hrest⟩ := h
  have hprefix : a <+: b ++ rest := hrest ▸ hline
  exact hne (ha.eq_of_start hb hprefix)

theorem holds_stripReturn (key line : List Char) :
    Holds key (stripReturn line) ↔ Holds key line := by
  unfold Holds
  rw [trim_stripReturn]

/-- The value behind the key of a line. -/
def valueIn (key line : List Char) : List Char := trim ((trim line).drop key.length)

theorem valueOf_find (key : List Char) (lines : List (List Char)) :
    valueOf key lines = (lines.find? fun line => Holds key line).map (valueIn key) := by
  induction lines with
  | nil => rfl
  | cons line lines ih =>
    unfold valueOf at ih ⊢
    rw [List.findSome?_cons, List.find?_cons]
    by_cases h : Holds key line
    · obtain ⟨rest, hrest⟩ := id h
      have hvalue : valueIn key line = trim rest := by
        unfold valueIn
        rw [← hrest, List.drop_left]
      rw [stripFront_iff.2 hrest.symm, decide_eq_true h, Option.map_some, Option.map_some, hvalue]
    · rw [stripFront_none h, decide_eq_false h, Option.map_none, ih]

/-- The line that is written for a value. -/
def fieldLine (key value : List Char) : List Char := key ++ ' ' :: value

theorem starts_fieldLine (key value : List Char) : key <+: fieldLine key value :=
  List.prefix_append _ _

theorem valueIn_fieldLine {key : List Char} (hkey : IsKey key) (value : List Char) :
    valueIn key (fieldLine key value) = trim value := by
  obtain ⟨behind, htrim, hbehind⟩ := trim_key hkey (' ' :: value)
  unfold valueIn fieldLine
  rw [htrim, List.drop_left, hbehind]
  exact trim_lead (a := [' ']) (by simp [isWhiteSpace])

/-! ## The lines of one field -/

theorem setLines_found {key old : List Char} {front back : List (List Char)} (line : List Char)
    (hfront : ∀ l ∈ front, ¬ key <+: l) (hold : key <+: old) :
    setLines key line (front ++ old :: back) = front ++ line :: back := by
  have hno : ∀ l ∈ front, (!key.isPrefixOf l) = true := by
    intro l hl
    rw [Bool.not_eq_true', Bool.eq_false_iff, ne_eq, List.isPrefixOf_iff_prefix]
    exact hfront l hl
  have hyes : key.isPrefixOf old = true := List.isPrefixOf_iff_prefix.2 hold
  have htake : (front ++ old :: back).takeWhile (fun l => !key.isPrefixOf l) = front := by
    rw [List.takeWhile_append_of_pos hno, List.takeWhile_cons, hyes]
    simp
  have hdrop : (front ++ old :: back).dropWhile (fun l => !key.isPrefixOf l) = old :: back := by
    rw [List.dropWhile_append_of_pos hno, List.dropWhile_cons, hyes]
    simp
  unfold setLines
  dsimp only
  rw [if_pos (by simp [hyes]), htake, hdrop, List.tail_cons]

theorem setLines_missing {key : List Char} {lines : List (List Char)} (line : List Char)
    (hno : ∀ l ∈ lines, ¬ key <+: l) :
    ∃ gap, (∀ l ∈ gap, l = []) ∧ setLines key line lines = lines ++ gap ++ [line] := by
  unfold setLines
  dsimp only
  rw [if_neg (by simpa [List.isPrefixOf_iff_prefix] using hno)]
  split
  · exact ⟨[[]], by simp, by simp⟩
  · exact ⟨[], by simp, by simp⟩

/-- The writer replaces the first line that starts with the key, or adds one. -/
theorem setLines_cases (key line : List Char) (lines : List (List Char)) :
    (∃ front old back, lines = front ++ old :: back ∧ (∀ l ∈ front, ¬ key <+: l) ∧ key <+: old ∧
      setLines key line lines = front ++ line :: back) ∨
    ((∀ l ∈ lines, ¬ key <+: l) ∧ ∃ gap, (∀ l ∈ gap, l = []) ∧
      setLines key line lines = lines ++ gap ++ [line]) := by
  cases hfind : lines.find? fun l => key <+: l with
  | some old =>
    obtain ⟨hold, front, back, rfl, hno⟩ := List.find?_eq_some_iff_append.1 hfind
    have hfront : ∀ l ∈ front, ¬ key <+: l := fun l hl => by simpa using hno l hl
    have hstart : key <+: old := of_decide_eq_true hold
    exact .inl ⟨front, old, back, rfl, hfront, hstart, setLines_found line hfront hstart⟩
  | none =>
    have hno : ∀ l ∈ lines, ¬ key <+: l := fun l hl => by
      simpa using List.find?_eq_none.1 hfind l hl
    exact .inr ⟨hno, setLines_missing line hno⟩

theorem mem_setLines {key line l : List Char} {lines : List (List Char)}
    (h : l ∈ setLines key line lines) : l ∈ lines ∨ l = line ∨ l = [] := by
  obtain ⟨front, old, back, rfl, -, -, hset⟩ | ⟨-, gap, hgap, hset⟩ :=
    setLines_cases key line lines
  · rw [hset, List.mem_append, List.mem_cons] at h
    rcases h with h | h | h
    · exact .inl (by simp [h])
    · exact .inr (.inl h)
    · exact .inl (by simp [h])
  · rw [hset, List.mem_append, List.mem_append, List.mem_singleton] at h
    rcases h with (h | h) | h
    · exact .inl h
    · exact .inr (.inr (hgap l h))
    · exact .inr (.inl h)

/-- What does not look at the field is found as before. -/
theorem find_setLines {key : List Char} {p : List Char → Bool}
    (hkey : ∀ l, key <+: l → p l = false) (hnil : p [] = false) (value : List Char)
    (lines : List (List Char)) :
    (setLines key (fieldLine key value) lines).find? p = lines.find? p := by
  have hnew : p (fieldLine key value) = false := hkey _ (starts_fieldLine key value)
  obtain ⟨front, old, back, rfl, -, hold, hset⟩ | ⟨-, gap, hgap, hset⟩ :=
    setLines_cases key (fieldLine key value) lines
  · rw [hset, List.find?_append, List.find?_append, List.find?_cons, List.find?_cons, hkey old hold,
      hnew]
  · have hnone : (gap ++ [fieldLine key value]).find? p = none := by
      rw [List.find?_eq_none]
      intro l hl
      rcases List.mem_append.1 hl with h | h
      · rw [hgap l h, hnil]
        exact Bool.false_ne_true
      · rw [List.mem_singleton.1 h, hnew]
        exact Bool.false_ne_true
    rw [hset, List.append_assoc, List.find?_append, hnone, Option.or_none]

/-- The first line that holds a key starts with it. -/
def Clear (key : List Char) (lines : List (List Char)) : Prop :=
  ∀ line ∈ lines.find? fun line => Holds key line, key <+: line

instance (key : List Char) (lines : List (List Char)) : Decidable (Clear key lines) :=
  inferInstanceAs (Decidable (∀ line ∈ lines.find? fun line => Holds key line, key <+: line))

theorem find_setLines_other {a b : List Char} (ha : IsKey a) (hb : IsKey b) (hne : a ≠ b)
    (value : List Char) (lines : List (List Char)) :
    (setLines b (fieldLine b value) lines).find? (fun l => Holds a l) =
      lines.find? fun l => Holds a l :=
  find_setLines (fun _ hl => decide_eq_false
    (not_holds_of_holds ha hb hne (holds_of_start hb hl)))
    (decide_eq_false (not_holds_nil ha)) value lines

theorem find_setLines_self {key : List Char} (hkey : IsKey key) (value : List Char)
    (lines : List (List Char)) :
    (setLines key (fieldLine key value) lines).find? (fun l => Holds key l) =
      match lines.find? fun l => Holds key l with
      | none => some (fieldLine key value)
      | some line => if key <+: line then some (fieldLine key value) else some line := by
  have hnew : Holds key (fieldLine key value) :=
    holds_of_start hkey (starts_fieldLine key value)
  obtain ⟨front, old, back, rfl, hfront, hold, hset⟩ | ⟨hno, gap, hgap, hset⟩ :=
    setLines_cases key (fieldLine key value) lines
  · have hfind : ∀ line, Holds key line → (front ++ line :: back).find? (fun l => Holds key l) =
        (front.find? fun l => Holds key l).or (some line) := by
      intro line hline
      rw [List.find?_append, List.find?_cons, decide_eq_true hline]
    rw [hset, hfind _ hnew, hfind _ (holds_of_start hkey hold)]
    cases hold' : front.find? fun l => Holds key l with
    | none => exact (if_pos hold).symm
    | some line => exact (if_neg (hfront line (List.mem_of_find?_eq_some hold'))).symm
  · have hgap' : gap.find? (fun l => Holds key l) = none := by
      rw [List.find?_eq_none]
      intro l hl
      rw [hgap l hl]
      simpa using not_holds_nil hkey
    rw [hset, List.append_assoc, List.find?_append, List.find?_append, hgap']
    cases hfind : lines.find? fun l => Holds key l with
    | none => simpa using hnew
    | some line => exact (if_neg (hno line (List.mem_of_find?_eq_some hfind))).symm

theorem valueOf_setLines_other {a b : List Char} (ha : IsKey a) (hb : IsKey b) (hne : a ≠ b)
    (value : List Char) (lines : List (List Char)) :
    valueOf a (setLines b (fieldLine b value) lines) = valueOf a lines := by
  rw [valueOf_find, valueOf_find, find_setLines_other ha hb hne]

theorem clear_setLines_other {a b : List Char} (ha : IsKey a) (hb : IsKey b) (hne : a ≠ b)
    (value : List Char) (lines : List (List Char)) :
    Clear a (setLines b (fieldLine b value) lines) ↔ Clear a lines := by
  unfold Clear
  rw [find_setLines_other ha hb hne]

theorem valueOf_setLines_self {key : List Char} (hkey : IsKey key) (value : List Char)
    (lines : List (List Char)) :
    valueOf key (setLines key (fieldLine key value) lines) =
      if Clear key lines then some (trim value) else valueOf key lines := by
  rw [valueOf_find, valueOf_find, find_setLines_self hkey]
  cases hfind : lines.find? fun l => Holds key l with
  | none =>
    have hclear : Clear key lines := by
      intro line hline
      rw [hfind] at hline
      exact absurd hline (by simp)
    rw [if_pos hclear]
    exact congrArg some (valueIn_fieldLine hkey value)
  | some line =>
    by_cases hline : key <+: line
    · have hclear : Clear key lines := by
        intro line' hline'
        obtain rfl : line = line' := by simpa [hfind] using hline'
        exact hline
      rw [if_pos hclear]
      simpa [hline] using valueIn_fieldLine hkey value
    · have hclear : ¬ Clear key lines := fun h => hline (h line hfind)
      rw [if_neg hclear]
      simp [hline]

theorem starts_stripReturn {key : List Char} (hkey : IsKey key) (line : List Char) :
    key <+: stripReturn line ↔ key <+: line := by
  unfold stripReturn
  split
  · rename_i hlast
    obtain ⟨front, rfl⟩ := List.getLast?_eq_some_iff.1 hlast
    rw [List.dropLast_concat, List.prefix_concat_iff]
    refine ⟨.inr, fun h => h.resolve_left fun heq => hkey.carriage ?_⟩
    rw [heq]
    simp
  · exact Iff.rfl

theorem find_stripReturn (key : List Char) (lines : List (List Char)) :
    (lines.map stripReturn).find? (fun l => Holds key l) =
      (lines.find? fun l => Holds key l).map stripReturn := by
  rw [List.find?_map]
  congr 2
  funext line
  exact decide_eq_decide.2 (holds_stripReturn key line)

theorem clear_stripReturn {key : List Char} (hkey : IsKey key) (lines : List (List Char)) :
    Clear key (lines.map stripReturn) ↔ Clear key lines := by
  unfold Clear
  rw [find_stripReturn]
  cases lines.find? fun l => Holds key l with
  | none => simp
  | some line => simpa using starts_stripReturn hkey line

/-! ## The lines that are written again -/

/-- The first line that starts with the key is the one that is written for the value. -/
def Placed (key value : List Char) (lines : List (List Char)) : Prop :=
  lines.find? (fun l => key <+: l) = some (fieldLine key value)

theorem placed_setLines {key : List Char} (hkey : IsKey key) (value : List Char)
    (lines : List (List Char)) : Placed key value (setLines key (fieldLine key value) lines) := by
  unfold Placed
  rw [List.find?_eq_some_iff_append]
  refine ⟨decide_eq_true (starts_fieldLine key value), ?_⟩
  obtain ⟨front, old, back, rfl, hfront, -, hset⟩ | ⟨hno, gap, hgap, hset⟩ :=
    setLines_cases key (fieldLine key value) lines
  · exact ⟨front, back, hset, fun l hl => by simpa using hfront l hl⟩
  · refine ⟨lines ++ gap, [], hset, fun l hl => ?_⟩
    rcases List.mem_append.1 hl with h | h
    · simpa using hno l h
    · rw [hgap l h]
      simpa using hkey.ne_nil

theorem setLines_placed {key value : List Char} {lines : List (List Char)}
    (h : Placed key value lines) : setLines key (fieldLine key value) lines = lines := by
  obtain ⟨hstart, front, back, rfl, hfront⟩ := List.find?_eq_some_iff_append.1 h
  exact setLines_found _ (fun l hl => by simpa using hfront l hl) (of_decide_eq_true hstart)

theorem placed_other {a b value value' : List Char} (ha : IsKey a) (hb : IsKey b) (hne : a ≠ b)
    {lines : List (List Char)} (h : Placed a value lines) :
    Placed a value (setLines b (fieldLine b value') lines) := by
  unfold Placed at h ⊢
  rw [find_setLines _ _ value', h]
  · intro l hl
    rw [decide_eq_false_iff_not]
    intro hla
    exact not_holds_of_holds ha hb hne (holds_of_start hb hl) (holds_of_start ha hla)
  · simpa using ha.ne_nil

theorem placed_stripReturn {key value : List Char} (hkey : IsKey key)
    (hvalue : stripReturn (fieldLine key value) = fieldLine key value) {lines : List (List Char)}
    (h : Placed key value lines) : Placed key value (lines.map stripReturn) := by
  unfold Placed at h ⊢
  have hsame : ((fun l => decide (key <+: l)) ∘ stripReturn) = fun l => decide (key <+: l) := by
    funext line
    exact decide_eq_decide.2 (starts_stripReturn hkey line)
  rw [List.find?_map, hsame, h, Option.map_some, hvalue]

/-! ## The lines that are left -/

/-- The lines without the one that is replaced for each key. -/
def untouched (keys : List (List Char)) (lines : List (List Char)) : List (List Char) :=
  keys.foldl (fun lines key => lines.eraseP fun l => key <+: l) lines

theorem eraseP_insert {p : List Char → Bool} {line : List Char} (h : p line = false)
    (a b : List (List Char)) :
    ∃ a' b', (a ++ line :: b).eraseP p = a' ++ line :: b' ∧ (a ++ b).eraseP p = a' ++ b' := by
  by_cases ha : ∃ l ∈ a, p l = true
  · obtain ⟨l, hl, hp⟩ := ha
    exact ⟨a.eraseP p, b, List.eraseP_append_left hp _ hl, List.eraseP_append_left hp _ hl⟩
  · have hno : ∀ l ∈ a, ¬ p l = true := fun l hl hp => ha ⟨l, hl, hp⟩
    refine ⟨a, b.eraseP p, ?_, List.eraseP_append_right _ hno⟩
    rw [List.eraseP_append_right _ hno, List.eraseP_cons_of_neg (by simp [h])]

theorem untouched_insert {keys : List (List Char)} {line : List Char}
    (h : ∀ key ∈ keys, ¬ key <+: line) (a b : List (List Char)) :
    ∃ a' b', untouched keys (a ++ line :: b) = a' ++ line :: b' ∧
      untouched keys (a ++ b) = a' ++ b' := by
  induction keys generalizing a b with
  | nil => exact ⟨a, b, rfl, rfl⟩
  | cons key keys ih =>
    obtain ⟨a', b', hline, hrest⟩ :=
      eraseP_insert (p := fun l => key <+: l) (decide_eq_false (h key List.mem_cons_self)) a b
    obtain ⟨a'', b'', hline', hrest'⟩ := ih (fun k hk => h k (List.mem_cons_of_mem _ hk)) a' b'
    refine ⟨a'', b'', ?_, ?_⟩
    · rw [← hline', ← hline]
      rfl
    · rw [← hrest', ← hrest]
      rfl

theorem forall_untouched_insert {keys : List (List Char)} {line : List Char}
    (h : ∀ key ∈ keys, ¬ key <+: line) (a b : List (List Char)) {P : List Char → Prop}
    (hline : P line) : (∀ l ∈ untouched keys (a ++ line :: b), P l) ↔
      ∀ l ∈ untouched keys (a ++ b), P l := by
  obtain ⟨a', b', hwith, hwithout⟩ := untouched_insert h a b
  rw [hwith, hwithout, List.forall_mem_append, List.forall_mem_append, List.forall_mem_cons]
  exact and_congr_right fun _ => and_iff_right hline

/-- Of the lines that a field is set in, those that stay are the same. -/
theorem forall_untouched_setLines {key value : List Char} {keys : List (List Char)}
    (hkeys : ∀ k ∈ keys, IsKey k) (hother : ∀ k ∈ keys, ¬ k <+: fieldLine key value)
    {P : List Char → Prop} (hline : P (fieldLine key value)) (hnil : P [])
    (lines : List (List Char)) :
    (∀ l ∈ untouched keys (setLines key (fieldLine key value) lines), P l) ↔
      ∀ l ∈ untouched (key :: keys) lines, P l := by
  obtain ⟨front, old, back, rfl, hfront, hold, hset⟩ | ⟨hno, gap, hgap, hset⟩ :=
    setLines_cases key (fieldLine key value) lines
  · have herase : (front ++ old :: back).eraseP (fun l => key <+: l) = front ++ back := by
      rw [List.eraseP_append_right _ fun l hl => by simpa using hfront l hl,
        List.eraseP_cons_of_pos (by simpa using hold)]
    have hcons : untouched (key :: keys) (front ++ old :: back) = untouched keys (front ++ back) :=
      congrArg (untouched keys) herase
    rw [hset, hcons]
    exact forall_untouched_insert hother front back hline
  · have herase : lines.eraseP (fun l => key <+: l) = lines :=
      List.eraseP_of_forall_not fun l hl => by simpa using hno l hl
    have hcons : untouched (key :: keys) lines = untouched keys lines :=
      congrArg (untouched keys) herase
    rw [hset, hcons, ← List.append_nil (lines ++ gap ++ [fieldLine key value]),
      List.append_assoc _ _ [], List.singleton_append, forall_untouched_insert hother _ _ hline,
      List.append_nil]
    clear hset
    induction gap with
    | nil => rw [List.append_nil]
    | cons l gap ih =>
      obtain rfl : l = [] := hgap l List.mem_cons_self
      have hempty : ∀ k ∈ keys, ¬ k <+: [] := fun k hk h =>
        (hkeys k hk).ne_nil (List.prefix_nil.1 h)
      rw [forall_untouched_insert hempty _ _ hnil]
      exact ih fun l hl => hgap l (List.mem_cons_of_mem _ hl)

/-! ## Carriage returns -/

/-- The line does not end with that many carriage returns. -/
def Fewer (n : Nat) (line : List Char) : Prop := ¬ List.replicate n '\r' <:+ line

theorem Fewer.mono {n : Nat} (hn : 0 < n) {line : List Char} (h : Fewer 1 line) : Fewer n line := by
  intro hsuffix
  obtain ⟨m, rfl⟩ : ∃ m, n = m + 1 := ⟨n - 1, by omega⟩
  rw [List.replicate_succ'] at hsuffix
  exact h ((List.suffix_append _ _).trans hsuffix)

theorem fewer_stripReturn {n : Nat} (hn : 0 < n) (line : List Char) :
    Fewer n (stripReturn line) ↔ Fewer (n + 1) line := by
  unfold Fewer stripReturn
  refine not_congr ?_
  rw [List.replicate_succ']
  split
  · rename_i hlast
    obtain ⟨front, rfl⟩ := List.getLast?_eq_some_iff.1 hlast
    rw [List.dropLast_concat, List.suffix_append_self_iff]
  · rename_i hlast
    constructor
    · intro h
      refine absurd ?_ hlast
      obtain ⟨m, rfl⟩ : ∃ m, n = m + 1 := ⟨n - 1, by omega⟩
      obtain ⟨front, rfl⟩ := h
      rw [List.replicate_succ', ← List.append_assoc, List.getLast?_concat]
    · rintro ⟨front, rfl⟩
      refine absurd ?_ hlast
      rw [← List.append_assoc, List.getLast?_concat]

theorem stripReturn_eq_self {line : List Char} : stripReturn line = line ↔ Fewer 1 line := by
  unfold stripReturn Fewer
  split
  · rename_i hlast
    obtain ⟨front, rfl⟩ := List.getLast?_eq_some_iff.1 hlast
    simp
  · rename_i hlast
    refine iff_of_true rfl ?_
    rintro ⟨front, rfl⟩
    exact hlast (by simp)

theorem fewer_one {line : List Char} (h : line.getLast? ≠ some '\r') : Fewer 1 line := by
  rw [← stripReturn_eq_self]
  exact if_neg h

theorem map_stripReturn_eq_self {lines : List (List Char)} :
    lines.map stripReturn = lines ↔ ∀ l ∈ lines, Fewer 1 l := by
  simp only [← stripReturn_eq_self]
  induction lines with
  | nil => simp
  | cons line lines ih =>
    rw [List.map_cons, List.cons.injEq, ih, List.forall_mem_cons]

theorem untouched_stripReturn {keys : List (List Char)} (hkeys : ∀ k ∈ keys, IsKey k)
    (lines : List (List Char)) :
    untouched keys (lines.map stripReturn) = (untouched keys lines).map stripReturn := by
  induction keys generalizing lines with
  | nil => rfl
  | cons key keys ih =>
    have hsame : ((fun l => decide (key <+: l)) ∘ stripReturn) = fun l => decide (key <+: l) := by
      funext line
      exact decide_eq_decide.2 (starts_stripReturn (hkeys key List.mem_cons_self) line)
    have hcons : ∀ lines, untouched (key :: keys) lines =
        untouched keys (lines.eraseP fun l => key <+: l) := fun _ => rfl
    rw [hcons, hcons, List.eraseP_map, hsame, ih fun k hk => hkeys k (List.mem_cons_of_mem _ hk)]

theorem length_stripReturn (line : List Char) :
    (stripReturn line).length ≤ line.length ∧
      (line.length ≤ (stripReturn line).length → stripReturn line = line) := by
  unfold stripReturn
  split
  · rename_i hlast
    obtain ⟨front, rfl⟩ := List.getLast?_eq_some_iff.1 hlast
    simp
  · exact ⟨le_rfl, fun _ => rfl⟩

theorem length_document_stripReturn (lines : List (List Char)) :
    (document (lines.map stripReturn)).length ≤ (document lines).length ∧
      ((document lines).length ≤ (document (lines.map stripReturn)).length →
        lines.map stripReturn = lines) := by
  induction lines with
  | nil => exact ⟨le_rfl, fun _ => rfl⟩
  | cons line lines ih =>
    have hcons : ∀ (l : List Char) ls, (document (l :: ls)).length =
        l.length + 1 + (document ls).length := by
      intro l ls
      simp [document]
      omega
    obtain ⟨hle, heq⟩ := length_stripReturn line
    obtain ⟨hle', heq'⟩ := ih
    rw [List.map_cons, hcons, hcons]
    refine ⟨by omega, fun h => ?_⟩
    rw [heq (by omega), heq' (by omega)]

/-! ## A run of writes -/

/-- A field and what is written for it. -/
abbrev Write := String × List Char

def writeAll (ws : List Write) (content : List Char) : List Char :=
  ws.foldl (fun content w => setLineField content w.1 (String.ofList w.2)) content

/-- The value stays on its line, and the line is read as it is written. -/
structure Plain (w : Write) : Prop where
  isKey : IsKey w.1.toList
  newline : '\n' ∉ w.2
  carriage : Fewer 1 (fieldLine w.1.toList w.2)

theorem setLineField_lines (text : List Char) (w : Write) :
    setLineField text w.1 (String.ofList w.2) =
      document (setLines w.1.toList (fieldLine w.1.toList w.2) (textLines text)) := by
  rw [setLineField_eq]
  congr 2
  unfold fieldLine
  simp

theorem line_set {w : Write} (hw : Plain w) (text : List Char) :
    ∀ l ∈ setLines w.1.toList (fieldLine w.1.toList w.2) (textLines text), '\n' ∉ l := by
  intro l hl
  rcases mem_setLines hl with h | rfl | rfl
  · exact newline_textLines h
  · unfold fieldLine
    simp [hw.isKey.newline, hw.newline]
  · exact List.not_mem_nil

theorem textLines_set {w : Write} (hw : Plain w) (text : List Char) :
    textLines (setLineField text w.1 (String.ofList w.2)) =
      (setLines w.1.toList (fieldLine w.1.toList w.2) (textLines text)).map stripReturn := by
  rw [setLineField_lines, textLines_documented (line_set hw text)]

/-- The first line of the text that holds the field starts with it. -/
def ClearField (text : List Char) (field : String) : Prop := Clear field.toList (textLines text)

instance (text : List Char) (field : String) : Decidable (ClearField text field) :=
  inferInstanceAs (Decidable (Clear _ _))

section Other

variable {w : Write} {field : String} (hw : Plain w) (hfield : IsKey field.toList)

include hw hfield

theorem lineField_set_other (hne : field ≠ w.1) (text : List Char) :
    lineField (setLineField text w.1 (String.ofList w.2)) field = lineField text field := by
  have hne' : field.toList ≠ w.1.toList := fun h => hne (String.toList_inj.1 h)
  rw [lineField_eq, lineField_eq, textLines_set hw, valueOf_stripReturn,
    valueOf_setLines_other hfield hw.isKey hne']

theorem clearField_set_other (hne : field ≠ w.1) (text : List Char) :
    ClearField (setLineField text w.1 (String.ofList w.2)) field ↔ ClearField text field := by
  have hne' : field.toList ≠ w.1.toList := fun h => hne (String.toList_inj.1 h)
  unfold ClearField
  rw [textLines_set hw, clear_stripReturn hfield, clear_setLines_other hfield hw.isKey hne']

end Other

theorem lineField_writeAll_other {ws : List Write} (hws : ∀ w ∈ ws, Plain w) {field : String}
    (hfield : IsKey field.toList) (hne : field ∉ ws.map Prod.fst) (text : List Char) :
    lineField (writeAll ws text) field = lineField text field := by
  induction ws generalizing text with
  | nil => rfl
  | cons w ws ih =>
    rw [List.map_cons, List.mem_cons, not_or] at hne
    have hrest := ih (fun w' hw' => hws w' (List.mem_cons_of_mem _ hw')) hne.2
      (setLineField text w.1 (String.ofList w.2))
    exact hrest.trans (lineField_set_other (hws w List.mem_cons_self) hfield hne.1 text)

theorem lineField_set_self {w : Write} (hw : Plain w) (text : List Char) :
    lineField (setLineField text w.1 (String.ofList w.2)) w.1 =
      if ClearField text w.1 then some (trim w.2) else lineField text w.1 := by
  rw [lineField_eq, lineField_eq, textLines_set hw, valueOf_stripReturn,
    valueOf_setLines_self hw.isKey]
  rfl

/-- The fields of a run of writes are all different. -/
def Apart (ws : List Write) : Prop := (ws.map Prod.fst).Nodup

theorem lineField_writeAll_self {ws : List Write} (hws : ∀ w ∈ ws, Plain w) (hapart : Apart ws)
    {w : Write} (hw : w ∈ ws) (text : List Char) :
    lineField (writeAll ws text) w.1 =
      if ClearField text w.1 then some (trim w.2) else lineField text w.1 := by
  induction ws generalizing text with
  | nil => exact absurd hw List.not_mem_nil
  | cons w' ws ih =>
    have hplain : Plain w' := hws w' List.mem_cons_self
    have hrest : ∀ w ∈ ws, Plain w := fun w hw => hws w (List.mem_cons_of_mem _ hw)
    obtain ⟨hnot, hapart'⟩ := List.nodup_cons.1 hapart
    rcases List.mem_cons.1 hw with rfl | hw
    · exact (lineField_writeAll_other hrest hplain.isKey hnot _).trans
        (lineField_set_self hplain text)
    · have hne : w.1 ≠ w'.1 := by
        intro heq
        exact hnot (heq ▸ List.mem_map_of_mem hw)
      have hkey : IsKey w.1.toList := (hrest w hw).isKey
      refine (ih hrest hapart' hw _).trans ?_
      rw [lineField_set_other hplain hkey hne]
      simp only [clearField_set_other hplain hkey hne]

/-! ## Writing again -/

def AllPlaced (ws : List Write) (text : List Char) : Prop :=
  ∀ w ∈ ws, Placed w.1.toList w.2 (textLines text)

theorem placed_set_other {w w' : Write} (hw : Plain w) (hw' : Plain w') (hne : w.1 ≠ w'.1)
    {text : List Char} (h : Placed w.1.toList w.2 (textLines text)) :
    Placed w.1.toList w.2 (textLines (setLineField text w'.1 (String.ofList w'.2))) := by
  have hne' : w.1.toList ≠ w'.1.toList := fun h => hne (String.toList_inj.1 h)
  rw [textLines_set hw']
  exact placed_stripReturn hw.isKey (stripReturn_eq_self.2 hw.carriage)
    (placed_other hw.isKey hw'.isKey hne' h)

theorem placed_writeAll_other {w : Write} (hw : Plain w) {ws : List Write}
    (hws : ∀ w ∈ ws, Plain w) (hne : w.1 ∉ ws.map Prod.fst) {text : List Char}
    (h : Placed w.1.toList w.2 (textLines text)) :
    Placed w.1.toList w.2 (textLines (writeAll ws text)) := by
  induction ws generalizing text with
  | nil => exact h
  | cons w' ws ih =>
    rw [List.map_cons, List.mem_cons, not_or] at hne
    exact ih (fun w hw => hws w (List.mem_cons_of_mem _ hw)) hne.2
      (placed_set_other hw (hws w' List.mem_cons_self) hne.1 h)

theorem allPlaced_writeAll {ws : List Write} (hws : ∀ w ∈ ws, Plain w) (hapart : Apart ws)
    (text : List Char) : AllPlaced ws (writeAll ws text) := by
  induction ws generalizing text with
  | nil => exact fun w hw => absurd hw List.not_mem_nil
  | cons w' ws ih =>
    have hplain : Plain w' := hws w' List.mem_cons_self
    have hrest : ∀ w ∈ ws, Plain w := fun w hw => hws w (List.mem_cons_of_mem _ hw)
    obtain ⟨hnot, hapart'⟩ := List.nodup_cons.1 hapart
    intro w hw
    rcases List.mem_cons.1 hw with rfl | hw
    · refine placed_writeAll_other hplain hrest hnot ?_
      rw [textLines_set hplain]
      exact placed_stripReturn hplain.isKey (stripReturn_eq_self.2 hplain.carriage)
        (placed_setLines hplain.isKey _ _)
    · exact ih hrest hapart' _ w hw

/-- A write of what stands there only drops the carriage returns. -/
theorem setLineField_placed {w : Write} {text : List Char}
    (h : Placed w.1.toList w.2 (textLines text)) :
    setLineField text w.1 (String.ofList w.2) = document (textLines text) := by
  rw [setLineField_lines, setLines_placed h]

theorem writeAll_fixed {ws : List Write} {lines : List (List Char)}
    (hlines : ∀ l ∈ lines, '\n' ∉ l) (hfewer : ∀ l ∈ lines, Fewer 1 l)
    (h : AllPlaced ws (document lines)) : writeAll ws (document lines) = document lines := by
  induction ws with
  | nil => rfl
  | cons w ws ih =>
    have hset : setLineField (document lines) w.1 (String.ofList w.2) = document lines := by
      rw [setLineField_placed (h w List.mem_cons_self), textLines_documented hlines,
        map_stripReturn_eq_self.2 hfewer]
    have hrest := ih fun w hw => h w (List.mem_cons_of_mem _ hw)
    exact (congrArg (writeAll ws) hset).trans hrest

theorem newline_stripReturn {lines : List (List Char)} (hlines : ∀ l ∈ lines, '\n' ∉ l) :
    ∀ l ∈ lines.map stripReturn, '\n' ∉ l := by
  intro l hl hmem
  obtain ⟨line, hline, rfl⟩ := List.mem_map.1 hl
  refine hlines line hline ?_
  unfold stripReturn at hmem
  split at hmem
  · exact List.dropLast_subset _ hmem
  · exact hmem

section Again

variable {w : Write} {ws : List Write} (hws : ∀ w ∈ ws, Plain w) {lines : List (List Char)}
  (hlines : ∀ l ∈ lines, '\n' ∉ l)

include hws hlines

theorem allPlaced_stripReturn (h : AllPlaced ws (document lines)) :
    AllPlaced ws (document (lines.map stripReturn)) := by
  intro w hw
  have hplaced := h w hw
  rw [textLines_documented hlines] at hplaced
  rw [textLines_documented (newline_stripReturn hlines)]
  exact placed_stripReturn (hws w hw).isKey (stripReturn_eq_self.2 (hws w hw).carriage) hplaced

theorem length_writeAll_le (h : AllPlaced ws (document lines)) :
    (writeAll ws (document lines)).length ≤ (document lines).length := by
  induction ws generalizing lines with
  | nil => exact le_rfl
  | cons w ws ih =>
    have hrest : ∀ w ∈ ws, Plain w := fun w hw => hws w (List.mem_cons_of_mem _ hw)
    have hset : setLineField (document lines) w.1 (String.ofList w.2) =
        document (lines.map stripReturn) := by
      rw [setLineField_placed (h w List.mem_cons_self), textLines_documented hlines]
    have hle := ih hrest (newline_stripReturn hlines)
      (allPlaced_stripReturn hrest hlines fun w hw => h w (List.mem_cons_of_mem _ hw))
    rw [← hset] at hle
    exact hle.trans (hset ▸ (length_document_stripReturn lines).1)

/-- A run whose lines stand there leaves the text, unless a line ends with a carriage return. -/
theorem writeAll_again (hne : ws ≠ []) (h : AllPlaced ws (document lines)) :
    writeAll ws (document lines) = document lines ↔ ∀ l ∈ lines, Fewer 1 l := by
  refine ⟨fun heq => ?_, fun hfewer => writeAll_fixed hlines hfewer h⟩
  cases ws with
  | nil => exact absurd rfl hne
  | cons w ws =>
    have hrest : ∀ w ∈ ws, Plain w := fun w hw => hws w (List.mem_cons_of_mem _ hw)
    have hset : setLineField (document lines) w.1 (String.ofList w.2) =
        document (lines.map stripReturn) := by
      rw [setLineField_placed (h w List.mem_cons_self), textLines_documented hlines]
    have hle := length_writeAll_le hrest (newline_stripReturn hlines)
      (allPlaced_stripReturn hrest hlines fun w hw => h w (List.mem_cons_of_mem _ hw))
    rw [← hset] at hle
    have hlength : (document lines).length ≤ (document (lines.map stripReturn)).length := by
      rw [← hset, ← congrArg List.length heq]
      exact hle
    exact map_stripReturn_eq_self.1 ((length_document_stripReturn lines).2 hlength)

end Again

def fieldsOf (ws : List Write) : List (List Char) := ws.map fun w => w.1.toList

/-- The lines a run of writes leaves, and which of them end with a carriage return. -/
theorem writeAll_lines {ws : List Write} (hne : ws ≠ []) (hws : ∀ w ∈ ws, Plain w)
    (hapart : Apart ws) (text : List Char) :
    ∃ lines, writeAll ws text = document lines ∧ (∀ l ∈ lines, '\n' ∉ l) ∧
      ((∀ l ∈ lines, Fewer 1 l) ↔
        ∀ l ∈ untouched (fieldsOf ws) (textLines text), Fewer ws.length l) := by
  -- on the writes: each reads the lines of the one before, with one carriage return less
  induction ws generalizing text with
  | nil => exact absurd rfl hne
  | cons w ws ih =>
    have hplain : Plain w := hws w List.mem_cons_self
    have hrest : ∀ w ∈ ws, Plain w := fun w hw => hws w (List.mem_cons_of_mem _ hw)
    obtain ⟨hnot, hapart'⟩ := List.nodup_cons.1 hapart
    have hkeys : ∀ k ∈ fieldsOf ws, IsKey k := by
      intro k hk
      obtain ⟨w', hw', rfl⟩ := List.mem_map.1 hk
      exact (hrest w' hw').isKey
    have hother : ∀ k ∈ fieldsOf ws, ¬ k <+: fieldLine w.1.toList w.2 := by
      intro k hk hprefix
      obtain ⟨w', hw', rfl⟩ := List.mem_map.1 hk
      have heq := (hrest w' hw').isKey.eq_of_start hplain.isKey hprefix
      exact hnot (String.toList_inj.1 heq ▸ List.mem_map_of_mem hw')
    have hfewer : ∀ n, 0 < n → Fewer n (fieldLine w.1.toList w.2) ∧ Fewer n [] := fun n hn =>
      ⟨hplain.carriage.mono hn, Fewer.mono hn (fewer_one (by decide))⟩
    by_cases hnil : ws = []
    · subst hnil
      refine ⟨_, setLineField_lines text w, line_set hplain text, ?_⟩
      obtain ⟨hline, hempty⟩ := hfewer 1 Nat.one_pos
      exact forall_untouched_setLines hkeys hother hline hempty (textLines text)
    · obtain ⟨lines, heq, hline, hiff⟩ := ih hnil hrest hapart'
        (setLineField text w.1 (String.ofList w.2))
      refine ⟨lines, heq, hline, hiff.trans ?_⟩
      have hpos : 0 < ws.length := List.length_pos_iff.2 hnil
      obtain ⟨hline', hempty⟩ := hfewer (ws.length + 1) (Nat.succ_pos _)
      rw [textLines_set hplain, untouched_stripReturn hkeys, List.forall_mem_map]
      simp only [fewer_stripReturn hpos]
      exact forall_untouched_setLines hkeys hother hline' hempty (textLines text)

end Orchestrail.Descriptor
