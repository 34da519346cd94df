import Mathlib.Algebra.Order.BigOperators.Group.List
import Orchestrail.Proof.Append
import Orchestrail.Proof.Delivery
import Orchestrail.Proof.Manifest
import Orchestrail.Proof.QueueInbox
import Orchestrail.Spec.Fingerprint

/-!
# The two fingerprints of the outbox
-/

namespace Orchestrail.Fingerprint

open Text Outcome Journal Watch

/-! ## First entries -/

section Firsts

variable {f : Envelope → String}

theorem foldl_enter (es D : List Envelope) :
    (es.map fun e => (e.eventId, f e)).foldl enter (D.map fun e => (e.eventId, f e)) =
      (es.foldl deliver D).map fun e => (e.eventId, f e) := by
  induction es generalizing D with
  | nil => rfl
  | cons e es ih =>
    have hids : (D.map fun e => (e.eventId, f e)).map Prod.fst = D.map Envelope.eventId := by
      rw [List.map_map]
      rfl
    rw [List.map_cons, List.foldl_cons, List.foldl_cons, ← ih]
    unfold enter deliver
    rw [hids]
    split
    · rfl
    · rw [List.map_append]
      rfl

/-- The first entries are those of the first events. -/
theorem firstEntries_map (es : List Envelope) :
    firstEntries (es.map fun e => (e.eventId, f e)) =
      (firstOccurrences es).map fun e => (e.eventId, f e) :=
  foldl_enter es []

theorem mem_foldl_enter {id : String} (es D : List Entry) :
    id ∈ (es.foldl enter D).map Prod.fst ↔ id ∈ D.map Prod.fst ∨ id ∈ es.map Prod.fst := by
  induction es generalizing D with
  | nil => simp
  | cons e es ih =>
    have hone : id ∈ (enter D e).map Prod.fst ↔ id ∈ D.map Prod.fst ∨ id = e.1 := by
      unfold enter
      split
      · rename_i hknown
        constructor
        · exact .inl
        · rintro (hid | rfl)
          · exact hid
          · exact hknown
      · simp
    rw [List.foldl_cons, ih, hone, List.map_cons, List.mem_cons, or_assoc]

theorem mem_firstEntries {id : String} {es : List Entry} :
    id ∈ (firstEntries es).map Prod.fst ↔ id ∈ es.map Prod.fst := by
  unfold firstEntries
  rw [mem_foldl_enter]
  simp

/-- An entry of an id that was there changes nothing. -/
theorem firstEntries_repeated {es fs : List Entry} {entry : Entry}
    (h : entry.1 ∈ es.map Prod.fst) :
    firstEntries (es ++ entry :: fs) = firstEntries (es ++ fs) := by
  have hstay : enter (es.foldl enter []) entry = es.foldl enter [] :=
    if_pos (mem_firstEntries.2 h)
  unfold firstEntries
  rw [List.foldl_append, List.foldl_append, List.foldl_cons, hstay]

theorem firstEntries_known {entries : List Entry} {entry : Entry}
    (h : entry.1 ∈ entries.map Prod.fst) :
    firstEntries (entries ++ [entry]) = firstEntries entries := by
  rw [firstEntries_repeated h, List.append_nil]

theorem firstEntries_unknown {entries : List Entry} {entry : Entry}
    (h : entry.1 ∉ entries.map Prod.fst) :
    firstEntries (entries ++ [entry]) = firstEntries entries ++ [entry] := by
  unfold firstEntries
  rw [List.foldl_append, List.foldl_cons, List.foldl_nil]
  exact if_neg fun hmem => h (mem_firstEntries.1 hmem)

theorem foldl_enter_new {es D : List Entry} (hnodup : (D.map Prod.fst).Nodup) :
    ((es.foldl enter D).map Prod.fst).Nodup := by
  induction es generalizing D with
  | nil => exact hnodup
  | cons e es ih =>
    rw [List.foldl_cons]
    refine ih ?_
    unfold enter
    split
    · exact hnodup
    · rename_i hnew
      rw [List.map_append, List.nodup_append]
      refine ⟨hnodup, by simp, fun a ha b hb => ?_⟩
      obtain rfl : b = e.1 := by simpa using hb
      rintro rfl
      exact hnew ha

theorem nodup_firstEntries (es : List Entry) : ((firstEntries es).map Prod.fst).Nodup :=
  foldl_enter_new List.nodup_nil

theorem foldl_enter_nodup {es D : List Entry} (h : ((D ++ es).map Prod.fst).Nodup) :
    es.foldl enter D = D ++ es := by
  induction es generalizing D with
  | nil => rw [List.append_nil]; rfl
  | cons e es ih =>
    have hnew : e.1 ∉ D.map Prod.fst := by
      intro hmem
      rw [List.map_append, List.nodup_append] at h
      exact h.2.2 _ hmem _ (List.mem_map_of_mem List.mem_cons_self) rfl
    have hone : enter D e = D ++ [e] := if_neg hnew
    rw [List.foldl_cons, hone, ih (by simpa using h), List.append_assoc]
    rfl

/-- Entries of different ids all stay. -/
theorem firstEntries_nodup {es : List Entry} (h : (es.map Prod.fst).Nodup) :
    firstEntries es = es :=
  foldl_enter_nodup h

theorem firstEntries_idem (es : List Entry) : firstEntries (firstEntries es) = firstEntries es :=
  firstEntries_nodup (nodup_firstEntries es)

/-- Lines that stay, of which one is repeated, or which change places while their ids differ. -/
theorem firstEntries_variant {α : Type} {g : α → Option Entry} {rs ss : List α}
    (h : ss = rs ∨ (∃ front behind r, rs = front ++ behind ∧ r ∈ front ∧
      ss = front ++ r :: behind) ∨ ss.Perm rs ∧ ((rs.filterMap g).map Prod.fst).Nodup) :
    (firstEntries (ss.filterMap g)).Perm (firstEntries (rs.filterMap g)) := by
  -- the first entries stay where they were, but for a change of places
  rcases h with rfl | ⟨front, behind, r, rfl, hr, rfl⟩ | ⟨hperm, hnodup⟩
  · exact List.Perm.refl _
  · rw [List.filterMap_append, List.filterMap_append, List.filterMap_cons]
    cases hentry : g r with
    | none => exact List.Perm.refl _
    | some entry =>
      have hknown : entry.1 ∈ (front.filterMap g).map Prod.fst :=
        List.mem_map_of_mem (List.mem_filterMap.2 ⟨r, hr, hentry⟩)
      dsimp only
      rw [firstEntries_repeated hknown]
  · have hentries := hperm.filterMap g
    rw [firstEntries_nodup hnodup,
      firstEntries_nodup ((hentries.map Prod.fst).nodup_iff.2 hnodup)]
    exact hentries

theorem digest_entries (es : List Envelope) :
    digest es = joined ((firstEntries (es.map fun e => (e.eventId, identity e))).map Prod.snd) :=
  rfl

theorem digest_eq (es : List Envelope) :
    digest es = joined ((firstOccurrences es).map identity) := by
  rw [digest_entries, firstEntries_map, List.map_map]
  rfl

theorem digest_firsts (es : List Envelope) : digest (firstOccurrences es) = digest es := by
  rw [digest_entries, digest_entries, ← firstEntries_map, firstEntries_idem]

theorem joined_perm {a b : List String} (h : a.Perm b) : joined a = joined b := by
  unfold joined
  have hsort : a.insertionSort (· ≤ ·) = b.insertionSort (· ≤ ·) :=
    List.Perm.eq_of_pairwise' (List.pairwise_insertionSort _ _) (List.pairwise_insertionSort _ _)
      (((List.perm_insertionSort _ a).trans h).trans (List.perm_insertionSort _ b).symm)
  rw [hsort]

end Firsts

/-! ## Texts of records -/

theorem utf8_newline : utf8 "\n" = [newline] := by decide

/-- The text of a record. -/
def textOf (r : Record) : String := (fromUtf8 r.1).getD ""

/-- The line of a record, as `str::lines` yields it. -/
def lineOf (r : Record) : List Char := stripLineEnding ((textOf r).toList ++ ['\n'])

/-- The records are UTF-8. -/
def Readable (rs : List Record) : Prop := ∀ r ∈ rs, (fromUtf8 r.1).isSome

theorem utf8_textOf {r : Record} (h : (fromUtf8 r.1).isSome) : utf8 (textOf r) = r.1 := by
  obtain ⟨text, htext⟩ := Option.isSome_iff_exists.1 h
  unfold textOf
  rw [htext]
  exact utf8_fromUtf8 htext

theorem newline_textOf {r : Record} (h : (fromUtf8 r.1).isSome) : '\n' ∉ (textOf r).toList := by
  intro hmem
  obtain ⟨a, b, hlist⟩ := List.append_of_mem hmem
  have htext : textOf r = String.ofList a ++ "\n" ++ String.ofList b := by
    rw [← String.toList_inj, hlist]
    simp
  refine r.2 ?_
  rw [← utf8_textOf h, htext, utf8_append, utf8_append, utf8_newline]
  simp

/-- The text of some records, one after the other. -/
def recordsText (rs : List Record) : List Char := rs.flatMap fun r => (textOf r).toList ++ ['\n']

theorem utf8_recordsText {rs : List Record} (h : Readable rs) (tail : String) :
    utf8 (String.ofList (recordsText rs ++ tail.toList)) = lines rs ++ utf8 tail := by
  induction rs with
  | nil =>
    show utf8 (String.ofList tail.toList) = utf8 tail
    rw [String.ofList_toList]
  | cons r rs ih =>
    have hrest := ih fun s hs => h s (List.mem_cons_of_mem _ hs)
    have htext : String.ofList (recordsText (r :: rs) ++ tail.toList) =
        textOf r ++ "\n" ++ String.ofList (recordsText rs ++ tail.toList) := by
      rw [← String.toList_inj]
      simp [recordsText]
    rw [htext, utf8_append, utf8_append, hrest, utf8_textOf (h r List.mem_cons_self), utf8_newline,
      lines_cons]
    simp

theorem fromUtf8_records {rs : List Record} (h : Readable rs) (tail : String) :
    fromUtf8 (lines rs ++ utf8 tail) = some (String.ofList (recordsText rs ++ tail.toList)) := by
  rw [← utf8_recordsText h tail, fromUtf8_utf8]

/-- The line of a tail that is not closed. -/
def tailLines (tail : List Char) : List (List Char) := if tail = [] then [] else [tail]

theorem stripLineEnding_open {tail : List Char} (h : '\n' ∉ tail) :
    stripLineEnding tail = tail := by
  unfold stripLineEnding
  split
  case h_3 => rfl
  all_goals
    rename_i rest heq
    refine absurd ?_ h
    rw [← List.mem_reverse, heq]
    exact List.mem_cons_self

theorem textLines_records {rs : List Record} {tail : List Char} (h : Readable rs)
    (htail : '\n' ∉ tail) :
    textLines (recordsText rs ++ tail) = rs.map lineOf ++ tailLines tail := by
  have htailLines : textLines tail = tailLines tail := by
    unfold tailLines
    split
    · rename_i hnil
      rw [hnil]
      rfl
    · rename_i hne
      unfold textLines
      rw [Outline.inclusive_line hne fun hmem => htail (List.dropLast_subset _ hmem),
        List.map_singleton, stripLineEnding_open htail]
  -- a record ends its line, so the lines in front of it and behind it are cut on their own
  induction rs with
  | nil => exact htailLines
  | cons r rs ih =>
    have hrest := ih fun s hs => h s (List.mem_cons_of_mem _ hs)
    have hline := newline_textOf (h r List.mem_cons_self)
    have hend : Outline.LineEnd ((textOf r).toList ++ ['\n']) := by
      intro ch hch
      simpa [eq_comm] using hch
    have hlist : recordsText (r :: rs) ++ tail =
        ((textOf r).toList ++ ['\n']) ++ (recordsText rs ++ tail) := by
      simp [recordsText]
    have hone : Outline.inclusive ((textOf r).toList ++ ['\n']) = [(textOf r).toList ++ ['\n']] :=
      Outline.inclusive_line (by simp) (by simpa using hline)
    unfold textLines at hrest ⊢
    rw [hlist, Outline.inclusive_append hend, hone, List.map_append, hrest, List.map_cons]
    rfl

theorem trim_lineOf (r : Record) : trim (lineOf r) = trim (textOf r).toList := by
  unfold lineOf stripLineEnding
  rw [List.reverse_append, List.reverse_singleton, List.singleton_append]
  split
  -- a carriage return that the line ending takes off is white space for `trim`
  case h_1 rest heq =>
    obtain ⟨-, hrest⟩ := List.cons.inj heq
    have hlist : (textOf r).toList = rest.reverse ++ ['\r'] := by
      rw [← List.reverse_reverse (textOf r).toList, hrest, List.reverse_cons]
    rw [hlist, trim_tail QueueEntry.return_only]
  case h_2 rest _ heq =>
    obtain ⟨-, hrest⟩ := List.cons.inj heq
    rw [← hrest, List.reverse_reverse]
  case h_3 _ hno => exact absurd rfl (hno _)

/-! ## The entry of a line -/

section Entries

variable {serde : Serde}

/-- A value that both projections render alike. -/
def Scalar : Option Json → Prop
  | none | some .null | some (.text _) => True
  | _ => False

/-- The white space of JSON. -/
def isJsonSpace (ch : Char) : Bool := ch == ' ' || ch == '\t' || ch == '\n' || ch == '\r'

/-- What `serde_json` says of the white space around a document and of a byte order mark, and of
what a value is rendered as. -/
structure Reads (serde : Serde) : Prop where
  render : ∀ value, ¬ Scalar (some value) → serde.render value ≠ ""
  space : ∀ a s b : List Char, (∀ ch ∈ a, isJsonSpace ch = true) →
    (∀ ch ∈ b, isJsonSpace ch = true) →
    (serde.read (String.ofList (a ++ s ++ b))).toOption = (serde.read (String.ofList s)).toOption
  mark : ∀ s : List Char, (serde.read (String.ofList ('\uFEFF' :: s))).toOption = none

theorem eventType_parse {s : String} {t : EventType} (h : EventType.parse s = some t) :
    t.asStr = s := by
  revert h
  fun_cases EventType.parse s <;> intro h
  case case13 => exact nomatch h
  all_goals exact (congrArg EventType.asStr (Option.some.inj h)).symm

theorem requireStr_ok {value : Option Json} {field s : String}
    (h : requireStr value field = .ok s) : value = some (.text s) := by
  unfold requireStr at h
  split at h
  · cases h
  · cases h
  · rw [Except.ok.inj h]
  · cases h

theorem optionalText_ok {value : Option Json} {field : String} {check : String → Bool}
    {complaint : String → String} {found : Option String}
    (h : optionalText value field check complaint = .ok found) :
    (value.map (jsonScalar serde)).getD "" = found.getD "" := by
  unfold optionalText at h
  split at h
  · rw [← Except.ok.inj h]
    rfl
  · rw [← Except.ok.inj h]
    rfl
  · split at h
    · rw [← Except.ok.inj h]
      rfl
    · cases h
  · cases h

variable (serde) in
/-- The entry of a valid event, as the bytes are projected. -/
def rawIdentity (event : Envelope) : String :=
  identityOf event.eventType.asStr (event.batchId.getD "") (event.taskId.getD "")
    (scalarField serde (.object event.payload) "from")
    (scalarField serde (.object event.payload) "to")

/-- What the bytes of a valid event are projected to. -/
theorem valueEntry_spec {obj : List (String × Json)} {event : Envelope}
    (h : parseEnvelope obj = .ok event) :
    valueEntry serde (.object obj) = some (event.eventId, rawIdentity serde event) := by
  unfold parseEnvelope at h
  -- the parser fails at the first field that is wrong, so each of its fields is what it read
  obtain ⟨schemaVersion, -, h⟩ := bind_eq_ok.1 h
  obtain ⟨_, -, h⟩ := bind_eq_ok.1 h
  obtain ⟨eventId, hid, h⟩ := bind_eq_ok.1 h
  obtain ⟨_, -, h⟩ := bind_eq_ok.1 h
  obtain ⟨occurredAt, -, h⟩ := bind_eq_ok.1 h
  obtain ⟨_, -, h⟩ := bind_eq_ok.1 h
  obtain ⟨typeStr, htype, h⟩ := bind_eq_ok.1 h
  split at h
  · cases h
  · rename_i eventType hparse
    obtain ⟨⟨kind, name⟩, -, h⟩ := bind_eq_ok.1 h
    dsimp only at h
    split at h
    · cases h
    · rename_i payload hpayload
      obtain ⟨batchId, hbatch, h⟩ := bind_eq_ok.1 h
      obtain ⟨taskId, htask, h⟩ := bind_eq_ok.1 h
      obtain ⟨version, -, h⟩ := bind_eq_ok.1 h
      obtain rfl := Except.ok.inj h
      have hidField : field (.object obj) "event_id" = some (.text eventId) := requireStr_ok hid
      have htypeField : scalarField serde (.object obj) "type" = eventType.asStr := by
        have hlookup : field (.object obj) "type" = some (.text typeStr) := requireStr_ok htype
        unfold scalarField
        rw [hlookup, eventType_parse hparse]
        rfl
      have hbatchField : scalarField serde (.object obj) "batch_id" = batchId.getD "" :=
        optionalText_ok hbatch
      have htaskField : scalarField serde (.object obj) "task_id" = taskId.getD "" :=
        optionalText_ok htask
      have hpayloadField : field (.object obj) "payload" = some (.object payload) := hpayload
      unfold valueEntry
      simp only [hidField, hpayloadField, htypeField, hbatchField, htaskField, Option.map_some]
      rfl
    · cases h

/-- White space is known to the JSON reader as far as it surrounds the line. -/
def Snug (line : List Char) : Prop :=
  ∃ a b, line = a ++ trim line ++ b ∧ (∀ ch ∈ a, isJsonSpace ch = true) ∧
    ∀ ch ∈ b, isJsonSpace ch = true

theorem trimmed_textOf (r : Record) : trimmed (textOf r) = String.ofList (trim (lineOf r)) := by
  rw [trim_lineOf]
  rfl

theorem eventOf_eq {r : Record} (h : (fromUtf8 r.1).isSome) :
    eventOf serde r.1 = (parseLine serde (trimmed (textOf r))).toOption := by
  obtain ⟨text, htext⟩ := Option.isSome_iff_exists.1 h
  unfold eventOf textOf
  rw [htext, Option.bind_some, Option.getD_some]

/-- A line of a valid event is projected to the entry of the event. -/
theorem lineEntry_spec (hreads : Reads serde) {r : Record}
    {event : Envelope} (hr : (fromUtf8 r.1).isSome) (hevent : eventOf serde r.1 = some event)
    (hsnug : Snug (lineOf r)) :
    lineEntry serde (lineOf r) = some (event.eventId, rawIdentity serde event) := by
  rw [eventOf_eq hr, trimmed_textOf] at hevent
  obtain ⟨a, b, hline, ha, hb⟩ := hsnug
  -- the reader parses the trimmed line, the projection the whole one
  have hsame := hreads.space a (trim (lineOf r)) b ha hb
  rw [← hline] at hsame
  unfold parseLine trimmed at hevent
  rw [String.toList_ofList, trim_trim] at hevent
  dsimp only at hevent
  split at hevent
  · cases hevent
  · split at hevent
    · cases hevent
    · rename_i obj hread
      have hvalue : serde.read (String.ofList (lineOf r)) = .ok (.object obj) := by
        rw [hread] at hsame
        cases hown : serde.read (String.ofList (lineOf r)) with
        | error e =>
          rw [hown] at hsame
          cases hsame
        | ok value =>
          rw [hown] at hsame
          rw [Option.some.inj hsame]
      unfold lineEntry
      rw [hvalue]
      cases hparse : parseEnvelope obj with
      | error e =>
        rw [hparse] at hevent
        cases hevent
      | ok found =>
        rw [hparse] at hevent
        obtain rfl := Option.some.inj hevent
        exact valueEntry_spec hparse
    · cases hevent

end Entries

/-! ## The lines of a stream -/

section Lines

variable {rs : List Record} {torn : Record}

def isShown (line : List Char) : Bool := !(trim line).isEmpty

def mark : Char := '\uFEFF'

/-- The tail of a stream, behind the mark where there is nothing else. -/
def tailText (bare : Bool) (torn : Record) : List Char :=
  if bare then (stripFront [mark] (textOf torn).toList).getD (textOf torn).toList
  else (textOf torn).toList

/-- No byte order mark stands in front of the first record. -/
def Unmarked (rs : List Record) : Prop := ∀ r ∈ rs.head?, (textOf r).toList.head? ≠ some mark

theorem textOf_noRecord : textOf noRecord = "" := by
  have hempty : fromUtf8 [] = some "" := fromUtf8_utf8 ""
  unfold textOf noRecord
  rw [hempty, Option.getD_some]

theorem isSome_noRecord : (fromUtf8 noRecord.1).isSome := by
  have hempty : fromUtf8 [] = some "" := fromUtf8_utf8 ""
  unfold noRecord
  rw [hempty]
  rfl

theorem newline_tailText (h : (fromUtf8 torn.1).isSome) (bare : Bool) :
    '\n' ∉ tailText bare torn := by
  have hline := newline_textOf h
  unfold tailText
  split
  · cases hstrip : stripFront [mark] (textOf torn).toList with
    | none => exact hline
    | some rest =>
      rw [stripFront_iff.1 hstrip] at hline
      exact fun hmem => hline (List.mem_append_right _ hmem)
  · exact hline

def shownTail (bare : Bool) (torn : Record) : List (List Char) :=
  (tailLines (tailText bare torn)).filter isShown

/-- The lines of one source. -/
theorem sourceLines_records {start : Nat} (hrs : Readable rs) (htorn : (fromUtf8 torn.1).isSome)
    (hmark : start = 0 → Unmarked rs) :
    sourceLines start (lines rs ++ torn.1) =
      .ok ((rs.map lineOf).filter isShown ++ shownTail (rs.isEmpty && start == 0) torn) := by
  have hdecode := fromUtf8_records hrs (textOf torn)
  rw [utf8_textOf htorn] at hdecode
  -- a mark is taken off where nothing stands before it, which is the tail if there is no record
  have htext : (if start = 0 then (stripFront ['\uFEFF'] (recordsText rs ++
      (textOf torn).toList)).getD (recordsText rs ++ (textOf torn).toList)
      else recordsText rs ++ (textOf torn).toList) =
      recordsText rs ++ tailText (rs.isEmpty && start == 0) torn := by
    by_cases hstart : start = 0
    · rw [if_pos hstart]
      cases rs with
      | nil =>
        have hbare : (([] : List Record).isEmpty && start == 0) = true := by simp [hstart]
        rw [hbare]
        rfl
      | cons r rs =>
        have hnone : stripFront ['\uFEFF'] (recordsText (r :: rs) ++ (textOf torn).toList) =
            none := by
          refine Manifest.stripFront_none fun hpre => ?_
          have hfirst := hmark hstart r rfl
          unfold recordsText at hpre
          rw [List.flatMap_cons] at hpre
          cases hr : (textOf r).toList with
          | nil =>
            rw [hr] at hpre
            have := (List.cons_prefix_cons.1 hpre).1
            revert this
            decide
          | cons ch more =>
            rw [hr] at hpre
            have hch := (List.cons_prefix_cons.1 hpre).1
            rw [hr, ← hch] at hfirst
            exact hfirst rfl
        rw [hnone]
        rfl
    · have hbare : (rs.isEmpty && start == 0) = false := by simp [hstart]
      rw [if_neg hstart, hbare]
      rfl
  unfold sourceLines
  rw [hdecode]
  dsimp only
  rw [String.toList_ofList, htext, textLines_records hrs (newline_tailText htorn _)]
  unfold shownTail isShown
  rw [List.filter_append]

theorem shownTail_noRecord (bare : Bool) : shownTail bare noRecord = [] := by
  have hnil : tailText bare noRecord = [] := by
    unfold tailText
    rw [textOf_noRecord]
    split <;> rfl
  unfold shownTail
  rw [hnil]
  rfl

theorem sourceLines_closed {start : Nat} (hrs : Readable rs) (hmark : start = 0 → Unmarked rs) :
    sourceLines start (lines rs) = .ok ((rs.map lineOf).filter isShown) := by
  have hnil : lines rs = lines rs ++ noRecord.1 := (List.append_nil _).symm
  rw [hnil, sourceLines_records hrs isSome_noRecord hmark, shownTail_noRecord, List.append_nil]

end Lines

section Layouts

variable {sha256 : Bytes → String} {j : Journal}

/-- The archived segments, in front of what else there is. -/
theorem layoutLines_files {cs : List Chunk} {rest : List EventStreamSource}
    {more : List (List Char)} (hmore : layoutLines (j.work sha256) rest = .ok more) :
    ∀ {n start : Nat}, (∀ f ∈ files n start cs, f ∈ files 1 0 (j.archived ++ j.front.moving)) →
    Readable (cs.flatMap Chunk.records) → (start = 0 → Unmarked (cs.flatMap Chunk.records)) →
    layoutLines (j.work sha256) ((files n start cs).map (fun f =>
      ⟨.segment f.sequence f.startOffset f.endOffset, f.startOffset, f.endOffset, 0, true⟩) ++
      rest) = .ok (((cs.flatMap Chunk.records).map lineOf).filter isShown ++ more) := by
  -- on the chunks: each is a source of its own, and only the first one starts at offset 0
  induction cs with
  | nil => intro n start _ _ _; exact hmore
  | cons c cs ih =>
    intro n start hsub hread hmark
    have hopen : openExisting (j.work sha256) (.segment n start (start + c.bytes.length)) =
        .ok c.bytes := Journal.openExisting_file (hsub _ List.mem_cons_self)
    have hc : Readable c.records := fun r hr => hread r (by simp [hr])
    have hcs : Readable (cs.flatMap Chunk.records) := fun r hr => hread r (by
      rw [List.flatMap_cons]
      exact List.mem_append_right _ hr)
    have hfirst : start = 0 → Unmarked c.records := by
      intro h0
      have := hmark h0
      unfold Unmarked at this ⊢
      rwa [List.flatMap_cons, List.head?_append_of_ne_nil _ c.nonempty] at this
    have hsource : EventStreamSource.read (j.work sha256)
        ⟨.segment n start (start + c.bytes.length), start, start + c.bytes.length, 0, true⟩ =
          .ok c.bytes := by
      unfold EventStreamSource.read
      rw [hopen]
      show Except.ok ((c.bytes.drop 0).take (start + c.bytes.length - start)) = _
      rw [List.drop_zero, Nat.add_sub_cancel_left, List.take_length]
    have hlines : sourceLines start c.bytes = .ok ((c.records.map lineOf).filter isShown) :=
      sourceLines_closed hc hfirst
    have hpos := c.length_pos
    have hnext := @ih (n + 1) (start + c.bytes.length)
      (fun f hf => hsub f (List.mem_cons_of_mem _ hf)) hcs (fun h0 => by omega)
    simp only [files, List.map_cons, List.cons_append, layoutLines]
    rw [hsource]
    show (sourceLines start c.bytes >>= _) = _
    rw [hlines]
    show (layoutLines (j.work sha256) _ >>= _) = _
    rw [hnext, List.flatMap_cons, List.map_append, List.filter_append, List.append_assoc]
    rfl

theorem stream_nil_iff {cs : List Chunk} : (stream cs).length = 0 ↔ cs = [] := by
  constructor
  · intro h
    cases cs with
    | nil => rfl
    | cons c cs =>
      have hpos := c.length_pos
      simp only [stream, List.flatMap_cons, List.length_append] at h
      omega
  · rintro rfl
    rfl

/-- **The lines of a stream** are those of its records, and behind them its tail. -/
theorem layoutLines_journal (hread : Readable j.records) (htorn : (fromUtf8 j.front.torn.1).isSome)
    (hmark : Unmarked j.records) : layoutLines (j.work sha256) j.layout.sources =
      .ok ((j.records.map lineOf).filter isShown ++ shownTail j.records.isEmpty j.front.torn) := by
  have hsub : ∀ f ∈ files 1 0 j.counted, f ∈ files 1 0 (j.archived ++ j.front.moving) :=
    fun f hf => mem_visible hf
  have hrecords := records_eq j
  have hcounted : Readable (j.counted.flatMap Chunk.records) := fun r hr => hread r (by
    rw [hrecords]
    exact List.mem_append_left _ hr)
  have hahead : Readable j.ahead := fun r hr => hread r (by
    rw [hrecords]
    exact List.mem_append_right _ hr)
  have hfirst : (0 : Nat) = 0 → Unmarked (j.counted.flatMap Chunk.records) := by
    intro _ r hr
    refine hmark r ?_
    rw [hrecords, List.head?_append]
    rw [Option.mem_def] at hr ⊢
    rw [hr, Option.some_or]
  have hflag : (j.ahead.isEmpty && (stream j.counted).length == 0) = j.records.isEmpty := by
    rw [hrecords]
    cases hcs : j.counted with
    | nil => simp [stream]
    | cons c cs =>
      have hne : c.records ≠ [] := c.nonempty
      have hpos := c.length_pos
      have hlen : ((stream (c :: cs)).length == 0) = false := by
        rw [beq_eq_false_iff_ne]
        intro h0
        exact List.cons_ne_nil _ _ (stream_nil_iff.1 h0)
      rw [hlen, Bool.and_false]
      simp [hne]
  -- the active file is a source only if it holds something
  show layoutLines (j.work sha256) (j.archivedSources ++ _) = _
  unfold archivedSources
  split
  · rename_i hlive
    have hread : EventStreamSource.read (j.work sha256) ⟨.active, (stream j.counted).length,
        (stream j.counted).length + j.live.length, j.skipped, false⟩ = .ok j.live := by
      show Except.ok ((j.front.active.drop j.skipped).take _) = _
      rw [Nat.add_sub_cancel_left]
      exact congrArg Except.ok (List.take_length (l := j.live))
    have hown : (stream j.counted).length = 0 → Unmarked j.ahead := by
      intro h0
      rwa [hrecords, stream_nil_iff.1 h0] at hmark
    have hlines := @sourceLines_records j.ahead j.front.torn (stream j.counted).length hahead htorn
      hown
    rw [← live_eq, hflag] at hlines
    have hrest : layoutLines (j.work sha256) [⟨.active, (stream j.counted).length,
        (stream j.counted).length + j.live.length, j.skipped, false⟩] =
        .ok ((j.ahead.map lineOf).filter isShown ++
          shownTail j.records.isEmpty j.front.torn) := by
      simp only [layoutLines]
      rw [hread]
      show (sourceLines (stream j.counted).length j.live >>= _) = _
      rw [hlines]
      exact congrArg Except.ok (List.append_nil _)
    rw [layoutLines_files hrest hsub hcounted hfirst]
    conv_rhs => rw [hrecords, List.map_append, List.filter_append, List.append_assoc]
    rw [← hrecords]
  · rename_i hlive
    have hnil : lines j.ahead ++ j.front.torn.1 = [] := by
      rw [← live_eq]
      exact List.eq_nil_of_length_eq_zero (by omega)
    obtain ⟨hno, hopen⟩ := List.append_eq_nil_iff.1 hnil
    have hclosed : j.front.torn = noRecord := Subtype.ext hopen
    rw [layoutLines_files rfl hsub hcounted hfirst, hclosed, shownTail_noRecord, hrecords,
      lines_eq_nil.1 hno, List.append_nil, List.append_nil, List.append_nil]

end Layouts

/-! ## The two digests -/

section Digests

variable {serde : Serde} {sha256 : Bytes → String} {j k : Journal}
  {rs : List Record}

/-- Every record is blank or a valid event. -/
def Legible (serde : Serde) (rs : List Record) : Prop :=
  ∀ r ∈ rs, (fromUtf8 r.1).isSome ∧ (trim (lineOf r) = [] ∨ (eventOf serde r.1).isSome)

theorem Legible.readable (h : Legible serde rs) : Readable rs := fun r hr => (h r hr).1

theorem eventOf_blank {r : Record} (hr : (fromUtf8 r.1).isSome) (h : trim (lineOf r) = []) :
    eventOf serde r.1 = none := by
  rw [eventOf_eq hr, trimmed_textOf, h]
  rfl

/-- A valid event does not begin with a byte order mark. -/
theorem Legible.unmarked (hreads : Reads serde) (h : Legible serde rs) :
    ∀ r ∈ rs, (textOf r).toList.head? ≠ some mark := by
  intro r hr hmark
  obtain ⟨hread, hline⟩ := h r hr
  obtain ⟨rest, htext⟩ := List.head?_eq_some_iff.1 hmark
  have hspace : isWhiteSpace mark = false := by decide
  obtain ⟨behind, htrim, -⟩ := trim_cons hspace rest
  -- a mark is no white space, so it stays in front of the document and the parse fails
  have hfront : trim (lineOf r) = mark :: behind := by
    rw [trim_lineOf, htext, htrim]
  rcases hline with hblank | hevent
  · rw [hfront] at hblank
    cases hblank
  · have hnone : (serde.read (String.ofList (mark :: behind))).toOption = none :=
      hreads.mark behind
    rw [eventOf_eq hread, trimmed_textOf] at hevent
    have hfail : (parseLine serde (String.ofList (trim (lineOf r)))).toOption = none := by
      unfold parseLine trimmed
      rw [String.toList_ofList, trim_trim, hfront]
      dsimp only
      split
      · rfl
      · split
        · rfl
        · rename_i obj hobj
          rw [hobj] at hnone
          cases hnone
        · rfl
    rw [hfail] at hevent
    cases hevent

variable (serde) in
/-- The entry of a record, as the bytes are projected. -/
def rawEntry (r : Record) : Option Entry :=
  if isShown (lineOf r) then lineEntry serde (lineOf r) else none

variable (serde) in
def rawEntries (rs : List Record) : List Entry := rs.filterMap (rawEntry serde)

variable (serde) in
/-- The entry of a record, as the events are projected. -/
def eventEntry (r : Record) : Option Entry :=
  (eventOf serde r.1).map fun e => (e.eventId, identity e)

theorem told_entries (rs : List Record) :
    ((told serde rs).map fun e => (e.eventId, identity e)) = rs.filterMap (eventEntry serde) := by
  unfold told
  rw [List.map_filterMap]
  rfl

theorem shown_entries (rs : List Record) :
    ((rs.map lineOf).filter isShown).filterMap (lineEntry serde) = rawEntries serde rs := by
  unfold rawEntries rawEntry
  rw [List.filterMap_filter, List.filterMap_map]
  rfl

/-- The raw entries of legible records are those of their events. -/
theorem rawEntries_legible (hreads : Reads serde) (h : Legible serde rs)
    (hsnug : ∀ r ∈ rs, trim (lineOf r) ≠ [] → Snug (lineOf r)) :
    rawEntries serde rs = (told serde rs).map fun e => (e.eventId, rawIdentity serde e) := by
  unfold rawEntries told
  rw [List.map_filterMap]
  refine List.filterMap_congr fun r hr => ?_
  obtain ⟨hread, hline⟩ := h r hr
  unfold rawEntry
  by_cases hblank : trim (lineOf r) = []
  · have hhidden : isShown (lineOf r) = false := by simp [isShown, hblank]
    have hnone : eventOf serde r.1 = none := eventOf_blank hread hblank
    rw [hhidden, hnone]
    rfl
  · have hshown : isShown (lineOf r) = true := by simp [isShown, hblank]
    obtain ⟨event, hevent⟩ := Option.isSome_iff_exists.1 (hline.resolve_left hblank)
    rw [hshown, if_pos rfl, lineEntry_spec hreads hread hevent (hsnug r hr hblank), hevent]
    rfl

theorem scalarField_eq {payload : List (String × Json)} {key : String}
    (h : Scalar (payload.lookup key)) :
    scalarField serde (.object payload) key = textField payload key := by
  have hfield : field (.object payload) key = payload.lookup key := rfl
  unfold scalarField textField
  rw [hfield]
  cases hvalue : payload.lookup key with
  | none => rfl
  | some value =>
    rw [hvalue] at h
    cases value with
    | null => rfl
    | text _ => rfl
    | _ => exact h.elim

/-- What keeps the raw projection of a stream steady. -/
structure Clean (serde : Serde) (j : Journal) : Prop where
  readable : Readable j.records
  unmarked : ∀ r ∈ j.records, (textOf r).toList.head? ≠ some mark
  utf8 : (fromUtf8 j.front.torn.1).isSome
  tail : ∀ line ∈ shownTail j.records.isEmpty j.front.torn, ∀ entry ∈ lineEntry serde line,
    entry.1 ∈ (rawEntries serde j.records).map Prod.fst

/-- What keeps the two projections together. -/
structure Plain (serde : Serde) (j : Journal) : Prop extends Clean serde j where
  snug : Legible serde j.records → ∀ r ∈ j.records, trim (lineOf r) ≠ [] → Snug (lineOf r)
  scalars : Legible serde j.records → ∀ e ∈ firstOccurrences (told serde j.records),
    Scalar (e.payload.lookup "from") ∧ Scalar (e.payload.lookup "to")

theorem unmarked_head (h : ∀ r ∈ rs, (textOf r).toList.head? ≠ some mark) : Unmarked rs :=
  fun r hr => h r (List.mem_of_mem_head? hr)

theorem shownTail_le (bare : Bool) (torn : Record) : (shownTail bare torn).length ≤ 1 := by
  unfold shownTail tailLines
  refine (List.length_filter_le _ _).trans ?_
  split <;> simp

/-- A tail that adds no id adds nothing. -/
theorem firstEntries_tail {entries : List Entry} {tail : List (List Char)}
    (hlen : tail.length ≤ 1)
    (h : ∀ line ∈ tail, ∀ entry ∈ lineEntry serde line, entry.1 ∈ entries.map Prod.fst) :
    firstEntries (entries ++ tail.filterMap (lineEntry serde)) = firstEntries entries := by
  cases tail with
  | nil => rw [List.filterMap_nil, List.append_nil]
  | cons line more =>
    obtain rfl : more = [] := by simpa using hlen
    cases hentry : lineEntry serde line with
    | none => rw [List.filterMap_cons, hentry, List.filterMap_nil, List.append_nil]
    | some entry =>
      have hknown := h line List.mem_cons_self entry hentry
      rw [List.filterMap_cons, hentry, List.filterMap_nil]
      exact firstEntries_known hknown

/-- The raw projection of a stream. -/
theorem outboxDigestOf_eq (hread : Readable j.records)
    (hmark : ∀ r ∈ j.records, (textOf r).toList.head? ≠ some mark)
    (htorn : (fromUtf8 j.front.torn.1).isSome) :
    outboxDigestOf serde (j.work sha256) j.layout =
      .ok (joined ((firstEntries (rawEntries serde j.records ++
        (shownTail j.records.isEmpty j.front.torn).filterMap (lineEntry serde))).map
          Prod.snd)) := by
  have hlines := @layoutLines_journal sha256 j hread htorn (unmarked_head hmark)
  unfold outboxDigestOf
  rw [hlines]
  show Except.ok (joined _) = _
  rw [List.filterMap_append, shown_entries]

/-- The raw projection of a clean stream is that of its records. -/
theorem Clean.outboxDigestOf (h : Clean serde j) :
    outboxDigestOf serde (j.work sha256) j.layout =
      .ok (joined ((firstEntries (rawEntries serde j.records)).map Prod.snd)) := by
  rw [outboxDigestOf_eq h.readable h.unmarked h.utf8, firstEntries_tail (shownTail_le _ _) h.tail]

/-- **The raw projection of a plain stream** of legible records is the digest of its events. -/
theorem Plain.outboxDigestOf (hreads : Reads serde) (hlegible : Legible serde j.records)
    (h : Plain serde j) :
    outboxDigestOf serde (j.work sha256) j.layout = .ok (digest (told serde j.records)) := by
  have hsame : (firstOccurrences (told serde j.records)).map (rawIdentity serde) =
      (firstOccurrences (told serde j.records)).map identity := by
    refine List.map_congr_left fun e he => ?_
    obtain ⟨hsource, htarget⟩ := h.scalars hlegible e he
    unfold rawIdentity identity
    rw [scalarField_eq hsource, scalarField_eq htarget]
  rw [h.toClean.outboxDigestOf, rawEntries_legible hreads hlegible (h.snug hlegible),
    firstEntries_map, List.map_map, digest_eq, ← hsame]
  rfl

/-! ## One stream in other layouts -/

/-- No two lines have one id, as either projection reads them. -/
def Distinct (serde : Serde) (rs : List Record) : Prop :=
  (ids (told serde rs)).Nodup ∧ ((rawEntries serde rs).map Prod.fst).Nodup

/-- The stream of `k` is that of `j` in another layout, with a line repeated, or in another order;
its tail may be cut. -/
structure Variant (serde : Serde) (j k : Journal) : Prop where
  sound : k.Sound
  records : k.records = j.records ∨
    (∃ front behind r, j.records = front ++ behind ∧ r ∈ front ∧ k.records = front ++ r :: behind) ∨
    k.records.Perm j.records ∧ Distinct serde j.records
  tail : k.front.torn = j.front.torn ∨ k.front.torn = noRecord

theorem Variant.rawEntries (h : Variant serde j k) :
    (firstEntries (rawEntries serde k.records)).Perm
      (firstEntries (rawEntries serde j.records)) :=
  firstEntries_variant (h.records.imp_right (Or.imp_right (And.imp_right And.right)))

theorem Variant.digest (h : Variant serde j k) :
    digest (told serde k.records) = digest (told serde j.records) := by
  -- the events of two variants differ in their order only
  have hids : (ids (told serde j.records)).Nodup →
      ((j.records.filterMap (eventEntry serde)).map Prod.fst).Nodup := by
    intro hnodup
    rw [← told_entries, List.map_map]
    exact hnodup
  have hfirsts := firstEntries_variant (g := eventEntry serde)
    (h.records.imp_right (Or.imp_right (And.imp_right fun hd => hids hd.1)))
  rw [digest_entries, digest_entries, told_entries, told_entries]
  exact joined_perm (hfirsts.map Prod.snd)

theorem Variant.mem (h : Variant serde j k) {r : Record} (hr : r ∈ k.records) : r ∈ j.records := by
  rcases h.records with hsame | ⟨front, behind, s, hj, hs, hk⟩ | ⟨hperm, -⟩
  · rwa [hsame] at hr
  · rw [hk] at hr
    rw [hj]
    rcases List.mem_append.1 hr with hr | hr
    · exact List.mem_append_left _ hr
    · rcases List.mem_cons.1 hr with rfl | hr
      · exact List.mem_append_left _ hs
      · exact List.mem_append_right _ hr
  · exact hperm.mem_iff.1 hr

theorem Variant.isEmpty (h : Variant serde j k) : k.records.isEmpty = j.records.isEmpty := by
  rcases h.records with hsame | ⟨front, behind, s, hj, hs, hk⟩ | ⟨hperm, -⟩
  · rw [hsame]
  · cases front with
    | nil => cases hs
    | cons r front =>
      rw [hj, hk]
      rfl
  · exact hperm.isEmpty_eq

theorem Variant.clean (h : Variant serde j k) (hj : Clean serde j) : Clean serde k := by
  refine ⟨fun r hr => hj.readable r (h.mem hr), fun r hr => hj.unmarked r (h.mem hr), ?_, ?_⟩
  · rcases h.tail with htail | htail
    · rw [htail]
      exact hj.utf8
    · rw [htail]
      exact isSome_noRecord
  · intro line hline entry hentry
    rcases h.tail with htail | htail
    · rw [htail, h.isEmpty] at hline
      have hknown := hj.tail line hline entry hentry
      rw [← mem_firstEntries] at hknown ⊢
      exact (h.rawEntries.map Prod.fst).mem_iff.2 hknown
    · rw [htail, shownTail_noRecord] at hline
      cases hline

/-- **The raw projection of a clean stream** is that of its variants. -/
theorem Variant.outboxDigestOf (h : Variant serde j k) (hj : Clean serde j) :
    outboxDigestOf serde (k.work sha256) k.layout =
      outboxDigestOf serde (j.work sha256) j.layout := by
  rw [(h.clean hj).outboxDigestOf, hj.outboxDigestOf, joined_perm (h.rawEntries.map Prod.snd)]

/-! ## The events of `poll_all` -/

variable (serde sha256) in
/-- What a new reader is given of a directory that stands still. -/
def Delivers (j : Journal) (events : List Envelope) : Prop :=
  ∃ fuel reader n, TailReader.pollAll serde sha256 fuel {} [] (fun _ => j.work sha256) 0 =
    (.ok (some (.ok events, reader)), n)

theorem delivers_firsts (hhex : ∀ b, Text.isHex 64 (sha256 b) = true) (hj : j.Sound)
    {events : List Envelope} (h : Delivers serde sha256 j events) :
    events = firstOccurrences (told serde j.records) := by
  obtain ⟨fuel, reader, n, hrun⟩ := h
  have hnew : Caught serde sha256 {} ([] ++ []) [] :=
    ⟨rfl, Nat.zero_le _, rfl, fun _ hid => absurd hid List.not_mem_nil,
      fun _ hid => absurd hid List.not_mem_nil⟩
  have hall := pollAll_sees (steady sha256 j hj) hhex fuel {} [] 0 [] hnew List.nil_prefix
  unfold Sees at hall
  rw [hrun] at hall
  obtain ⟨rs', hlater, hcaught, hnow⟩ := hall.2 events reader rfl
  have hprefix : rs' <+: j.records := hlater
  have hrs : rs' = j.records :=
    hprefix.eq_of_length (Nat.le_antisymm hprefix.length_le (List.IsPrefix.length_le hnow))
  rw [← hrs]
  exact hcaught.firsts

/-! ## Agreement -/

variable (serde sha256) in
/-- The two fingerprints are one where every line is legible, and each is that of every variant of
the stream. -/
structure Agrees (j : Journal) : Prop where
  same : Legible serde j.records → ∀ events, Delivers serde sha256 j events →
    outboxDigestOf serde (j.work sha256) j.layout = .ok (digest events)
  raw : ∀ k, Variant serde j k → outboxDigestOf serde (k.work sha256) k.layout =
    outboxDigestOf serde (j.work sha256) j.layout
  typed : ∀ k, Variant serde j k → ∀ events events', Delivers serde sha256 j events →
    Delivers serde sha256 k events' → digest events' = digest events

theorem Plain.agrees (hhex : ∀ b, Text.isHex 64 (sha256 b) = true)
    (hreads : Reads serde) (hj : j.Sound) (hplain : Plain serde j) : Agrees serde sha256 j := by
  refine ⟨fun hlegible events hevents => ?_, fun k hk => hk.outboxDigestOf hplain.toClean,
    fun k hk events events' hevents hevents' => ?_⟩
  · rw [hplain.outboxDigestOf hreads hlegible, delivers_firsts hhex hj hevents, digest_firsts]
  · rw [delivers_firsts hhex hj hevents, delivers_firsts hhex hk.sound hevents', digest_firsts,
      digest_firsts, hk.digest]

/-! ## The length of a digest -/

theorem length_intercalate (l : List String) :
    (";".intercalate l).length = (l.map String.length).sum + (l.length - 1) := by
  induction l with
  | nil => simp
  | cons a l ih =>
    cases l with
    | nil => simp
    | cons b l =>
      have hsep : ";".length = 1 := by decide
      rw [String.intercalate_cons_cons, String.length_append, String.length_append, ih, hsep]
      simp only [List.map_cons, List.sum_cons, List.length_cons]
      omega

theorem length_joined (l : List String) :
    (joined l).length = (l.map String.length).sum + (l.length - 1) := by
  unfold joined
  rw [length_intercalate, List.length_insertionSort,
    ((List.perm_insertionSort (· ≤ ·) l).map String.length).sum_nat]

theorem length_identityOf (eventType batch task source target : String) :
    (identityOf eventType batch task source target).length =
      eventType.length + batch.length + task.length + 3 +
        if source = "" ∧ target = "" then 0 else source.length + 1 + target.length := by
  have hbar : "|".length = 1 := by decide
  have hgt : ">".length = 1 := by decide
  unfold identityOf
  dsimp only
  simp only [String.length_append, hbar]
  split
  · simp
    omega
  · simp only [String.length_append, hgt]
    omega

theorem lineEntry_length {line : List Char} {entry : Entry}
    (h : lineEntry serde line = some entry) : 3 ≤ entry.2.length := by
  unfold lineEntry at h
  split at h
  · unfold valueEntry at h
    obtain ⟨eventId, -, rfl⟩ := Option.map_eq_some_iff.1 h
    dsimp only
    rw [length_identityOf]
    omega
  · cases h

/-- What is not rendered alike is longer in the raw projection. -/
theorem fields_cases (hreads : Reads serde) (payload : List (String × Json))
    (key : String) : Scalar (payload.lookup key) ∧
        scalarField serde (.object payload) key = textField payload key ∨
      ¬ Scalar (payload.lookup key) ∧ textField payload key = "" ∧
        scalarField serde (.object payload) key ≠ "" := by
  by_cases hscalar : Scalar (payload.lookup key)
  · exact .inl ⟨hscalar, scalarField_eq hscalar⟩
  · have hfield : field (.object payload) key = payload.lookup key := rfl
    refine .inr ⟨hscalar, ?_⟩
    unfold textField scalarField
    rw [hfield]
    cases hvalue : payload.lookup key with
    | none =>
      rw [hvalue] at hscalar
      exact absurd trivial hscalar
    | some value =>
      rw [hvalue] at hscalar
      have hrender := hreads.render value hscalar
      cases value with
      | null => exact absurd trivial hscalar
      | text _ => exact absurd trivial hscalar
      | bool _ => exact ⟨rfl, hrender⟩
      | integer _ => exact ⟨rfl, hrender⟩
      | decimal _ => exact ⟨rfl, hrender⟩
      | array _ => exact ⟨rfl, hrender⟩
      | object _ => exact ⟨rfl, hrender⟩

theorem length_pos_of_ne {s : String} (h : s ≠ "") : 0 < s.length := by
  rw [Nat.pos_iff_ne_zero, ne_eq, String.length_eq_zero_iff]
  exact h

theorem rawIdentity_le (hreads : Reads serde) (e : Envelope) :
    (identity e).length ≤ (rawIdentity serde e).length ∧
      (¬ (Scalar (e.payload.lookup "from") ∧ Scalar (e.payload.lookup "to")) →
        (identity e).length < (rawIdentity serde e).length) := by
  unfold identity rawIdentity
  rw [length_identityOf, length_identityOf]
  -- by which of the two ends is rendered in the raw projection only
  rcases fields_cases hreads e.payload "from" with ⟨h1, h2⟩ | ⟨h1, h2, h3⟩ <;>
    rcases fields_cases hreads e.payload "to" with ⟨h4, h5⟩ | ⟨h4, h5, h6⟩
  · rw [h2, h5]
    exact ⟨le_rfl, fun h => absurd ⟨h1, h4⟩ h⟩
  · have hpos := length_pos_of_ne h6
    have hraw : ¬ (scalarField serde (.object e.payload) "from" = "" ∧
        scalarField serde (.object e.payload) "to" = "") := fun h => h6 h.2
    rw [if_neg hraw, h2, h5]
    have hnil : "".length = 0 := rfl
    split
    · exact ⟨by omega, fun _ => by omega⟩
    · exact ⟨by omega, fun _ => by omega⟩
  · have hpos := length_pos_of_ne h3
    have hraw : ¬ (scalarField serde (.object e.payload) "from" = "" ∧
        scalarField serde (.object e.payload) "to" = "") := fun h => h3 h.1
    rw [if_neg hraw, h2, h5]
    have hnil : "".length = 0 := rfl
    split
    · exact ⟨by omega, fun _ => by omega⟩
    · exact ⟨by omega, fun _ => by omega⟩
  · have hpos := length_pos_of_ne h3
    have hraw : ¬ (scalarField serde (.object e.payload) "from" = "" ∧
        scalarField serde (.object e.payload) "to" = "") := fun h => h3 h.1
    rw [if_neg hraw, h2, h5, if_pos ⟨rfl, rfl⟩]
    exact ⟨by omega, fun _ => by omega⟩

/-! ## The other direction -/

/-- The stream without its tail. -/
def closed (j : Journal) : Journal :=
  match j.front with
  | .flowing rs _ => { j with front := .flowing rs noRecord }
  | _ => j

theorem closed_records (j : Journal) : (closed j).records = j.records := by
  unfold closed
  split
  · rename_i rs torn hfront
    unfold records
    rw [hfront]
    rfl
  · rfl

theorem closed_torn (j : Journal) : (closed j).front.torn = noRecord := by
  unfold closed
  cases hfront : j.front <;> simp [hfront, Front.torn]

theorem closed_sound (hj : j.Sound) : (closed j).Sound := by
  unfold closed
  split
  · rename_i rs torn hfront
    obtain ⟨h1, h2, h3⟩ := hj
    rw [hfront] at h1 h2
    exact ⟨h1, h2, h3⟩
  · exact hj

theorem variant_closed (hj : j.Sound) : Variant serde j (closed j) :=
  ⟨closed_sound hj, .inl (closed_records j), .inr (closed_torn j)⟩

/-- A tail that the raw projection does not show has no new id: it would make the digest longer. -/
theorem tail_known (hread : Readable j.records)
    (hmark : ∀ r ∈ j.records, (textOf r).toList.head? ≠ some mark)
    (htorn : (fromUtf8 j.front.torn.1).isSome)
    (hsame : outboxDigestOf serde ((closed j).work sha256) (closed j).layout =
      outboxDigestOf serde (j.work sha256) j.layout) :
    ∀ line ∈ shownTail j.records.isEmpty j.front.torn, ∀ entry ∈ lineEntry serde line,
      entry.1 ∈ (rawEntries serde j.records).map Prod.fst := by
  have hown := @outboxDigestOf_eq serde sha256 j hread hmark htorn
  have hclosed := @outboxDigestOf_eq serde sha256 (closed j) (by rwa [closed_records])
    (by rwa [closed_records]) (by rw [closed_torn]; exact isSome_noRecord)
  rw [closed_torn, closed_records, shownTail_noRecord, List.filterMap_nil, List.append_nil]
    at hclosed
  intro line hline entry hentry
  -- an entry of a new id is one identity more, of three characters at least
  by_contra hnew
  have hone : shownTail j.records.isEmpty j.front.torn = [line] := by
    have hlen := shownTail_le j.records.isEmpty j.front.torn
    cases htails : shownTail j.records.isEmpty j.front.torn with
    | nil =>
      rw [htails] at hline
      cases hline
    | cons first more =>
      rw [htails] at hline hlen
      obtain rfl : more = [] := by simpa using hlen
      rw [List.mem_singleton.1 hline]
  rw [hclosed, hown, hone, List.filterMap_cons, hentry, List.filterMap_nil,
    firstEntries_unknown hnew] at hsame
  have hlength := congrArg String.length (Except.ok.inj hsame)
  have hthree := lineEntry_length hentry
  rw [length_joined, length_joined, List.map_append, List.map_append, List.sum_append,
    List.length_append] at hlength
  simp only [List.map_cons, List.map_nil, List.sum_cons, List.sum_nil, List.length_cons,
    List.length_nil] at hlength
  omega

theorem Agrees.plain (hhex : ∀ b, Text.isHex 64 (sha256 b) = true)
    (hreads : Reads serde) (hj : j.Sound) (hlegible : Legible serde j.records)
    (hsnug : ∀ r ∈ j.records, trim (lineOf r) ≠ [] → Snug (lineOf r))
    (htorn : (fromUtf8 j.front.torn.1).isSome)
    (hdelivers : ∃ events, Delivers serde sha256 j events) (h : Agrees serde sha256 j) :
    Plain serde j := by
  have hmark := hlegible.unmarked hreads
  have htail := tail_known hlegible.readable hmark htorn (h.raw (closed j) (variant_closed hj))
  have hclean : Clean serde j := ⟨hlegible.readable, hmark, htorn, htail⟩
  refine ⟨hclean, fun _ => hsnug, fun _ e he => ?_⟩
  -- a value that is rendered in one projection only makes that one longer
  by_contra hscalar
  obtain ⟨events, hevents⟩ := hdelivers
  have hsame := h.same hlegible events hevents
  rw [delivers_firsts hhex hj hevents, digest_firsts, digest_eq, hclean.outboxDigestOf,
    rawEntries_legible hreads hlegible hsnug, firstEntries_map, List.map_map] at hsame
  have hlength := congrArg String.length (Except.ok.inj hsame)
  have hlt : (((firstOccurrences (told serde j.records)).map fun e => (identity e).length)).sum <
      (((firstOccurrences (told serde j.records)).map fun e =>
        (rawIdentity serde e).length)).sum :=
    List.sum_lt_sum _ _ (fun e _ => (rawIdentity_le hreads e).1)
      ⟨e, he, (rawIdentity_le hreads e).2 hscalar⟩
  rw [length_joined, length_joined, List.map_map, List.map_map, List.length_map, List.length_map]
    at hlength
  have hraw : (String.length ∘ Prod.snd ∘ fun e : Envelope => (e.eventId, rawIdentity serde e)) =
      fun e => (rawIdentity serde e).length := rfl
  have htyped : (String.length ∘ identity) = fun e : Envelope => (identity e).length := rfl
  rw [hraw, htyped] at hlength
  omega

/-- **The two fingerprints of the outbox agree on a plain stream**; and where its lines are legible
and snug and its tail is UTF-8, on no other. -/
theorem outbox_fingerprints (hhex : ∀ b, Text.isHex 64 (sha256 b) = true) (hreads : Reads serde)
    (hj : j.Sound) : (Plain serde j → Agrees serde sha256 j) ∧
      (Legible serde j.records →
        (∀ r ∈ j.records, trim (lineOf r) ≠ [] → Snug (lineOf r)) →
        (fromUtf8 j.front.torn.1).isSome → (∃ events, Delivers serde sha256 j events) →
        Agrees serde sha256 j → Plain serde j) :=
  ⟨Plain.agrees hhex hreads hj, Agrees.plain hhex hreads hj⟩

end Digests

/-! ### Two streams -/

namespace Sample

open Orchestrail.Sample

/-- A text without the white space around it. -/
def document (text : List Char) : List Char :=
  ((text.dropWhile isJsonSpace).reverse.dropWhile isJsonSpace).reverse

theorem document_space {a b : List Char} (s : List Char) (ha : ∀ ch ∈ a, isJsonSpace ch = true)
    (hb : ∀ ch ∈ b, isJsonSpace ch = true) : document (a ++ s ++ b) = document s := by
  have hdrop : b.dropWhile isJsonSpace = [] := by simpa using hb
  unfold document
  rw [List.append_assoc, List.dropWhile_append_of_pos ha, List.dropWhile_append]
  split
  · rename_i hempty
    rw [hdrop, List.isEmpty_iff.1 hempty]
  · rw [List.reverse_append, List.dropWhile_append_of_pos (by simpa using hb)]

theorem document_mark (s : List Char) : ∃ behind, document (mark :: s) = mark :: behind := by
  have hmark : isJsonSpace mark = false := by decide
  unfold document
  rw [List.dropWhile_cons_of_neg (by simp [hmark]), List.reverse_cons, List.dropWhile_append]
  split
  · exact ⟨[], by simp [hmark]⟩
  · exact ⟨_, List.reverse_append⟩

/-- A codec that also reads a document with white space around it. -/
def padded (serde : Serde) : Serde where
  render := serde.render
  read s := serde.read (String.ofList (document s.toList))

theorem reads_padded {serde : Serde} (hrender : ∀ value, serde.render value ≠ "")
    (hmark : ∀ behind, (serde.read (String.ofList (mark :: behind))).toOption = none) :
    Reads (padded serde) where
  render value _ := hrender value
  space a s b ha hb := by
    unfold padded
    dsimp only
    rw [String.toList_ofList, String.toList_ofList, document_space s ha hb]
  mark s := by
    obtain ⟨behind, hbehind⟩ := document_mark s
    unfold padded
    dsimp only
    rw [String.toList_ofList]
    exact (congrArg (fun text => (serde.read (String.ofList text)).toOption) hbehind).trans
      (hmark behind)

theorem returns_padded {serde : Serde} {event : Envelope} (h : serde.Returns event) :
    (padded serde).Returns event where
  read := by
    obtain ⟨inner, hinner⟩ := h.braces
    have hopen : isJsonSpace '{' = false := by decide
    have hclose : isJsonSpace '}' = false := by decide
    have hdocument : document (serde.render event.toJson).toList =
        (serde.render event.toJson).toList := by
      rw [hinner]
      unfold document
      simp [hopen, hclose]
    unfold padded
    dsimp only
    rw [hdocument, String.ofList_toList, h.read]
  braces := h.braces
  oneLine := h.oneLine

theorem table_render {rows : List (Envelope × String)} (h : ∀ row ∈ rows, row.2 ≠ "")
    (value : Json) : (Serde.table rows).render value ≠ "" := by
  simp only [Serde.table]
  cases hrow : rows.find? fun row => row.1.toJson.mark = value.mark with
  | none => decide
  | some row => exact h row (List.mem_of_find?_eq_some hrow)

theorem table_unknown {rows : List (Envelope × String)} {s : String}
    (h : ∀ row ∈ rows, row.2 ≠ s) : ((Serde.table rows).read s).toOption = none := by
  simp only [Serde.table]
  cases hrow : rows.find? fun row => row.2 = s with
  | none => rfl
  | some row =>
    have hknown := List.find?_some hrow
    exact absurd (of_decide_eq_true hknown) (h row (List.mem_of_find?_eq_some hrow))

section Lines

variable {serde : Serde} {event : Envelope} (h : serde.Returns event)
include h

theorem fromUtf8_recordOf :
    fromUtf8 (Writer.recordOf h.oneLine).1 = some (event.toJsonLine serde) :=
  fromUtf8_utf8 _

theorem isSome_recordOf : (fromUtf8 (Writer.recordOf h.oneLine).1).isSome := by
  rw [fromUtf8_recordOf h]
  rfl

theorem textOf_recordOf : textOf (Writer.recordOf h.oneLine) = event.toJsonLine serde := by
  unfold textOf
  rw [fromUtf8_recordOf h, Option.getD_some]

theorem lineOf_recordOf : lineOf (Writer.recordOf h.oneLine) = (event.toJsonLine serde).toList := by
  have hnewline := newline_textOf (isSome_recordOf h)
  rw [textOf_recordOf h] at hnewline
  obtain ⟨inner, hinner⟩ := h.braces
  have hline : Manifest.IsLine (event.toJsonLine serde).toList := by
    refine ⟨hnewline, ?_⟩
    rw [Envelope.toJsonLine, hinner, List.getLast?_concat]
    decide
  unfold lineOf
  rw [textOf_recordOf h, Manifest.stripLineEnding_line hline]

theorem trim_line : trim (event.toJsonLine serde).toList = (event.toJsonLine serde).toList := by
  have htrimmed := h.trimmed
  unfold trimmed at htrimmed
  rw [← String.toList_inj, String.toList_ofList] at htrimmed
  exact htrimmed

theorem snug_recordOf : Snug (lineOf (Writer.recordOf h.oneLine)) := by
  refine ⟨[], [], ?_, by simp, by simp⟩
  rw [lineOf_recordOf h, trim_line h]
  simp

theorem head_line : (event.toJsonLine serde).toList.head? = some '{' := by
  obtain ⟨inner, hinner⟩ := h.braces
  rw [Envelope.toJsonLine, hinner]
  rfl

theorem unmarked_recordOf :
    (textOf (Writer.recordOf h.oneLine)).toList.head? ≠ some mark := by
  rw [textOf_recordOf h, head_line h]
  decide

theorem told_recordOf (hvalid : event.Valid) :
    told serde [Writer.recordOf h.oneLine] = [event] := by
  have hevent : eventOf serde (Writer.recordOf h.oneLine).1 = some event :=
    DeliverySample.eventOf_record h hvalid
  unfold told
  rw [List.filterMap_cons, hevent, List.filterMap_nil]

theorem entry_recordOf (hreads : Reads serde) (hvalid : event.Valid) :
    lineEntry serde (lineOf (Writer.recordOf h.oneLine)) =
      some (event.eventId, rawIdentity serde event) :=
  lineEntry_spec hreads (isSome_recordOf h) (DeliverySample.eventOf_record h hvalid)
    (snug_recordOf h)

/-- A line that is not closed is shown. -/
theorem shownTail_recordOf : shownTail true (Writer.recordOf h.oneLine) =
    [lineOf (Writer.recordOf h.oneLine)] := by
  have hhead := head_line h
  have hne : (event.toJsonLine serde).toList ≠ [] := by
    intro hnil
    rw [hnil] at hhead
    cases hhead
  have hstrip : stripFront [mark] (event.toJsonLine serde).toList = none := by
    refine Manifest.stripFront_none fun hpre => ?_
    obtain ⟨rest, hrest⟩ := hpre
    rw [← hrest] at hhead
    exact absurd (Option.some.inj hhead) (by decide)
  have htext : tailText true (Writer.recordOf h.oneLine) = (event.toJsonLine serde).toList := by
    unfold tailText
    rw [textOf_recordOf h, hstrip]
    rfl
  unfold shownTail tailLines isShown
  rw [htext, if_neg hne, lineOf_recordOf h]
  simp [trim_line h, hne]

end Lines

theorem reads_table {rows : List (Envelope × String)}
    (h : ∀ row ∈ rows, row.2.toList.head? = some '{') : Reads (padded (.table rows)) := by
  -- a line of the table starts with a brace: it is neither empty nor behind a mark
  refine reads_padded (table_render fun row hrow hnil => ?_) fun behind =>
    table_unknown fun row hrow hmark => ?_
  · have hhead := h row hrow
    rw [hnil] at hhead
    cases hhead
  · have hhead := h row hrow
    rw [hmark, String.toList_ofList] at hhead
    exact absurd (Option.some.inj hhead) (by decide)

def codec : Serde := padded Orchestrail.Sample.codec

theorem returns_opened : codec.Returns opened := returns_padded Orchestrail.Sample.returns_opened

theorem reads_codec : Reads codec := by
  have hopened := head_line Orchestrail.Sample.returns_opened
  rw [Envelope.toJsonLine, render_opened] at hopened
  have hsemantic : openedSemanticLine.toList.head? = some '{' := by decide +kernel
  unfold codec Orchestrail.Sample.codec
  refine reads_table fun row hrow => ?_
  rcases List.mem_cons.1 hrow with rfl | hrow
  · exact hopened
  · obtain rfl := List.mem_singleton.1 hrow
    exact hsemantic

def record : Record := Writer.recordOf returns_opened.oneLine

/-- The stream of one record. -/
def whole : Journal := ⟨[], .flowing [record] noRecord, none⟩

/-- The stream of one line that is not closed. -/
def torn : Journal := ⟨[], .flowing [] record, none⟩

theorem sound_whole : whole.Sound := ⟨by decide, by decide, fun _ h => nomatch h⟩

theorem sound_torn : torn.Sound := ⟨by decide, by decide, fun _ h => nomatch h⟩

theorem told_whole : told codec whole.records = [opened] :=
  told_recordOf returns_opened valid_opened

theorem plain_whole : Plain codec whole where
  readable r hr := by
    obtain rfl := List.mem_singleton.1 hr
    exact isSome_recordOf returns_opened
  unmarked r hr := by
    obtain rfl := List.mem_singleton.1 hr
    exact unmarked_recordOf returns_opened
  utf8 := isSome_noRecord
  tail line hline := by
    have hnone : shownTail whole.records.isEmpty whole.front.torn = [] := shownTail_noRecord _
    rw [hnone] at hline
    cases hline
  snug _ r hr _ := by
    obtain rfl := List.mem_singleton.1 hr
    exact snug_recordOf returns_opened
  scalars _ e he := by
    rw [told_whole] at he
    obtain rfl := List.mem_singleton.1 he
    exact ⟨trivial, trivial⟩

theorem records_torn : torn.records = [] := rfl

theorem legible_torn : Legible codec torn.records := by
  intro r hr
  rw [records_torn] at hr
  cases hr

end Sample

theorem outbox_fingerprints_whole : Agrees Sample.codec Sample.digest Sample.whole :=
  (outbox_fingerprints Sample.digest_hex Sample.reads_codec Sample.sound_whole).1
    Sample.plain_whole

/-- **A line that is not closed** is in the raw projection: without it the digest is another. -/
theorem outbox_fingerprints_torn : Sample.torn.Sound ∧
    Legible Sample.codec Sample.torn.records ∧
    Variant Sample.codec Sample.torn (closed Sample.torn) ∧
    outboxDigestOf Sample.codec ((closed Sample.torn).work Sample.digest)
      (closed Sample.torn).layout ≠
        outboxDigestOf Sample.codec (Sample.torn.work Sample.digest) Sample.torn.layout ∧
    ¬ Agrees Sample.codec Sample.digest Sample.torn := by
  have hvariant : Variant Sample.codec Sample.torn (closed Sample.torn) :=
    variant_closed Sample.sound_torn
  have hutf8 : (fromUtf8 Sample.torn.front.torn.1).isSome :=
    Sample.isSome_recordOf Sample.returns_opened
  have hshown : shownTail Sample.torn.records.isEmpty Sample.torn.front.torn =
      [lineOf Sample.record] :=
    Sample.shownTail_recordOf Sample.returns_opened
  have hother : outboxDigestOf Sample.codec ((closed Sample.torn).work Sample.digest)
      (closed Sample.torn).layout ≠
        outboxDigestOf Sample.codec (Sample.torn.work Sample.digest) Sample.torn.layout := by
    intro hsame
    have hknown := tail_known Sample.legible_torn.readable
      (Sample.legible_torn.unmarked Sample.reads_codec) hutf8 hsame (lineOf Sample.record)
      (by rw [hshown]; exact List.mem_singleton.2 rfl) _
      (Sample.entry_recordOf Sample.returns_opened Sample.reads_codec
        Orchestrail.Sample.valid_opened)
    rw [Sample.records_torn, rawEntries, List.filterMap_nil, List.map_nil] at hknown
    exact List.not_mem_nil hknown
  exact ⟨Sample.sound_torn, Sample.legible_torn, hvariant, hother,
    fun h => hother (h.raw (closed Sample.torn) hvariant)⟩

end Orchestrail.Fingerprint
