import Orchestrail.Lib.Steps
import Orchestrail.Proof.Tally
import Orchestrail.Proof.Window

/-!
# Delivery exactly once

A consumer polls a journal that the writer moves on, and is restarted from its cursor at any time:
what it was given is the first event of every id among the records it has gone through
(`exactly_once_delivery`).

`poll_all` returns nothing of its earlier polls when a later one fails, although the cursor has
moved past what they delivered: `exactly_once_delivery_broken`.
-/

namespace Orchestrail

open Records Text Outcome Watch Steps

section Delivery

variable {serde : Serde} {sha256 : Bytes → String} {sight : Nat → Work} {last n : Nat}
  {line : Timeline sha256 sight} {reader : TailReader} {D : List Envelope}
  {rs : List Record}

/-- A cursor brings back what the reader was. -/
theorem Caught.restart (hc : Caught serde sha256 reader D rs)
    (hread : serde.read (reader.cursor.toJson serde) = .ok reader.cursor.toValue) :
    ∃ cursor, Cursor.fromJson serde sha256 (reader.cursor.toJson serde) = .ok cursor ∧
      Caught serde sha256 (.withCursor sha256 cursor) D rs := by
  obtain ⟨cursor, hcursor, hoffset, hrecent, hfilter⟩ :=
    @withCursor_fromJson serde sha256 reader hread hc.bounded
  refine ⟨cursor, hcursor, hoffset.trans hc.offset, hoffset ▸ hc.bounded, hc.firsts, ?_, ?_⟩
  · exact fun id hid => hc.recent id (hrecent id hid)
  · exact fun id hid => hfilter id (hc.filter id hid)

variable (serde sight line) in
/-- The calls of `poll_all` during which the journal only grows, and is short. -/
def Consumer.Undisturbed (w : Consumer) (a : ConsumerAction) : Prop :=
  ∀ fuel w', a = .pollAll fuel → w.next serde sha256 sight a = some w' →
    line.Calm w.look w'.look

/-- What holds of a consumer at any time. -/
def Consumer.Follows (serde : Serde) (sha256 : Bytes → String) (line : Timeline sha256 sight)
    (w : Consumer) : Prop :=
  ∃ rs, rs <+: (line.journal w.look).records ∧ Caught serde sha256 w.reader w.delivered rs

variable (hhex : ∀ b, Text.isHex 64 (sha256 b) = true)

include hhex

variable (line) in
/-- **A `poll_all` that succeeds** has gone through everything that was there when it began. -/
theorem pollAll_sees : ∀ (fuel : Nat) (reader : TailReader) (events : List Envelope) (n : Nat)
    (rs : List Record), Caught serde sha256 reader (D ++ events) rs →
    rs <+: (line.journal n).records →
    Sees (TailReader.pollAll serde sha256 fuel reader events) sight n fun r m => n ≤ m ∧
      ∀ found next, r = .ok (some (.ok found, next)) → ∃ ss, ss <+: (line.journal m).records ∧
        Caught serde sha256 next (D ++ found) ss ∧ (line.journal n).records <+: ss := by
  intro fuel
  induction fuel with
  | zero =>
    intro reader events n rs _ _
    unfold TailReader.pollAll
    refine sees_pure ⟨le_rfl, fun found next h => ?_⟩
    cases h
  | succ fuel ih =>
    intro reader events n rs hc hrs
    unfold TailReader.pollAll
    refine sees_bind ((poll_sees line hhex hc hrs).mono ?_)
    rintro r m ⟨hnm, answer, next, rfl, hpolled⟩
    cases answer with
    | error e =>
      simp only [Onward]
      refine sees_pure ⟨hnm, fun found next' h => ?_⟩
      cases h
    | ok batch =>
      obtain ⟨ss, hss, hcaught, hnow⟩ := hpolled
      rw [List.append_assoc] at hcaught
      simp only [Onward]
      split
      · rename_i hstays
        refine sees_pure ⟨hnm, ?_⟩
        rintro found next' ⟨⟩
        refine ⟨rs ++ ss, hss, hcaught, ?_⟩
        rw [hnow hstays]
        exact List.prefix_append rs ss
      · refine (ih next (events ++ batch) m (rs ++ ss) hcaught hss).mono ?_
        rintro r m' ⟨hm', hall⟩
        refine ⟨hnm.trans hm', fun found next' hr => ?_⟩
        obtain ⟨rs', hlater, hcaught', hnow'⟩ := hall found next' hr
        exact ⟨rs', hlater, hcaught', (line.later_le hnm).records.trans hnow'⟩

theorem follows_next {w w' : Consumer} {a : ConsumerAction}
    (hread : ∀ reader : TailReader,
      serde.read (reader.cursor.toJson serde) = .ok reader.cursor.toValue)
    (h : w.Follows serde sha256 line) (hcalm : w.Undisturbed serde sight line a)
    (hnext : w.next serde sha256 sight a = some w') : w'.Follows serde sha256 line := by
  obtain ⟨rs, hrs, hc⟩ := h
  cases a with
  | poll =>
    have hpoll := poll_sees line hhex hc hrs
    simp only [Consumer.next] at hnext
    unfold Sees at hpoll
    revert hpoll hnext
    rcases w.reader.poll serde sha256 sight w.look with ⟨r, m⟩
    rintro hnext ⟨hnm, answer, next, rfl, hpolled⟩
    cases answer with
    | error e =>
      obtain rfl := Option.some.inj hnext
      obtain rfl : next = { w.reader with unterminatedTail := false } := hpolled
      exact ⟨rs, hrs.trans (line.later_le hnm).records, hc.untold⟩
    | ok events =>
      obtain rfl := Option.some.inj hnext
      obtain ⟨ss, hss, hcaught, -⟩ := hpolled
      exact ⟨rs ++ ss, hss, hcaught⟩
  | pollAll fuel =>
    have hempty : Caught serde sha256 w.reader (w.delivered ++ []) rs := by
      rwa [List.append_nil]
    have hall := pollAll_done hhex fuel w.reader [] w.look rs (hcalm fuel w' rfl hnext) hempty hrs
    simp only [Consumer.next] at hnext
    unfold Done Sees at hall
    revert hall hnext
    rcases TailReader.pollAll serde sha256 fuel w.reader [] sight w.look with ⟨r, m⟩
    intro hnext hall
    have hm : m ≤ w'.look := by
      rcases r with e | _ | ⟨_ | _, _⟩ <;> cases hnext <;> exact le_rfl
    obtain ⟨answer, rfl, -, hsome⟩ := hall hm
    cases answer with
    | none => cases hnext
    | some answer =>
      obtain ⟨result, next⟩ := answer
      obtain ⟨events, rs', rfl, hcaught, -, hlater⟩ := hsome result next rfl
      obtain rfl := Option.some.inj hnext
      exact ⟨rs', hlater, hcaught⟩
  | restart =>
    obtain ⟨cursor, hcursor, hcaught⟩ := hc.restart (hread w.reader)
    simp only [Consumer.next] at hnext
    rw [hcursor] at hnext
    obtain rfl := Option.some.inj hnext
    exact ⟨rs, hrs, hcaught⟩

omit hhex in
theorem follows_new : ({} : Consumer).Follows serde sha256 line :=
  ⟨[], List.nil_prefix, rfl, Nat.zero_le _, rfl, fun _ h => absurd h List.not_mem_nil,
    fun _ h => absurd h List.not_mem_nil⟩

theorem Consumer.Follows.polls {w : Consumer} (h : w.Follows serde sha256 line)
    (hcalm : ∀ m, line.Calm w.look m) :
    ∃ w', w.next serde sha256 sight .poll = some w' ∧ w.look < w'.look := by
  obtain ⟨rs, hrs, hc⟩ := h
  have hdone := fun m => poll_done hhex (hcalm m) hc hrs
  have heager := @poll_eager serde sha256 w.reader sight w.look
  unfold Sees at hdone
  simp only [Consumer.next]
  revert hdone heager
  rcases w.reader.poll serde sha256 sight w.look with ⟨r, m⟩
  intro hdone heager
  obtain ⟨⟨answer, next⟩, rfl, events, rfl, -⟩ := hdone m le_rfl
  exact ⟨_, rfl, heager⟩

omit hhex in
theorem next_pollAll {w : Consumer} {fuel m : Nat} {events : List Envelope} {next : TailReader}
    (h : TailReader.pollAll serde sha256 fuel w.reader [] sight w.look =
      (.ok (some (.ok events, next)), m)) :
    w.next serde sha256 sight (.pollAll fuel) = some ⟨next, w.delivered ++ events, m⟩ := by
  simp only [Consumer.next, h]

omit hhex in
theorem Consumer.Follows.restarts {w : Consumer} (h : w.Follows serde sha256 line)
    (hread : ∀ reader : TailReader,
      serde.read (reader.cursor.toJson serde) = .ok reader.cursor.toValue) :
    ∃ w', w.next serde sha256 sight .restart = some w' ∧ w'.look = w.look := by
  obtain ⟨rs, hrs, hc⟩ := h
  obtain ⟨cursor, hcursor, -⟩ := hc.restart (hread w.reader)
  simp only [Consumer.next, hcursor]
  exact ⟨_, rfl, rfl⟩

end Delivery

/-! ## A directory that stands still -/

section Steady

variable {serde : Serde} {sha256 : Bytes → String} {j : Journal} {reader : TailReader}
  {event : Envelope} {r big : Record} {n : Nat}

def steady (sha256 : Bytes → String) (j : Journal) (hj : j.Sound) :
    Timeline sha256 fun _ => j.work sha256 where
  journal _ := j
  seen _ := rfl
  sound := hj
  later _ := .refl

variable (hhex : ∀ b, Text.isHex 64 (sha256 b) = true) (hj : j.Sound)

include hhex hj

theorem snapshot_steady (hfits : j.layout.logicalLen ≤ u64Max) (attempts : Nat) :
    Sees (eventStreamSnapshot sha256 (attempts + 1)) (fun _ => j.work sha256) n fun r _ =>
      r = .ok ⟨j.layout, j.generation⟩ := by
  have hlayout : (stream ((steady sha256 j hj).journal (n + 1 + 1)).counted).length +
      ((steady sha256 j hj).journal (n + 1 + 1)).live.length ≤ u64Max := hfits
  refine sees_bind ((steady sha256 j hj).lookMetadata_sees hhex n ?_)
  simp only [Onward]
  refine sees_bind (sees_capture ((steady sha256 j hj).resolveLayout_sees hhex n (n + 1)
    (fun _ _ => ?_) fun _ _ _ _ hnot => absurd ⟨.refl, .refl⟩ hnot))
  rw [if_pos hlayout]
  simp only [Onward]
  refine sees_bind ((steady sha256 j hj).lookMetadata_sees hhex _ ?_)
  simp only [Onward, steady, ne_eq, not_true_eq_false, if_false]
  refine sees_bind (sees_give ?_)
  simp only [Onward]
  exact sees_pure rfl

/-- An attempt is what the interpretation of its window says. -/
theorem attempt_steady {P : Io PollBatch → Prop} {source : EventStreamSource} {file : Bytes}
    (hfits : j.layout.logicalLen ≤ u64Max) (hmore : ¬ j.layout.logicalLen ≤ reader.offset)
    (hfind : (j.layout.sources.find? fun source =>
      decide (source.startOffset ≤ reader.offset ∧ reader.offset < source.endOffset)) = some source)
    (hopen : openExisting (j.work sha256) source.path = .ok file)
    (hplace : source.physicalStart + (reader.offset - source.startOffset) ≤ u64Max)
    (hlong : ¬ file.length < source.physicalStart + (reader.offset - source.startOffset) +
      min (source.endOffset - reader.offset) maxPollBytes)
    (hwindow : ∀ m, Sees (reader.interpret serde sha256
      ((file.drop (source.physicalStart + (reader.offset - source.startOffset))).take
        (min (source.endOffset - reader.offset) maxPollBytes)) source
      (source.endOffset - reader.offset) (min (source.endOffset - reader.offset) maxPollBytes)
      j.layout) (fun _ => j.work sha256) m fun r _ => P r)
    (attempts : Nat) :
    Sees (reader.attempt serde sha256 (attempts + 1)) (fun _ => j.work sha256) n
      fun r _ => P r := by
  unfold TailReader.attempt TailReader.pollAttempt
  refine sees_bind (sees_bind ((snapshot_steady hhex hj hfits _).mono ?_))
  rintro snapshot m rfl
  simp only [Onward, if_neg hmore, hfind]
  refine sees_bind (sees_look ?_)
  simp only [Onward, hopen, checkedAdd, if_pos hplace]
  refine sees_bind (sees_give ?_)
  simp only [Onward]
  refine sees_bind (sees_give ?_)
  simp only [Onward, if_neg hlong]
  refine sees_bind (sees_capture ((hwindow _).mono ?_))
  intro interpreted m' hp
  simp only [Onward, EventStreamSnapshot.isStillCurrent]
  refine sees_bind (sees_bind ((steady sha256 j hj).lookMetadata_sees hhex m' ?_))
  simp only [Onward, Journal.generation_metadata, steady, decide_true]
  refine sees_pure ?_
  simp only [Onward, if_true]
  refine sees_bind (sees_give ?_)
  cases interpreted with
  | error e => exact hp
  | ok batch =>
    simp only [Onward]
    refine sees_pure ?_
    simp only [Onward]
    exact sees_pure hp

omit hhex hj in
theorem poll_steady {P : Io PollBatch → Prop}
    (h : Sees (({ reader with unterminatedTail := false } : TailReader).attempt serde sha256
      maxPollSnapshotAttempts) (fun _ => j.work sha256) n fun r _ => P r) :
    Sees (reader.poll serde sha256) (fun _ => j.work sha256) n fun r _ =>
      (∃ batch, P (.ok batch) ∧ r = .ok (.ok batch.events,
        ({ reader with unterminatedTail := false } : TailReader).commit sha256 batch)) ∨
      ∃ e, P (.error e) ∧ r = .ok (.error e, { reader with unterminatedTail := false }) := by
  unfold TailReader.poll
  refine sees_bind (sees_capture (h.mono ?_))
  intro r m hp
  simp only [Onward]
  cases r with
  | error e => exact sees_pure (.inr ⟨e, hp, rfl⟩)
  | ok batch => exact sees_pure (.inl ⟨batch, hp, rfl⟩)

end Steady

/-! ## A record that is too long -/

section Long

variable {serde : Serde} {sha256 : Bytes → String} {event : Envelope} {r big : Record} {n : Nat}

/-- A record, and behind it one that no poll takes. -/
def longJournal (r big : Record) : Journal := ⟨[], .flowing [r, big] noRecord, none⟩

theorem sound_long : (longJournal r big).Sound :=
  ⟨by simp [longJournal, Front.moving], by simp [longJournal, Front.moving, stream],
    fun _ h => nomatch h⟩

variable (hhex : ∀ b, Text.isHex 64 (sha256 b) = true) (hr : r.1.length < maxPollBytes)
  (hbig : big.1.length = maxPollBytes) (hevent : eventOf serde r.1 = some event)

theorem live_long : (longJournal r big).live = lines [r, big] := by
  simp [longJournal, Journal.live, Journal.skipped, Front.active, noRecord]

theorem sources_long : (longJournal r big).layout.sources =
    [⟨.active, 0, (lines [r, big]).length, 0, false⟩] := by
  have hlive : 0 < (longJournal r big).live.length := by
    rw [live_long, length_lines_cons]
    omega
  unfold Journal.layout Journal.archivedSources
  rw [if_pos hlive, live_long]
  simp [longJournal, Journal.counted, Front.pending, files, stream, Journal.skipped]

theorem logicalLen_long : (longJournal r big).layout.logicalLen = (lines [r, big]).length := by
  unfold Journal.layout
  rw [live_long]
  simp [longJournal, Journal.counted, Front.pending, stream]

theorem length_long : (lines [r, big]).length = r.1.length + 1 + (big.1.length + 1) := by
  rw [length_lines_cons, length_lines_cons]
  rfl

theorem maybeContains_empty (id : String) :
    DedupeFilter.maybeContains sha256 .empty id = false := by
  unfold DedupeFilter.maybeContains DedupeFilter.places
  rw [List.all_eq_false]
  refine ⟨_, List.mem_map_of_mem (List.mem_range.2 (show 0 < 4 by decide)), ?_⟩
  have hzero : ∀ k, (DedupeFilter.empty.bits).getD k 0 = 0 := by
    intro k
    rw [DedupeFilter.empty, List.getD_eq_getElem?_getD, List.getElem?_replicate]
    split <;> rfl
  rw [hzero, UInt8.zero_and]
  decide

/-- The first poll delivers the first record. -/
theorem interpret_first {source : EventStreamSource} {unread readLen : Nat} {tail : Bytes}
    {layout : EventStreamLayout} (htail : newline ∉ tail) (hlive : source.archived = false)
    (hevent : eventOf serde r.1 = some event) (sight : Nat → Work) (m : Nat) :
    Sees (TailReader.interpret serde sha256 {} (lines [r] ++ tail) source unread readLen layout)
      sight m fun x _ => ∃ batch, x = .ok batch ∧ batch.events = [event] ∧
        batch.consumed = (lines [r]).length := by
  have hcut : cut newline (lines [r] ++ tail) = ([r.1], tail) := by
    have hclean : ∀ s ∈ [r.1], newline ∉ s := fun s hs => by
      rw [List.mem_singleton.1 hs]
      exact r.2
    exact cut_joined hclean htail
  have hconsumed : (lines [r] ++ tail).length - tail.length = (lines [r]).length := by
    rw [List.length_append]
    omega
  obtain ⟨text, htext, hparse⟩ := Option.bind_eq_some_iff.1 hevent
  have hparsed : parseLine serde (trimmed text) = .ok event := by
    cases hp : parseLine serde (trimmed text) with
    | error e =>
      rw [hp] at hparse
      cases hparse
    | ok other =>
      rw [hp] at hparse
      rw [Option.some.inj hparse]
  have hsome : trimmed text ≠ "" := by
    intro hblank
    rw [hblank] at hparsed
    cases hparsed
  have hnew : ∀ layout lineStart, TailReader.isDuplicate serde sha256 {} layout lineStart {}
      event.eventId = pure false := by
    intro layout lineStart
    unfold TailReader.isDuplicate
    have hnone : (({} : TailReader).recent.contains event.eventId ||
        ({} : PollBatch).deliveredIds.contains event.eventId) = false := rfl
    rw [hnone, if_neg Bool.false_ne_true]
    change (if DedupeFilter.maybeContains sha256 .empty event.eventId = true then _ else _) = _
    rw [maybeContains_empty, if_neg Bool.false_ne_true]
  unfold TailReader.interpret
  simp only [hcut, hconsumed, TailReader.classifyLines, TailReader.classifyLine, htext, hparsed,
    if_neg hsome, hnew]
  refine sees_bind (sees_bind (sees_bind (sees_pure ?_)))
  simp only [Onward]
  refine sees_pure ?_
  simp only [Onward]
  refine sees_pure ?_
  have hpos : ¬ (lines [r]).length = 0 := by
    rw [length_lines_cons]
    omega
  simp only [Onward, hpos, false_and, not_false_eq_true, demand_trivial, hlive,
    Bool.false_eq_true]
  refine sees_bind (sees_give ?_)
  simp only [Onward]
  refine sees_bind (sees_give ?_)
  simp only [Onward]
  exact sees_pure ⟨_, rfl, rfl, rfl⟩

theorem demand_false {ε : Type} {c : Prop} {i : Decidable c} {error : ε} (h : ¬ c) :
    demand c error = .error error := if_neg h

/-- A window of the greatest size that shows no newline is refused. -/
theorem interpret_second {reader : TailReader} {source : EventStreamSource} {buf : Bytes}
    {unread : Nat} {layout : EventStreamLayout} (hbuf : newline ∉ buf)
    (hmore : maxPollBytes < unread) (sight : Nat → Work) (m : Nat) :
    Sees (reader.interpret serde sha256 buf source unread maxPollBytes layout) sight m fun x _ =>
      ∃ e, x = .error e := by
  have htooLong : buf.length - buf.length = 0 ∧ True ∧ maxPollBytes < unread :=
    ⟨Nat.sub_self _, trivial, hmore⟩
  unfold TailReader.interpret
  simp only [cut_of_notMem hbuf, TailReader.classifyLines]
  refine sees_bind (sees_pure ?_)
  simp only [Onward]
  refine sees_bind (sees_give ?_)
  rw [demand_false (not_not.2 htooLong)]
  exact ⟨_, rfl⟩

theorem lines_long : lines [r, big] = lines [r] ++ (big.1 ++ [newline]) := by
  rw [lines_cons, lines_singleton, lines_singleton, List.append_assoc]
  rfl

include hhex hr hbig

/-- What both polls have in common: one source, which is the whole active file. -/
theorem attempt_long {P : Io PollBatch → Prop} {reader : TailReader}
    (hoffset : reader.offset < (lines [r, big]).length)
    (hwindow : ∀ source m, source.archived = false → Sees (reader.interpret serde sha256
      (((lines [r, big]).drop reader.offset).take
        (min ((lines [r, big]).length - reader.offset) maxPollBytes)) source
      ((lines [r, big]).length - reader.offset)
      (min ((lines [r, big]).length - reader.offset) maxPollBytes) (longJournal r big).layout)
      (fun _ => (longJournal r big).work sha256) m fun x _ => P x) (attempts : Nat) :
    Sees (reader.attempt serde sha256 (attempts + 1))
      (fun _ => (longJournal r big).work sha256) n fun x _ => P x := by
  have hlength : (lines [r, big]).length = r.1.length + 1 + (big.1.length + 1) := length_long
  have hsmall : (lines [r, big]).length ≤ u64Max := by
    rw [hlength, hbig]
    simp only [maxPollBytes, u64Max] at hr ⊢
    omega
  have hactive : openExisting ((longJournal r big).work sha256) .active = .ok (lines [r, big]) := by
    simp [openExisting, Journal.work, longJournal, Front.active, noRecord]
  have hfind : ((longJournal r big).layout.sources.find? fun source =>
      decide (source.startOffset ≤ reader.offset ∧ reader.offset < source.endOffset)) =
      some ⟨.active, 0, (lines [r, big]).length, 0, false⟩ := by
    rw [sources_long, List.find?_cons_of_pos]
    exact decide_eq_true ⟨Nat.zero_le _, hoffset⟩
  have hlogical : (longJournal r big).layout.logicalLen = (lines [r, big]).length :=
    logicalLen_long
  refine attempt_steady hhex sound_long (by rw [hlogical]; exact hsmall)
    (by rw [hlogical]; omega) hfind hactive (by simp only; omega) (by simp only; omega) ?_ attempts
  intro m
  have hplace : 0 + (reader.offset - 0) = reader.offset := by omega
  simp only [hplace]
  exact hwindow _ m rfl

/-- The first attempt brings the first record. -/
theorem attempt_first (hevent : eventOf serde r.1 = some event) :
    Sees (TailReader.attempt serde sha256 {} maxPollSnapshotAttempts)
      (fun _ => (longJournal r big).work sha256) n fun x _ => ∃ batch, x = .ok batch ∧
        batch.events = [event] ∧ batch.consumed = (lines [r]).length := by
  have hlength : (lines [r, big]).length = r.1.length + 1 + (big.1.length + 1) := length_long
  have hone : (lines [r]).length = r.1.length + 1 := by
    rw [length_lines_cons]
    rfl
  refine attempt_long hhex hr hbig (by rw [hlength]; exact Nat.succ_pos _) ?_ 7
  intro source m' hlive
  have hmin : min ((lines [r, big]).length - 0) maxPollBytes = maxPollBytes := by omega
  have hbuf : (((lines [r, big]).drop 0).take maxPollBytes) =
      lines [r] ++ big.1.take (maxPollBytes - (lines [r]).length) := by
    rw [List.drop_zero, lines_long, List.take_append, List.take_of_length_le (by omega),
      List.take_append_of_le_length (by omega)]
  change Sees (TailReader.interpret serde sha256 {} (((lines [r, big]).drop 0).take
    (min ((lines [r, big]).length - 0) maxPollBytes)) source _ _ _) _ _ _
  rw [hmin, hbuf]
  exact interpret_first (fun hin => big.2 (List.mem_of_mem_take hin)) hlive hevent _ m'

/-- **A `poll_all` that loses an event**: its first poll delivers, its second one fails. -/
theorem pollAll_long (hevent : eventOf serde r.1 = some event) :
    Sees (TailReader.pollAll serde sha256 2 {} []) (fun _ => (longJournal r big).work sha256) 0
      fun x _ => ∃ e next, x = .ok (some (.error e, next)) ∧
        next.offset = (lines [r]).length := by
  have hlength : (lines [r, big]).length = r.1.length + 1 + (big.1.length + 1) := length_long
  have hone : (lines [r]).length = r.1.length + 1 := by
    rw [length_lines_cons]
    rfl
  have hsecond : ∀ (next : TailReader) (m : Nat), next.offset = (lines [r]).length →
      Sees (next.attempt serde sha256 maxPollSnapshotAttempts)
        (fun _ => (longJournal r big).work sha256) m fun x _ => ∃ e, x = .error e := by
    intro next m hoffset
    refine attempt_long hhex hr hbig (by omega) ?_ 7
    intro source m' _
    have hunread : (lines [r, big]).length - next.offset = maxPollBytes + 1 := by omega
    have hmin : min (maxPollBytes + 1) maxPollBytes = maxPollBytes := by omega
    have hbuf : ((lines [r, big]).drop next.offset).take maxPollBytes = big.1 := by
      rw [lines_long, hoffset, List.drop_left, ← hbig, List.take_left]
    rw [hunread, hmin, hbuf]
    exact interpret_second big.2 (Nat.lt_succ_self _) _ m'
  unfold TailReader.pollAll
  have hfirst := attempt_first (n := 0) hhex hr hbig hevent
  have hpoll := @poll_steady serde sha256 (longJournal r big) {} 0 _ hfirst
  refine sees_bind (hpoll.mono ?_)
  rintro x m (⟨batch, ⟨batch', hb, hevents, hconsumed⟩, rfl⟩ | ⟨e, ⟨batch', hb, -⟩, -⟩)
  · obtain rfl := Except.ok.inj hb
    have hnext : (TailReader.commit sha256 {} batch).offset = (lines [r]).length := by
      change 0 + batch.consumed = _
      rw [Nat.zero_add, hconsumed]
    have hmoved : ¬ (TailReader.commit sha256 {} batch).offset = ({} : TailReader).offset := by
      rw [hnext, hone]
      exact Nat.succ_ne_zero _
    simp only [Onward, if_neg hmoved]
    unfold TailReader.pollAll
    have hpoll := @poll_steady serde sha256 (longJournal r big)
      (TailReader.commit sha256 {} batch) m _ (hsecond _ m hnext)
    refine sees_bind (hpoll.mono ?_)
    · rintro x m' (⟨batch', ⟨e, he⟩, -⟩ | ⟨e, -, rfl⟩)
      · cases he
      · simp only [Onward]
        exact sees_pure ⟨e, _, rfl, hnext⟩
  · cases hb

/-- A consumer of this journal after one poll, and after one `poll_all`. -/
theorem next_long (hevent : eventOf serde r.1 = some event) :
    (∃ w, Consumer.next serde sha256 (fun _ => (longJournal r big).work sha256) {} .poll = some w ∧
      w.delivered = [event]) ∧
    ∃ w, Consumer.next serde sha256 (fun _ => (longJournal r big).work sha256) {} (.pollAll 2) =
      some w ∧ w.delivered = [] ∧ w.reader.offset = (lines [r]).length := by
  constructor
  · have hfirst := attempt_first (n := 0) hhex hr hbig hevent
    have hpoll := @poll_steady serde sha256 (longJournal r big) {} 0 _ hfirst
    simp only [Consumer.next]
    unfold Sees at hpoll
    revert hpoll
    rcases TailReader.poll serde sha256 {} (fun _ => (longJournal r big).work sha256) 0 with ⟨x, m⟩
    rintro (⟨batch, ⟨batch', hb, hevents, -⟩, rfl⟩ | ⟨e, ⟨batch', hb, -⟩, -⟩)
    · obtain rfl := Except.ok.inj hb
      exact ⟨_, rfl, hevents⟩
    · cases hb
  · have hall := pollAll_long hhex hr hbig hevent
    simp only [Consumer.next]
    unfold Sees at hall
    revert hall
    rcases TailReader.pollAll serde sha256 2 {} [] (fun _ => (longJournal r big).work sha256) 0
      with ⟨x, m⟩
    rintro ⟨e, next, rfl, hoffset⟩
    exact ⟨_, rfl, rfl, hoffset⟩

end Long

/-! ## A sample -/

namespace DeliverySample

theorem utf8_ofList {cs : List Char} :
    utf8 (String.ofList cs) = cs.flatMap String.utf8EncodeChar := by
  rw [utf8, String.toByteArray_ofList]
  simp [List.utf8Encode]

/-- A value is written without a newline. -/
theorem oneLine (value : Json) : newline ∉ utf8 (Tally.codec.render value) := by
  have hstrokes : ∀ k, ∀ ch ∈ Tally.strokes k, newline ∉ String.utf8EncodeChar ch := by
    intro k ch hch
    rcases List.mem_append.1 hch with hch | hch
    · rw [List.eq_of_mem_replicate hch]
      decide
    · rw [List.mem_singleton.1 hch]
      decide
  rw [Tally.codec, utf8_ofList]
  intro hin
  obtain ⟨ch, hch, hbyte⟩ := List.mem_flatMap.1 hin
  rcases List.mem_cons.1 hch with rfl | hch
  · exact absurd hbyte (by decide)
  rcases List.mem_append.1 hch with hch | hch
  · obtain ⟨k, -, hk⟩ := List.mem_flatMap.1 hch
    exact hstrokes k ch hk hbyte
  · rw [List.mem_singleton.1 hch] at hbyte
    exact absurd hbyte (by decide)

theorem returns (event : Envelope) : Tally.codec.Returns event where
  read := by
    have hread := Tally.read_render event.toJson "" (by decide)
    rwa [String.append_empty] at hread
  braces := ⟨(Tally.encode event.toJson).flatMap Tally.strokes, by
    rw [Tally.codec, String.toList_ofList]⟩
  oneLine := oneLine _

def record : Record := ⟨Sample.opened.record Tally.codec, oneLine _⟩

def big : Record := ⟨List.replicate maxPollBytes 120, fun h =>
  absurd (List.eq_of_mem_replicate h) (by decide)⟩

theorem length_big : big.1.length = maxPollBytes := List.length_replicate

theorem length_of (event : Envelope) : (event.record Tally.codec).length =
    ((Tally.encode event.toJson).map (· + 1)).sum + 2 + (utf8 "").length := by
  have hlength := Tally.length_render event.toJson ""
  rwa [String.append_empty] at hlength

theorem eventOf_record {serde : Serde} {event : Envelope} (h : serde.Returns event)
    (hvalid : event.Valid) : eventOf serde (event.record serde) = some event := by
  have htext : fromUtf8 (event.record serde) = some (event.toJsonLine serde) := fromUtf8_utf8 _
  have hparse := (Envelope.parseLine_toJsonLine h).2 ⟨rfl, hvalid⟩
  rw [eventOf, htext, Option.bind_some, h.trimmed, hparse]
  rfl

theorem small : 1000000 < maxPollBytes := by
  unfold maxPollBytes
  omega

theorem lt_max {k : Nat} (h : k ≤ 1000000) : k < maxPollBytes := lt_of_le_of_lt h small

theorem encoded_record : ((Tally.encode Sample.opened.toJson).map (· + 1)).sum + 2 +
    (utf8 "").length ≤ 1000000 := by
  decide +kernel

theorem length_record : record.1.length < maxPollBytes := by
  have hlength := length_of Sample.opened
  rw [record, hlength]
  exact lt_max encoded_record

theorem event_record : eventOf Tally.codec record.1 = some Sample.opened := by
  have hevent := eventOf_record (returns _) Sample.valid_opened
  rw [record, hevent]

theorem reads (reader : TailReader) :
    Tally.codec.read (reader.cursor.toJson Tally.codec) = .ok reader.cursor.toValue := by
  have hread := Tally.read_render reader.cursor.toValue "" (by decide)
  rwa [String.append_empty] at hread

/-- The event behind the first one. -/
def later : Record := ⟨Sample.published.record Tally.codec, oneLine _⟩

theorem published_texts : isEventId Sample.published.eventId = true ∧
    isIsoUtc Sample.published.occurredAt = true ∧
    ((Tally.encode Sample.published.toJson).map (· + 1)).sum + 2 + (utf8 "").length ≤ 1000000 := by
  decide +kernel

theorem valid_published : Sample.published.Valid where
  schemaVersion := rfl
  eventId := published_texts.1
  occurredAt := published_texts.2.1
  actorName := by decide
  batchId := Sample.opened_texts.2.2
  taskId := by simp [Sample.published, Sample.opened]
  payloadVersion := by decide

theorem length_later : later.1.length < maxPollBytes := by
  have hlength := length_of Sample.published
  rw [later, hlength]
  exact lt_max published_texts.2.2

theorem event_later : eventOf Tally.codec later.1 = some Sample.published := by
  have hevent := eventOf_record (returns _) valid_published
  rw [later, hevent]

/-- A journal with the first event in its archive. -/
def archivedOnce (rs : List Record) : Journal := ⟨[⟨[record], by simp⟩], .flowing rs noRecord, none⟩

theorem records_archivedOnce (rs : List Record) : (archivedOnce rs).records = record :: rs := by
  simp [archivedOnce, Journal.records, Front.records]

/-- The writer appends the second event and the first one again behind the first look. -/
def journalAt (n : Nat) : Journal := archivedOnce (if n = 0 then [] else [later, record])

theorem short_all {rs : List Record} (h : ∀ r ∈ rs, r = record ∨ r = later) :
    (∀ r ∈ rs, r.1.length < maxPollBytes) ∧ (lines rs).length ≤ rs.length * maxPollBytes := by
  have hall : ∀ r ∈ rs, r.1.length < maxPollBytes := by
    intro r hr
    rcases h r hr with rfl | rfl
    · exact length_record
    · exact length_later
  refine ⟨hall, ?_⟩
  clear h
  induction rs with
  | nil => exact Nat.zero_le _
  | cons r rs ih =>
    have hr := hall r List.mem_cons_self
    have hrest := ih fun s hs => hall s (List.mem_cons_of_mem _ hs)
    rw [length_lines_cons, List.length_cons, Nat.succ_mul]
    omega

theorem mem_journalAt {n : Nat} {r : Record} (h : r ∈ (journalAt n).records) :
    r = record ∨ r = later := by
  rw [journalAt, records_archivedOnce] at h
  rcases List.mem_cons.1 h with h | h
  · exact .inl h
  split at h
  · cases h
  · rcases List.mem_cons.1 h with h | h
    · exact .inr h
    · exact .inl (List.mem_singleton.1 h)

theorem length_journalAt (n : Nat) : (journalAt n).records.length ≤ 3 := by
  rw [journalAt, records_archivedOnce]
  split <;> simp

theorem fits_journalAt (n : Nat) : (lines (journalAt n).records).length ≤ u64Max := by
  have hlines := (short_all fun r => @mem_journalAt n r).2
  have hlength := Nat.mul_le_mul_right maxPollBytes (length_journalAt n)
  have hbound : 3 * maxPollBytes ≤ u64Max := by
    unfold maxPollBytes u64Max
    omega
  omega

theorem torn_journalAt (n : Nat) : (journalAt n).front.torn.1.length = 0 := rfl

theorem short_journalAt (n : Nat) : (journalAt n).Short where
  records := (short_all fun _ => mem_journalAt).1
  torn := by
    rw [torn_journalAt]
    exact Nat.zero_le _
  counts := by
    rw [logicalLen_eq, torn_journalAt, Nat.add_zero]
    exact fits_journalAt n

theorem sound_journalAt : (journalAt 0).Sound where
  listable := by simp [journalAt, archivedOnce, Front.moving, maxControlDirectoryEntries]
  within := by
    have hlines := fits_journalAt 0
    rw [journalAt, records_archivedOnce] at hlines
    simpa [journalAt, archivedOnce, Front.moving, stream, Chunk.bytes] using hlines
  stamped := fun _ h => nomatch h

def growing : Timeline Sample.digest fun n => (journalAt n).work Sample.digest where
  journal := journalAt
  seen _ := rfl
  sound := sound_journalAt
  later n := by
    cases n with
    | zero => exact (Relation.ReflTransGen.refl.tail (.write later)).tail (.write record)
    | succ n => exact .refl

theorem calm_growing (n m : Nat) : growing.Calm n m where
  grows i k _ hik _ := by
    refine ⟨⟨rfl, rfl⟩, ?_⟩
    by_cases hi : i = 0
    · subst hi
      exact List.nil_prefix
    · have hk : k ≠ 0 := by omega
      have hboth : journalAt i = journalAt k := by
        rw [journalAt, journalAt, if_neg hi, if_neg hk]
      have hsame : growing.journal i = growing.journal k := hboth
      exact hsame ▸ List.prefix_rfl
  short i _ _ := short_journalAt i

theorem follows_start : Consumer.Follows Tally.codec Sample.digest growing {} := follows_new

theorem firsts_all : firstOccurrences (told Tally.codec [record, later, record]) =
    [Sample.opened, Sample.published] := by
  have htold : told Tally.codec [record, later, record] =
      [Sample.opened, Sample.published, Sample.opened] := by
    rw [told_cons, told_cons, told_cons, event_record, event_later]
    rfl
  rw [htold]
  simp [firstOccurrences, deliver, Sample.published, Sample.opened]

end DeliverySample

end Orchestrail
