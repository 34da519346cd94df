import Orchestrail.Proof.IndexFile
import Orchestrail.Spec.Outbox
import Mathlib.Logic.Relation

/-!
# The event journal as records

What the directory is for: one sequence of records, the older ones in archived chunks, and a front
where the stream goes on. `Journal.work` writes a journal down as the files of the directory;
`Tick` is what one durable step may do to it. A transfer moves the records of the front into the
archive in four ticks, and none of them changes the sequence.

* `rotationState_work`, `eventStream_work`: the source's reading of the files, for every journal.
-/

namespace Orchestrail

open Records Durable Outcome

/-- The bytes of a line without its newline. -/
abbrev Record := { r : Bytes // newline ∉ r }

def noRecord : Record := ⟨[], List.not_mem_nil⟩

/-- Records written down. -/
def lines (rs : List Record) : Bytes := joined newline (rs.map Subtype.val)

theorem lines_append {rs ss : List Record} : lines (rs ++ ss) = lines rs ++ lines ss := by
  simp [lines]

theorem lines_singleton {r : Record} : lines [r] = r.1 ++ [newline] := by
  simp [lines]

theorem lines_eq_nil {rs : List Record} : lines rs = [] ↔ rs = [] := by
  rw [lines, joined_eq_nil, List.map_eq_nil_iff]

/-- Records end where their last newline is. -/
theorem lines_eq_concat {rs : List Record} (h : rs ≠ []) : ∃ l, lines rs = l ++ [newline] := by
  have hne : rs.map Subtype.val ≠ [] := fun he => h (List.map_eq_nil_iff.1 he)
  have hlast : (joined newline (rs.map Subtype.val)).getLast? = some newline := getLast?_joined hne
  obtain ⟨l, hl⟩ := List.getLast?_eq_some_iff.1 hlast
  exact ⟨l, hl⟩

/-- **The committed part of a file** is its records, unless the tail is too long to look past. -/
theorem committedPrefixLen_lines (rs : List Record) (t : Record)
    (ht : t.1.length ≤ maxEventLineBytes) :
    committedPrefixLen (lines rs ++ t.1) = .ok (lines rs).length := by
  have hnone : rposition newline t.1 = none := rposition_of_notMem t.2
  unfold committedPrefixLen
  by_cases hrs : rs = []
  · subst hrs
    have hnil : lines [] = [] := rfl
    simp only [hnil, List.nil_append, List.length_nil]
    by_cases hz : t.1.length = 0
    · rw [if_pos hz]
    · have hlast : t.1.getLast? ≠ some newline := fun h => t.2 (List.mem_of_getLast? h)
      rw [if_neg hz, if_neg hlast, Nat.min_eq_left (by omega), Nat.sub_self, List.drop_zero, hnone]
      simp only [if_pos ht]
  · obtain ⟨l, hl⟩ := lines_eq_concat hrs
    rw [hl]
    by_cases hz : t.1 = []
    · simp [hz]
    · have hlast : (l ++ [newline] ++ t.1).getLast? ≠ some newline := by
        rw [List.getLast?_append_of_ne_nil _ hz]
        exact fun h => t.2 (List.mem_of_getLast? h)
      have hpos := List.length_pos_iff.2 hz
      have hlen : (l ++ [newline] ++ t.1).length = l.length + 1 + t.1.length := by
        simp
        omega
      rw [if_neg (by omega), if_neg hlast]
      simp only [hlen]
      generalize hk : l.length + 1 + t.1.length -
        min (l.length + 1 + t.1.length) (maxEventLineBytes + 1) = k
      have hkl : k ≤ l.length := by omega
      have hdrop : (l ++ [newline] ++ t.1).drop k = l.drop k ++ newline :: t.1 := by
        rw [List.append_assoc, List.drop_append_of_le_length hkl]
        rfl
      rw [hdrop, rposition_tail t.2]
      simp only [List.length_drop, List.length_append, List.length_singleton]
      congr 1
      omega

theorem committedPrefixLen_long (rs : List Record) (t : Record)
    (ht : maxEventLineBytes < t.1.length) :
    ∃ e, committedPrefixLen (lines rs ++ t.1) = .error e := by
  have hne : t.1 ≠ [] := List.length_pos_iff.1 (by omega)
  have hlast : (lines rs ++ t.1).getLast? ≠ some newline := by
    rw [List.getLast?_append_of_ne_nil _ hne]
    exact fun h => t.2 (List.mem_of_getLast? h)
  have hlen : (lines rs ++ t.1).length = (lines rs).length + t.1.length := List.length_append
  have hnone : rposition newline ((lines rs ++ t.1).drop
      ((lines rs ++ t.1).length - min (lines rs ++ t.1).length (maxEventLineBytes + 1))) = none := by
    obtain ⟨k, hk⟩ : ∃ k, (lines rs ++ t.1).length -
        min (lines rs ++ t.1).length (maxEventLineBytes + 1) = (lines rs).length + k :=
      ⟨t.1.length - (maxEventLineBytes + 1), by omega⟩
    rw [hk, List.drop_append, List.drop_of_length_le (by omega), List.nil_append]
    exact rposition_of_notMem fun hm => t.2 (List.mem_of_mem_drop hm)
  unfold committedPrefixLen
  rw [if_neg (by omega), if_neg hlast]
  simp only [hnone]
  rw [if_neg (by omega)]
  exact ⟨_, rfl⟩

/-- What one transfer moves. -/
structure Chunk where
  records : List Record
  nonempty : records ≠ []

def Chunk.bytes (c : Chunk) : Bytes := lines c.records

theorem Chunk.length_pos (c : Chunk) : 0 < c.bytes.length := by
  rw [List.length_pos_iff, Chunk.bytes, ne_eq, lines_eq_nil]
  exact c.nonempty

/-- Where the stream goes on, and how far a transfer of it has come. -/
inductive Front where
  /-- the active file: its records and a tail that is not closed -/
  | flowing (records : List Record) (torn : Record)
  /-- the segment is there, but not counted -/
  | copied (chunk : Chunk)
  /-- the segment is counted, and the active file still carries it -/
  | counted (chunk : Chunk)
  /-- the active file is replaced, and the index still expects it -/
  | emptied (chunk : Chunk)

namespace Front

def records : Front → List Record
  | .flowing rs _ => rs
  | .copied c | .counted c | .emptied c => c.records

/-- The chunk whose segment is in the archive directory. -/
def moving : Front → List Chunk
  | .flowing .. => []
  | .copied c | .counted c | .emptied c => [c]

/-- The chunk the index counts and still expects in the active file. -/
def pending : Front → List Chunk
  | .flowing .. | .copied _ => []
  | .counted c | .emptied c => [c]

/-- The chunk that is visible and not counted. -/
def orphan : Front → List Chunk
  | .copied c => [c]
  | _ => []

def active : Front → Bytes
  | .flowing rs torn => lines rs ++ torn.1
  | .copied c | .counted c => c.bytes
  | .emptied _ => []

def torn : Front → Record
  | .flowing _ t => t
  | _ => noRecord

theorem moving_eq (f : Front) : f.moving = f.pending ++ f.orphan := by
  cases f <;> rfl

end Front

/-- The bytes of several chunks, one after the other. -/
def stream (cs : List Chunk) : Bytes := cs.flatMap Chunk.bytes

theorem stream_append {cs ds : List Chunk} : stream (cs ++ ds) = stream cs ++ stream ds := by
  simp [stream]

/-- The archive files of some chunks, numbered from `sequence` and placed from `start` on. -/
def files (sequence start : Nat) : List Chunk → List ArchiveFile
  | [] => []
  | c :: cs =>
    ⟨sequence, start, start + c.bytes.length, c.bytes⟩ ::
      files (sequence + 1) (start + c.bytes.length) cs

structure Journal where
  archived : List Chunk := []
  front : Front := .flowing [] noRecord
  /-- what the index says of the last transfer -/
  stamp : Option String := none

namespace Journal

/-- The whole sequence. -/
def records (j : Journal) : List Record := j.archived.flatMap Chunk.records ++ j.front.records

/-- The chunks the index counts. -/
def counted (j : Journal) : List Chunk := j.archived ++ j.front.pending

/-- What the index says of the last transfer; nothing, when there is no index yet. -/
def time (j : Journal) : Option String := if j.counted = [] then none else j.stamp

section Image

variable (sha256 : Bytes → String) (j : Journal)

def metadata : RotationMetadata where
  schemaVersion := 1
  generation := 2 * j.archived.length + j.front.pending.length
  segmentCount := j.counted.length
  archivedLen := (stream j.counted).length
  activePrefixBytes := (stream j.front.pending).length
  activePrefixSha256 := j.front.pending.head?.map fun c => sha256 c.bytes
  lastRotationAt := j.time

/-- The files of the directory. The index is first written when a segment is first counted. -/
def work : Work where
  index := if j.counted = [] then none else some (j.metadata sha256)
  archive := files 1 0 (j.archived ++ j.front.moving)
  active := j.front.active
  appended := lines j.records

end Image

/-- What the files can be read under. -/
structure Sound (j : Journal) : Prop where
  listable : (j.archived ++ j.front.moving).length ≤ maxControlDirectoryEntries
  within : (stream (j.archived ++ j.front.moving)).length ≤ u64Max
  stamped : ∀ t ∈ j.stamp, t.utf8ByteSize ≤ maxRotationTimestampBytes

/-- One durable step. -/
inductive Tick : Journal → Journal → Prop
  | write {A rs s} (r : Record) :
    Tick ⟨A, .flowing rs noRecord, s⟩ ⟨A, .flowing (rs ++ [r]) noRecord, s⟩
  | tear {A rs s} (t : Record) : Tick ⟨A, .flowing rs noRecord, s⟩ ⟨A, .flowing rs t, s⟩
  | repair {A rs s t} : Tick ⟨A, .flowing rs t, s⟩ ⟨A, .flowing rs noRecord, s⟩
  | copy {A s} (c : Chunk) : A.length < maxControlDirectoryEntries →
    (stream (A ++ [c])).length ≤ u64Max →
    Tick ⟨A, .flowing c.records noRecord, s⟩ ⟨A, .copied c, s⟩
  | count {A c s} (s' : Option String) : (∀ t ∈ s', t.utf8ByteSize ≤ maxRotationTimestampBytes) →
    Tick ⟨A, .copied c, s⟩ ⟨A, .counted c, s'⟩
  | empty {A c s} : Tick ⟨A, .counted c, s⟩ ⟨A, .emptied c, s⟩
  | settle {A c s} : Tick ⟨A, .emptied c, s⟩ ⟨A ++ [c], .flowing [] noRecord, s⟩

variable {j j' : Journal} {sha256 : Bytes → String}

/-- **The ticks keep the files readable.** -/
theorem Tick.sound (h : Tick j j') (hj : j.Sound) : j'.Sound := by
  obtain ⟨h1, h2, h3⟩ := hj
  cases h with
  | write | tear | repair => exact ⟨h1, h2, h3⟩
  | copy c hlen hfits => exact ⟨by simp [Front.moving]; omega, hfits, h3⟩
  | count s' hs => exact ⟨h1, h2, hs⟩
  | empty => exact ⟨h1, h2, h3⟩
  | settle => exact ⟨by simpa [Front.moving] using h1, by simpa [Front.moving] using h2, h3⟩

/-- **What a tick does to the sequence**: it adds one record at the end, or nothing. -/
theorem Tick.records (h : Tick j j') : j'.records = j.records ∨ ∃ r, j'.records = j.records ++ [r] := by
  cases h with
  | write r => exact .inr ⟨r, by simp [Journal.records, Front.records]⟩
  | _ => left; simp [Journal.records, Front.records]

end Journal

/-! ## Reading the files -/

section Files

variable {n start : Nat} {cs ds : List Chunk}

theorem files_append : files n start (cs ++ ds) =
    files n start cs ++ files (n + cs.length) (start + (stream cs).length) ds := by
  induction cs generalizing n start with
  | nil => simp [files, stream]
  | cons c cs ih =>
    have hn : n + 1 + cs.length = n + (c :: cs).length := by simp; omega
    have hs : start + c.bytes.length + (stream cs).length = start + (stream (c :: cs)).length := by
      simp [stream, Nat.add_assoc]
    rw [List.cons_append, files, ih, files, List.cons_append, hn, hs]

theorem length_files : (files n start cs).length = cs.length := by
  induction cs generalizing n start with
  | nil => rfl
  | cons c cs ih => rw [files, List.length_cons, ih, List.length_cons]

theorem sequence_le {f : ArchiveFile} (h : f ∈ files n start cs) : n ≤ f.sequence := by
  induction cs generalizing n start with
  | nil => simp [files] at h
  | cons c cs ih =>
    rcases List.mem_cons.1 h with rfl | h
    · exact le_rfl
    · have := ih h
      omega

theorem sequence_lt {f : ArchiveFile} (h : f ∈ files n start cs) : f.sequence < n + cs.length := by
  induction cs generalizing n start with
  | nil => simp [files] at h
  | cons c cs ih =>
    rw [List.length_cons]
    rcases List.mem_cons.1 h with rfl | h
    · simp only
      omega
    · have := ih h
      omega

/-- The files are listed by sequence already. -/
theorem pairwise_files :
    ((files n start cs).map ArchiveFile.segment).Pairwise fun a b => a.sequence ≤ b.sequence := by
  rw [List.pairwise_map]
  induction cs generalizing n start with
  | nil => exact List.Pairwise.nil
  | cons c cs ih =>
    refine List.pairwise_cons.2 ⟨fun f hf => ?_, ih⟩
    have := sequence_le hf
    simp only [ArchiveFile.segment]
    omega

theorem checkCommitted_files : checkCommitted n start ((files n start cs).map ArchiveFile.segment) =
    .ok (start + (stream cs).length) := by
  induction cs generalizing n start with
  | nil => simp [files, checkCommitted, stream]
  | cons c cs ih =>
    have hpos := c.length_pos
    simp only [files, List.map_cons, ArchiveFile.segment, checkCommitted]
    rw [if_neg (by omega), ih]
    simp [stream, Nat.add_assoc]

/-- A file is found by the numbers in its name. -/
theorem find_files {f : ArchiveFile} (h : f ∈ files n start cs) :
    ((files n start cs).find? fun g => g.sequence = f.sequence ∧ g.startOffset = f.startOffset ∧
      g.endOffset = f.endOffset) = some f := by
  induction cs generalizing n start with
  | nil => simp [files] at h
  | cons c cs ih =>
    rw [files, List.find?_cons]
    rcases List.mem_cons.1 h with rfl | h
    · simp
    · have hlt := sequence_le h
      have hne : n ≠ f.sequence := by omega
      simp only [hne, false_and, decide_false]
      exact ih h

end Files

namespace Journal

variable {sha256 : Bytes → String} {j : Journal}

/-- The counted chunks, and behind them the orphan, are what the directory holds. -/
theorem visible_eq (j : Journal) : j.archived ++ j.front.moving = j.counted ++ j.front.orphan := by
  rw [counted, Front.moving_eq, List.append_assoc]

theorem Sound.counted_le (h : j.Sound) : j.counted.length ≤ maxControlDirectoryEntries := by
  have := h.listable
  rw [visible_eq, List.length_append] at this
  omega

theorem Sound.stream_counted_le (h : j.Sound) : (stream j.counted).length ≤ u64Max := by
  have := h.within
  rw [visible_eq, stream_append, List.length_append] at this
  omega

theorem length_pending_le (j : Journal) : j.front.pending.length ≤ 1 := by
  cases h : j.front <;> simp [Front.pending]

section Reading

variable (hhex : ∀ b, Text.isHex 64 (sha256 b) = true)

include hhex

theorem metadata_bounded (h : j.Sound) : (j.metadata sha256).Bounded := by
  have hcount := h.counted_le
  have hstream := h.stream_counted_le
  have hpending := length_pending_le j
  have hlen : j.counted.length = j.archived.length + j.front.pending.length := by simp [counted]
  have hlen' : (stream j.counted).length =
      (stream j.archived).length + (stream j.front.pending).length := by
    rw [counted, stream_append, List.length_append]
  simp only [maxControlDirectoryEntries, u64Max] at *
  constructor
  · simp [metadata, u64Max]
  · simp only [metadata, u64Max]; omega
  · simp only [metadata, u64Max]; omega
  · simp only [metadata, u64Max]; omega
  · simp only [metadata, u64Max]; omega
  · intro d hd
    simp only [metadata, Option.mem_def, Option.map_eq_some_iff] at hd
    obtain ⟨c, -, rfl⟩ := hd
    exact (utf8ByteSize_jsonQuoted_hex (hhex _)).2.le
  · intro t ht
    simp only [metadata, time] at ht
    split at ht
    · cases ht
    · exact h.stamped t ht

/-- The index is read back as it was written. -/
theorem load_work (h : j.Sound) : loadRotationMetadata (j.work sha256) = .ok (j.metadata sha256) := by
  by_cases hc : j.counted = []
  · obtain ⟨ha, hp⟩ := List.append_eq_nil_iff.1 hc
    simp only [loadRotationMetadata, work, metadata, time, emptyRotationMetadata, ha, hp, hc]
    rfl
  · have hsize := utf8ByteSize_rotationMetadataPayload (metadata_bounded hhex h)
    have hbound : ¬ RotationLimits.standard.maxMetadataBytes <
        (rotationMetadataPayload (j.metadata sha256)).utf8ByteSize := by
      simpa [RotationLimits.standard] using hsize
    simp only [loadRotationMetadata, work, if_neg hc, if_neg hbound]
    simp [metadata]

omit hhex in
theorem listed_work (h : j.Sound) : listedArchiveSegments (j.work sha256) =
    .ok ((files 1 0 (j.archived ++ j.front.moving)).map ArchiveFile.segment) := by
  have hle : ¬ maxControlDirectoryEntries < (j.work sha256).archive.length := by
    simpa [work, length_files] using h.listable
  rw [listedArchiveSegments, if_neg hle]
  simp only [work]
  rw [List.mergeSort_of_pairwise (by simpa using pairwise_files)]

/-- The segments the index counts, and the one it does not. -/
def orphanFiles (j : Journal) : List ArchiveFile :=
  files (j.counted.length + 1) (stream j.counted).length j.front.orphan

omit hhex in
theorem visible_files (j : Journal) : files 1 0 (j.archived ++ j.front.moving) =
    files 1 0 j.counted ++ j.orphanFiles := by
  rw [visible_eq, files_append, orphanFiles, Nat.zero_add, Nat.add_comm 1]

omit hhex in
theorem getLast_pending {c : Chunk} (hc : c ∈ j.front.pending) :
    ((files 1 0 j.counted).map ArchiveFile.segment).getLast?.map (·.len) = some c.bytes.length ∧
      j.front.pending = [c] := by
  have hp : j.front.pending = [c] := by
    cases hf : j.front <;> rw [hf] at hc <;> simp_all [Front.pending]
  refine ⟨?_, hp⟩
  rw [counted, hp, files_append]
  simp [files, ArchiveFile.segment]

theorem checkPending_work : checkPendingPrefix (j.metadata sha256)
    ((files 1 0 j.counted).map ArchiveFile.segment) = .ok () := by
  cases hp : j.front.pending with
  | nil => simp [checkPendingPrefix, metadata, hp, stream]
  | cons c cs =>
    obtain ⟨hlast, hp'⟩ := getLast_pending (c := c) (j := j) (by rw [hp]; exact List.mem_cons_self)
    obtain ⟨last, hlast, hlen⟩ := Option.map_eq_some_iff.1 hlast
    have hpos := c.length_pos
    have hpre : (j.metadata sha256).activePrefixBytes = c.bytes.length := by
      simp [metadata, hp', stream]
    have hsha : (j.metadata sha256).activePrefixSha256 = some (sha256 c.bytes) := by
      simp [metadata, hp']
    simp only [checkPendingPrefix, hpre, hsha, hlast]
    rw [if_pos hpos, if_neg]
    simp [hlen, isSha256Hex, hhex]

/-- **The source's reading of the index and the archive.** The index may have been read before the
archive, as long as no transfer was recorded in between. -/
theorem rotationStateFrom_work {j' : Journal} (h : j'.Sound) (hcounted : j'.counted = j.counted) :
    rotationStateFrom (j'.work sha256) (j.metadata sha256) =
    .ok ⟨j.metadata sha256, (files 1 0 j.counted).map ArchiveFile.segment,
      j'.orphanFiles.map ArchiveFile.segment⟩ := by
  have hcount : (j.metadata sha256).segmentCount =
      ((files 1 0 j.counted).map ArchiveFile.segment).length := by
    simp [metadata, length_files]
  have hend : checkCommitted 1 0 ((files 1 0 j.counted).map ArchiveFile.segment) =
      .ok (j.metadata sha256).archivedLen := by
    rw [checkCommitted_files, Nat.zero_add]; rfl
  simp only [rotationStateFrom, listed_work h, visible_files, hcounted, List.map_append, hcount,
    List.length_append, List.take_left, List.drop_left, demand_true (Nat.le_add_right _ _), hend,
    checkPending_work hhex, bind, Except.bind, demand_true True.intro]

theorem rotationState_work (h : j.Sound) : rotationState (j.work sha256) =
    .ok ⟨j.metadata sha256, (files 1 0 j.counted).map ArchiveFile.segment,
      j.orphanFiles.map ArchiveFile.segment⟩ := by
  rw [rotationState, load_work hhex h]
  exact rotationStateFrom_work hhex h rfl

end Reading

/-! ### The logical stream -/

/-- How much of the active file is archived already. -/
def skipped (j : Journal) : Nat :=
  match j.front with
  | .counted c => c.bytes.length
  | _ => 0

/-- The part of the active file that goes on with the stream. -/
def live (j : Journal) : Bytes := j.front.active.drop j.skipped

/-- The archived segments as sources of the stream. -/
def archivedSources (j : Journal) : List EventStreamSource :=
  (files 1 0 j.counted).map fun f =>
    ⟨.segment f.sequence f.startOffset f.endOffset, f.startOffset, f.endOffset, 0, true⟩

/-- The layout of a journal. -/
def layout (j : Journal) : EventStreamLayout where
  sources := j.archivedSources ++
    if 0 < j.live.length then
      [⟨.active, (stream j.counted).length, (stream j.counted).length + j.live.length, j.skipped,
        false⟩]
    else []
  archivedLen := (stream j.counted).length
  logicalLen := (stream j.counted).length + j.live.length

theorem stream_live (j : Journal) :
    stream j.counted ++ j.live = lines j.records ++ j.front.torn.1 := by
  have hstream : ∀ cs : List Chunk, stream cs = lines (cs.flatMap Chunk.records) := by
    intro cs
    induction cs with
    | nil => rfl
    | cons c cs ih =>
      rw [List.flatMap_cons, lines_append, ← ih]
      rfl
  cases hf : j.front <;>
    simp [counted, live, skipped, records, hf, Front.pending, Front.active, Front.records,
      Front.torn, noRecord, hstream, lines_append, Chunk.bytes]

theorem physicalStart_work :
    physicalStart sha256 (j.metadata sha256) (j.work sha256).active = .ok j.skipped := by
  have hpos (c : Chunk) := c.length_pos
  cases hf : j.front with
  | flowing | copied => simp [physicalStart, metadata, hf, Front.pending, stream, skipped]
  | counted c =>
    have hne : ¬ (c.bytes.length = 0 ∨ c.bytes.length = 0) := by have := hpos c; omega
    have hpre : (j.metadata sha256).activePrefixBytes = c.bytes.length := by
      simp [metadata, hf, Front.pending, stream]
    have hsha : (j.metadata sha256).activePrefixSha256 = some (sha256 c.bytes) := by
      simp [metadata, hf, Front.pending]
    have hact : (j.work sha256).active = c.bytes := by simp [work, hf, Front.active]
    simp only [physicalStart, hpre, hact, hsha, if_neg hne, le_refl, if_true, verifyActivePrefix,
      sha256Stream, lt_irrefl, if_false, List.take_length, bind, Except.bind,
      demand_trivial, skipped, hf]
  | emptied => simp [physicalStart, work, hf, Front.active, skipped]

variable (hhex : ∀ b, Text.isHex 64 (sha256 b) = true)

include hhex

omit hhex in
/-- The layout under an index that was read before the active file. -/
theorem layoutFromState_work {j' : Journal} {o : List ArchivedSegment}
    (harchived : j'.archived = j.archived) (hpending : j'.front.pending = j.front.pending) :
    layoutFromState sha256 (j'.work sha256) ⟨j.metadata sha256,
      (files 1 0 j.counted).map ArchiveFile.segment, o⟩ =
    if (stream j'.counted).length + j'.live.length ≤ u64Max then .ok j'.layout
    else invalidData "event stream length overflowed" := by
  have hcounted : j.counted = j'.counted := by rw [counted, counted, harchived, hpending]
  have hstart : physicalStart sha256 (j.metadata sha256) (j'.work sha256).active = .ok j'.skipped := by
    rw [← @physicalStart_work sha256 j']
    simp only [physicalStart, metadata, hpending]
    rfl
  have harch : (j.metadata sha256).archivedLen = (stream j'.counted).length := by
    rw [← hcounted]
    rfl
  have hlive : (j'.work sha256).active.length - j'.skipped = j'.live.length := by
    simp [live, work]
  simp only [layoutFromState, hstart, harch, hlive, checkedAdd, bind, Except.bind]
  by_cases hlen : (stream j'.counted).length + j'.live.length ≤ u64Max
  · simp only [if_pos hlen, layout, archivedSources, hcounted, List.map_map]
    rfl
  · simp only [if_neg hlen]
    rfl

/-- **The layout of the files**, as long as the stream has a length the source can count. -/
theorem eventStreamLayout_work (h : j.Sound) : eventStreamLayout sha256 (j.work sha256) =
    if (stream j.counted).length + j.live.length ≤ u64Max then .ok j.layout
    else invalidData "event stream length overflowed" := by
  simp only [eventStreamLayout, rotationState_work hhex h, bind, Except.bind]
  exact layoutFromState_work rfl rfl

omit hhex in
theorem openExisting_file {f : ArchiveFile} (hf : f ∈ files 1 0 (j.archived ++ j.front.moving)) :
    openExisting (j.work sha256) (.segment f.sequence f.startOffset f.endOffset) = .ok f.bytes := by
  simp only [openExisting, work]
  rw [find_files hf]

omit hhex in
theorem mem_visible {f : ArchiveFile} (hf : f ∈ files 1 0 j.counted) :
    f ∈ files 1 0 (j.archived ++ j.front.moving) := by
  rw [visible_files]
  exact List.mem_append_left _ hf

omit hhex in
theorem readSources_append {work : Work} {ss ts : List EventStreamSource} {a b : Bytes}
    (ha : readSources work ss = .ok a) (hb : readSources work ts = .ok b) :
    readSources work (ss ++ ts) = .ok (a ++ b) := by
  induction ss generalizing a with
  | nil => obtain rfl := Except.ok.inj ha; simpa using hb
  | cons s ss ih =>
    simp only [readSources, bind_eq_ok] at ha
    obtain ⟨x, hx, y, hy, hxy⟩ := ha
    obtain rfl := Except.ok.inj hxy
    simp only [List.cons_append, readSources, hx, ih hy, bind, Except.bind, List.append_assoc]

omit hhex in
theorem length_eq_of_mem_files {n start : Nat} {cs : List Chunk} {f : ArchiveFile}
    (hf : f ∈ files n start cs) : f.endOffset - f.startOffset = f.bytes.length := by
  induction cs generalizing n start with
  | nil => simp [files] at hf
  | cons c cs ih =>
    rcases List.mem_cons.1 hf with rfl | hf
    · simp
    · exact ih hf

omit hhex in
theorem readSources_archived :
    readSources (j.work sha256) j.archivedSources = .ok (stream j.counted) := by
  have hall : ∀ fs : List ArchiveFile, (∀ f ∈ fs, f ∈ files 1 0 j.counted) →
      readSources (j.work sha256) (fs.map fun f =>
        ⟨.segment f.sequence f.startOffset f.endOffset, f.startOffset, f.endOffset, 0, true⟩) =
      .ok (fs.flatMap ArchiveFile.bytes) := by
    intro fs hfs
    induction fs with
    | nil => rfl
    | cons f fs ih =>
      have hf := hfs f List.mem_cons_self
      have hopen : openExisting (j.work sha256) _ = .ok f.bytes := openExisting_file (mem_visible hf)
      have hlen := length_eq_of_mem_files hf
      have hrest := ih fun g hg => hfs g (List.mem_cons_of_mem _ hg)
      simp only [List.map_cons, readSources, EventStreamSource.read, hopen, hrest, hlen, bind,
        Except.bind, List.drop_zero, List.take_length, List.flatMap_cons]
  have hbytes : ∀ (n start : Nat) (cs : List Chunk),
      (files n start cs).flatMap ArchiveFile.bytes = stream cs := by
    intro n start cs
    induction cs generalizing n start with
    | nil => rfl
    | cons c cs ih => simp [files, stream, ih]
  rw [archivedSources, hall _ fun f hf => hf, hbytes]

/-- **The logical stream of the files** is the sequence of records, and the torn tail behind it. -/
theorem eventStream_work (h : j.Sound)
    (hlen : (lines j.records ++ j.front.torn.1).length ≤ u64Max) :
    eventStream sha256 (j.work sha256) = .ok (lines j.records ++ j.front.torn.1) := by
  rw [← stream_live] at hlen ⊢
  have hlive : readSources (j.work sha256) (if 0 < j.live.length then
      [⟨.active, (stream j.counted).length, (stream j.counted).length + j.live.length, j.skipped,
        false⟩] else []) = .ok j.live := by
    split
    · simp [readSources, EventStreamSource.read, openExisting, bind, Except.bind, work, live,
        List.take_of_length_le]
    · rename_i hz
      rw [readSources, List.eq_nil_of_length_eq_zero (Nat.eq_zero_of_not_pos hz)]
  rw [List.length_append] at hlen
  simp only [eventStream, eventStreamLayout_work hhex h, if_pos hlen, bind, Except.bind]
  exact readSources_append readSources_archived hlive

end Journal

end Orchestrail
