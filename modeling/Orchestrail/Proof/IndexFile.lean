import Mathlib.Data.String.Basic
import Mathlib.Data.Nat.Digits.Defs
import Orchestrail.Spec.Rotation

/-!
# The size of the rotation index

The index is written and read under one bound. It has a fixed number of fields, and each of them is
a number of at most twenty digits or a text whose escaping can be estimated, so the bound holds of
every index the rotation can publish.
-/

namespace Orchestrail

open String

theorem utf8ByteSize_repr {n : Nat} (h : n ≤ u64Max) : n.repr.utf8ByteSize ≤ 20 := by
  have hdigit : ∀ c ∈ Nat.toDigits 10 n, c.utf8Size = 1 := by
    intro c hc
    have hd := Nat.isDigit_of_mem_toDigits (by omega) (by omega) hc
    simp only [Char.isDigit, Bool.and_eq_true, decide_eq_true_eq] at hd
    have hlow : c.val ≤ 127 := UInt32.le_trans hd.2 (by decide)
    simp [Char.utf8Size, hlow]
  have hlen : (Nat.toDigits 10 n).length ≤ 20 :=
    Nat.toDigits_length 10 n 20 (by omega) (by simp only [u64Max] at h; omega)
  have hsize : ∀ cs : List Char, (∀ c ∈ cs, c.utf8Size = 1) → utf8Len cs = cs.length := by
    intro cs hcs
    induction cs with
    | nil => rfl
    | cons c cs ih =>
      rw [utf8Len_cons, ih fun d hd => hcs d (List.mem_cons_of_mem _ hd), hcs c List.mem_cons_self,
        List.length_cons]
  rw [Nat.repr, utf8ByteSize_ofList, hsize _ hdigit]
  exact hlen

theorem utf8Len_jsonEscape (c : Char) : utf8Len (jsonEscape c) ≤ 6 * c.utf8Size := by
  have hpos : 0 < c.utf8Size := Char.utf8Size_pos c
  have hhex : ∀ n, n < 16 → (Nat.digitChar n).utf8Size = 1 := by decide
  obtain ⟨h1, h2, h3, h4, h5, h6, h7, h8, h9⟩ : '\\'.utf8Size = 1 ∧ 'u'.utf8Size = 1 ∧
      '0'.utf8Size = 1 ∧ '"'.utf8Size = 1 ∧ 'b'.utf8Size = 1 ∧ 't'.utf8Size = 1 ∧
      'n'.utf8Size = 1 ∧ 'f'.utf8Size = 1 ∧ 'r'.utf8Size = 1 := by decide
  have hlo := hhex (c.toNat % 16) (by omega)
  unfold jsonEscape
  by_cases hlow : c.toNat < 0x20
  · have hhi := hhex (c.toNat / 16) (by omega)
    split_ifs <;> simp only [utf8Len_cons, utf8Len_nil] <;> omega
  · rw [if_neg hlow]
    split_ifs <;> simp only [utf8Len_cons, utf8Len_nil] <;> omega

/-- Escaping makes a text at most six times as long. -/
theorem utf8ByteSize_jsonQuoted (s : String) :
    (jsonQuoted s).utf8ByteSize ≤ 6 * s.utf8ByteSize + 2 := by
  have hbody : ∀ cs : List Char, utf8Len (cs.flatMap jsonEscape) ≤ 6 * utf8Len cs := by
    intro cs
    induction cs with
    | nil => simp
    | cons c cs ih =>
      have hc := utf8Len_jsonEscape c
      rw [List.flatMap_cons, utf8Len_append, utf8Len_cons]
      omega
  have hs : utf8Len s.toList = s.utf8ByteSize := by
    rw [← utf8ByteSize_ofList, ofList_toList]
  have hmark : '"'.utf8Size = 1 := by decide
  have := hbody s.toList
  rw [jsonQuoted, utf8ByteSize_ofList]
  simp only [List.cons_append, utf8Len_cons, utf8Len_append, utf8Len_nil]
  omega

theorem utf8ByteSize_intercalate (sep : String) (ss : List String) :
    (sep.intercalate ss).utf8ByteSize ≤
      (ss.map fun s => s.utf8ByteSize + sep.utf8ByteSize).sum := by
  induction ss with
  | nil => simp
  | cons s ss ih =>
    cases ss with
    | nil => simp
    | cons t ss =>
      rw [intercalate_cons_cons, utf8ByteSize_append, utf8ByteSize_append, List.map_cons,
        List.sum_cons]
      omega

/-- The numbers of an index are machine words and its texts are short. -/
structure RotationMetadata.Bounded (m : RotationMetadata) : Prop where
  version : m.schemaVersion ≤ u64Max
  generation : m.generation ≤ u64Max
  count : m.segmentCount ≤ u64Max
  archived : m.archivedLen ≤ u64Max
  pending : m.activePrefixBytes ≤ u64Max
  digest : ∀ d ∈ m.activePrefixSha256, d.utf8ByteSize ≤ 64
  time : ∀ t ∈ m.lastRotationAt, t.utf8ByteSize ≤ 64

theorem utf8ByteSize_fieldLine {m : RotationMetadata} (hm : m.Bounded) :
    ∀ f ∈ m.fields, (fieldLine f).utf8ByteSize ≤ 412 := by
  have hname : ∀ n ∈ ["schema_version", "generation", "segment_count", "archived_len",
      "active_prefix_bytes", "active_prefix_sha256", "last_rotation_at"],
      n.utf8ByteSize ≤ 20 := by decide
  simp only [List.forall_mem_cons] at hname
  obtain ⟨n1, n2, n3, n4, n5, n6, n7, -⟩ := hname
  have h1 := utf8ByteSize_repr hm.version
  have h2 := utf8ByteSize_repr hm.generation
  have h3 := utf8ByteSize_repr hm.count
  have h4 := utf8ByteSize_repr hm.archived
  have h5 := utf8ByteSize_repr hm.pending
  intro f hf
  simp only [RotationMetadata.fields, List.mem_append, List.mem_cons, List.not_mem_nil, or_false,
    Option.mem_toList, Option.map_eq_some_iff] at hf
  have hopen : ("  \"" : String).utf8ByteSize = 3 := by decide
  have hclose : ("\": " : String).utf8ByteSize = 3 := by decide
  rw [fieldLine, utf8ByteSize_append, utf8ByteSize_append, utf8ByteSize_append]
  rcases hf with ((rfl | rfl | rfl | rfl | rfl) | ⟨d, hd, rfl⟩) | ⟨t, ht, rfl⟩
  · simp only; omega
  · simp only; omega
  · simp only; omega
  · simp only; omega
  · simp only; omega
  · have hq := utf8ByteSize_jsonQuoted d
    have hd' := hm.digest d hd
    simp only; omega
  · have hq := utf8ByteSize_jsonQuoted t
    have ht' := hm.time t ht
    simp only; omega

/-- **The index fits the bound** it is read under. -/
theorem utf8ByteSize_rotationMetadataPayload {m : RotationMetadata} (hm : m.Bounded) :
    (rotationMetadataPayload m).utf8ByteSize ≤ 4096 := by
  have hlen : m.fields.length ≤ 7 := by
    unfold RotationMetadata.fields
    cases m.activePrefixSha256 <;> cases m.lastRotationAt <;> simp
  have hcomma : (",\n" : String).utf8ByteSize = 2 := by decide
  have hsum : ∀ fs : List (String × String), (∀ f ∈ fs, (fieldLine f).utf8ByteSize ≤ 412) →
      ((fs.map fieldLine).map fun s => s.utf8ByteSize + (",\n" : String).utf8ByteSize).sum ≤
        414 * fs.length := by
    intro fs hfs
    induction fs with
    | nil => simp
    | cons f fs ih =>
      have h := hfs f List.mem_cons_self
      have hih := ih fun g hg => hfs g (List.mem_cons_of_mem _ hg)
      simp only [List.map_cons, List.sum_cons, List.length_cons] at hih ⊢
      omega
  have h1 : ("\x7b\n" : String).utf8ByteSize = 2 := by decide
  have h2 : ("\n\x7d\n" : String).utf8ByteSize = 3 := by decide
  have hi := utf8ByteSize_intercalate ",\n" (m.fields.map fieldLine)
  have hs := hsum _ (utf8ByteSize_fieldLine hm)
  rw [rotationMetadataPayload, utf8ByteSize_append, utf8ByteSize_append]
  omega

/-! ## The planned digest -/

theorem jsonEscape_hex {c : Char} (h : Text.isAsciiHex c = true) :
    jsonEscape c = [c] ∧ c.utf8Size = 1 := by
  simp only [Text.isAsciiHex, Text.isAsciiDigit, Bool.or_eq_true, Bool.and_eq_true,
    decide_eq_true_eq, Char.le_def, UInt32.le_iff_toNat_le] at h
  have hlow : 0x30 ≤ c.toNat ∧ c.toNat ≤ 0x66 ∧ c.toNat ≠ 0x5c := by
    have h0 : ('0' : Char).val.toNat = 0x30 ∧ ('9' : Char).val.toNat = 0x39 := by decide
    have ha : ('a' : Char).val.toNat = 0x61 ∧ ('f' : Char).val.toNat = 0x66 := by decide
    have hA : ('A' : Char).val.toNat = 0x41 ∧ ('F' : Char).val.toNat = 0x46 := by decide
    simp only [Char.toNat]
    omega
  have hne : ∀ d : Char, (d.toNat < 0x30 ∨ d.toNat = 0x5c) → c ≠ d := by
    rintro d hd rfl
    omega
  constructor
  · unfold jsonEscape
    rw [if_neg (hne _ (by decide)), if_neg (hne _ (by decide)), if_neg (hne _ (by decide)),
      if_neg (hne _ (by decide)), if_neg (hne _ (by decide)), if_neg (hne _ (by decide)),
      if_neg (hne _ (by decide)), if_neg (by omega)]
  · have hval : c.val ≤ 127 := by
      rw [UInt32.le_iff_toNat_le]
      have := hlow.2.1
      simp only [Char.toNat] at this
      exact le_trans this (by decide)
    simp [Char.utf8Size, hval]

theorem utf8ByteSize_jsonQuoted_hex {s : String} (h : Text.isHex 64 s = true) :
    (jsonQuoted s).utf8ByteSize = 66 ∧ s.utf8ByteSize = 64 := by
  simp only [Text.isHex, Bool.and_eq_true, beq_iff_eq, List.all_eq_true] at h
  have hbody : ∀ cs : List Char, (∀ c ∈ cs, Text.isAsciiHex c = true) →
      utf8Len (cs.flatMap jsonEscape) = cs.length ∧ utf8Len cs = cs.length := by
    intro cs hcs
    induction cs with
    | nil => simp
    | cons c cs ih =>
      obtain ⟨h1, h2⟩ := jsonEscape_hex (hcs c List.mem_cons_self)
      obtain ⟨h3, h4⟩ := ih fun d hd => hcs d (List.mem_cons_of_mem _ hd)
      rw [List.flatMap_cons, h1, utf8Len_append, h3, utf8Len_cons, utf8Len_nil, utf8Len_cons, h4,
        h2, List.length_cons]
      omega
  obtain ⟨h1, h2⟩ := hbody s.toList h.2
  have hmark : '"'.utf8Size = 1 := by decide
  constructor
  · rw [jsonQuoted, utf8ByteSize_ofList]
    simp only [List.cons_append, utf8Len_cons, utf8Len_append, utf8Len_nil]
    omega
  · rw [← ofList_toList (s := s), utf8ByteSize_ofList, h2, h.1]

theorem utf8ByteSize_intercalate_congr {sep : String} : ∀ {ss ts : List String},
    ss.map utf8ByteSize = ts.map utf8ByteSize →
      (sep.intercalate ss).utf8ByteSize = (sep.intercalate ts).utf8ByteSize
  | [], [], _ => rfl
  | [s], [t], h => by simpa using h
  | s :: s' :: ss, t :: t' :: ts, h => by
    simp only [List.map_cons, List.cons.injEq] at h
    have ih := @utf8ByteSize_intercalate_congr sep (s' :: ss) (t' :: ts)
      (by simpa using h.2)
    simp only [intercalate_cons_cons, utf8ByteSize_append]
    omega
  | [], _ :: _, h | _ :: _, [], h => by simp at h
  | [_], _ :: _ :: _, h | _ :: _ :: _, [_], h => by simp at h

/-- **The planned size is the written size**: a digest takes the room of its placeholder. -/
theorem payload_placeholder (m : RotationMetadata) {digest : String}
    (h : Text.isHex 64 digest = true) :
    (rotationMetadataPayload { m with activePrefixSha256 := some digest }).utf8ByteSize =
      (rotationMetadataPayload { m with
        activePrefixSha256 := some placeholderSha256 }).utf8ByteSize := by
  have hplace : Text.isHex 64 placeholderSha256 = true := by decide +kernel
  obtain ⟨h1, -⟩ := utf8ByteSize_jsonQuoted_hex h
  obtain ⟨h2, -⟩ := utf8ByteSize_jsonQuoted_hex hplace
  simp only [rotationMetadataPayload, utf8ByteSize_append]
  rw [utf8ByteSize_intercalate_congr]
  simp [RotationMetadata.fields, fieldLine, h1, h2]

end Orchestrail
