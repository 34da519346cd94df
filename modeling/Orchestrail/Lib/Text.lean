import Mathlib.Data.List.DropRight
import Mathlib.Data.Nat.Basic

/-!
# Text predicates

Predicates on strings, read off the list of characters so that closed instances evaluate in the
kernel. They follow the documented behaviour of the standard string operations they are named
after: `isBlank` is "trims to nothing", `pieces` splits at every separator and keeps empty pieces,
`wholeDecimal` is "a prefix followed by one or more ASCII digits".
-/

namespace Orchestrail.Text

/-- The characters with the Unicode `White_Space` property. -/
def isWhiteSpace (ch : Char) : Bool :=
  let n := ch.toNat
  (9 ≤ n && n ≤ 13) || n == 0x20 || n == 0x85 || n == 0xA0 || n == 0x1680 ||
    (0x2000 ≤ n && n ≤ 0x200A) || n == 0x2028 || n == 0x2029 || n == 0x202F || n == 0x205F ||
    n == 0x3000

/-- The text is empty once surrounding white space is trimmed. -/
def isBlank (s : String) : Bool := s.toList.all isWhiteSpace

def contains (s : String) (ch : Char) : Bool := s.toList.contains ch

def startsWith (s : String) (ch : Char) : Bool := s.toList.head? == some ch

/-- Surrounding white space dropped. -/
def trim (s : List Char) : List Char :=
  ((s.dropWhile isWhiteSpace).reverse.dropWhile isWhiteSpace).reverse

def isAsciiDigit (ch : Char) : Bool := '0' ≤ ch && ch ≤ '9'

def isAsciiAlpha (ch : Char) : Bool := ('a' ≤ ch && ch ≤ 'z') || ('A' ≤ ch && ch ≤ 'Z')

def isAsciiHex (ch : Char) : Bool :=
  isAsciiDigit ch || ('a' ≤ ch && ch ≤ 'f') || ('A' ≤ ch && ch ≤ 'F')

/-- Exactly `n` ASCII hexadecimal digits. -/
def isHex (n : Nat) (s : String) : Bool := s.toList.length == n && s.toList.all isAsciiHex

/-- Split at every character satisfying `sep`, keeping empty pieces. -/
def pieces (sep : Char → Bool) : List Char → List (List Char)
  | [] => [[]]
  | ch :: rest =>
    if sep ch then [] :: pieces sep rest
    else match pieces sep rest with
      | [] => [[ch]]
      | piece :: more => (ch :: piece) :: more

/-- The rest of the text after `front`, if the text starts with it. -/
def stripFront (front : List Char) (s : List Char) : Option (List Char) :=
  if front.isPrefixOf s then some (s.drop front.length) else none

/-- `front` followed by one or more ASCII digits and nothing else. -/
def wholeDecimal (front : String) (s : String) : Bool :=
  match stripFront front.toList s.toList with
  | some digits => !digits.isEmpty && digits.all isAsciiDigit
  | none => false

/-- `str::to_ascii_lowercase`. -/
def asciiLowercase (s : String) : String := String.ofList (s.toList.map Char.toLower)

/-- A character as the debug formatter shows it inside a quoted string. -/
def escape (ch : Char) : List Char :=
  if ch = '"' then ['\\', '"']
  else if ch = '\\' then ['\\', '\\']
  else if ch = '\n' then ['\\', 'n']
  else if ch = '\r' then ['\\', 'r']
  else if ch = '\t' then ['\\', 't']
  else if ch = '\x00' then ['\\', '0']
  else [ch]

/-- The debug rendering of a string: quoted, with the usual escapes. -/
def quoted (s : String) : String := String.ofList ('"' :: s.toList.flatMap escape ++ ['"'])

/-- The debug rendering of an optional string. -/
def quotedOption : Option String → String
  | none => "None"
  | some s => "Some(" ++ quoted s ++ ")"

/-- `str::trim`. -/
def trimmed (s : String) : String := String.ofList (trim s.toList)

/-- The bytes of a text. -/
def utf8 (s : String) : List UInt8 := s.toByteArray.data.toList

/-- The text of some bytes, if they are valid UTF-8. -/
def fromUtf8 (bytes : List UInt8) : Option String := String.fromUTF8? ⟨bytes.toArray⟩

theorem fromUtf8_utf8 (s : String) : fromUtf8 (utf8 s) = some s := by
  have h : (ByteArray.mk (utf8 s).toArray) = s.toByteArray := by simp [utf8]
  unfold fromUtf8 String.fromUTF8?
  rw [dif_pos (h ▸ s.isValidUTF8)]
  simp [String.fromUTF8, h]

theorem utf8_append (a b : String) : utf8 (a ++ b) = utf8 a ++ utf8 b := by
  unfold utf8
  rw [String.toByteArray_append, ByteArray.data_append, Array.toList_append]

/-! ## Splitting and trimming -/

theorem pieces_ne_nil (sep : Char → Bool) (s : List Char) : pieces sep s ≠ [] := by
  cases s with
  | nil => exact List.cons_ne_nil _ _
  | cons ch s =>
    unfold pieces
    split
    · exact List.cons_ne_nil _ _
    · split <;> exact List.cons_ne_nil _ _

theorem pieces_cut (sep : Char → Bool) (front behind : List Char) {ch : Char} (h : sep ch = true) :
    pieces sep (front ++ ch :: behind) = pieces sep front ++ pieces sep behind := by
  induction front with
  | nil => simp [pieces, h]
  | cons first front ih =>
    simp only [List.cons_append, pieces, ih]
    split
    · rfl
    · cases hfront : pieces sep front with
      | nil => exact absurd hfront (pieces_ne_nil sep front)
      | cons piece more => rfl

theorem pieces_of_none {sep : Char → Bool} {s : List Char} (h : ∀ ch ∈ s, sep ch = false) :
    pieces sep s = [s] := by
  induction s with
  | nil => rfl
  | cons ch s ih =>
    have ih := ih fun c hc => h c (List.mem_cons_of_mem _ hc)
    have hch := h ch List.mem_cons_self
    simp [pieces, hch, ih]

theorem piece_not_sep {sep : Char → Bool} {text piece : List Char}
    (h : piece ∈ pieces sep text) :
    ∀ ch ∈ piece, sep ch = false := by
  induction text generalizing piece with
  | nil =>
    obtain rfl := List.mem_singleton.1 h
    simp
  | cons ch text ih =>
    unfold pieces at h
    split at h
    · rcases List.mem_cons.1 h with rfl | h
      · simp
      · exact ih h
    · rename_i hch
      split at h
      · obtain rfl := List.mem_singleton.1 h
        simpa using hch
      · rename_i first more heq
        rcases List.mem_cons.1 h with rfl | h
        · intro c hc
          rcases List.mem_cons.1 hc with rfl | hc
          · simpa using hch
          · exact ih (by rw [heq]; exact List.mem_cons_self) c hc
        · exact ih (by rw [heq]; exact List.mem_cons_of_mem _ h)

theorem pieces_subset {sep : Char → Bool} {text piece : List Char}
    (h : piece ∈ Text.pieces sep text) : piece ⊆ text := by
  induction text generalizing piece with
  | nil =>
    obtain rfl := List.mem_singleton.1 h
    exact List.Subset.refl _
  | cons ch text ih =>
    unfold Text.pieces at h
    split at h
    · rcases List.mem_cons.1 h with rfl | h
      · exact List.nil_subset _
      · exact List.Subset.trans (ih h) (List.subset_cons_self _ _)
    · cases hrest : Text.pieces sep text with
      | nil => exact absurd hrest (pieces_ne_nil sep text)
      | cons first more =>
        simp only [hrest] at h
        rcases List.mem_cons.1 h with rfl | h
        · have hfirst : first ⊆ text := ih (hrest ▸ List.mem_cons_self)
          exact List.cons_subset_cons _ hfirst
        · have hpiece : piece ⊆ text := ih (hrest ▸ List.mem_cons_of_mem _ h)
          exact List.Subset.trans hpiece (List.subset_cons_self _ _)

theorem pieces_congr {p q : Char → Bool} {s : List Char} (h : ∀ ch ∈ s, p ch = q ch) :
    pieces p s = pieces q s := by
  induction s with
  | nil => rfl
  | cons ch s ih =>
    unfold pieces
    rw [ih fun c hc => h c (List.mem_cons_of_mem _ hc), h ch List.mem_cons_self]

theorem dropWhile_of_prefix {p : Char → Bool} {a b : List Char} (h : b <+: a)
    (ha : a.dropWhile p = a) : b.dropWhile p = b := by
  cases b with
  | nil => rfl
  | cons ch b =>
    obtain ⟨c, rfl⟩ := h
    rw [List.cons_append, List.dropWhile_cons] at ha
    rw [List.dropWhile_cons]
    split
    · rename_i hch
      rw [if_pos hch] at ha
      have hlen := congrArg List.length ha
      have hle := (List.dropWhile_suffix (l := b ++ c) p).length_le
      rw [List.length_cons] at hlen
      omega
    · rfl

/-- What is trimmed starts with no white space. -/
theorem trim_front (l : List Char) : (trim l).dropWhile isWhiteSpace = trim l := by
  have hstart : trim l <+: l.dropWhile isWhiteSpace := by
    obtain ⟨c, hc⟩ := List.dropWhile_suffix (l := (l.dropWhile isWhiteSpace).reverse) isWhiteSpace
    have hboth := congrArg List.reverse hc
    rw [List.reverse_append, List.reverse_reverse] at hboth
    exact ⟨c.reverse, hboth⟩
  exact dropWhile_of_prefix hstart (List.dropWhile_idempotent _ _)

/-- What is trimmed ends with no white space. -/
theorem trim_back (l : List Char) :
    (trim l).reverse.dropWhile isWhiteSpace = (trim l).reverse := by
  unfold trim
  rw [List.reverse_reverse, List.dropWhile_idempotent]

/-- A text whose two ends are not white space is trimmed already. -/
theorem trim_join {a m b : List Char} (ha : a.dropWhile isWhiteSpace = a) (hne : a ≠ [])
    (hb : b.reverse.dropWhile isWhiteSpace = b.reverse) (hne' : b ≠ []) :
    trim (a ++ m ++ b) = a ++ m ++ b := by
  have hfront : (a ++ m ++ b).dropWhile isWhiteSpace = a ++ m ++ b := by
    rw [List.append_assoc, List.dropWhile_append, ha, if_neg (by simpa using hne)]
  have hback : (a ++ m ++ b).reverse.dropWhile isWhiteSpace = (a ++ m ++ b).reverse := by
    rw [List.reverse_append, List.dropWhile_append, hb, if_neg (by simpa using hne')]
  unfold trim
  rw [hfront, hback, List.reverse_reverse]

theorem trim_trim (l : List Char) : trim (trim l) = trim l := by
  have hfront := trim_front l
  unfold trim at hfront ⊢
  rw [hfront, List.reverse_reverse, List.dropWhile_idempotent]

theorem trim_within (l : List Char) : trim l <:+: l := by
  obtain ⟨c, hc⟩ := List.dropWhile_suffix (l := (l.dropWhile isWhiteSpace).reverse) isWhiteSpace
  obtain ⟨d, hd⟩ := List.dropWhile_suffix (l := l) isWhiteSpace
  refine ⟨d, c.reverse, ?_⟩
  have hboth := congrArg List.reverse hc
  rw [List.reverse_append, List.reverse_reverse] at hboth
  rw [List.append_assoc, trim, hboth, hd]

theorem trim_lead {a s : List Char} (ha : ∀ ch ∈ a, isWhiteSpace ch = true) :
    trim (a ++ s) = trim s := by
  unfold trim
  rw [List.dropWhile_append_of_pos ha]

theorem trim_tail {s b : List Char} (hb : ∀ ch ∈ b, isWhiteSpace ch = true) :
    trim (s ++ b) = trim s := by
  have hdrop : b.dropWhile isWhiteSpace = [] := by simpa using hb
  unfold trim
  rw [List.dropWhile_append]
  split
  · rename_i hempty
    rw [hdrop, List.isEmpty_iff.1 hempty]
  · rw [List.reverse_append, List.dropWhile_append_of_pos (by simpa using hb)]

/-- A text is what is trimmed, between white space. -/
theorem trim_parts (s : List Char) : ∃ a b, s = a ++ trim s ++ b ∧
    (∀ ch ∈ a, isWhiteSpace ch = true) ∧ ∀ ch ∈ b, isWhiteSpace ch = true := by
  refine ⟨s.takeWhile isWhiteSpace, ((s.dropWhile isWhiteSpace).reverse.takeWhile
    isWhiteSpace).reverse, ?_, fun ch hch => List.mem_takeWhile_imp hch, fun ch hch =>
    List.mem_takeWhile_imp (List.mem_reverse.1 hch)⟩
  unfold trim
  rw [List.append_assoc, ← List.reverse_append, List.takeWhile_append_dropWhile,
    List.reverse_reverse, List.takeWhile_append_dropWhile]

theorem trim_eq_nil {text : List Char} :
    trim text = [] ↔ ∀ ch ∈ text, isWhiteSpace ch = true := by
  constructor
  · intro h
    unfold trim at h
    rw [List.reverse_eq_nil_iff, List.dropWhile_eq_nil_iff] at h
    have hfront : text.dropWhile isWhiteSpace = [] := by
      cases hd : text.dropWhile isWhiteSpace with
      | nil => rfl
      | cons ch rest =>
        have hhead := List.head?_dropWhile_not isWhiteSpace text
        rw [hd] at hhead
        have hch := h ch (by rw [hd]; simp)
        simp [hch] at hhead
    rwa [List.dropWhile_eq_nil_iff] at hfront
  · intro h
    exact (trim_tail (s := []) h).trans rfl

theorem trim_cons {ch : Char} (h : isWhiteSpace ch = false) (rest : List Char) :
    ∃ behind, trim (ch :: rest) = ch :: behind ∧ behind <+: rest := by
  unfold trim
  rw [List.dropWhile_cons, if_neg (by simp [h]), List.reverse_cons, List.dropWhile_append]
  split
  · refine ⟨[], ?_, List.nil_prefix⟩
    rw [List.dropWhile_cons, if_neg (by simp [h])]
    rfl
  · refine ⟨(rest.reverse.dropWhile isWhiteSpace).reverse, by simp, ?_⟩
    obtain ⟨c, hc⟩ := List.dropWhile_suffix (l := rest.reverse) isWhiteSpace
    have hboth := congrArg List.reverse hc
    rw [List.reverse_append, List.reverse_reverse] at hboth
    exact ⟨c.reverse, hboth⟩

/-- Two characters that are no white space stay at the front. -/
theorem trim_pair {c d : Char} (hc : isWhiteSpace c = false) (hd : isWhiteSpace d = false)
    (x : List Char) : ∃ y, trim (c :: d :: x) = c :: d :: y := by
  have hfront : (c :: d :: x).dropWhile isWhiteSpace = c :: d :: x := by
    rw [List.dropWhile_cons, if_neg (by simp [hc])]
  have hback : ∀ z, ([d, c] ++ z).dropWhile isWhiteSpace = [d, c] ++ z := fun z => by
    rw [List.cons_append, List.dropWhile_cons, if_neg (by simp [hd])]
  unfold trim
  rw [hfront, List.reverse_cons, List.reverse_cons, List.append_assoc, List.dropWhile_append]
  split
  · exact ⟨[], by rw [show [d] ++ [c] = [d, c] ++ [] from rfl, hback]; rfl⟩
  · exact ⟨_, by rw [List.reverse_append]; rfl⟩

theorem trim_of_not_space {text : List Char} (h : ∀ ch ∈ text, isWhiteSpace ch = false) :
    trim text = text := by
  have hdrop : ∀ l : List Char, (∀ ch ∈ l, isWhiteSpace ch = false) →
      l.dropWhile isWhiteSpace = l := by
    intro l hl
    cases l with
    | nil => rfl
    | cons ch l =>
      have hch : ¬ isWhiteSpace ch = true := by simp [hl ch]
      rw [List.dropWhile_cons, if_neg hch]
  unfold trim
  rw [hdrop text h, hdrop _ (by simpa using h), List.reverse_reverse]

end Orchestrail.Text
