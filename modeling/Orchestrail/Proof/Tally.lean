import Mathlib.Algebra.Ring.Nat
import Mathlib.Data.String.Basic
import Orchestrail.Spec.Envelope

/-!
# A codec of tallies

The repository takes its JSON functions from a library, and every result here is about any two
functions that invert each other. `Tally.codec` is such a pair for all values: a value is a list of
numbers, and a number is as many strokes.
-/

namespace Orchestrail.Tally

open Text

def ofText (s : String) : List Nat := s.toList.length :: s.toList.map Char.toNat

mutual

def encode : Json → List Nat
  | .null => [0]
  | .bool b => [1, b.toNat]
  | .integer (.ofNat n) => [2, n]
  | .integer (.negSucc n) => [3, n]
  | .decimal s => 4 :: ofText s
  | .text s => 5 :: ofText s
  | .array values => 6 :: values.length :: encodeList values
  | .object fields => 7 :: fields.length :: encodeFields fields

def encodeList : List Json → List Nat
  | [] => []
  | value :: values => encode value ++ encodeList values

def encodeFields : List (String × Json) → List Nat
  | [] => []
  | (name, value) :: fields => ofText name ++ (encode value ++ encodeFields fields)

end

def takeText : List Nat → Option (String × List Nat)
  | [] => none
  | n :: rest => some (String.ofList ((rest.take n).map Char.ofNat), rest.drop n)

mutual

/-- The value at the front of some numbers. -/
def decode : Nat → List Nat → Option (Json × List Nat)
  | 0, _ => none
  | fuel + 1, tokens =>
    match tokens with
    | 0 :: rest => some (.null, rest)
    | 1 :: b :: rest => some (.bool (b == 1), rest)
    | 2 :: n :: rest => some (.integer n, rest)
    | 3 :: n :: rest => some (.integer (.negSucc n), rest)
    | 4 :: rest => (takeText rest).map fun (s, rest) => (.decimal s, rest)
    | 5 :: rest => (takeText rest).map fun (s, rest) => (.text s, rest)
    | 6 :: n :: rest => (decodeList fuel n rest).map fun (values, rest) => (.array values, rest)
    | 7 :: n :: rest => (decodeFields fuel n rest).map fun (fields, rest) => (.object fields, rest)
    | _ => none

def decodeList : Nat → Nat → List Nat → Option (List Json × List Nat)
  | _, 0, rest => some ([], rest)
  | 0, _ + 1, _ => none
  | fuel + 1, n + 1, rest => do
    let (value, rest) ← decode fuel rest
    let (values, rest) ← decodeList fuel n rest
    some (value :: values, rest)

def decodeFields : Nat → Nat → List Nat → Option (List (String × Json) × List Nat)
  | _, 0, rest => some ([], rest)
  | 0, _ + 1, _ => none
  | fuel + 1, n + 1, rest => do
    let (name, rest) ← takeText rest
    let (value, rest) ← decode fuel rest
    let (fields, rest) ← decodeFields fuel n rest
    some ((name, value) :: fields, rest)

end

theorem takeText_ofText (s : String) (rest : List Nat) :
    takeText (ofText s ++ rest) = some (s, rest) := by
  have hchars : (s.toList.map Char.toNat).map Char.ofNat = s.toList := by
    rw [List.map_map]
    exact (List.map_congr_left fun c _ => Char.ofNat_toNat c).trans (List.map_id _)
  have hlen : s.toList.length = (s.toList.map Char.toNat).length := (List.length_map _).symm
  simp only [ofText, List.cons_append, takeText, Option.some.injEq, Prod.mk.injEq]
  rw [hlen, List.take_left, List.drop_left, hchars, String.ofList_toList]
  exact ⟨rfl, rfl⟩

theorem encode_pos (value : Json) : 0 < (encode value).length := by
  cases value with
  | integer n => cases n <;> simp [encode]
  | _ => simp [encode]

mutual

/-- **A value is read back** from the numbers it was written as. -/
theorem decode_encode : ∀ (value : Json) (fuel : Nat) (rest : List Nat),
    (encode value).length ≤ fuel → decode fuel (encode value ++ rest) = some (value, rest)
  | value, 0, rest, h => absurd h (by have := encode_pos value; omega)
  | .null, fuel + 1, rest, _ => by simp [encode, decode]
  | .bool b, fuel + 1, rest, _ => by cases b <;> simp [encode, decode]
  | .integer (.ofNat n), fuel + 1, rest, _ => by simp [encode, decode]
  | .integer (.negSucc n), fuel + 1, rest, _ => by simp [encode, decode]
  | .decimal s, fuel + 1, rest, _ => by simp [encode, decode, takeText_ofText]
  | .text s, fuel + 1, rest, _ => by simp [encode, decode, takeText_ofText]
  | .array values, fuel + 1, rest, h => by
    simp only [encode, List.length_cons] at h
    simp [encode, decode, decodeList_encodeList values fuel rest (by omega)]
  | .object fields, fuel + 1, rest, h => by
    simp only [encode, List.length_cons] at h
    simp [encode, decode, decodeFields_encodeFields fields fuel rest (by omega)]

theorem decodeList_encodeList : ∀ (values : List Json) (fuel : Nat) (rest : List Nat),
    (encodeList values).length < fuel →
    decodeList fuel values.length (encodeList values ++ rest) = some (values, rest)
  | [], fuel, rest, _ => by cases fuel <;> simp [encodeList, decodeList]
  | value :: values, 0, rest, h => absurd h (by omega)
  | value :: values, fuel + 1, rest, h => by
    have hpos := encode_pos value
    simp only [encodeList, List.length_append] at h
    have hfirst := decode_encode value fuel (encodeList values ++ rest) (by omega)
    have hrest := decodeList_encodeList values fuel rest (by omega)
    simp only [encodeList, List.length_cons, decodeList, List.append_assoc, hfirst, hrest, bind,
      Option.bind]

theorem decodeFields_encodeFields : ∀ (fields : List (String × Json)) (fuel : Nat) (rest : List Nat),
    (encodeFields fields).length < fuel →
    decodeFields fuel fields.length (encodeFields fields ++ rest) = some (fields, rest)
  | [], fuel, rest, _ => by cases fuel <;> simp [encodeFields, decodeFields]
  | field :: fields, 0, rest, h => absurd h (by omega)
  | (name, value) :: fields, fuel + 1, rest, h => by
    have hpos := encode_pos value
    simp only [encodeFields, List.length_append] at h
    have hfirst := decode_encode value fuel (encodeFields fields ++ rest) (by omega)
    have hrest := decodeFields_encodeFields fields fuel rest (by omega)
    simp only [encodeFields, List.length_cons, decodeFields, List.append_assoc, takeText_ofText,
      hfirst, hrest, bind, Option.bind]

end

/-- A number as strokes, closed by a zero. -/
def strokes (n : Nat) : List Char := List.replicate n '1' ++ ['0']

/-- The numbers of some strokes, with `n` strokes before them; other characters do not count. -/
def count : Nat → List Char → List Nat
  | _, [] => []
  | n, ch :: rest =>
    if ch = '1' then count (n + 1) rest
    else if ch = '0' then n :: count 0 rest
    else count n rest

theorem count_strokes (k n : Nat) (rest : List Char) :
    count k (strokes n ++ rest) = (k + n) :: count 0 rest := by
  induction n generalizing k with
  | zero => simp [strokes, count]
  | succ n ih =>
    have hnext := ih (k + 1)
    simp only [strokes, List.replicate_succ, List.cons_append, count, if_true] at hnext ⊢
    rw [hnext]
    congr 1
    omega

theorem count_flatMap (tokens : List Nat) (rest : List Char) :
    count 0 (tokens.flatMap strokes ++ rest) = tokens ++ count 0 rest := by
  induction tokens with
  | nil => rfl
  | cons n tokens ih =>
    rw [List.flatMap_cons, List.append_assoc, count_strokes, ih, Nat.zero_add, List.cons_append]

/-- The value some numbers are the whole of. -/
def whole (tokens : List Nat) : Except String Json :=
  match decode tokens.length tokens with
  | some (value, []) => .ok value
  | _ => .error "no value"

def codec : Serde where
  render value := String.ofList ('\x7b' :: (encode value).flatMap strokes ++ ['\x7d'])
  read s := whole (count 0 s.toList)

/-- What is rendered is read back, whatever stands behind it that is no stroke. -/
theorem read_render (value : Json) (after : String) (h : count 0 ('\x7d' :: after.toList) = []) :
    codec.read (codec.render value ++ after) = .ok value := by
  have hopen : ∀ rest, count 0 ('\x7b' :: rest) = count 0 rest := fun rest => by
    rw [count, if_neg (by decide), if_neg (by decide)]
  have htokens : count 0 (codec.render value ++ after).toList = encode value := by
    simp only [codec, String.toList_append, String.toList_ofList, List.cons_append,
      List.append_assoc, List.nil_append, hopen]
    rw [count_flatMap, h, List.append_nil]
  have hdecode := decode_encode value (encode value).length [] le_rfl
  rw [List.append_nil] at hdecode
  change whole (count 0 (codec.render value ++ after).toList) = _
  rw [htokens, whole, hdecode]

/-- The bytes of a rendered value: one for each stroke, and the two braces. -/
theorem length_render (value : Json) (after : String) :
    (utf8 (codec.render value ++ after)).length =
      ((encode value).map (· + 1)).sum + 2 + (utf8 after).length := by
  have hsize : ∀ s : String, (utf8 s).length = s.utf8ByteSize := fun s => by
    simp [utf8]
  have hstrokes : ∀ n, String.utf8Len (strokes n) = n + 1 := by
    intro n
    induction n with
    | zero => rfl
    | succ n ih =>
      have hnext : strokes (n + 1) = '1' :: strokes n := rfl
      have hone : '1'.utf8Size = 1 := by decide
      rw [hnext, String.utf8Len_cons, ih, hone]
  have hall : ∀ tokens : List Nat, String.utf8Len (tokens.flatMap strokes) =
      (tokens.map (· + 1)).sum := by
    intro tokens
    induction tokens with
    | nil => rfl
    | cons n tokens ih =>
      rw [List.flatMap_cons, String.utf8Len_append, ih, hstrokes, List.map_cons, List.sum_cons]
  rw [hsize, hsize, String.utf8ByteSize_append, codec, String.utf8ByteSize_ofList,
    List.cons_append, String.utf8Len_cons, String.utf8Len_append, hall]
  have hopen : '\x7b'.utf8Size = 1 := by decide
  have hclose : String.utf8Len ['\x7d'] = 1 := by decide
  omega

end Orchestrail.Tally
