import Orchestrail.Spec.Vocab

/-!
# Cycle limits and progress detectors

`resolvers/cycles.rs`: the cycle limit, the normalized fingerprint of one attempt, the stagnation
detector over consecutive fingerprints and the empty-fixed-set detector. An attempt signature is
kept as the 64-bit hash itself; its sixteen-digit rendering is only a notation of it. Case folding
is the ASCII one, which agrees with the source on every signature `validateSignature` lets through.
-/

namespace Orchestrail

open Text

inductive CycleDecision where
  | proceed
  | escalate (afterCycles : Nat)
  deriving DecidableEq

def CycleDecision.escalationReason : CycleDecision → Option String
  | .escalate afterCycles => some s!"не сходится ревью после {afterCycles} циклов"
  | .proceed => none

def reviewCycleDecision (cycle limit : Nat) : CycleDecision :=
  if limit < cycle then .escalate (cycle - 1) else .proceed

/-- Drop exactly `n` ASCII digits. -/
def takeDigits : Nat → List Char → Option (List Char)
  | 0, s => some s
  | n + 1, ch :: s => if isAsciiDigit ch then takeDigits n s else none
  | _ + 1, [] => none

/-- Drop `sep` and then `n` ASCII digits. -/
def takeSepDigits (sep : Char) (n : Nat) : List Char → Option (List Char)
  | ch :: s => if ch = sep then takeDigits n s else none
  | [] => none

/-- `hh:mm:ss` with an optional fraction of at least one digit. -/
def clockCore (s : List Char) : Option (List Char) := do
  let s ← takeDigits 2 s
  let s ← takeSepDigits ':' 2 s
  let s ← takeSepDigits ':' 2 s
  match s with
  | '.' :: fraction =>
    let rest := fraction.dropWhile isAsciiDigit
    some (if rest.length < fraction.length then rest else s)
  | _ => some s

/-- A trailing `Z`, `±hh:mm` or `±hhmm` zone, if there is one. -/
def zoneEnd : List Char → List Char
  | ch :: s =>
    if ch = 'Z' ∨ ch = 'z' then s
    else if ch = '+' ∨ ch = '-' then
      match takeDigits 2 s with
      | some (':' :: t) => (takeDigits 2 t).getD (ch :: s)
      | some t => (takeDigits 2 t).getD (ch :: s)
      | none => ch :: s
    else ch :: s
  | [] => []

def isoDatetime (s : List Char) : Option (List Char) := do
  let s ← takeDigits 4 s
  let s ← takeSepDigits '-' 2 s
  let s ← takeSepDigits '-' 2 s
  match s with
  | ch :: s => if ch = 'T' ∨ ch = 't' ∨ ch = ' ' then (clockCore s).map zoneEnd else none
  | [] => none

/-- What follows a timestamp that starts here (`timestamp_len`). -/
def afterTimestamp (s : List Char) : Option (List Char) := (isoDatetime s).orElse fun _ => clockCore s

/-- Replace volatile timestamps by `<ts>`; the fuel is the length of the text. -/
def maskTimestamps : Nat → Bool → List Char → List Char
  | 0, _, s => s
  | _, _, [] => []
  | fuel + 1, previousIsDigit, ch :: s =>
    let here := if isAsciiDigit ch && !previousIsDigit then afterTimestamp (ch :: s) else none
    match here with
    | some rest =>
      if (rest.head?.map isAsciiDigit).getD false then
        ch :: maskTimestamps fuel (isAsciiDigit ch) s
      else '<' :: 't' :: 's' :: '>' :: maskTimestamps fuel false rest
    | none => ch :: maskTimestamps fuel (isAsciiDigit ch) s

/-- White-space runs collapsed to single spaces, ends trimmed. -/
def joinWords (s : List Char) : List Char :=
  [' '].intercalate ((pieces isWhiteSpace s).filter (!·.isEmpty))

def normalizeSignatureText (text : String) : List Char :=
  joinWords ((maskTimestamps text.toList.length false text.toList).map Char.toLower)

/-- 64-bit FNV-1a. -/
def fnv1a64 (bytes : List UInt8) : UInt64 :=
  bytes.foldl (fun hash b => (hash ^^^ b.toUInt64) * 0x00000100000001b3) 0xcbf29ce484222325

structure AttemptSignature where
  hash : UInt64
  deriving DecidableEq

namespace AttemptSignature

def ofFinding (text evidence : String) : AttemptSignature :=
  let folded := normalizeSignatureText text ++ '\x00' :: normalizeSignatureText evidence
  ⟨fnv1a64 (folded.flatMap String.utf8EncodeChar)⟩

/-- Fingerprint of a message alone (`AttemptSignature::of`). -/
def ofText (text : String) : AttemptSignature := ofFinding text ""

end AttemptSignature

inductive StagnationDecision where
  | progressing
  | stagnated (repeats : Nat)
  deriving DecidableEq

def StagnationDecision.escalationReason : StagnationDecision → Option String
  | .stagnated repeats =>
    some s!"стагнация: та же находка без прогресса (повторов подряд: {repeats})"
  | .progressing => none

/-- The trailing run of the latest signature, measured against the limit. -/
def stagnationDecision (signatures : List AttemptSignature) (limit : Nat) : StagnationDecision :=
  if limit = 0 then .progressing
  else match signatures.reverse with
    | [] => .progressing
    | last :: rest =>
      let repeats := min ((last :: rest).takeWhile (· == last)).length 4294967295
      if limit ≤ repeats then .stagnated repeats else .progressing

inductive EmptyFixedSetDecision where
  | progressing
  | empty (wontFixed openFindings : Nat)
  deriving DecidableEq

def EmptyFixedSetDecision.escalationReason : EmptyFixedSetDecision → Option String
  | .empty wontFixed openFindings =>
    some s!"пустой fixed-набор: фиксер не исправил ни одной находки в раунде (не исправлено: {wontFixed} из {openFindings})"
  | .progressing => none

def emptyFixedSetDecision (wontFixed openFindings : Nat) : EmptyFixedSetDecision :=
  if 0 < openFindings ∧ openFindings ≤ wontFixed then .empty wontFixed openFindings
  else .progressing

def signaturesFrom (raw : List String) : List AttemptSignature := raw.map AttemptSignature.ofText

def stagnationReason (signatures : List AttemptSignature) (limit : Nat) : Option String :=
  (stagnationDecision signatures limit).escalationReason

end Orchestrail
