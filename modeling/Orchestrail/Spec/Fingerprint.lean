import Orchestrail.Spec.Archive
import Orchestrail.Spec.Reader
import Mathlib.Data.List.Sort
import Mathlib.Data.String.Basic

/-!
# The fingerprint of the outbox

`events/fingerprint.rs` over the events of a reader, and `outbox_digest_of` of
`legacy_fingerprint.rs` over the bytes of a stream. Both end in the same projection: the first
identity of every event id, sorted and joined.
-/

namespace Orchestrail.Fingerprint

open Text

/-- An event id with the identity of its event. -/
abbrev Entry := String × String

/-- Enter an identity, unless one was entered under its id. -/
def enter (entries : List Entry) (entry : Entry) : List Entry :=
  if entry.1 ∈ entries.map Prod.fst then entries else entries ++ [entry]

def firstEntries (entries : List Entry) : List Entry := entries.foldl enter []

def joined (identities : List String) : String :=
  ";".intercalate (identities.insertionSort (· ≤ ·))

def identityOf (eventType batch task source target : String) : String :=
  let transition := if source = "" ∧ target = "" then "" else source ++ ">" ++ target
  eventType ++ "|" ++ batch ++ "|" ++ task ++ "|" ++ transition

/-! ## Events -/

/-- `Value::as_str` of a field, or nothing. -/
def textField (payload : List (String × Json)) (key : String) : String :=
  match payload.lookup key with
  | some (.text value) => value
  | _ => ""

def identity (event : Envelope) : String :=
  identityOf event.eventType.asStr (event.batchId.getD "") (event.taskId.getD "")
    (textField event.payload "from") (textField event.payload "to")

/-- `identities`, in the order of the events. -/
def identities (events : List Envelope) : List String :=
  (firstEntries (events.map fun event => (event.eventId, identity event))).map Prod.snd

/-- `digest`. -/
def digest (events : List Envelope) : String := joined (identities events)

/-! ## Bytes -/

section Raw

variable (serde : Serde)

def jsonScalar : Json → String
  | .text value => value
  | .null => ""
  | value => serde.render value

/-- `Value::get`. -/
def field : Json → String → Option Json
  | .object fields, key => fields.lookup key
  | _, _ => none

def scalarField (value : Json) (key : String) : String :=
  ((field value key).map (jsonScalar serde)).getD ""

/-- The entry of a decoded line. -/
def valueEntry (value : Json) : Option Entry :=
  (field value "event_id").map fun eventId =>
    let (source, target) := match field value "payload" with
      | some (.object payload) =>
        (scalarField serde (.object payload) "from", scalarField serde (.object payload) "to")
      | _ => ("", "")
    (jsonScalar serde eventId, identityOf (scalarField serde value "type")
      (scalarField serde value "batch_id") (scalarField serde value "task_id") source target)

def lineEntry (line : List Char) : Option Entry :=
  match serde.read (String.ofList line) with
  | .ok value => valueEntry serde value
  | .error _ => none

/-- The lines of one source that are not blank. A byte order mark is dropped where the stream
begins. -/
def sourceLines (startOffset : Nat) (bytes : Bytes) : Io (List (List Char)) :=
  match fromUtf8 bytes with
  | none => .error ⟨.invalidData, "stream did not contain valid UTF-8"⟩
  | some text =>
    let text := if startOffset = 0 then (stripFront ['\uFEFF'] text.toList).getD text.toList
      else text.toList
    .ok ((textLines text).filter fun line => !(trim line).isEmpty)

/-- The lines of several sources, one after the other. -/
def layoutLines (work : Work) : List EventStreamSource → Io (List (List Char))
  | [] => .ok []
  | source :: sources => do
    let lines ← sourceLines source.startOffset (← source.read work)
    return lines ++ (← layoutLines work sources)

def outboxDigestOf (work : Work) (layout : EventStreamLayout) : Io String := do
  let lines ← layoutLines work layout.sources
  return joined ((firstEntries (lines.filterMap (lineEntry serde))).map Prod.snd)

end Raw

end Orchestrail.Fingerprint
