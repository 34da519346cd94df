import Orchestrail.Spec.Outbox

/-!
# A line and its event

What is read back from the line of an event: the event itself, if its envelope is well formed, and
a refusal otherwise.
-/

namespace Orchestrail

open Text Outcome

/-- What the codec is relied on for, at one event: its value is read back as it was rendered, the
rendering stands in its braces, and no control character is left unescaped in it. -/
structure Serde.Returns (serde : Serde) (event : Envelope) : Prop where
  read : serde.read (serde.render event.toJson) = .ok event.toJson
  braces : ∃ inner, (serde.render event.toJson).toList = '{' :: inner ++ ['}']
  oneLine : newline ∉ event.record serde

namespace Serde.Returns

variable {serde : Serde} {event : Envelope}

/-- No white space stands before the first brace or behind the last. -/
theorem trimmed (h : serde.Returns event) :
    trimmed (event.toJsonLine serde) = event.toJsonLine serde := by
  obtain ⟨inner, hin⟩ := h.braces
  have hopen : isWhiteSpace '{' = false := by decide
  have hclose : isWhiteSpace '}' = false := by decide
  have hfront : (event.toJsonLine serde).toList.dropWhile isWhiteSpace =
      (event.toJsonLine serde).toList := by
    rw [Envelope.toJsonLine, hin]
    simp [hopen]
  have hback : (event.toJsonLine serde).toList.reverse.dropWhile isWhiteSpace =
      (event.toJsonLine serde).toList.reverse := by
    rw [Envelope.toJsonLine, hin]
    simp [hclose]
  rw [Text.trimmed, trim, hfront, hback, List.reverse_reverse, String.ofList_toList]

theorem ne_empty (h : serde.Returns event) : event.toJsonLine serde ≠ "" := by
  obtain ⟨inner, hin⟩ := h.braces
  intro he
  rw [Envelope.toJsonLine] at he
  rw [he] at hin
  cases hin

theorem isBlank (h : serde.Returns event) : isBlank (event.toJsonLine serde) = false := by
  obtain ⟨inner, hin⟩ := h.braces
  have hopen : isWhiteSpace '{' = false := by decide
  rw [Text.isBlank, Envelope.toJsonLine, hin, List.cons_append, List.all_cons, hopen, Bool.false_and]

end Serde.Returns

/-- An envelope that passes the checks of the reader. -/
structure Envelope.Valid (event : Envelope) : Prop where
  schemaVersion : event.schemaVersion = 1
  eventId : isEventId event.eventId = true
  occurredAt : isIsoUtc event.occurredAt = true
  actorName : event.actorName ≠ ""
  batchId : ∀ batch ∈ event.batchId, looksLikeBatch batch = true
  taskId : ∀ task ∈ event.taskId, isTaskCoordinate event.eventType task = true
  payloadVersion : isI64 event.payloadVersion = true ∧ 1 ≤ event.payloadVersion

theorem EventType.parse_asStr (t : EventType) : EventType.parse t.asStr = some t := by
  cases t <;> rfl

theorem ActorKind.parse_asStr (k : ActorKind) : ActorKind.parse k.asStr = some k := by
  cases k <;> rfl

namespace Envelope

variable {event : Envelope}

/-- The fields of the value that is written. -/
def fields (event : Envelope) : List (String × Json) :=
  [("actor", .object [("kind", .text event.actorKind.asStr), ("name", .text event.actorName)])] ++
  (event.batchId.map fun batch => ("batch_id", Json.text batch)).toList ++
  [("event_id", .text event.eventId), ("occurred_at", .text event.occurredAt),
    ("payload", .object event.payload), ("payload_version", .integer event.payloadVersion),
    ("schema_version", .integer event.schemaVersion)] ++
  (event.taskId.map fun task => ("task_id", Json.text task)).toList ++
  [("type", .text event.eventType.asStr)]

/-- **Every field is found** where it was written. -/
theorem lookup_fields :
    event.fields.lookup "schema_version" = some (.integer event.schemaVersion) ∧
    event.fields.lookup "event_id" = some (.text event.eventId) ∧
    event.fields.lookup "occurred_at" = some (.text event.occurredAt) ∧
    event.fields.lookup "type" = some (.text event.eventType.asStr) ∧
    event.fields.lookup "actor" = some (.object [("kind", .text event.actorKind.asStr),
      ("name", .text event.actorName)]) ∧
    event.fields.lookup "payload" = some (.object event.payload) ∧
    event.fields.lookup "batch_id" = event.batchId.map .text ∧
    event.fields.lookup "task_id" = event.taskId.map .text ∧
    event.fields.lookup "payload_version" = some (.integer event.payloadVersion) := by
  cases hb : event.batchId <;> cases ht : event.taskId <;> simp [fields, hb, ht, List.lookup_cons]

theorem parseActor_fields : parseActor (some (.object [("kind", .text event.actorKind.asStr),
    ("name", .text event.actorName)])) =
    if event.actorName = "" then .error ⟨"actor.name is required"⟩
    else .ok (event.actorKind, event.actorName) := by
  simp [parseActor, List.lookup_cons, requireStr, bind, Except.bind, ActorKind.parse_asStr]

theorem optionalText_map {value : Option String} {field : String} {check : String → Bool}
    {complaint : String → String} {out : Option String} :
    optionalText (value.map .text) field check complaint = .ok out ↔
      out = value ∧ ∀ s ∈ value, check s = true := by
  cases value with
  | none =>
    simp only [Option.map_none, optionalText, Except.ok.injEq, Option.not_mem_none]
    exact ⟨fun h => ⟨h.symm, fun s hs => hs.elim⟩, fun h => h.1.symm⟩
  | some s =>
    simp only [Option.map_some, optionalText, Option.mem_def, Option.some.injEq]
    by_cases hs : check s = true
    · rw [if_pos hs, Except.ok.injEq]
      exact ⟨fun h => ⟨h.symm, fun t ht => ht ▸ hs⟩, fun h => h.1.symm⟩
    · rw [if_neg hs]
      exact ⟨fun h => (by cases h), fun h => absurd (h.2 s rfl) hs⟩

theorem parsePayloadVersion_integer {n m : Int} :
    parsePayloadVersion (some (.integer n)) = .ok m ↔ m = n ∧ isI64 n = true ∧ 1 ≤ n := by
  by_cases h1 : isI64 n = true
  · by_cases h2 : n < 1
    · simp [parsePayloadVersion, h1, h2]
    · have h2' : 1 ≤ n := by omega
      simp [parsePayloadVersion, h1, h2, h2', eq_comm]
  · simp [parsePayloadVersion, h1]

theorem requireInt_integer {n m : Int} {field : String} :
    requireInt (some (.integer n)) field = .ok m ↔ m = n ∧ isI64 n = true := by
  by_cases h : isI64 n = true <;> simp [requireInt, h, eq_comm]

/-- **The checks on the fields** let exactly the valid envelopes through, unchanged. -/
theorem parseEnvelope_fields {out : Envelope} :
    parseEnvelope event.fields = .ok out ↔ out = event ∧ event.Valid := by
  obtain ⟨h1, h2, h3, h4, h5, h6, h7, h8, h9⟩ := @lookup_fields event
  have hone : isI64 1 = true := by decide
  simp only [parseEnvelope, h1, h2, h3, h4, h5, h6, h7, h8, h9, bind_eq_ok, requireInt_integer,
    requireStr, demand_eq_ok, Except.ok.injEq]
  constructor
  · rintro ⟨_, ⟨rfl, -⟩, _, hs, _, rfl, _, hid, _, rfl, _, ht, _, rfl, h⟩
    simp only [EventType.parse_asStr, parseActor_fields, bind_eq_ok, optionalText_map,
      parsePayloadVersion_integer, Except.ok.injEq] at h
    obtain ⟨x, hx, _, ⟨rfl, hb⟩, _, ⟨rfl, htask⟩, _, ⟨rfl, hv⟩, rfl⟩ := h
    split at hx
    · cases hx
    rename_i hname
    obtain rfl := Except.ok.inj hx
    exact ⟨rfl, hs, hid, ht, hname, hb, htask, hv⟩
  · rintro ⟨rfl, hv⟩
    refine ⟨_, ⟨rfl, hv.schemaVersion ▸ hone⟩, (), hv.schemaVersion, _, rfl, (), hv.eventId, _, rfl, (),
      hv.occurredAt, _, rfl, ?_⟩
    simp only [EventType.parse_asStr, parseActor_fields, bind_eq_ok, optionalText_map,
      parsePayloadVersion_integer, Except.ok.injEq]
    exact ⟨_, if_neg hv.actorName, _, ⟨rfl, hv.batchId⟩, _, ⟨rfl, hv.taskId⟩, _,
      ⟨rfl, hv.payloadVersion⟩, rfl⟩

/-- **Reading the line back**: the event itself when its envelope is valid, and no event otherwise. -/
theorem parseLine_toJsonLine {serde : Serde} (h : serde.Returns event) {out : Envelope} :
    parseLine serde (event.toJsonLine serde) = .ok out ↔ out = event ∧ event.Valid := by
  have hread : serde.read (event.toJsonLine serde) = .ok (.object event.fields) := h.read
  simp only [parseLine, h.trimmed, if_neg h.ne_empty, hread]
  exact parseEnvelope_fields

end Envelope

/-! ## Codecs of finitely many values, for runs on fixed events -/

/-- What tells the values of different events apart. -/
def Json.mark : Json → Option String × Option String
  | .object fields => (text (fields.lookup "event_id"), text (fields.lookup "occurred_at"))
  | _ => (none, none)
where
  text : Option Json → Option String
    | some (.text s) => some s
    | _ => none

/-- The codec that knows the lines of some events. -/
def Serde.table (rows : List (Envelope × String)) : Serde where
  render v := ((rows.find? fun row => row.1.toJson.mark = v.mark).map Prod.snd).getD "null"
  read s := match rows.find? fun row => row.2 = s with
    | some row => .ok row.1.toJson
    | none => .error "not a line of the table"

/-- The digests of some texts. -/
def digestTable (rows : List (String × String)) (bytes : Bytes) : String :=
  ((rows.find? fun row => utf8 row.1 = bytes).map Prod.snd).getD
    "0000000000000000000000000000000000000000000000000000000000000000"

namespace Sample

/-- The opening of a cohort. -/
def opened : Envelope where
  eventId := "evt-1"
  occurredAt := "2026-07-08T12:24:10Z"
  eventType := .cohortOpened
  batchId := some "B-1"

def openedLine : String :=
  "\x7b\"actor\":\x7b\"kind\":\"agent\",\"name\":\"engine\"\x7d,\"batch_id\":\"B-1\",\"event_id\":\"evt-1\",\"occurred_at\":\"2026-07-08T12:24:10Z\",\"payload\":\x7b\x7d,\"payload_version\":1,\"schema_version\":1,\"type\":\"cohort.opened\"\x7d"

def openedSemanticLine : String :=
  "\x7b\"actor\":\x7b\"kind\":\"agent\",\"name\":\"engine\"\x7d,\"batch_id\":\"B-1\",\"event_id\":\"evt-1\",\"occurred_at\":\"\",\"payload\":\x7b\x7d,\"payload_version\":1,\"schema_version\":1,\"type\":\"cohort.opened\"\x7d"

def codec : Serde := .table [(opened, openedLine), (opened.semantic, openedSemanticLine)]

def digest : Bytes → String :=
  digestTable [(openedSemanticLine,
    "56e9951c136fe03ffe5c14820939252a4fc89d419deb7ff6c2d0eb2119e67ae0")]

end Sample

theorem Serde.table_oneLine {rows : List (Envelope × String)}
    (h : ∀ row ∈ rows, newline ∉ utf8 row.2) (v : Json) : newline ∉ utf8 ((table rows).render v) := by
  simp only [table]
  cases hrow : rows.find? fun row => row.1.toJson.mark = v.mark with
  | none => decide
  | some row => exact h row (List.mem_of_find?_eq_some hrow)

theorem digestTable_hex {rows : List (String × String)} (h : ∀ row ∈ rows, isHex 64 row.2 = true)
    (bytes : Bytes) : isHex 64 (digestTable rows bytes) = true := by
  simp only [digestTable]
  cases hrow : rows.find? fun row => utf8 row.1 = bytes with
  | none => decide
  | some row => exact h row (List.mem_of_find?_eq_some hrow)

namespace Sample

/-- What the lines of the events of the cohort have in common. -/
def lineHead : String :=
  "\x7b\"actor\":\x7b\"kind\":\"agent\",\"name\":\"engine\"\x7d,\"batch_id\":\"B-1\",\"event_id\":\""

def lineTime : String := "\",\"occurred_at\":\""

def lineType : String :=
  "\",\"payload\":\x7b\x7d,\"payload_version\":1,\"schema_version\":1,\"type\":\""

/-- The line of an event of the cohort up to its last brace. -/
def membersOf (eventId occurredAt name : String) : String :=
  lineHead ++ eventId ++ lineTime ++ occurredAt ++ lineType ++ name ++ "\""

def lineOf (eventId occurredAt name : String) : String :=
  membersOf eventId occurredAt name ++ "\x7d"

theorem oneLine_append {a b : String} (ha : newline ∉ utf8 a) (hb : newline ∉ utf8 b) :
    newline ∉ utf8 (a ++ b) := by
  rw [utf8_append, List.mem_append]
  exact fun h => h.elim ha hb

theorem parts_oneLine : ∀ part ∈ [lineHead, lineTime, lineType, "\"", "\x7d", "evt-1", "evt-2", "evt-3",
    "2026-07-08T12:24:10Z", "2026-07-08T13:02:51Z", "2026-07-08T13:02:52Z", "", "cohort.opened",
    "cohort.published", "cohort.closed"],
    newline ∉ utf8 part := by
  decide +kernel

theorem lineOf_oneLine {eventId occurredAt name : String} (hid : newline ∉ utf8 eventId)
    (htime : newline ∉ utf8 occurredAt) (hname : newline ∉ utf8 name) :
    newline ∉ utf8 (lineOf eventId occurredAt name) := by
  have hmembers : newline ∉ utf8 (membersOf eventId occurredAt name) :=
    oneLine_append (oneLine_append (oneLine_append (oneLine_append (oneLine_append (oneLine_append
      (parts_oneLine _ (by simp)) hid) (parts_oneLine _ (by simp))) htime)
      (parts_oneLine _ (by simp))) hname) (parts_oneLine _ (by simp))
  exact oneLine_append hmembers (parts_oneLine _ (by simp))

theorem lineOf_braces (eventId occurredAt name : String) :
    ∃ inner, (lineOf eventId occurredAt name).toList = '{' :: inner ++ ['}'] := by
  refine ⟨(membersOf eventId occurredAt name).toList.drop 1, ?_⟩
  rw [lineOf, membersOf, lineHead]
  simp only [String.toList_append]
  rfl

theorem openedLine_eq : openedLine = lineOf "evt-1" "2026-07-08T12:24:10Z" "cohort.opened" := by
  simp [openedLine, lineOf, membersOf, lineHead, lineTime, lineType]

theorem openedSemanticLine_eq : openedSemanticLine = lineOf "evt-1" "" "cohort.opened" := by
  simp [openedSemanticLine, lineOf, membersOf, lineHead, lineTime, lineType]

theorem codec_oneLine (v : Json) : newline ∉ utf8 (codec.render v) := by
  refine Serde.table_oneLine (fun row hrow => ?_) v
  simp only [List.mem_cons, List.not_mem_nil, or_false] at hrow
  rcases hrow with rfl | rfl
  · rw [openedLine_eq]
    exact lineOf_oneLine (parts_oneLine _ (by simp)) (parts_oneLine _ (by simp))
      (parts_oneLine _ (by simp))
  · rw [openedSemanticLine_eq]
    exact lineOf_oneLine (parts_oneLine _ (by simp)) (parts_oneLine _ (by simp))
      (parts_oneLine _ (by simp))

theorem digest_hex (bytes : Bytes) : isHex 64 (digest bytes) = true :=
  digestTable_hex (by decide +kernel) bytes

theorem render_opened : codec.render opened.toJson = openedLine := by
  simp [codec, Serde.table]

theorem returns_opened : codec.Returns opened where
  read := by simp [codec, Serde.table]
  braces := by rw [render_opened, openedLine_eq]; exact lineOf_braces _ _ _
  oneLine := codec_oneLine _

theorem opened_texts : isEventId opened.eventId = true ∧ isIsoUtc opened.occurredAt = true ∧
    ∀ batch ∈ opened.batchId, looksLikeBatch batch = true := by
  decide +kernel

theorem valid_opened : opened.Valid where
  schemaVersion := rfl
  eventId := opened_texts.1
  occurredAt := opened_texts.2.1
  actorName := by decide
  batchId := opened_texts.2.2
  taskId := by simp [opened]
  payloadVersion := by decide

theorem length_opened : (opened.record codec).length = 190 := by
  rw [Envelope.record, Envelope.toJsonLine, render_opened]
  decide +kernel

/-- The publication of the cohort, behind which its close transfers the active file. -/
def published : Envelope :=
  { opened with
    eventId := "evt-2", occurredAt := "2026-07-08T13:02:51Z", eventType := .cohortPublished }

def closed : Envelope :=
  { opened with
    eventId := "evt-3", occurredAt := "2026-07-08T13:02:52Z", eventType := .cohortClosed }

def publishedLine : String := lineOf "evt-2" "2026-07-08T13:02:51Z" "cohort.published"

def closedLine : String := lineOf "evt-3" "2026-07-08T13:02:52Z" "cohort.closed"

def publishedSemanticLine : String := lineOf "evt-2" "" "cohort.published"

def closedSemanticLine : String := lineOf "evt-3" "" "cohort.closed"

def endingCodec : Serde :=
  .table [(published, publishedLine), (closed, closedLine),
    (published.semantic, publishedSemanticLine), (closed.semantic, closedSemanticLine)]

def endingDigest : Bytes → String :=
  digestTable [
    (publishedSemanticLine, "b5a2df4f311f74983f1dbe12abaa25ffb381e463cf86d37230d214520680c5f6"),
    (closedSemanticLine, "c01b8b3e256f1c315005dbebd5c84365338b282aaf49335245193150566cbc60"),
    (publishedLine ++ "\n" ++ closedLine ++ "\n",
      "c69c917df4d5aa4d7d8b2925aa8cce66bc0c6bd10db0d1c093f99b942fd24a62")]

theorem endingCodec_oneLine (v : Json) : newline ∉ utf8 (endingCodec.render v) := by
  refine Serde.table_oneLine (fun row hrow => ?_) v
  simp only [List.mem_cons, List.not_mem_nil, or_false] at hrow
  rcases hrow with rfl | rfl | rfl | rfl <;>
    exact lineOf_oneLine (parts_oneLine _ (by simp)) (parts_oneLine _ (by simp))
      (parts_oneLine _ (by simp))

theorem render_published : endingCodec.render published.toJson = publishedLine := by
  simp [endingCodec, Serde.table]

theorem render_closed : endingCodec.render closed.toJson = closedLine := by
  have hmark : published.toJson.mark ≠ closed.toJson.mark := by decide
  simp [endingCodec, Serde.table, hmark]

theorem returns_published : endingCodec.Returns published where
  read := by
    rw [render_published]
    simp [endingCodec, Serde.table]
  braces := by rw [render_published]; exact lineOf_braces _ _ _
  oneLine := endingCodec_oneLine _

theorem returns_closed : endingCodec.Returns closed where
  read := by
    have hline : publishedLine ≠ closedLine := by decide +kernel
    rw [render_closed]
    simp [endingCodec, Serde.table, hline]
  braces := by rw [render_closed]; exact lineOf_braces _ _ _
  oneLine := endingCodec_oneLine _

theorem endingDigest_hex (bytes : Bytes) : isHex 64 (endingDigest bytes) = true :=
  digestTable_hex (by decide +kernel) bytes

end Sample

end Orchestrail
