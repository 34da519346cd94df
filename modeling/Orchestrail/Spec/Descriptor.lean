import Orchestrail.Spec.Canary
import Orchestrail.Spec.Manifest

/-!
# The descriptor of one task

`parse_descriptor` and `patch_descriptor` on the text of one `task.md`. A patch sets up to ten
fields of the text, each by `set_line_field`, and replaces the file by the result; what is refused
before that leaves the file.
-/

namespace Orchestrail

open Text Outcome

/-! ## Words of the fields -/

/-- `Level::from_field`. -/
def Level.fromField (literal : List Char) : Option Level :=
  if trim literal = "coder_fast".toList then some .coderFast
  else if trim literal = "coder".toList then some .coder
  else if trim literal = "coder_deep".toList then some .coderDeep
  else none

/-- `Risk::from_field`. -/
def Risk.fromField (literal : List Char) : Option Risk :=
  (splitWhitespace literal).head?.bind Risk.fromToken

namespace Canary

/-- `Ecosystem::parse`. -/
def Ecosystem.parse (value : List Char) : Ecosystem :=
  if trim value ∈ ["cargo", "npm", "pip", "uv", "nuget"].map String.toList then .managed else .other

def networkNeed (setLiteral ecoLiteral : Option (List Char)) : Option NetworkNeed :=
  if setLiteral.map trim = some "требуется".toList then
    some ⟨(ecoLiteral.map Ecosystem.parse).getD .other⟩
  else none

end Canary

namespace Descriptor

open Canary (NetworkNeed networkNeed)

/-- `parse_task_id_list`. -/
def parseTaskIdList (value : List Char) : List String :=
  ((pieces (· == ',') value).map fun token => String.ofList (trim token)).filter isTaskId

/-- The tokens of `Реализовано:`. -/
def parseAuthors (value : List Char) : List (List Char) :=
  ((pieces (· == ',') value).map trim).filter fun author => !author.isEmpty

def parseReviewCycles (text : List Char) : Option Nat :=
  (lineField text "Циклов-ревью:").bind fun value => (splitWhitespace value).head?.bind parseU32

/-- What `parse_descriptor` reads. -/
structure Parsed where
  id : String
  state : Option TaskState
  statusLiteral : Option (List Char)
  prerequisites : List String
  conflictDomain : Option (List (List Char))
  level : Option Level
  risk : Option Risk
  network : Option NetworkNeed
  batchId : Option (List Char)
  branch : Option (List Char)
  worktree : Option (List Char)
  implementationAuthors : List (List Char)
  reviewSha : Option (List Char)
  reviewCycles : Option Nat

def parseDescriptor (id : String) (text : List Char) : Parsed where
  id := id
  state := (lineField text "Статус:").bind TaskState.fromMarkdown
  statusLiteral := lineField text "Статус:"
  prerequisites := ((lineField text "Предпосылки:").map parseTaskIdList).getD []
  conflictDomain := (lineField text "Конфликт-домен:").bind fun value =>
    Manifest.parseConflictDomain (String.ofList value)
  level := (lineField text "Рекомендуемый исполнитель:").bind Level.fromField
  risk := (lineField text "Риск:").bind Risk.fromField
  network := networkNeed (lineField text "Сеть:") (lineField text "Экосистема:")
  batchId := lineField text "Батч:"
  branch := lineField text "Ветка:"
  worktree := lineField text "Worktree:"
  implementationAuthors := ((lineField text "Реализовано:").map parseAuthors).getD []
  reviewSha := lineField text "Ревью-SHA:"
  reviewCycles := parseReviewCycles text

/-! ## The patch -/

structure DescriptorPatch where
  state : TaskState
  batchId : Option (List Char) := none
  branch : Option (List Char) := none
  worktree : Option (List Char) := none
  wave : Option Manifest.U32 := none
  implementationAuthor : Option (List Char) := none
  risk : Option Risk := none
  reviewSha : Option (List Char) := none
  reviewCycles : Option Manifest.U32 := none
  reason : Option (List Char) := none

def setSome (field : String) (value : Option (List Char)) (content : List Char) : List Char :=
  match value with
  | some value => setLineField content field (String.ofList value)
  | none => content

def decimal (n : Manifest.U32) : List Char := Nat.toDigits 10 n.1

/-- The authors with one more, unless it is the last. -/
def appendAuthor (authors : List (List Char)) (value : List Char) : List (List Char) :=
  if authors.getLast? = some value then authors else authors ++ [value]

def joinAuthors (authors : List (List Char)) : List Char := [',', ' '].intercalate authors

/-- The transition is one of the lifecycle, or none. -/
def checkTransition (taskId : String) (previous : Option TaskState) (state : TaskState) :
    Control Unit :=
  match previous with
  | some previous => demand (previous = state ∨ validTaskTransition previous state = true)
      (.contradiction ("illegal descriptor transition for " ++ taskId ++ ": " ++ previous.asStr ++
        " -> " ++ state.asStr))
  | none => .ok ()

/-- What is written of a risk: nothing for the risk that stands, and a lower one is refused. -/
def elevatedRisk (taskId : String) (old : Option Risk) : Option Risk →
    Control (Option (List Char))
  | none => .ok none
  | some value =>
    match old with
    | some previous =>
      if value.rank < previous.rank then
        .error (.contradiction
          s!"descriptor risk for {taskId} cannot decrease from {previous.asStr} to {value.asStr}")
      else if value = previous then .ok none
      else .ok (some (value.asStr ++ " — elevated by deterministic engine (previous: " ++
        previous.asStr ++ ")").toList)
    | none => .ok (some (value.asStr ++ " — elevated by deterministic engine").toList)

def checkReviewSha : Option (List Char) → Control Unit
  | some value => QueueEntry.validateRef value "review SHA"
  | none => .ok ()

/-- The text with the patch. -/
def patched (taskId : String) (patch : DescriptorPatch) (content : List Char) :
    Control (List Char) := do
  let old := parseDescriptor taskId content
  checkTransition taskId old.state patch.state
  let content := setLineField content "Статус:" patch.state.literal
  let content := setSome "Батч:" patch.batchId content
  let content := setSome "Ветка:" patch.branch content
  let content := setSome "Worktree:" patch.worktree content
  let content := setSome "Волна:" (patch.wave.map decimal) content
  let content := setSome "Реализовано:" (patch.implementationAuthor.map fun value =>
    joinAuthors (appendAuthor old.implementationAuthors value)) content
  let content := setSome "Риск:" (← elevatedRisk taskId old.risk patch.risk) content
  checkReviewSha patch.reviewSha
  let content := setSome "Ревью-SHA:" patch.reviewSha content
  let content := setSome "Циклов-ревью:" (patch.reviewCycles.map decimal) content
  return setSome "Причина:" (patch.reason.map QueueEntry.sanitizeReason) content

def descriptorPath (taskId : String) : String := ".work/tasks/" ++ taskId ++ "/task.md"

/-- `patch_descriptor` up to the text that replaces the file. -/
def descriptorPatched (taskId : String) (patch : DescriptorPatch) (file : Option (List Char)) :
    Control (List Char) := do
  ControlPlane.validateTaskId taskId
  let content ← readRequired (descriptorPath taskId) file
  let text ← patched taskId patch content
  demand (textBytes text ≤ maxControlBytes) (oversize .invalidInput (descriptorPath taskId))
  return text

/-- `patch_descriptor`: its answer, and the file afterwards. -/
def patchDescriptor (taskId : String) (patch : DescriptorPatch) (file : Option (List Char)) :
    Control Unit × Option (List Char) :=
  match descriptorPatched taskId patch file with
  | .ok text => (.ok (), some text)
  | .error error => (.error error, file)

end Descriptor

end Orchestrail
