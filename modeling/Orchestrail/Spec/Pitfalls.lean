import Orchestrail.Spec.Archive
import Orchestrail.Spec.Canary

/-!
# Environment limits of the knowledge base

What `headless.rs` reads of the pitfalls of a knowledge base before it routes a task: the front
matter and the `ENV_LIMIT/` markers of every file, folded to the one limit that `codexRoute` is
given. A file is its name and what reading it answers.
-/

namespace Orchestrail.Pitfalls

open Text Canary

/-- `EnvLimitClass::parse`. -/
def parseLimit (name : List Char) : EnvLimitClass :=
  let name := String.ofList (trim name)
  if name = "vcs-write" then .vcsWrite
  else if name = "network" then .network
  else if name = "tls-schannel" then .tlsSchannel
  else if name = "profile-denied" then .profileDenied
  else if name = "sandbox-init-worktree" then .sandboxInitWorktree
  else .unknown

/-- `text.lines()` up to the line that closes the front matter, and the value of a key there. -/
def frontmatterValue (key : List Char) : List (List Char) → Option (List Char)
  | [] => none
  | line :: lines =>
    if trim line = "---".toList then none
    else match (stripFront key (trim line)).bind (stripFront [':']) with
      | some value => some (trim value)
      | none => frontmatterValue key lines

def frontmatterField (text : List Char) (key : String) : Option (List Char) :=
  match textLines text with
  | [] => none
  | first :: lines => if trim first = "---".toList then frontmatterValue key.toList lines else none

def marker : List Char := "ENV_LIMIT/".toList

/-- The characters of a class. -/
def isClassChar (ch : Char) : Bool :=
  isAsciiAlpha ch || isAsciiDigit ch || ch == '-' || ch == '_'

/-- What stands behind each match of the marker; no match of it begins inside another. -/
def markerTexts : List Char → List (List Char)
  | [] => []
  | ch :: text =>
    if marker.isPrefixOf (ch :: text) then
      ((ch :: text).drop marker.length).takeWhile isClassChar :: markerTexts text
    else markerTexts text

/-- The classes of the markers of a text, in their order. -/
def markers (text : List Char) : List EnvLimitClass :=
  ((markerTexts text).filter fun name => !name.isEmpty).map parseLimit

/-- The loop of `env_limit_class` over the markers. -/
def scanMarkers : List EnvLimitClass → Option EnvLimitClass → Option EnvLimitClass →
    Option EnvLimitClass
  | [], worktreeCanary, pathDependent => worktreeCanary.or pathDependent
  | limit :: limits, worktreeCanary, pathDependent =>
    match limit with
    | .vcsWrite | .profileDenied | .unknown => some limit
    | .sandboxInitWorktree => scanMarkers limits (worktreeCanary.or (some limit)) pathDependent
    | .network | .tlsSchannel => scanMarkers limits worktreeCanary (pathDependent.or (some limit))

def envLimitClass (text : List Char) : Option EnvLimitClass := scanMarkers (markers text) none none

/-! ## The pitfalls of a task -/

/-- An entry of `knowledge/pitfalls`. -/
structure PitfallFile where
  name : String
  text : Reads (List Char)

/-- `path.extension() == Some("md")`. -/
def isMarkdown (name : String) : Bool :=
  match name.toList.reverse with
  | 'd' :: 'm' :: '.' :: stem => !stem.isEmpty
  | _ => false

/-- The front matter of a pitfall that counts for the task. -/
def inScope (taskDomain : Domain) (text : List Char) : Bool :=
  frontmatterField text "type" == some "pitfall".toList &&
    (frontmatterField text "status" == some "active".toList ||
      frontmatterField text "status" == some "stale-suspect".toList) &&
    (frontmatterField text "scope" == some "runtime:codex-worktree".toList ||
      (((frontmatterField text "scope").map fun scope => Domain.parse (String.ofList scope)).getD
        ⟨[], true⟩).intersects taskDomain)

/-- The limits kept while the files are read. -/
structure Limits where
  hardLimit : Option EnvLimitClass := none
  worktreeCanary : Option EnvLimitClass := none
  pathDependent : Option EnvLimitClass := none

/-- `get_or_insert` into the slot of a class. -/
def Limits.keep (l : Limits) (limit : EnvLimitClass) : Limits :=
  match limit with
  | .vcsWrite | .profileDenied | .unknown => { l with hardLimit := l.hardLimit.or (some limit) }
  | .sandboxInitWorktree => { l with worktreeCanary := l.worktreeCanary.or (some limit) }
  | .network | .tlsSchannel => { l with pathDependent := l.pathDependent.or (some limit) }

def Limits.strongest (l : Limits) : Option EnvLimitClass :=
  (l.hardLimit.or l.worktreeCanary).or l.pathDependent

/-- The loop over the files. -/
def readPitfalls (taskDomain : Domain) : Limits → List PitfallFile → Reads Limits
  | l, [] => .ok l
  | l, file :: files =>
    if isMarkdown file.name then do
      let text ← file.text
      if inScope taskDomain text then
        match envLimitClass text with
        | some limit => readPitfalls taskDomain (l.keep limit) files
        | none => readPitfalls taskDomain l files
      else readPitfalls taskDomain l files
    else readPitfalls taskDomain l files

/-- The domain of a task, by the globs of its descriptor. -/
def taskDomain (conflictDomain : Option (List String)) : Domain :=
  match conflictDomain with
  | some globs => ⟨globs.map fun glob => matcher glob.toList, false⟩
  | none => ⟨[], true⟩

/-- `task_kb_pitfall`; the directory is absent, or lists its files in any order. -/
def taskKbPitfall (knowledgeBase : Bool) (conflictDomain : Reads (Option (List String)))
    (pitfalls : Reads (Option (List PitfallFile))) : Reads (Option EnvLimitClass) :=
  if knowledgeBase then do
    let globs ← conflictDomain
    match ← pitfalls with
    | none => return none
    | some files =>
      let limits ← readPitfalls (taskDomain globs) {}
        (files.mergeSort fun a b => decide (a.name ≤ b.name))
      return limits.strongest
  else return none

end Orchestrail.Pitfalls
