import Orchestrail.Lib.Outcome
import Orchestrail.Spec.Admission

/-!
# The operator's policy

`policy.rs`: the active constraints of `.work/constraints.md`, the early check of a conflict domain
and the exact check of changed paths.

Paths are those of a Unix host. The parser of a typed argument vector, which decides about required
commands only, is a parameter.
-/

namespace Orchestrail

open Text Outcome

structure Policy where
  deniedPaths : List String
  allowedBranches : List String
  allowedRemotes : List String
  pushRequiresApproval : Bool
  requiredVerificationCommands : List String
  requiredCiChecks : List String
  deriving DecidableEq

inductive PolicyError where
  | io (message : String)
  | malformed (message : String)
  | deniedPath (path pattern : String)
  | deniedBranch (branch : String)
  | deniedRemote (remote : String)
  | approvalRequired
  deriving DecidableEq

abbrev PolicyResult (α : Type) := Except PolicyError α

inductive PolicySection where
  | none | denylist | branches | push | requiredChecks | publishCi
  deriving DecidableEq

def Policy.default : Policy := ⟨[], [], [], false, [], []⟩

/-- `str::contains` of a text. -/
def hasText (text : String) (s : List Char) : Bool := s.tails.any text.toList.isPrefixOf

def beginsWith (text : String) (s : List Char) : Bool := text.toList.isPrefixOf s

def PolicySection.fromHeading (heading : List Char) : PolicySection :=
  if beginsWith "Запрещённые пути" heading then .denylist
  else if beginsWith "Разрешённые ветки" heading then .branches
  else if beginsWith "Push/merge policy" heading then .push
  else if beginsWith "Обязательные проверки" heading then .requiredChecks
  else if beginsWith "Обязательные CI-проверки публикации" heading then .publishCi
  else .none

/-! ## Lists of values -/

/-- The pieces between backticks, which are the second of every two. -/
def quotedPieces : List (List Char) → List (List Char)
  | _ :: value :: rest => value :: quotedPieces rest
  | _ => []

def splitActiveValues (value : List Char) (what : String) : PolicyResult (List (List Char)) := do
  let quoteCount := value.count '\x60'
  demand (quoteCount % 2 = 0)
    (.malformed s!"unmatched backtick in {what} list {quoted (String.ofList value)}")
  let values :=
    if 0 < quoteCount then (quotedPieces (pieces (· = '\x60') value)).map trim
    else ((pieces (· = ',') value).map trim).filter (!·.isEmpty)
  demand (¬ (values.isEmpty = true ∨ values.any List.isEmpty = true))
    (.malformed s!"{what} list has an empty value: {quoted (String.ofList value)}")
  .ok values

def isSlash (ch : Char) : Bool := ch = '/' || ch = '\\'

def validateRelativeGlob (value : List Char) (what : String) : PolicyResult String := do
  let value := trim value
  demand (¬ (value.isEmpty = true ∨ value.head?.any isSlash = true ∨ value.contains ':' = true ∨
      value.contains '\x00' = true ∨ (pieces isSlash value).contains ['.', '.'] = true))
    (.malformed s!"invalid {what} path glob {quoted (String.ofList value)}")
  .ok (String.ofList value)

/-- Backslashes read as slashes. -/
def slashed (s : List Char) : List Char := s.map fun ch => if ch = '\\' then '/' else ch

def normaliseRelativePath (path : String) : PolicyResult String := do
  demand (startsWith path '/' = false)
    (.malformed s!"changed path must be repository-relative: {path}")
  validateRelativeGlob (slashed path.toList) "changed"

def Policy.validateRef (value what : String) : PolicyResult Unit :=
  demand (¬ (isBlank value = true ∨ startsWith value '-' = true ∨ contains value '\x00' = true ∨
      contains value '\n' = true ∨ contains value '\r' = true))
    (.malformed s!"invalid {what} {quoted value}")

def validateRequiredCiCheck (value : List Char) : PolicyResult String := do
  let value := trim value
  demand (¬ (value.isEmpty = true ∨ value.contains '\x00' = true ∨ value.contains '\n' = true ∨
      value.contains '\r' = true))
    (.malformed s!"invalid required CI check name {quoted (String.ofList value)}")
  .ok (String.ofList value)

/-- The text outside of parentheses, and how many are open at its end. -/
def bareText (value : List Char) : Nat → List Char → PolicyResult (List Char)
  | 0, [] => .ok []
  | _ + 1, [] => .error (.malformed
    s!"unmatched parenthesis in required CI check {quoted (String.ofList value)}")
  | depth, '(' :: rest => bareText value (depth + 1) rest
  | 0, ')' :: _ => .error (.malformed
    s!"unmatched parenthesis in required CI check {quoted (String.ofList value)}")
  | depth + 1, ')' :: rest => bareText value depth rest
  | 0, ch :: rest => (bareText value 0 rest).map (ch :: ·)
  | depth + 1, _ :: rest => bareText value (depth + 1) rest

def parseRequiredCiChecks (value : List Char) : PolicyResult (List String) := do
  let quoteCount := value.count '\x60'
  demand (quoteCount % 2 = 0)
    (.malformed s!"unmatched backtick in required CI check {quoted (String.ofList value)}")
  if 0 < quoteCount then (quotedPieces (pieces (· = '\x60') value)).mapM validateRequiredCiCheck
  else do
    let bare ← bareText value 0 value
    let isComma := fun ch : Char => ch == ','
    let cut := ((trim bare).dropWhile isComma).reverse.dropWhile isComma
    let check ← validateRequiredCiCheck cut.reverse
    .ok [check]

/-! ## The constraints file -/

section Parse

variable (parseTypedArgv : String → Except String (List String))

def parseRequiredVerificationCommand (value : List Char) : PolicyResult String := do
  let value := trim value
  let unquoted :=
    match value with
    | '\x60' :: command => if command.getLast? = some '\x60' then command.dropLast else value
    | _ => value
  let value := String.ofList (trim unquoted)
  match parseTypedArgv value with
  | .error error => .error (.malformed
    s!"required verification command {quoted value} is not typed argv: {error}")
  | .ok _ => .ok value

structure PolicyReader where
  section_ : PolicySection
  active : Bool
  policy : Policy

/-- One active bullet of a section. -/
def readBullet (section_ : PolicySection) (policy : Policy) (value : List Char) :
    PolicyResult Policy :=
  match section_ with
  | .none => .ok policy
  | .denylist => do
    let values ← splitActiveValues value "denylist"
    let denied ← values.mapM (validateRelativeGlob · "denylist")
    .ok { policy with deniedPaths := policy.deniedPaths ++ denied }
  | .branches => do
    let branches ←
      match stripFront "Ветки публикации:".toList value with
      | some rest => do
        let branches ← splitActiveValues rest "publication branch"
        branches.forM fun branch => Policy.validateRef (String.ofList branch) "publication branch"
        .ok (branches.map String.ofList)
      | none => .ok []
    let remotes ←
      match stripFront "Remotes:".toList value with
      | some rest => do
        let remotes ← splitActiveValues rest "remote"
        remotes.forM fun remote => Policy.validateRef (String.ofList remote) "remote"
        .ok (remotes.map String.ofList)
      | none => .ok []
    .ok { policy with allowedBranches := policy.allowedBranches ++ branches
                      allowedRemotes := policy.allowedRemotes ++ remotes }
  | .push =>
    if beginsWith "Публикация (push):" value && hasText "требует ручного" value then
      .ok { policy with pushRequiresApproval := true }
    else .ok policy
  | .requiredChecks => do
    let command ← parseRequiredVerificationCommand parseTypedArgv value
    .ok { policy with
      requiredVerificationCommands := policy.requiredVerificationCommands ++ [command] }
  | .publishCi => do
    let checks ← parseRequiredCiChecks value
    .ok { policy with requiredCiChecks := checks.foldl (fun checks check =>
      if checks.contains check then checks else checks ++ [check]) policy.requiredCiChecks }

def readPolicyLine (reader : PolicyReader) (line : List Char) : PolicyResult PolicyReader :=
  let trimmed := trim line
  match stripFront "## ".toList trimmed with
  | some title => .ok { reader with section_ := .fromHeading title, active := false }
  | none =>
    if beginsWith "**Активные ограничения**" trimmed then .ok { reader with active := true }
    else if beginsWith "**Пример**" trimmed then .ok { reader with active := false }
    else if !reader.active then .ok reader
    else
      match (stripFront "- ".toList trimmed).map trim with
      | none => .ok reader
      | some value =>
        if value.isEmpty || beginsWith "(пусто" value || hasText "по умолчанию" value then
          .ok reader
        else (readBullet parseTypedArgv reader.section_ reader.policy value).map fun policy =>
          { reader with policy := policy }

/-- Decode active bullets only. -/
def Policy.parse (text : String) : PolicyResult Policy :=
  ((pieces (· = '\n') text.toList).foldlM (readPolicyLine parseTypedArgv)
    ⟨.none, false, .default⟩).map PolicyReader.policy

end Parse

/-! ## Globs -/

/-- What is left of a path at the start of a segment: all of it, or what follows a slash. -/
def afterSlashes : List Char → List (List Char)
  | [] => [[]]
  | path => path :: (path.tails.filter fun tail =>
      (path.take (path.length - tail.length)).getLast? == some '/')

/-- What is left of a path within its first segment. -/
def withinSegment : List Char → List (List Char)
  | [] => [[]]
  | ch :: path => if ch = '/' then [ch :: path] else (ch :: path) :: withinSegment path

/-- The matcher of `glob_matches`, on what is left of the pattern and of the path. -/
def globList : List Char → List Char → Bool
  | [], path => path.isEmpty
  | '*' :: '*' :: '/' :: pattern, path => (afterSlashes path).any (globList pattern)
  | '*' :: '*' :: pattern, path => path.tails.any (globList pattern)
  | '*' :: pattern, path => (withinSegment path).any (globList pattern)
  | '?' :: pattern, ch :: path => ch ≠ '/' && globList pattern path
  | ch :: pattern, other :: path => ch = other && globList pattern path
  | _ :: _, [] => false

def globMatches (pattern path : String) : Bool :=
  globList (slashed pattern.toList) (slashed path.toList)

namespace Policy

variable (policy : Policy)

/-- Reject a planned conflict domain when it may overlap any denied path. -/
def checkDomain (domain : String) : PolicyResult Unit := do
  demand (isBlank domain = false) (.malformed "candidate has no usable conflict domain")
  policy.deniedPaths.forM fun pattern =>
    demand ((Domain.parse domain).intersects (.parse pattern) = false) (.deniedPath domain pattern)

/-- Check exact repository-relative changed paths. -/
def checkPaths (paths : List String) : PolicyResult Unit :=
  paths.forM fun path => do
    let path ← normaliseRelativePath path
    policy.deniedPaths.forM fun pattern =>
      demand (globMatches pattern path = false) (.deniedPath path pattern)

end Policy

end Orchestrail
