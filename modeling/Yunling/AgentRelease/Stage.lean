/-
Staging a release on an agent (`extractArchive` of
`internal/agentupdate/stager.go`), and the members of an archive as both
the import and the agent read them.

A member's body is the text Go reads in it: characters, and bytes that
belong to none. The import only looks at the first 256 bytes of one
member, and passes over the other bodies; the reader fails at the next
member when a body breaks off (`torn`).
-/
import Yunling.AgentRelease.Service

namespace Yunling.AgentRelease

-- ======== members

/-- The text of a body; `none` is a byte of no character. -/
abbrev Body := List (Option Char)

/-- The first bytes of a body. Of a character that is cut there are only
bytes left. -/
def Body.first : Nat → Body → Body
  | _, [] => []
  | n, r :: rest =>
    let size := r.elim 1 Char.utf8Size
    if size ≤ n then r :: Body.first (n - size) rest else List.replicate n none

/-- The text, where there is nothing but characters. -/
def Body.text (body : Body) : Option String :=
  if none ∈ body then none else some (String.ofList (body.filterMap id))

/-- The header of a member with its body. -/
structure Member where
  regular : Bool
  name : String
  body : Body

/-- The members of an archive, and how reading them ends. -/
inductive Members where
  | eof
  | broken
  /-- the body breaks off -/
  | torn (m : Member)
  | member (m : Member) (rest : Members)

/-- What the import sees of the members. -/
def Members.items : Members → List TarItem
  | .eof => []
  | .broken => [.broken]
  | .torn m =>
    [.entry ⟨m.regular, m.name,
        if (m.body.map (·.elim 1 Char.utf8Size)).sum < 256 then none
        else (m.body.first 256).text⟩, .broken]
  | .member m rest => .entry ⟨m.regular, m.name, (m.body.first 256).text⟩ :: rest.items

-- ======== staging

/-- The errors of staging. -/
inductive StageError where
  | invalidArchive
  | versionMismatch
  deriving DecidableEq

/-- The keys of `allowed`. -/
def stageable : List String :=
  ["agent-version", "yunling-agent", "install.sh", "yunling-agent.service", "yunling-run@.service",
    "yunling-agent-upgrade@.service", "50-yunling-agent.rules"]

/-- `filepath.Base` of a name that is not empty. -/
def base (name : String) : String :=
  String.ofList ((name.toList.reverse.takeWhile (· ≠ '/')).reverse)

/-- A file that was written, with its mode. -/
structure Staged where
  name : String
  contents : Body
  mode : Nat
  deriving DecidableEq

/-- The loop of `extractArchive`, with the files written so far. -/
def extractEntries (version : String) (files : List Staged) :
    Members → Except StageError (List Staged)
  | .eof => .ok files
  | .broken => .error .invalidArchive
  | .torn _ => .error .invalidArchive
  | .member m rest =>
    if !m.regular then .error .invalidArchive
    else if m.name ∉ stageable ∨ m.name ∈ files.map (·.name) ∨ base m.name ≠ m.name then
      .error .invalidArchive
    else if m.name = "agent-version"
        ∧ m.body.text.map Scheduler.trimSpace ≠ some version.toList then
      .error .versionMismatch
    else
      let mode := if m.name = "yunling-agent" ∨ m.name = "install.sh" then 0o700 else 0o600
      extractEntries version (⟨m.name, m.body, mode⟩ :: files) rest

/-- `extractArchive`, whose writes succeed; there are no members where
the archive is no gzip file. -/
def extractArchive (version : String) : Option Members → Except StageError (List Staged)
  | none => .error .invalidArchive
  | some members => do
    let files ← extractEntries version [] members
    if stageable.all (files.map (·.name)).contains then return files
    else throw .invalidArchive

end Yunling.AgentRelease
