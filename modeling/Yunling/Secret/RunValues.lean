/-
The secrets of a run, as dispatch hands them to the agent
(`resolveSecretBindings` of `internal/dispatch/service.go`) and as the
redaction of its log looks them up (`ValuesForRun` of
`internal/secret/run_values.go`).

Both read the bindings that were stored when the run was queued, and both
ask the secret service (`Resolve` of `internal/secret/service.go`). The
repository and the decryption are a parameter, `Vault`; the ids of its
rows are those of `uuid.NewString`.
-/
import Mathlib.Data.List.Sort
import Yunling.Scheduler.Model

namespace Yunling.Secret

/-- The errors of the package. -/
inductive SecretError where
  | invalidSecret
  | secretNotFound
  | keyUnavailable
  | runAccessDenied
  | failed
  deriving DecidableEq

/-- `strings.TrimSpace`. -/
def trim (text : String) : String := String.ofList (Scheduler.trimSpace text)

/-- The repository, with what opens its rows: the master key of a row's
version, and the data key. -/
structure Vault (σ : Type) where
  id : σ → String
  load : List String → Except SecretError (List σ)
  opened : σ → Except SecretError String
  /-- `Load` of nothing asks nobody -/
  load_nil : load [] = .ok []
  id_trim : ∀ ids items, load ids = .ok items → ∀ item ∈ items, trim (id item) = id item

/-- The loops over `seen`. -/
def unique (seen : List String) : List String → List String
  | [] => []
  | ref :: refs =>
    if ref ∈ seen then unique seen refs else ref :: unique (ref :: seen) refs

/-- A map at a key; what was written last counts. -/
def valueAt (values : List (String × String)) (key : String) : Except SecretError String :=
  (values.reverse.lookup key).elim (.error .secretNotFound) .ok

/-- `Resolve`, and `ResolveForRun`. -/
def Vault.resolve {σ : Type} (vault : Vault σ) (refs : List String) :
    Except SecretError (List (String × String)) := do
  if refs.any (trim · == "") then throw .invalidSecret
  let stored ← vault.load (unique [] refs)
  if stored.length ≠ (unique [] refs).length then throw .secretNotFound
  stored.mapM fun item => do return (vault.id item, ← vault.opened item)

/-- The bindings in the order of their names. -/
def sorted (bindings : List (String × String)) : List (String × String) :=
  bindings.insertionSort (·.1 ≤ ·.1)

/-- `resolveSecretBindings`: the value of each name. -/
def resolveSecretBindings {σ : Type} (vault : Option (Vault σ))
    (bindings : List (String × String)) : Option (List (String × String)) :=
  if bindings = [] then some []
  else vault.bind fun vault =>
    if (sorted bindings).any fun b => trim b.1 == "" || trim b.2 == "" then none
    else Except.toOption do
      let resolved ← vault.resolve ((sorted bindings).map (trim ·.2))
      (sorted bindings).mapM fun b => do return (b.1, ← valueAt resolved (trim b.2))

/-- `ValuesForRun` of a run whose bindings were found. -/
def valuesForRun {σ : Type} (vault : Option (Vault σ)) (found : Option (List (String × String))) :
    Except SecretError (List String) :=
  match vault, found with
  | some vault, some bindings => do
    let ids := unique [] ((sorted bindings).map (·.2))
    let resolved ← vault.resolve ids
    ids.mapM (valueAt resolved)
  | _, _ => .error .runAccessDenied

end Yunling.Secret
