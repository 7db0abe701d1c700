/-
The message a run is assigned with (`executionCommand` of
`internal/dispatch/service.go`), and the agent's reader.

`wsjson.Write` sends a command as one message, its JSON and a newline.
The agent's connection keeps the read limit it was dialled with
(`DialHeartbeatSender`); a longer message ends it. Parameters and secrets
are encoded twice, as documents and then as values of the environment,
and nothing bounds them but the size of a request
(`long_parameter_unreceived`). `ClaimedRun.load` counts what each input
adds to the message (`assignment_received_iff`).
-/
import Yunling.Platform.Basic

namespace Yunling

-- ======== encoding

/-- The characters with an escape of their own. -/
def shortEscapes : List (Char × Char) :=
  [('"', '"'), ('\\', '\\'), ('\x08', 'b'), ('\x0c', 'f'), ('\n', 'n'), ('\r', 'r'), ('\t', 't')]

/-- A character of a JSON string, as `encoding/json` writes it. -/
def quoteRune (c : Char) : List Char :=
  match shortEscapes.lookup c with
  | some letter => ['\\', letter]
  | none =>
    if c.toNat < 0x20 ∨ c = '<' ∨ c = '>' ∨ c = '&' then
      ['\\', 'u', '0', '0', Nat.digitChar (c.toNat / 16), Nat.digitChar (c.toNat % 16)]
    else if c.toNat = 0x2028 ∨ c.toNat = 0x2029 then
      ['\\', 'u', '2', '0', '2', Nat.digitChar (c.toNat % 16)]
    else [c]

/-- A JSON string. -/
def quote (text : String) : List Char := '"' :: text.toList.flatMap quoteRune ++ ['"']

/-- A member of an object. -/
def member (entry : String × List Char) : List Char := quote entry.1 ++ ':' :: entry.2

/-- A JSON object. -/
def object : List (String × List Char) → List Char
  | [] => ['\x7b', '\x7d']
  | entry :: rest =>
    '\x7b' :: member entry ++ rest.flatMap (fun entry => ',' :: member entry) ++ ['\x7d']

/-- The JSON of a parameter. -/
def ParameterValue.json : ParameterValue → List Char
  | .null => "null".toList
  | .text value => quote value
  | .boolean value => (toString value).toList
  | .number json | .compound json => json.toList

/-- `json.Marshal` of a map, by its keys. -/
def marshal (parameters : Parameters) : String :=
  String.ofList (object
    ((parameters.insertionSort fun a b => a.1 ≤ b.1).map fun p => (p.1, p.2.json)))

-- ======== message

/-- `dispatch.Run`, with the columns the assignment is built from;
`policy` is the JSON of an artifact policy. -/
structure ClaimedRun extends DispatchRun where
  policy : Option String
  scriptID : String
  scriptVersionID : String
  runtime : String
  entrypoint : String
  parameters : Parameters
  resources : Resources
  tasksMax : Int
  timeout : Int

/-- A row as `Claim` returns it, with the two columns that are only in
the manifest of the version. -/
def Database.claimedRun (db : Database) (entrypoint : String) (policy : Option String)
    (r : TaskRun) : ClaimedRun where
  toDispatchRun := db.dispatchRun r
  policy := policy
  scriptID := ((db.versions.find? r.scriptVersionId).map (·.scriptId)).getD ""
  scriptVersionID := r.scriptVersionId
  runtime := r.requiredRuntime
  entrypoint := entrypoint
  parameters := r.parametersSnapshot
  resources := r.resources
  tasksMax := 0
  timeout := r.timeoutSeconds * 10 ^ 9

/-- The limits, where `DefaultTasksMax` is 64. -/
def ClaimedRun.limits (run : ClaimedRun) : List (String × List Char) :=
  [("cpu_millicores", run.resources.cpuMillicores), ("memory_bytes", run.resources.memoryBytes),
    ("disk_bytes", run.resources.diskBytes),
    ("tasks_max", if run.tasksMax ≤ 0 then 64 else run.tasksMax)].map
      fun limit => (limit.1, (toString limit.2).toList)

/-- `path.Join` of parts that are clean. -/
def ClaimedRun.scriptPath (run : ClaimedRun) : String :=
  "/var/lib/yunling-agent/script-cache/scripts/" ++ run.scriptID ++ "/" ++ run.scriptVersionID
    ++ "/" ++ run.entrypoint

/-- `executionCommand` and `wsjson.Write`: the message of a run that is
not refused, with the values of its secrets. -/
def ClaimedRun.message (run : ClaimedRun) (secrets : List (String × String)) : List Char :=
  object [("type", quote "assignment"), ("assignment", object (
    (run.policy.map fun policy => ("artifacts", policy.toList)).toList ++ [
    ("run_id", quote run.id),
    ("execution_token", quote run.executionToken),
    ("script_version_id", quote run.scriptVersionID),
    ("runtime", quote run.runtime),
    ("script_path", quote run.scriptPath),
    ("arguments", ['[', ']']),
    ("environment", object [
      ("YUNLING_PARAMETERS_JSON", quote (marshal run.parameters)),
      ("YUNLING_RUN_ID", quote run.id),
      ("YUNLING_SCRIPT_VERSION_ID", quote run.scriptVersionID),
      ("YUNLING_SECRETS_JSON", quote (marshal (secrets.map fun s => (s.1, .text s.2))))]),
    ("resources", object run.limits),
    ("timeout", (toString run.timeout).toList)]))] ++ ['\n']

/-- The weight of a text. -/
def weigh (w : Char → Nat) (text : List Char) : Nat := (text.map w).sum

/-- The limit of a connection on which `SetReadLimit` was not called. -/
def readLimit : Nat := 32768

/-- `wsjson.Read` gets the message; otherwise the connection is closed. -/
abbrev received (message : List Char) : Prop := weigh Char.utf8Size message ≤ readLimit

-- ======== load

/-- The weight of a character once it is quoted. -/
def quoted (w : Char → Nat) (c : Char) : Nat := weigh w (quoteRune c)

/-- What a text adds when it is quoted. -/
def once (text : String) : Nat := weigh (quoted Char.utf8Size) text.toList

/-- What a text adds when it is quoted twice. -/
def twice (text : String) : Nat := weigh (quoted (quoted Char.utf8Size)) text.toList

/-- What a parameter adds. -/
def ParameterValue.load : ParameterValue → Nat
  | .null => 4
  | .text value => twice value + 4
  | .boolean value => if value then 4 else 5
  | .number json | .compound json => once json

/-- What a document in the environment adds. -/
def documentLoad (parameters : Parameters) : Nat :=
  (parameters.map fun p => twice p.1 + p.2.load + 6).sum + if parameters = [] then 2 else 1

/-- What a run and its secrets add to the message. -/
def ClaimedRun.load (run : ClaimedRun) (secrets : List (String × String)) : Nat :=
  (run.policy.map fun policy => weigh Char.utf8Size policy.toList + 13).getD 0
    + 2 * once run.id + once run.executionToken + 3 * once run.scriptVersionID
    + once run.runtime + once run.scriptID + once run.entrypoint
    + documentLoad run.parameters + documentLoad (secrets.map fun s => (s.1, .text s.2))
    + (run.limits.map fun limit => weigh Char.utf8Size limit.2).sum
    + weigh Char.utf8Size (toString run.timeout).toList

section Weigh

variable {w : Char → Nat}

theorem weigh_append (s t : List Char) : weigh w (s ++ t) = weigh w s + weigh w t := by
  simp [weigh]

theorem weigh_cons (c : Char) (t : List Char) : weigh w (c :: t) = w c + weigh w t := rfl

theorem weigh_flatMap {α : Type} (f : α → List Char) (l : List α) :
    weigh w (l.flatMap f) = (l.map fun a => weigh w (f a)).sum := by
  induction l with
  | nil => rfl
  | cons a l ih => rw [List.flatMap_cons, weigh_append, ih, List.map_cons, List.sum_cons]

theorem weigh_quote (text : String) :
    weigh w (quote text) = weigh (quoted w) text.toList + 2 * w '"' := by
  unfold quote
  rw [List.cons_append, weigh_cons, weigh_append, weigh_flatMap, weigh_cons]
  show _ + (weigh (quoted w) text.toList + (_ + 0)) = _
  omega

/-- An object, where its punctuation weighs one. -/
theorem weigh_object (hw : w '\x7b' = 1 ∧ w '\x7d' = 1 ∧ w ':' = 1 ∧ w ',' = 1)
    (entries : List (String × List Char)) : weigh w (object entries)
      = (entries.map fun e => weigh (quoted w) e.1.toList + weigh w e.2 + 2 * w '"' + 2).sum
        + if entries = [] then 2 else 1 := by
  obtain ⟨hopen, hclose, hcolon, hcomma⟩ := hw
  have hmember : ∀ e, weigh w (',' :: member e)
      = weigh (quoted w) e.1.toList + weigh w e.2 + 2 * w '"' + 2 := by
    intro e
    rw [member, weigh_cons, weigh_append, weigh_quote, weigh_cons, hcolon, hcomma]
    omega
  cases entries with
  | nil =>
    simp only [object, weigh_cons, hopen, hclose]
    rfl
  | cons e rest =>
    have hfirst := hmember e
    rw [weigh_cons, hcomma] at hfirst
    simp only [object, List.cons_append, weigh_cons, weigh_append, weigh_flatMap, hopen, hclose,
      List.map_cons, List.sum_cons, ← hmember, if_neg (List.cons_ne_nil e rest), hcomma]
    simp only [weigh, List.map_nil, List.sum_nil]
    omega

end Weigh

/-- A document, where it is quoted. -/
theorem once_marshal (parameters : Parameters) :
    once (marshal parameters) = documentLoad parameters := by
  have hvalue : ∀ value : ParameterValue,
      weigh (quoted Char.utf8Size) value.json = value.load := by
    intro value
    cases value with
    | null => decide
    | text value => exact weigh_quote value
    | boolean value => cases value <;> decide
    | number json => rfl
    | compound json => rfl
  have hsorted :=
    List.perm_insertionSort (fun a b : String × ParameterValue => a.1 ≤ b.1) parameters
  unfold once marshal documentLoad
  rw [String.toList_ofList, weigh_object (by decide), List.map_map, (hsorted.map _).sum_nat]
  simp only [Function.comp_def, hvalue, ← List.length_eq_zero_iff, List.length_map,
    hsorted.length_eq]
  rfl

theorem once_append (s t : String) : once (s ++ t) = once s + once t := by
  unfold once
  rw [String.toList_append, weigh_append]

theorem once_plain {text : String}
    (h : text.toList.all (fun c => quoted Char.utf8Size c == 1) = true) :
    once text = text.toList.length := by
  have hone : ∀ c ∈ text.toList, quoted Char.utf8Size c = 1 := by simpa using h
  unfold once weigh
  rw [List.map_congr_left hone, List.map_const', List.sum_replicate_nat, Nat.mul_one]

/-- What the message weighs beside its inputs. -/
theorem ClaimedRun.weigh_message (run : ClaimedRun) (secrets : List (String × String)) :
    weigh Char.utf8Size (run.message secrets) = run.load secrets + 392 := by
  have hobject : ∀ entries : List (String × List Char), weigh Char.utf8Size (object entries)
      = (entries.map fun e => once e.1 + weigh Char.utf8Size e.2 + 4).sum
        + if entries = [] then 2 else 1 := weigh_object (by decide)
  have hquote : ∀ text : String, weigh Char.utf8Size (quote text) = once text + 2 := weigh_quote
  have hpair : weigh Char.utf8Size ['[', ']'] = 2 := by decide
  have hline : weigh Char.utf8Size ['\n'] = 1 := by decide
  unfold message load limits scriptPath
  simp only [weigh_append, hobject, hquote, hpair, hline, once_marshal, once_append,
    List.map_append, List.sum_append, List.map_cons, List.map_nil, List.sum_cons, List.sum_nil,
    List.append_eq_nil_iff, List.cons_ne_nil, and_false, if_false]
  cases run.policy with
  | none =>
    simp (disch := decide) only [Option.map_none, Option.toList_none, List.map_nil, List.sum_nil,
      Option.getD_none, once_plain, String.reduceToList, List.length_cons, List.length_nil]
    omega
  | some policy =>
    simp (disch := decide) only [Option.map_some, Option.toList_some, List.map_singleton,
      List.sum_singleton, Option.getD_some, once_plain, String.reduceToList, List.length_cons,
      List.length_nil]
    omega

/-- A message is received just when its inputs add no more than the
limit leaves them. -/
theorem assignment_received_iff (run : ClaimedRun) (secrets : List (String × String)) :
    received (run.message secrets) ↔ run.load secrets + 392 ≤ readLimit := by
  unfold received
  rw [run.weigh_message]

open Sample in
/-- A run triggered with a text as a parameter, and assigned. -/
def textOps (text : String) : List Op :=
  setup [definition "task" 1] ++ [
    .trigger "task" "run" { trigger with parameters := [("text", .text text)] } 0,
    .assign (assignment "run" "server" "token" "lease" 0),
    .saveSync "server" "version" .ready (some "digest"),
    .assign (assignment "run" "server" "token" "lease" 0)]

/-- A text of 40,000 letters is accepted in a request, and the run is
sent, but not received. -/
theorem long_parameter_unreceived : ∃ text : String,
    weigh Char.utf8Size (object [("parameters", object [("text", quote text)])]) ≤ 2 ^ 20
      ∧ ∃ r, let db := runOps Database.empty (textOps text)
        db.dispatchCandidates 0 10 = [r]
          ∧ dispatchDecision (db.claimedRun "main.sh" none r).toDispatchRun none = none
          ∧ ¬ received ((db.claimedRun "main.sh" none r).message []) := by
  -- the letters are counted, not unfolded
  obtain ⟨text, htext⟩ : ∃ text : String, ∀ w, weigh w text.toList = 40000 * w 'a' := by
    refine ⟨String.ofList (List.replicate 40000 'a'), fun w => ?_⟩
    rw [String.toList_ofList, weigh, List.map_replicate, List.sum_replicate_nat]
  refine ⟨text, ?_, _, rfl, rfl, fun h => ?_⟩
  · simp only [weigh_object (w := Char.utf8Size) (by decide), weigh_quote, htext,
      List.map_singleton, List.sum_singleton, if_neg (List.cons_ne_nil _ _)]
    decide +kernel
  · unfold received at h
    rw [ClaimedRun.weigh_message] at h
    unfold ClaimedRun.load at h
    have hload : documentLoad [("text", .text text)] ≤ readLimit := by
      refine Nat.le_trans ?_ h
      show _ ≤ _ + documentLoad [("text", .text text)] + _ + _ + _ + _
      omega
    have htwice : twice text = 40000 := htext _
    rw [documentLoad, List.map_singleton, List.sum_singleton, ParameterValue.load, htwice] at hload
    unfold readLimit at hload
    omega

end Yunling
