/-
The sender of an agent's logs (`internal/agent/log_client.go`, and
`SendLogChunk` of `internal/agent/client.go`).

The scripts write into the buffer; a loop lists what is pending, sends
it chunk by chunk and removes what is acknowledged before it sends the
next. An error of the transport ends the loop, and with it the agent.
-/
import Yunling.Logstream.Spool

namespace Yunling

open Logstream Utf8

/-- `agentprotocol.LogAcknowledgement`. -/
structure LogAcknowledgement where
  runID : String
  executionToken : String
  stream : Stream
  nextSequence : Nat
  deriving DecidableEq

/-- The stream an acknowledgement is about. -/
def LogAcknowledgement.key (a : LogAcknowledgement) : Key :=
  ⟨a.runID, a.executionToken, a.stream⟩

/-- `LogClient`, in the middle of a `flush` or between two. -/
structure LogClient where
  spool : Spool
  wake : Bool
  /-- listed and not sent yet -/
  queue : List LogChunk
  /-- sent, and `SendLogChunk` waits for the acknowledgement -/
  waiting : Option LogChunk

namespace LogClient

/-- `NewLogClient`. -/
def ofSpool (spool : Spool) : LogClient where
  spool
  wake := false
  queue := []
  waiting := none

/-- `logOutputWriter.Write`. -/
def write (c : LogClient) (key : Key) (content : Bytes) (now : Nat → Int)
    (cut : Option Nat) : LogClient × Except SpoolError Nat :=
  if content = [] then (c, .ok 0)
  else match c.spool.append key content now cut with
    | (spool, .error e) => ({ c with spool }, .error e)
    | (spool, .ok _) => ({ c with spool, wake := true }, .ok content.length)

/-- The writes of a script, up to the first that fails. -/
def writeAll (key : Key) (now : Nat → Int) : LogClient → List Bytes → Except SpoolError LogClient
  | c, [] => .ok c
  | c, content :: rest =>
    match c.write key content now none with
    | (_, .error e) => .error e
    | (c', .ok _) => writeAll key now c' rest

/-- The start of `flush`. -/
def flush (c : LogClient) : LogClient :=
  if c.queue = [] ∧ c.waiting = none then
    { c with wake := false, queue := c.spool.disk.allPending }
  else c

/-- The next chunk is written to the connection. -/
def sendLogChunk (c : LogClient) : LogClient × Option LogChunk :=
  match c.waiting, c.queue with
  | none, chunk :: rest =>
    ({ c with queue := rest, waiting := some chunk }, some chunk)
  | _, _ => (c, none)

/-- The loop is left with an error. -/
def abort (c : LogClient) : LogClient :=
  { c with queue := [], waiting := none }

/-- An acknowledgement is read. It has to be for the stream of the chunk
that was sent; `cut` is how much of the clean-up takes effect. -/
def receive (c : LogClient) (a : LogAcknowledgement) (cut : Option Nat) : LogClient :=
  match c.waiting with
  | none => c
  | some chunk =>
    if a.nextSequence = 0 ∨ a.key ≠ chunk.key then c.abort
    else match c.spool.acknowledge chunk.key a.nextSequence cut with
      | (spool, .ok ()) => { c with spool, waiting := none }
      | (spool, .error _) => { c with spool }.abort

/-- A new agent process on the same buffer. -/
def restart (c : LogClient) : LogClient := ofSpool c.spool.reopen

end LogClient

end Yunling
