/-
The way of the logs from an agent to the control plane: an agent that
writes, sends and cleans up, a network, and any number of service
processes on one database.

# The network

Whatever was sent may arrive, any number of times and in any order, or
never: `sent` and `acks` only grow, and a step picks from them. This
covers reconnects, where messages of an old connection are still on
their way.

# The services

One call of `Accept` is three steps: the chunk is redacted with the
values its run is bound to at that moment, the next number is read, and
the chunk is stored. Other calls, in this process or another, may come
in between.

# What is kept for the record

`written` is every chunk that was ever written to the buffer, and
`bound` every answer the service ever got for the values of a run.
-/
import Yunling.Agent.LogClient
import Yunling.Lib.Transition
import Yunling.Logstream.Service

namespace Yunling.Logstream

open Relational Utf8 Secret

/-- A call of `Accept`: the chunk to be stored, and the next number once
it is read. -/
structure Call where
  chunk : LogChunk
  next : Option Nat

/-- The values an execution was bound to. -/
structure Binding where
  runID : String
  executionToken : String
  values : List Bytes

/-- An agent, the network, and the control plane. -/
structure LogWorld where
  client : LogClient
  sent : List LogChunk
  calls : List Call
  acks : List LogAcknowledgement
  store : ChunkStore
  values : Hash (String × String) (List Bytes)
  written : List LogChunk
  bound : List Binding

/-- What can happen. -/
inductive LogOp where
  /-- a script writes -/
  | write (key : Key) (content : Bytes) (now : Nat → Int)
  | flush
  | send
  /-- the chunk sent at a place arrives -/
  | arrive (i : Nat) (now : Int) (ordered : List Bytes)
  /-- a call reads the next number -/
  | read (i : Nat)
  /-- a call stores its chunk and confirms it -/
  | save (i : Nat)
  /-- an acknowledgement arrives; `cut` is how much of the clean-up takes
  effect -/
  | acknowledge (i : Nat) (cut : Option Nat)
  /-- the connection is lost -/
  | disconnect
  | restart
  /-- a run gets an execution token -/
  | assign (runID executionToken : String)
  /-- the values of an execution change -/
  | bind (runID executionToken : String) (values : List Bytes)

namespace LogWorld

/-- The redaction of a chunk: `none` for an order `Mask` does not
use. -/
def redaction (w : LogWorld) (redacting : Bool) (c : LogChunk)
    (ordered : List Bytes) : Option Redaction :=
  if redacting = false then some .off
  else match w.values.get? (c.runID, c.executionToken) with
    | none => some .unreadable
    | some values =>
      if Ordering values ordered then some (.on values ordered) else none

/-- A chunk arrives. -/
def arrive (wide : Bytes → Bytes) (redacting : Bool) (w : LogWorld)
    (i : Nat) (now : Int) (ordered : List Bytes) : LogWorld :=
  match w.sent[i]? with
  | none => w
  | some c =>
    match w.redaction redacting c ordered with
    | none => w
    | some r =>
      match prepare wide c now r with
      | .error _ => w
      | .ok chunk => { w with calls := w.calls ++ [⟨chunk, none⟩] }

/-- A call reads the next number. -/
def read (w : LogWorld) (i : Nat) : LogWorld :=
  match w.calls[i]? with
  | none => w
  | some call =>
    { w with
      calls := w.calls.set i
        { call with next := some (w.store.nextSequence call.chunk.key) } }

/-- A call stores its chunk; an acknowledgement is sent if it succeeds,
and the connection is closed otherwise. -/
def save (w : LogWorld) (i : Nat) : LogWorld :=
  match w.calls[i]? with
  | some ⟨chunk, some next⟩ =>
    match w.store.save chunk next with
    | (store, .error _) =>
      { w with store, calls := w.calls.eraseIdx i }
    | (store, .ok confirmed) =>
      { w with
        store
        calls := w.calls.eraseIdx i
        acks := w.acks ++ [⟨chunk.runID, chunk.executionToken, chunk.stream, confirmed⟩] }
  | _ => w

/-- One step. -/
def step (wide : Bytes → Bytes) (redacting : Bool) (w : LogWorld) : LogOp → LogWorld
  | .write key content now =>
    { w with
      client := (w.client.write key content now none).1
      written := w.written ++ match w.client.spool.append key content now none with
          | (_, .ok result) => result
          | (_, .error _) => [] }
  | .flush => { w with client := w.client.flush }
  | .send =>
    match w.client.sendLogChunk with
    | (client, some chunk) => { w with client, sent := w.sent ++ [chunk] }
    | (client, none) => { w with client }
  | .arrive i now ordered => w.arrive wide redacting i now ordered
  | .read i => w.read i
  | .save i => w.save i
  | .acknowledge i cut =>
    match w.acks[i]? with
    | none => w
    | some a => { w with client := w.client.receive a cut }
  | .disconnect => { w with client := w.client.abort }
  | .restart => { w with client := w.client.restart }
  | .assign runID executionToken =>
    { w with
      store := { w.store with
        executionTokens := w.store.executionTokens.set runID executionToken } }
  | .bind runID executionToken values =>
    { w with
      values := w.values.set (runID, executionToken) values
      bound := w.bound ++ [⟨runID, executionToken, values⟩] }

/-- Nothing has been written yet. -/
def fresh (s : Spool) : LogWorld where
  client := .ofSpool { s with disk := .empty, usedBytes := 0 }
  sent := []
  calls := []
  acks := []
  store := ⟨.empty, .empty⟩
  values := .empty
  written := []
  bound := []

/-- The world after steps. -/
def run (wide : Bytes → Bytes) (redacting : Bool) (s : Spool) (ops : List LogOp) : LogWorld :=
  Transition.run (step wide redacting) (fresh s) ops

/-- The chunks of a stream the agent wrote, in order. -/
def history (w : LogWorld) (key : Key) : List LogChunk :=
  w.written.filter (·.key = key)

/-- `content` is a redacted form of the chunk: masked with values its
execution was bound to, or untouched when nothing is redacted. -/
def Redacted (w : LogWorld) (wide : Bytes → Bytes) (redacting : Bool)
    (c : LogChunk) (content : Bytes) : Prop :=
  if redacting then ∃ values ordered, ⟨c.runID, c.executionToken, values⟩ ∈ w.bound
      ∧ Ordering values ordered
      ∧ content = Redactor.mask wide ordered c.content
  else content = c.content

end LogWorld

end Yunling.Logstream
