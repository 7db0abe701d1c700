/-
The receiving side of the logs (`internal/logstream/service.go`).

`Accept` stores a chunk when it is the next of its stream, and confirms
one it already has if the content is the same; the content it compares
and stores is the redacted one. Its reading of the next number and its
insert are two statements. A lock keeps them together within a process;
between processes only the unique constraint of the table does, so they
are two steps here.

`log_chunks` is append-only: a trigger rejects every update and delete.
-/
import Yunling.Logstream.Spool
import Yunling.Secret.Redactor

namespace Yunling.Logstream

open Relational Utf8 Secret

/-- `validChunk`. -/
def validChunk (c : LogChunk) : Bool :=
  !(blank c.runID || blank c.executionToken || c.sequence == 0)
    && validStream c.stream && c.content.length ≤ defaultChunkSize

/-- The errors of `Accept`. -/
inductive AcceptError where
  | invalidChunk | sequenceGap | chunkConflict
  | failed (message : String)
  deriving DecidableEq

/-- What the service reads and writes: the execution tokens of
`task_runs`, and `log_chunks`. -/
structure ChunkStore where
  executionTokens : Hash String String
  logChunks : Table LogChunk (Key × Nat) LogChunk.path

/-- `NextSequence`. -/
def ChunkStore.nextSequence (st : ChunkStore) (key : Key) : Nat :=
  ((st.logChunks.rows.filter (·.key = key)).map LogChunk.sequence).max?.getD 0 + 1

/-- `Find`. -/
def ChunkStore.find (st : ChunkStore) (c : LogChunk) : Option LogChunk :=
  st.logChunks.find? c.path

/-- `Insert`. PostgreSQL takes no text with a NUL. -/
def ChunkStore.insert (st : ChunkStore) (c : LogChunk) : Except String ChunkStore :=
  if st.executionTokens.get? c.runID ≠ some c.executionToken then
    .error "日志执行令牌与运行实例不匹配"
  else if 0 ∈ c.content then .error "保存日志块"
  else match st.logChunks.insert? c with
    | none => .error "保存日志块"
    | some logChunks => .ok { st with logChunks }

/-- How a service redacts a chunk: not at all, or with the sensitive
values of its run, which it may fail to read. -/
inductive Redaction where
  | off
  | unreadable
  | on (values ordered : List Bytes)

/-- The redacted content. -/
def Redaction.apply (wide : Bytes → Bytes) (content : Bytes) : Redaction → Option Bytes
  | .off => some content
  | .unreadable => none
  | .on _ ordered => some (Redactor.mask wide ordered content)

/-- The part of `Accept` before the store: the chunk to be stored. -/
def prepare (wide : Bytes → Bytes) (c : LogChunk) (now : Int)
    (r : Redaction) : Except AcceptError LogChunk :=
  if validChunk c = false then .error .invalidChunk
  else match r.apply wide c.content with
    | none => .error (.failed "读取任务敏感值用于日志脱敏")
    | some content => .ok { c with
        content
        createdAt := if c.createdAt = zeroTime then now else c.createdAt }

/-- The rest of `Accept`, after it has read `next`. -/
def ChunkStore.save (st : ChunkStore) (c : LogChunk) (next : Nat) :
    ChunkStore × Except AcceptError Nat :=
  if next < c.sequence then (st, .error .sequenceGap)
  else if c.sequence < next then
    match st.find c with
    | none => (st, .error .chunkConflict)
    | some stored =>
      if stored.content ≠ c.content then (st, .error .chunkConflict)
      else (st, .ok next)
  else match st.insert c with
    | .ok st' => (st', .ok (next + 1))
    | .error message =>
      match st.find c with
      | none => (st, .error (.failed message))
      | some stored =>
        if stored.content = c.content then (st, .ok (next + 1))
        else (st, .error (.failed message))

/-- `Service.Accept`, undisturbed. -/
def accept (wide : Bytes → Bytes) (st : ChunkStore) (c : LogChunk)
    (now : Int) (r : Redaction) : ChunkStore × Except AcceptError Nat :=
  match prepare wide c now r with
  | .error e => (st, .error e)
  | .ok c' => st.save c' (st.nextSequence c'.key)

/-- The text stored for a stream. -/
def ChunkStore.text (st : ChunkStore) (key : Key) : Bytes :=
  ((st.logChunks.rows.filter (·.key = key)).insertionSort
    (OrderBy.Asc LogChunk.sequence)).flatMap LogChunk.content

end Yunling.Logstream
