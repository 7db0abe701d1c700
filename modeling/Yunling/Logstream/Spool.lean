/-
The log buffer of an agent (`internal/logstream/spool.go`): what the
scripts print, cut into numbered chunks and kept on disk until the
control plane has them.

Every stream of an execution has a directory of its own: one file for
each chunk, named by its number, and a cursor file with the number that
comes next. The files of all directories are one table here, keyed by
path. A chunk is valid UTF-8 by the time it is encoded, so a file holds
the chunk that was written to it.

# Interrupted calls

A file or cursor appears under its name by a rename, and goes by a
removal: these are the operations a call performs on the disk, one after
the other. Each may fail, and the agent may die before any of them; in
either case the operations before it have taken effect and no later one
does. `cut` is how many take effect, `none` for a call that runs to its
end.
-/
import Mathlib.Data.PNat.Basic
import Yunling.Lib.Hash
import Yunling.Lib.OrderBy
import Yunling.Lib.Utf8
import Yunling.Schema

namespace Yunling.Logstream

open Relational Utf8

-- ======== chunks

/-- `DefaultChunkSize`. -/
def defaultChunkSize : Nat := 64 * 1024

/-- `Stream`: any text on the wire, three of which name a stream. -/
inductive Stream where
  | stdout | stderr | system
  | other (name : String)
  deriving DecidableEq

/-- The text of a stream. -/
def Stream.name : Stream → String
  | .stdout => "stdout"
  | .stderr => "stderr"
  | .system => "system"
  | .other name => name

/-- `validStream`. -/
def validStream : Stream → Bool
  | .other _ => false
  | _ => true

/-- A stream of an execution. -/
structure Key where
  runID : String
  executionToken : String
  stream : Stream
  deriving DecidableEq

/-- `validSpoolKey`. -/
def validSpoolKey (key : Key) : Bool :=
  !blank key.runID && !blank key.executionToken && validStream key.stream

/-- `LogChunk`. -/
structure LogChunk where
  runID : String
  executionToken : String
  sequence : Nat
  stream : Stream
  content : Bytes
  createdAt : Int
  deriving DecidableEq

/-- The stream a chunk belongs to. -/
def LogChunk.key (c : LogChunk) : Key := ⟨c.runID, c.executionToken, c.stream⟩

/-- The path of a chunk: its directory and its number. -/
def LogChunk.path (c : LogChunk) : Key × Nat := (c.key, c.sequence)

/-- The errors of the spool. -/
inductive SpoolError where
  | invalidChunk | spoolLimitExceeded
  /-- an error of the file system -/
  | failed
  deriving DecidableEq

-- ======== the spool

/-- The files of the buffer. A cursor is a positive number: what it is
parsed from is only written by `Append`. -/
structure Disk where
  chunks : Table LogChunk (Key × Nat) LogChunk.path
  cursors : Hash Key ℕ+

/-- A buffer nothing was written to. -/
def Disk.empty : Disk where
  chunks := .empty
  cursors := .empty

/-- `Spool`, and the number of bytes `json.Marshal` makes of a chunk. -/
structure Spool where
  chunkSize : Nat
  maxBytes : Nat
  usedBytes : Nat
  disk : Disk
  encodedLen : LogChunk → Nat
  chunkSize_pos : 0 < chunkSize
  chunkSize_le : chunkSize ≤ defaultChunkSize
  maxBytes_pos : 0 < maxBytes

/-- `bufferedBytes`. -/
def bufferedBytes (encodedLen : LogChunk → Nat) (disk : Disk) : Nat :=
  (disk.chunks.rows.map encodedLen).sum

/-- `NewSpool`, on the files it finds under `root`. -/
def newSpool (encodedLen : LogChunk → Nat) (root : String) (disk : Disk)
    (chunkSize maxBytes : Int) : Except SpoolError Spool :=
  if h : blank root = true ∨ chunkSize ≤ 0 ∨ chunkSize > defaultChunkSize
  then .error .invalidChunk
  else if h' : maxBytes ≤ 0 then .error .invalidChunk
  else .ok
    { chunkSize := chunkSize.toNat
      maxBytes := maxBytes.toNat
      usedBytes := bufferedBytes encodedLen disk
      disk
      encodedLen
      chunkSize_pos := by omega
      chunkSize_le := by omega
      maxBytes_pos := by omega }

/-- `pending`: the chunks of a directory in the order of their
numbers. -/
def Disk.pending (disk : Disk) (key : Key) : List LogChunk :=
  (disk.chunks.rows.filter (·.key = key)).insertionSort (OrderBy.Asc LogChunk.sequence)

/-- `nextSequence`. -/
def Disk.nextSequence (disk : Disk) (key : Key) : ℕ+ :=
  match disk.cursors.get? key, (disk.pending key).getLast? with
  | some next, some last =>
    if next ≤ last.sequence then last.sequence.succPNat else next
  | some next, none => next
  | none, some last => last.sequence.succPNat
  | none, none => 1

/-- The order `AllPending` lists chunks in. -/
def listing : LogChunk → LogChunk → Prop :=
  OrderBy.Lex LogChunk.runID <| OrderBy.Lex LogChunk.executionToken <|
    OrderBy.Lex LogChunk.sequence <|
      OrderBy.Lex (fun c => c.stream.name) <| OrderBy.Asc LogChunk.createdAt

instance : DecidableRel listing :=
  inferInstanceAs (DecidableRel (OrderBy.Lex _ _))

/-- `AllPending`. -/
def Disk.allPending (disk : Disk) : List LogChunk :=
  disk.chunks.rows.insertionSort listing

-- ======== file operations

/-- What a call does to the files. -/
inductive FileOp where
  | saveChunk (c : LogChunk)
  | removeChunk (c : LogChunk)
  | removeCursor (key : Key)
  | saveCursor (key : Key) (next : ℕ+)

/-- The files after an operation. -/
def Disk.apply (disk : Disk) : FileOp → Disk
  | .saveChunk c => { disk with chunks := disk.chunks.upsert c }
  | .removeChunk c =>
    { disk with chunks := disk.chunks.delete (·.path = c.path) }
  | .removeCursor key => { disk with cursors := disk.cursors.del key }
  | .saveCursor key next =>
    { disk with cursors := disk.cursors.set key next }

/-- The counter of used bytes after an operation. -/
def Spool.charge (s : Spool) : FileOp → Nat
  | .saveChunk c => s.usedBytes + s.encodedLen c
  | .removeChunk c => s.usedBytes - s.encodedLen c
  | _ => s.usedBytes

/-- An operation of the running agent. -/
def Spool.perform (s : Spool) (op : FileOp) : Spool :=
  { s with disk := s.disk.apply op, usedBytes := s.charge op }

/-- Operations in their order. -/
def Spool.performAll (s : Spool) (ops : List FileOp) : Spool :=
  ops.foldl Spool.perform s

/-- The operations that take effect. -/
def upTo (cut : Option Nat) (ops : List FileOp) : List FileOp :=
  cut.elim ops ops.take

-- ======== append

/-- The inner loop of `Append`: the length is lowered to the start of a
character. -/
def backUp (content : Bytes) : Nat → Nat
  | 0 => 0
  | length + 1 =>
    match content[length + 1]? with
    | none => length + 1
    | some b => if continuation b then backUp content length else length + 1

/-- The length of the next piece. -/
def pieceLength (chunkSize : Nat) (content : Bytes) : Nat :=
  let length := backUp content (min content.length chunkSize)
  if length = 0 then min content.length chunkSize else length

/-- The loop of `Append`, which takes at least one byte each time round;
`fuel` bounds the rounds. -/
def pieces (chunkSize : Nat) : (fuel : Nat) → Bytes → List Bytes
  | 0, _ => []
  | _ + 1, [] => []
  | fuel + 1, content =>
    let length := pieceLength chunkSize content
    content.take length :: pieces chunkSize fuel (content.drop length)

/-- `strings.ToValidUTF8(piece, "�")`. -/
def toValidUTF8 (piece : Bytes) : Bytes :=
  scrub [0xEF, 0xBF, 0xBD] false 0 piece

/-- The pieces as chunks of a stream, numbered from `next` on. -/
def number (key : Key) (now : Nat → Int) : (next : Nat) → List Bytes → List LogChunk
  | _, [] => []
  | next, piece :: rest =>
    { runID := key.runID
      executionToken := key.executionToken
      sequence := next
      stream := key.stream
      content := toValidUTF8 piece
      createdAt := now next } :: number key now (next + 1) rest

/-- The chunks `Append` makes of a text; `now` is the clock when the
chunk of a number is cut. -/
def Spool.newChunks (s : Spool) (key : Key) (content : Bytes) (now : Nat → Int) : List LogChunk :=
  number key now (s.disk.nextSequence key) (pieces s.chunkSize content.length content)

/-- The checks of `Append`: the key, and the room for the chunks. -/
def Spool.refusal (s : Spool) (key : Key) (result : List LogChunk) : Option SpoolError :=
  if validSpoolKey key = false then some .invalidChunk
  else if result ≠ [] ∧ (s.maxBytes ≤ s.usedBytes
      ∨ s.maxBytes - s.usedBytes < (result.map s.encodedLen).sum) then
    some .spoolLimitExceeded
  else none

/-- `writeSequenceCursor`: the old file is removed first. -/
def writeSequenceCursor (key : Key) (next : ℕ+) : List FileOp :=
  [.removeCursor key, .saveCursor key next]

/-- The number after `n` more chunks. -/
def advance (next : ℕ+) (n : Nat) : ℕ+ :=
  ⟨next + n, Nat.add_pos_left next.pos n⟩

/-- What `Append` writes: the chunks, then the cursor. -/
def appendOps (key : Key) (next : ℕ+) (result : List LogChunk) : List FileOp :=
  if result = [] then []
  else result.map .saveChunk ++ writeSequenceCursor key (advance next result.length)

/-- The operations of one call of `Append` that take effect. -/
def Spool.appended (s : Spool) (key : Key) (content : Bytes)
    (now : Nat → Int) (cut : Option Nat) : List FileOp :=
  let result := s.newChunks key content now
  match s.refusal key result with
  | some _ => []
  | none => upTo cut (appendOps key (s.disk.nextSequence key) result)

/-- `Spool.Append`. -/
def Spool.append (s : Spool) (key : Key) (content : Bytes) (now : Nat → Int) (cut : Option Nat) :
    Spool × Except SpoolError (List LogChunk) :=
  let result := s.newChunks key content now
  (s.performAll (s.appended key content now cut),
    match s.refusal key result with
    | some e => .error e
    | none => if cut = none then .ok result else .error .failed)

-- ======== acknowledge

/-- The operations of one call of `Acknowledge` that take effect: the
files of the acknowledged chunks go, in the order of their names. -/
def Spool.acknowledged (s : Spool) (key : Key) (nextSequence : Nat)
    (cut : Option Nat) : List FileOp :=
  if validSpoolKey key = false ∨ nextSequence = 0 then []
  else upTo cut (((s.disk.pending key).filter (·.sequence < nextSequence)).map .removeChunk)

/-- `Spool.Acknowledge`. -/
def Spool.acknowledge (s : Spool) (key : Key) (nextSequence : Nat)
    (cut : Option Nat) : Spool × Except SpoolError Unit :=
  (s.performAll (s.acknowledged key nextSequence cut),
    if validSpoolKey key = false ∨ nextSequence = 0 then
      .error .invalidChunk
    else if cut = none then .ok () else .error .failed)

/-- A new agent process opens the buffer again. -/
def Spool.reopen (s : Spool) : Spool :=
  { s with usedBytes := bufferedBytes s.encodedLen s.disk }

end Yunling.Logstream
