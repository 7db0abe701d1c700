/-
Restic repositories, as far as the backup service relies on them
(`internal/backup/restic.go`, `internal/backup/paths.go`).

A snapshot has the host, the paths it was taken of, one tag and the time
it was taken. `restic backup` adds one, `restic snapshots --tag` lists the
ones with a tag, `restic copy` adds a copy that keeps host, paths, tag and
time, unless there is one already, and `restic forget --keep-within` keeps
in each group of snapshots with one host and one list of paths the ones
that are not older than the newest by more than the duration.
-/
import Yunling.Backup.Store

namespace Yunling.Backup

structure Snapshot where
  id : String
  time : Int
  host : String
  paths : List String
  tag : String
  original : Option String
  deriving DecidableEq

/-- A repository; one that was never initialised answers with exit code
10. -/
structure Repository where
  initialised : Bool
  snapshots : List Snapshot
  deriving DecidableEq

/-- Two snapshots are in one group. -/
def Snapshot.sameGroup (s t : Snapshot) : Bool :=
  s.host = t.host && s.paths = t.paths

namespace Repository

/-- `restic init`. -/
def init (r : Repository) : Repository := { r with initialised := true }

/-- A new snapshot. -/
def add (r : Repository) (s : Snapshot) : Repository :=
  { r with snapshots := r.snapshots ++ [s] }

/-- `restic snapshots --tag`: the ids. -/
def tagged (r : Repository) (tag : String) : List String :=
  (r.snapshots.filter fun s => s.tag = tag).map Snapshot.id

/-- `restic copy` of one snapshot of another repository. -/
def copy (r : Repository) (source : Snapshot) (id : String) : Repository :=
  if r.snapshots.any fun s => s.original = some source.id then r
  else r.add { source with id, original := some source.id }

/-- What `restic forget --keep-within` keeps. -/
def kept (r : Repository) (within : Int) (s : Snapshot) : Bool :=
  r.snapshots.all fun t => !s.sameGroup t || decide (t.time - s.time ≤ within)

/-- `restic forget --prune --keep-within`. -/
def forget (r : Repository) (within : Int) : Repository :=
  { r with snapshots := r.snapshots.filter (r.kept within) }

end Repository

/-- The tag of a run. -/
def runTag (runID : String) : String := "backup-run=" ++ runID

/-- `RunPaths.For(runID).Staging`. The id comes out of a `uuid` column, so
it is the canonical text of a UUID. -/
def staging (root runID : String) : String :=
  (if root = "/" then "" else root) ++ "/staging/" ++ runID

/-- Texts that differ in their ends only. -/
theorem append_injective {start a b : String} (h : start ++ a = start ++ b) : a = b := by
  have hlist := congrArg String.toList h
  rw [String.toList_append, String.toList_append] at hlist
  exact String.toList_inj.mp (List.append_cancel_left hlist)

theorem staging_injective {root a b : String} (h : staging root a = staging root b) : a = b :=
  append_injective h

end Yunling.Backup
