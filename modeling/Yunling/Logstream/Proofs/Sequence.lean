/-
The numbers of log chunks over the whole life of a buffer: calls that
fail or are cut off at any point, acknowledgements and restarts.

`Journal` keeps, next to the buffer, every chunk that was ever written
to it. A number is safe as long as the next chunk stays above every
chunk of its stream in the journal (`Journal.Ahead`). An interrupted
`Append` is harmless by itself, since the chunks it wrote are pending.
They stop protecting their numbers when they are acknowledged: `Append`
writes its cursor last, and removes the old one first, so at that moment
the cursor may lie below them, or be gone (`number_reused`).
-/
import Yunling.Lib.Transition
import Yunling.Logstream.Proofs.Files

namespace Yunling.Logstream

open Relational Utf8

variable {j : Journal} {key : Key}

/-- A buffer and every chunk ever written to it. -/
structure Journal where
  spool : Spool
  written : List LogChunk

/-- What happens to a buffer. -/
inductive SpoolOp where
  | append (key : Key) (content : Bytes) (now : Nat → Int) (cut : Option Nat)
  | acknowledge (key : Key) (nextSequence : Nat) (cut : Option Nat)
  | restart

/-- The chunk an operation saves. -/
def FileOp.saved? : FileOp → Option LogChunk
  | .saveChunk c => some c
  | _ => none

/-- The chunks operations save. -/
def saved (ops : List FileOp) : List LogChunk := ops.filterMap FileOp.saved?

/-- One call, or a restart. -/
def Journal.step (j : Journal) : SpoolOp → Journal
  | .append key content now cut =>
    { spool := (j.spool.append key content now cut).1
      written := j.written ++ saved (j.spool.appended key content now cut) }
  | .acknowledge key nextSequence cut =>
    { j with spool := (j.spool.acknowledge key nextSequence cut).1 }
  | .restart => { j with spool := j.spool.reopen }

/-- A buffer in an empty directory. -/
def Journal.fresh (s : Spool) : Journal where
  spool := { s with disk := .empty, usedBytes := 0 }
  written := []

/-- The journal after calls and restarts. -/
def Journal.run (s : Spool) (ops : List SpoolOp) : Journal :=
  Transition.run Journal.step (Journal.fresh s) ops

-- ======== the operations

theorem saved_map_saveChunk (cs : List LogChunk) : saved (cs.map .saveChunk) = cs := by
  unfold saved
  rw [List.filterMap_map]
  exact List.filterMap_some

/-- How far an `Append` gets: some of its chunks, or all of them and
then the cursor file. -/
theorem upTo_appendOps (cut : Option Nat) (key : Key) (next : ℕ+) (result : List LogChunk) :
    ∃ cs tail, upTo cut (appendOps key next result) = cs.map FileOp.saveChunk ++ tail
      ∧ cs <+: result ∧ (cs = [] → tail = [])
      ∧ tail <+: writeSequenceCursor key (advance next result.length) := by
  unfold appendOps
  split
  · refine ⟨[], [], ?_, List.nil_prefix, fun _ => rfl, List.nil_prefix⟩
    cases cut <;> simp [upTo]
  next hne =>
  cases cut with
  | none =>
    exact ⟨result, _, rfl, List.prefix_rfl, fun h => absurd h hne, List.prefix_rfl⟩
  | some k =>
    rcases Nat.lt_or_ge k result.length with hk | hk
    · refine ⟨result.take k, [], ?_, List.take_prefix _ _, fun _ => rfl, List.nil_prefix⟩
      simp [upTo, Nat.le_of_lt hk]
    · refine ⟨result, (writeSequenceCursor key _).take (k - result.length), ?_, List.prefix_rfl,
        fun h => absurd h hne, List.take_prefix _ _⟩
      simp [upTo, List.take_append, hk]

theorem Disk.apply_writeSequenceCursor {next : ℕ+} {tail : List FileOp}
    (h : tail <+: writeSequenceCursor key next) (disk : Disk) :
    (disk.applyAll tail).chunks = disk.chunks ∧ saved tail = []
      ∧ ∀ other, other ≠ key → (disk.applyAll tail).cursors.get? other
        = disk.cursors.get? other := by
  rcases List.prefix_cons_iff.mp h with rfl | ⟨t, rfl, ht⟩
  · exact ⟨rfl, rfl, fun _ _ => rfl⟩
  rcases List.prefix_cons_iff.mp ht with rfl | ⟨u, rfl, hu⟩
  · refine ⟨rfl, rfl, fun other hother => ?_⟩
    simp [Disk.applyAll, Disk.apply, Hash.get?_del, hother]
  · obtain rfl := List.prefix_nil.mp hu
    refine ⟨rfl, rfl, fun other hother => ?_⟩
    simp [Disk.applyAll, Disk.apply, Hash.get?_del, Hash.get?_set, hother]

/-- What an interrupted or finished `Append` leaves behind: a first part
of its chunks is in the buffer, and other streams are untouched. -/
structure Appended (s : Spool) (key : Key) (content : Bytes)
    (now : Nat → Int) (ops : List FileOp) : Prop where
  made : saved ops <+: s.newChunks key content now
  rows : (s.disk.applyAll ops).chunks.rows = s.disk.chunks.rows ++ saved ops
  idle : saved ops = [] → ops = []
  others : ∀ other, other ≠ key →
    (s.disk.applyAll ops).cursors.get? other = s.disk.cursors.get? other

theorem Spool.appended_spec (s : Spool) (key : Key) (content : Bytes) (now : Nat → Int)
    (cut : Option Nat) : Appended s key content now (s.appended key content now cut) := by
  unfold Spool.appended
  simp only
  split
  · exact ⟨List.nil_prefix, (List.append_nil _).symm, fun _ => rfl, fun _ _ => rfl⟩
  obtain ⟨cs, tail, hops, hcs, hidle, htail⟩ := upTo_appendOps cut key
    (s.disk.nextSequence key) (s.newChunks key content now)
  rw [hops]
  have hsave := s.disk.saveAll (fun c (hc : c ∈ cs) => Spool.newChunks_fresh (hcs.subset hc))
    ((path_number_nodup key now _ _).sublist (hcs.sublist.map _))
  obtain ⟨hchunks, hnone, hcur⟩ := Disk.apply_writeSequenceCursor htail
    (s.disk.applyAll (cs.map .saveChunk))
  have hsaved : saved (cs.map FileOp.saveChunk ++ tail) = cs := by
    unfold saved at hnone ⊢
    rw [List.filterMap_append, hnone, List.append_nil]
    exact saved_map_saveChunk cs
  constructor
  · rw [hsaved]
    exact hcs
  · rw [Disk.applyAll_append, hchunks, hsave.1, hsaved]
  · intro h
    rw [hsaved] at h
    rw [hidle h, h]
    rfl
  · intro other hother
    rw [Disk.applyAll_append, hcur other hother, hsave.2]

section Appended

variable {s : Spool} {key : Key} {content : Bytes} {now : Nat → Int}
  {ops : List FileOp}

/-- What was saved belongs to the stream and continues its numbers. -/
theorem Appended.mem (h : Appended s key content now ops) {c : LogChunk} (hc : c ∈ saved ops) :
    c.key = key ∧ s.disk.nextSequence key ≤ c.sequence := by
  obtain ⟨hkey, hlo, -⟩ := mem_number key now (h.made.subset hc)
  exact ⟨hkey, hlo⟩

/-- Other streams go on as before. -/
theorem Appended.lt_other (h : Appended s key content now ops) {other : Key} (hother : other ≠ key)
    {n : Nat} : n < (s.disk.applyAll ops).nextSequence other ↔ n < s.disk.nextSequence other := by
  have hnone : (saved ops).filter (·.key = other) = [] := by
    rw [List.filter_eq_nil_iff]
    intro c hc heq
    exact hother ((of_decide_eq_true heq).symm.trans (h.mem hc).1)
  have hpend : (s.disk.applyAll ops).pending other = s.disk.pending other := by
    unfold Disk.pending
    rw [h.rows, List.filter_append, hnone, List.append_nil]
  rw [Disk.lt_nextSequence, Disk.lt_nextSequence, hpend, h.others other hother]

end Appended

-- ======== the invariant

/-- The next chunk of every stream comes after all its chunks so far,
and no two of these have one number. -/
structure Journal.Ahead (j : Journal) : Prop where
  above : ∀ c ∈ j.written, c.sequence < j.spool.disk.nextSequence c.key
  distinct : (j.written.map LogChunk.path).Nodup

theorem Journal.Ahead.append (h : j.Ahead) (key : Key) (content : Bytes) (now : Nat → Int)
    (cut : Option Nat) : (j.step (.append key content now cut)).Ahead := by
  have hspec := j.spool.appended_spec key content now cut
  constructor
  · intro c hc
    show c.sequence < (j.spool.performAll _).disk.nextSequence c.key
    rw [Spool.performAll_disk]
    rcases List.mem_append.mp hc with hold | hc
    · by_cases hkey : c.key = key
      · -- a chunk of this stream: what was saved is above it
        cases hs : saved (j.spool.appended key content now cut) with
        | nil =>
          rw [hspec.idle hs]
          exact h.above c hold
        | cons d ds =>
          have hd : d ∈ saved (j.spool.appended key content now cut) := by
            simp [hs]
          obtain ⟨hdkey, hdlo⟩ := hspec.mem hd
          have hdrow : d ∈ (j.spool.disk.applyAll _).chunks.rows :=
            hspec.rows ▸ List.mem_append_right _ hd
          have hlt := Disk.sequence_lt hdrow
          have hc' := h.above c hold
          rw [hdkey] at hlt
          rw [hkey] at hc' ⊢
          omega
      · exact (hspec.lt_other hkey).mpr (h.above c hold)
    · exact Disk.sequence_lt (hspec.rows ▸ List.mem_append_right _ hc)
  · show ((j.written ++ saved _).map LogChunk.path).Nodup
    rw [List.map_append, List.nodup_append]
    refine ⟨h.distinct, ?_, ?_⟩
    · exact (path_number_nodup key now _ _).sublist (hspec.made.sublist.map _)
    intro p hp q hq heq
    obtain ⟨c, hc, rfl⟩ := List.mem_map.mp hp
    obtain ⟨d, hd, rfl⟩ := List.mem_map.mp hq
    have hlt := h.above c hc
    obtain ⟨hdkey, hdlo⟩ := hspec.mem hd
    have hkeys : c.key = d.key := congrArg Prod.fst heq
    have hseq : c.sequence = d.sequence := congrArg Prod.snd heq
    rw [hkeys, hdkey] at hlt
    omega

/-- The chunks below `nextSequence` may go: the cursor lies above them,
or a later chunk stays. -/
def Disk.Covered (disk : Disk) (key : Key) (nextSequence : Nat) : Prop :=
  (∃ next ∈ disk.cursors.get? key, ∀ c ∈ disk.pending key,
      c.sequence < nextSequence → c.sequence < next)
    ∨ ∃ c ∈ disk.pending key, nextSequence ≤ c.sequence

instance (disk : Disk) (key : Key) (nextSequence : Nat) :
    Decidable (disk.Covered key nextSequence) :=
  inferInstanceAs (Decidable (_ ∨ _))

theorem Journal.Ahead.acknowledge (h : j.Ahead) {nextSequence : Nat}
    (hcov : j.spool.disk.Covered key nextSequence) (cut : Option Nat) :
    (j.step (.acknowledge key nextSequence cut)).Ahead := by
  refine ⟨fun c hc => ?_, h.distinct⟩
  show c.sequence < (j.spool.performAll _).disk.nextSequence c.key
  obtain ⟨gone, hops, hgone, -⟩ := j.spool.acknowledged_spec key nextSequence cut
  rw [Spool.performAll_disk, hops]
  obtain ⟨hrows, hcur⟩ := j.spool.disk.removeAll gone
  have hstays : ∀ d ∈ j.spool.disk.chunks.rows, (d.key = key → nextSequence ≤ d.sequence) →
      d.sequence < (j.spool.disk.applyAll (gone.map .removeChunk)).nextSequence d.key := by
    intro d hd hd'
    refine Disk.sequence_lt ((hrows d).mpr ⟨hd, fun e he heq => ?_⟩)
    obtain ⟨hpend, hlt⟩ := hgone e he
    have hkey : d.key = e.key := congrArg Prod.fst heq
    have hseq : d.sequence = e.sequence := congrArg Prod.snd heq
    have := hd' (hkey.trans (Disk.mem_pending.mp hpend).2)
    omega
  rcases Disk.lt_nextSequence.mp (h.above c hc) with hzero | hcursor | hpend
  · exact Disk.lt_nextSequence.mpr (Or.inl hzero)
  · exact Disk.lt_nextSequence.mpr (Or.inr (Or.inl (hcur ▸ hcursor)))
  obtain ⟨d, hd, hle⟩ := hpend
  obtain ⟨hdrow, hdkey⟩ := Disk.mem_pending.mp hd
  by_cases hlow : d.key = key ∧ d.sequence < nextSequence
  · -- the chunk that is above `c` goes, so the guard takes over
    obtain ⟨hkey, hlow⟩ := hlow
    rw [← hdkey, hkey]
    rcases hcov with ⟨next, hnext, hall⟩ | ⟨e, he, hge⟩
    · have hdlt := hall d (Disk.mem_pending.mpr ⟨hdrow, hkey⟩) hlow
      exact Disk.lt_nextSequence.mpr (Or.inr (Or.inl ⟨next, hcur ▸ hnext, by omega⟩))
    · obtain ⟨herow, hekey⟩ := Disk.mem_pending.mp he
      have := hstays e herow fun _ => hge
      rw [hekey] at this
      omega
  · have := hstays d hdrow fun hkey =>
      Nat.le_of_not_lt fun hlt => hlow ⟨hkey, hlt⟩
    rw [hdkey] at this
    omega

-- ======== runs

/-- The moments at which acknowledging is safe. -/
def Journal.Safe (j : Journal) : SpoolOp → Prop
  | .acknowledge key nextSequence _ =>
    j.spool.disk.Covered key nextSequence
  | _ => True

instance (j : Journal) (op : SpoolOp) : Decidable (j.Safe op) :=
  match op with
  | .acknowledge key nextSequence _ =>
    inferInstanceAs (Decidable (j.spool.disk.Covered key nextSequence))
  | .append .. => isTrue trivial
  | .restart => isTrue trivial

theorem Journal.Ahead.step (h : j.Ahead) {op : SpoolOp}
    (hsafe : j.Safe op) : (j.step op).Ahead := by
  cases op with
  | append key content now cut => exact h.append key content now cut
  | acknowledge key nextSequence cut => exact h.acknowledge hsafe cut
  | restart => exact ⟨h.above, h.distinct⟩

/-- As long as acknowledgements only remove chunks below the cursor or
below a chunk that stays, no number is given out twice. -/
theorem sequence_never_reused (s : Spool) (ops : List SpoolOp)
    (hsafe : Transition.Guarded Journal.step Journal.Safe (Journal.fresh s) ops) :
    ((Journal.run s ops).written.map LogChunk.path).Nodup := by
  have hstart : (Journal.fresh s).Ahead := ⟨fun _ hc => absurd hc List.not_mem_nil, List.nodup_nil⟩
  exact (Transition.Guarded.invariant (I := Journal.Ahead)
    (fun _ _ h hg => h.step hg) hstart hsafe).distinct

theorem sequence_never_reused_small : (((Journal.run smallSpool
        [.append smallKey [97] (fun _ => 0) none, .acknowledge smallKey 2 none, .restart,
          .append smallKey [98] (fun _ => 0) (some 1)]).written).map LogChunk.path).Nodup :=
  sequence_never_reused smallSpool _ (by decide)

/-- An `Append` whose cursor is not written, an acknowledgement of what
it did write, and the next `Append` starts from 1 again. -/
theorem number_reused : ∃ c ∈ (Journal.run smallSpool [.append smallKey [97] (fun _ => 0) (some 1),
          .acknowledge smallKey 2 none, .append smallKey [98] (fun _ => 0) none]).written,
      ∃ d ∈ (Journal.run smallSpool [.append smallKey [97] (fun _ => 0) (some 1),
          .acknowledge smallKey 2 none, .append smallKey [98] (fun _ => 0) none]).written,
      c.path = d.path ∧ c.content ≠ d.content := by
  decide

end Yunling.Logstream
