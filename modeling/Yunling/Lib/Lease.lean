/-
Leases: rows that one worker at a time works on.

A worker claims a row, which gives the row a lease that ends at a known
instant, works for as long as it takes, and then marks the row. A row
whose lease has ended may be claimed again. The claims are numbered, and
`latest` has the number of a row's last claim: it is a record for the
argument only, no worker reads it.

# Who may mark

Nothing in a mark says whose it is, so nothing stops the worker of an
earlier claim. What keeps it out is time: a worker that marks before the
end of its lease is the worker of the row's latest claim (`fenced`). The
invariant behind it (`Held`) says that a lease that has not ended is
still the row's own.
-/
import Yunling.Lib.Hash
import Yunling.Lib.Transition

namespace Lease

open Relational

/-- How the rows of a table are leased: the end of the lease of a row that
is worked on, which rows can be claimed and marked, and what claims and
marks write. -/
structure Discipline (ρ κ μ : Type) (key : ρ → κ) where
  ending : ρ → Option Int
  claimable : Int → ρ → Bool
  claimed : Int → Int → ρ → ρ
  markable : μ → ρ → Bool
  marked : μ → ρ → ρ
  /-- The worker is done after the mark. -/
  final : μ → Bool
  claimed_key : ∀ now ends r, key (claimed now ends r) = key r
  marked_key : ∀ m r, key (marked m r) = key r
  /-- A row whose lease has not ended is not claimed. -/
  claimable_ending : ∀ {now r ends}, claimable now r = true → ending r = some ends → ends ≤ now
  claimed_ending : ∀ now ends r, ending (claimed now ends r) = some ends
  /-- A worker that goes on keeps its lease. -/
  marked_ending : ∀ {m r}, final m = false → markable m r = true → ending (marked m r) = ending r

/-- A table with the workers on its rows: for each claim that is being
worked on its row and the end of its lease. -/
structure State (ρ κ : Type) (key : ρ → κ) where
  rows : Table ρ κ key
  workers : Hash Nat (κ × Int)
  latest : Hash κ Nat
  issued : Nat
  clock : Int

section System

variable {ρ κ μ : Type} {key : ρ → κ} [DecidableEq κ] {n : Nat} {m : μ} {k : κ} {now : Int}

namespace State

variable (d : Discipline ρ κ μ key)

/-- A row is claimed. -/
def claim (s : State ρ κ key) (k : κ) (now length : Int) : State ρ κ key :=
  match s.rows.find? k with
  | some r =>
    if d.claimable now r then
      { rows := s.rows.update (fun r => key r = k)
          (d.claimed now (now + length)) (d.claimed_key now (now + length))
        workers := s.workers.set s.issued (k, now + length)
        latest := s.latest.set k s.issued
        issued := s.issued + 1
        clock := now }
    else { s with clock := now }
  | none => { s with clock := now }

/-- The row a worker's mark changes, if it changes one. -/
def marks (s : State ρ κ key) (n : Nat) (m : μ) : Option κ :=
  match s.workers.get? n with
  | some (k, _) => match s.rows.find? k with
    | some r => if d.markable m r then some k else none
    | none => none
  | none => none

/-- A worker marks its row. It is done after a final mark, and after one
that changes nothing, which it sees as an error. -/
def mark (s : State ρ κ key) (n : Nat) (m : μ) (now : Int) : State ρ κ key :=
  match s.marks d n m with
  | some k =>
    { s with
      rows := s.rows.update (fun r => decide (key r = k) && d.markable m r)
        (d.marked m) (d.marked_key m)
      workers := if d.final m then s.workers.del n else s.workers
      clock := now }
  | none => { s with workers := s.workers.del n, clock := now }

/-- A worker is gone, or gives up, without a word. -/
def leave (s : State ρ κ key) (n : Nat) : State ρ κ key :=
  { s with workers := s.workers.del n }

/-- A new row; one whose key is taken is refused. -/
def add (s : State ρ κ key) (r : ρ) : State ρ κ key :=
  match s.rows.insert? r with
  | some rows => { s with rows }
  | none => s

end State

/-- What happens to a table and its workers. -/
inductive Op (ρ κ μ : Type) where
  | claim (k : κ) (now length : Int)
  | mark (n : Nat) (m : μ) (now : Int)
  | leave (n : Nat)
  | add (r : ρ)

variable (d : Discipline ρ κ μ key)

/-- Time does not go back, and a worker marks before the end of its
lease. -/
def Timely (s : State ρ κ key) : Op ρ κ μ → Prop
  | .claim _ now _ => s.clock ≤ now
  | .mark n _ now => s.clock ≤ now ∧ ∀ k ends, s.workers.get? n = some (k, ends) → now < ends
  | .leave _ => True
  | .add _ => True

/-- A lease that has not ended is the row's own, and its claim the
latest. -/
def Held (s : State ρ κ key) : Prop :=
  ∀ n k ends, s.workers.get? n = some (k, ends) → n < s.issued
    ∧ (s.clock < ends → s.latest.get? k = some n
      ∧ ∃ r, s.rows.find? k = some r ∧ d.ending r = some ends)

variable {d}

-- ======== steps

variable {s : State ρ κ key}

theorem marks_eq_some (h : s.marks d n m = some k) : (∃ ends, s.workers.get? n = some (k, ends))
      ∧ ∃ r, s.rows.find? k = some r ∧ d.markable m r = true := by
  unfold State.marks at h
  split at h
  case h_2 => cases h
  next k' ends hworker =>
  split at h
  case h_2 => cases h
  next r hrow =>
  split at h
  case isFalse => cases h
  next hmark =>
  cases h
  exact ⟨⟨ends, hworker⟩, r, hrow, hmark⟩

/-- A mark that fits changes its row. -/
theorem mark_rows_of_markable {now ends : Int} {r : ρ} (hworker : s.workers.get? n = some (k, ends))
    (hrow : s.rows.find? k = some r) (hmark : d.markable m r = true) :
    (s.mark d n m now).rows.rows = s.rows.rows.map
      (Table.amend (fun r => decide (key r = k) && d.markable m r) (d.marked m)) := by
  have hmarks : s.marks d n m = some k := by
    unfold State.marks
    rw [hworker]
    dsimp only
    rw [hrow]
    exact if_pos hmark
  unfold State.mark
  rw [hmarks]
  rfl

/-- A mark that does not fit changes nothing. -/
theorem mark_rows_of_not (h : ∀ k ends r, s.workers.get? n = some (k, ends) →
      s.rows.find? k = some r → d.markable m r = false) : (s.mark d n m now).rows = s.rows := by
  have hmarks : s.marks d n m = none := by
    cases hm : s.marks d n m with
    | none => rfl
    | some k =>
      obtain ⟨⟨ends, hworker⟩, r, hrow, hmark⟩ := marks_eq_some hm
      rw [h k ends r hworker hrow] at hmark
      cases hmark
  unfold State.mark
  rw [hmarks]

section Held

variable (hs : Held d s)

include hs

/-- The worker of a lease that has not ended is the one of the latest
claim. -/
theorem Held.fenced (htime : Timely s (.mark n m now : Op ρ κ μ)) (h : s.marks d n m = some k) :
    s.latest.get? k = some n := by
  obtain ⟨⟨ends, hworker⟩, -⟩ := marks_eq_some h
  have hlive := htime.2 k ends hworker
  exact ((hs n k ends hworker).2 (lt_of_le_of_lt htime.1 hlive)).1

/-- Fewer workers, a later time. -/
theorem Held.fewer {workers : Hash Nat (κ × Int)} {clock : Int} (hclock : s.clock ≤ clock)
    (hworkers : ∀ n w, workers.get? n = some w → s.workers.get? n = some w) :
    Held d { s with workers, clock } := by
  intro n k ends hworker
  obtain ⟨hissued, hlive⟩ := hs n k ends (hworkers n _ hworker)
  exact ⟨hissued, fun hlt => hlive (lt_of_le_of_lt hclock hlt)⟩

theorem Held.claim {now length : Int} (htime : s.clock ≤ now) :
    Held d (s.claim d k now length) := by
  unfold State.claim
  cases hrow : s.rows.find? k with
  | none => exact hs.fewer htime fun _ _ h => h
  | some r =>
    dsimp only
    split
    case isFalse => exact hs.fewer htime fun _ _ h => h
    next hclaim =>
    intro n k' ends hworker
    dsimp only at hworker ⊢
    rw [Hash.get?_set] at hworker
    rw [Hash.get?_set, Table.find?_update]
    by_cases hn : n = s.issued
    · -- the new claim
      rw [if_pos hn, Option.some.injEq] at hworker
      obtain ⟨rfl, rfl⟩ := hworker
      refine ⟨by omega, fun _ => ⟨by rw [if_pos rfl, hn], ?_⟩⟩
      refine ⟨d.claimed now (now + length) r, ?_, d.claimed_ending _ _ _⟩
      have hkey := (s.rows.find?_eq_some.mp hrow).2
      rw [hrow, Option.map_some, Table.amend_pos (by simpa using hkey)]
    · rw [if_neg hn] at hworker
      obtain ⟨hissued, hlive⟩ := hs n k' ends hworker
      refine ⟨by omega, fun hlt => ?_⟩
      obtain ⟨hlatest, r', hrow', hending⟩ := hlive (lt_of_le_of_lt htime hlt)
      have hk : k' ≠ k := by
        -- a row whose lease has not ended cannot be claimed
        rintro rfl
        cases hrow.symm.trans hrow'
        exact absurd (d.claimable_ending hclaim hending) (by omega)
      have hkey := (s.rows.find?_eq_some.mp hrow').2
      refine ⟨by rw [if_neg hk]; exact hlatest, r', ?_, hending⟩
      rw [hrow', Option.map_some, Table.amend_neg (by simpa [hkey] using hk)]

theorem Held.mark (htime : Timely s (.mark n m now : Op ρ κ μ)) : Held d (s.mark d n m now) := by
  unfold State.mark
  cases hmarks : s.marks d n m with
  | none => exact hs.fewer htime.1 fun _ _ h => (Hash.get?_del_eq_some h).2
  | some k =>
    have hlatest := hs.fenced htime hmarks
    obtain ⟨-, r, hrow, hmark⟩ := marks_eq_some hmarks
    intro n' k' ends hworker
    dsimp only at hworker ⊢
    have hbefore : s.workers.get? n' = some (k', ends) ∧ (n' = n → d.final m = false) := by
      split at hworker
      · obtain ⟨hne, h⟩ := Hash.get?_del_eq_some hworker
        exact ⟨h, fun heq => absurd heq hne⟩
      · next hfinal =>
        exact ⟨hworker, fun _ => by simpa using hfinal⟩
    obtain ⟨hissued, hlive⟩ := hs n' k' ends hbefore.1
    refine ⟨hissued, fun hlt => ?_⟩
    obtain ⟨hlatest', r', hrow', hending⟩ := hlive (lt_of_le_of_lt htime.1 hlt)
    refine ⟨hlatest', Table.amend (fun r => decide (key r = k) && d.markable m r) (d.marked m) r',
      by rw [Table.find?_update, hrow', Option.map_some], ?_⟩
    by_cases hk : k' = k
    · -- two live leases of one row are one
      subst hk
      have hn : n' = n := Option.some.inj (hlatest'.symm.trans hlatest)
      cases hrow.symm.trans hrow'
      have hkey := (s.rows.find?_eq_some.mp hrow).2
      rw [Table.amend_pos (by simp [hkey, hmark]), d.marked_ending (hbefore.2 hn) hmark]
      exact hending
    · have hkey := (s.rows.find?_eq_some.mp hrow').2
      rw [Table.amend_neg (by simp [hkey, hk])]
      exact hending

theorem Held.add (r : ρ) : Held d (s.add r) := by
  unfold State.add
  cases hinsert : s.rows.insert? r with
  | none => exact hs
  | some rows =>
    intro n k ends hworker
    obtain ⟨hissued, hlive⟩ := hs n k ends hworker
    refine ⟨hissued, fun hlt => ?_⟩
    obtain ⟨hlatest, r', hrow, hending⟩ := hlive hlt
    refine ⟨hlatest, r', ?_, hending⟩
    obtain ⟨hmem, hkey⟩ := s.rows.find?_eq_some.mp hrow
    refine rows.find?_eq_some.mpr ⟨?_, hkey⟩
    rw [(Table.insert?_eq_some hinsert).1]
    exact List.mem_append_left _ hmem

theorem Held.leave (n : Nat) : Held d (s.leave n) :=
  hs.fewer (le_refl _) fun _ _ h => (Hash.get?_del_eq_some h).2

end Held

/-- A table nobody works on. -/
theorem Held.start (rows : Table ρ κ key) (clock : Int) :
    Held d ⟨rows, Table.empty, Table.empty, 0, clock⟩ := by
  intro n k ends hworker
  cases hworker

end System

end Lease
