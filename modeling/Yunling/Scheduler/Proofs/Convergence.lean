/-
Redis converges to the lease rows.

Each scan releases in Redis what the database has released and restores
what the database holds. Both phases go through a list of leases, and
each call writes the entries of one run on one server (`Redis.entry`).
In every database the platform can reach the two lists name different
runs, since a run has at most one lease row. So the second phase undoes
nothing of the first, the entries after both are those the rows ask for,
and a second pass finds nothing to do.

# What is not cleaned up

The release phase knows the server of the lease row and asks that server
only. A reservation of the same run on another server, left behind when
giving it back failed, is not touched (`stale_reservation_kept`); it goes
when it expires.
-/
import Yunling.Platform.Proofs.Leases
import Yunling.Redis.Proofs.Accounting
import Yunling.Scheduler.Service

namespace Yunling

open Relational Scheduler

variable {lease : Lease} {redis redis' : Redis} {now : Int} {db : Database} {s s' : LeaseState}
  {runID leaseID : String} {r : Resources} {reply : Nat}

-- ======== entries

/-- What Redis has of one run on one server. -/
structure Entry where
  amounts : Option String
  expiry : Option Int
  lease : Option (String × Int)

/-- Nothing. -/
def Entry.none : Entry := ⟨.none, .none, .none⟩

def LeaseState.entry (s : LeaseState) (runID : String) : Entry where
  amounts := s.amounts.get? runID
  expiry := s.expirations.get? runID
  lease := s.leases.get? runID

def Redis.entry (redis : Redis) (serverID runID : String) : Entry :=
  (redis serverID).entry runID

/-- What restoring a lease writes. -/
def restored (now : Int) (lease : Lease) : Entry where
  amounts := some lease.resources.pack
  expiry := some (unixMilli lease.expiresAt)
  lease := some (lease.id, (lease.expiresAt - now) / 1000)

/-- `redis'` is `redis` with one entry written. -/
def Redis.Wrote (redis redis' : Redis) (lease : Lease) (entry : Entry) : Prop :=
  ∀ serverID runID, redis'.entry serverID runID
    = if serverID = lease.serverID ∧ runID = lease.runID then entry
      else redis.entry serverID runID

/-- A script that writes one run's entry, on one server. -/
theorem Redis.wrote_update {entry : Entry} {s : LeaseState}
    (h : ∀ runID, s.entry runID = if runID = lease.runID then entry
      else (redis lease.serverID).entry runID) :
    redis.Wrote (Function.update redis lease.serverID s) lease entry := by
  intro serverID runID
  unfold Redis.entry
  by_cases hs : serverID = lease.serverID
  · rw [hs, Function.update_self, h]
    simp
  · rw [Function.update_of_ne hs, if_neg fun hc => hs hc.1]

-- ======== calls

theorem release_wrote
    (h : release lease redis = (.ok (), redis')) : redis.Wrote redis' lease .none := by
  unfold release at h
  split at h
  · cases h
  obtain ⟨-, rfl⟩ := Prod.mk.inj h
  apply Redis.wrote_update
  intro runID
  unfold LeaseState.entry LeaseState.releaseScript
  rw [LeaseState.evict_amounts, LeaseState.evict_expirations,
    Hash.get?_del, Hash.get?_del, Hash.get?_del]
  by_cases hrun : runID = lease.runID
  · simp only [hrun, if_true]
    rfl
  · simp only [hrun, if_false]

theorem LeaseState.write_entry {old : Resource → Int} {expiry px : Int}
    (h : s.write runID r old expiry leaseID px = (.ok reply, s')) : 0 < px ∧ ∀ run, s'.entry run
      = if run = runID then ⟨some r.pack, some expiry, some (leaseID, px)⟩
        else s.entry run := by
  unfold LeaseState.write at h
  split at h
  · cases h
  obtain ⟨-, rfl⟩ := Prod.mk.inj h
  refine ⟨by omega, fun run => ?_⟩
  unfold LeaseState.entry
  rw [Hash.get?_set, Hash.get?_set, Hash.get?_set]
  by_cases hrun : run = runID
  · simp only [hrun, if_true]
  · simp only [hrun, if_false]

theorem LeaseState.restoreScript_entry {expiry px : Int}
    (h : s.restoreScript runID r expiry leaseID px = (.ok reply, s')) : 0 < px ∧ ∀ run, s'.entry run
      = if run = runID then ⟨some r.pack, some expiry, some (leaseID, px)⟩
        else s.entry run := by
  unfold LeaseState.restoreScript at h
  repeat' split at h
  · exact LeaseState.write_entry h
  · cases h
  · exact LeaseState.write_entry h

/-- A lease with time left that was restored. -/
theorem restore_wrote
    (hlive : now < lease.expiresAt) (h : restore lease now redis = (.ok (), redis')) :
    restorable lease now = true ∧ 0 < (lease.expiresAt - now) / 1000
      ∧ redis.Wrote redis' lease (restored now lease) := by
  unfold restore at h
  split at h
  · cases h
  next hvalid =>
  refine ⟨Bool.eq_true_of_not_eq_false hvalid, ?_⟩
  rw [if_neg (by omega)] at h
  unfold Redis.eval at h
  dsimp only at h
  rcases hs : (redis lease.serverID).restoreScript lease.runID
    lease.resources (unixMilli lease.expiresAt) lease.id
    ((lease.expiresAt - now) / 1000) with ⟨reply, s'⟩
  rw [hs] at h
  cases reply with
  | error e => cases h
  | ok reply =>
    obtain ⟨-, rfl⟩ := Prod.mk.inj h
    obtain ⟨hpx, hentry⟩ := LeaseState.restoreScript_entry hs
    exact ⟨hpx, Redis.wrote_update hentry⟩

-- ======== fixed points

/-- Releasing what is not there does nothing. -/
theorem release_fixed (hnamed : ¬ (lease.runID = "" ∨ lease.serverID = ""))
    (h : redis.entry lease.serverID lease.runID = .none) :
    release lease redis = (.ok (), redis) := by
  obtain ⟨hamounts, hexpiry, hlease⟩ := Entry.mk.inj h
  have hscript : (redis lease.serverID).releaseScript lease.runID = redis lease.serverID := by
    unfold LeaseState.releaseScript LeaseState.evict
    rw [hamounts]
    rw [Hash.del_of_get? hexpiry, Hash.del_of_get? hlease]
  unfold release Redis.eval
  rw [if_neg hnamed]
  dsimp only
  rw [hscript, Function.update_eq_self]

theorem restore_fixed (hvalid : restorable lease now = true)
    (hpx : 0 < (lease.expiresAt - now) / 1000)
    (h : redis.entry lease.serverID lease.runID = restored now lease) :
    restore lease now redis = (.ok (), redis) := by
  obtain ⟨hamounts, hexpiry, hlease⟩ := Entry.mk.inj h
  have hunpack := unpack_pack fun res => (restorable_positive hvalid res).le
  have hscript : (redis lease.serverID).restoreScript lease.runID
      lease.resources (unixMilli lease.expiresAt) lease.id
      ((lease.expiresAt - now) / 1000) = (.ok 1, redis lease.serverID) := by
    unfold LeaseState.restoreScript
    rw [hamounts]
    dsimp only
    rw [hunpack]
    unfold LeaseState.write
    dsimp only
    rw [if_neg (by omega), Hash.set_of_get? hamounts,
      Hash.set_of_get? hexpiry, Hash.set_of_get? hlease, sub_self, add_zero]
  unfold restore Redis.eval
  rw [if_neg (by simp [hvalid])]
  dsimp only
  rw [if_neg (by omega), hscript]
  rw [Function.update_eq_self]

-- ======== loops

section Loops

variable {call : Lease → Redis → Except LeaseError Unit × Redis}

theorem eachLease_cons {lease : Lease} {rest : List Lease} {redis redis' : Redis}
    (h : eachLease call (lease :: rest) redis = (.ok (), redis')) :
    ∃ next, call lease redis = (.ok (), next) ∧ eachLease call rest next = (.ok (), redis') := by
  unfold eachLease at h
  split at h
  · cases h
  · next next hcall => exact ⟨next, hcall, h⟩

theorem eachLease_fixed {leases : List Lease} {redis : Redis}
    (h : ∀ lease ∈ leases, call lease redis = (.ok (), redis)) :
    eachLease call leases redis = (.ok (), redis) := by
  induction leases with
  | nil => rfl
  | cons lease rest ih =>
    unfold eachLease
    rw [h lease List.mem_cons_self]
    exact ih fun other hother => h other (List.mem_cons_of_mem _ hother)

variable {target : Lease → Entry}

/-- Entries no lease of the list is about. -/
theorem eachLease_frame {serverID runID : String} : ∀ {leases : List Lease} {redis redis' : Redis},
      (∀ lease ∈ leases, ∀ redis redis', call lease redis = (.ok (), redis') →
        redis.Wrote redis' lease (target lease)) → (∀ lease ∈ leases,
        ¬ (serverID = lease.serverID ∧ runID = lease.runID)) →
      eachLease call leases redis = (.ok (), redis') →
      redis'.entry serverID runID = redis.entry serverID runID := by
  intro leases
  induction leases with
  | nil =>
    intro redis redis' _ _ h
    rw [(Prod.mk.inj h).2]
  | cons lease rest ih =>
    intro redis redis' hcall hother h
    obtain ⟨next, hfirst, hrest⟩ := eachLease_cons h
    rw [ih (fun l hl => hcall l (List.mem_cons_of_mem _ hl))
        (fun l hl => hother l (List.mem_cons_of_mem _ hl)) hrest,
      hcall lease List.mem_cons_self _ _ hfirst, if_neg (hother lease List.mem_cons_self)]

/-- The entry of a lease of the list, where the list agrees on it. -/
theorem eachLease_entry : ∀ {leases : List Lease} {lease : Lease} {redis redis' : Redis},
      (∀ lease ∈ leases, ∀ redis redis', call lease redis = (.ok (), redis') →
        redis.Wrote redis' lease (target lease)) →
      (∀ other ∈ leases, lease.serverID = other.serverID
        ∧ lease.runID = other.runID → target other = target lease) → lease ∈ leases →
      eachLease call leases redis = (.ok (), redis') →
      redis'.entry lease.serverID lease.runID = target lease := by
  intro leases
  induction leases with
  | nil => intro _ _ _ _ _ hmem; cases hmem
  | cons first rest ih =>
    intro lease redis redis' hcall hagree hmem h
    obtain ⟨next, hfirst, hrest⟩ := eachLease_cons h
    have hcall' : ∀ l ∈ rest, ∀ redis redis', call l redis = (.ok (), redis') →
        redis.Wrote redis' l (target l) :=
      fun l hl => hcall l (List.mem_cons_of_mem _ hl)
    -- the last lease of the list about this entry decides it
    by_cases hlater : ∃ other ∈ rest, lease.serverID = other.serverID ∧ lease.runID = other.runID
    · obtain ⟨other, hother, hserver, hrun⟩ := hlater
      have hsame := hagree other (List.mem_cons_of_mem _ hother) ⟨hserver, hrun⟩
      rw [hserver, hrun, ← hsame]
      refine ih hcall' ?_ hother hrest
      intro l hl hl'
      rw [hsame]
      exact hagree l (List.mem_cons_of_mem _ hl) ⟨hserver.trans hl'.1, hrun.trans hl'.2⟩
    · have hfirst' : lease = first := by
        rcases List.mem_cons.mp hmem with rfl | hmem
        · rfl
        · exact absurd ⟨lease, hmem, rfl, rfl⟩ hlater
      rw [eachLease_frame hcall' (fun l hl hl' => hlater ⟨l, hl, hl'⟩) hrest, hfirst',
        hcall first List.mem_cons_self _ _ hfirst, if_pos ⟨rfl, rfl⟩]

end Loops

-- ======== the scan

theorem mem_listReleasedLeases
    (h : lease ∈ db.listReleasedLeases now) : ∃ l ∈ db.leases.rows, l.releasedAt ≠ none
      ∧ l.taskRunId = lease.runID ∧ l.serverId = lease.serverID := by
  obtain ⟨l, hl, rfl⟩ := List.mem_map.mp h
  obtain ⟨hmem, hl'⟩ := List.mem_filter.mp hl
  rw [Bool.and_eq_true] at hl'
  exact ⟨l, hmem, Option.isSome_iff_ne_none.mp hl'.1, rfl, rfl⟩

theorem mem_listActiveLeases :
    lease ∈ db.listActiveLeases now ↔ ∃ l ∈ db.leases.rows, db.leaseActive now l = true
        ∧ l.lease = lease := by
  unfold Database.listActiveLeases
  simp [and_assoc]

theorem leaseActive_iff {l : ResourceLease} :
    db.leaseActive now l = true ↔ l.releasedAt = none ∧ now < l.expiresAt
      ∧ ∃ r ∈ db.runs.rows, r.id = l.taskRunId ∧ r.state.active = true := by
  unfold Database.leaseActive
  rw [Bool.and_eq_true, Bool.and_eq_true, Option.any_eq_true,
    Option.isNone_iff_eq_none, decide_eq_true_eq, and_assoc]
  simp only [Table.find?_eq_some, and_assoc]

section Scan

variable {db : Database} (inv : LeaseInv db) {releaseNow restoreNow : Int}
include inv

theorem LeaseInv.lists_disjoint {released active : Lease}
    (hreleased : released ∈ db.listReleasedLeases releaseNow)
    (hactive : active ∈ db.listActiveLeases restoreNow) : released.runID ≠ active.runID := by
  intro he
  obtain ⟨l, hl, hl', hrun, -⟩ := mem_listReleasedLeases hreleased
  obtain ⟨m, hm, hm', rfl⟩ := mem_listActiveLeases.mp hactive
  have hrow : l = m := inv.single l hl m hm (hrun.trans he)
  exact hl' (hrow ▸ (leaseActive_iff.mp hm').1)

theorem LeaseInv.active_unique {lease other : Lease}
    (hlease : lease ∈ db.listActiveLeases restoreNow)
    (hother : other ∈ db.listActiveLeases restoreNow)
    (h : lease.runID = other.runID) : other = lease := by
  obtain ⟨l, hl, -, rfl⟩ := mem_listActiveLeases.mp hlease
  obtain ⟨m, hm, -, rfl⟩ := mem_listActiveLeases.mp hother
  rw [inv.single l hl m hm h]

theorem LeaseInv.entries {redis redis' : Redis} (h : reconcileLeases db releaseNow restoreNow redis
      = (.ok (), redis')) : (∀ lease ∈ db.listReleasedLeases releaseNow,
      redis'.entry lease.serverID lease.runID = .none) ∧ (∀ lease ∈ db.listActiveLeases restoreNow,
      redis'.entry lease.serverID lease.runID = restored restoreNow lease) := by
  unfold reconcileLeases at h
  split at h
  · cases h
  next middle hrelease =>
  have hlive : ∀ lease ∈ db.listActiveLeases restoreNow, restoreNow < lease.expiresAt := by
    intro lease hlease
    obtain ⟨l, -, hl, rfl⟩ := mem_listActiveLeases.mp hlease
    exact (leaseActive_iff.mp hl).2.1
  have hwrote : ∀ lease ∈ db.listActiveLeases restoreNow,
      ∀ redis redis', restore lease restoreNow redis = (.ok (), redis') →
      redis.Wrote redis' lease (restored restoreNow lease) :=
    fun lease hlease _ _ hcall =>
      (restore_wrote (hlive lease hlease) hcall).2.2
  constructor
  · intro lease hlease
    rw [eachLease_frame hwrote (fun active hactive hc =>
      inv.lists_disjoint hlease hactive hc.2) h]
    exact eachLease_entry (fun _ _ _ _ hcall => release_wrote hcall)
      (fun _ _ _ => rfl) hlease hrelease
  · intro lease hlease
    exact eachLease_entry hwrote (fun other hother hc => by
      rw [inv.active_unique hlease hother hc.2]) hlease h

end Scan

/-- Every call of a list that went through was valid. -/
theorem eachLease_valid {valid : Lease → Prop}
    {call : Lease → Redis → Except LeaseError Unit × Redis}
    (hcall : ∀ lease redis redis', call lease redis = (.ok (), redis') → valid lease) :
    ∀ {leases : List Lease} {redis redis' : Redis}, eachLease call leases redis = (.ok (), redis') →
      ∀ lease ∈ leases, valid lease := by
  intro leases
  induction leases with
  | nil => intro _ _ _ _ hmem; cases hmem
  | cons first rest ih =>
    intro redis redis' h lease hmem
    obtain ⟨next, hfirst, hrest⟩ := eachLease_cons h
    rcases List.mem_cons.mp hmem with rfl | hmem
    · exact hcall lease _ _ hfirst
    · exact ih hrest lease hmem

theorem release_valid
    (h : release lease redis = (.ok (), redis')) : ¬ (lease.runID = "" ∨ lease.serverID = "") := by
  unfold release at h
  split at h
  · cases h
  · assumption

theorem restore_valid (h : restore lease now redis = (.ok (), redis')) :
    restorable lease now = true ∧ (now < lease.expiresAt → 0 < (lease.expiresAt - now) / 1000) := by
  refine ⟨?_, fun hlive => (restore_wrote hlive h).2.1⟩
  unfold restore at h
  split at h
  · cases h
  · next hvalid => exact Bool.eq_true_of_not_eq_false hvalid

/-- Phases that go through made valid calls only. -/
theorem reconcileLeases_valid {releaseNow restoreNow : Int}
    (h : reconcileLeases db releaseNow restoreNow redis = (.ok (), redis')) :
    (∀ lease ∈ db.listReleasedLeases releaseNow, ¬ (lease.runID = "" ∨ lease.serverID = ""))
    ∧ ∀ lease ∈ db.listActiveLeases restoreNow, restorable lease restoreNow = true
        ∧ 0 < (lease.expiresAt - restoreNow) / 1000 := by
  unfold reconcileLeases at h
  split at h
  · cases h
  next middle hrelease =>
  constructor
  · exact eachLease_valid (fun lease redis redis' (hc : release lease redis = _) =>
        release_valid hc) hrelease
  intro lease hlease
  obtain ⟨l, -, hl, rfl⟩ := mem_listActiveLeases.mp hlease
  have hvalid := eachLease_valid (fun lease redis redis'
      (hc : restore lease restoreNow redis = _) =>
        restore_valid hc) h l.lease hlease
  exact ⟨hvalid.1, hvalid.2 (leaseActive_iff.mp hl).2.1⟩

/-- After the lease phases of a scan, Redis has what the lease rows say:
every open, unexpired lease of an active run is reserved on its server
with its amounts, no released, unexpired lease is reserved on its server,
and doing it again changes nothing. -/
theorem redis_converges (ops : List Op) (redis redis' : Redis) (releaseNow restoreNow : Int)
    (h : reconcileLeases (runOps .empty ops) releaseNow restoreNow redis = (.ok (), redis')) :
    (∀ l ∈ (runOps .empty ops).leases.rows, l.releasedAt = none → restoreNow < l.expiresAt →
      (∃ r ∈ (runOps .empty ops).runs.rows, r.id = l.taskRunId ∧ r.state.active = true) →
      ∃ packed, (redis' l.serverId).amounts.get? l.taskRunId = some packed
        ∧ unpack packed = some l.resources)
    ∧ (∀ l ∈ (runOps .empty ops).leases.rows, l.releasedAt ≠ none → releaseNow < l.expiresAt →
      (redis' l.serverId).amounts.get? l.taskRunId = none)
    ∧ reconcileLeases (runOps .empty ops) releaseNow restoreNow redis' = (.ok (), redis') := by
  have inv := leaseInv_run ops
  generalize runOps .empty ops = db at inv h ⊢
  obtain ⟨hreleased, hactive⟩ := inv.entries h
  obtain ⟨hnamed, hvalid⟩ := reconcileLeases_valid h
  refine ⟨?_, ?_, ?_⟩
  · intro l hl hopen hexpires hrun
    have hmem : l.lease ∈ db.listActiveLeases restoreNow := mem_listActiveLeases.mpr
        ⟨l, hl, leaseActive_iff.mpr ⟨hopen, hexpires, hrun⟩, rfl⟩
    have hentry := congrArg Entry.amounts (hactive _ hmem)
    refine ⟨_, hentry, unpack_pack fun res => ?_⟩
    exact (restorable_positive (hvalid _ hmem).1 res).le
  · intro l hl hrel hexpires
    have hmem : ({ id := l.id, runID := l.taskRunId, serverID := l.serverId
                   resources := ⟨0, 0, 0⟩, expiresAt := zeroTime } : Lease)
        ∈ db.listReleasedLeases releaseNow := by
      refine List.mem_map.mpr ⟨l, List.mem_filter.mpr ⟨hl, ?_⟩, rfl⟩
      simp [Option.isSome_iff_ne_none.mpr hrel, hexpires]
    exact congrArg Entry.amounts (hreleased _ hmem)
  · have hfirst : releasePhase db releaseNow redis' = (.ok (), redis') :=
      eachLease_fixed fun lease hlease =>
        release_fixed (hnamed lease hlease) (hreleased lease hlease)
    unfold reconcileLeases
    rw [hfirst]
    refine eachLease_fixed fun lease hlease => ?_
    obtain ⟨hok, hpx⟩ := hvalid lease hlease
    exact restore_fixed hok hpx (hactive lease hlease)

-- ======== samples

/-- One run is over, another one is active. -/
def Sample.leases : List Op :=
  setup [definition "task" 1] ++ start "task" "over" "token-1" 5
    ++ [.runEvent 6 (event "over" "token-1" 1 "succeeded" 6)]
    ++ start "task" "run" "token-2" 7

/-- Redis after a reservation of the run that is over, on the server
named. -/
def Sample.reservedOn (serverID : String) : Redis :=
  leaseRun [.tryReserve { Sample.request "over" with serverID } "stale"]

/-- The stale reservation is dropped and the active one restored. -/
theorem redis_converges_sample : (∃ packed, ((reconcileLeases (runOps .empty Sample.leases) 8 8
        (Sample.reservedOn "server")).2 "server").amounts.get? "run" = some packed
      ∧ unpack packed = some ⟨100, 100, 100⟩) ∧ ((reconcileLeases (runOps .empty Sample.leases) 8 8
        (Sample.reservedOn "server")).2 "server").amounts.get? "over" = none :=
  have h := redis_converges Sample.leases (Sample.reservedOn "server") _
    8 8 (Prod.ext (by decide) rfl)
  ⟨h.1 (Sample.assignment "run" "server" "token-2" "lease-run" 7).leaseRow
      (by decide) rfl (by decide) (by decide),
    h.2.1 { (Sample.assignment "over" "server" "token-1" "lease-over"
        5).leaseRow with releasedAt := some 6 } (by decide) (by decide) (by decide)⟩

/-- The reservation of a run that is over survives on a server its lease
row does not name. -/
theorem stale_reservation_kept : ∃ (ops : List Op) (redis redis' : Redis) (now : Int)
      (l : ResourceLease) (serverID : String),
      reconcileLeases (runOps .empty ops) now now redis = (.ok (), redis')
      ∧ l ∈ (runOps .empty ops).leases.rows ∧ l.releasedAt ≠ none ∧ now < l.expiresAt
      ∧ (redis' serverID).amounts.get? l.taskRunId ≠ none :=
  ⟨Sample.leases, Sample.reservedOn "other", _, 8,
    { (Sample.assignment "over" "server" "token-1" "lease-over"
      5).leaseRow with releasedAt := some 6 }, "other",
    Prod.ext (by decide) rfl, by decide, by decide, by decide, by decide⟩

end Yunling
