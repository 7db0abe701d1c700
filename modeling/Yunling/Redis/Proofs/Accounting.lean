/-
The counters in Redis are exact.

Whatever calls are made, in whatever order, the `reserved` counters of a
server are the sum of the amounts recorded for its runs, and the runs
with an expiry are the runs with an amount. The argument is one of
differences: evicting a run takes its share off the counters and its
entry off the hash (`evict_amounts`, `evict_reserved`), and a write adds
what it records minus what it overwrites. The text the amounts are
stored as loses nothing (`unpack_pack`), so what a script subtracts is
what an earlier one added.

A request that is granted leaves the counters within what it said was
available. One that is refused only sweeps.
-/
import Yunling.Redis.Lease
import Yunling.Lib.Transition
import Mathlib.Algebra.Order.Group.Int
import Mathlib.Algebra.Order.Pi

namespace Yunling

open Relational Scheduler

-- ======== text

theorem number?_toDigits (n : Nat) : number? (Nat.toDigits 10 n) = some (n : Int) := by
  have hall : (Nat.toDigits 10 n).all Char.isDigit = true := List.all_eq_true.mpr fun c hc =>
      Nat.isDigit_of_mem_toDigits (by omega) (by omega) hc
  unfold number?
  rw [if_pos ⟨Nat.toDigits_ne_nil, hall⟩, Nat.ofDigitChars_ten_toDigits]

theorem toList_toString {n : Int} (h : 0 ≤ n) : (toString n).toList = Nat.toDigits 10 n.toNat := by
  obtain ⟨m, rfl⟩ := Int.eq_ofNat_of_zero_le h
  exact Nat.toList_repr

/-- What is stored is what is read back. -/
theorem unpack_pack {r : Resources} (h : ∀ res, 0 ≤ r.amount res) : unpack r.pack = some r := by
  have hcpu : 0 ≤ r.cpuMillicores := h .cpu
  have hmemory : 0 ≤ r.memoryBytes := h .memory
  have hdisk : 0 ≤ r.diskBytes := h .disk
  -- digits are not colons, so the text splits where it was joined
  have hcolon : ∀ n : Nat, ':' ∉ Nat.toDigits 10 n := by
    intro n hmem
    have := Nat.isDigit_of_mem_toDigits (by omega) (by omega) hmem
    revert this
    decide
  have hsplit : r.pack.toList.splitOn ':' = [Nat.toDigits 10 r.cpuMillicores.toNat,
        Nat.toDigits 10 r.memoryBytes.toNat, Nat.toDigits 10 r.diskBytes.toNat] := by
    have hjoin : r.pack.toList = [':'].intercalate [Nat.toDigits 10 r.cpuMillicores.toNat,
          Nat.toDigits 10 r.memoryBytes.toNat, Nat.toDigits 10 r.diskBytes.toNat] := by
      unfold Resources.pack
      simp only [String.toList_append, toList_toString hcpu,
        toList_toString hmemory, toList_toString hdisk]
      simp
    rw [hjoin]
    refine List.splitOn_intercalate ':' ?_ (by simp)
    intro l hl
    simp only [List.mem_cons, List.not_mem_nil, or_false] at hl
    rcases hl with rfl | rfl | rfl
    · exact hcolon _
    · exact hcolon _
    · exact hcolon _
  unfold unpack
  rw [hsplit]
  dsimp only
  rw [number?_toDigits, number?_toDigits, number?_toDigits]
  simp only [Int.toNat_of_nonneg hcpu, Int.toNat_of_nonneg hmemory, Int.toNat_of_nonneg hdisk]

-- ======== the ledger

namespace LeaseState

variable {s s' : LeaseState} {now expiry px : Int} {runID leaseID : String}
  {required available : Resources} {r : Resources}

/-- What a stored text stands for. -/
def amountOf (packed : String) : Resource → Int :=
  ((unpack packed).map Resources.amount).getD 0

/-- The amounts recorded for the runs of a server, added up. -/
def recorded (s : LeaseState) : Resource → Int :=
  Hash.total amountOf s.amounts

/-- The counters agree with the hashes, and the hashes with each
other. -/
structure Exact (s : LeaseState) : Prop where
  counters : s.reserved = s.recorded
  positive : ∀ runID packed, s.amounts.get? runID = some packed →
    ∃ r, unpack packed = some r ∧ ∀ res, 0 < r.amount res
  sameRuns : ∀ runID, (s.expirations.get? runID).isSome = (s.amounts.get? runID).isSome

theorem exact_empty : LeaseState.empty.Exact where
  counters := rfl
  positive _ _ h := by cases h
  sameRuns _ := rfl

theorem amountOf_pack (h : ∀ res, 0 < r.amount res) : amountOf r.pack = r.amount := by
  unfold amountOf
  rw [unpack_pack fun res => (h res).le]
  rfl

theorem Exact.reserved_nonneg (h : s.Exact) (res : Resource) : 0 ≤ s.reserved res := by
  rw [h.counters]
  refine (Hash.total_nonneg amountOf fun runID packed hg => ?_) res
  obtain ⟨r, hr, hpos⟩ := h.positive runID packed hg
  unfold amountOf
  rw [hr]
  exact fun res => (hpos res).le

-- ======== eviction

section Evict

variable (s : LeaseState) (runID : String)

@[simp] theorem evict_amounts : (s.evict runID).amounts = s.amounts.del runID := by
  unfold evict
  split
  · next h => exact (Hash.del_of_get? h).symm
  · rfl

@[simp] theorem evict_expirations : (s.evict runID).expirations = s.expirations.del runID := by
  unfold evict
  split <;> rfl

@[simp] theorem evict_leases : (s.evict runID).leases = s.leases := by
  unfold evict
  split <;> rfl

theorem evict_reserved : (s.evict runID).reserved
    = s.reserved - Hash.share amountOf s.amounts runID := by
  unfold evict Hash.share
  cases hg : s.amounts.get? runID with
  | none =>
    show s.reserved = s.reserved - 0
    rw [sub_zero]
  | some packed =>
    show _ = s.reserved - amountOf packed
    unfold amountOf
    cases hu : unpack packed with
    | none =>
      show _ = s.reserved - 0
      rw [sub_zero]
      dsimp only
      rw [hu]
    | some r =>
      dsimp only
      rw [hu]
      rfl

end Evict

theorem Exact.evict (h : s.Exact) (runID : String) : (s.evict runID).Exact where
  counters := by
    rw [evict_reserved, h.counters]
    unfold recorded
    rw [evict_amounts, Hash.total_del]
  positive := by
    intro run packed hg
    rw [evict_amounts, Hash.get?_del] at hg
    split at hg
    · cases hg
    · exact h.positive run packed hg
  sameRuns := by
    intro run
    rw [evict_amounts, evict_expirations, Hash.get?_del, Hash.get?_del]
    split
    · rfl
    · exact h.sameRuns run

-- ======== sweep

/-- Evicting a list of runs: those runs are gone, the rest is as it
was. -/
theorem foldl_evict (runs : List String) : ∀ s : LeaseState,
      (∀ run, (runs.foldl LeaseState.evict s).amounts.get? run
        = if run ∈ runs then none else s.amounts.get? run)
      ∧ (∀ run, (runs.foldl LeaseState.evict s).expirations.get? run
        = if run ∈ runs then none else s.expirations.get? run)
      ∧ (runs.foldl LeaseState.evict s).leases = s.leases := by
  induction runs with
  | nil => intro s; simp
  | cons first runs ih =>
    intro s
    obtain ⟨hamounts, hexpirations, hleases⟩ := ih (s.evict first)
    refine ⟨fun run => ?_, fun run => ?_, ?_⟩
    · rw [List.foldl_cons, hamounts, evict_amounts, Hash.get?_del]
      by_cases hrun : run = first
      · simp [hrun]
      · simp [hrun]
    · rw [List.foldl_cons, hexpirations, evict_expirations, Hash.get?_del]
      by_cases hrun : run = first
      · simp [hrun]
      · simp [hrun]
    · rw [List.foldl_cons, hleases, evict_leases]

theorem Exact.sweep (h : s.Exact) (now : Int) : (s.sweep now).Exact := by
  unfold LeaseState.sweep
  generalize s.expired now = runs
  induction runs generalizing s with
  | nil => exact h
  | cons first runs ih => exact ih (h.evict first)

/-- The run has an expiry, and it is not after `now`. -/
def lapsed (s : LeaseState) (now : Int) (runID : String) : Bool :=
  (s.expirations.get? runID).any (· ≤ now)

theorem mem_expired {now : Int} : runID ∈ s.expired now ↔ s.lapsed now runID = true := by
  unfold expired lapsed
  rw [Option.any_eq_true]
  simp only [List.mem_map, List.mem_insertionSort, List.mem_filter,
    decide_eq_true_eq, Hash.get?_eq_some]
  constructor
  · rintro ⟨e, he, hid⟩
    rw [← hid]
    exact ⟨e.2, he⟩
  · rintro ⟨expiry, he⟩
    exact ⟨(runID, expiry), he, rfl⟩

/-- `s'` is `s` without the leases that have lapsed. -/
structure Swept (now : Int) (s s' : LeaseState) : Prop where
  amounts : ∀ run, s'.amounts.get? run = if s.lapsed now run then none else s.amounts.get? run
  expirations : ∀ run, s'.expirations.get? run
    = if s.lapsed now run then none else s.expirations.get? run
  leases : s'.leases = s.leases

theorem swept_sweep (s : LeaseState) (now : Int) : Swept now s (s.sweep now) := by
  obtain ⟨hamounts, hexpirations, hleases⟩ := foldl_evict (s.expired now) s
  refine ⟨fun run => ?_, fun run => ?_, hleases⟩
  · simp only [← mem_expired]
    exact hamounts run
  · simp only [← mem_expired]
    exact hexpirations run

-- ======== writes

theorem Exact.write (h : s.Exact)
    (hr : ∀ res, 0 < r.amount res) (runID : String) (expiry : Int) (leaseID : String) (px : Int) :
    (s.write runID r (Hash.share amountOf s.amounts runID) expiry leaseID px).2.Exact := by
  -- the lease key is not part of the ledger
  have hledger : LeaseState.Exact { s with
      reserved := s.reserved + (r.amount - Hash.share amountOf s.amounts runID)
      amounts := s.amounts.set runID r.pack
      expirations := s.expirations.set runID expiry } := by
    constructor
    · show _ = Hash.total amountOf (s.amounts.set runID r.pack)
      rw [Hash.total_set, amountOf_pack hr, h.counters]
      exact (add_comm_sub _ _ _).symm
    · intro run packed hg
      rw [Hash.get?_set] at hg
      split at hg
      · cases hg
        exact ⟨r, unpack_pack fun res => (hr res).le, hr⟩
      · exact h.positive run packed hg
    · intro run
      rw [Hash.get?_set, Hash.get?_set]
      split
      · rfl
      · exact h.sameRuns run
  unfold LeaseState.write
  split
  · exact hledger
  · exact ⟨hledger.counters, hledger.positive, hledger.sameRuns⟩

theorem share_none (h : s.amounts.get? runID = none) : Hash.share amountOf s.amounts runID = 0 := by
  unfold Hash.share
  rw [h]
  rfl

theorem Exact.reserveScript (h : s.Exact) {required : Resources}
    (hr : ∀ res, 0 < required.amount res) (now : Int) (runID : String) (available : Resources)
    (expiry : Int) (leaseID : String) (px : Int) :
    (s.reserveScript now runID required available expiry leaseID px).2.Exact := by
  unfold LeaseState.reserveScript
  dsimp only
  have hswept := h.sweep now
  split
  · exact hswept
  next hfree =>
  split
  · exact hswept
  have hnone : (s.sweep now).amounts.get? runID = none := by
    simpa using hfree
  have hwrite := hswept.write hr runID expiry leaseID px
  rw [share_none hnone] at hwrite
  exact hwrite

theorem Exact.releaseScript (h : s.Exact) (runID : String) : (s.releaseScript runID).Exact := by
  have hevict := h.evict runID
  exact ⟨hevict.counters, hevict.positive, hevict.sameRuns⟩

theorem Exact.restoreScript (h : s.Exact) (hr : ∀ res, 0 < r.amount res)
    (runID : String) (expiry : Int) (leaseID : String) (px : Int) :
    (s.restoreScript runID r expiry leaseID px).2.Exact := by
  have hwrite := h.write hr runID expiry leaseID px
  unfold LeaseState.restoreScript
  cases hg : s.amounts.get? runID with
  | none =>
    rw [share_none hg] at hwrite
    exact hwrite
  | some packed =>
    obtain ⟨old, hold, -⟩ := h.positive runID packed hg
    have hshare : Hash.share amountOf s.amounts runID = old.amount := by
      unfold Hash.share amountOf
      rw [hg, Option.map_some, hold]
      rfl
    rw [hshare] at hwrite
    dsimp only
    rw [hold]
    exact hwrite

/-- What the admission test says, resource by resource. -/
theorem reserveScript_granted
    (h : s.reserveScript now runID required available expiry leaseID px = (.ok 1, s'))
    (res : Resource) : s'.reserved res ≤ available.amount res := by
  unfold LeaseState.reserveScript at h
  dsimp only at h
  split at h
  · cases h
  split at h
  · cases h
  next hroom =>
  simp only [not_or, not_lt] at hroom
  unfold LeaseState.write at h
  split at h
  · cases h
  obtain rfl := (Prod.mk.inj h).2
  cases res with
  | cpu =>
    show _ + (required.cpuMillicores - 0) ≤ available.cpuMillicores
    omega
  | memory =>
    show _ + (required.memoryBytes - 0) ≤ available.memoryBytes
    omega
  | disk =>
    show _ + (required.diskBytes - 0) ≤ available.diskBytes
    omega

/-- A reply other than one comes from before the writes. -/
theorem reserveScript_refused {reply : Nat} (hreply : reply ≠ 1)
    (h : s.reserveScript now runID required available expiry leaseID px = (.ok reply, s')) :
    s' = s.sweep now := by
  unfold LeaseState.reserveScript at h
  dsimp only at h
  split at h
  · exact (Prod.mk.inj h).2.symm
  split at h
  · exact (Prod.mk.inj h).2.symm
  unfold LeaseState.write at h
  split at h
  · cases h
  · cases h
    exact absurd rfl hreply

/-- Only an expiry of no milliseconds makes the script fail. -/
theorem reserveScript_error {e : ScriptError}
    (h : s.reserveScript now runID required available expiry leaseID px = (.error e, s')) :
    px ≤ 0 := by
  unfold LeaseState.reserveScript at h
  dsimp only at h
  split at h
  · cases h
  split at h
  · cases h
  unfold LeaseState.write at h
  split at h
  · assumption
  · cases h

end LeaseState

-- ======== calls

theorem validateRequest_positive {request : LeaseRequest}
    (h : validateRequest request = true) (res : Resource) : 0 < request.required.amount res := by
  simp only [validateRequest, Bool.and_eq_true, decide_eq_true_eq] at h
  obtain ⟨⟨⟨⟨⟨⟨-, hcpu⟩, hmemory⟩, hdisk⟩, -⟩, -⟩, -⟩ := h
  cases res with
  | cpu => exact hcpu
  | memory => exact hmemory
  | disk => exact hdisk

theorem restorable_positive {lease : Lease} {now : Int}
    (h : restorable lease now = true) (res : Resource) : 0 < lease.resources.amount res := by
  simp only [restorable, Bool.and_eq_true, decide_eq_true_eq] at h
  obtain ⟨⟨⟨-, hcpu⟩, hmemory⟩, hdisk⟩ := h
  cases res with
  | cpu => exact hcpu
  | memory => exact hmemory
  | disk => exact hdisk

variable {redis : Redis}

/-- A script on one server's keys, seen from another. -/
theorem Redis.eval_exact {α : Type} {serverID : String} {script : LeaseState → α × LeaseState}
    (h : ∀ server, (redis server).Exact) (hscript : (script (redis serverID)).2.Exact)
    (server : String) : ((redis.eval serverID script).2 server).Exact := by
  unfold Redis.eval
  dsimp only
  by_cases hs : server = serverID
  · rw [hs, Function.update_self]
    exact hscript
  · rw [Function.update_of_ne hs]
    exact h server

theorem LeaseCall.exact_apply {call : LeaseCall} (h : ∀ server, (redis server).Exact)
    (server : String) : (call.apply redis server).Exact := by
  cases call with
  | tryReserve request leaseID =>
    show ((Yunling.tryReserve request leaseID redis).2 server).Exact
    unfold Yunling.tryReserve
    split
    · exact h server
    · next hvalid =>
      have hpos := validateRequest_positive (Bool.eq_true_of_not_eq_false hvalid)
      dsimp only
      -- granted, refused or failed: the script's state is kept
      split
      all_goals
        dsimp only
        refine Redis.eval_exact h ?_ server
        exact (h request.serverID).reserveScript hpos _ _ _ _ _ _
  | release lease =>
    show ((Yunling.release lease redis).2 server).Exact
    unfold Yunling.release
    split
    · exact h server
    · exact Redis.eval_exact h ((h lease.serverID).releaseScript lease.runID) server
  | restore lease now =>
    show ((Yunling.restore lease now redis).2 server).Exact
    unfold Yunling.restore
    split
    · exact h server
    · next hvalid =>
      have hpos := restorable_positive (Bool.eq_true_of_not_eq_false hvalid)
      dsimp only
      split
      · exact h server
      · split
        all_goals
          dsimp only
          refine Redis.eval_exact h ?_ server
          exact (h lease.serverID).restoreScript hpos _ _ _ _

/-- What a call of `TryReserve` did, told by what it returned. -/
theorem tryReserve_spec {request : LeaseRequest} {leaseID : String} {redis' : Redis}
    {reply : Except LeaseError (Option Lease)}
    (h : tryReserve request leaseID redis = (reply, redis')) :
    (∀ lease, reply = .ok (some lease) → ∀ res, (redis' request.serverID).reserved res
        ≤ request.available.amount res) ∧ (reply = .ok none → (∀ server, server ≠ request.serverID →
        redis' server = redis server) ∧ LeaseState.Swept (unixMilli request.now)
          (redis request.serverID) (redis' request.serverID))
    ∧ (∀ e, reply = .error e → 1000 ≤ request.ttl → redis' = redis) := by
  unfold tryReserve at h
  split at h
  · cases h
    refine ⟨fun _ hr => ?_, fun hr => ?_, fun _ _ _ => rfl⟩
    · cases hr
    · cases hr
  unfold Redis.eval at h
  dsimp only at h
  rcases hs : (redis request.serverID).reserveScript
    (unixMilli request.now) request.runID request.required
    request.available (unixMilli (request.now + request.ttl)) leaseID
    (request.ttl / 1000) with ⟨result, s'⟩
  rw [hs] at h
  cases result with
  | error e =>
    cases h
    refine ⟨fun _ hr => ?_, fun hr => ?_, fun _ _ httl => ?_⟩
    · cases hr
    · cases hr
    · have := LeaseState.reserveScript_error hs
      omega
  | ok reply =>
    cases h
    refine ⟨fun lease hr res => ?_, fun hr => ⟨?_, ?_⟩, fun _ hr => ?_⟩
    · by_cases hone : reply = 1
      · rw [Function.update_self]
        rw [hone] at hs
        exact LeaseState.reserveScript_granted hs res
      · rw [if_pos hone] at hr
        cases hr
    · intro server hne
      exact Function.update_of_ne hne _ _
    · by_cases hone : reply = 1
      · rw [if_neg (not_not.mpr hone)] at hr
        cases hr
      · rw [Function.update_self, LeaseState.reserveScript_refused hone hs]
        exact LeaseState.swept_sweep _ _
    · cases hr

/-- Redis after a sequence of calls. -/
def leaseRun (calls : List LeaseCall) : Redis :=
  Transition.run LeaseCall.apply .empty calls

theorem leaseRun_exact (calls : List LeaseCall) (server : String) : (leaseRun calls server).Exact :=
  Transition.run_invariant (I := fun redis : Redis =>
      ∀ server, (redis server).Exact)
    (fun _ _ h => LeaseCall.exact_apply h)
    (fun _ => LeaseState.exact_empty) calls server

/-- The accounting is exact along every sequence of calls. A granted
request leaves the counters within what was available. A refused one
only removes what has lapsed, on its own server. One that fails does
nothing, unless it asked for less than a millisecond. -/
theorem lease_accounting_exact (calls : List LeaseCall) (server : String) :
    (∀ res, (leaseRun calls server).reserved res = (leaseRun calls server).recorded res)
    ∧ (∀ runID, ((leaseRun calls server).expirations.get? runID).isSome
      = ((leaseRun calls server).amounts.get? runID).isSome)
    ∧ (∀ res, 0 ≤ (leaseRun calls server).reserved res)
    ∧ ∀ (request : LeaseRequest) (leaseID : String)
        (reply : Except LeaseError (Option Lease)) (redis' : Redis),
      tryReserve request leaseID (leaseRun calls) = (reply, redis') →
        (∀ lease, reply = .ok (some lease) → ∀ res, (redis' request.serverID).reserved res
            ≤ request.available.amount res) ∧ (reply = .ok none →
          (∀ server, server ≠ request.serverID → redis' server = leaseRun calls server)
          ∧ LeaseState.Swept (unixMilli request.now)
              (leaseRun calls request.serverID) (redis' request.serverID))
        ∧ (∀ e, reply = .error e → 1000 ≤ request.ttl → redis' = leaseRun calls) := by
  have hexact := leaseRun_exact calls server
  refine ⟨fun res => congrFun hexact.counters res, hexact.sameRuns, hexact.reserved_nonneg, ?_⟩
  intro request leaseID reply redis' h
  exact tryReserve_spec h

/-- A request for half of what a server has. -/
def Sample.request (runID : String) : LeaseRequest where
  runID
  serverID := "server"
  available := ⟨200, 200, 200⟩
  required := ⟨100, 100, 100⟩
  now := 5000
  ttl := 60000

/-- One request is granted, a second one for the same run is refused, a
third one without a run fails. -/
theorem lease_accounting_exact_sample : (∀ res, ((tryReserve (Sample.request "run") "lease"
        (leaseRun [])).2 "server").reserved res ≤ (Sample.request "run").available.amount res)
    ∧ LeaseState.Swept 5 (leaseRun [.tryReserve (Sample.request "run") "lease"] "server")
        ((tryReserve (Sample.request "run") "other"
          (leaseRun [.tryReserve (Sample.request "run") "lease"])).2 "server")
    ∧ (tryReserve (Sample.request "") "lease" (leaseRun [])).2 = leaseRun [] :=
  ⟨((lease_accounting_exact [] "server").2.2.2 (Sample.request "run") "lease" _ _ rfl).1
      ((Sample.request "run").lease "lease") (by decide), (((lease_accounting_exact
      [.tryReserve (Sample.request "run") "lease"] "server").2.2.2
      (Sample.request "run") "other" _ _ rfl).2.1 (by decide)).2,
    ((lease_accounting_exact [] "server").2.2.2 (Sample.request "") "lease" _ _ rfl).2.2
      .invalidRequest (by decide) (by decide)⟩

end Yunling
