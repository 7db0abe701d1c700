/-
Which backups are requested, and when (`EnsureSchedules` and
`RequestBackup` of `internal/backup/postgres.go`).

Each call asks for the slots around its time: those of yesterday, today
and tomorrow in local time that are no more than six hours past and no
more than a day ahead. A slot asked for before is left as it is.

Instants are in nanoseconds here, the unit of `time.Time`, and local time
is eight hours ahead. A date is the number of its day, which is what
`AddDate` counts and `time.Date` turns back into an instant.

# What is left out

The verification a month asks for, the audit of a manual request, and the
columns of a run that no request reads. The advisory lock lets one
request for a slot or a key run at a time, so a request is one step.
-/
import Yunling.Backup.Store
import Yunling.Lib.Transition

namespace Yunling.Backup

open Relational Transition

-- ======== slots

namespace Slots

/-- `time.Hour`. -/
def hour : Int := 60 * 60 * 1000000000

/-- The number of the local day. -/
def localDay (now : Int) : Int := (now + 8 * hour) / (24 * hour)

/-- `time.Date` of a day's hour, at half past. -/
def date (day hours : Int) : Int := day * (24 * hour) + hours * hour + hour / 2 - 8 * hour

/-- The slots `EnsureSchedules` asks for, in its order. -/
def requested (now : Int) : List Int :=
  ([-1, 0, 1].flatMap fun dayOffset =>
    [0, 6, 12, 18].map (date (localDay now + dayOffset) ·)).filter
      fun slot => ¬ (slot < now - 6 * hour ∨ now + 24 * hour < slot)

/-- A slot is at 00:30, 06:30, 12:30 or 18:30 of local time. -/
def IsSlot (t : Int) : Prop :=
  ∃ hours ∈ [0, 6, 12, 18], (t + 8 * hour) % (24 * hour) = hours * hour + hour / 2

theorem mem_requested {now t : Int} :
    t ∈ requested now ↔ IsSlot t ∧ now - 6 * hour ≤ t ∧ t ≤ now + 24 * hour := by
  unfold requested
  rw [List.mem_filter, decide_eq_true_iff]
  constructor
  · rintro ⟨hmem, hwindow⟩
    obtain ⟨dayOffset, -, hslot⟩ := List.mem_flatMap.mp hmem
    obtain ⟨hours, hhours, rfl⟩ := List.mem_map.mp hslot
    refine ⟨⟨hours, hhours, ?_⟩, by omega, by omega⟩
    simp only [List.mem_cons, List.not_mem_nil, or_false] at hhours
    simp only [date, hour] at *
    omega
  · rintro ⟨⟨hours, hhours, hslot⟩, hstart, hend⟩
    refine ⟨List.mem_flatMap.mpr ⟨localDay t - localDay now, ?_, List.mem_map.mpr
      ⟨hours, hhours, ?_⟩⟩, by omega⟩
    · -- a slot of the window is of yesterday, today or tomorrow
      simp only [List.mem_cons, List.not_mem_nil, or_false]
      simp only [localDay, hour] at *
      omega
    · simp only [date, localDay, hour] at *
      omega

/-- The first call at or after a slot asks for it: the call before was no
more than six hours earlier. -/
theorem requested_between {t : Int} (ht : IsSlot t) {first : Int} {rest : List Int}
    (hgaps : (first :: rest).IsChain fun now next => next ≤ now + 6 * hour) (hfirst : first ≤ t)
    (hlast : t ≤ rest.getLastD first) : ∃ now ∈ first :: rest, t ∈ requested now := by
  induction rest generalizing first with
  | nil =>
    refine ⟨first, List.mem_cons_self, mem_requested.mpr ⟨ht, ?_⟩⟩
    simp only [List.getLastD_nil, hour] at *
    omega
  | cons next rest ih =>
    obtain ⟨hgap, hgaps⟩ := List.isChain_cons_cons.mp hgaps
    by_cases hnext : next ≤ t
    · obtain ⟨now, hmem, hslot⟩ := ih hgaps hnext (List.getLastD_cons .. ▸ hlast)
      exact ⟨now, List.mem_cons_of_mem _ hmem, hslot⟩
    · refine ⟨next, by simp, mem_requested.mpr ⟨ht, ?_⟩⟩
      simp only [hour] at *
      omega

end Slots

-- ======== requests

/-- A row of `backup_runs`, as requests see it. -/
structure Request where
  id : String
  scheduledFor : Option Int
  idempotencyKey : Option String
  deriving DecidableEq

/-- `backup_runs`. -/
abbrev Requests := Table Request String Request.id

/-- `RequestBackup`. The database answers with the id of a new row, or it
fails. -/
def Requests.requestBackup (parses : String → Bool) (t : Requests)
    (actorID idempotencyKey : String) (instant : Int) (answer : Option String) :
    Except StoreError (Requests × Request) :=
  let manual := !blank actorID || !blank idempotencyKey
  if instant = -62135596800 * 1000000000 then .error .invalidRequest
  else if manual && !(parses actorID && parses idempotencyKey) then .error .invalidRequest
  else
    match answer with
    | none => .error .database
    | some id =>
      match t.rows.find? fun r => if manual then r.idempotencyKey = some idempotencyKey
          else r.scheduledFor = some instant with
      | some run => .ok (t, run)
      | none =>
        let run : Request :=
          if manual then ⟨id, none, some idempotencyKey⟩ else ⟨id, some instant, none⟩
        match t.insert? run with
        | some t' => .ok (t', run)
        | none => .error .database

/-- The requests of `EnsureSchedules`, each in its own transaction; the
first that fails ends it. -/
def Requests.ensure (parses : String → Bool) (answers : Int → Option String) :
    List Int → Requests → Requests × Option StoreError
  | [], t => (t, none)
  | slot :: slots, t =>
    match t.requestBackup parses "" "" slot (answers slot) with
    | .error e => (t, some e)
    | .ok (t', _) => ensure parses answers slots t'

/-- The calls that request backups. -/
inductive Requesting where
  | ensureSchedules (now : Int) (answers : Int → Option String)
  | requestBackup (actorID idempotencyKey : String) (instant : Int) (answer : Option String)

/-- The rows after a call, and its error. -/
def Requests.call (parses : String → Bool) (t : Requests) :
    Requesting → Requests × Option StoreError
  | .ensureSchedules now answers => ensure parses answers (Slots.requested now) t
  | .requestBackup actorID idempotencyKey instant answer =>
    match t.requestBackup parses actorID idempotencyKey instant answer with
    | .error e => (t, some e)
    | .ok (t', _) => (t', none)

/-- The rows after a call. -/
def Requests.step (parses : String → Bool) (t : Requests) (c : Requesting) : Requests :=
  (t.call parses c).1

/-- No slot has two runs. -/
def Requests.Unique (t : Requests) : Prop :=
  ∀ slot, t.rows.countP (·.scheduledFor = some slot) ≤ 1

section Unique

variable {parses : String → Bool} {t t' : Requests}

theorem Requests.Unique.requestBackup (hu : t.Unique) {actorID idempotencyKey : String}
    {instant : Int} {answer : Option String} {run : Request}
    (h : t.requestBackup parses actorID idempotencyKey instant answer = .ok (t', run)) :
    t'.Unique ∧ t.rows ⊆ t'.rows ∧ run ∈ t'.rows
      ∧ (blank actorID → blank idempotencyKey → run.scheduledFor = some instant) := by
  simp only [Requests.requestBackup] at h
  split at h
  · cases h
  split at h
  · cases h
  split at h
  · cases h
  split at h
  · next hfound =>
    cases h
    refine ⟨hu, List.Subset.refl _, List.mem_of_find?_eq_some hfound, ?_⟩
    intro hactor hkey
    simpa [hactor, hkey] using List.find?_some hfound
  next hnone =>
  split at h
  · next hinsert =>
    cases h
    obtain ⟨hrows, -⟩ := Table.insert?_eq_some hinsert
    rw [hrows]
    refine ⟨fun slot => ?_, List.subset_append_left _ _,
      List.mem_append_right _ List.mem_cons_self, fun hactor hkey => ?_⟩
    · rw [hrows, List.countP_append, List.countP_singleton]
      split
      · simpa using hu slot
      · next hauto =>
        by_cases hslot : instant = slot
        · -- the lookup was for this slot and found no row
          rw [List.countP_eq_zero.mpr, if_pos (by simpa using hslot)]
          intro r hr
          simpa [hauto, hslot] using List.find?_eq_none.mp hnone r hr
        · simpa [hslot] using hu slot
    · simp [hactor, hkey]
  · cases h

theorem Requests.Unique.ensure {answers : Int → Option String} {slots : List Int} (hu : t.Unique) :
    (t.ensure parses answers slots).1.Unique ∧ t.rows ⊆ (t.ensure parses answers slots).1.rows
      ∧ ((t.ensure parses answers slots).2 = none → ∀ slot ∈ slots,
        ∃ run ∈ (t.ensure parses answers slots).1.rows, run.scheduledFor = some slot) := by
  induction slots generalizing t with
  | nil => exact ⟨hu, List.Subset.refl _, by simp⟩
  | cons slot slots ih =>
    simp only [Requests.ensure]
    split
    · exact ⟨hu, List.Subset.refl _, by simp⟩
    · next run hrequest =>
      obtain ⟨hu, hkept, hrun, hslot⟩ := hu.requestBackup hrequest
      obtain ⟨hu, hkept', hall⟩ := ih hu
      refine ⟨hu, List.Subset.trans hkept hkept', ?_⟩
      intro hnone
      exact List.forall_mem_cons.mpr ⟨⟨run, hkept' hrun, hslot rfl rfl⟩, hall hnone⟩

theorem Requests.Unique.step (hu : t.Unique) (c : Requesting) :
    (t.step parses c).Unique ∧ t.rows ⊆ (t.step parses c).rows := by
  cases c with
  | ensureSchedules now answers => exact ⟨hu.ensure.1, hu.ensure.2.1⟩
  | requestBackup actorID idempotencyKey instant answer =>
    simp only [Requests.step, Requests.call]
    split
    · exact ⟨hu, List.Subset.refl _⟩
    · next hrequest =>
      obtain ⟨hu, hkept, -⟩ := hu.requestBackup hrequest
      exact ⟨hu, hkept⟩

theorem Requests.Unique.runs (hu : t.Unique) (calls : List Requesting) :
    (run (Requests.step parses) t calls).Unique
      ∧ t.rows ⊆ (run (Requests.step parses) t calls).rows := by
  refine run_invariant (I := fun t' : Requests => t'.Unique ∧ t.rows ⊆ t'.rows) ?_
    ⟨hu, List.Subset.refl _⟩ calls
  intro t' c h
  exact ⟨(h.1.step c).1, List.Subset.trans h.2 (h.1.step c).2⟩

end Unique

/-- No slot is missed: a call asks for exactly the slots of its window, so
calls no more than six hours apart ask for every slot between them, and a
slot has one run from its first request on. -/
theorem backup_slots (parses : String → Bool) :
    (∀ now t, t ∈ Slots.requested now
      ↔ Slots.IsSlot t ∧ now - 6 * Slots.hour ≤ t ∧ t ≤ now + 24 * Slots.hour)
    ∧ (∀ first rest, (first :: rest).IsChain (fun now next => next ≤ now + 6 * Slots.hour) →
      ∀ t, Slots.IsSlot t → first ≤ t → t ≤ rest.getLastD first →
        ∃ now ∈ first :: rest, t ∈ Slots.requested now)
    ∧ ∀ calls now answers later,
      (Requests.call parses (run (Requests.step parses) .empty calls)
        (.ensureSchedules now answers)).2 = none →
      ∀ slot ∈ Slots.requested now, (run (Requests.step parses) .empty
        (calls ++ .ensureSchedules now answers :: later)).rows.countP
          (·.scheduledFor = some slot) = 1 := by
  refine ⟨fun now t => Slots.mem_requested, fun first rest hgaps t ht hfirst hlast =>
    Slots.requested_between ht hgaps hfirst hlast, ?_⟩
  intro calls now answers later hdone slot hslot
  have hempty : Requests.Unique .empty := fun slot => by simp
  obtain ⟨hu, -, hall⟩ := (hempty.runs calls).1.ensure
  obtain ⟨r, hr, hfor⟩ := hall hdone slot hslot
  obtain ⟨hu, hkept⟩ := hu.runs later
  rw [run_append, run_cons]
  exact le_antisymm (hu slot) (List.countP_pos_iff.mpr ⟨r, hkept hr, by simpa using hfor⟩)

/-- Five slots, each with a run after two calls. -/
theorem backup_slots_twice :
    let answers := fun slot : Int => some (toString slot)
    (Slots.requested 0).length = 5 ∧ ∀ slot ∈ Slots.requested 0,
      (run (Requests.step fun _ => true) .empty [.ensureSchedules 0 answers,
        .ensureSchedules (6 * Slots.hour) answers]).rows.countP (·.scheduledFor = some slot) = 1 :=
  ⟨by decide +kernel, (backup_slots fun _ => true).2.2 [] 0 _ [.ensureSchedules (6 * Slots.hour) _]
    (by decide +kernel)⟩

end Yunling.Backup
