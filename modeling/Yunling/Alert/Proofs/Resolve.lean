/-
How many unresolved alerts a key has.

Everything rests on one number, `unresolvedCount`: what each call of the
service does to it.

- `Acknowledge` leaves it: an acknowledged alert is still unresolved.
- `Raise` leaves it where it finds an open alert within the window, and
  adds one where it does not. An acknowledged alert is never merged with,
  and neither is one last seen before the window.
- `Resolve` takes one off, whatever the number was.

So `Resolve` leaves none exactly when there was at most one, and there is
at most one along every history whose raises come with none unresolved or
with an open one within the window (`Spaced`).
-/
import Yunling.Alert.Store

namespace Yunling.Alerting

open Relational Transition

namespace Alerts

variable {t : Alerts} {k : Key} {a : Alert} {tie : String → Nat} {now mergeSince : Int}
  {event : Event}

/-- The unresolved alerts of a key. -/
def unresolvedCount (t : Alerts) (k : Key) : Nat :=
  t.rows.countP (Alert.unresolvedOf k)

theorem unresolvedCount_eq_zero :
    t.unresolvedCount k = 0 ↔ ∀ a ∈ t.rows, a.key = k → a.status = .resolved := by
  unfold unresolvedCount
  rw [List.countP_eq_zero]
  refine forall₂_congr fun a _ => ?_
  unfold Alert.unresolvedOf Alert.unresolved
  cases a.status <;> simp

/-- Changing one row in its status or its count of occurrences: the
number moves when the row stops being unresolved. -/
theorem unresolvedCount_update (t : Alerts) (ha : a ∈ t.rows)
    (f : Alert → Alert) (hid : ∀ a, (f a).id = a.id) (k : Key) :
    unresolvedCount (t.update (fun b => b.id = a.id) f hid) k
        + (if Alert.unresolvedOf k a then 1 else 0) = t.unresolvedCount k
        + (if Alert.unresolvedOf k (f a) then 1 else 0) :=
  t.countP_amend_key ha f (Alert.unresolvedOf k)

-- ======== resolve

theorem resolveTarget_eq_some (h : t.resolveTarget k = some a) :
    a ∈ t.rows ∧ Alert.unresolvedOf k a = true :=
  List.mem_filter.mp (OrderBy.head?_insertionSort h).1

theorem resolveTarget_eq_none (h : t.resolveTarget k = none) : t.unresolvedCount k = 0 := by
  unfold resolveTarget at h
  rw [List.head?_eq_none_iff] at h
  have hperm := List.perm_insertionSort ResolveOrder (t.rows.filter (Alert.unresolvedOf k))
  rw [h] at hperm
  unfold unresolvedCount
  rw [List.countP_eq_length_filter, hperm.symm.eq_nil, List.length_nil]

theorem resolve_eq_ok {t t' : Alerts} (h : t.resolve now k = .ok t') : t' = t.resolveRow k now := by
  unfold resolve at h
  split at h
  · cases h
  · exact (Except.ok.inj h).symm

theorem unresolvedCount_resolveRow_add (t : Alerts) (at' : Int)
    (htarget : t.resolveTarget k = some a) (k' : Key) :
    (t.resolveRow k at').unresolvedCount k' + (if a.unresolvedOf k' then 1 else 0)
      = t.unresolvedCount k' := by
  have hmove := t.unresolvedCount_update (resolveTarget_eq_some htarget).1
    (fun a => { a with status := .resolved, resolvedAt := some at' }) (fun _ => rfl) k'
  have hclosed : Alert.unresolvedOf k'
      { a with status := .resolved, resolvedAt := some at' } = false := by
    simp [Alert.unresolvedOf, Alert.unresolved]
  rw [hclosed] at hmove
  unfold resolveRow
  rw [htarget]
  exact hmove

/-- `Resolve` closes one alert of its key, if there is one. -/
theorem unresolvedCount_resolveRow (t : Alerts) (k : Key) (at' : Int) :
    (t.resolveRow k at').unresolvedCount k = t.unresolvedCount k - 1 := by
  cases htarget : t.resolveTarget k with
  | none =>
    unfold resolveRow
    rw [htarget, resolveTarget_eq_none htarget]
  | some a =>
    have hmove := t.unresolvedCount_resolveRow_add at' htarget k
    rw [if_pos (resolveTarget_eq_some htarget).2] at hmove
    omega

/-- `Resolve` leaves the alerts of other keys. -/
theorem unresolvedCount_resolveRow_of_ne (t : Alerts) {k k' : Key} (hne : k' ≠ k) (at' : Int) :
    (t.resolveRow k at').unresolvedCount k' = t.unresolvedCount k' := by
  cases htarget : t.resolveTarget k with
  | none =>
    unfold resolveRow
    rw [htarget]
  | some a =>
    have hkey := (resolveTarget_eq_some htarget).2
    simp only [Alert.unresolvedOf, Bool.and_eq_true, decide_eq_true_eq] at hkey
    have hmove := t.unresolvedCount_resolveRow_add at' htarget k'
    rwa [if_neg (by simp [Alert.unresolvedOf, hkey.1, Ne.symm hne])] at hmove

-- ======== acknowledge

theorem unresolvedCount_acknowledge {t t' : Alerts} {users : List String}
    {id userID : String} (h : t.acknowledge now users id userID = .ok t') (k : Key) :
    t'.unresolvedCount k = t.unresolvedCount k := by
  unfold acknowledge acknowledgeRow at h
  split at h
  · cases h
  split at h
  case isFalse => cases h
  split at h
  case isFalse => cases h
  cases h
  unfold unresolvedCount
  rw [Table.update_rows, List.countP_map]
  refine List.countP_congr fun a _ => ?_
  unfold Function.comp Table.amend
  split
  · next hopen =>
    simp only [Bool.and_eq_true, decide_eq_true_eq] at hopen
    unfold Alert.unresolvedOf Alert.unresolved
    rw [hopen.2]
    rfl
  · rfl

-- ======== raise

theorem mergeTarget_eq_some (h : t.mergeTarget k mergeSince tie = some a) :
    a ∈ t.rows ∧ Alert.mergeable k mergeSince a = true :=
  List.mem_filter.mp (OrderBy.head?_insertionSort h).1

theorem mergeTarget_eq_none (h : t.mergeTarget k mergeSince tie = none) :
    ∀ a ∈ t.rows, Alert.mergeable k mergeSince a = false := by
  intro a ha
  unfold mergeTarget at h
  rw [List.head?_eq_none_iff] at h
  by_contra hmerge
  have hmem : a ∈ (t.rows.filter (Alert.mergeable k mergeSince)).insertionSort (MergeOrder tie) :=
    (List.mem_insertionSort _).mpr (List.mem_filter.mpr ⟨ha, by simpa using hmerge⟩)
  rw [h] at hmem
  cases hmem

/-- Counting another occurrence changes neither key nor status. -/
theorem unresolvedOf_merged (at' : Int) (k : Key) :
    Alert.unresolvedOf k (a.merged event at') = Alert.unresolvedOf k a :=
  rfl

/-- `Raise` finds an open alert within the window and leaves the number
for every key, or it finds none and adds one for its own. -/
theorem raise_cases {t t' : Alerts} {id : String} (h : t.raise now event tie id = .ok t') :
    ((∃ a ∈ t.rows, Alert.mergeable event.key (now - window) a = true)
        ∧ ∀ k, t'.unresolvedCount k = t.unresolvedCount k) ∨ ((∀ a ∈ t.rows,
            Alert.mergeable event.key (now - window) a = false)
        ∧ ∀ k, t'.unresolvedCount k = t.unresolvedCount k + (if event.key = k then 1 else 0)) := by
  unfold raise at h
  split at h
  case isFalse => cases h
  unfold mergeOrCreate at h
  cases htarget : t.mergeTarget event.key (now - window) tie with
  | some a =>
    rw [htarget] at h
    cases h
    obtain ⟨ha, hmerge⟩ := mergeTarget_eq_some htarget
    refine Or.inl ⟨⟨a, ha, hmerge⟩, fun k => ?_⟩
    have hmove := t.unresolvedCount_update ha (Alert.merged event now) (fun _ => rfl) k
    rw [unresolvedOf_merged] at hmove
    omega
  | none =>
    rw [htarget] at h
    dsimp only at h
    split at h
    case h_2 => cases h
    next t'' hinsert =>
    cases h
    refine Or.inr ⟨mergeTarget_eq_none htarget, fun k => ?_⟩
    unfold unresolvedCount
    rw [(Table.insert?_eq_some hinsert).1, List.countP_append, List.countP_singleton]
    have hcreated : Alert.unresolvedOf k (Alert.created id event now) = decide (event.key = k) :=
      Bool.and_true _
    rw [hcreated]
    by_cases hkey : event.key = k
    · simp [hkey]
    · simp [hkey]

end Alerts

-- ======== histories

/-- A raise of the key comes with none of its alerts unresolved, or with
an open one last seen within the window. -/
def Spaced (k : Key) (t : Alerts) : Call → Prop
  | .raise now event _ _ => event.key = k → t.unresolvedCount k = 0
        ∨ ∃ a ∈ t.rows, Alert.mergeable k (now - window) a = true
  | _ => True

instance Spaced.decidable (k : Key) (t : Alerts) : ∀ call, Decidable (Spaced k t call)
  | .raise now event _ _ => inferInstanceAs (Decidable (event.key = k → t.unresolvedCount k = 0
        ∨ ∃ a ∈ t.rows, Alert.mergeable k (now - window) a = true))
  | .acknowledge .. => isTrue trivial
  | .resolve .. => isTrue trivial

theorem unresolvedCount_step_le {t : Alerts} {k : Key} {call : Call} (hle : t.unresolvedCount k ≤ 1)
    (hspaced : Spaced k t call) : (call.step t).unresolvedCount k ≤ 1 := by
  unfold Call.step
  cases hanswer : call.answer t with
  | error e => exact hle
  | ok t' =>
    cases call with
    | raise now event tie id =>
      rcases Alerts.raise_cases hanswer with
        ⟨-, hsame⟩ | ⟨hnone, hadd⟩
      · rw [hsame]
        exact hle
      rw [hadd]
      by_cases hkey : event.key = k
      · -- nothing to merge with, so nothing is unresolved
        rcases hspaced hkey with hzero | ⟨a, ha, hmerge⟩
        · rw [hzero, if_pos hkey]
        · rw [← hkey, hnone a ha] at hmerge
          cases hmerge
      · rw [if_neg hkey]
        exact hle
    | acknowledge now users id userID =>
      rw [Alerts.unresolvedCount_acknowledge hanswer]
      exact hle
    | resolve now key =>
      obtain rfl := Alerts.resolve_eq_ok hanswer
      by_cases hkey : k = key
      · subst hkey
        rw [Alerts.unresolvedCount_resolveRow]
        omega
      · rw [Alerts.unresolvedCount_resolveRow_of_ne t hkey]
        exact hle

/-- A spaced history never has two unresolved alerts of the key. -/
theorem Spaced.unresolvedCount_le {k : Key} {calls : List Call}
    (h : Guarded Call.step (Spaced k) Table.empty calls) :
    Alerts.unresolvedCount (run Call.step Table.empty calls) k ≤ 1 := Guarded.invariant
    (I := fun t : Alerts => t.unresolvedCount k ≤ 1)
    (fun _ _ hle hspaced => unresolvedCount_step_le hle hspaced) (Nat.zero_le 1) h

/-- After `Resolve` no alert of the key is unresolved exactly when at
most one was, which is so after every spaced history. -/
theorem resolve_leaves_none (calls : List Call) {now : Int} {k : Key} {t : Alerts}
    (h : Alerts.resolve (run Call.step Table.empty calls) now k = .ok t) :
    ((∀ a ∈ t.rows, a.key = k → a.status = .resolved)
        ↔ Alerts.unresolvedCount (run Call.step Table.empty calls) k ≤ 1)
      ∧ (Guarded Call.step (Spaced k) Table.empty calls →
          ∀ a ∈ t.rows, a.key = k → a.status = .resolved) := by
  obtain rfl := Alerts.resolve_eq_ok h
  have hiff : (∀ a ∈ (Alerts.resolveRow (run Call.step Table.empty calls)
        k now).rows, a.key = k → a.status = .resolved)
      ↔ Alerts.unresolvedCount (run Call.step Table.empty calls) k ≤ 1 := by
    rw [← Alerts.unresolvedCount_eq_zero, Alerts.unresolvedCount_resolveRow]
    omega
  exact ⟨hiff, fun hspaced => hiff.mpr (Spaced.unresolvedCount_le hspaced)⟩

/-- A failing disk check. -/
def diskLow : Event where
  resourceType := "server"
  resourceID := "s1"
  code := "disk_low"
  severity := .warning
  title := "disk"
  message := ""

def raiseAt (now : Int) (id : String) : Call :=
  .raise now diskLow (fun _ => 0) id

theorem resolve_leaves_none_merged : ∃ t, Alerts.resolve (run Call.step Table.empty
        [raiseAt 0 "a", raiseAt (4 * minute) "b"]) (5 * minute) diskLow.key = .ok t
      ∧ ∀ a ∈ t.rows, a.key = diskLow.key → a.status = .resolved :=
  ⟨_, rfl, (resolve_leaves_none [raiseAt 0 "a", raiseAt (4 * minute) "b"] rfl).2 (by decide)⟩

/-- Raised again after six minutes, the alert is there twice, and one of
the two stays open. -/
theorem resolve_leaves_one : ¬ ∀ (calls : List Call) (now : Int) (k : Key) (t : Alerts),
      (calls.map Call.now ++ [now]).Pairwise (· ≤ ·) →
      Alerts.resolve (run Call.step Table.empty calls) now k = .ok t →
      ∀ a ∈ t.rows, a.key = k → a.status = .resolved := by
  intro h
  have hall := h [raiseAt 0 "a", raiseAt (6 * minute) "b"] (7 * minute)
    diskLow.key _ (by decide) rfl
  revert hall
  decide

end Yunling.Alerting
