/-
The alerts of a rule follow its row.

A rule's `active` says whether its alert is up, and a scan calls the
alert service only where `active` differs from `desired_active`. So what
a scan relies on is `Mirrors`: a key has one unresolved alert where the
rule is active and none where it is not. It is kept by everything but one
event: an alert call that took effect and whose mark did not. `Kept` says
that this does not happen to a key.

# Along a scan

`Apply` moves `desired_active` and leaves `active` (`Applying.Sound`),
and answers one transition for each key whose two flags differ. Every
key has its own operations, so the rounds of other keys neither touch a
key's row and alerts nor use up what is ahead for it.
-/
import Yunling.Alert.Proofs.Resolve
import Yunling.Ops.Rules

namespace Yunling.Ops

open Relational Crash Alerting

variable {F : Type} {now : Int} {e : Evaluation F} {values : List (Transition F)}
  {rows : RuleStates F} {k : RuleKey}

theorem RuleKey.alert_injective {key key' : RuleKey} (h : key.alert = key'.alert) : key = key' := by
  cases key
  simp only [RuleKey.alert, Alerting.Key.mk.injEq] at h
  simp [h]

-- ======== evaluations

/-- An evaluation raises the alert of its own key. -/
def Evaluation.Named (e : Evaluation F) : Prop := e.event.key = e.key.alert

theorem named_of_mem_evaluateServer {percent : Percent F} {server : ServerObservation}
    (h : e ∈ evaluateServer percent now server) : e.Named := by
  rcases List.mem_cons.mp h with rfl | h
  · rfl
  split at h
  · obtain ⟨sample, -, h⟩ := List.mem_flatMap.mp h
    unfold evaluateSample resourceSample at h
    split at h
    · cases h
    rcases List.mem_append.mp h with h | h <;>
    · split at h
      · obtain rfl := List.mem_singleton.mp h
        rfl
      · cases h
  · simp only [List.mem_cons, List.not_mem_nil, or_false] at h
    rcases h with rfl | rfl <;> rfl

theorem named_of_mem_evaluateRun {run : RunObservation}
    (h : e ∈ evaluateRun now run) : e.Named := by
  rcases List.mem_cons.mp h with rfl | h
  · rfl
  split at h
  · obtain rfl := List.mem_singleton.mp h
    rfl
  · cases h

theorem named_of_mem_evaluateSnapshot {percent : Percent F} {snapshot : RuleSnapshot}
    (h : e ∈ evaluateSnapshot percent snapshot now) : e.Named := by
  rcases List.mem_append.mp h with h | h
  · obtain ⟨server, -, h⟩ := List.mem_flatMap.mp h
    exact named_of_mem_evaluateServer h
  · obtain ⟨run, -, h⟩ := List.mem_flatMap.mp h
    exact named_of_mem_evaluateRun h

-- ======== deduplication

/-- Transitions of different keys are all the latest of their keys. -/
theorem foldl_deduplicateOne
    (hnodup : (values.map Transition.key).Nodup) (latest : Hash RuleKey (Transition F))
    (order : List RuleKey) (hnew : ∀ t ∈ values, latest.get? t.key = none) :
    (values.foldl deduplicateOne (latest, order)).2 = order ++ values.map Transition.key
      ∧ ∀ k, (values.foldl deduplicateOne (latest, order)).1.get? k
        = (values.find? fun t => t.key = k).or (latest.get? k) := by
  induction values generalizing latest order with
  | nil => simp
  | cons t values ih =>
    rw [List.map_cons, List.nodup_cons] at hnodup
    have hstep : deduplicateOne (latest, order) t = (latest.set t.key t, order ++ [t.key]) := by
      unfold deduplicateOne
      rw [hnew t List.mem_cons_self]
      rfl
    have hlater : ∀ t' ∈ values, (latest.set t.key t).get? t'.key = none := by
      intro t' ht'
      have hne : t'.key ≠ t.key := fun heq =>
        hnodup.1 (List.mem_map.mpr ⟨t', ht', heq⟩)
      rw [Hash.get?_set, if_neg hne]
      exact hnew t' (List.mem_cons_of_mem t ht')
    obtain ⟨horder, hlatest⟩ := ih hnodup.2 _ (order ++ [t.key]) hlater
    rw [List.foldl_cons, hstep]
    refine ⟨by rw [horder]; simp, fun k => ?_⟩
    rw [hlatest, Hash.get?_set]
    by_cases hk : t.key = k
    · have hnone : values.find? (fun t' => t'.key = k) = none := by
        rw [List.find?_eq_none]
        intro t' ht' heq
        have heq' : t'.key = k := by simpa using heq
        exact hnodup.1 (List.mem_map.mpr ⟨t', ht', heq'.trans hk.symm⟩)
      simp [hnone, hk]
    · have hk' : ¬ k = t.key := fun h => hk h.symm
      simp [hk, hk']

theorem deduplicateTransitions_of_nodup
    (hnodup : (values.map Transition.key).Nodup) : deduplicateTransitions values = values := by
  obtain ⟨horder, hlatest⟩ := foldl_deduplicateOne hnodup Table.empty [] fun _ _ => rfl
  unfold deduplicateTransitions
  dsimp only
  rw [horder, List.nil_append, List.filterMap_map]
  have hfind : ∀ t ∈ values, ((values.foldl deduplicateOne
      (Table.empty, [])).1.get? ∘ Transition.key) t = some t := by
    intro t ht
    rw [Function.comp, hlatest]
    have hone : values.find? (fun t' => t'.key = t.key) = some t :=
      (Table.find?_eq_some ⟨values, hnodup⟩).mpr ⟨ht, rfl⟩
    rw [hone]
    rfl
  rw [List.filterMap_congr hfind, List.filterMap_some]

-- ======== apply

/-- `active` of a key; a key without a row is not active. -/
def RuleStates.isActive (rows : RuleStates F) (k : RuleKey) : Bool :=
  ((rows.get? k).map RuleState.active).getD false

theorem RuleStates.isActive_eq
    {st : RuleState F} (h : rows.get? k = some st) : rows.isActive k = st.active := by
  unfold isActive
  rw [h]
  rfl

theorem RuleState.evaluated_active (st : RuleState F) (e : Evaluation F) :
    (st.evaluated e).active = st.active := by
  unfold RuleState.evaluated
  split
  · rfl
  split
  · rfl
  · rfl

namespace Applying

/-- What holds in every round of the loop of `Apply`: the maps have the
keys that came, the state of a key is its row, and `active` is as it
was. -/
structure Sound (rows₀ : RuleStates F) (a : Applying F) : Prop where
  nodup : a.order.Nodup
  came : ∀ k, k ∈ a.order ↔ (a.latestEvaluations.get? k).isSome
  loaded : ∀ k, k ∈ a.order ↔ (a.states.get? k).isSome
  saved : ∀ k st, a.states.get? k = some st → a.rows.get? k = some st
  named : ∀ k e, a.latestEvaluations.get? k = some e → e.key = k ∧ e.Named
  active : ∀ k, a.rows.isActive k = rows₀.isActive k

theorem Sound.start (rows : RuleStates F) : Sound rows ⟨rows, Table.empty, Table.empty, []⟩ where
  nodup := List.nodup_nil
  came _ := by simp [Hash.get?, Table.find?, Table.empty]
  loaded _ := by simp [Hash.get?, Table.find?, Table.empty]
  saved k st h := by simp [Hash.get?, Table.find?, Table.empty] at h
  named k e h := by simp [Hash.get?, Table.find?, Table.empty] at h
  active _ := rfl

end Applying

namespace RuleStates

theorem get?_ensure (rows : RuleStates F) (key k : RuleKey) :
    (rows.ensure key).get? k = if k = key then
      some ((rows.get? key).getD .initial) else rows.get? k := by
  unfold ensure
  cases hrow : rows.get? key with
  | none =>
    rw [if_pos Option.isNone_none, Hash.get?_set]
    rfl
  | some st =>
    rw [if_neg (by simp)]
    by_cases hk : k = key
    · rw [if_pos hk, hk, hrow]
      rfl
    · rw [if_neg hk]

theorem get?_save {rows : RuleStates F} {key : RuleKey} {row : RuleState F}
    (hrow : rows.get? key = some row) (state : RuleState F) (hactive : state.active = row.active)
    (k : RuleKey) : (rows.save key state).get? k = if k = key then some state else rows.get? k := by
  unfold save
  rw [hrow]
  rw [Hash.get?_set, ← hactive]

/-- One round writes the row of its key, and leaves its `active`. -/
theorem applyOne_shape {rows₀ : RuleStates F} {a : Applying F}
    (h : a.Sound rows₀) (e : Evaluation F) : ∃ st : RuleState F, st.active = a.rows.isActive e.key
      ∧ (∀ k, (applyOne a e).rows.get? k = if k = e.key then some st else a.rows.get? k)
      ∧ (applyOne a e).states = a.states.set e.key st
      ∧ (applyOne a e).latestEvaluations = a.latestEvaluations.set e.key e ∧ (applyOne a e).order
          = if e.key ∈ a.order then a.order else a.order ++ [e.key] := by
  -- the row is loaded the first time, and is the state after that
  obtain ⟨rows, state, hrows, hstate, hget, hactive⟩ :
      ∃ rows state, (if (a.states.get? e.key).isNone then
            a.rows.ensure e.key else a.rows) = rows
        ∧ (a.states.get? e.key).getD ((rows.get? e.key).getD .initial) = state
        ∧ (∀ k, rows.get? k = if k = e.key then some state else a.rows.get? k)
        ∧ state.active = a.rows.isActive e.key := by
    cases hst : a.states.get? e.key with
    | none =>
      refine ⟨_, _, rfl, rfl, fun k => ?_, ?_⟩
      · simp [get?_ensure]
      · simp only [Option.isNone_none, if_true, get?_ensure, Option.getD_none, Option.getD_some]
        unfold isActive
        cases a.rows.get? e.key <;> rfl
    | some st =>
      have hsaved := h.saved _ _ hst
      refine ⟨_, _, rfl, rfl, fun k => ?_, ?_⟩
      · by_cases hk : k = e.key
        · simp [hk, hsaved]
        · simp [hk]
      · exact (isActive_eq hsaved).symm
  have hself : rows.get? e.key = some state := by rw [hget, if_pos rfl]
  have horder : (if (a.latestEvaluations.get? e.key).isNone then
      a.order ++ [e.key] else a.order)
        = if e.key ∈ a.order then a.order else a.order ++ [e.key] := by
    have hcame := h.came e.key
    cases hlatest : a.latestEvaluations.get? e.key with
    | none | some => simp [hlatest] at hcame ⊢; simp [hcame]
  unfold applyOne
  dsimp only
  rw [hrows, hstate]
  split
  · exact ⟨state, hactive, hget, rfl, rfl, horder⟩
  have heval := state.evaluated_active e
  refine ⟨state.evaluated e, heval.trans hactive, fun k => ?_, rfl, rfl, horder⟩
  rw [get?_save hself _ heval]
  by_cases hk : k = e.key
  · rw [if_pos hk, if_pos hk]
  · rw [if_neg hk, if_neg hk, hget, if_neg hk]

end RuleStates

namespace Applying

variable {rows₀ : RuleStates F} {a : Applying F} {evaluations : List (Evaluation F)}

theorem Sound.applyOne (h : a.Sound rows₀) {e : Evaluation F} (he : e.Named) :
    (RuleStates.applyOne a e).Sound rows₀ := by
  obtain ⟨st, hactive, hrows, hstates, hlatest, horder⟩ := RuleStates.applyOne_shape h e
  have hmem : ∀ k, k ∈ (RuleStates.applyOne a e).order ↔ k = e.key ∨ k ∈ a.order := by
    intro k
    rw [horder]
    split
    · next hin =>
      exact ⟨Or.inr, fun hk => hk.elim (fun heq => heq ▸ hin) id⟩
    · rw [List.mem_append, List.mem_singleton, or_comm]
  constructor
  case nodup =>
    rw [horder]
    split
    · exact h.nodup
    next hnew =>
    rw [List.nodup_append]
    refine ⟨h.nodup, List.nodup_singleton _, fun k hk k' hk' heq => ?_⟩
    rw [List.mem_singleton.mp hk'] at heq
    exact hnew (heq ▸ hk)
  case came =>
    intro k
    rw [hmem, hlatest, Hash.get?_set]
    by_cases hk : k = e.key
    · simp [hk]
    · simp [hk, h.came]
  case loaded =>
    intro k
    rw [hmem, hstates, Hash.get?_set]
    by_cases hk : k = e.key
    · simp [hk]
    · simp [hk, h.loaded]
  case saved =>
    intro k st' hst'
    rw [hstates, Hash.get?_set] at hst'
    rw [hrows]
    by_cases hk : k = e.key
    · rwa [if_pos hk] at hst' ⊢
    · rw [if_neg hk] at hst' ⊢
      exact h.saved k st' hst'
  case named =>
    intro k e' he'
    rw [hlatest, Hash.get?_set] at he'
    by_cases hk : k = e.key
    · rw [if_pos hk] at he'
      cases he'
      exact ⟨hk.symm, he⟩
    · rw [if_neg hk] at he'
      exact h.named k e' he'
  case active =>
    intro k
    rw [← h.active k]
    by_cases hk : k = e.key
    · rw [RuleStates.isActive_eq (by rw [hrows, if_pos hk]), hactive, hk]
    · unfold RuleStates.isActive
      rw [hrows, if_neg hk]

variable (h : a.Sound rows₀) (hnamed : ∀ e ∈ evaluations, e.Named)

include h hnamed

theorem Sound.foldl : (evaluations.foldl RuleStates.applyOne a).Sound rows₀ := by
  induction evaluations generalizing a with
  | nil => exact h
  | cons e evaluations ih =>
    exact ih (h.applyOne (hnamed e List.mem_cons_self))
      fun e' he' => hnamed e' (List.mem_cons_of_mem e he')

theorem Sound.mem_order {k : RuleKey} (hk : k ∈ a.order ∨ ∃ e ∈ evaluations, e.key = k) :
    k ∈ (evaluations.foldl RuleStates.applyOne a).order := by
  induction evaluations generalizing a with
  | nil => simpa using hk
  | cons e evaluations ih =>
    refine ih (h.applyOne (hnamed e List.mem_cons_self))
      (fun e' he' => hnamed e' (List.mem_cons_of_mem e he')) ?_
    obtain ⟨-, -, -, -, -, horder⟩ := RuleStates.applyOne_shape h e
    have hmem : k = e.key ∨ k ∈ a.order → k ∈ (RuleStates.applyOne a e).order := by
      rw [horder]
      split
      · next hin => exact fun hk => hk.elim (fun heq => heq ▸ hin) id
      · rw [List.mem_append, List.mem_singleton]
        exact Or.symm
    rcases hk with hk | ⟨e', he', rfl⟩
    · exact Or.inl (hmem (Or.inr hk))
    · rcases List.mem_cons.mp he' with rfl | he'
      · exact Or.inl (hmem (Or.inl rfl))
      · exact Or.inr ⟨e', he', rfl⟩

end Applying

/-- A transition is due: its row asks for it, and its event is of its
key. -/
structure Due (rows : RuleStates F) (t : Transition F) : Prop where
  named : t.evaluation.Named
  row : ∃ st, rows.get? t.key = some st
    ∧ st.desiredActive = t.desiredActive ∧ st.active = !t.desiredActive

/-- What `Apply` answers: for every key that was evaluated the transition
that is due, if one is; `active` stays. -/
structure Applied (rows rows' : RuleStates F) (evaluations : List (Evaluation F))
    (transitions : List (Transition F)) : Prop where
  nodup : (transitions.map Transition.key).Nodup
  due : ∀ t ∈ transitions, Due rows' t
  active : ∀ k, rows'.isActive k = rows.isActive k
  evaluated : ∀ e ∈ evaluations, ∃ st, rows'.get? e.key = some st
    ∧ (st.active = st.desiredActive ∨ ∃ t ∈ transitions, t.key = e.key)

namespace RuleStates

theorem transitionOf_eq_some {rows₀ : RuleStates F} {a : Applying F}
    (h : a.Sound rows₀) {k : RuleKey} {t : Transition F}
    (ht : transitionOf a k = some t) : t.key = k ∧ Due a.rows t := by
  unfold transitionOf at ht
  split at ht
  case h_2 => cases ht
  next st e hst he =>
  split at ht
  case isFalse => cases ht
  next hne =>
  cases ht
  obtain ⟨hkey, hnamed⟩ := h.named k e he
  refine ⟨hkey, hnamed, st, ?_, rfl, Bool.eq_not_of_ne (Ne.symm hne)⟩
  show a.rows.get? e.key = some st
  rw [hkey]
  exact h.saved k st hst

theorem applied_apply (rows : RuleStates F) {evaluations : List (Evaluation F)}
    (hnamed : ∀ e ∈ evaluations, e.Named) :
    Applied rows (rows.apply evaluations).1 evaluations (rows.apply evaluations).2 := by
  have hsound := (Applying.Sound.start rows).foldl hnamed
  constructor
  case nodup =>
    -- the keys of the transitions are some of the keys that came
    unfold apply
    rw [List.map_filterMap]
    refine hsound.nodup.filterMap fun k k' key hk hk' => ?_
    obtain ⟨t, ht, rfl⟩ := Option.map_eq_some_iff.mp hk
    obtain ⟨t', ht', hkey⟩ := Option.map_eq_some_iff.mp hk'
    rw [← (transitionOf_eq_some hsound ht).1, ← (transitionOf_eq_some hsound ht').1, hkey]
  case due =>
    intro t ht
    obtain ⟨k, -, hk⟩ := List.mem_filterMap.mp ht
    exact (transitionOf_eq_some hsound hk).2
  case active => exact hsound.active
  case evaluated =>
    intro e he
    have hcame := (Applying.Sound.start rows).mem_order hnamed (Or.inr ⟨e, he, rfl⟩)
    obtain ⟨st, hst⟩ := Option.isSome_iff_exists.mp ((hsound.loaded e.key).mp hcame)
    obtain ⟨e', he'⟩ := Option.isSome_iff_exists.mp ((hsound.came e.key).mp hcame)
    refine ⟨st, hsound.saved _ _ hst, ?_⟩
    by_cases hflags : st.active = st.desiredActive
    · exact Or.inl hflags
    refine Or.inr ⟨⟨e', st.desiredActive⟩, List.mem_filterMap.mpr ⟨e.key, hcame, ?_⟩,
      (hsound.named _ _ he').1⟩
    unfold transitionOf
    rw [hst, he']
    exact if_pos (Ne.symm hflags)

end RuleStates

-- ======== rounds

/-- The key has its one unresolved alert where its rule is active, and
none where it is not. -/
def Mirrors (k : RuleKey) (s : Store F) : Prop :=
  s.alerts.unresolvedCount k.alert = if s.rules.isActive k then 1 else 0

/-- No alert call of the key takes effect without its mark. -/
def Kept (k : RuleKey) (ahead : Ahead ScanOp) : Prop :=
  ahead (.alert k) 0 ≠ some (.failed true) ∧ (ahead (.alert k) 0 = some .done →
      ahead (.mark k) 0 = some .done ∨ ahead (.mark k) 0 = some (.failed true))

/-- What a scan says and needs of one key is as it was. -/
structure Untouched (k : RuleKey) (s s' : Store F) : Prop where
  row : s'.rules.get? k = s.rules.get? k
  count : s'.alerts.unresolvedCount k.alert = s.alerts.unresolvedCount k.alert

theorem Untouched.refl (k : RuleKey) (s : Store F) : Untouched k s s := ⟨rfl, rfl⟩

theorem Untouched.trans {s s' s'' : Store F}
    (h : Untouched k s s') (h' : Untouched k s' s'') : Untouched k s s'' :=
  ⟨h'.row.trans h.row, h'.count.trans h.count⟩

theorem Untouched.mirrors {s s' : Store F}
    (h : Untouched k s s') (hs : Mirrors k s) : Mirrors k s' := by
  unfold Mirrors RuleStates.isActive
  rw [h.row, h.count]
  exact hs

theorem RuleStates.get?_markApplied {key : RuleKey}
    {row : RuleState F} (hrow : rows.get? key = some row) (k : RuleKey) :
    (rows.markApplied key row.desiredActive).get? k
      = if k = key then some { row with active := row.desiredActive }
        else rows.get? k := by
  unfold markApplied
  rw [hrow]
  dsimp only
  rw [if_pos rfl, Hash.get?_set]

section Rounds

variable {input : ScanInput} {t : Transition F} {k : RuleKey} {s : Store F} {ahead : Ahead ScanOp}
  {ts : List (Transition F)} {alerts alerts' : Alerts}

section Named

variable (h : transitionCall input t alerts = .ok alerts') (hnamed : t.evaluation.Named)

include h hnamed

/-- The alert call of a transition leaves the alerts of other keys. -/
theorem transitionCall_of_ne (hk : k ≠ t.key) :
    alerts'.unresolvedCount k.alert = alerts.unresolvedCount k.alert := by
  have hne : k.alert ≠ t.key.alert := fun heq =>
    hk (RuleKey.alert_injective heq)
  unfold transitionCall at h
  split at h
  · rcases Alerts.raise_cases h with ⟨-, hsame⟩ | ⟨-, hadd⟩
    · exact hsame k.alert
    · have hother : t.evaluation.event.key ≠ k.alert := fun heq =>
        hne (heq.symm.trans hnamed)
      rw [hadd, if_neg hother]
      rfl
  · rw [Alerts.resolve_eq_ok h]
    exact Alerts.unresolvedCount_resolveRow_of_ne alerts hne _

/-- The alert call of a transition that is due. -/
theorem transitionCall_self
    (hbefore : alerts.unresolvedCount t.key.alert = if !t.desiredActive then 1 else 0) :
    alerts'.unresolvedCount t.key.alert = if t.desiredActive then 1 else 0 := by
  unfold transitionCall at h
  split at h
  · next hraise =>
    have hzero : alerts.unresolvedCount t.key.alert = 0 := by
      rw [hbefore, hraise]
      rfl
    rcases Alerts.raise_cases h with ⟨⟨a, ha, hmerge⟩, -⟩ | ⟨-, hadd⟩
    · -- there is nothing open to merge with
      have hkey : t.evaluation.event.key = t.key.alert := hnamed
      rw [hkey] at hmerge
      unfold Alert.mergeable at hmerge
      simp only [Bool.and_eq_true, decide_eq_true_eq] at hmerge
      have hresolved := Alerts.unresolvedCount_eq_zero.mp hzero a ha hmerge.1.1
      rw [hmerge.1.2] at hresolved
      cases hresolved
    · have hkey : t.evaluation.event.key = t.key.alert := hnamed
      rw [hadd, hzero, if_pos hkey, hraise]
      rfl
  · next hresolve =>
    rw [Alerts.resolve_eq_ok h, Alerts.unresolvedCount_resolveRow, hbefore]
    simp [hresolve]

end Named

/-- The rounds a transition can have: its call refused, its call done
without the mark or with it, and cut off in between. -/
theorem goes_settle {C : Store F → Prop}
    {P : Ahead ScanOp → Store F → Except ScanError (List ScanError) → Prop}
    (hcut : ahead (.alert t.key) 0 = none → C s)
    (hrefused : ∀ e, P (ahead.skip (.alert t.key) 1) s (.ok [e]))
    (hlost : ahead (.alert t.key) 0 = some (.failed true) →
      ∀ alerts, transitionCall input t s.alerts = .ok alerts →
      ∀ e, P (ahead.skip (.alert t.key) 1) ⟨s.rules, alerts⟩ (.ok [e]))
    (hcutMark : ahead (.alert t.key) 0 = some .done → ahead (.mark t.key) 0 = none →
      ∀ alerts, transitionCall input t s.alerts = .ok alerts → C ⟨s.rules, alerts⟩)
    (hunmarked : ahead (.alert t.key) 0 = some .done →
      ahead (.mark t.key) 0 = some (.failed false) →
      ∀ alerts, transitionCall input t s.alerts = .ok alerts →
      ∀ e, P ((ahead.skip (.alert t.key) 1).skip (.mark t.key) 1) ⟨s.rules, alerts⟩ (.ok [e]))
    (hmarked : ∀ alerts, transitionCall input t s.alerts = .ok alerts →
      ∀ failures, P ((ahead.skip (.alert t.key) 1).skip (.mark t.key) 1)
        ⟨s.rules.markApplied t.key t.desiredActive, alerts⟩ (.ok failures)) :
    goes (settle input t) C P ahead s := by
  have hmark : (ahead.skip (.alert t.key) 1) (.mark t.key) 0
      = ahead (.mark t.key) 0 := Ahead.skip_of_ne (by simp) 1 0
  refine goes_bind (goes_attempt (goes_op hcut ?_ ?_))
  · intro hdone
    cases hcall : transitionCall input t s.alerts with
    | error e => exact goes_pure (hrefused (.alert e))
    | ok alerts =>
      refine goes_bind (goes_attempt (goes_op ?_ ?_ ?_))
      · intro hnone
        exact hcutMark hdone (hmark.symm.trans hnone) alerts hcall
      · intro _
        exact goes_pure (hmarked alerts hcall [])
      · intro took hfailed
        cases took with
        | true => exact goes_pure (hmarked alerts hcall [.mark])
        | false =>
          exact goes_pure (hunmarked hdone hfailed alerts hcall .mark)
  · intro took hfailed
    cases took with
    | false => exact goes_pure (hrefused (.alert .database))
    | true =>
      cases hcall : transitionCall input t s.alerts with
      | error e => exact goes_pure (hrefused (.alert .database))
      | ok alerts =>
        exact goes_pure (hlost hfailed alerts hcall (.alert .database))

/-- A round leaves the other keys, and what is ahead for them. -/
theorem goes_settle_others (hdue : Due s.rules t) :
    goes (settle input t) (fun s' => ∀ k, k ≠ t.key → Untouched k s s')
      (fun ahead' s' _ => ∀ k, k ≠ t.key → Untouched k s s' ∧ ahead' (.alert k) = ahead (.alert k)
        ∧ ahead' (.mark k) = ahead (.mark k)) ahead s := by
  have hcalled : ∀ alerts, transitionCall input t s.alerts = .ok alerts →
      ∀ k, k ≠ t.key → Untouched k s ⟨s.rules, alerts⟩ :=
    fun alerts hcall k hk =>
      ⟨rfl, transitionCall_of_ne hcall hdue.named hk⟩
  have hskip : ∀ k, k ≠ t.key → (ahead.skip (.alert t.key) 1) (.alert k) = ahead (.alert k)
        ∧ (ahead.skip (.alert t.key) 1) (.mark k) = ahead (.mark k) :=
    fun k hk => ⟨funext (Ahead.skip_of_ne (by simpa using hk) 1),
      funext (Ahead.skip_of_ne (by simp) 1)⟩
  have hskip' : ∀ k, k ≠ t.key → ((ahead.skip (.alert t.key) 1).skip (.mark t.key) 1) (.alert k)
          = ahead (.alert k) ∧ ((ahead.skip (.alert t.key) 1).skip (.mark t.key) 1) (.mark k)
          = ahead (.mark k) :=
    fun k hk => ⟨(funext (Ahead.skip_of_ne (by simp) 1)).trans (hskip k hk).1,
      (funext (Ahead.skip_of_ne (by simpa using hk) 1)).trans (hskip k hk).2⟩
  refine goes_settle (fun _ k _ => Untouched.refl k s)
    (fun e k hk => ⟨Untouched.refl k s, hskip k hk⟩)
    (fun _ alerts hcall e k hk => ⟨hcalled alerts hcall k hk, hskip k hk⟩)
    (fun _ _ alerts hcall k hk => hcalled alerts hcall k hk) (fun _ _ alerts hcall e k hk =>
      ⟨hcalled alerts hcall k hk, hskip' k hk⟩)
    fun alerts hcall failures k hk =>
      ⟨⟨?_, (hcalled alerts hcall k hk).count⟩, hskip' k hk⟩
  obtain ⟨row, hrow, hdesired, -⟩ := hdue.row
  rw [← hdesired]
  exact (RuleStates.get?_markApplied hrow k).trans (if_neg hk)

theorem goes_settle_self
    (hdue : Due s.rules t) (hmirrors : Mirrors t.key s) (hkept : Kept t.key ahead) :
    goes (settle input t) (Mirrors t.key) (fun _ s' result => Mirrors t.key s' ∧ (result = .ok [] →
        ∃ st, s'.rules.get? t.key = some st ∧ st.active = st.desiredActive)) ahead s := by
  obtain ⟨row, hrow, hdesired, hactive⟩ := hdue.row
  have hbefore : s.alerts.unresolvedCount t.key.alert = if !t.desiredActive then 1 else 0 := by
    rw [← hactive, ← RuleStates.isActive_eq hrow]
    exact hmirrors
  refine goes_settle (fun _ => hmirrors) (fun e => ⟨hmirrors, fun h => by cases h⟩)
    (fun hlost => absurd hlost hkept.1) (fun hdone hnone => ?_) (fun hdone hfailed => ?_)
    fun alerts hcall failures => ?_
  · rcases hkept.2 hdone with h | h <;>
    · rw [hnone] at h
      cases h
  · rcases hkept.2 hdone with h | h <;>
    · rw [hfailed] at h
      cases h
  · have hmarked : (s.rules.markApplied t.key t.desiredActive).get? t.key
        = some { row with active := row.desiredActive } := by
      rw [← hdesired, RuleStates.get?_markApplied hrow, if_pos rfl]
    refine ⟨?_, fun _ => ⟨_, hmarked, rfl⟩⟩
    unfold Mirrors
    rw [RuleStates.isActive_eq hmarked, hdesired]
    exact transitionCall_self hcall hdue.named hbefore

theorem Due.untouched {s s' : Store F} (h : Due s.rules t)
    (hsame : Untouched t.key s s') : Due s'.rules t where
  named := h.named
  row := by
    rw [hsame.row]
    exact h.row

/-- The transitions still to come are due as before. -/
theorem due_rest {s s' : Store F} (hnew : t.key ∉ ts.map Transition.key)
    (hdue : ∀ t' ∈ t :: ts, Due s.rules t') (hsame : ∀ k, k ≠ t.key → Untouched k s s') :
    ∀ t' ∈ ts, Due s'.rules t' := by
  intro t' ht'
  have hne : t'.key ≠ t.key := fun heq =>
    hnew (List.mem_map.mpr ⟨t', ht', heq⟩)
  exact (hdue t' (List.mem_cons_of_mem t ht')).untouched (hsame t'.key hne)

variable (hnodup : (ts.map Transition.key).Nodup) (hdue : ∀ t ∈ ts, Due s.rules t)

include hnodup hdue

theorem goes_settleAll_others (hk : k ∉ ts.map Transition.key) :
    goes (settleAll input ts) (Untouched k s) (fun _ s' _ => Untouched k s s') ahead s := by
  induction ts generalizing s ahead with
  | nil => exact goes_pure (Untouched.refl k s)
  | cons t ts ih =>
    rw [List.map_cons, List.nodup_cons] at hnodup
    rw [List.map_cons, List.mem_cons, not_or] at hk
    refine goes_bind ((goes_settle_others
      (hdue t List.mem_cons_self)).mono (fun s' hs' => hs' k hk.1) ?_)
    intro ahead' s' result hs'
    have hsame : ∀ k, k ≠ t.key → Untouched k s s' :=
      fun k hk => (hs' k hk).1
    cases result with
    | error e => exact hsame k hk.1
    | ok failures =>
      refine goes_bind ((ih hnodup.2 (due_rest hnodup.1 hdue hsame)
        hk.2).mono (fun s'' hs'' => (hsame k hk.1).trans hs'') ?_)
      intro ahead'' s'' result hs''
      cases result with
      | error e => exact (hsame k hk.1).trans hs''
      | ok later => exact goes_pure ((hsame k hk.1).trans hs'')

/-- All rounds: a key whose transition is among them is as it should be
when nothing fails. -/
theorem goes_settleAll (hmirrors : Mirrors k s) (hkept : Kept k ahead)
    (hk : k ∈ ts.map Transition.key) : goes (settleAll input ts) (Mirrors k)
      (fun _ s' result => Mirrors k s' ∧ (result = .ok [] → ∃ st, s'.rules.get? k = some st
          ∧ st.active = st.desiredActive)) ahead s := by
  induction ts generalizing s ahead with
  | nil => cases hk
  | cons t ts ih =>
    rw [List.map_cons, List.nodup_cons] at hnodup
    have hothers : goes (settle input t) _ _ ahead s :=
      goes_settle_others (hdue t List.mem_cons_self)
    by_cases heq : k = t.key
    · -- this round is the key's own, the others leave it
      subst heq
      refine goes_bind (((goes_settle_self (hdue t List.mem_cons_self)
        hmirrors hkept).and hothers).mono (fun s' hs' => hs'.1) ?_)
      rintro ahead' s' result ⟨⟨hmirrors', hsettled⟩, hs'⟩
      cases result with
      | error e => exact ⟨hmirrors', fun h => by cases h⟩
      | ok failures =>
        have hsame : ∀ k, k ≠ t.key → Untouched k s s' :=
          fun k hk => (hs' k hk).1
        refine goes_bind ((goes_settleAll_others hnodup.2
          (due_rest hnodup.1 hdue hsame) hnodup.1).mono (fun s'' hs'' => hs''.mirrors hmirrors') ?_)
        intro ahead'' s'' result hs''
        cases result with
        | error e =>
          exact ⟨hs''.mirrors hmirrors', fun h => by cases h⟩
        | ok later =>
          refine goes_pure ⟨hs''.mirrors hmirrors', fun hnone => ?_⟩
          have hfailures : failures = [] := by
            simp only [Except.ok.injEq, List.append_eq_nil_iff] at hnone
            exact hnone.1
          rw [hs''.row]
          exact hsettled (by rw [hfailures])
    · have hk' : k ∈ ts.map Transition.key := by
        rw [List.map_cons, List.mem_cons] at hk
        exact hk.resolve_left heq
      refine goes_bind (hothers.mono (fun s' hs' => (hs' k heq).mirrors hmirrors) ?_)
      intro ahead' s' result hs'
      have hmirrors' := (hs' k heq).1.mirrors hmirrors
      cases result with
      | error e => exact ⟨hmirrors', fun h => by cases h⟩
      | ok failures =>
        have hkept' : Kept k ahead' := by
          unfold Kept
          rw [(hs' k heq).2.1, (hs' k heq).2.2]
          exact hkept
        refine goes_bind ((ih hnodup.2 (due_rest hnodup.1 hdue fun k hk => (hs' k hk).1)
          hmirrors' hkept' hk').mono (fun _ h => h) ?_)
        rintro ahead'' s'' result ⟨hmirrors'', hsettled⟩
        cases result with
        | error e => exact ⟨hmirrors'', fun h => by cases h⟩
        | ok later =>
          refine goes_pure ⟨hmirrors'', fun hnone => hsettled ?_⟩
          simp only [Except.ok.injEq, List.append_eq_nil_iff] at hnone
          rw [hnone.2]

end Rounds

-- ======== scans

section Scans

variable {percent : Percent F} {input : ScanInput} {k : RuleKey} {ahead : Ahead ScanOp}
  {s : Store F}

theorem Kept.skip (h : Kept k ahead) (op : ScanOp)
    (halert : ScanOp.alert k ≠ op) (hmark : ScanOp.mark k ≠ op) : Kept k (ahead.skip op 1) := by
  unfold Kept
  rw [Ahead.skip_of_ne halert, Ahead.skip_of_ne hmark]
  exact h

/-- The rounds of a scan, for a key that was evaluated or not. -/
theorem goes_settleAll_applied {rows : RuleStates F} {evaluations : List (Evaluation F)}
    {ts : List (Transition F)} (happlied : Applied rows s.rules evaluations ts)
    (hmirrors : Mirrors k s) (hkept : Kept k ahead) : goes (settleAll input ts) (Mirrors k)
      (fun _ s' result => Mirrors k s' ∧ (result = .ok [] → (∃ e ∈ evaluations, e.key = k) →
        ∃ st, s'.rules.get? k = some st ∧ st.active = st.desiredActive)) ahead s := by
  by_cases hk : k ∈ ts.map Transition.key
  · exact (goes_settleAll happlied.nodup happlied.due hmirrors hkept
      hk).mono (fun _ h => h) fun _ _ _ h => ⟨h.1, fun hok _ => h.2 hok⟩
  refine (goes_settleAll_others happlied.nodup happlied.due hk).mono
    (fun _ h => h.mirrors hmirrors) fun _ s' _ h =>
      ⟨h.mirrors hmirrors, fun _ ⟨e, he, hkey⟩ => ?_⟩
  -- without a transition the two flags agree already
  obtain ⟨st, hst, hflags⟩ := happlied.evaluated e he
  rw [hkey] at hst hflags
  rw [h.row]
  refine ⟨st, hst, hflags.resolve_right fun ⟨t, ht, htk⟩ => ?_⟩
  exact hk (List.mem_map.mpr ⟨t, ht, htk⟩)

/-- A scan keeps `Mirrors`, and one in which nothing fails leaves the
keys it evaluated as they should be. -/
theorem goes_scan
    (hmirrors : Mirrors k s) (hkept : Kept k ahead) : goes (scan percent input) (Mirrors k)
      (fun _ s' result => Mirrors k s' ∧ (result = .ok () →
        (∃ e ∈ evaluateSnapshot percent input.snapshot input.now, e.key = k) →
        ∃ st, s'.rules.get? k = some st ∧ st.active = st.desiredActive)) ahead s := by
  have happlied := s.rules.applied_apply fun e
    (he : e ∈ evaluateSnapshot percent input.snapshot input.now) =>
      named_of_mem_evaluateSnapshot he
  have hmirrors' : Mirrors k ⟨(s.rules.apply (evaluateSnapshot percent
      input.snapshot input.now)).1, s.alerts⟩ := by
    unfold Mirrors
    rw [happlied.active]
    exact hmirrors
  refine goes_bind (goes_op (fun _ => hmirrors) (fun _ => ?_) fun took _ => ?_)
  · refine goes_bind (goes_op (fun _ => hmirrors) (fun _ => ?_) fun took _ => ?_)
    · dsimp only
      rw [deduplicateTransitions_of_nodup happlied.nodup]
      have hkept' := (hkept.skip .snapshot (by simp) (by simp)).skip .apply (by simp) (by simp)
      refine goes_bind ((goes_settleAll_applied happlied hmirrors' hkept').mono (fun _ h => h) ?_)
      rintro ahead' s' result ⟨hs', hsettled⟩
      cases result with
      | error e => exact ⟨hs', fun h => by cases h⟩
      | ok failures =>
        dsimp only
        split
        · next hnone =>
          rw [List.isEmpty_iff] at hnone
          exact goes_pure ⟨hs', fun _ => hsettled (by rw [hnone])⟩
        · exact goes_fail ⟨hs', fun h => by cases h⟩
    · cases took with
      | false => exact ⟨hmirrors, fun h => by cases h⟩
      | true => exact ⟨hmirrors', fun h => by cases h⟩
  · cases took <;> exact ⟨hmirrors, fun h => by cases h⟩

-- ======== histories

/-- Other parts of the platform neither raise nor resolve alerts of the
key; they may acknowledge them. -/
def Foreign (k : RuleKey) : Alerting.Call → Prop
  | .raise _ event _ _ => event.key ≠ k.alert
  | .acknowledge .. => True
  | .resolve _ key => key ≠ k.alert

/-- An operation of a history: no alert call of the key takes effect
without its mark, and only scans raise and resolve its alerts. -/
def Orderly (k : RuleKey) (_ : Store F) : Op → Prop
  | .scan _ ahead => Kept k ahead
  | .alert call => Foreign k call

theorem Foreign.unresolvedCount {call : Alerting.Call} (h : Foreign k call) (t : Alerts) :
    (call.step t).unresolvedCount k.alert = t.unresolvedCount k.alert := by
  unfold Call.step
  cases hanswer : call.answer t with
  | error e => rfl
  | ok t' =>
    cases call with
    | raise now event tie id =>
      rcases Alerts.raise_cases hanswer with ⟨-, hsame⟩ | ⟨-, hadd⟩
      · exact hsame _
      · have hne : event.key ≠ k.alert := h
        rw [hadd, if_neg hne]
        rfl
    | acknowledge now users id userID =>
      exact Alerts.unresolvedCount_acknowledge hanswer _
    | resolve now key =>
      obtain rfl := Alerts.resolve_eq_ok hanswer
      exact Alerts.unresolvedCount_resolveRow_of_ne t (Ne.symm h) _

theorem Mirrors.step {op : Op} (hs : Mirrors k s)
    (hop : Orderly k s op) : Mirrors k (s.step percent op) := by
  cases op with
  | scan input ahead =>
    exact ((goes_scan hs hop).mono (fun _ h => h) fun _ _ _ h => h.1).leaves
  | alert call =>
    unfold Mirrors Store.step
    rw [Foreign.unresolvedCount hop]
    exact hs

theorem Kept.calm : Kept k calm := ⟨fun h => (by cases h), fun _ => Or.inl rfl⟩

/-- After an orderly history, a scan in which every call succeeds leaves
each key it evaluated with one unresolved alert where the rule asks for
one, and with none where it does not. -/
theorem rule_alerts_mirror (percent : Percent F) (input : ScanInput)
    (k : RuleKey) (alerts : Alerts) (ops : List Op) (hnone : alerts.unresolvedCount k.alert = 0)
    (hops : Transition.Guarded (Store.step percent) (Orderly k) ⟨Table.empty, alerts⟩ ops)
    {ahead' : Ahead ScanOp} {s' : Store F} (hscan : scan percent input calm
      (Transition.run (Store.step percent) ⟨Table.empty, alerts⟩ ops) = .ended ahead' s' (.ok ()))
    (heval : ∃ e ∈ evaluateSnapshot percent input.snapshot input.now, e.key = k) :
    ∃ st, s'.rules.get? k = some st ∧ s'.alerts.unresolvedCount k.alert
        = if st.desiredActive then 1 else 0 := by
  have hbefore : Mirrors k (Transition.run (Store.step percent) ⟨Table.empty, alerts⟩ ops) :=
    hops.invariant (fun _ _ hs hop => hs.step hop) hnone
  obtain ⟨hmirrors, hsettled⟩ := (goes_scan hbefore Kept.calm).ended hscan
  obtain ⟨st, hst, hflags⟩ := hsettled rfl heval
  refine ⟨st, hst, ?_⟩
  rw [← hflags, ← RuleStates.isActive_eq hst]
  exact hmirrors

end Scans

-- ======== samples

namespace Sample

/-- A server that was last seen at an instant, or never. -/
def server (seen : Option Int) : ServerObservation where
  id := "s1"
  name := "s1"
  enabled := true
  lastSeenAt := seen
  samples := []

/-- A scan of one server. -/
def input (now : Int) (seen : Option Int) : ScanInput where
  now
  snapshot := ⟨[server seen], []⟩
  alertAt := fun _ => now
  alertTie := fun _ _ => 0
  alertID := fun _ => "a1"

def key : RuleKey := ⟨"agent_offline", "server", "s1"⟩

def percent : Percent Unit where
  of _ _ := ()
  below _ _ := false
  above _ _ := false

/-- Everything is done but the marks. -/
def unmarked : Ahead ScanOp
  | .mark _, _ => none
  | _, _ => some .done

/-- The alert calls of the key have one fate, and everything else is
done. -/
def alerting (fate : Option Fate) : Ahead ScanOp
  | .alert _, _ => fate
  | _, _ => some .done

/-- The server is offline: a scan fails to raise its alert, the next one
raises it, and it is acknowledged. When the server is back, a scan is cut
off before it resolves the alert. -/
def history : List Op :=
  [.scan (input minute none) (alerting (some (.failed false))),
    .scan (input (2 * minute) none) calm,
    .alert (.acknowledge (3 * minute) ["u"] "a1" "u"),
    .scan (input (4 * minute) (some (4 * minute))) (alerting none)]

end Sample

/-- After such a history the next scan resolves the alert. -/
theorem rule_alerts_mirror_offline :
    let s := Transition.run (Store.step Sample.percent) ⟨Table.empty, Table.empty⟩ Sample.history
    s.alerts.unresolvedCount Sample.key.alert = 1
      ∧ ∃ ahead' s' st, scan Sample.percent (Sample.input (5 * minute) (some (5 * minute))) calm s
          = .ended ahead' s' (.ok ()) ∧ s'.rules.get? Sample.key = some st
        ∧ s'.alerts.unresolvedCount Sample.key.alert = if st.desiredActive then 1 else 0 := by
  intro s
  have hhistory : Transition.Guarded (Store.step Sample.percent) (Orderly Sample.key)
      ⟨Table.empty, Table.empty⟩ Sample.history :=
    ⟨⟨fun h => (by cases h), fun h => (by cases h)⟩, Kept.calm, trivial,
      ⟨fun h => (by cases h), fun h => (by cases h)⟩, trivial⟩
  have hok : ((scan Sample.percent (Sample.input (5 * minute) (some (5 * minute)))).answer s).any
      (·.isOk) = true := by decide +kernel
  obtain ⟨ahead', s', hscan⟩ : ∃ ahead' s', scan Sample.percent
      (Sample.input (5 * minute) (some (5 * minute))) calm s = .ended ahead' s' (.ok ()) := by
    unfold Proc.answer at hok
    split at hok
    · cases hok
    · next ahead' s' result hended =>
      cases result with
      | ok => exact ⟨ahead', s', hended⟩
      | error => cases hok
  obtain ⟨st, hst, hcount⟩ := rule_alerts_mirror Sample.percent
    (Sample.input (5 * minute) (some (5 * minute))) Sample.key Table.empty Sample.history rfl
    hhistory hscan ⟨_, List.mem_cons_self, rfl⟩
  exact ⟨by decide, ahead', s', st, hscan, hst, hcount⟩

/-- The server is offline, the scan ends between the alert and the mark,
and the server is back: the next scan finds nothing to do, and the alert
stays open. -/
theorem unmarked_alert_stays : ¬ ∀ (percent : Percent Unit) (k : RuleKey) (ops : List Op)
      (input : ScanInput) (ahead' : Ahead ScanOp) (s' : Store Unit),
      (ops.map Op.now ++ [input.now]).Pairwise (· < ·) → Transition.Guarded (Store.step percent)
        (fun _ op => match op with
          | .scan .. => True
          | .alert call => Foreign k call) ⟨Table.empty, Table.empty⟩ ops →
      scan percent input calm (Transition.run (Store.step percent)
        ⟨Table.empty, Table.empty⟩ ops) = .ended ahead' s' (.ok ()) →
      (∃ e ∈ evaluateSnapshot percent input.snapshot input.now, e.key = k) →
      ∃ st, s'.rules.get? k = some st ∧ s'.alerts.unresolvedCount k.alert
          = if st.desiredActive then 1 else 0 := by
  intro h
  obtain ⟨st, hst, hcount⟩ := h Sample.percent Sample.key
    [.scan (Sample.input minute none) Sample.unmarked]
    (Sample.input (2 * minute) (some (2 * minute))) _ _ (by decide)
    ⟨trivial, trivial⟩ rfl ⟨_, List.mem_cons_self, rfl⟩
  have hdesired : st.desiredActive = false :=
    (Option.some.inj (congrArg (Option.map RuleState.desiredActive) hst)).symm
  rw [hdesired] at hcount
  revert hcount
  decide

end Yunling.Ops
