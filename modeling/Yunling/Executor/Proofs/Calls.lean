/-
What the step of one call does, to itself and to other calls.

A call shares the records of the machine, the active runs of its runner
and the mutex with other calls. The exclusive creation of a record
decides which call owns a claim and which one fills a result; records
that are whole are never written again.

# Shape of the argument

`Effect` says once what the step of a call does to what calls share. The
invariant has a part for each call (`Call.Fits`: what its phase promises)
and a part for each two calls (`Call.Apart`: the mutex, the owner of the
claim and the writer of the result are exclusive). A step of a call
keeps its own part (`Call.turn_fits`), the part of every other call
(`Effect.fits`) and the exclusions (`Call.turn_apart`), and its answer is
the one of the undivided look (`Call.turn_sound`).
-/
import Yunling.Executor.Concurrent
import Yunling.Executor.Proofs.Records

namespace Yunling.Executor

open Relational

variable {x : String}

-- ======== growing

/-- Records stay, and whole ones stay as they are. -/
structure Kept (files files' : Hash String RecordFile) : Prop where
  stays : ∀ x, files.get? x ≠ none → files'.get? x ≠ none
  whole : ∀ x r, files.get? x = some (.whole r) → files'.get? x = some (.whole r)

theorem Kept.refl (files : Hash String RecordFile) : Kept files files :=
  ⟨fun _ h => h, fun _ _ h => h⟩

theorem Kept.trans {f f' f'' : Hash String RecordFile} (h : Kept f f')
    (h' : Kept f' f'') : Kept f f'' := ⟨fun x hx => h'.stays x (h.stays x hx),
    fun x r hx => h'.whole x r (h.whole x r hx)⟩

/-- A write where there is no whole record keeps all records. -/
theorem Kept.set {files : Hash String RecordFile}
    (h : files.get? x = none ∨ files.get? x = some .torn)
    (f : RecordFile) : Kept files (files.set x f) := by
  constructor
  · intro y hy
    rw [Hash.get?_set]
    by_cases hxy : y = x
    · simp [hxy]
    · rw [if_neg hxy]
      exact hy
  · intro y r hy
    have hne : y ≠ x := by
      rintro rfl
      rcases h with h | h
      · simp [h] at hy
      · simp [h] at hy
    rw [Hash.get?_set, if_neg hne]
    exact hy

/-- Both kinds of records of a machine are kept. -/
structure Host.Grows (host host' : Host) : Prop where
  claims : Kept host.claims host'.claims
  results : Kept host.results host'.results

theorem Host.Grows.refl (host : Host) : host.Grows host := ⟨.refl _, .refl _⟩

theorem Host.Grows.trans {h₁ h₂ h₃ : Host} (h : h₁.Grows h₂) (h' : h₂.Grows h₃) : h₁.Grows h₃ :=
  ⟨h.claims.trans h'.claims, h.results.trans h'.results⟩

theorem Host.claimed_iff {host : Host} : host.claimed x = true ↔ host.claims.get? x ≠ none := by
  unfold Host.claimed
  rw [Option.isSome_iff_ne_none]

theorem Host.Grows.claimed {h h' : Host} (hg : h.Grows h')
    (hx : h.claimed x = true) : h'.claimed x = true :=
  Host.claimed_iff.mpr (hg.claims.stays x (Host.claimed_iff.mp hx))

/-- What is replayed once is replayed ever after. -/
theorem Host.Grows.replay {h h' : Host} (hg : h.Grows h') {a : Assignment} {events : List Event}
    (hr : h.replay a = some (.ok events)) : h'.replay a = some (.ok events) := by
  unfold Host.replay at hr ⊢
  cases hc : h.claims.get? a.runID with
  | none => simp [hc] at hr
  | some file =>
    cases file with
    | torn | oversize => simp [hc] at hr
    | whole claim =>
      rw [hg.claims.whole _ _ hc]
      rw [hc] at hr
      dsimp only at hr ⊢
      by_cases hid : claim.runID = a.runID
      · by_cases htok : claim.executionToken = a.executionToken
        · rw [if_neg (not_not.mpr hid), if_neg (not_not.mpr htok)] at hr ⊢
          split at hr
          · next result hres =>
            rw [hg.results.whole _ _ hres]
            exact hr
          · simp at hr
        · simp [hid, htok] at hr
      · simp [hid] at hr

-- ======== phases

/-- The call owns the claim and has not launched yet. -/
def Phase.owns : Phase → Bool
  | .fillClaim | .launch => true
  | _ => false

/-- The call has created the result and is to fill it. -/
def Phase.fills : Phase → Bool
  | .fillFailure _ | .fillResult _ _ => true
  | _ => false

/-- The run was not claimed when the call began. -/
def Call.New (c : Call) : Prop :=
  c.begun.claimed c.assignment.runID = false

/-- The first checks of the call passed. -/
def Call.Passed (c : Call) : Prop :=
  c.trial.invalid = none ∧ c.trial.unreadable = false

/-- What the phase of a call promises about what it shares with
others: the machine, the active runs of its runner, and the runs
launched so far. -/
def Call.Fits (c : Call) (r : Runner) (launched : List String) : Prop :=
  let x := c.assignment.runID
  match c.phase with
  | .look false => c.trial.invalid = none
  | .look true | .prepare => c.Passed ∧ c.New
  | .readClaim second =>
    c.Passed ∧ r.active.get? x = none ∧ (second = true → c.New)
  | .readResult claim =>
    c.Passed ∧ r.active.get? x = none ∧ r.host.claims.get? x = some (.whole claim) ∧ claim.runID = x
      ∧ claim.executionToken = c.assignment.executionToken
  | .createClaim | .createFailure _ => c.New
  | .fillClaim =>
    c.New ∧ r.host.claims.get? x = some .torn ∧ x ∉ launched
  | .launch => c.New ∧ r.host.claimed x = true ∧ x ∉ launched
  | .fillFailure _ => c.New ∧ r.host.results.get? x = some .torn
  | .fillResult _ _ => r.host.results.get? x = some .torn
  | .validate | .running _ | .createResult _ _ | .remove => True

/-- What two calls cannot both do. -/
structure Call.Apart (c c' : Call) : Prop where
  lock : c.runner = c'.runner → c.phase.locked = true → c'.phase.locked = false
  claim : c.assignment.runID = c'.assignment.runID → c.phase.owns = true → c'.phase.owns = false
  result : c.assignment.runID = c'.assignment.runID → c.phase.fills = true → c'.phase.fills = false

theorem Call.Apart.symm {c c' : Call} (h : c.Apart c') : c'.Apart c := by
  refine ⟨fun hr hl => ?_, fun hx ho => ?_, fun hx hf => ?_⟩
  · by_contra hne
    rw [h.lock hr.symm (by simpa using hne)] at hl
    cases hl
  · by_contra hne
    rw [h.claim hx.symm (by simpa using hne)] at ho
    cases ho
  · by_contra hne
    rw [h.result hx.symm (by simpa using hne)] at hf
    cases hf

-- ======== effects

/-- What a step of a call does to what calls share: the runner after it,
and whether the launcher was called. -/
inductive Effect (c : Call) (r : Runner) : Runner → Bool → Prop
  | nothing : Effect c r r false
  | claimCreated (free : r.host.claims.get? c.assignment.runID = none) : Effect c r
        { r with host := { r.host with
          claims := r.host.claims.set c.assignment.runID .torn } } false
  | claimFilled (phase : c.phase = .fillClaim) (file : RecordFile) : Effect c r
        { r with host := { r.host with
          claims := r.host.claims.set c.assignment.runID file } } false
  | launched (phase : c.phase = .launch) (run : ActiveRun) : Effect c r
        { active := r.active.set c.assignment.runID run
          host := { r.host with
            processes := c.assignment.runID :: r.host.processes } } true
  | unlaunched (phase : c.phase = .launch) : Effect c r r true
  | resultCreated (free : r.host.results.get? c.assignment.runID = none) : Effect c r
        { r with host := { r.host with
          results := r.host.results.set c.assignment.runID .torn } } false
  | resultFilled (fills : c.phase.fills = true) (file : RecordFile) : Effect c r
        { r with host := { r.host with
          results := r.host.results.set c.assignment.runID file } } false
  | removed : Effect c r { r with active := r.active.del c.assignment.runID } false

theorem createRecord_some {files files' : Hash String RecordFile}
    {w : Write} (h : createRecord files x w = some files') :
    files.get? x = none ∧ files' = files.set x .torn := by
  unfold createRecord at h
  split at h
  · cases h
  next hfree =>
  have hnone : files.get? x = none := by
    by_contra hne
    exact hfree (Or.inl (Option.isSome_iff_ne_none.mpr hne))
  exact ⟨hnone, (Option.some_inj.mp h).symm⟩

/-- Filling writes the record or nothing. -/
theorem fillRecord_cases (files : Hash String RecordFile) (record : ExecutionRecord) (w : Write) :
    (∃ file, (fillRecord files record w).1 = files.set record.runID file)
      ∨ fillRecord files record w = (files, false) := by
  cases w with
  | done | oversize | unsynced => exact Or.inl ⟨_, rfl⟩
  | unopened | torn => exact Or.inr rfl

theorem Call.turn_effect (c : Call) (r : Runner) :
    Effect c r (c.turn r).runner (c.turn r).launched := by
  unfold Call.turn
  cases hp : c.phase with
  | validate | look | readResult | prepare | running | readClaim =>
    dsimp only
    repeat' split
    all_goals exact .nothing
  | createClaim =>
    dsimp only
    split
    · exact .nothing
    · next claims hcreate =>
      obtain ⟨hfree, rfl⟩ := createRecord_some hcreate
      exact .claimCreated hfree
  | fillClaim =>
    dsimp only
    rcases fillRecord_cases r.host.claims (c.assignment.record []) c.trial.claim
      with ⟨file, h⟩ | h
    · rw [h]
      exact .claimFilled hp _
    · rw [h]
      exact .nothing
  | launch =>
    dsimp only
    split
    · exact .unlaunched hp
    · exact .launched hp _
  | createFailure failed | createResult started ended =>
    dsimp only
    split
    · exact .nothing
    · next results hcreate =>
      obtain ⟨hfree, rfl⟩ := createRecord_some hcreate
      exact .resultCreated hfree
  | fillFailure failed =>
    dsimp only
    rcases fillRecord_cases r.host.results (c.assignment.record [failed]) c.trial.save
      with ⟨file, h⟩ | h
    · rw [h]
      exact .resultFilled (by rw [hp]; rfl) _
    · rw [h]
      exact .nothing
  | fillResult started ended =>
    dsimp only
    rcases fillRecord_cases r.host.results (c.assignment.record [started, ended]) c.save
      with ⟨file, h⟩ | h
    · rw [h]
      exact .resultFilled (by rw [hp]; rfl) _
    · rw [h]
      exact .nothing
  | remove => exact .removed

section Effects

variable {c c' : Call} {r r' : Runner} {b : Bool} {launched : List String} {x : String}

theorem Call.Fits.torn (h : c.Fits r launched) (hf : c.phase.fills = true) :
    r.host.results.get? c.assignment.runID = some .torn := by
  unfold Call.Fits at h
  cases hp : c.phase with
  | fillFailure failed => rw [hp] at h; exact h.2
  | fillResult started ended => rw [hp] at h; exact h
  | _ => rw [hp] at hf; cases hf

/-- The owner of a run finds it claimed, and not launched. -/
theorem Call.Fits.owned (h : c.Fits r launched) (ho : c.phase.owns = true) :
    r.host.claimed c.assignment.runID = true ∧ c.assignment.runID ∉ launched := by
  unfold Call.Fits at h
  cases hp : c.phase with
  | fillClaim =>
    rw [hp] at h
    exact ⟨Host.claimed_iff.mpr (by simp [h.2.1]), h.2.2⟩
  | launch => rw [hp] at h; exact h.2
  | _ => rw [hp] at ho; cases ho

theorem Call.Fits.new (h : c.Fits r launched) (ho : c.phase.owns = true) : c.New := by
  unfold Call.Fits at h
  cases hp : c.phase with
  | fillClaim => rw [hp] at h; exact h.1
  | launch => rw [hp] at h; exact h.1
  | _ => rw [hp] at ho; cases ho

theorem Effect.grows (h : Effect c r r' b) (hfits : c.Fits r launched) : r.host.Grows r'.host := by
  cases h with
  | nothing => exact .refl _
  | claimCreated free => exact ⟨.set (Or.inl free) _, .refl _⟩
  | claimFilled phase record =>
    have htorn : r.host.claims.get? c.assignment.runID = some .torn := by
      unfold Call.Fits at hfits
      rw [phase] at hfits
      exact hfits.2.1
    exact ⟨.set (Or.inr htorn) _, .refl _⟩
  | launched | removed => exact ⟨.refl _, .refl _⟩
  | unlaunched => exact .refl _
  | resultCreated free => exact ⟨.refl _, .set (Or.inl free) _⟩
  | resultFilled fills record =>
    exact ⟨.refl _, .set (Or.inr (hfits.torn fills)) _⟩

/-- The step of a call puts a run among the active ones of its runner
only under the mutex. -/
theorem Effect.active_none (h : Effect c r r' b)
    (hlock : c.phase.locked = false) (hx : r.active.get? x = none) : r'.active.get? x = none := by
  cases h with
  | launched phase run => rw [phase] at hlock; cases hlock
  | removed =>
    rw [Hash.get?_del]
    split
    · rfl
    · exact hx
  | _ => exact hx

theorem torn_set {files : Hash String RecordFile} (hx : files.get? x = some .torn) {id : String}
    {f : RecordFile} (hne : id ≠ x) : (files.set id f).get? x = some .torn := by
  rw [Hash.get?_set, if_neg hne.symm, hx]

/-- A torn claim is left alone by all but its owner. -/
theorem Effect.claims_torn (h : Effect c r r' b)
    (hown : c.assignment.runID = x → c.phase.owns = false)
    (hx : r.host.claims.get? x = some .torn) : r'.host.claims.get? x = some .torn := by
  cases h with
  | claimCreated free =>
    refine torn_set hx fun heq => ?_
    rw [heq, hx] at free
    cases free
  | claimFilled phase record =>
    refine torn_set hx fun heq => ?_
    have howns := hown heq
    rw [phase] at howns
    cases howns
  | _ => exact hx

/-- A torn result is left alone by all but its writer. -/
theorem Effect.results_torn (h : Effect c r r' b)
    (hfill : c.assignment.runID = x → c.phase.fills = false)
    (hx : r.host.results.get? x = some .torn) : r'.host.results.get? x = some .torn := by
  cases h with
  | resultCreated free =>
    refine torn_set hx fun heq => ?_
    rw [heq, hx] at free
    cases free
  | resultFilled fills record =>
    refine torn_set hx fun heq => ?_
    rw [hfill heq] at fills
    cases fills
  | _ => exact hx

theorem Effect.owns (h : Effect c r r' true) : c.phase.owns = true := by
  cases h with
  | launched phase run => rw [phase]; rfl
  | unlaunched phase => rw [phase]; rfl

/-- The runs launched after a step. -/
def launchedBy (launched : List String) (c : Call) (b : Bool) : List String :=
  if b then launched ++ [c.assignment.runID] else launched

theorem Effect.not_launched (h : Effect c r r' b)
    (hown : c.assignment.runID = x → c.phase.owns = false)
    (hx : x ∉ launched) : x ∉ launchedBy launched c b := by
  cases b with
  | false => exact hx
  | true =>
    have hne : x ≠ c.assignment.runID := by
      intro heq
      have howns := h.owns
      rw [hown heq.symm] at howns
      cases howns
    simp [launchedBy, hx, hne]

/-- What the phase of another call promises stays true. -/
theorem Effect.fits (h : Effect c r r' b) (hc : c.Fits r launched)
    (hapart : c'.Apart c) {s s' : Runner} (hs : s.host = r.host) (hs' : s'.host = r'.host)
    (hactive : s'.active = s.active ∨ c'.runner = c.runner
      ∧ s.active = r.active ∧ s'.active = r'.active) (hfits : c'.Fits s launched) :
    c'.Fits s' (launchedBy launched c b) := by
  have hgrows := h.grows hc
  have hnone : c'.phase.locked = true → ∀ x, s.active.get? x = none → s'.active.get? x = none := by
    intro hlocked x hx
    rcases hactive with heq | ⟨hrunner, heq, heq'⟩
    · rw [heq]
      exact hx
    · rw [heq']
      exact h.active_none (hapart.lock hrunner hlocked) (heq ▸ hx)
  unfold Call.Fits at hfits ⊢
  rw [hs] at hfits
  rw [hs']
  cases hp : c'.phase with
  | readClaim second =>
    rw [hp] at hfits
    exact ⟨hfits.1, hnone (by rw [hp]; rfl) _ hfits.2.1, hfits.2.2⟩
  | readResult claim =>
    rw [hp] at hfits
    obtain ⟨hpassed, hidle, hclaim, hsame⟩ := hfits
    exact ⟨hpassed, hnone (by rw [hp]; rfl) _ hidle, hgrows.claims.whole _ _ hclaim, hsame⟩
  | fillClaim =>
    rw [hp] at hfits
    have hown : c.assignment.runID = c'.assignment.runID → c.phase.owns = false := fun heq =>
      hapart.claim heq.symm (by rw [hp]; rfl)
    exact ⟨hfits.1, h.claims_torn hown hfits.2.1, h.not_launched hown hfits.2.2⟩
  | launch =>
    rw [hp] at hfits
    have hown : c.assignment.runID = c'.assignment.runID → c.phase.owns = false := fun heq =>
      hapart.claim heq.symm (by rw [hp]; rfl)
    exact ⟨hfits.1, hgrows.claimed hfits.2.1, h.not_launched hown hfits.2.2⟩
  | fillFailure failed =>
    rw [hp] at hfits
    exact ⟨hfits.1, h.results_torn (fun heq => hapart.result heq.symm (by rw [hp]; rfl)) hfits.2⟩
  | fillResult started ended =>
    rw [hp] at hfits
    exact h.results_torn (fun heq => hapart.result heq.symm (by rw [hp]; rfl)) hfits
  | look second =>
    rw [hp] at hfits
    cases second
    · exact hfits
    · exact hfits
  | prepare | createClaim | createFailure _ =>
    rw [hp] at hfits
    exact hfits
  | validate | running _ | createResult _ _ | remove => trivial

end Effects

-- ======== one's own

section Own

variable {c : Call} {r : Runner} {launched : List String} {p : Phase}

/-- What is not claimed now was not claimed when the call began. -/
theorem Call.new_of_unclaimed (hbegun : c.begun.Grows r.host)
    (h : r.host.claims.get? c.assignment.runID = none) : c.New := by
  unfold Call.New
  rw [Bool.eq_false_iff]
  intro hclaimed
  exact Host.claimed_iff.mp (hbegun.claimed hclaimed) h

variable (hp : (c.turn r).outcome.next = some p)

include hp

/-- The phase after a step keeps its promise. -/
theorem Call.turn_fits (hbegun : c.begun.Grows r.host)
    (hlaunched : ∀ x ∈ launched, r.host.claimed x = true) (hfits : c.Fits r launched) :
    { c with phase := p }.Fits (c.turn r).runner (launchedBy launched c (c.turn r).launched) := by
  generalize hturn : c.turn r = turn at hp ⊢
  unfold Call.Fits at hfits
  unfold Call.turn at hturn
  cases hphase : c.phase with
  | validate =>
    rw [hphase] at hturn
    dsimp only at hturn
    split at hturn
    · subst hturn; cases hp
    · next hvalid => subst hturn; cases hp; exact hvalid
  | look second =>
    rw [hphase] at hturn hfits
    dsimp only at hturn
    split at hturn
    · split at hturn <;> (subst hturn; cases hp)
    next hidle =>
    split at hturn
    · subst hturn; cases hp
    next hread =>
    subst hturn; cases hp
    cases second with
    | false =>
      have hreadable : c.trial.unreadable = false := Bool.eq_false_iff.mpr hread
      exact ⟨⟨hfits, hreadable⟩, hidle, by simp⟩
    | true => exact ⟨hfits.1, hidle, fun _ => hfits.2⟩
  | readClaim second =>
    rw [hphase] at hturn hfits
    dsimp only at hturn
    split at hturn
    · next hnone =>
      subst hturn; cases hp
      cases second with
      | false => exact ⟨hfits.1, Call.new_of_unclaimed hbegun hnone⟩
      | true => exact hfits.2.2 rfl
    · subst hturn; cases hp
    · subst hturn; cases hp
    · next claim hclaim =>
      split at hturn
      · subst hturn; cases hp
      next hid =>
      split at hturn
      · subst hturn; cases hp
      · next htok =>
        subst hturn; cases hp
        exact ⟨hfits.1, hfits.2.1, hclaim, not_not.mp hid, not_not.mp htok⟩
  | readResult claim =>
    rw [hphase] at hturn
    dsimp only at hturn
    repeat' split at hturn
    all_goals subst hturn; cases hp
  | prepare =>
    rw [hphase] at hturn hfits
    dsimp only at hturn
    split at hturn
    · subst hturn; cases hp
    · subst hturn; cases hp; exact hfits
  | createClaim =>
    rw [hphase] at hturn hfits
    dsimp only at hturn
    split at hturn
    · subst hturn; cases hp
    next claims hcreate =>
    obtain ⟨hfree, rfl⟩ := createRecord_some hcreate
    subst hturn; cases hp
    refine ⟨hfits, ?_, fun hmem => ?_⟩
    · show (r.host.claims.set _ _).get? _ = _
      rw [Hash.get?_set, if_pos rfl]
    · exact Host.claimed_iff.mp (hlaunched _ hmem) hfree
  | fillClaim =>
    rw [hphase] at hturn hfits
    dsimp only at hturn
    subst hturn
    have hdone : (fillRecord r.host.claims (c.assignment.record []) c.trial.claim).2 = true := by
      by_contra hne
      rw [if_neg hne] at hp
      cases hp
    rw [if_pos hdone] at hp
    cases hp
    obtain ⟨file, hfilled⟩ := (fillRecord_cases r.host.claims
      (c.assignment.record []) c.trial.claim).resolve_right fun h => by simp [h] at hdone
    refine ⟨hfits.1, Host.claimed_iff.mpr ?_, hfits.2.2⟩
    show (fillRecord r.host.claims _ _).1.get? _ ≠ _
    rw [hfilled, Hash.get?_set]
    simp [Assignment.record]
  | launch =>
    rw [hphase] at hturn hfits
    dsimp only at hturn
    split at hturn
    · subst hturn; cases hp; exact hfits.1
    · subst hturn; cases hp; trivial
  | createFailure failed =>
    rw [hphase] at hturn hfits
    dsimp only at hturn
    split at hturn
    · subst hturn; cases hp
    next results hcreate =>
    obtain ⟨hfree, rfl⟩ := createRecord_some hcreate
    subst hturn; cases hp
    refine ⟨hfits, ?_⟩
    show (r.host.results.set _ _).get? _ = _
    rw [Hash.get?_set, if_pos rfl]
  | fillFailure | remove =>
    rw [hphase] at hturn
    subst hturn; cases hp
  | running | fillResult =>
    rw [hphase] at hturn
    subst hturn; cases hp; trivial
  | createResult started ended =>
    rw [hphase] at hturn
    dsimp only at hturn
    split at hturn
    · subst hturn; cases hp; trivial
    next results hcreate =>
    obtain ⟨hfree, rfl⟩ := createRecord_some hcreate
    subst hturn; cases hp
    show (r.host.results.set _ _).get? _ = _
    rw [Hash.get?_set, if_pos rfl]

/-- Where a step can lead: under the mutex from under it or by taking
it, to owning or filling a record by creating it. -/
theorem Call.turn_enters :
    (p.locked = true → c.phase.locked = true ∨ c.phase.locks = true)
      ∧ (p.owns = true → c.phase.owns = true ∨ r.host.claims.get? c.assignment.runID = none)
      ∧ (p.fills = true → r.host.results.get? c.assignment.runID = none) := by
  generalize hturn : c.turn r = turn at hp
  unfold Call.turn at hturn
  cases hphase : c.phase with
  | createClaim =>
    rw [hphase] at hturn
    dsimp only at hturn
    split at hturn
    · subst hturn; cases hp
    · next claims hcreate =>
      subst hturn; cases hp
      exact ⟨fun _ => Or.inl rfl,
        fun _ => Or.inr (createRecord_some hcreate).1, by simp [Phase.fills]⟩
  | createFailure _ | createResult _ _ =>
    rw [hphase] at hturn
    dsimp only at hturn
    split at hturn
    · subst hturn; cases hp <;> simp [Phase.locked, Phase.owns, Phase.fills]
    · next results hcreate =>
      subst hturn; cases hp
      simp [Phase.locked, Phase.owns, (createRecord_some hcreate).1]
  | fillClaim =>
    rw [hphase] at hturn
    dsimp only at hturn
    subst hturn
    split at hp
    · cases hp
      simp [Phase.locked, Phase.owns, Phase.fills]
    · cases hp
  | _ =>
    rw [hphase] at hturn
    dsimp only at hturn
    repeat' split at hturn
    all_goals subst hturn
    all_goals cases hp
    all_goals simp [Phase.locked, Phase.locks, Phase.owns, Phase.fills]

theorem Call.turn_apart {c' : Call} {r' : Runner} (hapart : c.Apart c')
    (hfits : c'.Fits r' launched) (hhost : r'.host = r.host)
    (hfree : c.phase.locks = true → c.runner = c'.runner → c'.phase.locked = false) :
    { c with phase := p }.Apart c' := by
  obtain ⟨hlock, hown, hfill⟩ := Call.turn_enters hp
  refine ⟨fun hr hl => ?_, fun hx ho => ?_, fun hx hf => ?_⟩
  · rcases hlock hl with hl | hl
    · exact hapart.lock hr hl
    · exact hfree hl hr
  · rcases hown ho with ho | hnone
    · exact hapart.claim hx ho
    rw [Bool.eq_false_iff]
    intro howned
    have hclaimed := Host.claimed_iff.mp (hfits.owned howned).1
    rw [hhost] at hclaimed
    exact hclaimed (hx ▸ hnone)
  · rw [Bool.eq_false_iff]
    intro hfills
    have htorn := hfits.torn hfills
    have hnone := hfill hf
    rw [hhost, ← hx] at htorn
    rw [hnone] at htorn
    cases htorn

end Own

-- ======== answers

/-- What an answer owes to a run that was claimed when the call began:
the answer of the undivided look, at the moment of answering. -/
structure Answer.Sound (x : Answer) : Prop where
  grows : x.begun.Grows x.seen.host
  looks : x.begun.claimed x.assignment.runID = true →
    match x.trial.invalid with
    | some message => x.result = .error (.failed message)
    | none => x.seen.look x.assignment x.trial.unreadable = some x.result

section Answers

variable {c : Call} {r : Runner} {launched : List String}
  {result : Except StartError (List Event)}

/-- A call that found the run new owes nothing. -/
theorem Call.New.looks (h : c.New) {P : Prop} : c.begun.claimed c.assignment.runID = true → P := by
  intro hclaimed
  rw [h] at hclaimed
  cases hclaimed

/-- A call answers as the undivided look does. -/
theorem Call.turn_sound (hbegun : c.begun.Grows r.host) (hfits : c.Fits r launched)
    (hresult : (c.turn r).outcome.result = some result) :
    Answer.Sound ⟨c.assignment, c.trial, result, c.begun, r⟩ := by
  refine ⟨hbegun, fun hclaimed => ?_⟩
  generalize hturn : c.turn r = turn at hresult
  unfold Call.Fits at hfits
  unfold Call.turn at hturn
  cases hphase : c.phase with
  | validate =>
    rw [hphase] at hturn
    dsimp only at hturn
    cases hinvalid : c.trial.invalid with
    | some message =>
      rw [hinvalid] at hturn
      subst hturn; cases hresult
      rfl
    | none =>
      rw [hinvalid] at hturn
      subst hturn; cases hresult
  | look second =>
    rw [hphase] at hturn hfits
    cases second with
    | true => exact Call.New.looks hfits.2 hclaimed
    | false =>
      have hvalid : c.trial.invalid = none := hfits
      rw [hvalid]
      dsimp only at hturn ⊢
      unfold Runner.look
      cases hrun : r.active.get? c.assignment.runID with
      | some run =>
        rw [hrun] at hturn
        dsimp only at hturn ⊢
        split at hturn
        · next htok => subst hturn; cases hresult; rw [if_pos htok]
        · next htok => subst hturn; cases hresult; rw [if_neg htok]
      | none =>
        rw [hrun] at hturn
        dsimp only at hturn ⊢
        split at hturn
        · next hunread =>
          subst hturn; cases hresult
          exact if_pos hunread
        · subst hturn; cases hresult
  | readClaim second =>
    rw [hphase] at hturn hfits
    obtain ⟨⟨hvalid, hread⟩, hidle, -⟩ := hfits
    rw [hvalid]
    dsimp only at hturn ⊢
    unfold Runner.look Host.replay
    rw [hidle, hread]
    rw [if_neg Bool.false_ne_true]
    rcases hclaim : r.host.claims.get? c.assignment.runID with _ | _ | _ | claim
    · rw [hclaim] at hturn; subst hturn; cases hresult
    · rw [hclaim] at hturn; subst hturn; cases hresult; rfl
    · rw [hclaim] at hturn; subst hturn; cases hresult; rfl
    rw [hclaim] at hturn
    dsimp only at hturn ⊢
    split at hturn
    · next hid => subst hturn; cases hresult; rw [if_pos hid]
    next hid =>
    split at hturn
    · next htok =>
      subst hturn; cases hresult
      rw [if_neg hid, if_pos htok]
    · subst hturn; cases hresult
  | readResult claim =>
    rw [hphase] at hturn hfits
    obtain ⟨⟨hvalid, hread⟩, hidle, hclaim, hid, htok⟩ := hfits
    rw [hvalid]
    dsimp only at hturn ⊢
    unfold Runner.look Host.replay
    rw [hidle, hread, hclaim]
    dsimp only
    rw [if_neg Bool.false_ne_true, if_neg (not_not.mpr hid), if_neg (not_not.mpr htok)]
    rcases hrecorded : r.host.results.get? c.assignment.runID with _ | _ | _ | recorded
    · rw [hrecorded] at hturn; subst hturn; cases hresult; rfl
    · rw [hrecorded] at hturn; subst hturn; cases hresult; rfl
    · rw [hrecorded] at hturn; subst hturn; cases hresult; rfl
    · rw [hrecorded] at hturn
      dsimp only at hturn ⊢
      split at hturn
      · next hok => subst hturn; cases hresult; rw [if_pos hok]
      · next hok => subst hturn; cases hresult; rw [if_neg hok]
  | prepare => rw [hphase] at hfits; exact Call.New.looks hfits.2 hclaimed
  | createClaim | createFailure _ =>
    rw [hphase] at hfits
    exact Call.New.looks hfits hclaimed
  | fillClaim | launch | fillFailure _ =>
    rw [hphase] at hfits
    exact Call.New.looks hfits.1 hclaimed
  | running _ | createResult _ _ | fillResult _ _ | remove =>
    rw [hphase] at hturn
    dsimp only at hturn
    repeat' split at hturn
    all_goals subst hturn; cases hresult

end Answers

end Yunling.Executor
