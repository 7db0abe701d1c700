/-
The state of releases, whatever happens to the calls that change it.

However the calls of `CommitSuccess` go, the releases that `LoadCurrent`
and `LoadPrevious` return change together or not at all
(`commit_crash_atomic`).

# The pair

`state` is the pair the disk stands for: what the journal says, if there
is one, and what the two files hold otherwise. Replaying the journal does
not change it at any point: as long as the journal is there the files do
not count, and once they hold what it says it may go. Only writing the
journal changes the pair, in one operation.
-/
import Yunling.Lib.Transition
import Yunling.Release.Store

namespace Yunling.Release

open Crash Relational Transition

-- ======== state

/-- A release as it is returned when it is read. -/
def StoredRelease.loaded (release : StoredRelease) : StoredRelease :=
  { release with validated := true }

section Texts

variable (json : Formats)

/-- A release that can be stored as a success. -/
structure Formats.Stores (release : StoredRelease) : Prop where
  valid : validateStoredRelease release true = .ok ()
  text : (json.release.marshal release).isSome

/-- A file that is not there, or holds a release. -/
def Formats.Holds (content : Option (List UInt8)) : Prop :=
  ∀ text, content = some text → ∃ release,
    json.release.unmarshal text = some release ∧ json.Stores release

/-- What a file holds. -/
def Formats.release? (content : Option (List UInt8)) : Option StoredRelease :=
  (content.bind json.release.unmarshal).map StoredRelease.loaded

/-- Every state file can be read. -/
structure Disk.Sound (d : Disk) : Prop where
  current : json.Holds d.current
  previous : json.Holds d.previous
  transaction : ∀ text, d.transaction = some text → ∃ t,
    json.transaction.unmarshal text = some t ∧ json.Stores t.current
      ∧ ∀ previous, t.previous = some previous → json.Stores previous

/-- The current and the previous release. -/
def Disk.state (d : Disk) : Option StoredRelease × Option StoredRelease :=
  match d.transaction.bind json.transaction.unmarshal with
  | some t => (some t.current.loaded, t.previous.map StoredRelease.loaded)
  | none => (json.release? d.current, json.release? d.previous)

end Texts

/-- Nothing but the state files differs. -/
structure Disk.Beside (d d' : Disk) : Prop where
  histories : d'.histories = d.histories
  writing : d'.writing = d.writing

theorem Disk.Beside.trans {d d' d'' : Disk} (h : d.Beside d') (h' : d'.Beside d'') : d.Beside d'' :=
  ⟨h'.histories.trans h.histories, h'.writing.trans h.writing⟩

section Histories

variable {d d' : Disk} (targetID : String)

theorem Disk.Beside.manifest (h : d.Beside d') : d'.manifest targetID = d.manifest targetID := by
  unfold Disk.manifest
  rw [h.histories]

theorem Disk.Beside.success (h : d.Beside d') : d'.success targetID = d.success targetID := by
  unfold Disk.success
  rw [h.histories]

theorem Disk.manifest_set (d : Disk) (history : History) : Disk.manifest { d with
    histories := d.histories.set targetID history } targetID = history.manifest := by
  unfold Disk.manifest
  rw [Hash.get?_set, if_pos rfl]
  rfl

theorem Disk.success_set (d : Disk) (history : History) : Disk.success { d with
    histories := d.histories.set targetID history } targetID = history.success := by
  unfold Disk.success
  rw [Hash.get?_set, if_pos rfl]
  rfl

end Histories

/-- The disk stands for the same pair. -/
structure Disk.Recovers (json : Formats) (d d' : Disk) : Prop where
  sound : d'.Sound json
  state : d'.state json = d.state json
  beside : d.Beside d'

section Releases

variable {json : Formats} {d d' d'' : Disk} {release : StoredRelease} {α : Type}
  {ahead : Ahead Device} {text : List UInt8} {t : StateTransaction} {content : Option (List UInt8)}
  {device : Device} {data : List UInt8} {value : α}

theorem Disk.Recovers.refl (h : d.Sound json) : d.Recovers json d :=
  ⟨h, rfl, rfl, rfl⟩

theorem Formats.Stores.loaded (h : json.Stores release) : json.Stores release.loaded := by
  refine ⟨h.valid, ?_⟩
  rw [← json.release.marshal_kept]
  show (json.release.marshal release.kept).isSome
  rw [json.release.marshal_kept]
  exact h.text

theorem Formats.Stores.kept (h : json.Stores release) : json.Stores release.kept :=
  ⟨h.valid, by rw [json.release.marshal_kept]; exact h.text⟩

theorem Formats.holds_none : json.Holds none := fun _ h => by cases h

/-- A release that is written can be read. -/
theorem Formats.Stores.line (h : json.Stores release) :
    ∃ data, json.release.marshalLine release = some data ∧ json.Holds (some data)
      ∧ json.release? (some data) = some release.loaded := by
  obtain ⟨text, htext⟩ := Option.isSome_iff_exists.mp h.text
  have hline := Codec.marshalLine_of_text htext
  have hread := Codec.unmarshal_marshalLine hline
  refine ⟨_, hline, fun text' htext' => ?_, ?_⟩
  · cases htext'
    exact ⟨_, hread, h.kept⟩
  · unfold Formats.release?
    rw [Option.bind_some, hread]
    rfl

theorem Disk.state_of_transaction (htext : d.transaction = some text)
    (ht : json.transaction.unmarshal text = some t) :
    d.state json = (some t.current.loaded, t.previous.map StoredRelease.loaded) := by
  unfold Disk.state
  rw [htext, Option.bind_some, ht]

theorem Disk.state_of_none (h : d.transaction = none) :
    d.state json = (json.release? d.current, json.release? d.previous) := by
  unfold Disk.state
  rw [h]
  rfl

theorem readTransaction_ok
    (ht : json.transaction.unmarshal text = some t) (hcurrent : json.Stores t.current)
    (hprevious : ∀ previous, t.previous = some previous → json.Stores previous) :
    readTransaction json text = .ok t := by
  unfold readTransaction
  rw [ht]
  dsimp only
  rw [hcurrent.valid]
  cases hp : t.previous with
  | none => rfl
  | some previous =>
    dsimp only
    rw [(hprevious previous hp).valid]

/-- What a state file is read as. -/
def found : Option StoredRelease → Except Failure StoredRelease
  | some release => .ok release
  | none => .error .notExist

theorem readRelease_of_holds (h : json.Holds content) :
    readRelease json content true = found (json.release? content) := by
  cases content with
  | none => rfl
  | some text =>
    obtain ⟨release, hread, hstores⟩ := h text rfl
    simp only [readRelease, Formats.release?, Option.bind_some, hread, hstores.valid]
    rfl

theorem Formats.Holds.stores (h : json.Holds content)
    (hrelease : json.release? content = some release) : json.Stores release := by
  cases content with
  | none => cases hrelease
  | some text =>
    obtain ⟨release', hread, hstores⟩ := h text rfl
    unfold Formats.release? at hrelease
    rw [Option.bind_some, hread] at hrelease
    cases hrelease
    exact hstores.loaded

-- ======== recovery

section Recovery

variable {A : Device → Option Fate → Prop} {C : Disk → Prop} {α : Type} {E : Failure → Disk → Prop}
  {Q : Unit → Disk → Prop} {device : Device} {put : List UInt8 → Disk → Disk} {data : List UInt8}
  {kept : α → α} {format : Codec kept} {value : α}

theorem wp_look {f : Disk → α} {Q : α → Disk → Prop} (hcut : C d) (hok : Q (f d) d)
    (hfailed : E .io d) : wp A (look f) C Q E d := wp_read hcut (fun a ha => by cases ha; exact hok)
    (fun _ he => by cases he) fun _ _ => hfailed

theorem wp_check {result : Except Failure α}
    {Q : α → Disk → Prop} (hok : ∀ a, result = .ok a → Q a d)
    (herror : ∀ e, result = .error e → E e d) : wp A (check result) C Q E d := by
  cases result with
  | ok a => exact wp_pure (hok a rfl)
  | error e => exact wp_fail (herror e rfl)

theorem wp_change {f : Disk → Disk} (hcut : C d) (hok : Q () (f d))
    (hfailed : ∀ took : Bool, E .io (if took then f d else d)) : wp A (change device f) C Q E d :=
  wp_write hcut hok (fun _ => hfailed false) fun _ => hfailed true

theorem wp_writeJSONAtomic (hdata : format.marshalLine value = some data) (hcut : C d)
    (hok : Q () (put data d)) (hfailed : ∀ took : Bool, E .io (if took then put data d else d)) :
    wp A (writeJSONAtomic format device value put) C Q E d := by
  unfold writeJSONAtomic marshalJSONLine
  rw [hdata]
  exact wp_bind (wp_pure (wp_change hcut hok hfailed))

/-- While the journal is there the files do not count. -/
theorem Disk.Recovers.pending {text : List UInt8} {t : StateTransaction} (h : d.Sound json)
    (htext : d.transaction = some text) (ht : json.transaction.unmarshal text = some t)
    (hbeside : d.Beside d') (htransaction : d'.transaction = d.transaction)
    (hcurrent : json.Holds d'.current) (hprevious : json.Holds d'.previous) :
    d.Recovers json d' := by
  refine ⟨⟨hcurrent, hprevious, ?_⟩, ?_, hbeside⟩
  · rw [htransaction]
    exact h.transaction
  · rw [Disk.state_of_transaction (htransaction.trans htext) ht, Disk.state_of_transaction htext ht]

/-- The previous release the journal has is there. -/
theorem wp_replayPrevious {previous : Option StoredRelease}
    (hstores : ∀ release, previous = some release → json.Stores release) (hcut : C d)
    (hok : ∀ content, json.Holds content →
      json.release? content = previous.map StoredRelease.loaded →
      Q () { d with previous := content }) (hfailed : E .io d ∧ ∀ content, json.Holds content →
      E .io { d with previous := content }) : wp A (replayPrevious json previous) C Q E d := by
  cases previous with
  | none =>
    refine wp_change hcut (hok none Formats.holds_none rfl) fun took => ?_
    exact of_took hfailed.1 (hfailed.2 none Formats.holds_none) took
  | some release =>
    obtain ⟨data, hdata, hholds, hread⟩ := (hstores release rfl).line
    refine wp_writeJSONAtomic hdata hcut (hok _ hholds hread) fun took => ?_
    exact of_took hfailed.1 (hfailed.2 _ hholds) took

/-- Replaying the journal keeps the pair at any point, and the journal is
gone at the end. -/
theorem wp_recoverState (h : d.Sound json) (hcut : ∀ d', d.Recovers json d' → C d')
    (hok : ∀ d', d.Recovers json d' → d'.transaction = none → Q () d')
    (herror : ∀ e d', d.Recovers json d' → E e d') : wp A (recoverState json) C Q E d := by
  have hsame := Disk.Recovers.refl h
  refine wp_bind (wp_look (hcut d hsame) ?_ (herror _ d hsame))
  cases htext : d.transaction with
  | none => exact wp_pure (hok d hsame htext)
  | some text =>
    obtain ⟨t, ht, hcurrent, hprevious⟩ := h.transaction text htext
    dsimp only
    rw [readTransaction_ok ht hcurrent hprevious]
    -- as long as the journal is there
    have hpending : ∀ d' : Disk, d.Beside d' →
        d'.transaction = d.transaction → json.Holds d'.current →
        json.Holds d'.previous → d.Recovers json d' :=
      fun _ hb htr hc hp => .pending h htext ht hb htr hc hp
    refine wp_bind (wp_pure (wp_bind (wp_replayPrevious hprevious
      (hcut d hsame) (fun content hp hpread => ?_) ⟨herror _ d hsame, fun content hp => herror _ _
        (hpending _ ⟨rfl, rfl⟩ rfl h.current hp)⟩)))
    have h1 := hpending { d with previous := content } ⟨rfl, rfl⟩ rfl h.current hp
    obtain ⟨data, hdata, hholds, hread⟩ := hcurrent.line
    have h2 := hpending
      { d with previous := content, current := some data } ⟨rfl, rfl⟩ rfl hholds hp
    refine wp_bind (wp_writeJSONAtomic hdata (hcut _ h1) ?_ fun took => ?_)
    · have h3 : d.Recovers json { d with
          previous := content, current := some data
          transaction := none } := by
        refine ⟨⟨hholds, hp, fun _ htr => by cases htr⟩, ?_, rfl, rfl⟩
        rw [Disk.state_of_transaction htext ht]
        exact Prod.ext hread hpread
      refine wp_bind (wp_change (hcut _ h2) ?_ fun took => ?_)
      · refine wp_change (hcut _ h3) (hok _ h3 rfl) fun took => ?_
        cases took with
        | false | true => exact herror _ _ h3
      · exact of_took (herror _ _ h2) (herror _ _ h3) took
    · exact of_took (herror _ _ h1) (herror _ _ h2) took

-- ======== commit

/-- A file is written as a whole, if there is a text for it. -/
theorem wp_writeJSONAtomic_any (hcut : C d) (hsame : ∀ e, E e d)
    (hput : ∀ data, format.marshalLine value = some data → Q () (put data d) ∧ E .io (put data d)) :
    wp A (writeJSONAtomic format device value put) C Q E d := by
  cases hdata : format.marshalLine value with
  | some data =>
    refine wp_writeJSONAtomic hdata hcut (hput data hdata).1 fun took => ?_
    exact of_took (hsame _) ((hput data hdata).2) took
  | none =>
    unfold writeJSONAtomic marshalJSONLine
    rw [hdata]
    exact wp_bind (wp_fail (hsame _))

/-- The state files are the same. -/
structure Disk.SameState (d d' : Disk) : Prop where
  current : d'.current = d.current
  previous : d'.previous = d.previous
  transaction : d'.transaction = d.transaction

theorem Disk.SameState.sound (h : d.SameState d') (hd : d.Sound json) : d'.Sound json := by
  refine ⟨?_, ?_, ?_⟩
  · rw [h.current]
    exact hd.current
  · rw [h.previous]
    exact hd.previous
  · rw [h.transaction]
    exact hd.transaction

theorem Disk.SameState.state (h : d.SameState d') : d'.state json = d.state json := by
  unfold Disk.state
  rw [h.transaction, h.current, h.previous]

theorem Disk.SameState.refl (d : Disk) : d.SameState d := ⟨rfl, rfl, rfl⟩

theorem Disk.SameState.trans (h : d.SameState d') (h' : d'.SameState d'') : d.SameState d'' :=
  ⟨h'.current.trans h.current, h'.previous.trans h.previous,
    h'.transaction.trans h.transaction⟩

theorem Disk.setSuccess_sameState (d : Disk) (targetID : String)
    (content : List UInt8) : d.SameState (d.setSuccess targetID content) := ⟨rfl, rfl, rfl⟩

theorem Disk.openSuccess_sameState (d : Disk) (targetID : String) :
    d.SameState (d.openSuccess targetID).2 := by
  unfold Disk.openSuccess
  split
  · exact .refl d
  · split
    · exact .refl d
    · exact ⟨rfl, rfl, rfl⟩

/-- The record of a success is written beside the state files. -/
theorem wp_writeSuccess (hcut : ∀ d', d.SameState d' → C d')
    (hok : ∀ d', d.SameState d' → (json.release.marshal release).isSome → Q () d')
    (herror : ∀ e d', d.SameState d' → E e d') : wp A (writeSuccess json release) C Q E d := by
  have hsame := Disk.SameState.refl d
  have hopen := d.openSuccess_sameState release.targetID
  unfold writeSuccess marshalJSONLine
  cases hdata : json.release.marshalLine release with
  | none => exact wp_bind (wp_fail (herror _ d hsame))
  | some data =>
    have htext : (json.release.marshal release).isSome := by
      obtain ⟨text, htext, _⟩ := Option.map_eq_some_iff.mp hdata
      rw [htext]
      rfl
    refine wp_bind (wp_pure (wp_bind (wp_op (hcut d hsame)
      (fun _ new _ => ?_) (fun _ e _ => herror e _ hopen) fun took _ => ?_)))
    · cases new with
      | true =>
        -- the bytes, one by one
        refine wp_bind (wp_forM (fun _ d' => d.SameState d')
          (fun byte rest d' hd' => ?_) (fun d' hd' => ?_) data _ hopen)
        · have hd'' := hd'.trans (d'.setSuccess_sameState release.targetID
              ((d'.success release.targetID).getD [] ++ [byte]))
          refine wp_change (hcut _ hd') hd'' fun took => ?_
          exact of_took (herror _ _ hd') (herror _ _ hd'') took
        · have hwriting (w : Option (String × Bool)) : d.SameState { d' with writing := w } :=
            ⟨hd'.current, hd'.previous, hd'.transaction⟩
          refine wp_bind (wp_change (hcut _ hd') (wp_change (hcut _ (hwriting _))
            (hok _ (hwriting _) htext) fun took => ?_) fun took => ?_)
          · exact of_took (herror _ _ (hwriting _)) (herror _ _ (hwriting _)) took
          · exact of_took (herror _ _ hd') (herror _ _ (hwriting _)) took
      | false =>
        refine wp_bind (wp_attempt (wp_look (hcut _ hopen) ?_ (wp_fail (herror _ _ hopen))))
        cases hexisting : Disk.success _ release.targetID with
        | none => exact wp_fail (herror _ _ hopen)
        | some existing =>
          dsimp only
          split
          · exact wp_pure (hok _ hopen htext)
          · exact wp_fail (herror _ _ hopen)
    · exact of_took (herror _ _ hsame) (herror _ _ hopen) took

/-- The disk stands for the pair as before, or as after a commit. -/
structure Disk.Commits (json : Formats) (release : StoredRelease) (d d' : Disk) : Prop where
  sound : d'.Sound json
  state : d'.state json = d.state json ∨ d'.state json = (some release, (d.state json).1)

theorem optional_found {previous release? : Option StoredRelease}
    (h : optional (found release?) = .ok previous) : previous = release? := by
  cases release? with
  | none | some => exact (Except.ok.inj h).symm

/-- A journal is written: the pair is the new one. -/
theorem Disk.Sound.journal (h : d.Sound json)
    (hstores : json.Stores release) (hnone : d.transaction = none)
    (hdata : json.transaction.marshalLine ⟨release, (d.state json).1⟩ = some data) :
    Disk.Sound json { d with transaction := some data }
      ∧ Disk.state json { d with transaction := some data }
        = (some release.loaded, (d.state json).1) := by
  have hread := Codec.unmarshal_marshalLine hdata
  have hcurrent : ∀ current, (d.state json).1 = some current →
      json.Stores current ∧ current.loaded = current := by
    intro current hc
    rw [Disk.state_of_none hnone] at hc
    refine ⟨h.current.stores hc, ?_⟩
    obtain ⟨_, _, rfl⟩ := Option.map_eq_some_iff.mp hc
    rfl
  refine ⟨⟨h.current, h.previous, fun text htext => ?_⟩, ?_⟩
  · cases htext
    refine ⟨_, hread, hstores.kept, fun previous hp => ?_⟩
    obtain ⟨current, hc, rfl⟩ := Option.map_eq_some_iff.mp hp
    exact (hcurrent current hc).1.kept
  · rw [Disk.state_of_transaction rfl hread]
    refine Prod.ext rfl ?_
    cases hc : (d.state json).1 with
    | none => simp [StateTransaction.kept]
    | some current =>
      have := (hcurrent current hc).2
      exact congrArg some this

theorem wp_commitState (h : d.Sound json)
    (hstores : json.Stores release) (hloaded : release.loaded = release)
    (hcut : ∀ d', d.Commits json release d' → d.Beside d' → C d')
    (hok : ∀ d', d.Commits json release d' → d.Beside d' → Q () d')
    (herror : ∀ e d', d.Commits json release d' → d.Beside d' → E e d') :
    wp A (commitState json release) C Q E d := by
  have hbefore : ∀ {d' : Disk}, d.Recovers json d' →
      d.Commits json release d' := fun hd => ⟨hd.sound, Or.inl hd.state⟩
  refine wp_bind (wp_recoverState h
    (fun d' hd => hcut d' (hbefore hd) hd.beside) (fun d' hd hnone => ?_)
    fun e d' hd => herror e d' (hbefore hd) hd.beside)
  have hd' := hbefore hd
  refine wp_bind (wp_look (hcut d' hd' hd.beside) ?_ (herror _ d' hd' hd.beside))
  rw [readRelease_of_holds hd.sound.current]
  refine wp_bind (wp_check (fun previous hprevious => ?_) fun e _ => herror e d' hd' hd.beside)
  obtain rfl := optional_found hprevious
  have hcurrent : json.release? d'.current = (d'.state json).1 := by
    rw [Disk.state_of_none hnone]
  rw [hcurrent]
  refine wp_bind (wp_writeJSONAtomic_any (hcut d' hd' hd.beside)
    (fun e => herror e d' hd' hd.beside) fun data hdata => ?_)
  obtain ⟨hsound, hstate⟩ := hd.sound.journal hstores hnone hdata
  rw [hloaded, hd.state] at hstate
  have hjournal : d.Beside { d' with transaction := some data } :=
    hd.beside.trans ⟨rfl, rfl⟩
  have hafter : ∀ {d'' : Disk}, Disk.Recovers json
      { d' with transaction := some data } d'' →
      d.Commits json release d'' ∧ d.Beside d'' := fun hd'' =>
    ⟨⟨hd''.sound, Or.inr (hd''.state.trans hstate)⟩, hjournal.trans hd''.beside⟩
  exact ⟨wp_recoverState hsound (fun d'' hd'' => hcut d'' (hafter hd'').1 (hafter hd'').2)
      (fun d'' hd'' _ => hok d'' (hafter hd'').1 (hafter hd'').2)
      fun e d'' hd'' => herror e d'' (hafter hd'').1 (hafter hd'').2,
    herror _ _ ⟨hsound, Or.inr hstate⟩ hjournal⟩

/-- However a commit goes, the pair is the one before or the one
after. -/
theorem wp_commitSuccess (h : d.Sound json) :
    wp A (commitSuccess json release) (d.Commits json release) (fun _ => d.Commits json release)
      (fun _ => d.Commits json release) d := by
  have hsame : d.Commits json release d := ⟨h, Or.inl rfl⟩
  unfold commitSuccess
  by_cases hvalidated : release.validated = true
  · rw [if_pos hvalidated]
    refine wp_bind (wp_check (fun _ hvalid => ?_) fun _ _ => hsame)
    refine wp_bind (wp_look hsame ?_ hsame)
    cases readRelease json (d.manifest release.targetID) false with
    | error e => exact wp_fail hsame
    | ok validated =>
      dsimp only [commitVerified]
      split
      · have hcommits : ∀ {d' : Disk}, d.SameState d' → d.Commits json release d' := fun hd =>
          ⟨hd.sound h, Or.inl hd.state⟩
        refine wp_bind (wp_writeSuccess (fun _ hd => hcommits hd)
          (fun d' hd htext => ?_) fun _ _ hd => hcommits hd)
        have hloaded : release.loaded = release := by
          unfold StoredRelease.loaded
          rw [← hvalidated]
        have hnext : ∀ d'', d'.Commits json release d'' → d.Commits json release d'' := by
          intro d'' hd''
          have hstate := hd''.state
          rw [hd.state] at hstate
          exact ⟨hd''.sound, hstate⟩
        exact wp_commitState (hd.sound h) ⟨hvalid, htext⟩ hloaded (fun d'' hd'' _ => hnext d'' hd'')
          (fun d'' hd'' _ => hnext d'' hd'')
          fun _ d'' hd'' _ => hnext d'' hd''
      · exact wp_fail hsame
  · rw [if_neg hvalidated]
    exact wp_fail hsame

-- ======== loads

theorem wp_loadReleaseFile {content : Disk → Option (List UInt8)}
    {requireSuccess : Bool} {I : Disk → Prop} (h : I d) :
    wp A (loadReleaseFile json content requireSuccess) I (fun _ => I) (fun _ => I) d :=
  wp_bind (wp_look h (wp_check (fun _ _ => h) fun _ _ => h) h)

/-- A load replays the journal and then only looks. -/
theorem wp_recoverThen {rest : Unit → Procedure α} (h : d.Sound json)
    (hrest : ∀ d', d.Recovers json d' → wp A (rest ()) (d.Recovers json) (fun _ => d.Recovers json)
        (fun _ => d.Recovers json) d') : wp A (recoverState json >>= rest) (d.Recovers json)
      (fun _ => d.Recovers json) (fun _ => d.Recovers json) d :=
  wp_bind (wp_recoverState h (fun _ hd => hd) (fun d' hd _ => hrest d' hd) fun _ _ hd => hd)

theorem wp_loadCurrent (h : d.Sound json) :
    wp A (loadCurrent json) (d.Recovers json) (fun _ => d.Recovers json)
      (fun _ => d.Recovers json) d := wp_recoverThen h fun _ hd => wp_loadReleaseFile hd

theorem wp_loadPrevious (h : d.Sound json) :
    wp A (loadPrevious json) (d.Recovers json) (fun _ => d.Recovers json)
      (fun _ => d.Recovers json) d := wp_recoverThen h fun _ hd => wp_loadReleaseFile hd

theorem wp_loadTarget (h : d.Sound json) (targetID : String) :
    wp A (loadTarget json targetID) (d.Recovers json)
      (fun _ => d.Recovers json) (fun _ => d.Recovers json) d := by
  unfold loadTarget
  by_cases hid : validTargetID targetID = true
  · rw [if_pos hid]
    refine wp_recoverThen h fun d' hd => wp_bind (wp_look hd ?_ hd)
    cases readRelease json (d'.success targetID) true with
    | ok release => exact wp_pure hd
    | error e =>
      cases e with
      | notExist =>
        refine wp_bind (wp_look hd ?_ hd)
        split
        · exact wp_fail hd
        · exact wp_fail hd
      | _ => exact wp_fail hd
  · rw [if_neg hid]
    exact wp_fail (.refl h)

/-- A candidate is saved beside the state files. -/
theorem wp_saveValidated : wp A (saveValidated json release) d.SameState (fun _ => d.SameState)
      (fun _ => d.SameState) d := by
  have hsame := Disk.SameState.refl d
  unfold saveValidated
  split
  · refine wp_bind (wp_check (fun _ _ => ?_) fun _ _ => hsame)
    refine wp_bind (wp_look hsame ?_ hsame)
    split
    · exact wp_fail hsame
    · exact wp_writeJSONAtomic_any hsame (fun _ => hsame) fun _ _ =>
      ⟨⟨rfl, rfl, rfl⟩, ⟨rfl, rfl, rfl⟩⟩
  · exact wp_fail hsame

end Recovery

-- ======== undisturbed

theorem look_cut (f : Disk → α) (h : ahead .read 0 = none) : look f ahead d = .cut d := by
  exact op_cut _ h

theorem look_done (f : Disk → α) (h : ahead .read 0 = some .done) :
    look f ahead d = .ended (ahead.skip .read 1) d (.ok (f d)) := by
  exact op_done _ h

theorem look_calm (f : Disk → α) : look f calm d = .ended calm d (.ok (f d)) := read_calm _

theorem change_cut (f : Disk → Disk) (h : ahead device 0 = none) :
    change device f ahead d = .cut d := by
  unfold change Proc.write
  exact op_cut _ h

theorem change_done (f : Disk → Disk) (h : ahead device 0 = some .done) :
    change device f ahead d = .ended (ahead.skip device 1) (f d) (.ok ()) := by
  unfold change Proc.write
  exact op_done _ h

theorem change_calm (device : Device) (f : Disk → Disk) :
    change device f calm d = .ended calm (f d) (.ok ()) := write_calm _

theorem check_apply (result : Except Failure α) (ahead : Ahead Device) :
    check result ahead d = .ended ahead d result := by
  cases result <;> rfl

theorem marshalJSONLine_apply {kept : α → α} {format : Codec kept}
    (hdata : format.marshalLine value = some data) (ahead : Ahead Device) :
    marshalJSONLine format value ahead d = .ended ahead d (.ok data) := by
  unfold marshalJSONLine
  rw [hdata]
  rfl

theorem writeJSONAtomic_calm {kept : α → α} {format : Codec kept} {put : List UInt8 → Disk → Disk}
    (hdata : format.marshalLine value = some data) :
    writeJSONAtomic format device value put calm d = .ended calm (put data d) (.ok ()) := by
  unfold writeJSONAtomic
  rw [bind_ok (marshalJSONLine_apply hdata calm)]
  exact change_calm device (put data)

theorem replayPrevious_calm {previous : Option StoredRelease}
    (h : ∀ release, previous = some release → json.Stores release) :
    ∃ content, replayPrevious json previous calm d
      = .ended calm { d with previous := content } (.ok ()) := by
  cases previous with
  | none => exact ⟨none, change_calm _ _⟩
  | some release =>
    obtain ⟨data, hdata, _, _⟩ := (h release rfl).line
    exact ⟨some data, writeJSONAtomic_calm hdata⟩

variable (h : d.Sound json)

include h

theorem recoverState_calm :
    ∃ d', recoverState json calm d = .ended calm d' (.ok ())
      ∧ d.Recovers json d' ∧ d'.transaction = none := by
  have hgoes : ∃ d', recoverState json calm d = .ended calm d' (.ok ()) := by
    unfold recoverState
    rw [bind_ok (look_calm _)]
    cases htext : d.transaction with
    | none => exact ⟨d, rfl⟩
    | some text =>
      obtain ⟨t, ht, hcurrent, hprevious⟩ := h.transaction text htext
      obtain ⟨data, hdata, _, _⟩ := hcurrent.line
      dsimp only
      rw [readTransaction_ok ht hcurrent hprevious, bind_ok (check_apply (.ok t) calm)]
      obtain ⟨content, hreplay⟩ := replayPrevious_calm (d := d) hprevious
      rw [bind_ok hreplay, bind_ok (writeJSONAtomic_calm hdata), bind_ok (change_calm _ _)]
      exact ⟨_, change_calm _ _⟩
  obtain ⟨d', hd'⟩ := hgoes
  have hend := wp_recoverState (A := fun _ _ => True) (C := fun _ => True)
    (Q := fun _ d' => d.Recovers json d' ∧ d'.transaction = none)
    (E := fun _ _ => True) h (fun _ _ => trivial)
    (fun _ hd hnone => ⟨hd, hnone⟩) (fun _ _ _ => trivial) calm
    fun _ _ => trivial
  rw [hd'] at hend
  exact ⟨d', hd', hend.2⟩

theorem load_calm (content : Disk → Option (List UInt8))
    (component : Option StoredRelease × Option StoredRelease → Option StoredRelease)
    (hholds : ∀ d' : Disk, d'.Sound json → json.Holds (content d'))
    (hcontent : ∀ d' : Disk, component (json.release? d'.current, json.release? d'.previous)
        = json.release? (content d')) : ∃ d', (recoverState json >>= fun _ =>
        loadReleaseFile json content true) calm d
        = .ended calm d' (found (component (d.state json)))
      ∧ d.Recovers json d' := by
  obtain ⟨d', hrecover, hd, hnone⟩ := recoverState_calm h
  refine ⟨d', ?_, hd⟩
  rw [bind_ok hrecover]
  unfold loadReleaseFile
  rw [bind_ok (look_calm _), check_apply,
    readRelease_of_holds (hholds d' hd.sound), ← hcontent, ← hd.state, Disk.state_of_none hnone]

theorem loadCurrent_calm :
    ∃ d', loadCurrent json calm d = .ended calm d' (found (d.state json).1) ∧ d.Recovers json d' :=
  load_calm h (·.current) Prod.fst (fun _ hd => hd.current) fun _ => rfl

theorem loadPrevious_calm :
    ∃ d', loadPrevious json calm d = .ended calm d' (found (d.state json).2) ∧ d.Recovers json d' :=
  load_calm h (·.previous) Prod.snd (fun _ hd => hd.previous) fun _ => rfl

end Releases

/-- What `LoadCurrent` and then `LoadPrevious` answer. -/
def Disk.returned (json : Formats) (d : Disk) : Option (Except Failure StoredRelease)
      × Option (Except Failure StoredRelease) :=
  ((loadCurrent json).answer d, (loadPrevious json).answer ((loadCurrent json).leaves calm d))

theorem Disk.returned_eq {json : Formats} {d : Disk} (h : d.Sound json) :
    d.returned json = (some (found (d.state json).1), some (found (d.state json).2)) := by
  obtain ⟨d', hcurrent, hd⟩ := loadCurrent_calm h
  obtain ⟨d'', hprevious, _⟩ := loadPrevious_calm hd.sound
  unfold Disk.returned Proc.answer Proc.leaves
  rw [hcurrent]
  rw [hprevious, hd.state]

theorem found_eq_ok {release? : Option StoredRelease} {release : StoredRelease} :
    some (found release?) = some (.ok release) ↔ release? = some release := by
  cases release? with
  | none => simp [found]
  | some release' => simp [found]

-- ======== calls

/-- The calls of the store, one of which commits. -/
inductive Call where
  | commitSuccess (release : StoredRelease)
  | saveValidated (release : StoredRelease)
  | loadCurrent
  | loadPrevious
  | loadTarget (targetID : String)

/-- What a call leaves, however it goes. -/
def Call.step (json : Formats) (d : Disk) (c : Call × Ahead Device) : Disk :=
  match c.1 with
  | .commitSuccess release => (Release.commitSuccess json release).leaves c.2 d
  | .saveValidated release => (Release.saveValidated json release).leaves c.2 d
  | .loadCurrent => (Release.loadCurrent json).leaves c.2 d
  | .loadPrevious => (Release.loadPrevious json).leaves c.2 d
  | .loadTarget targetID => (Release.loadTarget json targetID).leaves c.2 d

/-- The release a call commits. -/
def Call.committed : Call → Option StoredRelease
  | .commitSuccess release => some release
  | _ => none

section Calls

variable {json : Formats} {d : Disk}

theorem Disk.Recovers.leaves {α : Type} {p : Procedure α} (ahead : Ahead Device)
    (h : wp (fun _ _ => True) p (d.Recovers json)
      (fun _ => d.Recovers json) (fun _ => d.Recovers json) d) :
    d.Recovers json (p.leaves ahead d) := wp.leaves h fun _ _ => trivial

variable (h : d.Sound json)

include h

/-- One call keeps the pair, or rotates it. -/
theorem Call.step_state (c : Call × Ahead Device) :
    (Call.step json d c).Sound json ∧ ((Call.step json d c).state json = d.state json
        ∨ ∃ release, c.1.committed = some release ∧ (Call.step json d c).state json
            = (some release, (d.state json).1)) := by
  obtain ⟨call, ahead⟩ := c
  cases call with
  | commitSuccess release =>
    obtain ⟨hsound, hstate⟩ : d.Commits json release
        (Call.step json d (.commitSuccess release, ahead)) :=
      wp.leaves (wp_commitSuccess (A := fun _ _ => True) h) fun _ _ => trivial
    exact ⟨hsound, hstate.imp_right fun hs => ⟨release, rfl, hs⟩⟩
  | saveValidated release =>
    have hsame : d.SameState (Call.step json d (.saveValidated release, ahead)) :=
      wp.leaves (wp_saveValidated (A := fun _ _ => True)) fun _ _ => trivial
    exact ⟨hsame.sound h, Or.inl hsame.state⟩
  | loadCurrent =>
    have hd := Disk.Recovers.leaves ahead (wp_loadCurrent h)
    exact ⟨hd.sound, Or.inl hd.state⟩
  | loadPrevious =>
    have hd := Disk.Recovers.leaves ahead (wp_loadPrevious h)
    exact ⟨hd.sound, Or.inl hd.state⟩
  | loadTarget targetID =>
    have hd := Disk.Recovers.leaves ahead (wp_loadTarget h targetID)
    exact ⟨hd.sound, Or.inl hd.state⟩

theorem run_sound (calls : List (Call × Ahead Device)) :
    (run (Call.step json) d calls).Sound json := run_invariant (I := Disk.Sound json)
    (fun _ c hd => (Call.step_state hd c).1) h calls

theorem run_loads {calls : List (Call × Ahead Device)}
    (hcalls : ∀ c ∈ calls, c.1.committed = none) :
    (run (Call.step json) d calls).state json = d.state json := by
  induction calls generalizing d with
  | nil => rfl
  | cons c calls ih =>
    obtain ⟨hsound, hstate⟩ := Call.step_state h c
    have hkeeps : (Call.step json d c).state json = d.state json := by
      rcases hstate with hstate | ⟨release, hrelease, _⟩
      · exact hstate
      · rw [hcalls c List.mem_cons_self] at hrelease
        cases hrelease
    exact (ih hsound fun c' hc' => hcalls c' (List.mem_cons_of_mem c hc')).trans hkeeps

/-- A release of the pair was in the first one, or was committed. -/
theorem run_committed (calls : List (Call × Ahead Device)) {release : StoredRelease}
    (hrelease : ((run (Call.step json) d calls).state json).1 = some release
      ∨ ((run (Call.step json) d calls).state json).2 = some release) :
    (d.state json).1 = some release ∨ (d.state json).2 = some release
      ∨ ∃ c ∈ calls, c.1.committed = some release := by
  induction calls generalizing d with
  | nil => exact hrelease.imp_right Or.inl
  | cons c calls ih =>
    obtain ⟨hsound, hstate⟩ := Call.step_state h c
    rcases ih hsound hrelease with h1 | h2 | ⟨c', hc', hcommitted⟩
    · rcases hstate with hstate | ⟨release', hc, hstate⟩
      · rw [hstate] at h1
        exact Or.inl h1
      · rw [hstate] at h1
        exact Or.inr (Or.inr ⟨c, List.mem_cons_self, hc.trans h1⟩)
    · rcases hstate with hstate | ⟨release', hc, hstate⟩
      · rw [hstate] at h2
        exact Or.inr (Or.inl h2)
      · rw [hstate] at h2
        exact Or.inl h2
    · exact Or.inr (Or.inr ⟨c', List.mem_cons_of_mem c hc', hcommitted⟩)

end Calls

/-- The state changes as a whole, whatever happens to the calls. -/
theorem commit_crash_atomic (json : Formats) (d₀ : Disk) (h₀ : d₀.Sound json)
    (calls : List (Call × Ahead Device)) (release : StoredRelease) (ahead : Ahead Device) :
    let d := run (Call.step json) d₀ calls
    let d' := (commitSuccess json release).leaves ahead d
    (d'.returned json = d.returned json
        ∨ d'.returned json
          = (some (.ok release), (d.returned json).1))
      ∧ (∀ loads : List (Call × Ahead Device),
        (∀ c ∈ loads, c.1.committed = none) →
          (run (Call.step json) d' loads).returned json = d'.returned json)
      ∧ ∀ release', (d'.returned json).1 = some (.ok release')
          ∨ (d'.returned json).2 = some (.ok release') →
        (d₀.returned json).1 = some (.ok release')
          ∨ (d₀.returned json).2 = some (.ok release')
          ∨ (∃ c ∈ calls, c.1.committed = some release')
          ∨ release' = release := by
  intro d d'
  have hd : d.Sound json := run_sound h₀ calls
  obtain ⟨hsound, hstate⟩ : d'.Sound json ∧ (d'.state json = d.state json ∨ ∃ release',
        some release = some release' ∧ d'.state json = (some release', (d.state json).1)) :=
    Call.step_state hd (.commitSuccess release, ahead)
  refine ⟨?_, fun loads hloads => ?_, fun release' hrelease => ?_⟩
  · rw [Disk.returned_eq hsound, Disk.returned_eq hd]
    rcases hstate with hstate | ⟨release', heq, hstate⟩
    · rw [hstate]
      exact Or.inl rfl
    · rw [hstate, ← heq]
      exact Or.inr rfl
  · rw [Disk.returned_eq (run_sound hsound loads), Disk.returned_eq hsound, run_loads hsound hloads]
  · rw [Disk.returned_eq hsound, found_eq_ok, found_eq_ok] at hrelease
    rw [Disk.returned_eq h₀, found_eq_ok, found_eq_ok]
    have hrun : d' = run (Call.step json) d₀ (calls ++ [(.commitSuccess release, ahead)]) := by
      rw [run_append]
      rfl
    rw [hrun] at hrelease
    rcases run_committed h₀ _ hrelease with h1 | h2 | ⟨c, hc, hcommitted⟩
    · exact Or.inl h1
    · exact Or.inr (Or.inl h2)
    · rcases List.mem_append.mp hc with hc | hc
      · exact Or.inr (Or.inr (Or.inl ⟨c, hc, hcommitted⟩))
      · obtain rfl := List.mem_singleton.mp hc
        exact Or.inr (Or.inr (Or.inr (Option.some.inj hcommitted).symm))

-- ======== sample

/-- The image of a sample. -/
def sampleImage (name : String) (c : Char) : String :=
  String.ofList ("ghcr.io/o/yunling-".toList ++ name.toList
    ++ "@sha256:".toList ++ List.replicate 64 c)

/-- A digest made of one character. -/
def sampleDigest (n : Nat) (c : Char) : String :=
  String.ofList (List.replicate n c)

/-- A release whose digests are made of one character. -/
def sampleRelease (targetID : String) (c : Char) : StoredRelease :=
  { targetID, origin := .ghcr, sourceSHA := sampleDigest 40 c
    images := ⟨sampleImage "services" c, sampleImage "services" c,
      sampleImage "web" c, sampleImage "ops" c⟩
    compatibility := ⟨sampleDigest 64 'a', sampleDigest 64 'a', "1.0", sampleDigest 64 'a'⟩
    successfulAt := ⟨1, 0⟩, validated := true }

theorem sampleDigest_toList (n : Nat) (c : Char) :
    (sampleDigest n c).toList = List.replicate n c := String.toList_ofList

theorem sampleImage_parse {name : String} {c : Char}
    (hname : name = "services" ∨ name = "web" ∨ name = "ops") (hc : c = 'a' ∨ c = 'b') :
    parseStoredGHCRImage (sampleImage name c) = some ("o", name) := by
  have htext : parseStoredGHCRImage (sampleImage name c)
      = ghcrStoredImagePattern ("ghcr.io/o/yunling-".toList ++ name.toList
        ++ "@sha256:".toList ++ List.replicate 64 c) :=
    congrArg ghcrStoredImagePattern String.toList_ofList
  rcases hname with rfl | rfl | rfl <;> rcases hc with rfl | rfl <;> decide

theorem sampleRelease_valid {targetID : String} {c : Char}
    (htarget : targetIDPattern targetID = true) (hc : c = 'a' ∨ c = 'b') :
    validateStoredRelease (sampleRelease targetID c) true = .ok () := by
  refine validateStoredRelease_ghcr rfl ?_ rfl htarget ?_ ?_
  · simp only [validCompatibility, sampleRelease, lowerHex64Pattern, sampleDigest_toList]
    decide
  · simp only [sampleRelease, lowerHex40Pattern, sampleDigest_toList]
    rcases hc with rfl | rfl <;> decide
  · unfold validGHCRImages sampleRelease
    rw [sampleImage_parse (Or.inl rfl) hc, sampleImage_parse (Or.inr (Or.inl rfl)) hc,
      sampleImage_parse (Or.inr (Or.inr rfl)) hc]
    simp

/-- The release that runs, and one to come. -/
def firstRelease : StoredRelease := sampleRelease "101" 'a'

def secondRelease : StoredRelease := sampleRelease "102" 'b'

/-- Texts for the releases of a list. -/
def Formats.ofList (releases : List StoredRelease) : Formats where
  release := .ofList StoredRelease.kept_kept releases
  transaction := .ofList StateTransaction.kept_kept (releases.flatMap fun current =>
      (none :: releases.map some).map fun previous => ⟨current, previous⟩)
  journal := by
    intro t hcurrent hprevious
    rw [Codec.ofList_marshal_iff] at hcurrent ⊢
    obtain ⟨current, hmem, hc⟩ := List.mem_map.mp hcurrent
    obtain ⟨previous, hmem', hp⟩ : ∃ previous ∈ none :: releases.map some,
        previous.map StoredRelease.kept = t.previous.map StoredRelease.kept := by
      cases hprev : t.previous with
      | none => exact ⟨none, List.mem_cons_self, rfl⟩
      | some release =>
        have hrelease := hprevious release hprev
        rw [Codec.ofList_marshal_iff] at hrelease
        obtain ⟨previous, hmem', hp⟩ := List.mem_map.mp hrelease
        exact ⟨some previous, List.mem_cons_of_mem _ (List.mem_map_of_mem hmem'), congrArg some hp⟩
    refine List.mem_map.mpr ⟨⟨current, previous⟩, ?_, ?_⟩
    · exact List.mem_flatMap.mpr ⟨current, hmem, List.mem_map_of_mem hmem'⟩
    · unfold StateTransaction.kept
      rw [hc, hp]

/-- Texts for the two releases, and for the candidates they were. -/
def sampleFormats : Formats :=
  .ofList [firstRelease, secondRelease,
    { firstRelease with successfulAt := .zero },
    { secondRelease with successfulAt := .zero }]

/-- The first release runs, the second is saved. -/
def sampleDisk : Disk where
  current := sampleFormats.release.marshalLine firstRelease
  previous := none
  transaction := none
  histories := ⟨[("101", ⟨sampleFormats.release.marshalLine
      { firstRelease with successfulAt := .zero }, sampleFormats.release.marshalLine firstRelease⟩),
    ("102", ⟨sampleFormats.release.marshalLine
      { secondRelease with successfulAt := .zero }, none⟩)], by decide⟩
  writing := none

theorem firstRelease_stores : sampleFormats.Stores firstRelease :=
  ⟨sampleRelease_valid (by decide) (Or.inl rfl),
    Codec.ofList_marshal StoredRelease.kept_kept List.mem_cons_self⟩

theorem secondRelease_stores : sampleFormats.Stores secondRelease :=
  ⟨sampleRelease_valid (by decide) (Or.inr rfl), Codec.ofList_marshal StoredRelease.kept_kept
      (List.mem_cons_of_mem _ List.mem_cons_self)⟩

theorem sampleDisk_sound : sampleDisk.Sound sampleFormats := by
  obtain ⟨data, hdata, hholds, _⟩ := firstRelease_stores.line
  exact ⟨show sampleFormats.Holds (sampleFormats.release.marshalLine firstRelease) from
    hdata ▸ hholds, Formats.holds_none, fun _ h => by cases h⟩

/-- The commit is cut off when it has written the journal. -/
theorem commit_crash_atomic_journal :
    let d' := (commitSuccess sampleFormats secondRelease).leaves
      (fun k _ => if k = .state then none else some .done) sampleDisk
    d'.returned sampleFormats
        = (some (.ok firstRelease), some (.error .notExist))
      ∨ d'.returned sampleFormats
        = (some (.ok secondRelease), some (.ok firstRelease)) := by
  have h := (commit_crash_atomic sampleFormats sampleDisk sampleDisk_sound [] secondRelease
    (fun k _ => if k = .state then none else some .done)).1
  exact h

end Yunling.Release
