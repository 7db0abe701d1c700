/-
The record of a success when the power goes.

`successful.json` is the one file that is written in place. When the
power goes before it is synchronised, what is left of it may be any
beginning of the text: no load of the release gets past it, and no commit
of the release goes through again. `record_survives` says when this may
happen, for `CommitSuccess` and for `CreateBootstrap`.

# Ready

A release is `Ready` on a disk when everything `CommitSuccess` looks at
is in order: undisturbed calls then go well (`Ready.loadTarget`,
`Ready.commitSuccess`). However a commit is cut off, it leaves the
release ready whatever is lost (`Safe`), or a record that may be torn
(`Tears`).
-/
import Yunling.Release.Proofs.Commit

namespace Yunling.Release

open Crash Relational

/-- The record of a release has a content, and nothing else that a commit
looks at differs. -/
structure Disk.Records (targetID : String) (content : List UInt8) (d d' : Disk) : Prop where
  same : d.SameState d'
  manifest : d'.manifest targetID = d.manifest targetID
  success : d'.success targetID = some content

/-- The manifest is there, and it is that of the release. -/
def Disk.Verified (json : Formats) (release : StoredRelease) (d : Disk) : Prop :=
  ∃ validated, readRelease json (d.manifest release.targetID) false = .ok validated
      ∧ sameReleaseIdentity validated release = true

/-- Everything is in order for a commit. -/
structure Disk.Ready (json : Formats) (release : StoredRelease) (d : Disk) : Prop where
  sound : d.Sound json
  manifest : d.Verified json release
  success : ∀ existing, d.success release.targetID = some existing →
    ∃ recorded, json.release.unmarshal existing = some recorded
      ∧ sameReleaseIdentity recorded release = true ∧ validateStoredRelease recorded true = .ok ()

section Record

variable {json : Formats} {release : StoredRelease} {d d' d'' : Disk}
  {content content' : List UInt8} {targetID : String} {base : List UInt8} {existing : List UInt8}

theorem Disk.Records.trans (h : d.Records targetID content d')
    (h' : d'.Records targetID content' d'') : d.Records targetID content' d'' :=
  ⟨h.same.trans h'.same, h'.manifest.trans h.manifest, h'.success⟩

theorem Disk.setSuccess_records (d : Disk) (targetID : String) (content : List UInt8) :
    d.Records targetID content (d.setSuccess targetID content) :=
  ⟨⟨rfl, rfl, rfl⟩, d.manifest_set targetID _, d.success_set targetID _⟩

/-- A record that was just created. -/
theorem Disk.pending_records (d : Disk) (targetID : String) :
    d.Records targetID [] ((d.pending targetID false).setSuccess targetID []) :=
  ⟨⟨rfl, rfl, rfl⟩, d.manifest_set targetID _, d.success_set targetID _⟩

theorem Disk.Verified.congr (h : d.Verified json release) (hmanifest : d'.manifest release.targetID
      = d.manifest release.targetID) : d'.Verified json release := by
  unfold Disk.Verified
  rw [hmanifest]
  exact h

/-- The release stays ready when the state files go on. -/
theorem Disk.Ready.beside (h : d.Ready json release)
    (hsound : d'.Sound json) (hbeside : d.Beside d') : d'.Ready json release :=
  ⟨hsound, h.manifest.congr (hbeside.manifest _), hbeside.success _ ▸ h.success⟩

/-- A record that says everything leaves the release ready. -/
theorem Disk.Ready.records (h : d.Ready json release) (hstores : json.Stores release)
    (hrecords : d.Records release.targetID content d')
    (hread : json.release.unmarshal content = some release.kept) : d'.Ready json release := by
  refine ⟨hrecords.same.sound h.sound, h.manifest.congr hrecords.manifest,
    fun existing hexisting => ?_⟩
  cases hrecords.success.symm.trans hexisting
  exact ⟨_, hread, sameReleaseIdentity_refl release, hstores.valid⟩

theorem Disk.Verified.manifest_isSome (h : d.Verified json release) :
    (d.manifest release.targetID).isSome := by
  obtain ⟨validated, hread, _⟩ := h
  cases hm : d.manifest release.targetID with
  | none =>
    rw [hm] at hread
    cases hread
  | some _ => rfl

theorem Disk.Verified.history (h : d.Verified json release) :
    ∃ history, d.histories.get? release.targetID = some history := by
  have hsome := h.manifest_isSome
  unfold Disk.manifest at hsome
  cases hh : d.histories.get? release.targetID with
  | none => simp [hh] at hsome
  | some history => exact ⟨history, rfl⟩

-- ======== undisturbed

/-- What a load of the release may answer. -/
def Loads (release : StoredRelease) : Except Failure StoredRelease → Prop
  | .ok loaded => sameReleaseIdentity loaded release = true
  | .error .releaseNotSuccessful | .error .releaseNotFound => True
  | .error _ => False

/-- What a load of a target answers after the recovery. -/
theorem loadTarget_calm (hsound : d.Sound json) (htarget : validTargetID targetID = true) :
    (loadTarget json targetID).answer d = some
      (match readRelease json (d.success targetID) true with
        | .ok release => .ok release
        | .error .notExist =>
          if (d.manifest targetID).isSome then .error .releaseNotSuccessful
          else .error .releaseNotFound
        | .error e => .error e) := by
  obtain ⟨d', hrecover, hd, _⟩ := recoverState_calm hsound
  refine answer_eq calm d' ?_
  unfold loadTarget
  rw [if_pos htarget, bind_ok hrecover, bind_ok (look_calm _), hd.beside.success]
  cases readRelease json (d.success targetID) true with
  | ok release => rfl
  | error e =>
    cases e with
    | notExist =>
      dsimp only
      rw [bind_ok (look_calm _), hd.beside.manifest]
      split <;> rfl
    | _ => rfl

theorem Disk.Ready.loadTarget (h : d.Ready json release)
    (htarget : validTargetID release.targetID = true) :
    ∃ result, (loadTarget json release.targetID).answer d = some result ∧ Loads release result := by
  refine ⟨_, loadTarget_calm h.sound htarget, ?_⟩
  cases hsuccess : d.success release.targetID with
  | none =>
    simp only [readRelease, h.manifest.manifest_isSome, if_true]
    trivial
  | some existing =>
    obtain ⟨recorded, hread, hsame, hvalid⟩ := h.success existing hsuccess
    simp only [readRelease, hread, hvalid]
    exact hsame

/-- A torn record is all a load of the release gets to see. -/
theorem Disk.Records.loadTarget (h : d.Sound json) (hrecords : d.Records targetID content d')
    (htarget : validTargetID targetID = true) (htorn : json.release.unmarshal content = none) :
    (loadTarget json targetID).answer d' = some (.error (.wrapped "解析发布状态" .decode)) := by
  rw [loadTarget_calm (hrecords.same.sound h) htarget, hrecords.success]
  simp only [readRelease, htorn]

/-- The current release is found, or that there is none. -/
theorem Disk.Sound.currentRead (h : d.Sound json) (hnone : d.transaction = none) :
    optional (readRelease json d.current true) = .ok (d.state json).1 := by
  rw [readRelease_of_holds h.current, Disk.state_of_none hnone]
  cases json.release? d.current <;> rfl

/-- There is a text for the journal of a commit. -/
theorem Disk.Sound.journalLine (h : d.Sound json)
    (hnone : d.transaction = none) (hstores : json.Stores release) :
    ∃ data, json.transaction.marshalLine ⟨release, (d.state json).1⟩ = some data := by
  have htext : (json.transaction.marshal ⟨release, (d.state json).1⟩).isSome := by
    refine json.journal _ hstores.text fun previous hp => ?_
    rw [Disk.state_of_none hnone] at hp
    exact (h.current.stores hp).text
  obtain ⟨text, htext⟩ := Option.isSome_iff_exists.mp htext
  exact ⟨text ++ [10], Codec.marshalLine_of_text htext⟩

theorem commitState_calm (h : d.Sound json) (hstores : json.Stores release) :
    ∃ d', commitState json release calm d = .ended calm d' (.ok ()) := by
  obtain ⟨d', hrecover, hd, hnone⟩ := recoverState_calm h
  obtain ⟨data, hdata⟩ := hd.sound.journalLine hnone hstores
  obtain ⟨hsound, _⟩ := hd.sound.journal hstores hnone hdata
  obtain ⟨d'', hrecover', _, _⟩ := recoverState_calm hsound
  refine ⟨d'', ?_⟩
  unfold commitState
  rw [bind_ok hrecover, bind_ok (look_calm _),
    hd.sound.currentRead hnone, bind_ok (check_apply _ calm), bind_ok (writeJSONAtomic_calm hdata)]
  exact hrecover'

-- ======== bytes

theorem appendSuccess_done {ahead : Ahead Device}
    {byte : UInt8} (hbase : d.success targetID = some base) (h : ahead .append 0 = some .done) :
    appendSuccess targetID byte ahead d = .ended (ahead.skip .append 1)
        (d.setSuccess targetID (base ++ [byte])) (.ok ()) := by
  have hop : appendSuccess targetID byte ahead d
      = .ended (ahead.skip .append 1) (d.setSuccess targetID
        ((d.success targetID).getD [] ++ [byte])) (.ok ()) := change_done _ h
  rw [hop, hbase]
  rfl

theorem appends_first (targetID : String) : ∀ {n : Nat} (data : List UInt8) {base : List UInt8}
      (ahead : Ahead Device) {d : Disk}, d.success targetID = some base → n ≤ data.length →
      (∀ i < n, ahead .append i = some .done) →
      ∃ d', data.forM (appendSuccess targetID) ahead d
          = (data.drop n).forM (appendSuccess targetID) (ahead.skip .append n) d'
        ∧ d.Records targetID (base ++ data.take n) d' ∧ d'.writing = d.writing := by
  intro n
  induction n with
  | zero =>
    intro data base ahead d hbase _ _
    refine ⟨d, by rw [Ahead.skip_zero, List.drop_zero], ⟨⟨rfl, rfl, rfl⟩, rfl, ?_⟩, rfl⟩
    rw [List.take_zero, List.append_nil]
    exact hbase
  | succ n ih =>
    intro data base ahead d hbase hn hdone
    cases data with
    | nil => cases hn
    | cons byte data =>
      have hrecords := d.setSuccess_records targetID (base ++ [byte])
      obtain ⟨d', hrest, hd', hwriting⟩ := ih data (ahead.skip .append 1) hrecords.success
        (Nat.le_of_succ_le_succ hn) (fun i hi => by
          exact hdone (i + 1) (Nat.succ_lt_succ hi))
      rw [Ahead.skip_skip] at hrest
      refine ⟨d', (bind_ok (appendSuccess_done hbase (hdone 0 n.succ_pos))).trans hrest, ?_,
        hwriting⟩
      have := hrecords.trans hd'
      rwa [List.append_assoc] at this

theorem appends_done (targetID : String) (data : List UInt8)
    (ahead : Ahead Device) (hbase : d.success targetID = some base)
    (hdone : ∀ i < data.length, ahead .append i = some .done) :
    ∃ d', data.forM (appendSuccess targetID) ahead d
        = .ended (ahead.skip .append data.length) d' (.ok ())
      ∧ d.Records targetID (base ++ data) d' ∧ d'.writing = d.writing := by
  obtain ⟨d', hrest, hd'⟩ := appends_first targetID data ahead hbase (Nat.le_refl _) hdone
  rw [List.drop_length] at hrest
  rw [List.take_length] at hd'
  exact ⟨d', hrest, hd'⟩

/-- The bytes of a record are written up to the point where the call is
cut off. -/
theorem appends_cut (targetID : String) {n : Nat} (data : List UInt8)
    (ahead : Ahead Device) (hbase : d.success targetID = some base) (hn : n < data.length)
    (hdone : ∀ i < n, ahead .append i = some .done) (hnone : ahead .append n = none) :
    ∃ d', data.forM (appendSuccess targetID) ahead d = .cut d'
      ∧ d.Records targetID (base ++ data.take n) d' ∧ d'.writing = d.writing := by
  obtain ⟨d', hrest, hd'⟩ := appends_first targetID data ahead hbase (Nat.le_of_lt hn) hdone
  rw [List.drop_eq_getElem_cons hn] at hrest
  refine ⟨d', hrest.trans (bind_cut (change_cut _ ?_)), hd'⟩
  rw [Ahead.skip_self, Nat.zero_add, hnone]

theorem Disk.Verified.openSuccess_new (h : d.Verified json release)
    (hnone : d.success release.targetID = none) :
    d.openSuccess release.targetID
      = (.ok true, (d.pending release.targetID false).setSuccess release.targetID []) := by
  obtain ⟨history, hhistory⟩ := h.history
  unfold Disk.success at hnone
  unfold Disk.openSuccess
  rw [hhistory] at hnone ⊢
  dsimp only [Option.bind_some] at hnone ⊢
  rw [hnone]
  rfl

theorem Disk.openSuccess_old (hsome : d.success targetID = some existing) :
    d.openSuccess targetID = (.ok false, d) := by
  obtain ⟨history, hhistory, hsuccess⟩ := Option.bind_eq_some_iff.mp hsome
  unfold Disk.openSuccess
  rw [hhistory]
  dsimp only
  rw [hsuccess]
  rfl

theorem Disk.Ready.agrees (h : d.Ready json release) (data : List UInt8)
    (hsome : d.success release.targetID = some existing) :
    recordAgrees json release data existing = true := by
  obtain ⟨recorded, hread, hsame, _⟩ := h.success existing hsome
  unfold recordAgrees
  rw [hread, Option.any_some, hsame, Bool.or_true]

/-- An undisturbed commit of a release that is ready goes through. -/
theorem Disk.Ready.commitSuccess (h : d.Ready json release) (hstores : json.Stores release)
    (hvalidated : release.validated = true) :
    (commitSuccess json release).answer d = some (.ok ()) := by
  obtain ⟨validated, hread, hsame⟩ := h.manifest
  obtain ⟨data, hdata, _, _⟩ := hstores.line
  have hwrite : ∃ d', writeSuccess json release calm d
      = .ended calm d' (.ok ()) ∧ d'.Sound json := by
    unfold writeSuccess
    rw [bind_ok (marshalJSONLine_apply hdata calm)]
    have hop := op_calm (k := Device.record) (e := Failure.io) (s := d)
      (Disk.openSuccess release.targetID)
    unfold writeRecord
    cases hsuccess : d.success release.targetID with
    | none =>
      have hopen := h.manifest.openSuccess_new hsuccess
      obtain ⟨d', hended, hd', _⟩ := appends_done release.targetID data
        calm (d.pending_records release.targetID).success
        fun _ _ => rfl
      rw [calm_skip] at hended
      have hsound : d'.Sound json :=
        ((d.pending_records release.targetID).trans hd').same.sound h.sound
      refine ⟨{ d' with writing := none }, ?_, { hsound with }⟩
      rw [hopen] at hop
      rw [bind_ok hop, if_pos rfl, bind_ok hended, bind_ok (change_calm _ _)]
      exact change_calm _ _
    | some existing =>
      have hopen := Disk.openSuccess_old hsuccess
      refine ⟨d, ?_, h.sound⟩
      rw [hopen] at hop
      rw [bind_ok hop, if_neg (by simp), bind_ok (attempt_ended (look_calm _)), hsuccess]
      dsimp only
      rw [if_pos (h.agrees data hsuccess)]
      rfl
  obtain ⟨d', hwrite, hsound⟩ := hwrite
  obtain ⟨d'', hcommit⟩ := commitState_calm hsound hstores
  refine answer_eq calm d'' ?_
  unfold Release.commitSuccess
  rw [if_pos hvalidated, hstores.valid, bind_ok (check_apply _ calm), bind_ok (look_calm _), hread]
  dsimp only [commitVerified]
  rw [if_pos hsame, bind_ok hwrite]
  exact hcommit

-- ======== power loss

/-- The power goes before the new record is synchronised. -/
def Unsynced (targetID : String) (data : List UInt8) (ahead : Ahead Device) (d : Disk) : Prop :=
  d.success targetID = none ∧ ahead .record 0 = some .done
    ∧ ((∃ n < data.length, ahead .append n = none) ∨ ahead .sync 0 = none)

/-- The release is ready, and no record would be torn by a power loss. -/
structure Disk.Safe (json : Formats) (release : StoredRelease) (d : Disk) : Prop where
  ready : d.Ready json release
  synced : ∀ targetID, d.writing ≠ some (targetID, false)

/-- Whether a record is being written does not matter to a commit. -/
theorem Disk.Ready.writing (h : d.Ready json release) (w : Option (String × Bool)) :
    Disk.Ready json release { d with writing := w } :=
  ⟨{ h.sound with }, h.manifest, h.success⟩

/-- What a power loss leaves. -/
theorem Disk.Safe.loses (h : d.Safe json release) (hloses : d.Loses d') :
    d'.Ready json release := by
  cases hloses with
  | nothing => exact h.ready.writing none
  | entry targetID synced pending =>
    by_cases heq : targetID = release.targetID
    · subst heq
      refine ⟨{ h.ready.sound with }, h.ready.manifest.congr (d.manifest_set _ _),
        fun existing hexisting => ?_⟩
      cases (d.success_set release.targetID ⟨_, none⟩).symm.trans hexisting
    · have hget : (d.histories.set targetID ⟨d.manifest targetID, none⟩).get? release.targetID
          = d.histories.get? release.targetID := by
        rw [Hash.get?_set, if_neg (Ne.symm heq)]
      refine ⟨{ h.ready.sound with }, h.ready.manifest.congr ?_, fun existing hexisting => ?_⟩
      · exact congrArg (·.bind (·.manifest)) hget
      · exact h.ready.success existing
          ((congrArg (·.bind (·.success)) hget).symm.trans hexisting)
  | content targetID n pending => exact absurd pending (h.synced targetID)

/-- A new record is written, but not synchronised. -/
def Disk.Tears (targetID : String) (data : List UInt8) (d d' : Disk) : Prop :=
  ∃ n, d.Records targetID (data.take n) d' ∧ d'.writing = some (targetID, false)

/-- A power loss may then leave none of it. -/
theorem Disk.Tears.loses {data : List UInt8} (h : d.Tears targetID data d') :
    ∃ d'', d'.Loses d'' ∧ d.Records targetID [] d'' := by
  obtain ⟨n, hrecords, hwriting⟩ := h
  refine ⟨_, .content targetID 0 hwriting, ?_⟩
  have hempty := hrecords.trans (d'.setSuccess_records targetID
    (((d'.success targetID).getD []).take 0))
  exact ⟨{ hempty.same with }, hempty.manifest, hempty.success⟩

/-- The release stays ready, or its record may be torn. -/
def Disk.Left (json : Formats) (release : StoredRelease) (data : List UInt8) (unsynced : Prop)
    (d d' : Disk) : Prop :=
  (unsynced → d.Tears release.targetID data d') ∧ (¬ unsynced → d'.Safe json release)

theorem Disk.Safe.commitState (h : d.Safe json release)
    (hstores : json.Stores release) (hvalidated : release.validated = true) :
    wp OnlyCut (commitState json release) (·.Safe json release)
      (fun _ => (·.Safe json release)) (fun _ => (·.Safe json release))
      d := by
  have hloaded : release.loaded = release := by
    unfold StoredRelease.loaded
    rw [← hvalidated]
  have hbeside : ∀ d', d.Commits json release d' → d.Beside d' → d'.Safe json release :=
    fun d' hd hb => ⟨h.ready.beside hd.sound hb, hb.writing ▸ h.synced⟩
  exact wp_commitState h.ready.sound hstores hloaded hbeside hbeside fun _ => hbeside

section Cuts

variable {data : List UInt8} {ahead : Ahead Device}

theorem Unsynced.skip {k : Device} (hk : k ≠ .record) (hk' : k ≠ .append) (hk'' : k ≠ .sync)
    (m : Nat) : Unsynced targetID data (ahead.skip k m) d ↔ Unsynced targetID data ahead d := by
  unfold Unsynced
  simp only [Ahead.skip_of_ne hk.symm, Ahead.skip_of_ne hk'.symm, Ahead.skip_of_ne hk''.symm]

/-- The record is new: its bytes are written to an empty file. -/
theorem Disk.Ready.writeSuccess_new (h : d.Ready json release)
    (hdata : json.release.marshalLine release = some data)
    (hnew : d.success release.targetID = none)
    (hrecord : ahead .record 0 = some .done) :
    writeSuccess json release ahead d = (do
      data.forM (appendSuccess release.targetID)
      change .sync (·.pending release.targetID true)
      change .close fun d => { d with writing := none }) (ahead.skip .record 1)
        ((d.pending release.targetID false).setSuccess release.targetID []) := by
  have hop := op_done (e := Failure.io) (s := d) (Disk.openSuccess release.targetID) hrecord
  rw [h.manifest.openSuccess_new hnew] at hop
  unfold writeSuccess
  rw [bind_ok (marshalJSONLine_apply hdata ahead)]
  unfold writeRecord
  rw [bind_ok hop, if_pos rfl]

variable (h : d.Safe json release) (hdata : json.release.marshalLine release = some data)
  (hahead : Meets OnlyCut ahead)

include h hdata hahead

/-- All bytes of a new record are written: the call comes to the
synchronisation. -/
theorem Disk.Safe.writeSuccess_appended (hnew : d.success release.targetID = none)
    (hrecord : ahead .record 0 = some .done) (hall : ∀ n < data.length, ahead .append n ≠ none) :
    ∃ d', writeSuccess json release ahead d = (do
        change .sync (·.pending release.targetID true)
        change .close fun d => { d with writing := none })
          ((ahead.skip .record 1).skip .append data.length) d'
      ∧ d.Records release.targetID data d' ∧ d'.writing = some (release.targetID, false) := by
  have hdone : ∀ i < data.length, (ahead.skip .record 1) .append i = some .done := by
    intro i hi
    rw [Ahead.skip_of_ne (by simp)]
    cases hf : ahead .append i with
    | none => exact absurd hf (hall i hi)
    | some f => rw [hahead.done hf]
  have hopen := d.pending_records release.targetID
  obtain ⟨d', hended, hd', hwriting⟩ := appends_done release.targetID data _ hopen.success hdone
  refine ⟨d', ?_, hopen.trans hd', hwriting⟩
  rw [h.ready.writeSuccess_new hdata hnew hrecord, bind_ok hended]

/-- The call is cut off before the new record is synchronised. -/
theorem Disk.Safe.writeSuccess_cut (hunsynced : Unsynced release.targetID data ahead d) :
    ∃ d', writeSuccess json release ahead d = .cut d' ∧ d.Tears release.targetID data d' := by
  obtain ⟨hnew, hrecord, hcut⟩ := hunsynced
  by_cases hall : ∀ n < data.length, ahead .append n ≠ none
  · -- at the synchronisation itself
    have hsync : ahead .sync 0 = none := hcut.resolve_left fun ⟨n, hn, hnone⟩ => hall n hn hnone
    obtain ⟨d', hd', hrecords, hwriting⟩ :=
      h.writeSuccess_appended hdata hahead hnew hrecord hall
    refine ⟨d', hd'.trans (bind_cut (change_cut _ ?_)), data.length, ?_, hwriting⟩
    · simpa [Ahead.skip_of_ne] using hsync
    · rwa [List.take_length]
  · -- at one of the bytes
    obtain ⟨m, hm, hnone⟩ : ∃ m < data.length, ahead .append m = none := by
      by_contra hnot
      exact hall fun n hn hnone => hnot ⟨n, hn, hnone⟩
    obtain ⟨n, hn, hnone, hdone⟩ := hahead.until_cut hnone
    have hopen := d.pending_records release.targetID
    obtain ⟨d', hcut, hd', hwriting⟩ := appends_cut release.targetID data
      (ahead.skip .record 1) hopen.success (show n < data.length by omega)
      (fun i hi => by rw [Ahead.skip_of_ne (by simp)]; exact hdone i hi)
      (by rw [Ahead.skip_of_ne (by simp)]; exact hnone)
    refine ⟨d', ?_, n, hopen.trans hd', hwriting⟩
    rw [h.ready.writeSuccess_new hdata hnew hrecord, bind_cut hcut]

variable (hstores : json.Stores release)

include hstores

/-- A call that is cut off, but not before a new record is synchronised,
leaves the release ready, and so does one that is not cut off. -/
theorem Disk.Safe.writeSuccess (hnot : ¬ Unsynced release.targetID data ahead d) :
    ∃ d', d'.Safe json release ∧ (writeSuccess json release ahead d = .cut d'
      ∨ ∃ ahead', Meets OnlyCut ahead'
        ∧ writeSuccess json release ahead d = .ended ahead' d' (.ok ())) := by
  cases hrecord : ahead .record 0 with
  | none =>
    refine ⟨d, h, Or.inl ?_⟩
    unfold Release.writeSuccess
    rw [bind_ok (marshalJSONLine_apply hdata ahead)]
    exact bind_cut (op_cut _ hrecord)
  | some fate =>
    obtain rfl : fate = .done := hahead.done hrecord
    cases hsuccess : d.success release.targetID with
    | none =>
      have hall : ∀ n < data.length, ahead .append n ≠ none :=
        fun n hn hnone => hnot ⟨hsuccess, hrecord, Or.inl ⟨n, hn, hnone⟩⟩
      obtain ⟨d', hd', hrecords, -⟩ :=
        h.writeSuccess_appended hdata hahead hsuccess hrecord hall
      have hready := h.ready.records hstores hrecords (Codec.unmarshal_marshalLine hdata)
      have hmeets := (hahead.skip .record 1).skip .append data.length
      have hsync : ((ahead.skip .record 1).skip .append data.length) .sync 0 = some .done := by
        cases hs : ahead .sync 0 with
        | none => exact absurd ⟨hsuccess, hrecord, Or.inr hs⟩ hnot
        | some f =>
          obtain rfl : f = .done := hahead.done hs
          simpa [Ahead.skip_of_ne] using hs
      rw [hd', bind_ok (change_done _ hsync)]
      have hmeets' := hmeets.skip .sync 1
      cases hclose : (((ahead.skip .record 1).skip .append data.length).skip .sync 1) .close 0 with
      | none =>
        exact ⟨_, ⟨hready.writing _, fun _ heq => by cases heq⟩, Or.inl (change_cut _ hclose)⟩
      | some f =>
        obtain rfl : f = .done := hmeets'.done hclose
        exact ⟨_, ⟨hready.writing _, fun _ heq => by cases heq⟩,
          Or.inr ⟨_, hmeets'.skip .close 1, change_done _ hclose⟩⟩
    | some existing =>
      refine ⟨d, h, ?_⟩
      have hop := op_done (e := Failure.io) (s := d) (Disk.openSuccess release.targetID) hrecord
      rw [Disk.openSuccess_old hsuccess] at hop
      unfold Release.writeSuccess
      rw [bind_ok (marshalJSONLine_apply hdata ahead)]
      unfold writeRecord
      rw [bind_ok hop, if_neg (by simp)]
      cases hread : (ahead.skip .record 1) .read 0 with
      | none =>
        refine Or.inl (bind_cut ?_)
        unfold Proc.attempt
        rw [look_cut _ hread]
      | some f =>
        have hmeets := hahead.skip .record 1
        obtain rfl : f = .done := hmeets.done hread
        refine Or.inr ⟨_, hmeets.skip .read 1, ?_⟩
        rw [bind_ok (attempt_ended (look_done _ hread)), hsuccess]
        dsimp only
        rw [if_pos (h.ready.agrees data hsuccess)]
        rfl

/-- What is left when the record, and then the rest, is cut off. -/
theorem Disk.Safe.leaves {α : Type} (rest : Unit → Procedure α)
    (hrest : ∀ d', d'.Safe json release → wp OnlyCut (rest ()) (·.Safe json release)
        (fun _ => (·.Safe json release)) (fun _ => (·.Safe json release)) d') :
    d.Left json release data (Unsynced release.targetID data ahead d)
      ((Release.writeSuccess json release >>= rest).leaves ahead d) := by
  constructor
  · intro hunsynced
    obtain ⟨d', hd', htears⟩ := h.writeSuccess_cut hdata hahead hunsynced
    rw [leaves_cut (bind_cut hd')]
    exact htears
  · intro hnot
    obtain ⟨d', hsafe, hd' | ⟨ahead', hmeets, hd'⟩⟩ := h.writeSuccess hdata hahead hstores hnot
    · rw [leaves_cut (bind_cut hd')]
      exact hsafe
    have hleaves : (Release.writeSuccess json release >>= rest).leaves
        ahead d = (rest ()).leaves ahead' d' := by
      unfold Proc.leaves
      rw [bind_ok hd']
    rw [hleaves]
    exact (hrest d' hsafe).leaves hmeets

end Cuts

end Record

/-- After a power loss: the release can be loaded as it may, and it can be
committed again. -/
def Disk.Recoverable (json : Formats) (release : StoredRelease) (d : Disk) : Prop :=
  (∃ result, (loadTarget json release.targetID).answer d = some result ∧ Loads release result)
    ∧ (commitSuccess json release).answer d = some (.ok ())

/-- Whatever a power loss leaves of the disk, the release is in order. -/
def Disk.Survives (json : Formats) (release : StoredRelease) (d : Disk) : Prop :=
  ∀ d', d.Loses d' → d'.Recoverable json release

section Survival

variable {json : Formats} {release : StoredRelease} {d d' : Disk}
  {data : List UInt8} {ahead : Ahead Device}

theorem commitSuccess_start (hvalid : validateStoredRelease release true = .ok ())
    (hvalidated : release.validated = true) : commitSuccess json release ahead d = (do
          commitVerified json release (readRelease json
            (← look (·.manifest release.targetID)) false)) ahead d := by
  unfold commitSuccess
  rw [if_pos hvalidated, hvalid, bind_ok (check_apply _ ahead)]

/-- Of an empty record a load of the release gets an error. -/
theorem Disk.Records.loadTarget_empty (hstores : json.Stores release)
    (hdata : json.release.marshalLine release = some data) (h : d.Sound json)
    (hrecords : d.Records release.targetID [] d') :
    (Release.loadTarget json release.targetID).answer d'
      = some (.error (.wrapped "解析发布状态" .decode)) := by
  refine hrecords.loadTarget h (validTargetID_of_valid hstores.valid) ?_
  have hlength := Codec.length_marshalLine hdata
  have hnone := Codec.unmarshal_take hdata 0
  rwa [if_neg (by omega)] at hnone

section Committed

variable (hstores : json.Stores release) (hvalidated : release.validated = true)

include hstores hvalidated

theorem Disk.Ready.recoverable (h : d.Ready json release) : d.Recoverable json release :=
  ⟨h.loadTarget (validTargetID_of_valid hstores.valid), h.commitSuccess hstores hvalidated⟩

/-- A release that is not saved cannot be committed. -/
theorem not_survives_of_unsaved (hnone : d.histories.get? release.targetID = none) :
    ¬ d.Survives json release := by
  intro hsurvives
  obtain ⟨-, hcommit⟩ := hsurvives _ .nothing
  have hanswer : (commitSuccess json release).answer { d with writing := none }
      = some (.error (.wrapped "读取已验证候选" .notExist)) := by
    refine answer_eq calm { d with writing := none } ?_
    unfold commitSuccess
    rw [if_pos hvalidated, hstores.valid, bind_ok (check_apply _ calm), bind_ok (look_calm _)]
    unfold Disk.manifest
    rw [hnone]
    rfl
  rw [hanswer] at hcommit
  cases hcommit

theorem Disk.Safe.survives (h : d.Safe json release) : d.Survives json release :=
  fun _ hloses => (h.loses hloses).recoverable hstores hvalidated

variable (hdata : json.release.marshalLine release = some data)

include hdata

theorem Disk.Left.survives_iff {unsynced : Prop} (h : d.Sound json)
    (hleft : d.Left json release data unsynced d') :
    d'.Survives json release ↔ ¬ unsynced := by
  refine ⟨fun hsurvives hunsynced => ?_, fun hnot => (hleft.2 hnot).survives hstores hvalidated⟩
  obtain ⟨d'', hloses, hrecords⟩ := (hleft.1 hunsynced).loses
  obtain ⟨⟨result, hanswer, hloads⟩, -⟩ := hsurvives d'' hloses
  rw [hrecords.loadTarget_empty hstores hdata h] at hanswer
  cases hanswer
  exact hloads

/-- An empty record is taken for that of another release. -/
theorem Disk.Records.commitSuccess (h : d.Ready json release)
    (hrecords : d.Records release.targetID [] d') :
    (commitSuccess json release).answer d' = some (.error .releaseExists) := by
  obtain ⟨validated, hread, hsame⟩ := h.manifest
  have hlength := Codec.length_marshalLine hdata
  have hagrees : recordAgrees json release data [] = false := by
    have hnone := Codec.unmarshal_take hdata 0
    rw [if_neg (by omega), List.take_zero] at hnone
    unfold recordAgrees
    rw [hnone, Option.any_none, Bool.or_false, beq_eq_false_iff_ne]
    rintro rfl
    cases hlength
  have hop := op_calm (k := Device.record) (e := Failure.io) (s := d')
    (Disk.openSuccess release.targetID)
  rw [Disk.openSuccess_old hrecords.success] at hop
  have hwrite : writeSuccess json release calm d' = .ended calm d' (.error .releaseExists) := by
    unfold writeSuccess
    rw [bind_ok (marshalJSONLine_apply hdata calm)]
    unfold writeRecord
    rw [bind_ok hop, if_neg (by simp), bind_ok (attempt_ended (look_calm _)), hrecords.success]
    dsimp only
    rw [hagrees]
    rfl
  refine answer_eq calm d' ?_
  unfold Release.commitSuccess
  rw [if_pos hvalidated, hstores.valid, bind_ok (check_apply _ calm),
    bind_ok (look_calm _), hrecords.manifest, hread]
  dsimp only [commitVerified]
  rw [if_pos hsame]
  exact bind_error hwrite

variable (hahead : Meets OnlyCut ahead) (h : d.Safe json release)

include hahead h

/-- What is left of a commit that gets to see the manifest. -/
theorem Disk.Safe.commitSuccess_leaves (hread : ahead .read 0 = some .done) :
    d.Left json release data (Unsynced release.targetID data ahead d)
      ((Release.commitSuccess json release).leaves ahead d) := by
  obtain ⟨validated, hmanifest, hsame⟩ := h.ready.manifest
  have hleaves : (Release.commitSuccess json release).leaves ahead d = (do
          Release.writeSuccess json release
          Release.commitState json release).leaves
        (ahead.skip .read 1) d := by
    unfold Proc.leaves
    rw [commitSuccess_start hstores.valid hvalidated, bind_ok (look_done _ hread), hmanifest]
    dsimp only [commitVerified]
    rw [if_pos hsame]
  rw [hleaves, ← Unsynced.skip (show Device.read ≠ .record by simp)
    (show Device.read ≠ .append by simp) (show Device.read ≠ .sync by simp) 1]
  exact h.leaves hdata (hahead.skip .read 1) hstores (fun _ => Release.commitState json release)
    fun d' hd' => hd'.commitState hstores hvalidated

theorem commitSuccess_survives :
    ((commitSuccess json release).leaves ahead d).Survives json release
      ↔ ¬ (ahead .read 0 = some .done ∧ Unsynced release.targetID data ahead d) := by
  cases hread : ahead .read 0 with
  | none =>
    have hleaves : (commitSuccess json release).leaves ahead d = d :=
      leaves_cut ((commitSuccess_start hstores.valid hvalidated).trans
        (bind_cut (look_cut _ hread)))
    rw [hleaves]
    exact iff_of_true (h.survives hstores hvalidated) fun hc => by
      cases hc.1
  | some f =>
    obtain rfl : f = .done := hahead.done hread
    rw [(h.commitSuccess_leaves hstores hvalidated hdata hahead hread).survives_iff
      hstores hvalidated hdata h.ready.sound]
    simp

end Committed

/-- A release that has just been saved is ready. -/
theorem Disk.Sound.saved (h : d.Sound json) (hstores : json.Stores release)
    (hdata : json.release.marshalLine release = some data) : Disk.Ready json release { d with
      histories := d.histories.set release.targetID ⟨some data, none⟩ } := by
  refine ⟨⟨h.current, h.previous, h.transaction⟩, ⟨release.loaded, ?_,
    sameReleaseIdentity_refl release⟩, fun existing hexisting => ?_⟩
  · rw [Disk.manifest_set]
    simp only [readRelease, Codec.unmarshal_marshalLine hdata,
      validateStoredRelease_kept, validateStoredRelease_success hstores.valid]
    rfl
  · rw [Disk.success_set] at hexisting
    cases hexisting

/-- A candidate that was saved has its manifest. -/
theorem Disk.Verified.of_history {success : Option (List UInt8)}
    (hvalid : validateStoredRelease release true = .ok ()) (htext : (json.release.marshal
      { release with successfulAt := .zero }).isSome) (hhistory : d.histories.get? release.targetID
      = some ⟨json.release.marshalLine
        { release with successfulAt := .zero }, success⟩) : d.Verified json release := by
  obtain ⟨text, htext⟩ := Option.isSome_iff_exists.mp htext
  have hmanifest : d.manifest release.targetID = some (text ++ [10]) := by
    unfold Disk.manifest
    rw [hhistory, Option.bind_some, Codec.marshalLine_of_text htext]
  refine ⟨{ release with successfulAt := .zero, validated := true },
    ?_, sameReleaseIdentity_successfulAt release .zero true⟩
  rw [hmanifest]
  simp only [readRelease, json.release.line htext,
    validateStoredRelease_kept, validateStoredRelease_candidate hvalid]
  rfl

/-- A candidate that was saved is ready. -/
theorem Disk.Sound.candidate (h : d.Sound json)
    (hvalid : validateStoredRelease release true = .ok ()) (htext : (json.release.marshal
      { release with successfulAt := .zero }).isSome) (hhistory : d.histories.get? release.targetID
      = some ⟨json.release.marshalLine
        { release with successfulAt := .zero }, none⟩) : d.Ready json release := by
  refine ⟨h, .of_history hvalid htext hhistory, fun existing hexisting => ?_⟩
  unfold Disk.success at hexisting
  rw [hhistory] at hexisting
  cases hexisting

theorem createBootstrap_survives {images : ServiceImages} {compatibility : Compatibility}
    {successfulAt : Time} (hrelease : bootstrapRelease images compatibility successfulAt = release)
    (hstores : json.Stores release) (hdata : json.release.marshalLine release = some data)
    (hahead : Meets OnlyCut ahead) (h : d.Sound json) (hidle : d.writing = none)
    (hunsaved : d.histories.get? release.targetID = none) :
    ((createBootstrap json images compatibility successfulAt).leaves
        ahead d).Survives json release
      ↔ ahead .read 0 = some .done ∧ ahead .history 0 = some .done
        ∧ ¬ Unsynced release.targetID data ahead d := by
  have hvalidated : release.validated = true := by
    rw [← hrelease]
    rfl
  have hsuccess : d.success release.targetID = none := by
    unfold Disk.success
    rw [hunsaved]
    rfl
  have hstart : createBootstrap json images compatibility successfulAt ahead d = (do
          saveHistory json release
          writeSuccess json release
          commitState json release
          pure release) ahead d := by
    unfold createBootstrap
    rw [hrelease, hstores.valid, bind_ok (check_apply _ ahead)]
  cases hread : ahead .read 0 with
  | none =>
    have hleaves : (createBootstrap json images compatibility successfulAt).leaves ahead d = d := by
      refine leaves_cut (hstart.trans (bind_cut ?_))
      exact bind_cut (look_cut _ hread)
    rw [hleaves]
    exact iff_of_false (not_survives_of_unsaved hstores hvalidated
      hunsaved) fun hc => by cases hc.1
  | some f =>
    obtain rfl : f = .done := hahead.done hread
    have hsave : saveHistory json release ahead d = change .history (fun d => { d with
            histories := d.histories.set release.targetID
              ⟨some data, none⟩ }) (ahead.skip .read 1) d := by
      unfold saveHistory
      rw [bind_ok (look_done _ hread), hunsaved]
      exact bind_ok (marshalJSONLine_apply hdata _)
    have hskip : (ahead.skip .read 1) .history 0 = ahead .history 0 :=
      Ahead.skip_of_ne (by simp) 1 0
    cases hhistory : ahead .history 0 with
    | none =>
      have hleaves : (createBootstrap json images compatibility successfulAt).leaves ahead d = d :=
        leaves_cut (hstart.trans (bind_cut (hsave.trans (change_cut _ (hskip.trans hhistory)))))
      rw [hleaves]
      exact iff_of_false (not_survives_of_unsaved hstores hvalidated
        hunsaved) fun hc => by cases hc.2.1
    | some f =>
      obtain rfl : f = .done := hahead.done hhistory
      have hready := h.saved hstores hdata
      have hsafe : Disk.Safe json release { d with
          histories := d.histories.set release.targetID ⟨some data, none⟩ } :=
        ⟨hready, fun _ heq => by cases hidle.symm.trans heq⟩
      have hleaves : (createBootstrap json images compatibility successfulAt).leaves ahead d = (do
              writeSuccess json release
              commitState json release
              pure release).leaves
            ((ahead.skip .read 1).skip .history 1) { d with
              histories := d.histories.set release.targetID ⟨some data, none⟩ } := by
        unfold Proc.leaves
        rw [hstart, bind_ok (hsave.trans (change_done _ (hskip.trans hhistory)))]
      have hleft := hsafe.leaves hdata ((hahead.skip .read 1).skip .history 1) hstores
        (fun _ => do
          commitState json release
          pure release)
        fun d' hd' => wp_bind ((hd'.commitState hstores
          hvalidated).mono (fun _ hd => hd) (fun _ _ hd => wp_pure hd) fun _ _ hd => hd)
      rw [Unsynced.skip (by simp) (by simp) (by simp),
        Unsynced.skip (by simp) (by simp) (by simp)] at hleft
      have hsame : ∀ d' : Disk, d'.success release.targetID = none →
          (Unsynced release.targetID data ahead d' ↔ Unsynced release.targetID data ahead d) := by
        intro d' hd'
        unfold Unsynced
        rw [hd', hsuccess]
      rw [hsame _ (d.success_set _ _)] at hleft
      rw [hleaves, hleft.survives_iff hstores hvalidated hdata hready.sound]
      simp

end Survival

/-- A power loss leaves the release in order, whatever it leaves of the
bytes that were not synchronised, unless it comes after a new record is
created and before its synchronisation has returned; a first release must
have been saved. -/
theorem record_survives (json : Formats) (ahead : Ahead Device) (hahead : Meets OnlyCut ahead) :
    (∀ (release : StoredRelease) (data : List UInt8) (d : Disk),
      json.Stores release → release.validated = true →
      json.release.marshalLine release = some data → d.Ready json release → d.writing = none →
        (((commitSuccess json release).leaves ahead d).Survives json release
          ↔ ¬ (ahead .read 0 = some .done ∧ Unsynced release.targetID data ahead d)))
    ∧ ∀ (images : ServiceImages) (compatibility : Compatibility)
        (successfulAt : Time) (data : List UInt8) (d : Disk),
      json.Stores (bootstrapRelease images compatibility successfulAt) → json.release.marshalLine
        (bootstrapRelease images compatibility successfulAt) = some data →
      d.Sound json → d.writing = none → d.histories.get? "bootstrap" = none →
        (((createBootstrap json images compatibility successfulAt).leaves ahead d).Survives json
              (bootstrapRelease images compatibility successfulAt)
          ↔ ahead .read 0 = some .done ∧ ahead .history 0 = some .done
            ∧ ¬ Unsynced "bootstrap" data ahead d) := by
  refine ⟨fun release data d hstores hvalidated hdata hready hidle => ?_,
    fun _ _ _ _ _ hstores hdata hsound hidle hunsaved => ?_⟩
  · exact commitSuccess_survives hstores hvalidated hdata hahead
      ⟨hready, fun _ heq => by cases hidle.symm.trans heq⟩
  · exact createBootstrap_survives rfl hstores hdata hahead hsound hidle hunsaved

-- ======== sample

/-- Everything is done, but no operation of one kind. -/
def cutAt (device : Device) : Ahead Device :=
  fun k _ => if k = device then none else some .done

theorem cutAt_meets (device : Device) : Meets OnlyCut (cutAt device) := by
  intro k n
  unfold cutAt
  split
  · exact Or.inl rfl
  · exact Or.inr rfl

theorem secondRelease_history : sampleDisk.histories.get? secondRelease.targetID
      = some ⟨sampleFormats.release.marshalLine
        { secondRelease with successfulAt := .zero }, none⟩ :=
  Hash.get?_eq_some.mpr (List.mem_cons_of_mem _ List.mem_cons_self)

theorem secondRelease_success : sampleDisk.success secondRelease.targetID = none := by
  unfold Disk.success
  rfl

theorem secondRelease_ready : sampleDisk.Ready sampleFormats secondRelease :=
  sampleDisk_sound.candidate secondRelease_stores.valid
    (Codec.ofList_marshal StoredRelease.kept_kept (by simp)) secondRelease_history

theorem secondRelease_safe : sampleDisk.Safe sampleFormats secondRelease :=
  ⟨secondRelease_ready, fun _ heq => by cases heq⟩

/-- The power goes after the journal is written. -/
theorem record_survives_journal : ((commitSuccess sampleFormats secondRelease).leaves (cutAt .state)
      sampleDisk).Survives sampleFormats secondRelease := by
  obtain ⟨data, hdata, _, _⟩ := secondRelease_stores.line
  refine ((record_survives sampleFormats (cutAt .state)
    (cutAt_meets .state)).1 secondRelease data sampleDisk
    secondRelease_stores rfl hdata secondRelease_ready rfl).mpr ?_
  rintro ⟨-, -, -, ⟨n, -, hnone⟩ | hnone⟩
  · cases hnone
  · cases hnone

/-- The power goes when all bytes of the record have been written, before
they are synchronised, and leaves an empty record: the release can
neither be loaded nor committed any more. -/
theorem cut_record_blocks :
    sampleDisk.Ready sampleFormats secondRelease
      ∧ ∃ d, ((commitSuccess sampleFormats secondRelease).leaves (cutAt .sync) sampleDisk).Loses d
        ∧ (loadTarget sampleFormats secondRelease.targetID).answer d
          = some (.error (.wrapped "解析发布状态" .decode))
        ∧ (commitSuccess sampleFormats secondRelease).answer d = some (.error .releaseExists) := by
  obtain ⟨data, hdata, _, _⟩ := secondRelease_stores.line
  have hunsynced : Unsynced secondRelease.targetID data (cutAt .sync) sampleDisk :=
    ⟨secondRelease_success, rfl, Or.inr rfl⟩
  obtain ⟨d, hloses, hrecords⟩ := ((secondRelease_safe.commitSuccess_leaves
    secondRelease_stores rfl hdata (cutAt_meets .sync) rfl).1 hunsynced).loses
  exact ⟨secondRelease_ready, d, hloses,
    hrecords.loadTarget_empty secondRelease_stores hdata sampleDisk_sound,
    hrecords.commitSuccess secondRelease_stores rfl hdata secondRelease_ready⟩

end Yunling.Release
