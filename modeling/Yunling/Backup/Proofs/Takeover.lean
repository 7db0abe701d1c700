/-
Taking over a backup run whose worker is gone.

A run that was interrupted before its local snapshot is recorded starts
over when it is claimed again: it exports anew and calls `restic backup`
once more. The snapshot is looked up by the run's tag, and exactly one is
asked for. So what decides is whether an earlier attempt had got as far
as `restic backup`: then the second snapshot makes two, and the run is
failed for good.

# Histories

`Interrupts` is an attempt at the run after which no local snapshot is
recorded; whatever failed or wherever it was cut off. It leaves the COS
repository alone, since nothing is copied before the record. The attempt
that takes over is undisturbed, and is followed step by step (the `_calm`
lemmas).
-/
import Yunling.Backup.Service
import Yunling.Lib.Transition

namespace Yunling.Backup

open Relational Crash Transition

-- ======== rows

namespace BackupRuns

variable {t t' : BackupRuns} {id : String}

theorem mark_eq_ok {t : BackupRuns} {row : BackupRun} (mark : Mark) (hrow : t.find? id = some row)
    (hvalid : mark.valid = true) (hguard : mark.guard row = true) :
    ∃ t' : BackupRuns, t.mark id mark = .ok t' ∧ t'.find? id = some (mark.write row) := by
  have hkey := (t.find?_eq_some.mp hrow).2
  refine ⟨t.update (fun r => decide (r.id = id) && mark.guard r) mark.write mark.write_id, ?_, ?_⟩
  · unfold BackupRuns.mark transition
    rw [if_pos hvalid, hrow]
    exact if_pos hguard
  · rw [Table.find?_update, hrow, Option.map_some, Table.amend_pos (by simp [hkey, hguard])]

theorem of_mark_eq_ok {mark : Mark} (h : t.mark id mark = .ok t') :
    ∃ row, t.find? id = some row ∧ mark.valid = true ∧ t'.find? id = some (mark.write row) := by
  have hok := h
  unfold BackupRuns.mark transition at h
  split at h
  case isFalse => cases h
  next hvalid =>
  split at h
  case h_2 => cases h
  next row hrow =>
  split at h
  case isFalse => cases h
  next hguard =>
  obtain ⟨t'', ht'', hfind⟩ := mark_eq_ok mark hrow hvalid hguard
  cases hok.symm.trans ht''
  exact ⟨row, hrow, hvalid, hfind⟩

theorem claim_find? {now lease : Int} {locked : String → Bool} {run : BackupRun}
    (h : t.claim now lease locked = .ok (t', some run)) : ∃ row, t.find? run.id = some row
      ∧ run = row.claimed now (now + lease) ∧ t'.find? run.id = some run := by
  obtain ⟨row, hrow, -, hrun, rfl⟩ := claimRow_eq_some h
  refine ⟨row, hrow, hrun, ?_⟩
  have hkey := (t.find?_eq_some.mp hrow).2
  rw [Table.find?_update, hrow, Option.map_some, Table.amend_pos (by simpa using hkey), hrun]

end BackupRuns

-- ======== undisturbed runs

section Calm

variable {cfg : Config} {a : Attempt} {s : Site} {id message : String} {runs : BackupRuns}
  {repository : Site → Repository} {s' : Site} {listing : BackupOp} {run : BackupRun} {α : Type}
  {step : Run α}

theorem command_calm (op : BackupOp) (text : String) :
    command op text calm s = .ended calm s (.ok ()) := write_calm _

theorem alert_calm : alert calm s = .ended calm s (.ok ()) := by
  unfold alert
  rw [bind_ok (attempt_ended (command_calm _ _))]
  rfl

theorem markRun_calm {op : BackupOp} {mark : Mark} (h : s.runs.mark id mark = .ok runs) :
    markRun op id mark calm s = .ended calm { s with runs } (.ok ()) := by
  unfold markRun
  rw [op_calm, h]

theorem orFail_ok {value : α} (h : step calm s = .ended calm s' (.ok value)) :
    orFail a id message step calm s = .ended calm s' (.ok value) := by
  unfold orFail
  rw [bind_ok (attempt_ended h)]
  rfl

theorem orFail_error {e : BackupError} (h : step calm s = .ended calm s' (.error e))
    (hmark : s'.runs.mark id (.failed message a.markAt) = .ok runs) :
    orFail a id message step calm s = .ended calm { s' with runs }
        (.error (.failed message e)) := by
  unfold orFail
  rw [bind_ok (attempt_ended h)]
  dsimp only
  unfold failRun
  rw [bind_ok (attempt_ended (markRun_calm hmark))]
  dsimp only
  rw [bind_ok alert_calm]
  rfl

/-- The dump is of one migration version. -/
def Attempt.Versioned (a : Attempt) : Prop :=
  1 ≤ a.versionBefore ∧ a.versionAfter = a.versionBefore

theorem readMigrationVersion_calm {version : Int} (h : 1 ≤ version) :
    readMigrationVersion version calm s = .ended calm s (.ok version) := by
  unfold readMigrationVersion
  rw [bind_ok (command_calm _ _), if_neg (by omega)]
  rfl

theorem exportRun_calm (h : a.Versioned) :
    exportRun cfg a id calm s = .ended calm s (.ok (staging cfg.root id)) := by
  have hafter : 1 ≤ a.versionAfter := by rw [h.2]; exact h.1
  unfold exportRun
  rw [bind_ok (command_calm _ _), bind_ok (command_calm _ _),
    bind_ok (readMigrationVersion_calm h.1), bind_ok (command_calm _ _),
    bind_ok (readMigrationVersion_calm hafter), if_neg (by simp [h.2]),
    bind_ok (command_calm _ _), bind_ok (command_calm _ _), bind_ok (command_calm _ _)]
  rfl

/-- After `restic cat config` and `restic init` there is a
repository. -/
theorem ensureRepository_calm {config init : BackupOp} {initialise : Site → Site}
    {checkText initText : String} (hready : (repository s).initialised = true → s' = s)
    (hnew : (repository s).initialised = false → s' = initialise s) :
    ensureRepository config init repository initialise checkText initText
      calm s = .ended calm s' (.ok ()) := by
  unfold ensureRepository
  rw [bind_ok (read_calm_ok _)]
  cases hinit : (repository s).initialised with
  | true =>
    rw [hready hinit]
    rfl
  | false =>
    rw [hnew hinit]
    exact write_calm _

theorem Repository.init_eq_self {r : Repository} (h : r.initialised = true) : r.init = r := by
  unfold Repository.init
  rw [← h]

/-- One snapshot with the run's tag is the answer. -/
theorem onlySnapshot_ok {listText countText snapshotID : String}
    (h : (repository s).tagged (runTag id) = [snapshotID]) (hid : blank snapshotID = false) :
    onlySnapshot listing repository id listText countText calm s
      = .ended calm s (.ok snapshotID) := by
  unfold onlySnapshot
  rw [bind_ok (read_calm_ok _), h]
  dsimp only
  rw [if_neg (by simp [hid])]
  rfl

theorem onlySnapshot_error {listText countText : String}
    (h : 2 ≤ ((repository s).tagged (runTag id)).length) :
    onlySnapshot listing repository id listText countText calm s
      = .ended calm s (.error (.command countText)) := by
  unfold onlySnapshot
  rw [bind_ok (read_calm_ok _)]
  match (repository s).tagged (runTag id), h with
  | _ :: _ :: _, _ => rfl

theorem Repository.tagged_add (r : Repository) (snapshot : Snapshot) (tag : String) :
    (r.add snapshot).tagged tag
      = r.tagged tag ++ if snapshot.tag = tag then [snapshot.id] else [] := by
  unfold Repository.add Repository.tagged
  by_cases h : snapshot.tag = tag
  · simp [h]
  · simp [h]

/-- The local repository with the snapshot of an attempt. -/
abbrev Site.snapped (s : Site) (cfg : Config) (a : Attempt) (id : String) : Repository :=
  s.localRepo.init.add (a.snapshot cfg (staging cfg.root id) id)

theorem tagged_snapped (s : Site) (cfg : Config) (a : Attempt) (id : String) :
    (s.snapped cfg a id).tagged (runTag id) = s.localRepo.tagged (runTag id) ++ [a.localID] := by
  have htag : (a.snapshot cfg (staging cfg.root id) id).tag = runTag id :=
    rfl
  rw [Repository.tagged_add, if_pos htag]
  rfl

/-- The first snapshot with the run's tag is taken. -/
theorem snapshotLocal_ok (hnone : s.localRepo.tagged (runTag id) = [])
    (hid : blank a.localID = false) : snapshotLocal cfg a (staging cfg.root id) id calm s
      = .ended calm { s with localRepo := s.snapped cfg a id } (.ok a.localID) := by
  unfold snapshotLocal
  rw [bind_ok (ensureRepository_calm (fun h => by rw [Repository.init_eq_self h]) fun _ => rfl),
    bind_ok (write_calm _), bind_ok (onlySnapshot_ok ?_ hid), bind_ok (command_calm _ _)]
  · rfl
  · exact (tagged_snapped s cfg a id).trans (by rw [hnone]; rfl)

theorem snapshotLocal_error (hsome : s.localRepo.tagged (runTag id) ≠ []) :
    snapshotLocal cfg a (staging cfg.root id) id calm s
      = .ended calm { s with localRepo := s.snapped cfg a id } (.error (.command "本机快照数量异常")) := by
  unfold snapshotLocal
  rw [bind_ok (ensureRepository_calm (fun h => by rw [Repository.init_eq_self h]) fun _ => rfl),
    bind_ok (write_calm _), bind_error (onlySnapshot_error ?_)]
  · rw [tagged_snapped s cfg a id, List.length_append]
    have := List.length_pos_iff.mpr hsome
    simp only [List.length_singleton]
    omega

/-- Nothing stands in the way of an attempt: there is room, one migration
version, and a manifest, and restic draws new ids. -/
structure Attempt.Unhindered (a : Attempt) (s : Site) : Prop where
  space : hasEnoughSpace a.available (latestBytes s.runs) = true
  versioned : a.Versioned
  manifest : a.manifestSHA256 ≠ "" ∧ 0 ≤ a.byteSize ∧ 0 ≤ a.objectCount
  localID : blank a.localID = false
  cosID : blank a.cosID = false
  newLocal : ∀ snapshot ∈ s.localRepo.snapshots, snapshot.id ≠ a.localID
  newCOS : ∀ snapshot ∈ s.cosRepo.snapshots, snapshot.original ≠ some a.localID

theorem ne_empty_of_not_blank {value : String} (h : blank value = false) : value ≠ "" := by
  rintro rfl
  cases h

theorem Attempt.Unhindered.valid (h : a.Unhindered s) :
    (Mark.localSnapshot (a.result a.localID)).valid = true := by
  have hid := ne_empty_of_not_blank h.localID
  simp [Mark.valid, Attempt.result, hid, h.manifest]

theorem latestSuccessfulBytes_calm :
    latestSuccessfulBytes calm s = .ended calm s (.ok (latestBytes s.runs)) := read_calm_ok _

theorem takeSnapshot_ok (ha : a.Unhindered s) (hnone : s.localRepo.tagged (runTag id) = [])
    (hmark : s.runs.mark id (.localSnapshot (a.result a.localID)) = .ok runs) :
    takeSnapshot cfg a id calm s = .ended calm { s with
          runs, localRepo := s.snapped cfg a id }
        (.ok a.localID) := by
  unfold takeSnapshot
  rw [bind_ok (orFail_ok latestSuccessfulBytes_calm),
    bind_ok (orFail_ok (command_calm _ _)), if_pos ha.space,
    bind_ok (orFail_ok (exportRun_calm ha.versioned)),
    bind_ok (orFail_ok (snapshotLocal_ok hnone ha.localID)),
    bind_ok (markRun_calm (s := { s with localRepo := s.snapped cfg a id })
      hmark), bind_ok (attempt_ended (command_calm _ _))]
  rfl

theorem takeSnapshot_error (ha : a.Unhindered s) (hsome : s.localRepo.tagged (runTag id) ≠ [])
    (hmark : s.runs.mark id (.failed "生成本机快照失败" a.markAt) = .ok runs) :
    ∃ e, takeSnapshot cfg a id calm s = .ended calm { s with
          runs, localRepo := s.snapped cfg a id } (.error e) := by
  unfold takeSnapshot
  rw [bind_ok (orFail_ok latestSuccessfulBytes_calm),
    bind_ok (orFail_ok (command_calm _ _)), if_pos ha.space,
    bind_ok (orFail_ok (exportRun_calm ha.versioned)),
    bind_error (orFail_error (snapshotLocal_error hsome) hmark)]
  exact ⟨_, rfl⟩

/-- The COS repository with the copy of the snapshot of an attempt. -/
abbrev Site.copied (s : Site) (cfg : Config) (a : Attempt) (id : String) : Repository :=
  s.cosRepo.init.add
    { a.snapshot cfg (staging cfg.root id) id with
      id := a.cosID, original := some a.localID }

theorem tagged_copied (s : Site) (cfg : Config) (a : Attempt) (id : String) :
    (s.copied cfg a id).tagged (runTag id) = s.cosRepo.tagged (runTag id) ++ [a.cosID] :=
  (Repository.tagged_add _ _ _).trans (congrArg _ (if_pos rfl))

theorem copyToCOS_ok (ha : a.Unhindered s)
    (hnone : s.cosRepo.tagged (runTag id) = []) (runs : BackupRuns) : copyToCOS a a.localID id calm
        ⟨runs, s.snapped cfg a id, s.cosRepo⟩
      = .ended calm ⟨runs, s.snapped cfg a id, s.copied cfg a id⟩ (.ok a.cosID) := by
  have hsource : (s.snapped cfg a id).snapshots.find?
      (fun snapshot => decide (snapshot.id = a.localID))
        = some (a.snapshot cfg (staging cfg.root id) id) := by
    show (s.localRepo.snapshots ++ [a.snapshot cfg (staging cfg.root id) id]).find? _ = _
    rw [List.find?_append, List.find?_eq_none.mpr]
    · simp [Attempt.snapshot]
    · intro snapshot hmem
      simpa using ha.newLocal snapshot hmem
  have hcopy : s.cosRepo.init.copy (a.snapshot cfg (staging cfg.root id) id) a.cosID
        = s.copied cfg a id := by
    unfold Repository.copy
    rw [if_neg]
    · rfl
    · simp only [List.any_eq_true, decide_eq_true_eq, not_exists, not_and]
      exact ha.newCOS
  have hcopied : copySnapshot a a.localID calm ⟨runs, s.snapped cfg a id, s.cosRepo.init⟩
        = .ended calm ⟨runs, s.snapped cfg a id, s.copied cfg a id⟩ (.ok ()) := by
    unfold copySnapshot
    rw [op_calm]
    rw [hsource]
    dsimp only
    rw [hcopy]
  unfold copyToCOS
  rw [bind_ok (command_calm _ _), bind_ok (ensureRepository_calm
      (fun h => by rw [Repository.init_eq_self h]) fun _ => rfl),
    bind_ok hcopied, bind_ok (onlySnapshot_ok ?_ ha.cosID), bind_ok (command_calm _ _)]
  · rfl
  · exact (tagged_copied s cfg a id).trans (by rw [hnone]; rfl)

theorem applyRetention_calm : applyRetention calm s = .ended calm { s with
          localRepo := s.localRepo.forget (7 * day)
          cosRepo := s.cosRepo.forget (30 * day) } (.ok ()) := by
  unfold applyRetention
  rw [bind_ok (write_calm _)]
  exact write_calm _

theorem upload_ok (ha : a.Unhindered s) (hnone : s.cosRepo.tagged (runTag id) = [])
    {runs runs' : BackupRuns} (hmark : runs.mark id (.succeeded a.cosID a.markAt) = .ok runs') :
    upload a id a.localID calm ⟨runs, s.snapped cfg a id, s.cosRepo⟩
      = .ended calm ⟨runs', (s.snapped cfg a id).forget (7 * day),
          (s.copied cfg a id).forget (30 * day)⟩ (.ok ()) := by
  unfold upload
  rw [bind_ok (attempt_ended (copyToCOS_ok ha hnone runs))]
  dsimp only
  rw [bind_ok (markRun_calm hmark), bind_ok alert_calm, bind_ok alert_calm,
    bind_ok alert_calm, bind_ok (attempt_ended applyRetention_calm)]
  exact alert_calm

theorem claimBackup_calm {run : Option BackupRun}
    (h : s.runs.claim a.now cfg.lease a.locked = .ok (runs, run)) : claimBackup cfg a calm s
      = .ended calm { s with runs } (.ok run) := by
  unfold claimBackup
  rw [op_calm, h]

/-- A run without a local snapshot that is claimed is exporting. -/
theorem exporting_of_claim {t t' : BackupRuns} {now lease : Int}
    {locked : String → Bool} (h : t.claim now lease locked = .ok (t', some run))
    (hlocal : run.localSnapshotID = "") : run.status = .exporting := by
  obtain ⟨row, -, rfl, -⟩ := BackupRuns.claim_find? h
  have hrow : row.localSnapshotID = "" := hlocal
  unfold BackupRun.claimed
  rw [if_neg (by simp [hrow])]

variable (hclaim : s.runs.claim a.now cfg.lease a.locked = .ok (runs, some run))
  (hlocal : run.localSnapshotID = "") (ha : a.Unhindered { s with runs })

include hclaim hlocal ha

/-- The run is exported, snapshotted and copied. -/
theorem runBackup_ok (hlocalNone : s.localRepo.tagged (runTag run.id) = [])
    (hcosNone : s.cosRepo.tagged (runTag run.id) = []) : ∃ runs' row, runBackup cfg a calm s
        = .ended calm ⟨runs', (s.snapped cfg a run.id).forget (7 * day),
          (s.copied cfg a run.id).forget (30 * day)⟩ (.ok ())
      ∧ runs'.find? run.id = some row ∧ row.status = .succeeded
      ∧ row.localSnapshotID = a.localID ∧ row.cosSnapshotID = a.cosID := by
  obtain ⟨-, -, -, hrow⟩ := BackupRuns.claim_find? hclaim
  have hexporting := exporting_of_claim hclaim hlocal
  obtain ⟨runs₁, hmark₁, hrow₁⟩ := BackupRuns.mark_eq_ok _ hrow ha.valid
    (by simp [Mark.guard, hexporting])
  have hid := ne_empty_of_not_blank ha.localID
  obtain ⟨runs₂, hmark₂, hrow₂⟩ := BackupRuns.mark_eq_ok (.succeeded a.cosID a.markAt) hrow₁
    (by simp [Mark.valid, ha.cosID]) (by simp [Mark.guard, Mark.write, Attempt.result, hid])
  refine ⟨runs₂, _, ?_, hrow₂, rfl, rfl, rfl⟩
  unfold runBackup
  rw [bind_ok (claimBackup_calm hclaim)]
  dsimp only
  rw [if_pos hlocal, bind_ok (takeSnapshot_ok ha hlocalNone hmark₁)]
  exact upload_ok ha hcosNone hmark₂

/-- A snapshot of an earlier attempt fails the run. -/
theorem runBackup_error (hsome : s.localRepo.tagged (runTag run.id) ≠ []) :
    ∃ s' e row, runBackup cfg a calm s = .ended calm s' (.error e)
      ∧ s'.runs.find? run.id = some row ∧ row.status = .failed := by
  obtain ⟨-, -, -, hrow⟩ := BackupRuns.claim_find? hclaim
  have hexporting := exporting_of_claim hclaim hlocal
  obtain ⟨runs₁, hmark, hrow₁⟩ := BackupRuns.mark_eq_ok (.failed "生成本机快照失败" a.markAt) hrow rfl
    (by simp [Mark.guard, hexporting, Status.active])
  obtain ⟨e, htake⟩ : ∃ e, takeSnapshot cfg a run.id calm
      { s with runs } = _ := takeSnapshot_error ha hsome hmark
  refine ⟨⟨runs₁, s.snapped cfg a run.id, s.cosRepo⟩, e, _, ?_, hrow₁, rfl⟩
  unfold runBackup
  rw [bind_ok (claimBackup_calm hclaim)]
  dsimp only
  rw [if_pos hlocal]
  exact bind_error htake

end Calm

-- ======== any attempt

section Keeps

variable {A : BackupOp → Option Fate → Prop} {I : Site → Prop} {cfg : Config} {a : Attempt}
  {id : String} {s : Site} {α : Type} {Q : α → Site → Prop} {repository : Site → Repository}
  {localID : String} {step : Run α}

theorem keeps_command (op : BackupOp) (text : String) : Keeps A I (command op text) :=
  keeps_write fun _ _ hs => hs

theorem keeps_alert : Keeps A I alert := (keeps_command _ _).attempt.bind fun _ => keeps_pure _

/-- A mark of the run keeps it. -/
def MarkKeeps (I : Site → Prop) (id : String) : Prop :=
  ∀ mark s runs, I s → s.runs.mark id mark = .ok runs → I { s with runs }

theorem MarkKeeps.act (h : MarkKeeps I id) (mark : Mark) (hs : I s) :
    I (match s.runs.mark id mark with
      | .ok runs =>
        ((.ok (), { s with runs }) : Except BackupError Unit × Site)
      | .error e => (.error (.store e), s)).2 := by
  split
  · next runs hmark => exact h mark s runs hs hmark
  · exact hs

theorem keeps_markRun (h : MarkKeeps I id) (op : BackupOp) (mark : Mark) :
    Keeps A I (markRun op id mark) := keeps_op fun _ _ => h.act mark

theorem wp_failRun (h : MarkKeeps I id) (hs : I s) (message : String) (cause : BackupError) :
    wp A (failRun a id message cause) I Q (fun _ => I) s := by
  refine (keeps_markRun h _ _).attempt.wp_next hs fun answer s hs => ?_
  cases answer with
  | error e => exact wp_fail hs
  | ok _ => exact keeps_alert.wp_next hs fun _ _ hs => wp_fail hs

theorem wp_orFail (h : MarkKeeps I id) (hstep : wp A step I Q (fun _ => I) s) (message : String) :
    wp A (orFail a id message step) I Q (fun _ => I) s := by
  refine wp_bind (wp_attempt (hstep.mono (fun _ h => h) (fun value s hs => ?_) fun e s hs => ?_))
  · exact wp_pure hs
  · exact wp_failRun h hs message e

theorem keeps_orFail (h : MarkKeeps I id) (hstep : Keeps A I step) (message : String) :
    Keeps A I (orFail a id message step) := fun s hs =>
  wp_orFail h (hstep s hs) message

theorem keeps_readMigrationVersion (version : Int) : Keeps A I (readMigrationVersion version) := by
  refine (keeps_command _ _).bind fun _ => ?_
  split
  · exact keeps_fail _
  · exact keeps_pure _

theorem wp_exportRun (hs : I s) : wp A (exportRun cfg a id) I
      (fun root s => root = staging cfg.root id ∧ I s) (fun _ => I) s := by
  refine (keeps_command _ _).wp_next hs fun _ s hs =>
    (keeps_command _ _).wp_next hs fun _ s hs =>
    (keeps_readMigrationVersion _).wp_next hs fun before s hs =>
    (keeps_command _ _).wp_next hs fun _ s hs =>
    (keeps_readMigrationVersion _).wp_next hs fun after s hs => ?_
  split
  · exact wp_fail hs
  · exact (keeps_command _ _).wp_next hs fun _ s hs =>
    (keeps_command _ _).wp_next hs fun _ s hs =>
    (keeps_command _ _).wp_next hs fun _ s hs => wp_pure ⟨rfl, hs⟩

theorem keeps_exportRun : Keeps A I (exportRun cfg a id) := fun _ hs =>
  (wp_exportRun hs).mono (fun _ h => h) (fun _ _ h => h.2) fun _ _ h => h

theorem keeps_ensureRepository {config init : BackupOp}
    {initialise : Site → Site} {checkText initText : String} (h : ∀ s, I s → I (initialise s)) :
    Keeps A I (ensureRepository config init repository initialise checkText initText) := by
  refine keeps_read.bind fun ready => ?_
  split
  · exact keeps_pure _
  · exact keeps_write fun _ => h

theorem keeps_onlySnapshot {listing : BackupOp} {listText countText : String} :
    Keeps A I (onlySnapshot listing repository id listText countText) := by
  refine keeps_read.bind fun ids => ?_
  split
  · split
    · exact keeps_fail _
    · exact keeps_pure _
  · exact keeps_fail _

theorem keeps_snapshotLocal {root : String}
    (hinit : ∀ s, I s → I { s with localRepo := s.localRepo.init })
    (hadd : A .localBackup (some .done) ∨ A .localBackup (some (.failed true)) → ∀ s, I s →
        I { s with localRepo := s.localRepo.add (a.snapshot cfg root id) }) :
    Keeps A I (snapshotLocal cfg a root id) :=
  (keeps_ensureRepository hinit).bind fun _ => (keeps_write hadd).bind
    fun _ => keeps_onlySnapshot.bind fun _ => (keeps_command _ _).bind
    fun _ => keeps_pure _

theorem keeps_copySnapshot (hcopy : ∀ s source, I s → source ∈ s.localRepo.snapshots →
      I { s with cosRepo := s.cosRepo.copy source a.cosID }) :
    Keeps A I (copySnapshot a localID) := by
  refine keeps_op fun _ s hs => ?_
  split
  · next source hsource =>
    exact hcopy s source hs (List.mem_of_find?_eq_some hsource)
  · exact hs

theorem keeps_copyToCOS (hinit : ∀ s, I s → I { s with cosRepo := s.cosRepo.init })
    (hcopy : ∀ s source, I s → source ∈ s.localRepo.snapshots →
      I { s with cosRepo := s.cosRepo.copy source a.cosID }) : Keeps A I (copyToCOS a localID id) :=
  (keeps_command _ _).bind fun _ =>
    (keeps_ensureRepository hinit).bind fun _ =>
    (keeps_copySnapshot hcopy).bind fun _ => keeps_onlySnapshot.bind
    fun _ => (keeps_command _ _).bind fun _ => keeps_pure _

theorem keeps_upload (hmark : MarkKeeps I id)
    (hcopied : Keeps A I (copyToCOS a localID id)) (hlocal : ∀ s, I s →
      I { s with localRepo := s.localRepo.forget (7 * day) }) (hcos : ∀ s, I s →
      I { s with cosRepo := s.cosRepo.forget (30 * day) }) : Keeps A I (upload a id localID) := by
  refine hcopied.attempt.bind fun answer => ?_
  cases answer with
  | error e =>
    refine (keeps_markRun hmark _ _).attempt.bind fun answer => ?_
    cases answer with
    | error e => exact keeps_fail _
    | ok _ => exact keeps_alert.bind fun _ => keeps_fail _
  | ok cosID =>
    exact (keeps_markRun hmark _ _).bind fun _ => keeps_alert.bind
      fun _ => keeps_alert.bind fun _ => keeps_alert.bind fun _ =>
      Keeps.bind (Keeps.attempt ((keeps_write fun _ => hlocal).bind
        fun _ => keeps_write fun _ => hcos)) fun _ => keeps_alert

theorem keeps_takeSnapshot (hmark : MarkKeeps I id)
    (hinit : ∀ s, I s → I { s with localRepo := s.localRepo.init })
    (hadd : ∀ root, A .localBackup (some .done) ∨ A .localBackup (some (.failed true)) → ∀ s, I s →
        I { s with localRepo := s.localRepo.add (a.snapshot cfg root id) }) :
    Keeps A I (takeSnapshot cfg a id) := by
  refine (keeps_orFail hmark keeps_read _).bind fun latest =>
    (keeps_orFail hmark (keeps_command _ _) _).bind fun _ => ?_
  split
  · refine (keeps_orFail hmark keeps_exportRun _).bind fun root =>
      (keeps_orFail hmark (keeps_snapshotLocal hinit (hadd root)) _).bind
      fun snapshotID => (keeps_markRun hmark _ _).bind fun _ =>
      (keeps_command _ _).attempt.bind fun answer => ?_
    cases answer with
    | error e => exact keeps_fail _
    | ok _ => exact keeps_pure _
  · exact keeps_alert.bind fun _ s hs => wp_failRun hmark hs _ _

end Keeps

-- ======== histories

/-- The run's local snapshot is recorded. -/
def Recorded (id : String) (s : Site) : Prop :=
  ∃ row, s.runs.find? id = some row ∧ row.localSnapshotID ≠ ""

section Histories

variable {A : BackupOp → Option Fate → Prop} {cfg : Config} {a : Attempt} {id : String} {s : Site}
  {I : Site → Prop} {ahead : Ahead BackupOp} {cos : Repository} {tries : List Try}

/-- No mark takes back a recorded snapshot, and `MarkLocalSnapshot`
records one. -/
theorem recorded_of_mark {mark : Mark} {runs : BackupRuns} (h : s.runs.mark id mark = .ok runs)
    (hs : Recorded id s ∨ ∃ result, mark = .localSnapshot result) :
    Recorded id { s with runs } := by
  obtain ⟨row, hrow, hvalid, hfind⟩ := BackupRuns.of_mark_eq_ok h
  refine ⟨mark.write row, hfind, ?_⟩
  have hbefore : Recorded id s → row.localSnapshotID ≠ "" := by
    rintro ⟨row', hrow', hlocal⟩
    cases hrow.symm.trans hrow'
    exact hlocal
  cases mark with
  | localSnapshot result =>
    simp only [Mark.valid, Bool.and_eq_true, decide_eq_true_eq] at hvalid
    exact hvalid.1.1.1
  | succeeded | degraded | failed => exact hbefore (hs.resolve_right (by simp))

theorem markKeeps_recorded : MarkKeeps (Recorded id) id :=
  fun _ _ _ hs h => recorded_of_mark h (Or.inl hs)

/-- The COS repository is as it was, or the run's local snapshot is
recorded. -/
def Uncopied (id : String) (cos : Repository) (s : Site) : Prop :=
  s.cosRepo = cos ∨ Recorded id s

theorem markKeeps_uncopied : MarkKeeps (Uncopied id cos) id := fun _ _ _ hs h =>
  hs.imp (fun hcos => hcos) fun hs => recorded_of_mark h (Or.inl hs)

theorem wp_markLocal {op : BackupOp} {result : SnapshotResult} (hmark : MarkKeeps I id) (hs : I s) :
    wp A (markRun op id (.localSnapshot result)) I (fun _ => Recorded id) (fun _ => I) s := by
  have hact := hmark.act (.localSnapshot result) hs
  refine wp_op hs (fun _ _ hok => ?_) (fun _ _ _ => hact) fun took _ => ?_
  · split at hok
    · next runs hruns => exact recorded_of_mark hruns (Or.inr ⟨_, rfl⟩)
    · cases hok
  · exact of_took hs hact took

/-- Before the local snapshot is recorded nothing is copied. -/
theorem wp_takeSnapshot (hs : Uncopied id cos s) :
    wp A (takeSnapshot cfg a id) (Uncopied id cos)
      (fun _ => Recorded id) (fun _ => Uncopied id cos) s := by
  have hmark : MarkKeeps (Uncopied id cos) id := markKeeps_uncopied
  refine (keeps_orFail hmark keeps_read _).wp_next hs fun latest s hs =>
    (keeps_orFail hmark (keeps_command _ _) _).wp_next hs fun _ s hs => ?_
  split
  · refine (keeps_orFail hmark keeps_exportRun _).wp_next hs
      fun root s hs => (keeps_orFail hmark (keeps_snapshotLocal
        (fun s hs => hs) fun _ s hs => hs) _).wp_next hs
      fun snapshotID s hs => ?_
    -- the record is what makes the copy possible
    refine wp_bind ((wp_markLocal hmark hs).mono (fun _ h => h) (fun _ s hs => ?_) fun _ _ h => h)
    refine (keeps_command _ _).attempt.wp_bind hs (fun _ => Or.inr)
      (fun _ _ => Or.inr) fun answer s hs => ?_
    cases answer with
    | error e => exact wp_fail (Or.inr hs)
    | ok _ => exact wp_pure hs
  · exact keeps_alert.wp_next hs fun _ _ hs => wp_failRun hmark hs _ _

theorem wp_claimBackup {Q : Option BackupRun → Site → Prop} (hs : I s)
    (h : ∀ runs run, s.runs.claim a.now cfg.lease a.locked = .ok (runs, run) →
      I { s with runs } ∧ Q run { s with runs }) :
    wp A (claimBackup cfg a) I Q (fun _ => I) s := by
  cases hclaim : s.runs.claim a.now cfg.lease a.locked with
  | error e =>
    refine wp_op hs (fun _ _ hok => ?_) (fun _ _ _ => ?_) fun took _ => ?_
    · rw [hclaim] at hok
      cases hok
    · rw [hclaim]
      exact hs
    · rw [hclaim]
      cases took <;> exact hs
  | ok claimed =>
    obtain ⟨runs, run⟩ := claimed
    obtain ⟨hI, hQ⟩ := h runs run hclaim
    refine wp_op hs (fun _ _ hok => ?_) (fun _ _ herror => ?_) fun took _ => ?_
    · rw [hclaim] at hok ⊢
      cases hok
      exact hQ
    · rw [hclaim] at herror
      cases herror
    · rw [hclaim]
      exact of_took hs hI took

/-- Until the local snapshot is recorded, an attempt at the run leaves the
COS repository as it is. -/
theorem runBackup_uncopied
    (hid : ∀ runs run, s.runs.claim a.now cfg.lease a.locked = .ok (runs, some run) → run.id = id) :
    Uncopied id s.cosRepo ((runBackup cfg a).leaves ahead s) := by
  have hany : Meets (fun _ _ => True) ahead := fun _ _ => trivial
  refine wp.leaves (wp_bind (wp_claimBackup (Or.inl rfl)
    fun runs run hclaim => ⟨Or.inl rfl, ?_⟩)) hany
  have hupload : ∀ localID s', Recorded id s' →
      wp (fun _ _ => True) (upload a id localID) (Uncopied id s.cosRepo)
        (fun _ => Uncopied id s.cosRepo)
        (fun _ => Uncopied id s.cosRepo) s' := fun localID s' hs' =>
    (keeps_upload markKeeps_recorded
      (keeps_copyToCOS (fun _ h => h) fun _ _ h _ => h) (fun _ h => h)
      (fun _ h => h) s' hs').mono (fun _ => Or.inr) (fun _ _ => Or.inr) fun _ _ => Or.inr
  cases run with
  | none => exact wp_pure (Or.inl rfl)
  | some run =>
    obtain rfl := hid runs run hclaim
    dsimp only
    split
    · refine wp_bind ((wp_takeSnapshot (Or.inl rfl)).mono (fun _ h => h)
        (fun localID s' hs' => hupload localID s' hs') fun _ _ h => h)
    · next hlocal =>
      obtain ⟨-, -, -, hrow⟩ := BackupRuns.claim_find? hclaim
      exact hupload _ _ ⟨run, hrow, hlocal⟩

theorem Repository.tagged_forget {r : Repository} {tag : String}
    (h : r.tagged tag = []) (within : Int) : (r.forget within).tagged tag = [] := by
  have hall := List.filter_eq_nil_iff.mp (List.map_eq_nil_iff.mp h)
  exact List.map_eq_nil_iff.mpr (List.filter_eq_nil_iff.mpr
    fun s hs => hall s (List.mem_of_mem_filter hs))

/-- No `restic backup` has an effect. -/
def NoBackup (op : BackupOp) (fate : Option Fate) : Prop :=
  op = .localBackup → fate = none ∨ fate = some (.failed false)

/-- Without `restic backup` no snapshot gets a tag. -/
theorem runBackup_untagged
    (htag : s.localRepo.tagged (runTag id) = []) (hahead : Meets NoBackup ahead) :
    ((runBackup cfg a).leaves ahead s).localRepo.tagged (runTag id) = [] := by
  have hmark : ∀ id', MarkKeeps (fun s => s.localRepo.tagged (runTag id) = []) id' :=
    fun _ _ _ _ hs _ => hs
  have hupload : ∀ id' localID, Keeps NoBackup (fun s => s.localRepo.tagged (runTag id) = [])
      (upload a id' localID) := fun id' localID =>
    keeps_upload (hmark id') (keeps_copyToCOS (fun _ h => h) fun _ _ h _ => h)
      (fun _ hs => Repository.tagged_forget hs _) fun _ h => h
  refine wp.leaves (I := fun s => s.localRepo.tagged (runTag id) = [])
    (wp_bind (wp_claimBackup htag fun runs run _ => ⟨htag, ?_⟩)) hahead
  cases run with
  | none => exact wp_pure htag
  | some run =>
    dsimp only
    split
    · have hnever : ¬ (NoBackup .localBackup (some .done)
          ∨ NoBackup .localBackup (some (.failed true))) := by
        simp [NoBackup]
      have htake : Keeps NoBackup (fun s => s.localRepo.tagged (runTag id) = [])
          (takeSnapshot cfg a run.id) := keeps_takeSnapshot (hmark run.id) (fun _ hs => hs)
          fun _ htook => absurd htook hnever
      exact htake.bind (fun localID => hupload run.id localID) _ htag
    · exact hupload run.id _ _ htag

/-- One attempt and what becomes of its operations. -/
structure Try where
  attempt : Attempt
  ahead : Ahead BackupOp

def Site.step (cfg : Config) (s : Site) (x : Try) : Site :=
  (runBackup cfg x.attempt).leaves x.ahead s

/-- The attempt is at no other run, and ends before the run's local
snapshot is recorded. -/
def Interrupts (cfg : Config) (id : String) (s : Site) (x : Try) : Prop :=
  (∀ runs run, s.runs.claim x.attempt.now cfg.lease x.attempt.locked
    = .ok (runs, some run) → run.id = id)
  ∧ ¬ Recorded id (s.step cfg x)

/-- Nothing is there of the run but its row. -/
structure Untouched (id : String) (s : Site) : Prop where
  unrecorded : ¬ Recorded id s
  localNone : s.localRepo.tagged (runTag id) = []
  cosNone : s.cosRepo.tagged (runTag id) = []

theorem interrupted (hs : ¬ Recorded id s ∧ s.cosRepo.tagged (runTag id) = [])
    (h : Guarded (Site.step cfg) (Interrupts cfg id) s tries) :
    ¬ Recorded id (run (Site.step cfg) s tries)
      ∧ (run (Site.step cfg) s tries).cosRepo.tagged (runTag id) = [] := by
  refine h.invariant (I := fun s => ¬ Recorded id s
    ∧ s.cosRepo.tagged (runTag id) = []) (fun s x hs hx => ?_) hs
  have hcos : (s.step cfg x).cosRepo = s.cosRepo := (runBackup_uncopied hx.1).resolve_right hx.2
  exact ⟨hx.2, by rw [hcos]; exact hs.2⟩

theorem untagged_of_noBackup (hs : s.localRepo.tagged (runTag id) = [])
    (h : ∀ x ∈ tries, Meets NoBackup x.ahead) :
    (run (Site.step cfg) s tries).localRepo.tagged (runTag id) = [] := by
  induction tries generalizing s with
  | nil => exact hs
  | cons x tries ih =>
    exact ih (runBackup_untagged hs (h x List.mem_cons_self))
      fun y hy => h y (List.mem_cons_of_mem x hy)

/-- The run has succeeded, with both snapshots. -/
def Succeeded (id : String) (s : Site) : Prop :=
  ∃ row, s.runs.find? id = some row ∧ row.status = .succeeded
    ∧ row.localSnapshotID ≠ "" ∧ row.cosSnapshotID ≠ ""

/-- However often a run was interrupted before its local snapshot was
recorded: an undisturbed attempt that claims it makes it succeed if and
only if no snapshot with its tag is in the local repository; and none is
there when no interrupted attempt got as far as `restic backup`. -/
theorem takeover_succeeds {s : Site} {tries : List Try}
    {runs : BackupRuns} {run' : BackupRun} (hs : Untouched id s)
    (htries : Guarded (Site.step cfg) (Interrupts cfg id) s tries)
    (hclaim : (run (Site.step cfg) s tries).runs.claim a.now cfg.lease
      a.locked = .ok (runs, some run')) (hid : run'.id = id)
    (ha : a.Unhindered { run (Site.step cfg) s tries with runs }) :
    (Succeeded id ((runBackup cfg a).leaves calm (run (Site.step cfg) s tries))
      ↔ (run (Site.step cfg) s tries).localRepo.tagged (runTag id) = [])
    ∧ ((∀ x ∈ tries, Meets NoBackup x.ahead) → Succeeded id ((runBackup cfg a).leaves calm
        (run (Site.step cfg) s tries))) := by
  subst hid
  obtain ⟨hunrecorded, hcos⟩ := interrupted ⟨hs.unrecorded, hs.cosNone⟩ htries
  have hlocal : run'.localSnapshotID = "" := by
    by_contra hne
    obtain ⟨row, hrow, hrun, -⟩ := BackupRuns.claim_find? hclaim
    refine hunrecorded ⟨row, hrow, ?_⟩
    rw [hrun] at hne
    exact hne
  have hiff : Succeeded run'.id ((runBackup cfg a).leaves calm (run (Site.step cfg) s tries))
      ↔ (run (Site.step cfg) s tries).localRepo.tagged (runTag run'.id) = [] := by
    refine ⟨fun hok => ?_, fun hnone => ?_⟩
    · by_contra hsome
      obtain ⟨s', e, row, hend, hrow, hfailed⟩ := runBackup_error hclaim hlocal ha hsome
      obtain ⟨row', hrow', hstatus, -⟩ := hok
      rw [leaves_ended hend, hrow] at hrow'
      cases hrow'
      rw [hfailed] at hstatus
      cases hstatus
    · obtain ⟨runs', row, hend, hrow, hstatus, hlocalID, hcosID⟩ :=
        runBackup_ok hclaim hlocal ha hnone hcos
      refine ⟨row, ?_, hstatus, ?_, ?_⟩
      · rw [leaves_ended hend]
        exact hrow
      · rw [hlocalID]
        exact ne_empty_of_not_blank ha.localID
      · rw [hcosID]
        exact ne_empty_of_not_blank ha.cosID
  exact ⟨hiff, fun hno => hiff.mpr (untagged_of_noBackup hs.localNone hno)⟩

end Histories

/-- What the claim of an attempt answers. -/
def Site.claimed (s : Site) (cfg : Config) (a : Attempt) : Option (BackupRuns × BackupRun) :=
  match s.runs.claim a.now cfg.lease a.locked with
  | .ok (runs, some run') => some (runs, run')
  | _ => none

theorem Site.of_claimed {s : Site} {cfg : Config} {a : Attempt} {p : BackupRuns × BackupRun → Bool}
    (h : (s.claimed cfg a).any p = true) : ∃ runs run', s.runs.claim a.now cfg.lease a.locked
      = .ok (runs, some run') ∧ p (runs, run') = true := by
  unfold Site.claimed at h
  split at h
  · next runs run' hclaim => exact ⟨runs, run', hclaim, h⟩
  · cases h

namespace Nightly

def queued : BackupRun where
  id := "b1"
  status := .queued
  localSnapshotID := ""
  cosSnapshotID := ""
  manifestSHA256 := ""
  byteSize := 0
  objectCount := 0
  attempts := 0
  nextAttemptAt := 0
  leaseUntil := none
  errorMessage := ""
  startedAt := none
  finishedAt := none
  createdAt := 0

def site : Site where
  runs := ⟨[queued], by decide⟩
  localRepo := ⟨true, []⟩
  cosRepo := ⟨true, []⟩

def config : Config where
  root := "/backup"
  host := "yunling"
  lease := 30

def attemptAt (now : Int) (localID cosID : String) : Attempt where
  now
  locked := fun _ => false
  available := 1000000000000
  versionBefore := 1
  versionAfter := 1
  manifestSHA256 := "sum"
  byteSize := 1
  objectCount := 1
  backupAt := now
  localID
  cosID
  markAt := now
  retryAt := now

/-- An attempt that is cut off before one kind of operation. -/
def cutAt (op : BackupOp) : Try where
  attempt := attemptAt 0 "l1" "c1"
  ahead := fun k _ => if k = op then none else some .done

def takeover : Attempt := attemptAt 30 "l2" "c2"

def after (op : BackupOp) : Site := run (Site.step config) site [cutAt op]

theorem untouched : Untouched "b1" site where
  unrecorded := by
    rintro ⟨row, hrow, hlocal⟩
    have hqueued : site.runs.find? "b1" = some queued := by decide
    cases hqueued.symm.trans hrow
    exact hlocal rfl
  localNone := rfl
  cosNone := rfl

theorem interrupts (op : BackupOp) (h : ((after op).runs.find? "b1").map BackupRun.localSnapshotID
      = some "") : Guarded (Site.step config) (Interrupts config "b1") site [cutAt op] := by
  refine ⟨⟨fun runs run' hclaim => ?_, ?_⟩, trivial⟩
  · obtain ⟨row, hrow, -, -⟩ := BackupRuns.claim_find? hclaim
    obtain ⟨hmem, hid⟩ := site.runs.find?_eq_some.mp hrow
    obtain rfl : row = queued := by simpa [site] using hmem
    exact hid.symm
  · rintro ⟨row, hrow, hlocal⟩
    have hrow' : (after op).runs.find? "b1" = some row := hrow
    rw [hrow'] at h
    exact hlocal (Option.some.inj h)

theorem unhindered (op : BackupOp) (h : ((after op).claimed config takeover).any (fun c =>
      decide (c.2.id = "b1") && hasEnoughSpace takeover.available (latestBytes c.1)) = true)
    (hlocal : ∀ snapshot ∈ (after op).localRepo.snapshots, snapshot.id ≠ "l2")
    (hcos : (after op).cosRepo.snapshots = []) :
    ∃ runs run', (after op).runs.claim takeover.now config.lease
        takeover.locked = .ok (runs, some run') ∧ run'.id = "b1"
      ∧ takeover.Unhindered { after op with runs } := by
  obtain ⟨runs, run', hclaim, hrun⟩ := Site.of_claimed h
  simp only [Bool.and_eq_true, decide_eq_true_eq] at hrun
  refine ⟨runs, run', hclaim, hrun.1, ?_⟩
  exact {
    space := hrun.2
    versioned := ⟨by decide, rfl⟩
    manifest := by decide
    localID := by decide
    cosID := by decide
    newLocal := hlocal
    newCOS := by
      intro snapshot hmem
      rw [show (after op).cosRepo.snapshots = [] from hcos] at hmem
      cases hmem }

end Nightly

theorem takeover_succeeds_before_backup :
    Succeeded "b1" ((runBackup Nightly.config Nightly.takeover).leaves calm
      (Nightly.after .localBackup)) := by
  obtain ⟨runs, run', hclaim, hid, hunhindered⟩ :=
    Nightly.unhindered .localBackup (by decide) (by decide) (by decide)
  refine (takeover_succeeds Nightly.untouched
    (Nightly.interrupts .localBackup (by decide)) hclaim hid hunhindered).2 ?_
  intro x hx op n hop
  obtain rfl := List.mem_singleton.mp hx
  exact Or.inl (by simp [Nightly.cutAt, hop])

/-- The worker is gone after `restic backup`, before it has listed the
snapshots: the attempt that takes over finds two of them. -/
theorem takeover_fails_after_backup : ¬ ∀ (cfg : Config) (id : String) (s : Site) (tries : List Try)
      (a : Attempt) (runs : BackupRuns) (run' : BackupRun), Untouched id s →
      Guarded (Site.step cfg) (Interrupts cfg id) s tries →
      (run (Site.step cfg) s tries).runs.claim a.now cfg.lease a.locked
        = .ok (runs, some run') → run'.id = id →
      a.Unhindered { run (Site.step cfg) s tries with runs } →
      Succeeded id ((runBackup cfg a).leaves calm (run (Site.step cfg) s tries)) := by
  intro h
  obtain ⟨runs, run', hclaim, hid, hunhindered⟩ :=
    Nightly.unhindered .localList (by decide) (by decide) (by decide)
  obtain ⟨row, hrow, hstatus, -⟩ := h Nightly.config "b1" Nightly.site
    [Nightly.cutAt .localList] Nightly.takeover runs run' Nightly.untouched
    (Nightly.interrupts .localList (by decide)) hclaim hid hunhindered
  have hfailed : (((runBackup Nightly.config Nightly.takeover).leaves calm
      (Nightly.after .localList)).runs.find? "b1").map BackupRun.status = some .failed := by
    decide
  rw [show ((runBackup Nightly.config Nightly.takeover).leaves calm
    (Nightly.after .localList)).runs.find? "b1" = some row from hrow,
    Option.map_some, hstatus] at hfailed
  cases hfailed

end Yunling.Backup
