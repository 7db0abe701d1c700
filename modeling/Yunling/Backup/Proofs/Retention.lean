/-
What the retention policy prunes: nothing.

Each run exports into a directory of its own, named by the run's id, and
that directory is the path of its snapshot. `restic forget` without
`--group-by` takes the snapshots of one host and one list of paths
together. So every snapshot is a group of its own, is the newest of its
group, and is kept. The repositories hold what they ever held.

# Histories

`Filed` is what any attempts keep, whatever fails in them and wherever
they are cut off, as long as no run is snapshotted twice (`Orderly`):
one snapshot for each tag, its path the run's, and one copy of each. It
makes `restic forget` the identity, in both repositories.
-/
import Yunling.Backup.Proofs.Takeover

namespace Yunling.Backup

open Relational Crash Transition

-- ======== filing

theorem nodup_map_append {α β : Type} {f : α → β} {l : List α} {y : α}
    (h : (l.map f).Nodup) (hnew : ∀ x ∈ l, f x ≠ f y) : ((l ++ [y]).map f).Nodup := by
  rw [List.map_append]
  refine List.nodup_append.mpr ⟨h, List.nodup_singleton _, ?_⟩
  rintro _ hx _ hy
  obtain ⟨x, hmem, rfl⟩ := List.mem_map.mp hx
  rw [List.mem_singleton.mp hy]
  exact hnew x hmem

/-- Every snapshot has a path of its own. -/
def Repository.Alone (r : Repository) : Prop :=
  ∀ x ∈ r.snapshots, ∀ y ∈ r.snapshots, x.paths = y.paths → x = y

/-- No snapshot is older than another by more than `d`. -/
def Repository.Within (r : Repository) (d : Int) : Prop :=
  ∀ x ∈ r.snapshots, ∀ y ∈ r.snapshots, y.time - x.time ≤ d

/-- A snapshot that is alone is the newest of its group. -/
theorem Repository.forget_eq_self {r : Repository} (h : r.Alone)
    {within : Int} (hwithin : 0 ≤ within) : r.forget within = r := by
  have hall : ∀ x ∈ r.snapshots, r.kept within x = true := by
    intro x hx
    refine List.all_eq_true.mpr fun y hy => ?_
    by_cases hgroup : x.sameGroup y = true
    · unfold Snapshot.sameGroup at hgroup
      simp only [Bool.and_eq_true, decide_eq_true_eq] at hgroup
      obtain rfl := h x hx y hy hgroup.2
      simp [hwithin]
    · simp [hgroup]
  unfold Repository.forget
  rw [List.filter_eq_self.mpr hall]

/-- One local snapshot for each tag, with the path of the run, and one
copy of each. -/
structure Filed (cfg : Config) (s : Site) : Prop where
  named : ∀ x ∈ s.localRepo.snapshots, ∃ id, x.tag = runTag id ∧ x.paths = [staging cfg.root id]
  tags : (s.localRepo.snapshots.map Snapshot.tag).Nodup
  ids : (s.localRepo.snapshots.map Snapshot.id).Nodup
  copied : ∀ c ∈ s.cosRepo.snapshots, ∃ x ∈ s.localRepo.snapshots,
    c.original = some x.id ∧ c.paths = x.paths ∧ c.tag = x.tag ∧ c.time = x.time
  once : (s.cosRepo.snapshots.map Snapshot.original).Nodup

namespace Filed

variable {cfg : Config} {s : Site} (h : Filed cfg s)

include h

theorem local_alone : s.localRepo.Alone := by
  intro x hx y hy hpaths
  obtain ⟨id, hxtag, hxpaths⟩ := h.named x hx
  obtain ⟨id', hytag, hypaths⟩ := h.named y hy
  have hid : id = id' := by
    rw [hxpaths, hypaths] at hpaths
    exact staging_injective (List.cons.inj hpaths).1
  subst hid
  exact List.inj_on_of_nodup_map h.tags hx hy (hxtag.trans hytag.symm)

theorem cos_alone : s.cosRepo.Alone := by
  intro c hc c' hc' hpaths
  obtain ⟨x, hx, horiginal, hxpaths, -⟩ := h.copied c hc
  obtain ⟨x', hx', horiginal', hxpaths', -⟩ := h.copied c' hc'
  rw [hxpaths, hxpaths'] at hpaths
  obtain rfl := h.local_alone x hx x' hx' hpaths
  exact List.inj_on_of_nodup_map h.once hc hc' (horiginal.trans horiginal'.symm)

/-- The copy of a snapshot has its tag. -/
theorem cos_none {tag : String} (hnone : s.localRepo.tagged tag = []) :
    s.cosRepo.tagged tag = [] := by
  have hall := List.filter_eq_nil_iff.mp (List.map_eq_nil_iff.mp hnone)
  refine List.map_eq_nil_iff.mpr (List.filter_eq_nil_iff.mpr fun c hc htag => ?_)
  obtain ⟨x, hx, -, -, hxtag, -⟩ := h.copied c hc
  rw [hxtag] at htag
  exact hall x hx htag

/-- The copy of a snapshot has its time. -/
theorem cos_within {d : Int} (hlocal : s.localRepo.Within d) : s.cosRepo.Within d := by
  intro c hc c' hc'
  obtain ⟨x, hx, -, -, -, htime⟩ := h.copied c hc
  obtain ⟨x', hx', -, -, -, htime'⟩ := h.copied c' hc'
  rw [htime, htime']
  exact hlocal x hx x' hx'

theorem withRuns (runs : BackupRuns) : Filed cfg { s with runs } :=
  ⟨h.named, h.tags, h.ids, h.copied, h.once⟩

theorem forgetLocal : s.localRepo.forget (7 * day) = s.localRepo :=
  Repository.forget_eq_self h.local_alone (by decide)

theorem forgetCOS : s.cosRepo.forget (30 * day) = s.cosRepo :=
  Repository.forget_eq_self h.cos_alone (by decide)

theorem add {a : Attempt} {id : String} (hnone : s.localRepo.tagged (runTag id) = [])
    (hnew : ∀ x ∈ s.localRepo.snapshots, x.id ≠ a.localID) : Filed cfg { s with
      localRepo := s.localRepo.add (a.snapshot cfg (staging cfg.root id) id) }
    where
  named := by
    intro x hx
    rcases List.mem_append.mp hx with hold | hadded
    · exact h.named x hold
    · obtain rfl := List.mem_singleton.mp hadded
      exact ⟨id, rfl, rfl⟩
  tags := by
    have htags : ∀ x ∈ s.localRepo.snapshots, x.tag ≠ runTag id := by
      intro x hx htag
      have := List.filter_eq_nil_iff.mp (List.map_eq_nil_iff.mp hnone) x hx
      exact this (by simpa using htag)
    exact nodup_map_append h.tags htags
  ids := nodup_map_append h.ids hnew
  copied := by
    intro c hc
    obtain ⟨x, hx, hcopy⟩ := h.copied c hc
    exact ⟨x, List.mem_append_left _ hx, hcopy⟩
  once := h.once

theorem copy {source : Snapshot} {cosID : String} (hsource : source ∈ s.localRepo.snapshots) :
    Filed cfg { s with cosRepo := s.cosRepo.copy source cosID } := by
  by_cases hany : (s.cosRepo.snapshots.any fun c =>
      decide (c.original = some source.id)) = true
  · have hsame : s.cosRepo.copy source cosID = s.cosRepo := if_pos hany
    rw [hsame]
    exact h
  · have hadd : s.cosRepo.copy source cosID = s.cosRepo.add
        { source with id := cosID, original := some source.id } := if_neg hany
    rw [hadd]
    refine ⟨h.named, h.tags, h.ids, fun c hc => ?_,
      nodup_map_append h.once fun c hc horiginal => hany ?_⟩
    · rcases List.mem_append.mp hc with hold | hadded
      · exact h.copied c hold
      · obtain rfl := List.mem_singleton.mp hadded
        exact ⟨source, hsource, rfl, rfl, rfl, rfl⟩
    · exact List.any_eq_true.mpr ⟨c, hc, by simpa using horiginal⟩

end Filed

-- ======== attempts

section Attempts

variable {A : BackupOp → Option Fate → Prop} {cfg : Config} {a : Attempt} {s : Site}
  {id localID : String} {x : Try}

theorem markKeeps_filed : MarkKeeps (Filed cfg) id :=
  fun _ _ runs hs _ => hs.withRuns runs

/-- The run has no local snapshot yet, and restic draws a new id for
it. -/
structure Unfiled (cfg : Config) (a : Attempt) (id : String) (s : Site) : Prop where
  filed : Filed cfg s
  none : s.localRepo.tagged (runTag id) = []
  new : ∀ x ∈ s.localRepo.snapshots, x.id ≠ a.localID

theorem markKeeps_unfiled : MarkKeeps (Unfiled cfg a id) id :=
  fun _ _ runs hs _ => ⟨hs.filed.withRuns runs, hs.none, hs.new⟩

theorem wp_snapshotLocal (hs : Unfiled cfg a id s) :
    wp A (snapshotLocal cfg a (staging cfg.root id) id) (Filed cfg)
      (fun _ => Filed cfg) (fun _ => Filed cfg) s := by
  have hinit : Keeps A (Unfiled cfg a id) (ensureRepository .localConfig .localInit Site.localRepo
      (fun s => { s with localRepo := s.localRepo.init }) "本机备份仓库检查失败" "本机备份仓库初始化失败") :=
    keeps_ensureRepository fun s hs =>
      ⟨⟨hs.filed.named, hs.filed.tags, hs.filed.ids, hs.filed.copied,
        hs.filed.once⟩, hs.none, hs.new⟩
  refine hinit.wp_bind hs (fun _ hs => hs.filed) (fun _ _ hs => hs.filed) fun _ s hs => ?_
  have hadd := hs.filed.add hs.none hs.new
  refine wp_bind (wp_write hs.filed ?_ (fun _ => hs.filed) fun _ => hadd)
  exact keeps_onlySnapshot.wp_next hadd fun _ s hs =>
    (keeps_command _ _).wp_next hs fun _ s hs => wp_pure hs

theorem wp_takeSnapshot_filed (hs : Unfiled cfg a id s) :
    wp A (takeSnapshot cfg a id) (Filed cfg) (fun _ => Filed cfg) (fun _ => Filed cfg) s := by
  have hmark : MarkKeeps (Unfiled cfg a id) id := markKeeps_unfiled
  have hfiled : ∀ s, Unfiled cfg a id s → Filed cfg s := fun _ h => h.filed
  refine (keeps_orFail hmark keeps_read _).wp_bind hs hfiled (fun _ => hfiled) fun latest s hs =>
    (keeps_orFail hmark (keeps_command _ _) _).wp_bind hs hfiled
    (fun _ => hfiled) fun _ s hs => ?_
  split
  · refine wp_bind ((wp_orFail hmark (wp_exportRun hs) _).mono hfiled ?_ fun _ => hfiled)
    rintro _ s ⟨rfl, hs⟩
    refine wp_bind ((wp_orFail markKeeps_filed (wp_snapshotLocal hs) _).mono
      (fun _ h => h) ?_ fun _ _ h => h)
    intro snapshotID s hs
    refine (keeps_markRun markKeeps_filed _ _).wp_next hs fun _ s hs =>
      (keeps_command _ _).attempt.wp_next hs fun answer s hs => ?_
    cases answer with
    | error e => exact wp_fail hs
    | ok _ => exact wp_pure hs
  · exact keeps_alert.wp_next hs.filed fun _ s hs =>
    wp_failRun markKeeps_filed hs _ _

/-- Uploads leave the local snapshots as they are. -/
theorem keeps_upload_local {base : List Snapshot} :
    Keeps A (fun s => Filed cfg s ∧ s.localRepo.snapshots = base) (upload a id localID) := by
  refine keeps_upload (fun _ _ runs hs _ => ⟨hs.1.withRuns runs, hs.2⟩)
    (keeps_copyToCOS (fun s hs => ⟨?_, hs.2⟩) fun s source hs hsource => ⟨hs.1.copy hsource, hs.2⟩)
    (fun s hs => ?_) fun s hs => ?_
  · exact ⟨hs.1.named, hs.1.tags, hs.1.ids, hs.1.copied, hs.1.once⟩
  · rw [hs.1.forgetLocal]
    exact hs
  · rw [hs.1.forgetCOS]
    exact hs

theorem keeps_upload_filed : Keeps A (Filed cfg) (upload a id localID) := fun s hs =>
  (keeps_upload_local s ⟨hs, rfl⟩).mono (fun _ h => h.1) (fun _ _ h => h.1) fun _ _ h => h.1

/-- An attempt that does not snapshot a run a second time. -/
def Orderly (cfg : Config) (s : Site) (x : Try) : Prop :=
  ∀ runs run, s.runs.claim x.attempt.now cfg.lease x.attempt.locked
      = .ok (runs, some run) → run.localSnapshotID = "" →
    s.localRepo.tagged (runTag run.id) = [] ∧ ∀ y ∈ s.localRepo.snapshots, y.id ≠ x.attempt.localID

theorem Filed.step (hs : Filed cfg s) (hx : Orderly cfg s x) : Filed cfg (s.step cfg x) := by
  have hany : Meets (fun _ _ => True) x.ahead := fun _ _ => trivial
  refine wp.leaves (wp_bind (wp_claimBackup hs fun runs claimed hclaim =>
    ⟨hs.withRuns runs, ?_⟩)) hany
  cases claimed with
  | none => exact wp_pure (hs.withRuns runs)
  | some run =>
    dsimp only
    split
    · next hlocal =>
      obtain ⟨hnone, hnew⟩ := hx runs run hclaim hlocal
      exact wp_bind ((wp_takeSnapshot_filed ⟨hs.withRuns runs, hnone, hnew⟩).mono (fun _ h => h)
        (fun _ s hs => keeps_upload_filed s hs) fun _ _ h => h)
    · exact keeps_upload_filed _ (hs.withRuns runs)

/-- A run with a local snapshot that is claimed leaves the local
snapshots as they are. -/
theorem step_resumed (hs : Filed cfg s) {runs : BackupRuns} {run' : BackupRun}
    (hclaim : s.runs.claim x.attempt.now cfg.lease x.attempt.locked = .ok (runs, some run'))
    (hlocal : run'.localSnapshotID ≠ "") :
    (s.step cfg x).localRepo.snapshots = s.localRepo.snapshots := by
  have hany : Meets (fun _ _ => True) x.ahead := fun _ _ => trivial
  refine (wp.leaves (I := fun s' => Filed cfg s'
    ∧ s'.localRepo.snapshots = s.localRepo.snapshots) (wp_bind
    (wp_claimBackup ⟨hs, rfl⟩ fun runs' claimed hclaim' =>
      ⟨⟨hs.withRuns runs', rfl⟩, ?_⟩)) hany).2
  cases hclaim.symm.trans hclaim'
  dsimp only
  rw [if_neg hlocal]
  exact keeps_upload_local _ ⟨hs.withRuns runs, rfl⟩

/-- The attempt is at the newest run, whose snapshot is of the time
`newest`: it takes the snapshot, undisturbed, or it is there already. -/
def Newest (cfg : Config) (s : Site) (x : Try) (newest : Int) : Prop :=
  ∃ runs run', s.runs.claim x.attempt.now cfg.lease x.attempt.locked = .ok (runs, some run')
    ∧ (∀ y ∈ s.localRepo.snapshots, y.time ≤ newest)
    ∧ ((run'.localSnapshotID = "" ∧ x.ahead = calm ∧ x.attempt.backupAt = newest
        ∧ x.attempt.Unhindered { s with runs })
      ∨ (run'.localSnapshotID ≠ "" ∧ ∃ y ∈ s.localRepo.snapshots,
        y.id = run'.localSnapshotID ∧ y.time = newest))

/-- The local snapshots are the ones before, and the newest. -/
theorem Newest.snapshots {newest : Int} (hs : Filed cfg s)
    (hx : Orderly cfg s x) (hnewest : Newest cfg s x newest) : (∀ y ∈ s.localRepo.snapshots,
        y ∈ (s.step cfg x).localRepo.snapshots) ∧ (∀ y ∈ (s.step cfg x).localRepo.snapshots,
        y ∈ s.localRepo.snapshots ∨ y.time = newest)
      ∧ ∃ y ∈ (s.step cfg x).localRepo.snapshots, y.time = newest := by
  obtain ⟨runs, run', hclaim, -, hkind⟩ := hnewest
  rcases hkind with ⟨hlocal, hcalm, htime, ha⟩ | ⟨hlocal, y, hy, -, htime⟩
  · obtain ⟨hnone, hnew⟩ := hx runs run' hclaim hlocal
    obtain ⟨runs', row, hend, -⟩ := runBackup_ok hclaim hlocal ha hnone (hs.cos_none hnone)
    have hfiled : Filed cfg { s with
        localRepo := s.snapped cfg x.attempt run'.id } :=
      Filed.add (s := { s with localRepo := s.localRepo.init })
        ⟨hs.named, hs.tags, hs.ids, hs.copied, hs.once⟩ hnone hnew
    have hafter : (s.step cfg x).localRepo.snapshots = s.localRepo.snapshots
        ++ [x.attempt.snapshot cfg (staging cfg.root run'.id) run'.id] := by
      unfold Site.step
      rw [hcalm, leaves_ended hend]
      rw [hfiled.forgetLocal]
      rfl
    rw [hafter]
    refine ⟨fun y => List.mem_append_left _, fun y hy => ?_, _,
      List.mem_append_right _ List.mem_cons_self, htime⟩
    rcases List.mem_append.mp hy with hold | hadded
    · exact Or.inl hold
    · rw [List.mem_singleton.mp hadded]
      exact Or.inr htime
  · rw [step_resumed hs hclaim hlocal]
    exact ⟨fun _ h => h, fun _ h => Or.inl h, y, hy, htime⟩

/-- However many runs there were, and whatever failed in them: after the
newest one and its retention the repositories are as they should be if
and only if no snapshot was too old for the local one before. -/
theorem retention_within {x : Try} {newest : Int} {tries : List Try} (hs : Filed cfg s)
    (htries : Guarded (Site.step cfg) (Orderly cfg) s tries)
    (hx : Orderly cfg (run (Site.step cfg) s tries) x)
    (hnewest : Newest cfg (run (Site.step cfg) s tries) x newest) :
    (((run (Site.step cfg) s tries).step cfg x).localRepo.Within (7 * day)
      ∧ ((run (Site.step cfg) s tries).step cfg x).cosRepo.Within (30 * day))
    ↔ ∀ y ∈ (run (Site.step cfg) s tries).localRepo.snapshots, newest - y.time ≤ 7 * day := by
  have hfiled : Filed cfg (run (Site.step cfg) s tries) :=
    htries.invariant (fun _ _ hs hx => hs.step hx) hs
  obtain ⟨hold, honly, z, hz, hztime⟩ := hnewest.snapshots hfiled hx
  obtain ⟨runs, run', -, hlatest, -⟩ := hnewest
  constructor
  · rintro ⟨hlocal, -⟩ y hy
    rw [← hztime]
    exact hlocal y (hold y hy) z hz
  intro hage
  have hday : (0 : Int) ≤ 7 * day := by decide
  have hnear : ∀ y ∈ ((run (Site.step cfg) s tries).step cfg x).localRepo.snapshots,
      y.time ≤ newest ∧ newest - y.time ≤ 7 * day := by
    intro y hy
    rcases honly y hy with hbefore | htime
    · exact ⟨hlatest y hbefore, hage y hbefore⟩
    · omega
  have hlocal : ((run (Site.step cfg) s tries).step cfg x).localRepo.Within (7 * day) := by
    intro y hy y' hy'
    have := hnear y hy
    have := hnear y' hy'
    omega
  refine ⟨hlocal, fun c hc c' hc' => ?_⟩
  have hcos := (hfiled.step hx).cos_within hlocal c hc c' hc'
  omega

end Attempts

namespace Weekly

def queued (id : String) : BackupRun where
  id
  status := .queued
  localSnapshotID := ""
  cosSnapshotID := ""
  manifestSHA256 := ""
  byteSize := 0
  objectCount := 0
  attempts := 0
  nextAttemptAt := 0
  leaseUntil := none
  errorMessage := ""
  startedAt := none
  finishedAt := none
  createdAt := 0

def site : Site where
  runs := ⟨[queued "b1", queued "b2"], by decide⟩
  localRepo := ⟨true, []⟩
  cosRepo := ⟨true, []⟩

def config : Config where
  root := "/backup"
  host := "yunling"
  lease := 30

def backupAt (now : Int) (localID cosID : String) : Try where
  attempt := {
    now
    locked := fun _ => false
    available := 1000000000000
    versionBefore := 1
    versionAfter := 1
    manifestSHA256 := "sum"
    byteSize := 1
    objectCount := 1
    backupAt := now
    localID
    cosID
    markAt := now
    retryAt := now }
  ahead := calm

def first : Try := backupAt 0 "l1" "c1"

theorem filed : Filed config site where
  named := by simp [site]
  tags := by simp [site]
  ids := by simp [site]
  copied := by simp [site]
  once := by simp [site]

theorem first_orderly : Guarded (Site.step config) (Orderly config) site [first] :=
  ⟨fun _ _ _ _ => ⟨rfl, by simp [site]⟩, trivial⟩

/-- The site after the first backup. -/
def after : Site := run (Site.step config) site [first]

theorem after_snapshots : after.localRepo.snapshots
    = [first.attempt.snapshot config (staging config.root "b1") "b1"] := by
  decide

theorem after_new : ∀ y ∈ after.localRepo.snapshots, y.id ≠ "l2" := by
  decide

theorem after_copies : ∀ c ∈ after.cosRepo.snapshots, c.original ≠ some "l2" := by
  decide

def second (now : Int) : Try := backupAt now "l2" "c2"

theorem second_newest {now : Int} (hnow : 0 ≤ now)
    (h : (after.claimed config (second now).attempt).any (fun c =>
      decide (c.2.id = "b2") && decide (c.2.localSnapshotID = "")
        && hasEnoughSpace 1000000000000 (latestBytes c.1)) = true) :
    Orderly config after (second now) ∧ Newest config after (second now) now := by
  obtain ⟨runs, run', hclaim, hrun⟩ := Site.of_claimed h
  simp only [Bool.and_eq_true, decide_eq_true_eq] at hrun
  obtain ⟨⟨hid, hlocal⟩, hspace⟩ := hrun
  refine ⟨fun runs₂ run₂ hclaim₂ _ => ?_, runs, run', hclaim, ?_, Or.inl ⟨hlocal, rfl, rfl, ?_⟩⟩
  · obtain ⟨rfl, hrun⟩ := Prod.mk.inj (Except.ok.inj (hclaim.symm.trans hclaim₂))
    cases hrun
    rw [hid]
    exact ⟨by decide, after_new⟩
  · rw [after_snapshots]
    simpa [first, backupAt, Attempt.snapshot] using hnow
  · exact {
      space := hspace
      versioned := ⟨by show (1 : Int) ≤ 1; decide, rfl⟩
      manifest := by
        show "sum" ≠ "" ∧ (0 : Int) ≤ 1 ∧ (0 : Int) ≤ 1
        decide
      localID := by
        show blank "l2" = false
        decide
      cosID := by
        show blank "c2" = false
        decide
      newLocal := after_new
      newCOS := after_copies }

end Weekly

/-- A day between two runs. -/
theorem retention_within_day :
    (((Weekly.after).step Weekly.config (Weekly.second day)).localRepo.Within (7 * day)
      ∧ ((Weekly.after).step Weekly.config (Weekly.second day)).cosRepo.Within (30 * day)) := by
  obtain ⟨horderly, hnewest⟩ := Weekly.second_newest (show (0 : Int) ≤ day by decide) (by decide)
  refine (retention_within Weekly.filed Weekly.first_orderly horderly hnewest).mpr ?_
  decide

/-- Eight days between two runs: both snapshots stay. -/
theorem old_snapshot_stays : ¬ ∀ (cfg : Config) (s : Site) (tries : List Try) (x : Try)
      (newest : Int), Filed cfg s → Guarded (Site.step cfg) (Orderly cfg) s tries →
      Orderly cfg (run (Site.step cfg) s tries) x →
      Newest cfg (run (Site.step cfg) s tries) x newest →
      ((run (Site.step cfg) s tries).step cfg x).localRepo.Within (7 * day)
        ∧ ((run (Site.step cfg) s tries).step cfg x).cosRepo.Within (30 * day) := by
  intro h
  obtain ⟨horderly, hnewest⟩ :=
    Weekly.second_newest (show (0 : Int) ≤ 8 * day by decide) (by decide)
  have hwithin := (h Weekly.config Weekly.site [Weekly.first]
    (Weekly.second (8 * day)) (8 * day) Weekly.filed Weekly.first_orderly horderly hnewest).1
  have hboth : ∃ x ∈ (Weekly.after.step Weekly.config
      (Weekly.second (8 * day))).localRepo.snapshots, ∃ y ∈ (Weekly.after.step Weekly.config
        (Weekly.second (8 * day))).localRepo.snapshots, 7 * day < y.time - x.time := by
    decide
  obtain ⟨x, hx, y, hy, hage⟩ := hboth
  exact absurd (hwithin x hx y hy) (by omega)

end Yunling.Backup
