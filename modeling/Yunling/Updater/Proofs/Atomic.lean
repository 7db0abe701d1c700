/-
What an interrupted upgrade leaves on the disk.

Whatever becomes of the runs of `Apply` on one install command, the
managed files are as they were when the recorded phase is `rolled_back`,
and as staged when it is `succeeded`; and a phase once recorded as one of
these stays (`apply_crash_atomic`).

# The window

A run that is in `files_replaced` or `restarted` and fails puts the
backup back before it records anything. If it is cut off on the way, or
cannot record the outcome, the recorded phase is still the one of a
finished replacement, and the next run takes it at its word
(`cut_restore_succeeds`). The result above is for runs that do not begin
in such a state.

# The invariant

`Inv` says for each recorded phase what the installed files and the
backup are. The backup is complete (`BackedUp`) from `backup_complete`
on, and nothing but a restore from it, or the replacement, touches the
installed files. `Only` is the frame: what an operation on one directory
leaves alone.
-/
import Yunling.Lib.Transition
import Yunling.Updater.Applier

namespace Yunling.Updater

open Crash Relational Transition

-- ======== reading

namespace Disk

/-- The content of a file. -/
def content (d : Disk) (directory : Directory) (name : String) : Option (List UInt8) :=
  (d.files.get? (directory, name)).map (·.content)

/-- The mark that a managed file was not there. -/
def marked (d : Disk) (directory : Directory) (m : Managed) : Bool :=
  (d.files.get? (directory, m.missing)).isSome

/-- The content of an installed managed file. -/
def installed (d : Disk) (m : Managed) : Option (List UInt8) :=
  d.content .installRoot m.target

/-- The recorded phase. -/
def phase (d : Disk) : Option Phase :=
  match d.spec with
  | .holds spec => some spec.phase
  | _ => none

/-- What replacing a managed file from a directory makes of it. -/
def source (d : Disk) (directory : Directory) (m : Managed) : Option (List UInt8) :=
  if d.marked directory m then none
  else (d.content directory m.name).or (d.installed m)

/-- Nothing but files of one directory has changed. -/
structure Only (directory : Directory) (d d' : Disk) : Prop where
  spec : d'.spec = d.spec
  runtime : d'.runtime = d.runtime
  archive : d'.archive = d.archive
  files : ∀ other name, other ≠ directory → d'.files.get? (other, name) = d.files.get? (other, name)

section Frame

variable {directory other : Directory} {d d' d'' : Disk} {m : Managed}

theorem Only.refl (d : Disk) : Only directory d d := ⟨rfl, rfl, rfl, fun _ _ _ => rfl⟩

theorem Only.trans (h : Only directory d d') (h' : Only directory d' d'') : Only directory d d'' :=
  ⟨h'.spec.trans h.spec, h'.runtime.trans h.runtime,
    h'.archive.trans h.archive, fun other name hne =>
      (h'.files other name hne).trans (h.files other name hne)⟩

theorem Only.set (name : String) (file : File) : Only directory d
      { d with files := d.files.set (directory, name) file } := by
  refine ⟨rfl, rfl, rfl, fun other n hne => ?_⟩
  rw [Hash.get?_set, if_neg fun heq => hne (Prod.ext_iff.mp heq).1]

theorem Only.del (name : String) :
    Only directory d { d with files := d.files.del (directory, name) } := by
  refine ⟨rfl, rfl, rfl, fun other n hne => ?_⟩
  rw [Hash.get?_del, if_neg fun heq => hne (Prod.ext_iff.mp heq).1]

theorem Only.content (h : Only directory d d') (hne : other ≠ directory)
    (name : String) : d'.content other name = d.content other name := by
  unfold Disk.content
  rw [h.files other name hne]

theorem Only.marked (h : Only directory d d') (hne : other ≠ directory)
    (m : Managed) : d'.marked other m = d.marked other m := by
  unfold Disk.marked
  rw [h.files other m.missing hne]

theorem Only.installed (h : Only directory d d') (hne : directory ≠ .installRoot) (m : Managed) :
    d'.installed m = d.installed m := h.content hne.symm m.target

theorem content_set (d : Disk) (file : File) (name name' : String) :
    Disk.content { d with files := d.files.set (directory, name) file } directory name'
      = if name' = name then some file.content
        else d.content directory name' := by
  unfold Disk.content
  rw [Hash.get?_set]
  by_cases h : name' = name <;> simp [h]

theorem content_del (d : Disk) (name name' : String) :
    Disk.content { d with files := d.files.del (directory, name) } directory name'
      = if name' = name then none else d.content directory name' := by
  unfold Disk.content
  rw [Hash.get?_del]
  by_cases h : name' = name <;> simp [h]

theorem marked_set (d : Disk) (file : File) (name : String) (m : Managed) :
    Disk.marked { d with files := d.files.set (directory, name) file } directory m
      = (m.missing = name || d.marked directory m) := by
  unfold Disk.marked
  rw [Hash.get?_set]
  by_cases h : m.missing = name <;> simp [h]

end Frame

end Disk

-- ======== names

/-- The installed files are apart. -/
theorem target_inj : ∀ m ∈ managedTargets, ∀ m' ∈ managedTargets,
    m.target = m'.target → m = m' := by decide

theorem name_inj : ∀ m ∈ managedTargets, ∀ m' ∈ managedTargets,
    m.name = m'.name → m = m' := by decide

theorem missing_inj : ∀ m ∈ managedTargets, ∀ m' ∈ managedTargets,
    m.missing = m'.missing → m = m' := by decide

/-- No mark has the name of a managed file. -/
theorem name_ne_missing : ∀ m ∈ managedTargets, ∀ m' ∈ managedTargets,
    m.name ≠ m'.missing := by decide

theorem managedTargets_nodup : managedTargets.Nodup := by decide

-- ======== operations

section Operations

variable {A : Device → Option Fate → Prop} {C : Disk → Prop}
  {E : Failure → Disk → Prop} {d : Disk} {spec : Spec} {Q : Unit → Disk → Prop}
  {directory : Directory}

theorem wp_stat {name : String} {Q : Bool → Disk → Prop} (hcut : C d)
    (hok : Q (d.files.get? (directory, name)).isSome d)
    (hfailed : ∀ took, A .file (some (.failed took)) → E .io d) :
    wp A (stat directory name) C Q E d := wp_read hcut (fun a ha => by cases ha; exact hok)
    (fun _ he => by cases he) hfailed

/-- A change of the disk that may fail. -/
theorem wp_change {f : Disk → Disk} (hcut : C d) (hok : Q () (f d))
    (hfailed : ∀ took, A .file (some (.failed took)) → E .io (if took then f d else d)) :
    wp A (change f) C Q E d :=
  wp_write hcut hok (fun h => hfailed false h) fun h => hfailed true h

theorem wp_copyAtomic {source destination : Directory × String} {mode : Nat} (hcut : C d)
    (hmissing : d.files.get? source = none → E .notExist d)
    (hok : ∀ file, d.files.get? source = some file → Q () { d with
      files := d.files.set destination ⟨file.content, mode⟩ })
    (hfailed : ∀ took, A .file (some (.failed took)) → E .io d
      ∧ ∀ file, d.files.get? source = some file → E .io { d with
        files := d.files.set destination ⟨file.content, mode⟩ }) :
    wp A (copyAtomic source destination mode) C Q E d := by
  cases hfile : d.files.get? source with
  | none =>
    refine wp_bind (wp_read hcut (fun a ha => ?_) (fun e he => ?_) fun took h => (hfailed took h).1)
    · rw [hfile] at ha
      cases ha
    · rw [hfile] at he
      cases he
      exact hmissing hfile
  | some file =>
    refine wp_bind (wp_read hcut (fun a ha => ?_) (fun e he => ?_) fun took h => (hfailed took h).1)
    · rw [hfile] at ha
      cases ha
      exact wp_change hcut (hok file hfile) fun took h =>
        of_took (hfailed took h).1 ((hfailed took h).2 file hfile) took
    · rw [hfile] at he
      cases he

/-- A directory is replaced by a copy of another. -/
theorem wp_replaceDirectory {source destination : Directory}
    (h : ∀ d', Disk.Only destination d d' → C d' ∧ Q () d' ∧ ∀ e, E e d') :
    wp A (replaceDirectory destination source) C Q E d := by
  have hdel : Disk.Only destination d { d with
      files := d.files.delete fun entry => entry.1.1 == destination } := by
    refine ⟨rfl, rfl, rfl, fun other name hne => ?_⟩
    have hget := Hash.get?_delete d.files (fun key => key.1 == destination) (other, name)
    rw [hget, if_neg (by simpa using hne)]
  have hcopy : ∀ d', Disk.Only destination d d' → wp A (copyTree source destination) C Q E d' := by
    intro d' hd'
    refine wp_bind (wp_read (h d' hd').1 (fun names _ => ?_)
      (fun e he => by cases he) fun _ _ => (h d' hd').2.2 _)
    refine wp_forM (fun _ d' => Disk.Only destination d d')
      (fun name _ d' hd' => ?_) (fun d' hd' => (h d' hd').2.1) names d' hd'
    exact wp_copyAtomic (h d' hd').1 (fun _ => (h d' hd').2.2 _) (fun _ _ => hd'.trans (.set _ _))
      (fun _ _ => ⟨(h d' hd').2.2 _, fun _ _ => (h _ (hd'.trans (.set _ _))).2.2 _⟩)
  refine wp_bind (wp_attempt (wp_change (h d (.refl d)).1 (hcopy _ hdel) fun took _ => ?_))
  exact of_took (hcopy d (.refl d)) (hcopy _ hdel) took

-- ======== replacing

theorem wp_replaceFile {m : Managed}
    (hroot : spec.installRoot = .installRoot) (hmarks : d.marked directory m = true →
      directory = spec.backupDir ∧ d.content directory m.name = none) (hcut : C d)
    (hok : ∀ d', Disk.Only .installRoot d d' → (∀ path, path ≠ m.target →
        d'.content .installRoot path = d.content .installRoot path) →
      d'.installed m = d.source directory m → Q () d')
    (hfailed : ∀ e d', Disk.Only .installRoot d d' →
      ((∃ took, A .file (some (.failed took))) ∨ directory = spec.backupDir
        ∧ d.marked directory m = false ∧ d.content directory m.name = none) → E e d') :
    wp A (replaceFile spec directory m) C Q E d := by
  -- what comes when the mark is not seen
  have hunmarked : (d.marked directory m = true → ∃ took, A .file (some (.failed took))) → wp A (do
        if ← stat directory m.name then
          copyAtomic (directory, m.name) (spec.installRoot, m.target) m.mode
        else if directory = spec.backupDir then
          .fail (.backupLacks m.name)) C Q E d := by
    intro hunseen
    refine wp_bind (wp_stat hcut ?_ fun took h => hfailed _ d (.refl d) (Or.inl ⟨took, h⟩))
    cases hfile : d.files.get? (directory, m.name) with
    | some file =>
      have hmark : d.marked directory m = false := by
        by_contra hmark
        have hnone := (hmarks (by simpa using hmark)).2
        simp [Disk.content, hfile] at hnone
      have hset : Disk.Only .installRoot d { d with
          files := d.files.set (spec.installRoot, m.target) ⟨file.content, m.mode⟩ } := by
        rw [hroot]
        exact .set _ _
      have heq : ∀ {file' : File}, d.files.get? (directory, m.name) = some file' → file' = file :=
        fun h => Option.some.inj (h.symm.trans hfile)
      refine wp_copyAtomic hcut (fun hnone => ?_) (fun file' hfile' => ?_)
        fun took h => ⟨hfailed _ d (.refl d) (Or.inl ⟨took, h⟩), fun file' hfile' => ?_⟩
      · rw [hfile] at hnone
        cases hnone
      · obtain rfl := heq hfile'
        rw [hroot] at hset ⊢
        refine hok _ hset (fun path hne => ?_) ?_
        · rw [Disk.content_set, if_neg hne]
        · unfold Disk.installed Disk.source
          rw [Disk.content_set, hmark]
          simp [Disk.content, hfile]
      · obtain rfl := heq hfile'
        exact hfailed _ _ hset (Or.inl ⟨took, h⟩)
    | none =>
      have hnone : d.content directory m.name = none := by
        simp [Disk.content, hfile]
      by_cases hbackup : directory = spec.backupDir
      · simp only [Option.isSome_none, Bool.false_eq_true, if_false, if_pos hbackup]
        refine wp_fail (hfailed _ d (.refl d) ?_)
        cases hmark : d.marked directory m with
        | true => exact Or.inl (hunseen hmark)
        | false => exact Or.inr ⟨hbackup, rfl, hnone⟩
      · simp only [Option.isSome_none, Bool.false_eq_true, if_false, if_neg hbackup]
        refine wp_pure (hok d (.refl d) (fun _ _ => rfl) ?_)
        have hmark : d.marked directory m = false := by
          by_contra hmark
          exact hbackup (hmarks (by simpa using hmark)).1
        simp [Disk.source, hmark, hnone]
  refine wp_bind (wp_attempt (wp_stat hcut ?_ fun took h => ?_))
  · cases hmark : d.marked directory m with
    | true =>
      rw [show (d.files.get? (directory, m.missing)).isSome = true from
        hmark]
      have hdel : Disk.Only .installRoot d { d with
          files := d.files.del (spec.installRoot, m.target) } := by
        rw [hroot]
        exact .del _
      refine wp_change hcut ?_ fun took h => ?_
      · rw [hroot] at hdel ⊢
        refine hok _ hdel (fun path hne => ?_) ?_
        · rw [Disk.content_del, if_neg hne]
        · unfold Disk.installed Disk.source
          rw [Disk.content_del, if_pos rfl, if_pos hmark]
      · exact of_took (hfailed _ d (.refl d) (Or.inl ⟨_, h⟩))
          (hfailed _ _ hdel (Or.inl ⟨_, h⟩)) took
    | false =>
      rw [show (d.files.get? (directory, m.missing)).isSome = false from
        hmark]
      exact hunmarked fun h => by
        rw [hmark] at h
        cases h
  · exact hunmarked fun _ => ⟨took, h⟩

theorem wp_replaceManaged {sourceRoot directory : Directory}
    (hroot : spec.installRoot = .installRoot)
    (hsourceRoot : sourceRoot = directory) (hdirectory : directory ≠ .installRoot)
    (hmarks : ∀ m ∈ managedTargets, d.marked directory m = true →
      directory = spec.backupDir ∧ d.content directory m.name = none)
    (hcut : ∀ d', Disk.Only .installRoot d d' → C d') (hok : ∀ d', Disk.Only .installRoot d d' →
      (∀ m ∈ managedTargets, d'.installed m = d.source directory m) → Q () d')
    (hfailed : ∀ e d', Disk.Only .installRoot d d' →
      ((∃ took, A .file (some (.failed took))) ∨ directory = spec.backupDir
        ∧ ∃ m ∈ managedTargets, d.marked directory m = false
          ∧ d.content directory m.name = none) → E e d') :
    wp A (replaceManaged spec sourceRoot) C Q E d := by
  rw [hsourceRoot]
  -- the files still to come are as before, the others are replaced
  refine wp_forM (fun rest d' => Disk.Only .installRoot d d' ∧ rest.Sublist managedTargets
      ∧ (∀ m ∈ rest, d'.installed m = d.installed m) ∧ ∀ m ∈ managedTargets, m ∉ rest →
        d'.installed m = d.source directory m) (fun m rest d' ⟨honly, hsub, hcome, hgone⟩ => ?_)
    (fun d' ⟨honly, _, _, hgone⟩ =>
      hok d' honly fun m hm => hgone m hm List.not_mem_nil)
    managedTargets d ⟨.refl d, List.Sublist.refl _, fun _ _ => rfl, fun _ hm hnot => absurd hm hnot⟩
  have hm : m ∈ managedTargets := hsub.subset List.mem_cons_self
  have hnodup : (m :: rest).Nodup := hsub.nodup managedTargets_nodup
  have hmarked := honly.marked hdirectory m
  have hcontent := honly.content hdirectory m.name
  have hsource : d'.source directory m = d.source directory m := by
    unfold Disk.source
    rw [hmarked, hcontent, hcome m List.mem_cons_self]
  refine wp_replaceFile hroot (fun h => ?_) (hcut d' honly)
    (fun d'' honly' hothers hnow => ?_) fun e d'' honly' hwhy => ?_
  · rw [hcontent]
    exact hmarks m hm (hmarked ▸ h)
  · have hother : ∀ m' ∈ managedTargets, m' ≠ m →
        d''.installed m' = d'.installed m' := fun m' hm' hne =>
      hothers m'.target fun heq => hne (target_inj m' hm' m hm heq)
    refine ⟨honly.trans honly', (List.sublist_cons_self m rest).trans hsub,
      fun m' hm' => ?_, fun m' hm' hnot => ?_⟩
    · have hne : m' ≠ m := fun heq =>
        (List.nodup_cons.mp hnodup).1 (heq ▸ hm')
      exact (hother m' (hsub.subset (List.mem_cons_of_mem _ hm')) hne).trans
        (hcome m' (List.mem_cons_of_mem _ hm'))
    · by_cases heq : m' = m
      · rw [heq, hnow, hsource]
      · rw [hother m' hm' heq]
        exact hgone m' hm' (by simp [heq, hnot])
  · refine hfailed e d'' (honly.trans honly') (hwhy.imp_right ?_)
    rintro ⟨hbackup, hmark, hnone⟩
    exact ⟨hbackup, m, hm, hmarked ▸ hmark, hcontent ▸ hnone⟩

end Operations

-- ======== backups

/-- What the backup has so far is right. -/
structure Disk.Partial (pre : Managed → Option (List UInt8)) (d : Disk) : Prop where
  marked : ∀ m ∈ managedTargets, d.marked .backup m = true → pre m = none
  kept : ∀ m ∈ managedTargets, ∀ c, d.content .backup m.name = some c → pre m = some c

/-- The backup has something for a file. -/
def Disk.recorded (d : Disk) (m : Managed) : Bool :=
  d.marked .backup m || (d.content .backup m.name).isSome

/-- The backup is complete. -/
structure Disk.BackedUp (pre : Managed → Option (List UInt8)) (d : Disk) : Prop where
  right : d.Partial pre
  whole : ∀ m ∈ managedTargets, d.recorded m = true

section Backups

variable {A : Device → Option Fate → Prop} {C : Disk → Prop}
  {E : Failure → Disk → Prop} {d d' : Disk} {spec : Spec}
  {pre : Managed → Option (List UInt8)} {directory : Directory} {m : Managed}
  {Q : Unit → Disk → Prop}

theorem Disk.Partial.only (h : d.Partial pre) (hd : d.Only directory d')
    (hne : directory ≠ .backup) : d'.Partial pre :=
  ⟨fun m hm hmark => h.marked m hm (hd.marked hne.symm m ▸ hmark),
    fun m hm c hc => h.kept m hm c (hd.content hne.symm m.name ▸ hc)⟩

theorem Disk.BackedUp.only (h : d.BackedUp pre) (hd : d.Only directory d')
    (hne : directory ≠ .backup) : d'.BackedUp pre := by
  refine ⟨h.right.only hd hne, fun m hm => ?_⟩
  unfold Disk.recorded
  rw [hd.marked hne.symm, hd.content hne.symm]
  exact h.whole m hm

/-- A mark and a copy exclude each other. -/
theorem Disk.Partial.unmarked (h : d.Partial pre) (hm : m ∈ managedTargets)
    (hmark : d.marked .backup m = true) : d.content .backup m.name = none := by
  cases hc : d.content .backup m.name with
  | none => rfl
  | some c =>
    have hsome := h.kept m hm c hc
    rw [h.marked m hm hmark] at hsome
    cases hsome

/-- Restoring a complete backup gives back what there was. -/
theorem Disk.BackedUp.source (h : d.BackedUp pre)
    (hm : m ∈ managedTargets) : d.source .backup m = pre m := by
  have hwhole := h.whole m hm
  unfold Disk.source
  cases hmark : d.marked .backup m with
  | true =>
    exact (h.right.marked m hm hmark).symm
  | false =>
    unfold Disk.recorded at hwhole
    rw [hmark] at hwhole
    obtain ⟨c, hc⟩ := Option.isSome_iff_exists.mp hwhole
    simp [hc, h.right.kept m hm c hc]

/-- The backup of one file. -/
def Disk.backs (d : Disk) (m : Managed) : Disk :=
  match d.installed m with
  | none => { d with
      files := d.files.set (.backup, m.missing) ⟨[], 0o600⟩ }
  | some content => { d with
      files := d.files.set (.backup, m.name) ⟨content, 0o600⟩ }

theorem Disk.backs_only (d : Disk) (m : Managed) : d.Only .backup (d.backs m) := by
  unfold Disk.backs
  split
  · exact .set _ _
  · exact .set _ _

theorem Disk.Partial.backs (h : d.Partial pre)
    (hm : m ∈ managedTargets) (hpre : d.installed m = pre m) :
    (d.backs m).Partial pre ∧ (d.backs m).recorded m = true
      ∧ ∀ m', d.recorded m' = true → (d.backs m).recorded m' = true := by
  unfold Disk.backs
  cases hi : d.installed m with
  | none =>
    refine ⟨⟨fun m' hm' hmark => ?_, fun m' hm' c hc => ?_⟩, ?_, fun m' hr => ?_⟩
    · rw [Disk.marked_set, Bool.or_eq_true, decide_eq_true_eq] at hmark
      rcases hmark with heq | hmark
      · rw [missing_inj m' hm' m hm heq, ← hpre, hi]
      · exact h.marked m' hm' hmark
    · rw [Disk.content_set, if_neg (name_ne_missing m' hm' m hm)] at hc
      exact h.kept m' hm' c hc
    · unfold Disk.recorded
      rw [Disk.marked_set]
      simp
    · unfold Disk.recorded at hr ⊢
      rw [Bool.or_eq_true] at hr
      rw [Disk.marked_set, Disk.content_set]
      by_cases heq : m'.name = m.missing
      · simp [heq]
      · rcases hr with hr | hr <;> simp [hr, heq]
  | some content =>
    refine ⟨⟨fun m' hm' hmark => ?_, fun m' hm' c hc => ?_⟩, ?_, fun m' hr => ?_⟩
    · rw [Disk.marked_set, Bool.or_eq_true, decide_eq_true_eq] at hmark
      rcases hmark with heq | hmark
      · exact absurd heq.symm (name_ne_missing m hm m' hm')
      · exact h.marked m' hm' hmark
    · rw [Disk.content_set] at hc
      split at hc
      · next heq =>
        obtain rfl := name_inj m' hm' m hm heq
        rw [← hpre, hi]
        exact hc
      · exact h.kept m' hm' c hc
    · unfold Disk.recorded
      rw [Disk.content_set]
      simp
    · unfold Disk.recorded at hr ⊢
      rw [Bool.or_eq_true] at hr
      rw [Disk.marked_set, Disk.content_set]
      by_cases heq : m'.name = m.name
      · simp [heq]
      · rcases hr with hr | hr <;> simp [hr, heq]

variable (hroot : spec.installRoot = .installRoot) (hbackup : spec.backupDir = .backup)

include hroot hbackup

theorem wp_backupFile (hcut : C d) (hok : Q () (d.backs m))
    (hfailed : ∀ took, A .file (some (.failed took)) → E .io d ∧ E .io (d.backs m)) :
    wp A (backupFile spec m) C Q E d := by
  refine wp_bind (wp_stat hcut ?_ fun took h => (hfailed took h).1)
  rw [hroot, hbackup]
  cases hfile : d.files.get? (.installRoot, m.target) with
  | none =>
    have hbacks : d.backs m = { d with
        files := d.files.set (.backup, m.missing) ⟨[], 0o600⟩ } := by
      simp [Disk.backs, Disk.installed, Disk.content, hfile]
    rw [hbacks] at hok hfailed
    exact wp_change hcut hok fun took h => of_took (hfailed took h).1 (hfailed took h).2 took
  | some file =>
    have hbacks : d.backs m = { d with
        files := d.files.set (.backup, m.name) ⟨file.content, 0o600⟩ } := by
      simp [Disk.backs, Disk.installed, Disk.content, hfile]
    rw [hbacks] at hok hfailed
    refine wp_copyAtomic hcut (fun hnone => ?_) (fun file' hfile' => ?_)
      fun took h => ⟨(hfailed took h).1, fun file' hfile' => ?_⟩
    · rw [hfile] at hnone
      cases hnone
    · cases hfile'.symm.trans hfile
      exact hok
    · cases hfile'.symm.trans hfile
      exact (hfailed took h).2

theorem wp_backupManaged (hcopied : d.Partial pre)
    (hpre : ∀ m ∈ managedTargets, d.installed m = pre m)
    (hcut : ∀ d', d.Only .backup d' → d'.Partial pre → C d')
    (hok : ∀ d', d.Only .backup d' → d'.BackedUp pre → Q () d')
    (hfailed : ∀ d', d.Only .backup d' → d'.Partial pre →
      (∃ took, A .file (some (.failed took))) → E .io d') : wp A (backupManaged spec) C Q E d := by
  refine wp_forM (fun rest d' => d.Only .backup d' ∧ d'.Partial pre ∧ rest.Sublist managedTargets
      ∧ ∀ m ∈ managedTargets, m ∉ rest → d'.recorded m = true)
    (fun m rest d' ⟨honly, hright, hsub, hgone⟩ => ?_)
    (fun d' ⟨honly, hright, _, hgone⟩ => hok d' honly
      ⟨hright, fun m hm => hgone m hm List.not_mem_nil⟩)
    managedTargets d ⟨.refl d, hcopied, List.Sublist.refl _, fun _ hm hnot => absurd hm hnot⟩
  have hm : m ∈ managedTargets := hsub.subset List.mem_cons_self
  have honly' := honly.trans (d'.backs_only m)
  obtain ⟨hright', hnow, hmore⟩ := hright.backs hm ((honly.installed (by simp) m).trans (hpre m hm))
  refine wp_backupFile hroot hbackup (hcut d' honly hright)
    ⟨honly', hright', (List.sublist_cons_self m rest).trans hsub, fun m' hm' hnot => ?_⟩
    fun took h => ⟨hfailed d' honly hright ⟨took, h⟩, hfailed _ honly' hright' ⟨took, h⟩⟩
  by_cases heq : m' = m
  · rw [heq]
    exact hnow
  · exact hmore m' (hgone m' hm' (by simp [heq, hnot]))

end Backups

-- ======== invariant

/-- An install order, as the agent makes it. -/
structure Spec.Installs (spec : Spec) : Prop where
  commandID : validCommandID spec.commandID = true
  targetID : spec.targetID ≠ ""
  action : spec.action = .install
  stageDir : spec.stageDir = .stage
  backupDir : spec.backupDir = .backup
  installRoot : spec.installRoot = .installRoot

/-- What no run touches: the staged files and the archive they come
from, and that the agent's state can be read. -/
structure Disk.Sound (digest : List UInt8 → String) (order : Spec)
    (staged : Managed → Option (List UInt8)) (d : Disk) : Prop where
  archive : ∃ bytes, d.archive = some bytes
    ∧ bytes.length = order.byteSize ∧ digest bytes = order.sha256
  staged : ∀ m ∈ managedTargets, d.content .stage m.name = staged m
  unmarked : ∀ m ∈ managedTargets, d.marked .stage m = false
  readable : d.runtime ≠ .unreadable
  valid : ∀ state, d.runtime = .holds state → validCommandID state.commandID = true

/-- The managed files are as before. -/
def Disk.Untouched (pre : Managed → Option (List UInt8)) (d : Disk) : Prop :=
  ∀ m ∈ managedTargets, d.installed m = pre m

/-- The managed files are as staged, those that are. -/
def Disk.Upgraded (pre staged : Managed → Option (List UInt8)) (d : Disk) : Prop :=
  ∀ m ∈ managedTargets, d.installed m = (staged m).or (pre m)

instance (pre staged : Managed → Option (List UInt8)) (d : Disk) :
    Decidable (d.Upgraded pre staged) :=
  inferInstanceAs (Decidable (∀ m ∈ managedTargets, d.installed m = (staged m).or (pre m)))

/-- What a recorded phase means for the disk. -/
def Phase.Means (pre staged : Managed → Option (List UInt8)) (d : Disk) : Phase → Prop
  | .staged => d.Untouched pre ∧ d.Partial pre
  | .backupComplete | .rollbackReady => d.Untouched pre ∧ d.BackedUp pre
  | .replacing | .filesReplaced | .restarted | .rollbackFailed =>
    d.BackedUp pre
  | .succeeded => d.Upgraded pre staged
  | .rolledBack => d.Untouched pre
  | .rollingBack => False

/-- The disk while `phase` is recorded. -/
structure Disk.At (digest : List UInt8 → String) (order : Spec)
    (pre staged : Managed → Option (List UInt8)) (phase : Phase) (d : Disk) : Prop where
  sound : d.Sound digest order staged
  spec : d.spec = .holds { order with phase }
  means : phase.Means pre staged d

/-- The disk between two runs, and inside them. -/
def Disk.Inv (digest : List UInt8 → String) (order : Spec)
    (pre staged : Managed → Option (List UInt8)) (d : Disk) : Prop :=
  ∃ phase, d.At digest order pre staged phase

/-- The command is done. -/
def Disk.Settled (d : Disk) : Prop :=
  d.phase = some .succeeded ∨ d.phase = some .rolledBack

/-- An operation on files, or one of the recovery, may fail. -/
def Mishap (A : Device → Option Fate → Prop) : Prop :=
  ∃ took, A .file (some (.failed took)) ∨ A .recovery (some (.failed took))

section Runs

variable {digest : List UInt8 → String} {order : Spec}
  {pre staged : Managed → Option (List UInt8)}
  {A : Device → Option Fate → Prop} {d d' : Disk} {phase : Phase} {now : Int}
  {directory : Directory} {C : Disk → Prop} {Q : Unit → Disk → Prop} {E : Failure → Disk → Prop}
  {spec : Spec} {rest : Update Unit}

/-- Where a run may end, or be cut off. -/
abbrev Good (digest : List UInt8 → String) (order : Spec)
    (pre staged : Managed → Option (List UInt8))
    (A : Device → Option Fate → Prop) (d : Disk) : Prop :=
  d.Inv digest order pre staged ∧ (Mishap A ∨ d.Settled)

/-- Wherever the procedure is cut off the invariant holds, and it ends
well. -/
abbrev Safely (digest : List UInt8 → String) (order : Spec)
    (pre staged : Managed → Option (List UInt8)) (A : Device → Option Fate → Prop)
    (p : Update Unit) (d : Disk) : Prop :=
  wp A p (·.Inv digest order pre staged) (fun _ => Good digest order pre staged A)
    (fun _ => Good digest order pre staged A) d

theorem Disk.Sound.only (h : d.Sound digest order staged)
    (hd : d.Only directory d') (hne : directory ≠ .stage) : d'.Sound digest order staged :=
  ⟨hd.archive ▸ h.archive, fun m hm => (hd.content hne.symm m.name).trans (h.staged m hm),
    fun m hm => (hd.marked hne.symm m).trans (h.unmarked m hm),
    hd.runtime ▸ h.readable, hd.runtime ▸ h.valid⟩

theorem Disk.Sound.record (h : d.Sound digest order staged) (hmeans : phase.Means pre staged d) :
    Disk.At digest order pre staged phase
      { d with spec := .holds { order with phase } } := by
  refine ⟨{ h with }, rfl, ?_⟩
  cases phase with
  | staged => exact ⟨hmeans.1, { hmeans.2 with }⟩
  | backupComplete | rollbackReady =>
    exact ⟨hmeans.1, ⟨{ hmeans.2.right with }, hmeans.2.whole⟩⟩
  | replacing | filesReplaced | restarted | rollbackFailed =>
    exact ⟨{ hmeans.right with }, hmeans.whole⟩
  | succeeded | rolledBack => exact hmeans
  | rollingBack => cases hmeans

theorem Disk.At.phase_eq (h : d.At digest order pre staged phase) : d.phase = some phase := by
  unfold Disk.phase
  rw [h.spec]

theorem wp_saveSpec (hcut : C d)
    (hok : Q () { d with spec := .holds spec }) (hfailed : ∀ took, A .file (some (.failed took)) →
      E .io (if took then { d with spec := .holds spec } else d)) : wp A (saveSpec spec) C Q E d :=
  wp_change hcut hok hfailed

theorem wp_saveAfter {cause : Failure} (hcut : C d) (hok : Q () { d with spec := .holds spec })
    (hfailed : ∀ e took, A .file (some (.failed took)) →
      E e (if took then { d with spec := .holds spec } else d)) :
    wp A (saveAfter cause spec) C Q E d := by
  refine wp_bind (wp_attempt (wp_saveSpec hcut (wp_pure hok)
    fun took h => wp_fail (hfailed _ took h)))

theorem wp_call {device : Device} (hcut : C d) (hok : Q () d)
    (hfailed : ∀ took, A device (some (.failed took)) → E .system d) : wp A (call device) C Q E d :=
  wp_write hcut hok (fun h => hfailed false h) fun h => hfailed true h

theorem wp_finishAutomaticRollback (horder : order.Installs)
    (h : d.At digest order pre staged .rollbackReady) (cause : Failure) :
    Safely digest order pre staged A
      (finishAutomaticRollback now { order with phase := .rollbackReady } cause) d := by
  have hinv : ∀ {d : Disk}, d.At digest order pre staged .rollbackReady →
      d.Inv digest order pre staged := fun h => ⟨_, h⟩
  refine wp_bind (wp_attempt (wp_read (hinv h) (fun state _ => ?_)
    (fun e he => ?_) fun took hf => wp_fail ⟨hinv h, Or.inl ⟨took, Or.inl hf⟩⟩))
  · dsimp only
    rw [if_neg (by simp [horder.targetID])]
    generalize hfound : Option.filter _ state = found
    have hid : validCommandID (rolledBackState now
        { order with phase := .rollbackReady } found).commandID = true := by
      cases found with
      | none => exact horder.commandID
      | some mine =>
        rw [Option.filter_eq_some_iff, beq_iff_eq] at hfound
        show validCommandID mine.commandID = true
        rw [hfound.2]
        exact horder.commandID
    generalize hreport : rolledBackState now _ found = report at hid ⊢
    unfold saveRuntimeState
    rw [if_pos hid]
    have hnext : Disk.At digest order pre staged .rollbackReady
        { d with runtime := .holds report } := by
      refine ⟨⟨h.sound.archive, h.sound.staged, h.sound.unmarked, by simp,
        fun s hs => ?_⟩, h.spec, h.means.1, ⟨{ h.means.2.right with }, h.means.2.whole⟩⟩
      cases hs
      exact hid
    have hdone := hnext.sound.record (show Phase.rolledBack.Means pre staged _ from hnext.means.1)
    refine wp_bind (wp_attempt (wp_change (hinv h) ?_ fun took hf => ?_))
    · refine wp_bind (wp_attempt (wp_call (hinv hnext) ?_ fun took hf =>
        wp_fail ⟨hinv hnext, Or.inl ⟨took, Or.inr hf⟩⟩))
      refine wp_bind (wp_saveAfter (hinv hnext) (wp_fail
        ⟨⟨_, hdone⟩, Or.inr (Or.inr hdone.phase_eq)⟩)
        fun e took hf => ⟨?_, Or.inl ⟨took, Or.inl hf⟩⟩)
      exact of_took (hinv hnext) ⟨_, hdone⟩ took
    · exact wp_fail ⟨of_took (hinv h) (hinv hnext) took, Or.inl ⟨took, Or.inl hf⟩⟩
  · exfalso
    cases hruntime : d.runtime with
    | missing => simp [hruntime] at he
    | unreadable => exact h.sound.readable hruntime
    | holds state =>
      simp [hruntime, h.sound.valid state hruntime] at he

/-- The replacement is under way, or being taken back. -/
def Phase.loose : Phase → Bool
  | .replacing | .filesReplaced | .restarted | .rollbackFailed => true
  | _ => false

theorem Phase.means_loose (h : phase.loose = true) : phase.Means pre staged d ↔ d.BackedUp pre := by
  cases phase with
  | replacing | filesReplaced | restarted | rollbackFailed => exact Iff.rfl
  | _ => cases h

section At

variable (h : d.At digest order pre staged phase) (hloose : phase.loose = true)

include h hloose

/-- In a loose phase the installed files may change. -/
theorem Disk.At.loose (hd : d.Only .installRoot d') :
    d'.At digest order pre staged phase := ⟨h.sound.only hd (by simp), hd.spec.trans h.spec,
    (Phase.means_loose hloose).mpr (((Phase.means_loose hloose).mp h.means).only hd (by simp))⟩

/-- The backup could not be put back: that is recorded, and what failed is
passed on. -/
theorem wp_giveUp (hmishap : Mishap A) (cause : Failure) :
    Safely digest order pre staged A (do
      saveAfter cause { order with phase := .rollbackFailed }
      (.fail cause : Update Unit)) d := by
  have hdone := h.sound.record (show Phase.rollbackFailed.Means pre staged d from
      (Phase.means_loose hloose).mp h.means)
  refine wp_bind (wp_saveAfter ⟨_, h⟩ (wp_fail ⟨⟨_, hdone⟩, Or.inl hmishap⟩)
    fun _ took hf => ⟨?_, Or.inl hmishap⟩)
  exact of_took ⟨_, h⟩ ⟨_, hdone⟩ took

theorem wp_rollbackAfterFailure (horder : order.Installs) (memory : Phase) (cause : Failure) :
    Safely digest order pre staged A
      (rollbackAfterFailure now { order with phase := memory } cause) d := by
  have hbacked : d.BackedUp pre := (Phase.means_loose hloose).mp h.means
  have hstays : ∀ {d' : Disk}, d.Only .installRoot d' →
      d'.At digest order pre staged phase := fun hd => h.loose hloose hd
  refine wp_bind (wp_attempt (wp_replaceManaged horder.installRoot
    horder.backupDir (by simp) (fun m hm hmark => ⟨horder.backupDir.symm,
      hbacked.right.unmarked hm hmark⟩) (fun d' hd => ⟨_, hstays hd⟩)
    (fun d' hd hrestored => ?_) fun e d' hd hwhy =>
      wp_giveUp (hstays hd) hloose ?_ _))
  · have huntouched : d'.Untouched pre := fun m hm =>
      (hrestored m hm).trans (hbacked.source hm)
    refine wp_bind (wp_attempt (wp_call ⟨_, hstays hd⟩ ?_ fun took hf =>
      wp_giveUp (hstays hd) hloose ⟨took, Or.inr hf⟩ _))
    have hready := (hstays hd).sound.record (show Phase.rollbackReady.Means pre staged d' from
        ⟨huntouched, (Phase.means_loose hloose).mp (hstays hd).means⟩)
    refine wp_bind (wp_saveAfter ⟨_, hstays hd⟩ (wp_finishAutomaticRollback horder hready cause)
      fun _ took hf => ⟨?_, Or.inl ⟨took, Or.inl hf⟩⟩)
    exact of_took ⟨_, hstays hd⟩ ⟨_, hready⟩ took
  · rcases hwhy with ⟨took, hf⟩ | ⟨-, m, hm, hmark, hnone⟩
    · exact ⟨took, Or.inl hf⟩
    · have hwhole := hbacked.whole m hm
      simp [Disk.recorded, hmark, hnone] at hwhole

end At

theorem wp_orRollBack {step rest : Update Unit} (h : wp A step C (fun _ => wp A rest C Q E)
      (fun cause => wp A (rollbackAfterFailure now spec cause) C Q E) d) :
    wp A (orRollBack now spec step rest) C Q E d := wp_bind (wp_attempt h)

/-- A call of the system after the replacement: when it fails the backup
is put back. -/
theorem wp_callOrRollBack (horder : order.Installs)
    (h : d.At digest order pre staged phase) (hloose : phase.loose = true)
    {memory : Phase} (hrest : Safely digest order pre staged A rest d) :
    Safely digest order pre staged A
      (orRollBack now { order with phase := memory } (call .system) rest) d :=
  wp_orRollBack (wp_call ⟨_, h⟩ hrest fun _ _ => wp_rollbackAfterFailure h hloose horder memory _)

theorem wp_record {next : Phase} (h : d.At digest order pre staged phase)
    (hmeans : next.Means pre staged d) (hrest : Disk.At digest order pre staged next
        { d with spec := .holds { order with phase := next } } →
      Safely digest order pre staged A rest
        { d with spec := .holds { order with phase := next } }) :
    Safely digest order pre staged A (do saveSpec { order with phase := next }; rest) d := by
  have hdone := h.sound.record hmeans
  refine wp_bind (wp_saveSpec ⟨_, h⟩ (hrest hdone) fun took hf =>
    ⟨?_, Or.inl ⟨took, Or.inl hf⟩⟩)
  exact of_took ⟨_, h⟩ ⟨_, hdone⟩ took

theorem wp_awaitConfirmation (horder : order.Installs) (h : d.At digest order pre staged .restarted)
    (hupgraded : d.Upgraded pre staged) :
    Safely digest order pre staged A (awaitConfirmation now { order with phase := .restarted })
      d := by
  refine wp_callOrRollBack horder h rfl (wp_record h hupgraded fun hdone => ?_)
  -- the copy that is kept does not touch what is installed
  have hkept : ∀ {d' : Disk}, Disk.Only .previous
      { d with spec := .holds { order with phase := .succeeded } } d' →
      d'.At digest order pre staged .succeeded := fun hd =>
    ⟨hdone.sound.only hd (by simp), hd.spec.trans hdone.spec,
      fun m hm => (hd.installed (by simp) m).trans (hdone.means m hm)⟩
  refine wp_bind (wp_attempt (wp_replaceDirectory fun d' hd => ?_))
  have hgood : Good digest order pre staged A d' :=
    ⟨⟨_, hkept hd⟩, Or.inr (Or.inl (hkept hd).phase_eq)⟩
  exact ⟨hgood.1, wp_pure hgood, fun _ => wp_pure hgood⟩

theorem wp_restart (horder : order.Installs) (h : d.At digest order pre staged .filesReplaced)
    (hupgraded : d.Upgraded pre staged) :
    Safely digest order pre staged A (restart now { order with phase := .filesReplaced }) d :=
  wp_callOrRollBack horder h rfl <| wp_callOrRollBack horder h rfl <|
    wp_record h h.means fun hdone =>
      wp_awaitConfirmation horder hdone hupgraded

theorem wp_replace (horder : order.Installs) (h : d.At digest order pre staged .backupComplete) :
    Safely digest order pre staged A (replace now { order with phase := .backupComplete }) d := by
  refine wp_record h h.means.2 fun hdone => wp_orRollBack ?_
  refine wp_replaceManaged horder.installRoot horder.stageDir (by simp)
    (fun m hm hmark => ?_) (fun d' hd => ⟨_, hdone.loose rfl hd⟩)
    (fun d' hd hreplaced => ?_) fun e d' hd _ =>
      wp_rollbackAfterFailure (hdone.loose rfl hd) rfl horder _ e
  · rw [hdone.sound.unmarked m hm] at hmark
    cases hmark
  · have hat := hdone.loose rfl hd
    have hupgraded : d'.Upgraded pre staged := by
      intro m hm
      rw [hreplaced m hm, Disk.source, hdone.sound.unmarked m hm, hdone.sound.staged m hm]
      exact congrArg (Option.or _) (h.means.1 m hm)
    have hnext := hat.sound.record (show Phase.filesReplaced.Means pre staged d' from hat.means)
    refine wp_orRollBack (wp_saveSpec ⟨_, hat⟩ (wp_restart horder hnext hupgraded) fun took _ => ?_)
    exact of_took (wp_rollbackAfterFailure hat rfl horder _ _)
      (wp_rollbackAfterFailure hnext rfl horder _ _) took

theorem wp_backUp (horder : order.Installs) (h : d.At digest order pre staged .staged) :
    Safely digest order pre staged A (backUp digest now { order with phase := .staged }) d := by
  obtain ⟨bytes, harchive, hsize, hdigest⟩ := h.sound.archive
  have htake : bytes.take (order.byteSize + 1) = bytes := List.take_of_length_le (by omega)
  have hat : ∀ {d' : Disk}, d.Only .backup d' → d'.Partial pre →
      d'.At digest order pre staged .staged := fun hd hright =>
    ⟨h.sound.only hd (by simp), hd.spec.trans h.spec,
      fun m hm => (hd.installed (by simp) m).trans (h.means.1 m hm), hright⟩
  refine wp_bind (wp_read ⟨_, h⟩ (fun _ _ => ?_) (fun e he => ?_)
    fun took hf => ⟨⟨_, h⟩, Or.inl ⟨took, Or.inl hf⟩⟩)
  · refine wp_bind (wp_backupManaged horder.installRoot horder.backupDir
      h.means.2 h.means.1 (fun d' hd hright => ⟨_, hat hd hright⟩) (fun d' hd hbacked => ?_)
      fun d' hd hright ⟨took, hf⟩ =>
        ⟨⟨_, hat hd hright⟩, Or.inl ⟨took, Or.inl hf⟩⟩)
    have hstaged := hat hd hbacked.right
    exact wp_record hstaged ⟨hstaged.means.1, hbacked⟩ fun hdone =>
      wp_replace horder hdone
  · simp [harchive, htake, hsize, hdigest] at he

/-- The files are as staged when the recorded phase has them
replaced. -/
def Disk.Faithful (pre staged : Managed → Option (List UInt8)) (d : Disk) : Prop :=
  d.phase = some .filesReplaced ∨ d.phase = some .restarted → d.Upgraded pre staged

instance (pre staged : Managed → Option (List UInt8)) (d : Disk) :
    Decidable (d.Faithful pre staged) :=
  inferInstanceAs (Decidable (_ ∨ _ → d.Upgraded pre staged))

variable (horder : order.Installs) (h : d.Inv digest order pre staged)

include horder h

/-- Every run of `Apply` that does not begin in the window. -/
theorem wp_apply (hfaithful : d.Faithful pre staged) :
    Safely digest order pre staged A (apply digest now order.commandID) d := by
  obtain ⟨phase, hat⟩ := h
  unfold apply
  rw [if_pos horder.commandID]
  refine wp_bind (wp_read ⟨_, hat⟩ (fun spec hspec => ?_) (fun e he => ?_)
    fun took hf => ⟨⟨_, hat⟩, Or.inl ⟨took, Or.inl hf⟩⟩)
  · rw [hat.spec] at hspec
    cases hspec
    rw [if_neg (by simp [horder.action])]
    cases phase with
    | rollbackReady => exact wp_finishAutomaticRollback horder hat _
    | replacing | rollbackFailed =>
      exact wp_rollbackAfterFailure hat rfl horder _ _
    | staged => exact wp_backUp horder hat
    | backupComplete => exact wp_replace horder hat
    | filesReplaced =>
      exact wp_restart horder hat (hfaithful (Or.inl hat.phase_eq))
    | restarted =>
      exact wp_awaitConfirmation horder hat (hfaithful (Or.inr hat.phase_eq))
    | succeeded =>
      exact wp_pure ⟨⟨_, hat⟩, Or.inr (Or.inl hat.phase_eq)⟩
    | rolledBack =>
      exact wp_pure ⟨⟨_, hat⟩, Or.inr (Or.inr hat.phase_eq)⟩
    | rollingBack => exact hat.means.elim
  · rw [hat.spec] at he
    cases he

/-- Once the command is done its runs change nothing. -/
theorem wp_apply_settled (hsettled : d.Settled) :
    wp A (apply digest now order.commandID) (· = d) (fun _ => (· = d)) (fun _ => (· = d)) d := by
  obtain ⟨phase, hat⟩ := h
  unfold Disk.Settled at hsettled
  rw [hat.phase_eq, Option.some.injEq, Option.some.injEq] at hsettled
  unfold apply
  rw [if_pos horder.commandID]
  refine wp_bind (wp_read rfl (fun spec hspec => ?_) (fun _ _ => rfl) fun _ _ => rfl)
  rw [hat.spec] at hspec
  cases hspec
  rw [if_neg (by simp [horder.action])]
  rcases hsettled with rfl | rfl <;> exact wp_pure rfl

end Runs

-- ======== runs

/-- One run: what becomes of its operations, and when it is. -/
structure Run where
  ahead : Ahead Device
  now : Int

/-- What a run leaves. -/
def Run.step (digest : List UInt8 → String) (commandID : String) (d : Disk) (r : Run) : Disk :=
  (apply digest r.now commandID).leaves r.ahead d

section Step

variable {digest : List UInt8 → String} {order : Spec}
  {pre staged : Managed → Option (List UInt8)} {d : Disk} (horder : order.Installs)
  (h : d.Inv digest order pre staged)

include horder h

theorem Run.step_inv (hfaithful : d.Faithful pre staged) (r : Run) :
    (r.step digest order.commandID d).Inv digest order pre staged :=
  ((wp_apply (A := fun _ _ => True) horder h hfaithful).mono
    (fun _ h => h) (fun _ _ h => h.1) fun _ _ h => h.1).leaves fun _ _ => trivial

theorem Run.step_settled (hsettled : d.Settled) (r : Run) : r.step digest order.commandID d = d :=
  (wp_apply_settled (A := fun _ _ => True) horder h hsettled).leaves
    (I := (· = d)) fun _ _ => trivial

end Step

/-- All operations on files, and those of the recovery, are done. -/
def Spared (k : Device) (f : Option Fate) : Prop :=
  k = .system ∨ f = none ∨ f = some .done

theorem not_mishap_spared : ¬ Mishap Spared := by
  rintro ⟨took, h | h⟩ <;> rcases h with h | h | h <;> cases h

/-- An upgrade is done or taken back as a whole, however its runs go: as
long as none of them begins with the backup half put back. -/
theorem apply_crash_atomic (digest : List UInt8 → String) (order : Spec)
    (pre staged : Managed → Option (List UInt8)) (d₀ : Disk) (horder : order.Installs)
    (hstart : d₀.At digest order pre staged .staged) (runs : List Run)
    (hfaithful : Guarded (Run.step digest order.commandID)
      (fun d _ => d.Faithful pre staged) d₀ runs) :
    let d := run (Run.step digest order.commandID) d₀ runs
    (d.phase = some .succeeded → d.Upgraded pre staged)
      ∧ (d.phase = some .rolledBack → d.Untouched pre) ∧ (d.Settled → ∀ later : List Run,
        run (Run.step digest order.commandID) d later = d)
      ∧ (d.Faithful pre staged → ∀ now ahead, Meets Spared ahead → ∀ ahead' d' result,
          apply digest now order.commandID ahead d = .ended ahead' d' result → d'.Settled) := by
  intro d
  have hinv : d.Inv digest order pre staged :=
    Guarded.invariant (fun _ r h hf => r.step_inv horder h hf) ⟨_, hstart⟩ hfaithful
  have hmeans : ∀ phase, d.phase = some phase → phase.Means pre staged d := by
    intro phase hphase
    obtain ⟨phase', hat⟩ := hinv
    rw [hat.phase_eq] at hphase
    cases hphase
    exact hat.means
  refine ⟨hmeans _, hmeans _, fun hsettled later => ?_,
    fun hf now ahead hahead ahead' d' result happly => ?_⟩
  · refine run_invariant (I := (· = d)) (fun d' r hd => ?_) rfl later
    rw [hd]
    exact r.step_settled horder hinv hsettled
  · have hsafely : Safely digest order pre staged Spared (apply digest now order.commandID) d :=
      wp_apply horder hinv hf
    have hend := hsafely ahead hahead
    rw [happly] at hend
    cases result with
    | ok | error => exact hend.2.2.resolve_left not_mishap_spared

-- ======== sample

/-- An order to install. -/
def sampleOrder : Spec :=
  { commandID := "c1", targetID := "t1", action := .install
    targetVersion := "2.0.0", sha256 := "digest", byteSize := 1
    phase := .staged, stageDir := .stage, backupDir := .backup
    installRoot := .installRoot }

/-- The agent's binary is installed, and a newer one is staged. -/
def sampleDisk : Disk :=
  { spec := .holds sampleOrder, runtime := .missing, archive := some [0]
    files := ⟨[((.installRoot, "usr/local/bin/yunling-agent"),
      ⟨[1], 0o755⟩), ((.stage, "yunling-agent"), ⟨[2], 0o755⟩)],
      by decide⟩ }

/-- What is staged in the sample. -/
def sampleStaged (m : Managed) : Option (List UInt8) :=
  sampleDisk.content .stage m.name

theorem sampleOrder_installs : sampleOrder.Installs := by
  constructor <;> decide

theorem sampleDisk_at : sampleDisk.At (fun _ => "digest") sampleOrder
    sampleDisk.installed sampleStaged .staged :=
  { sound :=
      { archive := ⟨[0], rfl, rfl, rfl⟩
        staged := fun _ _ => rfl
        unmarked := by decide
        readable := by decide
        valid := fun _ h => by cases h }
    spec := rfl
    means := ⟨fun _ _ => rfl, by decide, by decide⟩ }

/-- A run in which `files` operations on files are done, and the calls of
the system go as given. -/
def sampleRun (files : Nat) (system : List Fate) : Run where
  ahead
    | .file => fun n => if n < files then some .done else none
    | .system => fun n => system[n]?
    | .recovery => fun _ => none
  now := 0

/-- The first run is cut off before it waits, the second one finds the
agent connected. -/
theorem apply_crash_atomic_resumed : (run (Run.step (fun _ => "digest") "c1") sampleDisk
        [sampleRun 29 [.done, .done], sampleRun 9 [.done]]).phase = some .succeeded
      ∧ (run (Run.step (fun _ => "digest") "c1") sampleDisk
        [sampleRun 29 [.done, .done], sampleRun 9 [.done]]).Upgraded
          sampleDisk.installed sampleStaged := by
  have hphase : (run (Run.step (fun _ => "digest") "c1") sampleDisk
      [sampleRun 29 [.done, .done], sampleRun 9 [.done]]).phase = some .succeeded := by decide
  exact ⟨hphase, (apply_crash_atomic (fun _ => "digest") sampleOrder
    sampleDisk.installed sampleStaged sampleDisk sampleOrder_installs
    sampleDisk_at [sampleRun 29 [.done, .done], sampleRun 9 [.done]] (by decide)).1 hphase⟩

/-- A run waits in vain and is cut off while it puts the backup back: the
old binary is there again. The next run finds the agent connected and
records the upgrade as done. -/
theorem cut_restore_succeeds : sampleOrder.Installs
      ∧ sampleDisk.At (fun _ => "digest") sampleOrder sampleDisk.installed sampleStaged .staged
      ∧ (run (Run.step (fun _ => "digest") "c1") sampleDisk
        [sampleRun 33 [.done, .done, .failed false], sampleRun 9 [.done]]).phase = some .succeeded
      ∧ ¬ (run (Run.step (fun _ => "digest") "c1") sampleDisk
        [sampleRun 33 [.done, .done, .failed false],
          sampleRun 9 [.done]]).Upgraded sampleDisk.installed sampleStaged :=
  ⟨sampleOrder_installs, sampleDisk_at, by decide, by decide⟩

end Yunling.Updater
