/-
There is always an administrator.

Who can take one away is decided by the locks. A transaction that holds
the advisory lock has counted the administrators after it got the lock,
and no other transaction takes one away before it commits, since that one
would need the lock as well (`Guarantee.admins`). A transaction without
it changes no role of a user that is there, and restores only a user who
is removed, so it takes nobody away.

# One transaction at a time

`Guarantee` is what a commit may do, by the locks it holds. Each call is
checked against it alone (the `safe_` lemmas); what it has read of its
user stays true because it holds the user's row, and for the roles
because it holds the advisory lock. The interleavings are then all
covered at once.
-/
import Yunling.Auth.Members

namespace Yunling.Auth

open Relational Transactions

-- ======== states

namespace DB

/-- An enabled user, not removed, with the role. -/
def ActiveAdmin (db : DB) (id : String) : Prop :=
  ∃ u, db.users.find? id = some u ∧ u.enabled = true ∧ u.removedAt = none
    ∧ (id, RoleName.admin) ∈ db.userRoles

/-- Nothing but one user has changed. -/
structure Touches (target : String) (db db' : DB) : Prop where
  users : ∀ id, id ≠ target → db'.users.find? id = db.users.find? id
  roles : ∀ id r, id ≠ target → ((id, r) ∈ db'.userRoles ↔ (id, r) ∈ db.userRoles)

variable {db db' : DB} {target : String}

theorem Touches.refl (db : DB) (target : String) : Touches target db db :=
  ⟨fun _ _ => rfl, fun _ _ _ => Iff.rfl⟩

theorem Touches.trans {db'' : DB} (h : Touches target db db')
    (h' : Touches target db' db'') : Touches target db db'' :=
  ⟨fun id hne => (h'.users id hne).trans (h.users id hne),
    fun id r hne => (h'.roles id r hne).trans (h.roles id r hne)⟩

theorem Touches.activeAdmin (h : Touches target db db') {id : String}
    (hne : id ≠ target) (hadmin : db.ActiveAdmin id) : db'.ActiveAdmin id := by
  obtain ⟨u, hu, henabled, hremoved, hrole⟩ := hadmin
  exact ⟨u, (h.users id hne).trans hu, henabled, hremoved, (h.roles id _ hne).mpr hrole⟩

theorem find?_updateUser (id : String) (f : User → User)
    (hf : ∀ u, (f u).id = u.id) (db : DB) (id' : String) : (db.updateUser id f hf).users.find? id'
      = if id' = id then (db.users.find? id').map f else db.users.find? id' :=
  Table.find?_update_key _ (fun _ => rfl) f hf id'

theorem touches_updateUser (f : User → User) (hf : ∀ u, (f u).id = u.id)
    (db : DB) : Touches target db (db.updateUser target f hf) :=
  ⟨fun id hne => by rw [find?_updateUser, if_neg hne], fun _ _ _ => Iff.rfl⟩

theorem touches_revokeSessions (p : StoredSession → Bool) (now : Int)
    (db : DB) : Touches target db (db.revokeSessions p now) :=
  ⟨fun _ _ => rfl, fun _ _ _ => Iff.rfl⟩

theorem touches_clearRoles (db : DB) : Touches target db (db.clearRoles target) :=
  ⟨fun _ _ => rfl, fun id r hne => by simp [clearRoles, hne]⟩

theorem touches_grantRoles (roles : List RoleName) (db : DB) :
    Touches target db (db.grantRoles target roles) := ⟨fun _ _ => rfl, fun id r hne => by
    simp [grantRoles, Ne.symm hne]⟩

/-- Two administrators are one more than the target. -/
theorem exists_other_admin (h : ¬ db.activeAdmins ≤ 1) (target : String) :
    ∃ id, id ≠ target ∧ db.ActiveAdmin id := by
  by_contra hnone
  refine h (db.users.countP_le_one (k := target) fun u hu hactive => ?_)
  by_contra hne
  unfold DB.activeAdmin DB.hasRole at hactive
  simp only [Bool.and_eq_true, Option.isNone_iff_eq_none, List.contains_iff_mem] at hactive
  exact hnone ⟨u.id, hne, u, db.users.find?_eq_some.mpr ⟨hu, rfl⟩,
    hactive.1.1, hactive.1.2, hactive.2⟩

end DB

-- ======== guarantees

/-- What a commit may do, by the locks of its transaction. -/
structure Guarantee (held : List MemberLock) (db db' : DB) : Prop where
  rows : ∀ id, .user id ∈ held ∨ db'.users.find? id = db.users.find? id
  stays : ∀ id, (db.users.find? id).isSome → (db'.users.find? id).isSome
  roles : .adminMutation ∈ held ∨ ∀ id, (db.users.find? id).isSome →
    db'.hasRole id .admin = db.hasRole id .admin
  admins : .adminMutation ∈ held ∨ ∀ id, db.ActiveAdmin id → db'.ActiveAdmin id

def HasAdmin (db : DB) : Prop := ∃ id, db.ActiveAdmin id

section Commits

variable {db db' : DB} {target : String} {held : List MemberLock}

/-- A commit that changes one user, whose row it has locked. -/
theorem Guarantee.of_touches (h : db.Touches target db') (huser : .user target ∈ held)
    (hstays : (db.users.find? target).isSome → (db'.users.find? target).isSome)
    (hroles : .adminMutation ∈ held ∨ ((db.users.find? target).isSome →
      db'.hasRole target .admin = db.hasRole target .admin))
    (hadmin : .adminMutation ∈ held ∨ (db.ActiveAdmin target → db'.ActiveAdmin target)) :
    Guarantee held db db' where
  rows := by
    intro id
    by_cases hid : id = target
    · exact Or.inl (hid ▸ huser)
    · exact Or.inr (h.users id hid)
  stays := by
    intro id hsome
    by_cases hid : id = target
    · subst hid
      exact hstays hsome
    · rw [h.users id hid]
      exact hsome
  roles := hroles.imp_right fun hroles id hsome => by
    by_cases hid : id = target
    · subst hid
      exact hroles hsome
    · unfold DB.hasRole
      rw [Bool.eq_iff_iff, List.contains_iff_mem, List.contains_iff_mem]
      exact h.roles id _ hid
  admins := hadmin.imp_right fun hadmin id hactive => by
    by_cases hid : id = target
    · subst hid
      exact hadmin hactive
    · exact h.activeAdmin hid hactive

theorem HasAdmin.of_touches (h : db.Touches target db') (hdb : HasAdmin db)
    (hadmin : db.ActiveAdmin target → db'.ActiveAdmin target) : HasAdmin db' := by
  obtain ⟨id, hactive⟩ := hdb
  by_cases hid : id = target
  · subst hid
    exact ⟨id, hadmin hactive⟩
  · exact ⟨id, h.activeAdmin hid hactive⟩

end Commits

-- ======== knowledge

section Sessions

variable {ι : Type} {i : ι} {held : List MemberLock} {target : String} {K : DB → Prop}
  {pending : DB → DB} {next : LockedMember → MemberTx} {roles : List RoleName}

/-- The rules of the calls. -/
abbrev Sound (i : ι) (tx : MemberTx) (held : List MemberLock)
    (K : DB → Prop) (pending : DB → DB) : Prop :=
  Safe MemberLock.clash (fun _ => Guarantee) HasAdmin i tx held K pending

abbrev Kept (i : ι) (held : List MemberLock) (K : DB → Prop) : Prop :=
  Stable MemberLock.clash (fun _ => Guarantee) HasAdmin i held K

theorem kept_row (hlock : .user target ∈ held) (o : Option User) :
    Kept i held fun db => db.users.find? target = o :=
  .of_lock hlock (decide_eq_true rfl) fun hG hK => (hG.rows target).imp_right (·.trans hK)

theorem kept_role (hlock : .adminMutation ∈ held) (role : Bool) :
    Kept i held fun db => (db.users.find? target).isSome = true ∧ db.hasRole target .admin = role :=
  .of_lock hlock (decide_eq_true rfl) fun hG hK => hG.roles.imp_right fun heq =>
    ⟨hG.stays target hK.1, (heq target hK.1).trans hK.2⟩

theorem kept_admin (hlock : .adminMutation ∈ held) (id : String) :
    Kept i held fun db => db.ActiveAdmin id :=
  .of_lock hlock (decide_eq_true rfl) fun hG hK => hG.admins.imp_right fun hkeep => hkeep id hK

-- ======== pieces

theorem safe_refuse (e : MemberError) (K : DB → Prop)
    (pending : DB → DB) : Sound i (refuse e) held K pending := trivial

/-- What a transaction with both locks knows of its user. -/
def Known (target : String) (u : User) (role : Bool) (db : DB) : Prop :=
  db.users.find? target = some u ∧ (db.users.find? target).isSome = true
      ∧ db.hasRole target .admin = role

theorem kept_known (hlock : .adminMutation ∈ held)
    (huser : .user target ∈ held) (u : User) (role : Bool) : Kept i held (Known target u role) :=
  (kept_row huser (some u)).and (kept_role hlock role)

/-- `lockMember` under the advisory lock. -/
theorem safe_lockMember_admin (h : ∀ u role, Sound i (next ⟨u.enabled, u.removedAt.isSome, role⟩)
      [.user target, .adminMutation] (Known target u role) id) :
    Sound i (lockMember target next) [.adminMutation] (fun _ => True) id := by
  intro snapshot _ _
  cases hrow : snapshot.users.find? target with
  | none =>
    refine ⟨_, stable_true i _, trivial, ?_⟩
    simp only [id, hrow]
    exact safe_refuse _ _ _
  | some row =>
    refine ⟨_, kept_role List.mem_cons_self
      (snapshot.hasRole target .admin), ⟨by rw [hrow]; rfl, rfl⟩, ?_⟩
    simp only [id, hrow]
    refine safe_lock (kept_role List.mem_cons_self _) ?_
    intro db _ hdb
    obtain ⟨u, hu⟩ := Option.isSome_iff_exists.mp hdb.1
    refine ⟨Known target u (snapshot.hasRole target .admin), kept_known
      (List.mem_cons_of_mem _ List.mem_cons_self) List.mem_cons_self _ _, ⟨hu, hdb⟩, ?_⟩
    simp only [id, hu]
    exact h u _

theorem safe_lockMember (h : ∀ u role, Sound i
      (next ⟨u.enabled, u.removedAt.isSome, role⟩) [.user target]
      (fun db => db.users.find? target = some u) id) :
    Sound i (lockMember target next) [] (fun _ => True) id := by
  intro snapshot _ _
  refine ⟨_, stable_true i _, trivial, ?_⟩
  cases hrow : snapshot.users.find? target with
  | none =>
    simp only [id, hrow]
    exact safe_refuse _ _ _
  | some row =>
    simp only [id, hrow]
    refine safe_lock (stable_true i _) ?_
    intro db _ _
    refine ⟨_, kept_row List.mem_cons_self (db.users.find? target), rfl, ?_⟩
    cases hu : db.users.find? target with
    | none =>
      simp only [id, hu]
      exact safe_refuse _ _ _
    | some u =>
      simp only [id, hu]
      exact h u _

theorem safe_preserveLastAdmin (target : String) {next : MemberTx}
    (hlock : .adminMutation ∈ held) (hK : Kept i held K)
    (h : ∀ other, other ≠ target → Sound i next held (fun db => K db ∧ db.ActiveAdmin other) id) :
    Sound i (preserveLastAdmin next) held K id := by
  intro db _ hdb
  by_cases hcount : db.activeAdmins ≤ 1
  · refine ⟨_, stable_true i _, trivial, ?_⟩
    simp only [id, if_pos hcount]
    exact safe_refuse _ _ _
  · obtain ⟨other, hne, hactive⟩ := DB.exists_other_admin hcount target
    refine ⟨_, hK.and (kept_admin hlock other), ⟨hdb, hactive⟩, ?_⟩
    simp only [id, if_neg hcount]
    exact h other hne

theorem safe_loadAndCommit (hK : Kept i held K)
    (hcommit : ∀ db, HasAdmin db → K db → HasAdmin (pending db) ∧ Guarantee held db (pending db)) :
    Sound i (loadAndCommit target) held K pending := by
  refine safe_look hK fun db _ _ => ?_
  cases (pending db).member target with
  | none => exact safe_refuse _ _ _
  | some m => exact ⟨hcommit, trivial⟩

/-- The roles are there, and the users are as they were. -/
theorem safe_ensureRoles {next : MemberTx}
    (h : Sound i next held K (roles.foldl (fun f role => DB.addRole role ∘ f) pending)) :
    Sound i (ensureRoles roles next) held K pending := by
  induction roles generalizing pending with
  | nil => exact h
  | cons role roles ih => exact ih h

theorem safe_replaceRoles {next : MemberTx} (hK : Kept i held K)
    (hthere : ∀ db, ∀ role ∈ roles, role ∈ (pending db).roles)
    (h : ∀ granted, (∀ role, role ∈ granted ↔ role ∈ roles) →
      Sound i next held K (DB.grantRoles target granted ∘ DB.clearRoles target ∘ pending)) :
    Sound i (replaceRoles target roles next) held K pending := by
  refine safe_write (safe_look hK fun db _ _ => safe_write (h _ fun role => ?_))
  rw [List.mem_filter, decide_eq_true_eq]
  exact ⟨fun hmem => hmem.2, fun hmem => ⟨hthere db role hmem, hmem⟩⟩

end Sessions

-- ======== calls

section Calls

variable {ι : Type} {i : ι} {target : String} {pending : DB → DB}

/-- The roles of the table after `ensureRoles`. -/
theorem mem_roles_foldl {roles : List RoleName} (db : DB) {role : RoleName}
    (h : role ∈ roles ∨ role ∈ (pending db).roles) :
    role ∈ ((roles.foldl (fun f role => DB.addRole role ∘ f) pending) db).roles := by
  induction roles generalizing pending with
  | nil => exact h.resolve_left List.not_mem_nil
  | cons head roles ih =>
    refine ih ?_
    have hadd : ∀ r, r = head ∨ r ∈ (pending db).roles →
        r ∈ (DB.addRole head (pending db)).roles := by
      intro r hr
      unfold DB.addRole
      split
      · next hmem => exact hr.elim (fun heq => heq ▸ hmem) id
      · exact List.mem_append.mpr (hr.elim (fun heq => Or.inr (heq ▸ List.mem_cons_self)) Or.inl)
    rcases h with hmem | hold
    · rcases List.mem_cons.mp hmem with heq | hmem
      · exact Or.inr (hadd role (Or.inl heq))
      · exact Or.inl hmem
    · exact Or.inr (hadd role (Or.inr hold))

/-- `ensureRoles` leaves users and their roles alone. -/
theorem foldl_addRole (roles : List RoleName) (pending : DB → DB) (db : DB) :
    ((roles.foldl (fun f role => DB.addRole role ∘ f) pending) db).users = (pending db).users
      ∧ ((roles.foldl (fun f role => DB.addRole role ∘ f) pending)
        db).userRoles = (pending db).userRoles := by
  induction roles generalizing pending with
  | nil => exact ⟨rfl, rfl⟩
  | cons head roles ih =>
    have hadd : (DB.addRole head (pending db)).users = (pending db).users
        ∧ (DB.addRole head (pending db)).userRoles = (pending db).userRoles := by
      unfold DB.addRole
      split <;> exact ⟨rfl, rfl⟩
    have hrest := ih (DB.addRole head ∘ pending)
    exact ⟨hrest.1.trans hadd.1, hrest.2.trans hadd.2⟩

theorem touches_of_eq {db db' : DB} (husers : db'.users = db.users)
    (hroles : db'.userRoles = db.userRoles) : db.Touches target db' :=
  ⟨fun _ _ => by rw [husers], fun _ _ _ => by rw [hroles]⟩

/-- Of an administrator both are known. -/
theorem Known.of_activeAdmin {u : User} {role : Bool} {db : DB} (h : Known target u role db)
    (hactive : db.ActiveAdmin target) : u.enabled = true ∧ role = true := by
  obtain ⟨u', hu', henabled, -, hrole⟩ := hactive
  cases h.1.symm.trans hu'
  refine ⟨henabled, ?_⟩
  rw [← h.2.2]
  exact List.contains_iff_mem.mpr hrole

/-- The two locks of the calls that can take an administrator away. -/
abbrev bothLocks (target : String) : List MemberLock :=
  [.user target, .adminMutation]

theorem admin_mem (target : String) : MemberLock.adminMutation ∈ bothLocks target :=
  List.mem_cons_of_mem _ List.mem_cons_self

/-- The changes of a transaction are to one user, who stays. -/
structure Changes (target : String) (pending : DB → DB) : Prop where
  touches : ∀ db : DB, db.Touches target (pending db)
  stays : ∀ db : DB, (db.users.find? target).isSome → ((pending db).users.find? target).isSome

/-- A change of one user under both locks: the administrators are counted,
or it keeps the one it is about. -/
theorem sound_change (P : (DB → DB) → Prop) {u : User} {role checked : Bool} {write : MemberTx}
    (hwrite : ∀ K, Kept i (bothLocks target) K → (∀ pending, P pending →
        Sound i (loadAndCommit target) (bothLocks target) K pending) →
      Sound i write (bothLocks target) K id)
    (hchanges : ∀ pending, P pending → Changes target pending)
    (hkeeps : checked = false → ∀ pending, P pending → ∀ db : DB,
      Known target u role db → db.ActiveAdmin target → (pending db).ActiveAdmin target) :
    Sound i (if checked then preserveLastAdmin write else write)
      (bothLocks target) (Known target u role) id := by
  have hknown : Kept i (bothLocks target) (Known target u role) :=
    kept_known (admin_mem target) List.mem_cons_self u role
  have hG : ∀ pending, P pending → ∀ db : DB,
      Guarantee (bothLocks target) db (pending db) := fun pending hP db =>
    .of_touches ((hchanges pending hP).touches db) List.mem_cons_self
      ((hchanges pending hP).stays db) (Or.inl (admin_mem target)) (Or.inl (admin_mem target))
  cases checked with
  | true =>
    refine safe_preserveLastAdmin target (admin_mem target) hknown fun other hne => ?_
    have hother := hknown.and (kept_admin (admin_mem target) other)
    exact hwrite _ hother fun pending hP =>
      safe_loadAndCommit hother fun db _ hK =>
        ⟨⟨other, ((hchanges pending hP).touches db).activeAdmin hne hK.2⟩, hG pending hP db⟩
  | false =>
    exact hwrite _ hknown fun pending hP =>
      safe_loadAndCommit hknown fun db hdb hK =>
        ⟨hdb.of_touches ((hchanges pending hP).touches db)
          (hkeeps rfl pending hP db hK), hG pending hP db⟩

/-- What `ensureRoles` and `replaceRoles` come to. -/
def rolesReplaced (target : String) (roles granted : List RoleName) : DB → DB :=
  DB.grantRoles target granted ∘ DB.clearRoles target
    ∘ roles.foldl (fun f role => DB.addRole role ∘ f) id

theorem changes_rolesReplaced (roles granted : List RoleName) :
    Changes target (rolesReplaced target roles granted) where
  touches := fun db =>
    have hroles := foldl_addRole roles id db
    ((touches_of_eq hroles.1 hroles.2).trans
      (DB.touches_clearRoles _)).trans (DB.touches_grantRoles granted _)
  stays := fun db h => by
    show (((roles.foldl (fun f role => DB.addRole role ∘ f) id) db).users.find? target).isSome
    rw [(foldl_addRole roles id db).1]
    exact h

theorem sound_replaceMemberRoles (texts : Texts) (actorID targetID : String) (roles : List String) :
    Sound i (replaceMemberRoles texts actorID targetID roles) [] (fun _ => True) id := by
  unfold replaceMemberRoles
  split
  · trivial
  · trivial
  next target roles _ _ =>
  refine ⟨trivial, safe_lock (stable_true i _) (safe_lockMember_admin fun u role => ?_)⟩
  split
  · exact safe_refuse _ _ _
  refine sound_change (fun f => ∃ granted, (∀ role, role ∈ granted ↔ role ∈ roles)
      ∧ f = rolesReplaced target roles granted) (fun K hK h => ?_) ?_ ?_
  · exact safe_ensureRoles (safe_replaceRoles hK
      (fun db role hmem => mem_roles_foldl db (Or.inl hmem))
      fun granted hgranted => h _ ⟨granted, hgranted, rfl⟩)
  · rintro _ ⟨granted, -, rfl⟩
    exact changes_rolesReplaced roles granted
  · rintro hunchecked _ ⟨granted, hgranted, rfl⟩ db hK hactive
    obtain ⟨henabled, hrole⟩ := hK.of_activeAdmin hactive
    have hadmin : RoleName.admin ∈ roles := by
      simpa [henabled, hrole] using hunchecked
    obtain ⟨u', hu', henabled', hremoved', -⟩ := hactive
    refine ⟨u', ?_, henabled', hremoved', ?_⟩
    · show ((roles.foldl (fun f role => DB.addRole role ∘ f) id) db).users.find? target = some u'
      rw [(foldl_addRole roles id db).1]
      exact hu'
    · exact List.mem_append_right _ (List.mem_map_of_mem ((hgranted .admin).mpr hadmin))

theorem updateUser_isSome (f : User → User) (hf : ∀ u, (f u).id = u.id)
    (db : DB) (h : (db.users.find? target).isSome) :
    ((db.updateUser target f hf).users.find? target).isSome := by
  rw [DB.find?_updateUser, if_pos rfl, Option.isSome_map]
  exact h

theorem changes_updateUser (f : User → User) (hf : ∀ u, (f u).id = u.id) :
    Changes target (DB.updateUser target f hf) :=
  ⟨DB.touches_updateUser f hf, updateUser_isSome f hf⟩

/-- Revoking sessions after a change is no change of users. -/
theorem Changes.revokeSessions (h : Changes target pending) (p : StoredSession → Bool) (now : Int) :
    Changes target (DB.revokeSessions p now ∘ pending) :=
  ⟨fun db => (h.touches db).trans (DB.touches_revokeSessions p now _), h.stays⟩

theorem sound_setMemberEnabled (texts : Texts) (actorID targetID : String) (enabled : Bool)
    (now : Int) :
    Sound i (setMemberEnabled texts actorID targetID enabled now) [] (fun _ => True) id := by
  unfold setMemberEnabled onMember
  split
  · trivial
  next target _ =>
  refine ⟨trivial, safe_lock (stable_true i _) (safe_lockMember_admin fun u role => ?_)⟩
  split
  · exact safe_refuse _ _ _
  cases enabled with
  | true =>
    refine sound_change (fun f => f = DB.updateUser target
      (User.setEnabled true now) (User.setEnabled_id true now)) (fun K _ h => h _ rfl) ?_ ?_
    · rintro _ rfl
      exact changes_updateUser _ _
    · rintro - _ rfl db - ⟨u', hu', -, hremoved, hrole⟩
      refine ⟨User.setEnabled true now u', ?_, rfl, hremoved, hrole⟩
      rw [DB.find?_updateUser, if_pos rfl, hu', Option.map_some]
  | false =>
    refine sound_change (fun f => f = DB.revokeSessions
      (fun s => s.userID = target) now ∘ DB.updateUser target
        (User.setEnabled false now) (User.setEnabled_id false now)) (fun K _ h => h _ rfl) ?_ ?_
    · rintro _ rfl
      exact (changes_updateUser _ _).revokeSessions _ _
    · intro hunchecked _ _ db hK hactive
      simp [(hK.of_activeAdmin hactive).2] at hunchecked

theorem sound_removeMember (texts : Texts) (actorID targetID : String) (now : Int) :
    Sound i (removeMember texts actorID targetID now) [] (fun _ => True) id := by
  unfold removeMember onMember
  split
  · trivial
  next target _ =>
  refine ⟨trivial, safe_lock (stable_true i _) (safe_lockMember_admin fun u role => ?_)⟩
  split
  · exact safe_refuse _ _ _
  refine sound_change (fun f => f = DB.revokeSessions
    (fun s => s.userID = target) now ∘ DB.updateUser target
      (User.remove now) (User.remove_id now)) (fun K _ h => h _ rfl) ?_ ?_
  · rintro _ rfl
    exact (changes_updateUser _ _).revokeSessions _ _
  · intro hunchecked _ _ db hK hactive
    obtain ⟨henabled, hrole⟩ := hK.of_activeAdmin hactive
    simp [henabled, hrole] at hunchecked

/-- A change of one user under its own lock that keeps the roles and the
administrator. -/
theorem commit_own {K : DB → Prop} (h : Changes target pending)
    (hroles : ∀ db : DB, (pending db).userRoles = db.userRoles)
    (hkeeps : ∀ db : DB, K db → db.ActiveAdmin target → (pending db).ActiveAdmin target) (db : DB)
    (hdb : HasAdmin db) (hK : K db) :
    HasAdmin (pending db) ∧ Guarantee [.user target] db (pending db) := by
  refine ⟨hdb.of_touches (h.touches db) (hkeeps db hK),
    .of_touches (h.touches db) List.mem_cons_self (h.stays db)
      (Or.inr fun _ => ?_) (Or.inr (hkeeps db hK))⟩
  unfold DB.hasRole
  rw [hroles db]

/-- The user keeps what makes an administrator. -/
theorem activeAdmin_updateUser (f : User → User) (hf : ∀ u, (f u).id = u.id)
    (husers : ∀ db, (pending db).users = (DB.updateUser target f hf db).users)
    (hroles : ∀ db, (pending db).userRoles = db.userRoles)
    (henabled : ∀ u, (f u).enabled = u.enabled) (hremoved : ∀ u, (f u).removedAt = u.removedAt)
    (db : DB) (h : db.ActiveAdmin target) : (pending db).ActiveAdmin target := by
  obtain ⟨u, hu, henabled', hremoved', hrole⟩ := h
  refine ⟨f u, ?_, (henabled u).trans henabled', (hremoved u).trans hremoved', ?_⟩
  · rw [husers, DB.find?_updateUser, if_pos rfl, hu, Option.map_some]
  · rw [hroles]
    exact hrole

/-- `RestoreMember`: a removed user is no administrator. -/
theorem sound_restoreMember (texts : Texts) (actorID targetID : String) (now : Int) :
    Sound i (restoreMember texts actorID targetID now) [] (fun _ => True) id := by
  unfold restoreMember onMember
  split
  · trivial
  refine ⟨trivial, safe_lockMember fun u role => ?_⟩
  split
  · exact safe_refuse _ _ _
  next hremoved =>
  refine safe_write (safe_loadAndCommit (kept_row List.mem_cons_self _)
    (commit_own (changes_updateUser _ _) (fun _ => rfl) ?_))
  rintro db hu ⟨u', hu', -, hnone, -⟩
  cases hu.symm.trans hu'
  simp [hnone] at hremoved

theorem sound_resetMemberPassword (texts : Texts)
    (actorID targetID passwordHash : String) (now : Int) :
    Sound i (resetMemberPassword texts actorID targetID passwordHash now)
      [] (fun _ => True) id := by
  unfold resetMemberPassword onMember
  split
  · trivial
  refine ⟨trivial, safe_lockMember fun u role => ?_⟩
  split
  · exact safe_refuse _ _ _
  refine safe_write (safe_write (safe_loadAndCommit (kept_row List.mem_cons_self _)
    (commit_own ((changes_updateUser _ _).revokeSessions _ _) (fun _ => rfl) ?_)))
  exact fun db _ => activeAdmin_updateUser (User.resetPassword passwordHash now)
    (User.resetPassword_id passwordHash now) (fun _ => rfl) (fun _ => rfl)
    (fun _ => rfl) (fun _ => rfl) db

theorem sound_commitPasswordChange (change : PasswordChangeCommit) :
    Sound i (commitPasswordChange change) [] (fun _ => True) id := by
  unfold commitPasswordChange
  split
  · trivial
  refine ⟨trivial, safe_look (stable_true i _) fun snapshot _ _ => ?_⟩
  split
  · exact safe_refuse _ _ _
  refine safe_lock (stable_true i _) (safe_look (stable_true i _) fun db _ _ => ?_)
  split
  · exact safe_refuse _ _ _
  split
  · exact safe_refuse _ _ _
  refine safe_write (safe_write ⟨commit_own
    ((changes_updateUser _ _).revokeSessions _ _) (fun _ => rfl) fun db _ => ?_, trivial⟩)
  exact activeAdmin_updateUser (User.changePassword change.newHash change.changedAt)
    (User.changePassword_id change.newHash change.changedAt)
    (fun _ => rfl) (fun _ => rfl) (fun _ => rfl) (fun _ => rfl) db

theorem touches_insertUser (u : User) (db : DB) : db.Touches u.id (db.insertUser u) := by
  unfold DB.insertUser
  split
  · next users hinsert =>
    exact ⟨fun id hne => by
      rw [Table.find?_insert? hinsert, if_neg hne], fun _ _ _ => Iff.rfl⟩
  · exact .refl db u.id

theorem roles_insertUser (u : User) (db : DB) : (db.insertUser u).roles = db.roles := by
  unfold DB.insertUser
  split <;> rfl

/-- `CreateMember`: the new user is added to the others. -/
theorem sound_createMember (texts : Texts) (actorID : String)
    (record : CreateMemberRecord) (id' : String) (now : Int) :
    Sound i (createMember texts actorID record id' now) [] (fun _ => True) id := by
  unfold createMember
  split
  · trivial
  · trivial
  next roles _ _ =>
  refine ⟨trivial, safe_ensureRoles fun db _ _ => ⟨fun _ =>
    ⟨_, stable_true i _, trivial, safe_refuse _ _ _⟩, fun hfree => ?_⟩⟩
  dsimp only at hfree
  rw [(foldl_addRole roles id db).1, Option.isSome_eq_false_iff, Option.isNone_iff_eq_none] at hfree
  have hrow : ∀ held, MemberLock.user id' ∈ held →
      Kept i held fun db => db.users.find? id' = none :=
    fun held hmem => kept_row hmem none
  refine ⟨_, hrow _ List.mem_cons_self, hfree, fun db _ hdb => ⟨fun _ =>
    ⟨_, stable_true i _, trivial, safe_refuse _ _ _⟩, fun _ =>
    ⟨_, hrow _ (List.mem_cons_of_mem _ List.mem_cons_self), hdb, ?_⟩⟩⟩
  refine safe_write (safe_replaceRoles (hrow _ (List.mem_cons_of_mem _ List.mem_cons_self)) ?_
    fun granted _ => safe_loadAndCommit (hrow _ (List.mem_cons_of_mem _ List.mem_cons_self))
      fun db hdb hnone => ?_)
  · intro db role hmem
    show role ∈ (DB.insertUser _ _).roles
    rw [roles_insertUser]
    exact mem_roles_foldl db (Or.inl hmem)
  · have htouches : db.Touches id' ((DB.grantRoles id' granted
        ∘ DB.clearRoles id' ∘ DB.insertUser (record.user id' now)
        ∘ roles.foldl (fun f role => DB.addRole role ∘ f) id) db) := by
      have hroles := foldl_addRole roles id db
      exact (((touches_of_eq hroles.1 hroles.2).trans
        (touches_insertUser (record.user id' now) _)).trans
        (DB.touches_clearRoles _)).trans (DB.touches_grantRoles granted _)
    have hno : ¬ db.ActiveAdmin id' := by
      rintro ⟨u, hu, -⟩
      rw [hnone] at hu
      cases hu
    have hgone : ¬ (db.users.find? id').isSome = true := by simp [hnone]
    exact ⟨hdb.of_touches htouches fun h => absurd h hno,
      .of_touches htouches (List.mem_cons_of_mem _ List.mem_cons_self)
        (fun h => absurd h hgone) (Or.inr fun h => absurd h hgone) (Or.inr fun h => absurd h hno)⟩

theorem sound_session (texts : Texts) (call : MemberCall) :
    Sound i (call.session texts) [] (fun _ => True) id := by
  cases call with
  | create actorID record id' now =>
    exact sound_createMember texts actorID record id' now
  | replaceRoles actorID targetID roles =>
    exact sound_replaceMemberRoles texts actorID targetID roles
  | setEnabled actorID targetID enabled now =>
    exact sound_setMemberEnabled texts actorID targetID enabled now
  | remove actorID targetID now =>
    exact sound_removeMember texts actorID targetID now
  | restore actorID targetID now =>
    exact sound_restoreMember texts actorID targetID now
  | resetPassword actorID targetID passwordHash now =>
    exact sound_resetMemberPassword texts actorID targetID passwordHash now
  | changePassword change => exact sound_commitPasswordChange change

end Calls

/-- After every step of every interleaving there is an administrator. -/
theorem admin_remains {ι : Type} [DecidableEq ι] (texts : Texts)
    (calls : ι → MemberCall) (db : DB) (h : HasAdmin db) (ops : List (Move ι)) :
    HasAdmin (Transition.run (System.step MemberLock.clash)
      (System.start db fun i => (calls i).session texts) ops).db := by
  have hsymm : ∀ l l', MemberLock.clash l l' = MemberLock.clash l' l :=
    fun l l' => decide_eq_decide.mpr eq_comm
  exact ((Secure.start h fun i => sound_session texts (calls i)).run hsymm ops).holds

namespace Pair

def user (id : String) : User where
  id
  email := id
  displayName := id
  passwordHash := "hash"
  enabled := true
  mustChangePassword := false
  removedAt := none
  createdAt := 0
  updatedAt := 0

/-- Two administrators. -/
def db : DB where
  users := ⟨[user "a", user "b"], by decide⟩
  roles := [.admin]
  userRoles := [("a", .admin), ("b", .admin)]
  sessions := []

def texts : Texts where
  normalizeUserID := some
  lower := id

/-- Each of them removes the other. -/
def calls (first : Bool) : MemberCall :=
  if first then .remove "a" "b" 1 else .remove "b" "a" 1

/-- Statement by statement in turn; the second is left to go on. -/
def ops : List (Move Bool) :=
  (List.replicate 10 [Move.go true, Move.go false]).flatten ++ List.replicate 10 (Move.go false)

end Pair

theorem admin_remains_pair : (Transition.run (System.step MemberLock.clash)
      (System.start Pair.db fun i => (Pair.calls i).session Pair.texts)
      Pair.ops).db.activeAdmins = 1 ∧ HasAdmin (Transition.run (System.step MemberLock.clash)
      (System.start Pair.db fun i => (Pair.calls i).session Pair.texts) Pair.ops).db :=
  ⟨by decide, admin_remains Pair.texts Pair.calls Pair.db
    ⟨"a", Pair.user "a", by decide, rfl, rfl, by decide⟩ Pair.ops⟩

end Yunling.Auth
