/-
Members and their roles (`internal/auth/team_postgres.go`, and
`CommitPasswordChange` of `internal/auth/password_change_postgres.go`).

Every call is one transaction. The ones that can take away an
administrator first take the advisory lock `yunling-member-admin`, in a
statement of its own; all but the creation then lock the row of the user.
`SELECT … FOR UPDATE` reads the row when it has the lock, and the rest of
the statement, the subquery for the role among it, as of its start.

# What is left out

The audit rows and the rows of the rate limits, which nothing here reads.
The rows a foreign key locks, which only makes clients wait longer. UUIDs
and the lower case of a text are parameters.
-/
import Yunling.Schema
import Yunling.Lib.OrderBy
import Yunling.Lib.Transactions

namespace Yunling.Auth

open Relational Transactions

-- ======== tables

inductive RoleName where
  | admin | developer | operator | viewer
  deriving DecidableEq

def RoleName.parse (name : String) : Option RoleName :=
  if name = "admin" then some .admin
  else if name = "developer" then some .developer
  else if name = "operator" then some .operator
  else if name = "viewer" then some .viewer
  else none

/-- The order of the names. -/
def RoleName.rank : RoleName → Nat
  | .admin => 0
  | .developer => 1
  | .operator => 2
  | .viewer => 3

structure User where
  id : String
  email : String
  displayName : String
  passwordHash : String
  enabled : Bool
  mustChangePassword : Bool
  removedAt : Option Int
  createdAt : Int
  updatedAt : Int
  deriving DecidableEq

structure StoredSession where
  userID : String
  tokenHash : List UInt8
  revokedAt : Option Int
  deriving DecidableEq

/-- The tables `users`, `roles`, `user_roles` and `sessions`. -/
structure DB where
  users : Table User String User.id
  roles : List RoleName
  userRoles : List (String × RoleName)
  sessions : List StoredSession

inductive MemberError where
  | invalidRoles
  | memberNotFound
  | invalidMember
  | duplicateEmail
  | memberStateConflict
  | cannotModifySelf
  | lastAdmin
  | passwordChanged
  | invalidCommit
  | database
  deriving DecidableEq

structure Member where
  id : String
  email : String
  displayName : String
  enabled : Bool
  roles : List RoleName
  mustChangePassword : Bool
  removedAt : Option Int
  createdAt : Int

namespace DB

/-- `array_agg(role.name ORDER BY role.name)`. -/
def rolesOf (db : DB) (id : String) : List RoleName :=
  ((db.userRoles.filter fun e => e.1 = id).map Prod.snd).insertionSort (OrderBy.Asc RoleName.rank)

/-- `memberProjection`. -/
def member (db : DB) (id : String) : Option Member :=
  (db.users.find? id).map fun u =>
    { id := u.id
      email := u.email
      displayName := u.displayName
      enabled := u.enabled
      roles := db.rolesOf id
      mustChangePassword := u.mustChangePassword
      removedAt := u.removedAt
      createdAt := u.createdAt }

def hasRole (db : DB) (id : String) (role : RoleName) : Bool :=
  db.userRoles.contains (id, role)

/-- The row counts in `preserveLastAdmin`. -/
def activeAdmin (db : DB) (u : User) : Bool :=
  u.enabled && u.removedAt.isNone && db.hasRole u.id .admin

def activeAdmins (db : DB) : Nat := db.users.rows.countP db.activeAdmin

/-- `UPDATE users … WHERE id=$1`. -/
def updateUser (id : String) (f : User → User) (hf : ∀ u, (f u).id = u.id) (db : DB) : DB :=
  { db with users := db.users.update (fun u => u.id = id) f hf }

def insertUser (u : User) (db : DB) : DB :=
  match db.users.insert? u with
  | some users => { db with users }
  | none => db

/-- `INSERT INTO roles … ON CONFLICT (name) DO NOTHING`. -/
def addRole (role : RoleName) (db : DB) : DB :=
  if role ∈ db.roles then db else { db with roles := db.roles ++ [role] }

/-- `DELETE FROM user_roles WHERE user_id=$1`. -/
def clearRoles (id : String) (db : DB) : DB :=
  { db with userRoles := db.userRoles.filter fun e => e.1 ≠ id }

def grantRoles (id : String) (roles : List RoleName) (db : DB) : DB :=
  { db with userRoles := db.userRoles ++ roles.map fun r => (id, r) }

/-- `UPDATE sessions SET revoked_at … AND revoked_at IS NULL`. -/
def revokeSessions (p : StoredSession → Bool) (now : Int) (db : DB) : DB :=
  { db with sessions := db.sessions.map fun s =>
      if (p s && s.revokedAt.isNone) = true then
        { s with revokedAt := some now }
      else s }

end DB

-- ======== checks

/-- What the calls take from outside. -/
structure Texts where
  normalizeUserID : String → Option String
  lower : String → String

/-- `normalizeRoles`. -/
def normalizeRoles (roles : List String) : Except MemberError (List RoleName) :=
  match roles.mapM RoleName.parse with
  | some parsed =>
    if parsed = [] then .error .invalidRoles
    else .ok (parsed.dedup.insertionSort (OrderBy.Asc RoleName.rank))
  | none => .error .invalidRoles

/-- `normalizeMemberMutationIDs`. -/
def normalizeMemberMutationIDs (texts : Texts) (actorID targetID : String) :
    Except MemberError String :=
  match texts.normalizeUserID actorID, texts.normalizeUserID targetID with
  | some actor, some target =>
    if actor = target then .error .cannotModifySelf else .ok target
  | _, _ => .error .invalidMember

-- ======== transactions

/-- The advisory lock, the rows of `users`, and the keys of the index on
the address. -/
inductive MemberLock where
  | adminMutation
  | user (id : String)
  | email (lower : String)
  deriving DecidableEq

def MemberLock.clash (l l' : MemberLock) : Bool := l = l'

abbrev MemberTx := Session DB MemberLock (Except MemberError (Option Member))

/-- The transaction is rolled back. -/
def refuse (e : MemberError) : MemberTx := .rollback (.done (.error e))

/-- The transaction of a call. -/
def transaction (body : MemberTx) : MemberTx :=
  .attempt (.done (.error .database)) body

def lockAdminMutation (next : MemberTx) : MemberTx :=
  .lock .adminMutation next

structure LockedMember where
  enabled : Bool
  removed : Bool
  adminRole : Bool

/-- `lockMember`. -/
def lockMember (target : String) (next : LockedMember → MemberTx) : MemberTx :=
  .read fun snapshot =>
    match snapshot.users.find? target with
    | none => refuse .memberNotFound
    | some _ => .lock (.user target) <| .read fun db =>
      match db.users.find? target with
      | none => refuse .memberNotFound
      | some u => next
        { enabled := u.enabled
          removed := u.removedAt.isSome
          adminRole := snapshot.hasRole target .admin }

/-- `preserveLastAdmin`. -/
def preserveLastAdmin (next : MemberTx) : MemberTx :=
  .read fun db =>
    if db.activeAdmins ≤ 1 then refuse .lastAdmin else next

/-- `ensureRoles`. -/
def ensureRoles (roles : List RoleName) (next : MemberTx) : MemberTx :=
  roles.foldr (fun role rest => .write (DB.addRole role) rest) next

/-- `replaceRoles`. -/
def replaceRoles (target : String) (roles : List RoleName) (next : MemberTx) : MemberTx :=
  .write (DB.clearRoles target) <| .read fun db =>
    .write (DB.grantRoles target (db.roles.filter (· ∈ roles))) next

/-- `revokeMemberSessions`. -/
def revokeMemberSessions (target : String) (now : Int) (next : MemberTx) : MemberTx :=
  .write (DB.revokeSessions (fun s => s.userID = target) now) next

/-- `loadMember`, and the commit. -/
def loadAndCommit (target : String) : MemberTx :=
  .read fun db =>
    match db.member target with
    | none => refuse .memberNotFound
    | some m => .commit (.done (.ok (some m)))

-- ======== calls

section Calls

variable (texts : Texts)

/-- A call on another member. -/
def onMember (actorID targetID : String) (body : String → MemberTx) : MemberTx :=
  match normalizeMemberMutationIDs texts actorID targetID with
  | .error e => .done (.error e)
  | .ok target => transaction (body target)

structure CreateMemberRecord where
  email : String
  displayName : String
  passwordHash : String
  roles : List String

/-- The row `CreateMember` inserts. -/
def CreateMemberRecord.user (record : CreateMemberRecord) (id : String) (now : Int) : User where
  id
  email := record.email
  displayName := record.displayName
  passwordHash := record.passwordHash
  enabled := true
  mustChangePassword := true
  removedAt := none
  createdAt := now
  updatedAt := now

/-- `CreateMember`; `id` is the UUID the database draws. -/
def createMember (actorID : String) (record : CreateMemberRecord)
    (id : String) (now : Int) : MemberTx :=
  match texts.normalizeUserID actorID, normalizeRoles record.roles with
  | none, _ => .done (.error .invalidMember)
  | some _, .error e => .done (.error e)
  | some _, .ok roles => transaction <| ensureRoles roles <|
    .acquire (.user id) (fun db => (db.users.find? id).isSome) (refuse .database) <|
    .acquire (.email (texts.lower record.email)) (fun db => db.users.rows.any fun u =>
        texts.lower u.email = texts.lower record.email)
      (refuse .duplicateEmail) <|
    .write (DB.insertUser (record.user id now)) <|
    replaceRoles id roles <| loadAndCommit id

/-- `ReplaceMemberRoles`. -/
def replaceMemberRoles (actorID targetID : String) (requestedRoles : List String) : MemberTx :=
  match normalizeMemberMutationIDs texts actorID targetID, normalizeRoles requestedRoles with
  | .error e, _ => .done (.error e)
  | .ok _, .error e => .done (.error e)
  | .ok target, .ok roles => transaction <| lockAdminMutation <| lockMember target fun state =>
      if state.removed then refuse .memberStateConflict
      else
        let write := ensureRoles roles <| replaceRoles target roles <| loadAndCommit target
        if state.enabled && state.adminRole && !(roles.contains .admin) then
          preserveLastAdmin write
        else write

def User.setEnabled (enabled : Bool) (now : Int) (u : User) : User :=
  { u with enabled, updatedAt := now }

theorem User.setEnabled_id (enabled : Bool) (now : Int) (u : User) :
    (u.setEnabled enabled now).id = u.id := rfl

/-- `SetMemberEnabled`. -/
def setMemberEnabled (actorID targetID : String) (enabled : Bool) (now : Int) : MemberTx :=
  onMember texts actorID targetID fun target =>
    lockAdminMutation <| lockMember target fun state =>
      if state.removed || state.enabled = enabled then
        refuse .memberStateConflict
      else
        let write : MemberTx := .write (DB.updateUser target (User.setEnabled enabled now)
            (User.setEnabled_id enabled now)) <|
          if enabled then loadAndCommit target
          else revokeMemberSessions target now (loadAndCommit target)
        if !enabled && state.adminRole then preserveLastAdmin write
        else write

def User.remove (now : Int) (u : User) : User :=
  { u with enabled := false, removedAt := some now, updatedAt := now }

theorem User.remove_id (now : Int) (u : User) : (u.remove now).id = u.id := rfl

/-- `RemoveMember`. -/
def removeMember (actorID targetID : String) (now : Int) : MemberTx :=
  onMember texts actorID targetID fun target =>
    lockAdminMutation <| lockMember target fun state =>
      if state.removed then refuse .memberStateConflict
      else
        let write : MemberTx := .write (DB.updateUser target (User.remove now)
            (User.remove_id now)) <| revokeMemberSessions target now <| loadAndCommit target
        if state.enabled && state.adminRole then preserveLastAdmin write
        else write

def User.restore (now : Int) (u : User) : User :=
  { u with enabled := false, removedAt := none, updatedAt := now }

theorem User.restore_id (now : Int) (u : User) : (u.restore now).id = u.id := rfl

/-- `RestoreMember`. -/
def restoreMember (actorID targetID : String) (now : Int) : MemberTx :=
  onMember texts actorID targetID fun target =>
    lockMember target fun state =>
      if !state.removed then refuse .memberStateConflict
      else .write (DB.updateUser target (User.restore now) (User.restore_id now)) <|
        loadAndCommit target

def User.resetPassword (passwordHash : String) (now : Int) (u : User) : User :=
  { u with
    passwordHash, mustChangePassword := true
    updatedAt := now }

theorem User.resetPassword_id (passwordHash : String) (now : Int)
    (u : User) : (u.resetPassword passwordHash now).id = u.id := rfl

/-- `ResetMemberPassword`. -/
def resetMemberPassword (actorID targetID passwordHash : String) (now : Int) : MemberTx :=
  onMember texts actorID targetID fun target =>
    lockMember target fun state =>
      if state.removed then refuse .memberStateConflict
      else .write (DB.updateUser target (User.resetPassword passwordHash now)
          (User.resetPassword_id passwordHash now)) <|
        revokeMemberSessions target now <| loadAndCommit target

structure PasswordChangeCommit where
  userID : String
  expectedHash : String
  newHash : String
  currentSessionHash : List UInt8
  changedAt : Int

def User.changePassword (newHash : String) (changedAt : Int) (u : User) : User :=
  { u with
    passwordHash := newHash, mustChangePassword := false
    updatedAt := changedAt }

theorem User.changePassword_id (newHash : String) (changedAt : Int)
    (u : User) : (u.changePassword newHash changedAt).id = u.id := rfl

/-- `CommitPasswordChange`. -/
def commitPasswordChange (change : PasswordChangeCommit) : MemberTx :=
  if blank change.userID || change.expectedHash = "" || change.newHash = ""
      || change.currentSessionHash.length ≠ 32 then
    .done (.error .invalidCommit)
  else transaction <| .read fun snapshot =>
    match snapshot.users.find? change.userID with
    | none => refuse .passwordChanged
    | some _ => .lock (.user change.userID) <| .read fun db =>
      match db.users.find? change.userID with
      | none => refuse .passwordChanged
      | some u =>
        if u.passwordHash ≠ change.expectedHash then refuse .passwordChanged
        else .write (DB.updateUser change.userID
            (User.changePassword change.newHash change.changedAt)
            (User.changePassword_id change.newHash change.changedAt)) <|
          .write (DB.revokeSessions (fun s => s.userID = change.userID
            && s.tokenHash ≠ change.currentSessionHash) change.changedAt) <|
          .commit (.done (.ok none))

/-- The calls. -/
inductive MemberCall where
  | create (actorID : String) (record : CreateMemberRecord) (id : String) (now : Int)
  | replaceRoles (actorID targetID : String) (roles : List String)
  | setEnabled (actorID targetID : String) (enabled : Bool) (now : Int)
  | remove (actorID targetID : String) (now : Int)
  | restore (actorID targetID : String) (now : Int)
  | resetPassword (actorID targetID passwordHash : String) (now : Int)
  | changePassword (change : PasswordChangeCommit)

def MemberCall.session : MemberCall → MemberTx
  | .create actorID record id now => createMember texts actorID record id now
  | .replaceRoles actorID targetID roles =>
    replaceMemberRoles texts actorID targetID roles
  | .setEnabled actorID targetID enabled now =>
    setMemberEnabled texts actorID targetID enabled now
  | .remove actorID targetID now => removeMember texts actorID targetID now
  | .restore actorID targetID now => restoreMember texts actorID targetID now
  | .resetPassword actorID targetID passwordHash now =>
    resetMemberPassword texts actorID targetID passwordHash now
  | .changePassword change => commitPasswordChange change

end Calls

end Yunling.Auth
