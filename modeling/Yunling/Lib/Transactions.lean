/-
Transactions of several clients on one database.

A client goes through a session: statements that read what is committed
when they start, locks that are held to the end of the transaction, and
changes that the others see when it commits. The sessions are interleaved
in any way, a client whose lock is taken waits, and any statement may
fail, which rolls the transaction back.

# Sessions

A session is a tree: `read` goes on with what it has read. The reads of
one transaction need not agree with each other (read committed); the
transaction's own changes are seen by its reads. `acquire` is the lock
with a test: where the test holds no lock is taken. So an insert waits
for another one of the same key, and gives up once that is committed.

# Reasoning

`Safe` says that a session is well behaved, one session at a time: what
it knows of the committed state (`K`) must be `Stable`, that is, survive
any commit another client can make while this one holds its locks, and
what it commits must keep the invariant `J` and be allowed by its
guarantee `G`. When all sessions are safe, `J` holds after every step of
every interleaving and every commit is one its client's `G` allows
(`Secure.step`, `Secure.moves`).
-/
import Yunling.Lib.Transition
import Mathlib.Logic.Function.Basic

namespace Transactions

-- ======== sessions

/-- What a client does, with locks `κ` on states `σ`. -/
inductive Session (σ κ α : Type) : Type where
  | done (result : α)
  /-- A statement that looks at the state. -/
  | read (next : σ → Session σ κ α)
  /-- Waits for a lock, unless the test holds. -/
  | acquire (l : κ) (taken : σ → Bool) (other next : Session σ κ α)
  | write (change : σ → σ) (next : Session σ κ α)
  | commit (next : Session σ κ α)
  | rollback (next : Session σ κ α)
  /-- From here on a failed statement is followed by `recover`. -/
  | attempt (recover next : Session σ κ α)

/-- Waits for a lock. -/
def Session.lock {σ κ α : Type} (l : κ) (next : Session σ κ α) : Session σ κ α :=
  .acquire l (fun _ => false) next next

/-- A client: what is left of its session, the changes of its transaction,
and what follows a failed statement. -/
structure Client (σ κ α : Type) where
  rest : Session σ κ α
  pending : σ → σ
  recover : Session σ κ α

/-- A client that has not begun. -/
def Client.start {σ κ α : Type} (session : Session σ κ α) : Client σ κ α where
  rest := session
  pending := id
  recover := session

structure System (ι σ κ α : Type) where
  db : σ
  clients : ι → Client σ κ α
  locks : List (ι × κ)

/-- One statement of a client, or its failure; a commit may have been
made although it is reported as failed. -/
inductive Move (ι : Type) where
  | go (i : ι)
  | fail (i : ι) (took : Bool)

def Move.client {ι : Type} : Move ι → ι
  | .go i => i
  | .fail i _ => i

namespace System

variable {ι σ κ α : Type} [DecidableEq ι]

def start (db : σ) (sessions : ι → Session σ κ α) : System ι σ κ α where
  db
  clients := fun i => .start (sessions i)
  locks := []

/-- The locks of a client. -/
def held (sys : System ι σ κ α) (i : ι) : List κ :=
  (sys.locks.filter fun e => e.1 = i).map Prod.snd

/-- No other client has a lock that clashes. -/
def free (clash : κ → κ → Bool) (sys : System ι σ κ α) (i : ι) (l : κ) : Bool :=
  sys.locks.all fun e => decide (e.1 = i) || !clash e.2 l

def update (sys : System ι σ κ α) (i : ι) (c : Client σ κ α) : System ι σ κ α :=
  { sys with clients := Function.update sys.clients i c }

/-- The transaction of a client ends. -/
def finish (sys : System ι σ κ α) (i : ι) (db : σ)
    (rest recover : Session σ κ α) : System ι σ κ α where
  db
  clients := Function.update sys.clients i ⟨rest, id, recover⟩
  locks := sys.locks.filter fun e => !decide (e.1 = i)

/-- One statement. -/
def go (clash : κ → κ → Bool) (sys : System ι σ κ α) (i : ι) : System ι σ κ α :=
  let c := sys.clients i
  match c.rest with
  | .done _ => sys
  | .read next => sys.update i { c with rest := next (c.pending sys.db) }
  | .acquire l taken other next =>
    if taken (c.pending sys.db) then sys.update i { c with rest := other }
    else if sys.free clash i l then
      { sys.update i { c with rest := next } with
        locks := (i, l) :: sys.locks }
    else sys
  | .write change next =>
    sys.update i { c with rest := next, pending := change ∘ c.pending }
  | .commit next => sys.finish i (c.pending sys.db) next c.recover
  | .rollback next => sys.finish i sys.db next c.recover
  | .attempt recover next =>
    sys.update i { c with rest := next, recover }

/-- A statement fails. -/
def fail (sys : System ι σ κ α) (i : ι) (took : Bool) : System ι σ κ α :=
  let c := sys.clients i
  match c.rest with
  | .done _ => sys
  | .commit _ =>
    sys.finish i (if took then c.pending sys.db else sys.db) c.recover c.recover
  | _ => sys.finish i sys.db c.recover c.recover

def step (clash : κ → κ → Bool) (sys : System ι σ κ α) : Move ι → System ι σ κ α
  | .go i => sys.go clash i
  | .fail i took => sys.fail i took

end System

-- ======== safety

section Safety

variable {ι σ κ α : Type} (clash : κ → κ → Bool) (G : ι → List κ → σ → σ → Prop) (J : σ → Prop)

/-- Locks that two clients may have at a time. -/
def Compatible (held held' : List κ) : Prop :=
  ∀ l ∈ held, ∀ l' ∈ held', clash l l' = false

/-- No commit of another client makes it false. -/
def Stable (i : ι) (held : List κ) (K : σ → Prop) : Prop :=
  ∀ j held' s s', j ≠ i → Compatible clash held held' → J s → J s' → G j held' s s' → K s → K s'

/-- The session is well behaved from here on, when the client holds these
locks, knows `K`, and has made these changes. -/
def Safe (i : ι) : Session σ κ α → List κ → (σ → Prop) → (σ → σ) → Prop
  | .done _, _, _, _ => True
  | .read next, held, K, pending => ∀ s, J s → K s → ∃ K', Stable clash G J i held K' ∧ K' s
      ∧ Safe i (next (pending s)) held K' pending
  | .acquire l taken other next, held, K, pending => ∀ s, J s → K s →
    (taken (pending s) = true → ∃ K', Stable clash G J i held K' ∧ K' s
      ∧ Safe i other held K' pending) ∧ (taken (pending s) = false →
      ∃ K', Stable clash G J i (l :: held) K' ∧ K' s ∧ Safe i next (l :: held) K' pending)
  | .write change next, held, K, pending =>
    Safe i next held K (change ∘ pending)
  | .commit next, held, K, pending =>
    (∀ s, J s → K s → J (pending s) ∧ G i held s (pending s)) ∧ Safe i next [] (fun _ => True) id
  | .rollback next, _, _, _ => Safe i next [] (fun _ => True) id
  | .attempt recover next, held, K, pending =>
    Safe i recover [] (fun _ => True) id ∧ Safe i next held K pending

/-- All clients are well behaved. -/
structure Secure [DecidableEq ι] (sys : System ι σ κ α) : Prop where
  holds : J sys.db
  apart : ∀ i j, i ≠ j → Compatible clash (sys.held i) (sys.held j)
  clients : ∀ i, ∃ K, Stable clash G J i (sys.held i) K ∧ K sys.db
    ∧ Safe clash G J i (sys.clients i).rest (sys.held i) K (sys.clients i).pending
  recovers : ∀ i, Safe clash G J i (sys.clients i).recover [] (fun _ => True) id

variable {clash G J} {K : σ → Prop} {held : List κ} {i : ι}

theorem stable_true (i : ι) (held : List κ) : Stable clash G J i held fun _ => True :=
  fun _ _ _ _ _ _ _ _ _ _ => trivial

/-- What a commit breaks only under a lock that clashes with one of the
client. -/
theorem Stable.of_lock {l l' : κ} (hl : l ∈ held) (hclash : clash l l' = true)
    (h : ∀ {j held' s s'}, G j held' s s' → K s → l' ∈ held' ∨ K s') :
    Stable clash G J i held K := by
  intro j held' s s' _ hc _ _ hG hK
  refine (h hG hK).resolve_left fun hl' => ?_
  rw [hc l hl l' hl'] at hclash
  cases hclash

theorem Stable.and {K' : σ → Prop} (h : Stable clash G J i held K)
    (h' : Stable clash G J i held K') :
    Stable clash G J i held fun s => K s ∧ K' s :=
  fun j held' s s' hne hc hJ hJ' hG hK =>
    ⟨h j held' s s' hne hc hJ hJ' hG hK.1, h' j held' s s' hne hc hJ hJ' hG hK.2⟩

/-- More locks keep more others out. -/
theorem Stable.more {held' : List κ} (h : Stable clash G J i held K) (hsub : held ⊆ held') :
    Stable clash G J i held' K :=
  fun j locks s s' hne hc => h j locks s s' hne fun l hl => hc l (hsub hl)

section Rules

variable {i : ι} {held : List κ} {K : σ → Prop} {pending : σ → σ} {next : σ → Session σ κ α}

theorem safe_read (K' : σ → σ → Prop)
    (hstable : ∀ s, Stable clash G J i held (K' s)) (hknown : ∀ s, J s → K s → K' s s)
    (hnext : ∀ s, J s → K s → Safe clash G J i (next (pending s)) held (K' s) pending) :
    Safe clash G J i (.read next) held K pending :=
  fun s hJ hK => ⟨K' s, hstable s, hknown s hJ hK, hnext s hJ hK⟩

/-- A read of which nothing is remembered. -/
theorem safe_look (hstable : Stable clash G J i held K)
    (hnext : ∀ s, J s → K s → Safe clash G J i (next (pending s)) held K pending) :
    Safe clash G J i (.read next) held K pending :=
  safe_read (fun _ => K) (fun _ => hstable) (fun _ _ hK => hK) hnext

theorem safe_write {change : σ → σ} {next : Session σ κ α}
    (hnext : Safe clash G J i next held K (change ∘ pending)) :
    Safe clash G J i (.write change next) held K pending := hnext

theorem safe_lock {l : κ} {next : Session σ κ α} (hstable : Stable clash G J i held K)
    (hnext : Safe clash G J i next (l :: held) K pending) :
    Safe clash G J i (.lock l next) held K pending :=
  fun _ _ hK => ⟨fun htaken => Bool.noConfusion htaken,
    fun _ => ⟨K, hstable.more (List.subset_cons_self l held), hK, hnext⟩⟩

end Rules

end Safety

-- ======== interleavings

section Interleavings

variable {ι σ κ α : Type} [DecidableEq ι] {sys : System ι σ κ α} {i : ι} {c : Client σ κ α}

theorem System.held_finish (db : σ) (rest recover : Session σ κ α) (j : ι) :
    (sys.finish i db rest recover).held j = if j = i then [] else sys.held j := by
  unfold System.finish System.held
  rw [List.filter_filter]
  by_cases h : j = i
  · rw [if_pos h, List.filter_eq_nil_iff.mpr, List.map_nil]
    simp [h]
  · rw [if_neg h]
    refine congrArg _ (List.filter_congr fun e _ => ?_)
    by_cases he : e.1 = j
    · simp [he, h]
    · simp [he]

/-- A client has one more lock. -/
def System.acquired (sys : System ι σ κ α) (i : ι) (l : κ) (c : Client σ κ α) : System ι σ κ α :=
  { sys.update i c with locks := (i, l) :: sys.locks }

theorem System.held_acquired (l : κ) (c : Client σ κ α) (j : ι) :
    (sys.acquired i l c).held j = if j = i then l :: sys.held j else sys.held j := by
  unfold System.acquired System.update System.held
  rw [List.filter_cons]
  by_cases h : j = i
  · rw [if_pos h, if_pos (by simp [h]), List.map_cons]
  · rw [if_neg h, if_neg (by simp [Ne.symm h])]

theorem System.not_clash_of_free {clash : κ → κ → Bool} {l l' : κ} (h : sys.free clash i l = true)
    {j : ι} (hne : j ≠ i) (hl' : l' ∈ sys.held j) : clash l' l = false := by
  obtain ⟨e, he, rfl⟩ := List.mem_map.mp hl'
  obtain ⟨hmem, hj⟩ := List.mem_filter.mp he
  have hall := List.all_eq_true.mp h e hmem
  have hj' : e.1 = j := of_decide_eq_true hj
  simpa [hj', hne] using hall

variable {clash : κ → κ → Bool} {G : ι → List κ → σ → σ → Prop}
  {J : σ → Prop}

/-- What the clients can do after failures, when one of them has
changed. -/
theorem Secure.recovers_update (h : Secure clash G J sys)
    (hrecover : Safe clash G J i c.recover [] (fun _ => True) id) (j : ι) :
    Safe clash G J j (Function.update sys.clients i c j).recover [] (fun _ => True) id :=
  (Function.forall_update_iff sys.clients fun j c =>
    Safe clash G J j c.recover [] (fun _ => True) id).mpr ⟨hrecover, fun j _ => h.recovers j⟩ j

/-- A step that changes the client only. -/
theorem Secure.update (h : Secure clash G J sys)
    (hc : ∃ K, Stable clash G J i (sys.held i) K ∧ K sys.db
      ∧ Safe clash G J i c.rest (sys.held i) K c.pending)
    (hrecover : Safe clash G J i c.recover [] (fun _ => True) id) :
    Secure clash G J (sys.update i c) where
  holds := h.holds
  apart := h.apart
  clients := (Function.forall_update_iff sys.clients fun j c =>
    ∃ K, Stable clash G J j (sys.held j) K ∧ K sys.db
      ∧ Safe clash G J j c.rest (sys.held j) K c.pending).mpr ⟨hc, fun j _ => h.clients j⟩
  recovers := h.recovers_update hrecover

/-- A client gets a lock. -/
theorem Secure.acquired (hsymm : ∀ l l', clash l l' = clash l' l) (h : Secure clash G J sys) {l : κ}
    (hfree : sys.free clash i l = true) (hc : ∃ K, Stable clash G J i (l :: sys.held i) K ∧ K sys.db
      ∧ Safe clash G J i c.rest (l :: sys.held i) K c.pending)
    (hrecover : Safe clash G J i c.recover [] (fun _ => True) id) :
    Secure clash G J (sys.acquired i l c) where
  holds := h.holds
  apart := by
    intro j j' hne
    rw [System.held_acquired, System.held_acquired]
    by_cases hj : j = i
    · have hj' : j' ≠ i := fun h' => hne (hj.trans h'.symm)
      rw [if_pos hj, if_neg hj']
      intro m hm m' hm'
      rcases List.mem_cons.mp hm with rfl | hm
      · rw [hsymm]
        exact System.not_clash_of_free hfree hj' hm'
      · exact h.apart j j' hne m hm m' hm'
    · rw [if_neg hj]
      by_cases hj' : j' = i
      · rw [if_pos hj']
        intro m hm m' hm'
        rcases List.mem_cons.mp hm' with rfl | hm'
        · exact System.not_clash_of_free hfree hj hm
        · exact h.apart j j' hne m hm m' hm'
      · rw [if_neg hj']
        exact h.apart j j' hne
  clients := (Function.forall_update_iff sys.clients fun j c' =>
    ∃ K, Stable clash G J j ((sys.acquired i l c).held j) K ∧ K sys.db
      ∧ Safe clash G J j c'.rest ((sys.acquired i l c).held j) K c'.pending).mpr
          ⟨by rw [System.held_acquired, if_pos rfl]; exact hc, fun j hj => by
              rw [System.held_acquired, if_neg hj]
              exact h.clients j⟩
  recovers := h.recovers_update hrecover

/-- A transaction ends, and what it commits is allowed. -/
theorem Secure.finish (h : Secure clash G J sys) {db : σ} {rest recover : Session σ κ α} (hJ : J db)
    (hG : db = sys.db ∨ G i (sys.held i) sys.db db)
    (hrest : Safe clash G J i rest [] (fun _ => True) id)
    (hrecover : Safe clash G J i recover [] (fun _ => True) id) :
    Secure clash G J (sys.finish i db rest recover) where
  holds := hJ
  apart := by
    intro j j' hne
    rw [System.held_finish, System.held_finish]
    by_cases hj : j = i
    · rw [if_pos hj]
      exact fun m hm => absurd hm List.not_mem_nil
    rw [if_neg hj]
    by_cases hj' : j' = i
    · rw [if_pos hj']
      exact fun m _ m' hm' => absurd hm' List.not_mem_nil
    · rw [if_neg hj']
      exact h.apart j j' hne
  clients := by
    refine (Function.forall_update_iff sys.clients fun j c =>
      ∃ K, Stable clash G J j ((sys.finish i db rest recover).held j) K
        ∧ K db ∧ Safe clash G J j c.rest ((sys.finish i db rest recover).held j) K c.pending).mpr
        ⟨?_, fun j hj => ?_⟩
    · rw [System.held_finish, if_pos rfl]
      exact ⟨_, stable_true i [], trivial, hrest⟩
    · rw [System.held_finish, if_neg hj]
      obtain ⟨K, hstable, hK, hsafe⟩ := h.clients j
      refine ⟨K, hstable, ?_, hsafe⟩
      rcases hG with rfl | hG
      · exact hK
      · exact hstable i (sys.held i) sys.db db (Ne.symm hj) (h.apart j i hj) h.holds hJ hG hK
  recovers := h.recovers_update hrecover

theorem Secure.start {db : σ} {sessions : ι → Session σ κ α} (hJ : J db)
    (hsafe : ∀ i, Safe clash G J i (sessions i) [] (fun _ => True) id) :
    Secure clash G J (System.start db sessions) where
  holds := hJ
  apart := fun _ _ _ _ hl => absurd hl List.not_mem_nil
  clients := fun i => ⟨_, stable_true i [], trivial, hsafe i⟩
  recovers := hsafe

/-- A statement keeps the clients well behaved; what it commits is
allowed. -/
theorem Secure.go (hsymm : ∀ l l', clash l l' = clash l' l) (h : Secure clash G J sys) (i : ι) :
    Secure clash G J (sys.go clash i) ∧ ((sys.go clash i).db = sys.db
        ∨ G i (sys.held i) sys.db (sys.go clash i).db) := by
  obtain ⟨K, hstable, hK, hsafe⟩ := h.clients i
  have hrecover := h.recovers i
  unfold System.go
  dsimp only
  split
  · exact ⟨h, Or.inl rfl⟩
  · next next heq =>
    rw [heq] at hsafe
    exact ⟨h.update (hsafe sys.db h.holds hK) hrecover, Or.inl rfl⟩
  · next l taken other next heq =>
    rw [heq] at hsafe
    obtain ⟨htaken, hnext⟩ := hsafe sys.db h.holds hK
    split
    · next ht => exact ⟨h.update (htaken ht) hrecover, Or.inl rfl⟩
    next ht =>
    split
    · next hfree =>
      exact ⟨h.acquired hsymm hfree (hnext (Bool.eq_false_iff.mpr ht)) hrecover, Or.inl rfl⟩
    · exact ⟨h, Or.inl rfl⟩
  · next change next heq =>
    rw [heq] at hsafe
    exact ⟨h.update ⟨K, hstable, hK, hsafe⟩ hrecover, Or.inl rfl⟩
  · next next heq =>
    rw [heq] at hsafe
    obtain ⟨hJ, hG⟩ := hsafe.1 sys.db h.holds hK
    exact ⟨h.finish hJ (Or.inr hG) hsafe.2 hrecover, Or.inr hG⟩
  · next next heq =>
    rw [heq] at hsafe
    exact ⟨h.finish h.holds (Or.inl rfl) hsafe hrecover, Or.inl rfl⟩
  · next recover next heq =>
    rw [heq] at hsafe
    exact ⟨h.update ⟨K, hstable, hK, hsafe.2⟩ hsafe.1, Or.inl rfl⟩

theorem Secure.fail (h : Secure clash G J sys) (i : ι) (took : Bool) :
    Secure clash G J (sys.fail i took) ∧ ((sys.fail i took).db = sys.db
        ∨ G i (sys.held i) sys.db (sys.fail i took).db) := by
  obtain ⟨K, -, hK, hsafe⟩ := h.clients i
  have hrecover := h.recovers i
  unfold System.fail
  dsimp only
  split
  · exact ⟨h, Or.inl rfl⟩
  · next next heq =>
    rw [heq] at hsafe
    obtain ⟨hJ, hG⟩ := hsafe.1 sys.db h.holds hK
    cases took with
    | false =>
      exact ⟨h.finish h.holds (Or.inl rfl) hrecover hrecover, Or.inl rfl⟩
    | true =>
      exact ⟨h.finish hJ (Or.inr hG) hrecover hrecover, Or.inr hG⟩
  · exact ⟨h.finish h.holds (Or.inl rfl) hrecover hrecover, Or.inl rfl⟩

variable (hsymm : ∀ l l', clash l l' = clash l' l) (h : Secure clash G J sys)

include hsymm h

/-- Every step keeps the clients well behaved. -/
theorem Secure.step (op : Move ι) : Secure clash G J (sys.step clash op) := by
  cases op with
  | go i => exact (h.go hsymm i).1
  | fail i took => exact (h.fail i took).1

/-- A step commits nothing, or what its client may commit. -/
theorem Secure.moves (op : Move ι) : (sys.step clash op).db = sys.db
      ∨ G op.client (sys.held op.client) sys.db (sys.step clash op).db := by
  cases op with
  | go i => exact (h.go hsymm i).2
  | fail i took => exact (h.fail i took).2

/-- Well-behaved clients stay so in every interleaving. -/
theorem Secure.run (ops : List (Move ι)) :
    Secure clash G J (Transition.run (System.step clash) sys ops) :=
  Transition.run_invariant (fun _ op h => h.step hsymm op) h ops

end Interleavings

end Transactions
