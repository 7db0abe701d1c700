/-
The outbox of notifications (`internal/notification/outbox.go`,
`postgres.go`): one message, and the workers that deliver it.

A worker claims the message when it is due, or when the lease of an
earlier claim has ended, sends it, which may take any time, and then
reports what came of it. A report is one `UPDATE` whose guard is the
status `sending`. An earlier claim and a later one share that status, so
the guard lets a worker whose lease has ended report on the claim of
another (`delivered_recorded_iff`, `late_failure_sends_again`).

# What is left out

The order in which `ClaimDue` takes messages, and rows it skips as locked:
that another message is claimed is no operation on this one. The texts of
failures are shorter than what `MarkFailed` cuts them to.
-/
import Yunling.Lib.Transition
import Yunling.Schema

namespace Yunling.Notification

open Transition

-- ======== rows

inductive DeliveryStatus where
  | pending | sending | retrying | sent | failed
  deriving DecidableEq

/-- The columns of `notification_outbox` that change. -/
structure Delivery where
  status : DeliveryStatus
  attempts : Nat
  nextAttemptAt : Int
  leaseUntil : Option Int
  lastError : String
  responseID : String
  sentAt : Option Int
  deriving DecidableEq

/-- The lease `DeliverDue` asks for. -/
def lease : Int := 30 * second

def retryDelay : Nat → Int
  | 1 => minute
  | 2 => 5 * minute
  | 3 => 15 * minute
  | 4 => 60 * minute
  | _ => 6 * 60 * minute

namespace Delivery

/-- The messages `ClaimDue` looks for. -/
def due (d : Delivery) (now : Int) : Bool :=
  match d.status with
  | .pending | .retrying => d.nextAttemptAt ≤ now
  | .sending => d.leaseUntil.any (· ≤ now)
  | .sent | .failed => false

/-- What `ClaimDue` writes. -/
def claimed (d : Delivery) (now : Int) : Delivery :=
  { d with status := .sending, attempts := d.attempts + 1, leaseUntil := some (now + lease) }

/-- `MarkSent`; `none` is `ErrDeliveryNotFound`. -/
def markSent (d : Delivery) (responseID : String) (now : Int) : Option Delivery :=
  if d.status = .sending then
    some { d with status := .sent, responseID, sentAt := some now, leaseUntil := none,
                  lastError := "" }
  else none

/-- `MarkFailed`. -/
def markFailed (d : Delivery) (lastError : String) (next : Int) (terminal : Bool) :
    Option Delivery :=
  if d.status = .sending then
    some { d with status := if terminal then .failed else .retrying, nextAttemptAt := next,
                  leaseUntil := none, lastError }
  else none

end Delivery

-- ======== workers

/-- A claim that is being worked on: the attempts it read, and its time. -/
structure Worker where
  attempts : Nat
  now : Int
  deriving DecidableEq

/-- What became of a delivery. -/
inductive Answer where
  | sent (responseID : String)
  | unsent
  | noCredentials
  deriving DecidableEq

/-- The end of `deliver`, with `recordFailure`. The times are those of the
claim. -/
def Worker.report (w : Worker) (d : Delivery) : Answer → Option Delivery
  | .sent responseID => d.markSent responseID w.now
  | .unsent => fails "飞书消息发送失败"
  | .noCredentials => fails "读取飞书通知凭据失败"
where
  fails (message : String) : Option Delivery :=
    let terminal : Bool := 24 ≤ w.attempts
    d.markFailed message (if terminal then w.now else w.now + retryDelay w.attempts) terminal

/-- A message and its claims, in their order; `none` has reported, or is
gone. Every claim starts a send. -/
structure Outbox where
  delivery : Delivery
  claims : List (Option Worker)

/-- What happens to a message. A claim finds the channel enabled or not,
and a report comes at some time. -/
inductive Op where
  | claim (now : Int) (enabled : Bool)
  | report (n : Nat) (answer : Answer) (now : Int)
  | crash (n : Nat)

namespace Outbox

def step (s : Outbox) : Op → Outbox
  | .claim now enabled =>
    if enabled && s.delivery.due now then
      ⟨s.delivery.claimed now, s.claims ++ [some ⟨s.delivery.attempts + 1, now⟩]⟩
    else s
  | .report n answer _ =>
    match s.claims[n]? with
    | some (some w) => ⟨(w.report s.delivery answer).getD s.delivery, s.claims.set n none⟩
    | _ => s
  | .crash n => { s with claims := s.claims.set n none }

/-- However it goes on, the message is sent, and no send of it is
started. -/
def Recorded (s : Outbox) : Prop :=
  ∀ after, (run step s after).delivery.status = .sent
    ∧ (run step s after).claims.length = s.claims.length

-- ======== sent messages

theorem report_of_sent {d : Delivery} (h : d.status = .sent) (w : Worker) (answer : Answer) :
    w.report d answer = none := by
  cases answer <;> simp [Worker.report, Worker.report.fails, Delivery.markSent,
    Delivery.markFailed, h]

/-- A message that is sent is neither claimed nor marked. -/
theorem step_sent {s : Outbox} (h : s.delivery.status = .sent) (op : Op) :
    (s.step op).delivery = s.delivery ∧ (s.step op).claims.length = s.claims.length := by
  cases op with
  | claim now enabled => simp [step, Delivery.due, h]
  | report n answer now =>
    simp only [step]
    split
    · simp [report_of_sent h]
    · exact ⟨rfl, rfl⟩
  | crash n => simp [step]

theorem recorded_iff {s : Outbox} : s.Recorded ↔ s.delivery.status = .sent := by
  refine ⟨fun h => (h []).1, fun h after => ?_⟩
  refine run_invariant (I := fun s' : Outbox =>
    s'.delivery.status = .sent ∧ s'.claims.length = s.claims.length) (fun s' op hs => ?_)
    ⟨h, rfl⟩ after
  obtain ⟨hdelivery, hclaims⟩ := step_sent hs.1 op
  exact ⟨hdelivery ▸ hs.1, hclaims.trans hs.2⟩

-- ======== failures

/-- The report is a failure, and the message is marked with it. -/
def Fails (s : Outbox) : Op → Prop
  | .report n answer _ => s.delivery.status = .sending ∧ (∃ w, s.claims[n]? = some (some w))
    ∧ ∀ responseID, answer ≠ .sent responseID
  | _ => False

/-- The message is being sent, or it is sent. -/
def Underway (s : Outbox) : Prop :=
  s.delivery.status = .sending ∨ s.delivery.status = .sent

/-- A failure is where the message stops being sent. -/
theorem step_underway {s : Outbox} (h : s.Underway) (op : Op) :
    (s.step op).Underway ↔ ¬ s.Fails op := by
  rcases h with h | h
  · cases op with
    | claim now enabled =>
      simp only [step, Fails, not_false_eq_true, iff_true]
      split
      · exact Or.inl rfl
      · exact Or.inl h
    | report n answer now =>
      simp only [step, Fails, h, true_and]
      split
      · next w hw =>
        cases answer <;> simp [Underway, hw, Worker.report, Worker.report.fails,
          Delivery.markSent, Delivery.markFailed, h] <;> split <;> simp
      · next hnone =>
        refine iff_of_true (Or.inl h) fun hfails => ?_
        obtain ⟨w, hw⟩ := hfails.1
        exact hnone w hw
    | crash n => exact iff_of_true (Or.inl h) id
  · refine iff_of_true (Or.inr ((step_sent h op).1 ▸ h)) fun hfails => ?_
    cases op with
    | report n answer now => cases h.symm.trans hfails.1
    | claim | crash => exact hfails

theorem step_length (s : Outbox) (op : Op) : s.claims.length ≤ (s.step op).claims.length := by
  cases op with
  | claim now enabled =>
    simp only [step]
    split
    · simp
    · exact le_refl _
  | report n answer now =>
    simp only [step]
    split
    · simp
    · exact le_refl _
  | crash n => simp [step]

theorem run_length (s : Outbox) (ops : List Op) :
    s.claims.length ≤ (run step s ops).claims.length :=
  run_invariant (I := fun s' : Outbox => s.claims.length ≤ s'.claims.length)
    (fun s' op hs => hs.trans (s'.step_length op)) (le_refl _) ops

/-- A message that is not being sent stays so until it is claimed. -/
theorem step_idle {s : Outbox} (h : ¬ s.Underway) {op : Op}
    (hlength : (s.step op).claims.length = s.claims.length) : ¬ (s.step op).Underway := by
  cases op with
  | claim now enabled =>
    simp only [step] at hlength ⊢
    split at hlength
    · simp at hlength
    · rwa [if_neg ‹_›]
  | report n answer now =>
    simp only [step]
    split
    · next w hw =>
      have hnot : s.delivery.status ≠ .sending := fun hsending => h (Or.inl hsending)
      cases answer <;> simpa [Worker.report, Worker.report.fails, Delivery.markSent,
        Delivery.markFailed, hnot, Underway] using h
    · exact h
  | crash n => exact h

theorem run_idle {ops : List Op} {s : Outbox} (h : ¬ s.Underway)
    (hlength : (run step s ops).claims.length = s.claims.length) :
    ¬ (run step s ops).Underway := by
  induction ops generalizing s with
  | nil => exact h
  | cons op ops ih =>
    have hfirst := s.step_length op
    have hrest := (s.step op).run_length ops
    rw [run_cons] at hlength ⊢
    exact ih (step_idle h (by omega)) (by omega)

/-- Between two claims the message is being sent, or is sent, as long as
no report is a failure. -/
theorem run_underway {ops : List Op} {s : Outbox} (h : s.Underway)
    (hlength : (run step s ops).claims.length = s.claims.length) :
    (run step s ops).Underway ↔ Guarded step (fun s op => ¬ s.Fails op) s ops := by
  induction ops generalizing s with
  | nil => exact iff_of_true h trivial
  | cons op ops ih =>
    have hfirst := s.step_length op
    have hrest := (s.step op).run_length ops
    rw [run_cons] at hlength ⊢
    by_cases hfails : s.Fails op
    · have hidle : ¬ (s.step op).Underway := fun hnot => (step_underway h op).mp hnot hfails
      exact iff_of_false (run_idle hidle (by omega)) fun hguarded => hguarded.1 hfails
    · have hgoes := (step_underway h op).mpr hfails
      rw [ih hgoes (by omega)]
      exact (and_iff_right hfails).symm

end Outbox

/-- A worker whose send succeeded has it recorded exactly when, at its
report, the message is still being sent or was recorded as sent. For the
worker of the latest claim this is so exactly when since that claim no
other worker has marked the message with a failure. -/
theorem delivered_recorded_iff (start : Outbox) (before : List Op) (n : Nat) (w : Worker)
    (responseID : String) (now : Int)
    (hworker : (run Outbox.step start before).claims[n]? = some (some w)) :
    (((run Outbox.step start before).step (.report n (.sent responseID) now)).Recorded
      ↔ (run Outbox.step start before).delivery.status = .sending
        ∨ (run Outbox.step start before).delivery.status = .sent)
    ∧ ∀ prior claimedAt since, before = prior ++ .claim claimedAt true :: since →
      (run Outbox.step start prior).claims.length = n →
      (run Outbox.step start (prior ++ [.claim claimedAt true])).claims.length = n + 1 →
      (run Outbox.step start before).claims.length = n + 1 →
      (((run Outbox.step start before).step (.report n (.sent responseID) now)).Recorded
        ↔ Guarded Outbox.step (fun s op => ¬ s.Fails op)
          (run Outbox.step start (prior ++ [.claim claimedAt true])) since) := by
  have hstatus : ((run Outbox.step start before).step (.report n (.sent responseID) now)).Recorded
      ↔ (run Outbox.step start before).Underway := by
    rw [Outbox.recorded_iff]
    simp only [Outbox.step, hworker, Worker.report, Delivery.markSent, Outbox.Underway]
    split
    · next hsending => simp [hsending]
    · next hnot => simp [hnot]
  refine ⟨hstatus, fun prior claimedAt since hbefore hprior hclaimed hlast => ?_⟩
  have hsplit : run Outbox.step start before = run Outbox.step
      (run Outbox.step start (prior ++ [.claim claimedAt true])) since := by
    rw [hbefore, ← run_append, List.append_assoc, List.singleton_append]
  have hunderway : (run Outbox.step start (prior ++ [.claim claimedAt true])).Underway := by
    rw [run_append, run_cons, run_nil] at hclaimed ⊢
    simp only [Outbox.step] at hclaimed ⊢
    split at hclaimed
    · next hdue =>
      rw [if_pos hdue]
      exact Or.inl rfl
    · omega
  rw [hstatus, hsplit]
  refine Outbox.run_underway hunderway ?_
  rw [← hsplit, hlast, hclaimed]

-- ======== samples

/-- A message as it is inserted. -/
def fresh : Outbox := ⟨⟨.pending, 0, 0, none, "", "", none⟩, []⟩

/-- The second worker takes the message over, and the first is never
heard of again. -/
theorem delivered_recorded_iff_taken_over :
    ((run Outbox.step fresh [.claim 0 true, .claim lease true, .crash 0]).step
      (.report 1 (.sent "r") (lease + second))).Recorded :=
  ((delivered_recorded_iff fresh [.claim 0 true, .claim lease true, .crash 0] 1 ⟨2, lease⟩ "r"
    (lease + second) (by decide)).2 [.claim 0 true] lease [.crash 0] rfl (by decide) (by decide)
    (by decide)).mpr ⟨id, trivial⟩

/-- The send of the first worker fails after its lease has ended. The
second worker, whose send succeeds in time, finds the message waiting to
be sent again. -/
theorem late_failure_sends_again : ¬ ∀ (before : List Op) (n : Nat) (w : Worker)
      (responseID : String) (now : Int),
    (run Outbox.step fresh before).claims[n]? = some (some w) →
    (run Outbox.step fresh before).claims.length = n + 1 → now < w.now + lease →
    ((run Outbox.step fresh before).step (.report n (.sent responseID) now)).Recorded := by
  intro hall
  have hrecorded := hall [.claim 0 true, .claim lease true, .report 0 .unsent (lease + second)]
    1 ⟨2, lease⟩ "r" (lease + 2 * second) (by decide) (by decide) (by decide)
  exact absurd (Outbox.recorded_iff.mp hrecorded) (by decide)

end Yunling.Notification
