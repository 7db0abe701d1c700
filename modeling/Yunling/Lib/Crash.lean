/-
Procedures that may be cut off.

A procedure works on a state that outlives it, such as a disk, by
operations that are done one by one. Before any of them it may be cut
off, and the state stays as it is; an operation may also report an error,
with or without its effect, which the procedure sees as its answer.

# What lies ahead

What becomes of the operations is not up to the procedure: `Ahead` has
what becomes of the next ones, for each kind of operation. Where it has
nothing for the one that comes next, the procedure is cut off. So all the
ways a call can go are all the values of `Ahead`; `calm` is the one in
which everything is done.

# Rules

`wp A p C Q E s` says where `p` can get from `s` when what lies ahead is
as `A` allows: cut off in a state with `C`, ended with an answer and `Q`,
or ended with an error and `E`. There is a rule for every way to make a
procedure; `wp_forM` is the one for loops. What a call keeps however it
goes, all its runs keep (`wp.leaves`).

`goes p C P ahead s` says the same for one value of `Ahead`, for what
depends on which operation fails.
-/
import Mathlib.Data.Nat.Find
import Mathlib.Logic.Function.Basic

namespace Crash

-- ======== procedures

/-- What becomes of an operation: it is done, or it reports an error,
with or without its effect. -/
inductive Fate where
  | done
  | failed (took : Bool)
  deriving DecidableEq

/-- What becomes of the operations to come, by their kinds; nothing where
the procedure is cut off. -/
abbrev Ahead (κ : Type) : Type := κ → Nat → Option Fate

/-- What is ahead after some operations of one kind. -/
def Ahead.skip {κ : Type} [DecidableEq κ] (ahead : Ahead κ) (k : κ) (m : Nat) : Ahead κ :=
  Function.update ahead k fun n => ahead k (n + m)

/-- Everything is done. -/
def calm {κ : Type} : Ahead κ := fun _ _ => some .done

theorem calm_skip {κ : Type} [DecidableEq κ] (k : κ) (m : Nat) : (calm : Ahead κ).skip k m = calm :=
  Function.update_eq_self k calm

/-- How a procedure ends. -/
inductive Ending (κ σ ε α : Type) where
  | cut (s : σ)
  | ended (ahead : Ahead κ) (s : σ) (result : Except ε α)

/-- A procedure on states `σ` with errors `ε`. -/
def Proc (κ σ ε α : Type) : Type := Ahead κ → σ → Ending κ σ ε α

namespace Proc

variable {κ σ ε α β : Type}

instance : Monad (Proc κ σ ε) where
  pure a := fun ahead s => .ended ahead s (.ok a)
  bind p f := fun ahead s =>
    match p ahead s with
    | .cut s => .cut s
    | .ended ahead s (.ok a) => f a ahead s
    | .ended ahead s (.error e) => .ended ahead s (.error e)

/-- An error ends the procedure. -/
def fail (e : ε) : Proc κ σ ε α := fun ahead s => .ended ahead s (.error e)

/-- An error is looked at. -/
def attempt (p : Proc κ σ ε α) : Proc κ σ ε (Except ε α) := fun ahead s =>
  match p ahead s with
  | .cut s => .cut s
  | .ended ahead s result => .ended ahead s (.ok result)

/-- One operation; `e` is the error it may report. -/
def op [DecidableEq κ] (k : κ) (e : ε) (act : σ → Except ε α × σ) : Proc κ σ ε α := fun ahead s =>
  match ahead k 0 with
  | none => .cut s
  | some .done => .ended (ahead.skip k 1) (act s).2 (act s).1
  | some (.failed took) =>
    .ended (ahead.skip k 1) (if took then (act s).2 else s) (.error e)

/-- An operation that looks at the state. -/
def read [DecidableEq κ] (k : κ) (e : ε) (f : σ → Except ε α) :
    Proc κ σ ε α := op k e fun s => (f s, s)

/-- An operation that changes the state. -/
def write [DecidableEq κ] (k : κ) (e : ε) (f : σ → σ) :
    Proc κ σ ε Unit := op k e fun s => (.ok (), f s)

/-- The state a procedure leaves. -/
def leaves (p : Proc κ σ ε α) (ahead : Ahead κ) (s : σ) : σ :=
  match p ahead s with
  | .cut s => s
  | .ended _ s _ => s

/-- What an undisturbed call answers. -/
def answer (p : Proc κ σ ε α) (s : σ) : Option (Except ε α) :=
  match p calm s with
  | .cut _ => none
  | .ended _ _ result => some result

end Proc

-- ======== evaluation

section Evaluation

variable {κ σ ε α β : Type} {p : Proc κ σ ε α} {f : α → Proc κ σ ε β}
  {ahead ahead' : Ahead κ} {s s' : σ} {result : Except ε α}

theorem bind_apply : (p >>= f) ahead s = match p ahead s with
    | .cut s => .cut s
    | .ended ahead s (.ok a) => f a ahead s
    | .ended ahead s (.error e) => .ended ahead s (.error e) := rfl

theorem bind_ok {a : α} (h : p ahead s = .ended ahead' s' (.ok a)) :
    (p >>= f) ahead s = f a ahead' s' := by
  rw [bind_apply, h]

theorem bind_error {e : ε} (h : p ahead s = .ended ahead' s' (.error e)) :
    (p >>= f) ahead s = .ended ahead' s' (.error e) := by
  rw [bind_apply, h]

theorem bind_cut (h : p ahead s = .cut s') : (p >>= f) ahead s = .cut s' := by
  rw [bind_apply, h]

theorem attempt_ended (h : p ahead s = .ended ahead' s' result) :
    p.attempt ahead s = .ended ahead' s' (.ok result) := by
  unfold Proc.attempt
  rw [h]

theorem answer_eq (ahead' : Ahead κ) (s' : σ)
    (h : p calm s = .ended ahead' s' result) : p.answer s = some result := by
  unfold Proc.answer
  rw [h]

theorem leaves_cut (h : p ahead s = .cut s') : p.leaves ahead s = s' := by
  unfold Proc.leaves
  rw [h]

theorem leaves_ended (h : p ahead s = .ended ahead' s' result) : p.leaves ahead s = s' := by
  unfold Proc.leaves
  rw [h]

variable [DecidableEq κ] {k : κ} {e : ε}

theorem op_cut (act : σ → Except ε α × σ) (h : ahead k 0 = none) :
    Proc.op k e act ahead s = .cut s := by
  unfold Proc.op
  rw [h]

theorem op_done (act : σ → Except ε α × σ) (h : ahead k 0 = some .done) :
    Proc.op k e act ahead s = .ended (ahead.skip k 1) (act s).2 (act s).1 := by
  unfold Proc.op
  rw [h]

theorem op_calm (act : σ → Except ε α × σ) :
    Proc.op k e act calm s = .ended calm (act s).2 (act s).1 := by
  rw [op_done act rfl, calm_skip]

theorem read_calm (f : σ → Except ε α) : Proc.read k e f calm s = .ended calm s (f s) := op_calm _

theorem read_calm_ok (f : σ → α) :
    Proc.read k e (fun s => .ok (f s)) calm s = .ended calm s (.ok (f s)) := op_calm _

theorem write_calm (f : σ → σ) : Proc.write k e f calm s = .ended calm (f s) (.ok ()) := op_calm _

theorem Ahead.skip_of_ne {k' : κ} (h : k' ≠ k) (m n : Nat) : ahead.skip k m k' n = ahead k' n := by
  unfold Ahead.skip
  rw [Function.update_of_ne h]

theorem Ahead.skip_self (m n : Nat) : ahead.skip k m k n = ahead k (n + m) := by
  unfold Ahead.skip
  rw [Function.update_self]

theorem Ahead.skip_zero : ahead.skip k 0 = ahead := Function.update_eq_self k ahead

theorem Ahead.skip_skip (m m' : Nat) : (ahead.skip k m).skip k m' = ahead.skip k (m' + m) := by
  funext k' n
  by_cases h : k' = k
  · subst h
    rw [Ahead.skip_self, Ahead.skip_self, Ahead.skip_self, Nat.add_assoc]
  · rw [Ahead.skip_of_ne h, Ahead.skip_of_ne h, Ahead.skip_of_ne h]

end Evaluation

-- ======== rules

section Rules

variable {κ σ ε α β : Type} {ahead : Ahead κ} {k : κ} {e : ε} {m : Nat}

/-- What lies ahead is allowed. -/
def Meets (A : κ → Option Fate → Prop) (ahead : Ahead κ) : Prop :=
  ∀ k n, A k (ahead k n)

/-- The procedure has ended as it may. -/
def Ending.Sat (A : κ → Option Fate → Prop) (C : σ → Prop)
    (Q : α → σ → Prop) (E : ε → σ → Prop) : Ending κ σ ε α → Prop
  | .cut s => C s
  | .ended ahead s (.ok a) => Meets A ahead ∧ Q a s
  | .ended ahead s (.error e) => Meets A ahead ∧ E e s

/-- However what is allowed goes, the procedure ends as it may. -/
def wp (A : κ → Option Fate → Prop) (p : Proc κ σ ε α) (C : σ → Prop)
    (Q : α → σ → Prop) (E : ε → σ → Prop) (s : σ) : Prop :=
  ∀ ahead, Meets A ahead → (p ahead s).Sat A C Q E

variable {A : κ → Option Fate → Prop} {p : Proc κ σ ε α}
  {f : α → Proc κ σ ε β} {C C' : σ → Prop} {Q Q' : α → σ → Prop}
  {E E' : ε → σ → Prop} {s : σ}

/-- With this ahead the procedure is cut off or ends, and as it may. -/
def goes (p : Proc κ σ ε α) (C : σ → Prop)
    (P : Ahead κ → σ → Except ε α → Prop) (ahead : Ahead κ) (s : σ) : Prop :=
  match p ahead s with
  | .cut s => C s
  | .ended ahead s result => P ahead s result

section Goes

variable {P P' : Ahead κ → σ → Except ε α → Prop}

theorem goes.mono (h : goes p C P ahead s) (hC : ∀ s, C s → C' s)
    (hP : ∀ ahead' s' result, P ahead' s' result → P' ahead' s' result) : goes p C' P' ahead s := by
  unfold goes at h ⊢
  cases hp : p ahead s with
  | cut s' =>
    rw [hp] at h
    exact hC s' h
  | ended ahead' s' result =>
    rw [hp] at h
    exact hP ahead' s' result h

theorem goes.and (h : goes p C P ahead s) (h' : goes p C' P' ahead s) : goes p (fun s => C s ∧ C' s)
      (fun ahead' s' result => P ahead' s' result ∧ P' ahead' s' result) ahead s := by
  unfold goes at *
  cases hp : p ahead s with
  | cut | ended =>
    rw [hp] at h h'
    exact ⟨h, h'⟩

/-- How the procedure ended, if it did. -/
theorem goes.ended (h : goes p C P ahead s) {ahead' : Ahead κ} {s' : σ}
    {result : Except ε α} (hp : p ahead s = .ended ahead' s' result) : P ahead' s' result := by
  unfold goes at h
  rw [hp] at h
  exact h

/-- What is kept however the procedure goes holds of what it leaves. -/
theorem goes.leaves (h : goes p C (fun _ s _ => C s) ahead s) : C (p.leaves ahead s) := by
  unfold goes at h
  unfold Proc.leaves
  cases hp : p ahead s with
  | cut | ended =>
    rw [hp] at h
    exact h

theorem goes_pure {a : α} (h : P ahead s (.ok a)) : goes (pure a) C P ahead s := h

theorem goes_fail {e : ε} (h : P ahead s (.error e)) : goes (Proc.fail e) C P ahead s := h

theorem goes_bind {P : Ahead κ → σ → Except ε β → Prop}
    (h : goes p C (fun ahead' s' result => match result with
      | .ok a => goes (f a) C P ahead' s'
      | .error e => P ahead' s' (.error e)) ahead s) : goes (p >>= f) C P ahead s := by
  unfold goes at h ⊢
  rw [bind_apply]
  cases hp : p ahead s with
  | cut s' =>
    rw [hp] at h
    exact h
  | ended ahead' s' result =>
    rw [hp] at h
    cases result with
    | ok a => exact h
    | error e => exact h

theorem goes_attempt {P : Ahead κ → σ → Except ε (Except ε α) → Prop}
    (h : goes p C (fun ahead' s' result => P ahead' s' (.ok result)) ahead s) :
    goes p.attempt C P ahead s := by
  unfold goes Proc.attempt at *
  cases hp : p ahead s with
  | cut | ended =>
    rw [hp] at h
    exact h

theorem goes_op [DecidableEq κ] {k : κ} {e : ε}
    {act : σ → Except ε α × σ} (hcut : ahead k 0 = none → C s) (hdone : ahead k 0 = some .done →
      P (ahead.skip k 1) (act s).2 (act s).1) (hfailed : ∀ took, ahead k 0 = some (.failed took) →
      P (ahead.skip k 1) (if took then (act s).2 else s) (.error e)) :
    goes (Proc.op k e act) C P ahead s := by
  unfold goes Proc.op
  cases hk : ahead k 0 with
  | none => exact hcut hk
  | some fate =>
    cases fate with
    | done => exact hdone hk
    | failed took => exact hfailed took hk

end Goes

/-- A procedure that ends as it may goes so with everything ahead. -/
theorem sat_iff_goes : (p ahead s).Sat A C Q E ↔ goes p C (fun ahead' s' result =>
    Meets A ahead' ∧ match result with
      | .ok a => Q a s'
      | .error e => E e s') ahead s := by
  unfold goes
  cases p ahead s with
  | cut s' => exact Iff.rfl
  | ended ahead' s' result => cases result <;> exact Iff.rfl

theorem wp.mono (h : wp A p C Q E s) (hC : ∀ s, C s → C' s)
    (hQ : ∀ a s, Q a s → Q' a s) (hE : ∀ e s, E e s → E' e s) : wp A p C' Q' E' s := by
  intro ahead hahead
  refine sat_iff_goes.mpr ((sat_iff_goes.mp (h ahead hahead)).mono hC ?_)
  rintro ahead' s' (e | a) hend
  · exact ⟨hend.1, hE e s' hend.2⟩
  · exact ⟨hend.1, hQ a s' hend.2⟩

theorem wp_pure {a : α} (h : Q a s) : wp A (pure a) C Q E s :=
  fun _ hahead => ⟨hahead, h⟩

theorem wp_fail (h : E e s) : wp A (Proc.fail e : Proc κ σ ε α) C Q E s :=
  fun _ hahead => ⟨hahead, h⟩

theorem wp_bind {Q : β → σ → Prop} (h : wp A p C (fun a => wp A (f a) C Q E) E s) :
    wp A (p >>= f) C Q E s := by
  intro ahead hahead
  refine sat_iff_goes.mpr (goes_bind ((sat_iff_goes.mp (h ahead hahead)).mono (fun _ h => h) ?_))
  rintro ahead' s' (e | a) hend
  · exact hend
  · exact sat_iff_goes.mp (hend.2 ahead' hend.1)

theorem wp_attempt {Q : Except ε α → σ → Prop}
    (h : wp A p C (fun a => Q (.ok a)) (fun e => Q (.error e)) s) : wp A p.attempt C Q E s := by
  intro ahead hahead
  refine sat_iff_goes.mpr (goes_attempt ((sat_iff_goes.mp (h ahead hahead)).mono (fun _ h => h) ?_))
  rintro ahead' s' (e | a) hend <;> exact hend

theorem Meets.skip [DecidableEq κ] (h : Meets A ahead)
    (k : κ) (m : Nat) : Meets A (ahead.skip k m) := by
  intro k' n
  by_cases heq : k' = k
  · subst heq
    rw [Ahead.skip_self]
    exact h k' (n + m)
  · rw [Ahead.skip_of_ne heq]
    exact h k' n

/-- Nothing fails; a procedure may be cut off. -/
def OnlyCut (_ : κ) (f : Option Fate) : Prop :=
  f = none ∨ f = some .done

theorem Meets.done (h : Meets OnlyCut ahead)
    {n : Nat} {f : Fate} (hf : ahead k n = some f) : f = .done := by
  rcases h k n with hnone | hdone
  · rw [hnone] at hf
    cases hf
  · exact Option.some.inj (hf.symm.trans hdone)

theorem Ahead.until_not_done (h : ahead k m ≠ some .done) :
    ∃ n ≤ m, ahead k n ≠ some .done ∧ ∀ i < n, ahead k i = some .done := by
  have hex : ∃ n, ahead k n ≠ some .done := ⟨m, h⟩
  refine ⟨Nat.find hex, Nat.find_min' hex h, Nat.find_spec hex, fun i hi => ?_⟩
  exact not_not.mp (Nat.find_min hex hi)

/-- When nothing fails, everything is done up to the point where the
procedure is cut off. -/
theorem Meets.until_cut (h : Meets OnlyCut ahead)
    (hm : ahead k m = none) : ∃ n ≤ m, ahead k n = none ∧ ∀ i < n, ahead k i = some .done := by
  have hm : ahead k m ≠ some .done := by
    rw [hm]
    nofun
  obtain ⟨n, hn, hnot, hdone⟩ := Ahead.until_not_done hm
  exact ⟨n, hn, (h k n).resolve_right hnot, hdone⟩

theorem wp_op [DecidableEq κ] {act : σ → Except ε α × σ} (hcut : C s)
    (hok : A k (some .done) → ∀ a, (act s).1 = .ok a → Q a (act s).2)
    (herror : A k (some .done) → ∀ e', (act s).1 = .error e' → E e' (act s).2)
    (hfailed : ∀ took, A k (some (.failed took)) → E e (if took then (act s).2 else s)) :
    wp A (Proc.op k e act) C Q E s := by
  intro ahead hahead
  have hfate := hahead k 0
  refine sat_iff_goes.mpr (goes_op (fun _ => hcut) (fun hk => ⟨hahead.skip k 1, ?_⟩)
    fun took hk => ⟨hahead.skip k 1, hfailed took (hk ▸ hfate)⟩)
  rw [hk] at hfate
  cases hact : (act s).1 with
  | ok a => exact hok hfate a hact
  | error e' => exact herror hfate e' hact

theorem wp_read [DecidableEq κ] {f : σ → Except ε α}
    (hcut : C s) (hok : ∀ a, f s = .ok a → Q a s) (herror : ∀ e', f s = .error e' → E e' s)
    (hfailed : ∀ took, A k (some (.failed took)) → E e s) : wp A (Proc.read k e f) C Q E s :=
  wp_op hcut (fun _ => hok) (fun _ => herror) fun took hfate => by
    have := hfailed took hfate
    cases took <;> exact this

/-- What a change that failed leaves, where either is good. -/
theorem of_took {P : σ → Prop} {s s' : σ} (h : P s) (h' : P s') (took : Bool) :
    P (if took then s' else s) := by
  cases took with
  | false => exact h
  | true => exact h'

theorem wp_write [DecidableEq κ] {f : σ → σ} {Q : Unit → σ → Prop} (hcut : C s)
    (hok : Q () (f s)) (hbefore : A k (some (.failed false)) → E e s)
    (hafter : A k (some (.failed true)) → E e (f s)) : wp A (Proc.write k e f) C Q E s :=
  wp_op hcut (fun _ _ _ => hok) (fun _ _ he => by cases he)
    fun took hfate => by
      cases took with
      | false => exact hbefore hfate
      | true => exact hafter hfate

/-- A loop, by what holds when some elements are left. -/
theorem wp_forM {body : α → Proc κ σ ε PUnit} {Q : PUnit → σ → Prop} (I : List α → σ → Prop)
    (hbody : ∀ x rest s, I (x :: rest) s → wp A (body x) C (fun _ => I rest) E s)
    (hend : ∀ s, I [] s → Q () s) : ∀ (xs : List α) (s : σ), I xs s → wp A (xs.forM body) C Q E s
  | [], s, hI => wp_pure (hend s hI)
  | x :: rest, s, hI =>
    wp_bind ((hbody x rest s hI).mono (fun _ h => h)
      (fun _ s' h => wp_forM I hbody hend rest s' h) fun _ _ h => h)

/-- What is kept however a procedure goes holds of what it leaves. -/
theorem wp.leaves {I : σ → Prop} (h : wp A p I (fun _ => I) (fun _ => I) s)
    (hahead : Meets A ahead) : I (p.leaves ahead s) := by
  refine ((sat_iff_goes.mp (h ahead hahead)).mono (fun _ h => h) ?_).leaves
  rintro ahead' s' (e | a) hend <;> exact hend.2

/-- However it goes, the procedure keeps what holds before. -/
def Keeps (A : κ → Option Fate → Prop) (I : σ → Prop) (p : Proc κ σ ε α) : Prop :=
  ∀ s, I s → wp A p I (fun _ => I) (fun _ => I) s

section Keeps

variable {I : σ → Prop} {Q : β → σ → Prop} {k : κ} {e : ε}

theorem keeps_pure (a : α) : Keeps A I (pure a : Proc κ σ ε α) :=
  fun _ hs => wp_pure hs

theorem keeps_fail (e : ε) : Keeps A I (Proc.fail e : Proc κ σ ε α) :=
  fun _ hs => wp_fail hs

theorem Keeps.bind (hp : Keeps A I p) (hf : ∀ a, Keeps A I (f a)) :
    Keeps A I (p >>= f) := fun s hs =>
  wp_bind ((hp s hs).mono (fun _ h => h) (fun a s' hs' => hf a s' hs') fun _ _ h => h)

/-- What comes after a procedure that keeps it. -/
theorem Keeps.wp_bind (hp : Keeps A I p) (hs : I s) (hC : ∀ s, I s → C s) (hE : ∀ e s, I s → E e s)
    (hf : ∀ a s, I s → wp A (f a) C Q E s) : wp A (p >>= f) C Q E s :=
  Crash.wp_bind ((hp s hs).mono hC hf hE)

theorem Keeps.wp_next (hp : Keeps A I p) (hs : I s)
    (hf : ∀ a s, I s → wp A (f a) I Q (fun _ => I) s) : wp A (p >>= f) I Q (fun _ => I) s :=
  hp.wp_bind hs (fun _ h => h) (fun _ _ h => h) hf

theorem Keeps.attempt (hp : Keeps A I p) : Keeps A I p.attempt :=
  fun s hs => wp_attempt (hp s hs)

/-- An operation that keeps it when it is done, or is never done. -/
theorem keeps_op [DecidableEq κ] {act : σ → Except ε α × σ}
    (h : A k (some .done) ∨ A k (some (.failed true)) → ∀ s, I s → I (act s).2) :
    Keeps A I (Proc.op k e act) := fun s hs =>
  wp_op hs (fun hdone _ _ => h (Or.inl hdone) s hs)
    (fun hdone _ _ => h (Or.inl hdone) s hs) fun took hfailed => by
      cases took with
      | false => exact hs
      | true => exact h (Or.inr hfailed) s hs

theorem keeps_read [DecidableEq κ] {f : σ → Except ε α} :
    Keeps A I (Proc.read k e f) := keeps_op fun _ _ hs => hs

theorem keeps_write [DecidableEq κ] {f : σ → σ}
    (h : A k (some .done) ∨ A k (some (.failed true)) → ∀ s, I s → I (f s)) :
    Keeps A I (Proc.write k e f) := keeps_op h

end Keeps

end Rules

end Crash
