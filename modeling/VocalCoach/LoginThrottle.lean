/-
# The login throttle

Failing logins, command by command: a login checks the throttle, verifies its password, and
records the failure by loading the state of its key and storing the next one.  Between any two
of these other logins may go on, and the key may expire.

Two things have to be in time (`InTime`).  A login that passes the check has to leave room: the
failures on the key, and the logins between their check and their record, stay below
`loginMaxFailures`.  And records do not overlap, nor is one lost.  Where they are, the key counts
every failure of the last `loginLockDuration`, and no interval of that length holds more than
`loginMaxFailures` verifications (`failures_counted`).  Logins of one key that do not overlap are
in time (`sequential_inTime`).
-/
import VocalCoach.ExpiringKeys
import VocalCoach.Machine
import VocalCoach.Threads
import Mathlib.Algebra.Group.Nat.Defs
import Mathlib.Order.Nat

namespace VocalCoach.LoginThrottle

open ExpiringKeys Machine Threads

/-! ## The throttle -/

/-- Times are in milliseconds. -/
def loginMaxFailures : ℕ := 10

def loginLockDuration : ℕ := 15 * 60 * 1000

def loginMaxBackoff : ℕ := 60 * 1000

/-- What a key holds; 0 is the zero time. -/
structure LoginState where
  failures : ℕ := 0
  lockedUntil : ℕ := 0
  nextAllowedAt : ℕ := 0
  deriving DecidableEq, Repr

/-- `Check`: for how much longer the key is locked. -/
def LoginState.check (s : LoginState) (now : ℕ) : Option ℕ :=
  if now < s.lockedUntil then some (s.lockedUntil - now)
  else if now < s.nextAllowedAt then some (s.nextAllowedAt - now)
  else none

/-- `RecordFailure`, between its `GET` and its `SET`. -/
def LoginState.recordFailure (s : LoginState) (now : ℕ) : LoginState :=
  let failures := s.failures + 1
  if failures ≥ loginMaxFailures then
    { s with failures, lockedUntil := now + loginLockDuration }
  else
    { s with failures, nextAllowedAt := now + min (2 ^ failures * 1000) loginMaxBackoff }

/-- A check that passes finds no lock. -/
theorem LoginState.lockedUntil_le {s : LoginState} {now : ℕ} (h : s.check now = none) :
    s.lockedUntil ≤ now := by
  unfold LoginState.check at h
  split_ifs at h with hlocked
  omega

@[simp] theorem LoginState.failures_recordFailure (s : LoginState) (now : ℕ) :
    (s.recordFailure now).failures = s.failures + 1 := by
  unfold LoginState.recordFailure
  dsimp only
  split_ifs <;> rfl

/-- From the last failure that is tolerated on, the key is locked. -/
theorem LoginState.lockedUntil_recordFailure {s : LoginState} {now : ℕ}
    (h : loginMaxFailures ≤ s.failures + 1) :
    (s.recordFailure now).lockedUntil = now + loginLockDuration :=
  congrArg LoginState.lockedUntil (if_pos h)

/-! ## Logins under way -/

/-- What a login does next, with the time at which its password was verified. -/
inductive Stage
  | checking
  | verifying
  | loading (verifiedAt : ℕ)
  | storing (verifiedAt : ℕ) (state : LoginState)
  | throttled (retryAfter : ℕ)
  /-- The credentials were invalid, and the failure is recorded. -/
  | refused (verifiedAt recordedAt : ℕ)
  | failed (verifiedAt : Option ℕ)
  deriving DecidableEq, Repr

def Stage.verifiedAt : Stage → Option ℕ
  | .loading v | .storing v _ | .refused v _ => some v
  | .failed v => v
  | .checking | .verifying | .throttled _ => none

def Stage.recordedAt : Stage → Option ℕ
  | .refused _ r => some r
  | _ => none

/-- The password is verified, and the failure on its way to the key. -/
def Stage.unrecorded : Stage → Bool
  | .loading _ | .storing _ _ => true
  | _ => false

/-- The login is under way. -/
def Stage.active : Stage → Bool
  | .checking | .verifying | .loading _ | .storing _ _ => true
  | _ => false

def Stage.isLoading : Stage → Bool
  | .loading _ => true
  | _ => false

def Stage.isStoring : Stage → Bool
  | .storing _ _ => true
  | _ => false

/-- A login that fails, for the key of its email and address. -/
structure Login where
  key : String
  stage : Stage
  deriving DecidableEq, Repr

/-- The keys, the clock and the logins. -/
structure Throttling where
  keys : Keys String LoginState := fun _ => none
  now : ℕ := 0
  logins : List Login := []

/-- A login starts, goes on with its next command, or fails there; or time passes. -/
inductive Action
  | login (key : String)
  | proceed (i : ℕ)
  | fail (i : ℕ)
  | sleep (millis : ℕ)
  deriving DecidableEq, Repr

namespace Throttling

variable (s : Throttling)

/-- `load`. -/
def load (key : String) : LoginState := (s.keys.get s.now key).getD {}

/-- A login goes on to its next stage. -/
def turn (i : ℕ) (c : Login) (stage : Stage) : Throttling :=
  { s with logins := s.logins.set i { c with stage } }

/-- `Set`. -/
def store (i : ℕ) (c : Login) (verifiedAt : ℕ) (state : LoginState) : Throttling :=
  { s.turn i c (.refused verifiedAt s.now) with
    keys := s.keys.set c.key state (s.now + loginLockDuration) }

/-- The next command of a login whose password is wrong. -/
def proceed (i : ℕ) (c : Login) : Option Throttling :=
  match c.stage with
  | .checking =>
      match (s.load c.key).check s.now with
      | some retryAfter => some (s.turn i c (.throttled retryAfter))
      | none => some (s.turn i c .verifying)
  | .verifying => some (s.turn i c (.loading s.now))
  | .loading v => some (s.turn i c (.storing v ((s.load c.key).recordFailure s.now)))
  | .storing v state => some (s.store i c v state)
  | _ => none

/-- The next command of a login fails. -/
def fail (i : ℕ) (c : Login) : Option Throttling :=
  match c.stage with
  | .checking | .verifying => some (s.turn i c (.failed none))
  | .loading v | .storing v _ => some (s.turn i c (.failed (some v)))
  | _ => none

def step : Action → Option Throttling
  | .login key => some { s with logins := s.logins ++ [{ key, stage := .checking }] }
  | .proceed i => s.logins[i]?.bind (s.proceed i)
  | .fail i => s.logins[i]?.bind (s.fail i)
  | .sleep millis => some { s with now := s.now + millis }

end Throttling

/-! ## Failures that are counted -/

/-- Its password was verified in the interval of a lock from `x` on. -/
def Login.verifiedIn (key : String) (x : ℕ) (c : Login) : Bool :=
  c.key = key ∧ ∃ v ∈ c.stage.verifiedAt, x ≤ v ∧ v < x + loginLockDuration

def Login.verifiedSince (key : String) (x : ℕ) (c : Login) : Bool :=
  c.key = key ∧ ∃ v ∈ c.stage.verifiedAt, x ≤ v

/-- Its failure was recorded less than the duration of a lock ago. -/
def Login.recordedSince (key : String) (now : ℕ) (c : Login) : Bool :=
  c.key = key ∧ ∃ r ∈ c.stage.recordedAt, now < r + loginLockDuration

def Login.isVerifying (key : String) (c : Login) : Bool := c.key = key ∧ c.stage = .verifying

def Login.isUnrecorded (key : String) (c : Login) : Bool := c.key = key ∧ c.stage.unrecorded = true

/-- The failures that a check goes by: none if a lock has come and gone. -/
def LoginState.standing (s : LoginState) : ℕ :=
  if s.failures ≥ loginMaxFailures then 0 else s.failures

/-- A check that passes leaves room for the login, records do not overlap, and no failure is
lost on its way. -/
def InTime (s : Throttling) : Action → Prop
  | .proceed i => ∀ c ∈ s.logins[i]?,
      (c.stage = .checking → (s.load c.key).check s.now = none →
        (s.load c.key).standing + s.logins.countP (Login.isVerifying c.key)
          + s.logins.countP (Login.isUnrecorded c.key) < loginMaxFailures) ∧
      (c.stage.isLoading = true → ∀ d ∈ s.logins, d.key = c.key → d.stage.isStoring = false)
  | .fail i => ∀ c ∈ s.logins[i]?, c.stage.unrecorded = false
  | _ => True

instance (s : Throttling) : DecidablePred (InTime s)
  | .login _ => isTrue trivial
  | .proceed i => inferInstanceAs (Decidable (∀ c ∈ s.logins[i]?, _))
  | .fail i => inferInstanceAs (Decidable (∀ c ∈ s.logins[i]?, _))
  | .sleep _ => isTrue trivial

/-! ## One step -/

/-- What one step does. -/
inductive Throttling.Moved (s : Throttling) : Action → Throttling → Prop
  | called (key : String) :
      Moved s (.login key) { s with logins := s.logins ++ [{ key, stage := .checking }] }
  | throttled {i : ℕ} {c : Login} {retryAfter : ℕ} (h : s.logins[i]? = some c)
      (hstage : c.stage = .checking) :
      Moved s (.proceed i) (s.turn i c (.throttled retryAfter))
  | passed {i : ℕ} {c : Login} (h : s.logins[i]? = some c) (hstage : c.stage = .checking)
      (hcheck : (s.load c.key).check s.now = none) :
      Moved s (.proceed i) (s.turn i c .verifying)
  | verified {i : ℕ} {c : Login} (h : s.logins[i]? = some c) (hstage : c.stage = .verifying) :
      Moved s (.proceed i) (s.turn i c (.loading s.now))
  | loaded {i : ℕ} {c : Login} {v : ℕ} (h : s.logins[i]? = some c)
      (hstage : c.stage = .loading v) :
      Moved s (.proceed i) (s.turn i c (.storing v ((s.load c.key).recordFailure s.now)))
  | stored {i : ℕ} {c : Login} {v : ℕ} {state : LoginState} (h : s.logins[i]? = some c)
      (hstage : c.stage = .storing v state) :
      Moved s (.proceed i) (s.store i c v state)
  | failed {i : ℕ} {c : Login} (h : s.logins[i]? = some c)
      (hstage : c.stage = .checking ∨ c.stage = .verifying) :
      Moved s (.fail i) (s.turn i c (.failed none))
  | lost {i : ℕ} {c : Login} {v : ℕ} (h : s.logins[i]? = some c)
      (hstage : c.stage.unrecorded = true) :
      Moved s (.fail i) (s.turn i c (.failed (some v)))
  | slept (millis : ℕ) : Moved s (.sleep millis) { s with now := s.now + millis }

section Steps

variable {s s' : Throttling} {a : Action} {i : ℕ} {c : Login} {key : String}

theorem Throttling.moved (h : s.step a = some s') : s.Moved a s' := by
  cases a with
  | login key =>
    cases h
    exact .called key
  | proceed i =>
    obtain ⟨c, hc, hnext⟩ := Option.bind_eq_some_iff.mp h
    unfold proceed at hnext
    split at hnext
    next hstage =>
      split at hnext
      next retryAfter _ =>
        cases hnext
        exact .throttled hc hstage
      next hcheck =>
        cases hnext
        exact .passed hc hstage hcheck
    next hstage =>
      cases hnext
      exact .verified hc hstage
    next v hstage =>
      cases hnext
      exact .loaded hc hstage
    next v state hstage =>
      cases hnext
      exact .stored hc hstage
    next => cases hnext
  | fail i =>
    obtain ⟨c, hc, hnext⟩ := Option.bind_eq_some_iff.mp h
    unfold fail at hnext
    split at hnext
    next hstage =>
      cases hnext
      exact .failed hc (Or.inl hstage)
    next hstage =>
      cases hnext
      exact .failed hc (Or.inr hstage)
    next v hstage =>
      cases hnext
      exact .lost hc (by rw [hstage]; rfl)
    next v state hstage =>
      cases hnext
      exact .lost hc (by rw [hstage]; rfl)
    next => cases hnext
  | sleep millis =>
    cases h
    exact .slept millis

/-! ### Records -/

/-- The lock outlasts every recorded verification of the key by its duration. -/
def Throttling.LockCovers (s : Throttling) (key : String) (lockedUntil : ℕ) : Prop :=
  ∀ (i : ℕ) (c : Login) (v r : ℕ), s.logins[i]? = some c → c.key = key → c.stage = .refused v r →
    v + loginLockDuration ≤ lockedUntil

/-- What the keys know of the logins. -/
structure Throttling.Recorded (s : Throttling) : Prop where
  verified_le : ∀ (i : ℕ) (c : Login) (v : ℕ), s.logins[i]? = some c →
    c.stage.verifiedAt = some v → v ≤ s.now
  none_lost : ∀ (i : ℕ) (c : Login) (v : ℕ), s.logins[i]? = some c → c.stage ≠ .failed (some v)
  /-- A recorded failure is as old as its verification at most, and the key outlasts it. -/
  refused : ∀ (i : ℕ) (c : Login) (v r : ℕ), s.logins[i]? = some c → c.stage = .refused v r →
    v ≤ r ∧ r ≤ s.now ∧ ∃ t, s.keys c.key = some t ∧ r + loginLockDuration ≤ t.expiresAt
  counted : ∀ (key : String) (t : Timed LoginState), s.keys key = some t →
    s.logins.countP (Login.recordedSince key s.now) ≤ t.value.failures
  locked : ∀ (key : String) (t : Timed LoginState), s.keys key = some t →
    loginMaxFailures ≤ t.value.failures → s.LockCovers key t.value.lockedUntil
  /-- A state that is about to be stored counts one failure more. -/
  storing : ∀ (i : ℕ) (c : Login) (v : ℕ) (state : LoginState), s.logins[i]? = some c →
    c.stage = .storing v state →
      s.logins.countP (Login.recordedSince c.key s.now) + 1 ≤ state.failures ∧
      (loginMaxFailures ≤ state.failures →
        s.LockCovers c.key state.lockedUntil ∧ v + loginLockDuration ≤ state.lockedUntil)
  alone : ∀ (i j : ℕ) (c d : Login), s.logins[i]? = some c → s.logins[j]? = some d →
    c.key = d.key → c.stage.isStoring = true → d.stage.isStoring = true → i = j

/-- One login of a key stores at a time. -/
theorem Throttling.Recorded.storingAlone (h : s.Recorded) :
    Threads.Alone (fun c : Login => c.stage.isStoring) Login.key s.logins :=
  h.alone

/-- **The counter of the key has every failure of the window**, also once the key has
expired. -/
theorem Throttling.Recorded.countP_le (h : s.Recorded) (key : String) :
    s.logins.countP (Login.recordedSince key s.now) ≤ (s.load key).failures := by
  -- the key outlasts every failure of the window
  have hnone : (∀ t, s.keys key = some t → t.expiresAt ≤ s.now) →
      s.logins.countP (Login.recordedSince key s.now) = 0 := by
    intro hexpired
    rw [List.countP_eq_zero]
    intro c hc hrecent
    obtain ⟨i, hi⟩ := List.getElem?_of_mem hc
    obtain ⟨rfl, r, hr, hlt⟩ := of_decide_eq_true hrecent
    cases hstage : c.stage with
    | refused v r' =>
      rw [hstage] at hr
      cases hr
      obtain ⟨-, -, t, ht, hlater⟩ := h.refused i c v r hi hstage
      have hpast := hexpired t ht
      omega
    | _ =>
      rw [hstage] at hr
      cases hr
  unfold Throttling.load
  cases hget : s.keys.get s.now key with
  | none =>
    rw [hnone (Keys.get_eq_none.mp hget)]
    exact Nat.zero_le _
  | some state =>
    obtain ⟨t, ht, -, rfl⟩ := Keys.get_eq_some.mp hget
    exact h.counted key t ht

/-- A login that goes on to a stage that neither records nor stores. -/
theorem Throttling.Recorded.turn {stage : Stage} (h : s.Recorded) (hi : s.logins[i]? = some c)
    (hactive : c.stage.recordedAt = none) (hverified : ∀ v ∈ stage.verifiedAt, v ≤ s.now)
    (hlost : ∀ v, stage ≠ .failed (some v)) (hrecorded : stage.recordedAt = none)
    (hstoring : stage.isStoring = false) : (s.turn i c stage).Recorded := by
  have hcount : ∀ key, (s.turn i c stage).logins.countP (Login.recordedSince key s.now)
      = s.logins.countP (Login.recordedSince key s.now) := by
    intro key
    refine countP_set_of_eq hi ?_
    simp only [Login.recordedSince, hrecorded, hactive]
  have hcovers : ∀ {key : String} {lockedUntil : ℕ}, s.LockCovers key lockedUntil →
      (s.turn i c stage).LockCovers key lockedUntil := by
    intro key lockedUntil hlock j d v r hd hkey hrefused
    rcases getElem?_set_cases hd with ⟨rfl, rfl⟩ | ⟨-, hbefore⟩
    · dsimp only at hrefused
      rw [hrefused] at hrecorded
      cases hrecorded
    · exact hlock j d v r hbefore hkey hrefused
  constructor
  case verified_le =>
    intro j d v hd hv
    rcases getElem?_set_cases hd with ⟨rfl, rfl⟩ | ⟨-, hbefore⟩
    · exact hverified v hv
    · exact h.verified_le j d v hbefore hv
  case none_lost =>
    intro j d v hd
    rcases getElem?_set_cases hd with ⟨rfl, rfl⟩ | ⟨-, hbefore⟩
    · exact hlost v
    · exact h.none_lost j d v hbefore
  case refused =>
    intro j d v r hd hrefused
    rcases getElem?_set_cases hd with ⟨rfl, rfl⟩ | ⟨-, hbefore⟩
    · dsimp only at hrefused
      rw [hrefused] at hrecorded
      cases hrecorded
    · exact h.refused j d v r hbefore hrefused
  case counted =>
    intro key t ht
    show (s.turn i c stage).logins.countP (Login.recordedSince key s.now) ≤ _
    rw [hcount]
    exact h.counted key t ht
  case locked =>
    intro key t ht hmax
    exact hcovers (h.locked key t ht hmax)
  case storing =>
    intro j d v state hd hd'
    rcases getElem?_set_cases hd with ⟨rfl, rfl⟩ | ⟨-, hbefore⟩
    · dsimp only at hd'
      rw [hd'] at hstoring
      cases hstoring
    · obtain ⟨hmore, hlock⟩ := h.storing j d v state hbefore hd'
      refine ⟨?_, fun hmax => ⟨hcovers (hlock hmax).1, (hlock hmax).2⟩⟩
      show (s.turn i c stage).logins.countP (Login.recordedSince d.key s.now) + 1 ≤ _
      rw [hcount]
      exact hmore
  case alone =>
    exact h.storingAlone.set hi rfl fun htrue => absurd (hstoring.symm.trans htrue) nofun

/-- **The state that a record stores** counts the failure, and locks the key for long enough. -/
theorem Throttling.Recorded.load {v : ℕ} (h : s.Recorded) (hi : s.logins[i]? = some c)
    (hstage : c.stage = .loading v)
    (halone : ∀ d ∈ s.logins, d.key = c.key → d.stage.isStoring = false) :
    (s.turn i c (.storing v ((s.load c.key).recordFailure s.now))).Recorded := by
  have hcount : ∀ key, (s.turn i c (.storing v ((s.load c.key).recordFailure s.now))).logins.countP
      (Login.recordedSince key s.now) = s.logins.countP (Login.recordedSince key s.now) := by
    intro key
    refine countP_set_of_eq hi (decide_eq_decide.mpr ?_)
    rw [hstage]
    exact Iff.rfl
  have hcovers : ∀ {key : String} {lockedUntil : ℕ}, s.LockCovers key lockedUntil →
      (s.turn i c (.storing v ((s.load c.key).recordFailure s.now))).LockCovers key lockedUntil := by
    intro key lockedUntil hlock j d w r hd hkey hrefused
    rcases getElem?_set_cases hd with ⟨rfl, rfl⟩ | ⟨-, hbefore⟩
    · cases hrefused
    · exact hlock j d w r hbefore hkey hrefused
  constructor
  case verified_le =>
    intro j d w hd hw
    rcases getElem?_set_cases hd with ⟨rfl, rfl⟩ | ⟨-, hbefore⟩
    · cases hw
      exact h.verified_le i c v hi (by rw [hstage]; rfl)
    · exact h.verified_le j d w hbefore hw
  case none_lost =>
    intro j d w hd
    rcases getElem?_set_cases hd with ⟨rfl, rfl⟩ | ⟨-, hbefore⟩
    · exact Stage.noConfusion
    · exact h.none_lost j d w hbefore
  case refused =>
    intro j d w r hd hrefused
    rcases getElem?_set_cases hd with ⟨rfl, rfl⟩ | ⟨-, hbefore⟩
    · cases hrefused
    · exact h.refused j d w r hbefore hrefused
  case counted =>
    intro key t ht
    exact (hcount key).le.trans (h.counted key t ht)
  case locked =>
    intro key t ht hmax
    exact hcovers (h.locked key t ht hmax)
  case storing =>
    intro j d w state hd hstoring
    rcases getElem?_set_cases hd with ⟨rfl, rfl⟩ | ⟨-, hbefore⟩
    · cases hstoring
      constructor
      · rw [LoginState.failures_recordFailure]
        exact Nat.succ_le_succ ((hcount c.key).le.trans (h.countP_le c.key))
      · -- the failure that fills the counter locks the key from now on
        intro hmax
        rw [LoginState.failures_recordFailure] at hmax
        rw [LoginState.lockedUntil_recordFailure hmax]
        constructor
        · refine hcovers fun j d w r hd _ hrefused => ?_
          obtain ⟨hwr, hr, -⟩ := h.refused j d w r hd hrefused
          omega
        · have hv := h.verified_le i c v hi (by rw [hstage]; rfl)
          omega
    · obtain ⟨hmore, hlock⟩ := h.storing j d w state hbefore hstoring
      refine ⟨?_, fun hmax => ⟨hcovers (hlock hmax).1, (hlock hmax).2⟩⟩
      exact (Nat.succ_le_succ (hcount d.key).le).trans hmore
  case alone =>
    exact h.storingAlone.activate i halone

/-- **A failure that is recorded is counted.** -/
theorem Throttling.Recorded.store {v : ℕ} {state : LoginState} (h : s.Recorded)
    (hi : s.logins[i]? = some c) (hstage : c.stage = .storing v state) :
    (s.store i c v state).Recorded := by
  obtain ⟨hmore, hlock⟩ := h.storing i c v state hi hstage
  have hv : v ≤ s.now := h.verified_le i c v hi (by rw [hstage]; rfl)
  have hcount : ∀ {key : String}, c.key ≠ key →
      (s.store i c v state).logins.countP (Login.recordedSince key s.now)
        = s.logins.countP (Login.recordedSince key s.now) := by
    intro key hkey
    refine countP_set_of_eq hi ?_
    simp [Login.recordedSince, hkey]
  have hself : (s.store i c v state).logins.countP (Login.recordedSince c.key s.now)
      ≤ s.logins.countP (Login.recordedSince c.key s.now) + 1 := by
    have hset := countP_set hi { c with stage := .refused v s.now }
      (Login.recordedSince c.key s.now)
    show (s.logins.set i { c with stage := .refused v s.now }).countP _ ≤ _
    split_ifs at hset <;> omega
  have hcovers : ∀ {key : String} {lockedUntil : ℕ}, s.LockCovers key lockedUntil →
      (c.key = key → v + loginLockDuration ≤ lockedUntil) →
      (s.store i c v state).LockCovers key lockedUntil := by
    intro key lockedUntil hlocked hown j d w r hd hkey hrefused
    rcases getElem?_set_cases hd with ⟨rfl, rfl⟩ | ⟨-, hbefore⟩
    · cases hrefused
      exact hown hkey
    · exact hlocked j d w r hbefore hkey hrefused
  have hkeys : ∀ {key : String}, key ≠ c.key → (s.store i c v state).keys key = s.keys key :=
    fun hkey => Keys.set_of_ne hkey ..
  have hkeyself : (s.store i c v state).keys c.key = some ⟨state, s.now + loginLockDuration⟩ :=
    Keys.set_self ..
  constructor
  case verified_le =>
    intro j d w hd hw
    rcases getElem?_set_cases hd with ⟨rfl, rfl⟩ | ⟨-, hbefore⟩
    · cases hw
      exact hv
    · exact h.verified_le j d w hbefore hw
  case none_lost =>
    intro j d w hd
    rcases getElem?_set_cases hd with ⟨rfl, rfl⟩ | ⟨-, hbefore⟩
    · exact Stage.noConfusion
    · exact h.none_lost j d w hbefore
  case refused =>
    intro j d w r hd hrefused
    rcases getElem?_set_cases hd with ⟨rfl, rfl⟩ | ⟨-, hbefore⟩
    · cases hrefused
      exact ⟨hv, le_rfl, _, hkeyself, le_rfl⟩
    · obtain ⟨hwr, hr, t, ht, hlater⟩ := h.refused j d w r hbefore hrefused
      refine ⟨hwr, hr, ?_⟩
      by_cases hkey : d.key = c.key
      · rw [hkey]
        exact ⟨_, hkeyself, Nat.add_le_add_right hr _⟩
      · exact ⟨t, (hkeys hkey).trans ht, hlater⟩
  case counted =>
    intro key t ht
    by_cases hkey : key = c.key
    · subst hkey
      cases hkeyself.symm.trans ht
      exact hself.trans hmore
    · rw [hkeys hkey] at ht
      exact (hcount (Ne.symm hkey)).le.trans (h.counted key t ht)
  case locked =>
    intro key t ht hmax
    by_cases hkey : key = c.key
    · subst hkey
      cases hkeyself.symm.trans ht
      exact hcovers (hlock hmax).1 fun _ => (hlock hmax).2
    · rw [hkeys hkey] at ht
      exact hcovers (h.locked key t ht hmax) fun heq => absurd heq.symm hkey
  case storing =>
    intro j d w state' hd hstoring
    rcases getElem?_set_cases hd with ⟨rfl, rfl⟩ | ⟨hij, hbefore⟩
    · cases hstoring
    · -- a record of the same key does not overlap
      have hkey : c.key ≠ d.key := fun hkey =>
        hij (h.alone i j c d hi hbefore hkey (by rw [hstage]; rfl) (by rw [hstoring]; rfl))
      obtain ⟨hmore', hlock'⟩ := h.storing j d w state' hbefore hstoring
      refine ⟨(Nat.succ_le_succ (hcount hkey).le).trans hmore', fun hmax => ⟨?_, (hlock' hmax).2⟩⟩
      exact hcovers (hlock' hmax).1 fun heq => absurd heq hkey
  case alone =>
    exact h.storingAlone.set hi rfl nofun

/-- A login starts. -/
theorem Throttling.Recorded.call (h : s.Recorded) (key : String) :
    Throttling.Recorded { s with logins := s.logins ++ [{ key, stage := .checking }] } := by
  have hcount : ∀ key', (s.logins ++ [({ key, stage := .checking } : Login)]).countP
      (Login.recordedSince key' s.now) = s.logins.countP (Login.recordedSince key' s.now) := by
    intro key'
    rw [countP_concat]
    simp [Login.recordedSince, Stage.recordedAt]
  have hcovers : ∀ {key' : String} {lockedUntil : ℕ}, s.LockCovers key' lockedUntil →
      Throttling.LockCovers { s with logins := s.logins ++ [{ key, stage := .checking }] } key'
        lockedUntil := by
    intro key' lockedUntil hlock j d v r hd hkey hrefused
    rcases getElem?_concat hd with hbefore | ⟨-, rfl⟩
    · exact hlock j d v r hbefore hkey hrefused
    · cases hrefused
  constructor
  case verified_le =>
    intro j d v hd hv
    rcases getElem?_concat hd with hbefore | ⟨-, rfl⟩
    · exact h.verified_le j d v hbefore hv
    · cases hv
  case none_lost =>
    intro j d v hd
    rcases getElem?_concat hd with hbefore | ⟨-, rfl⟩
    · exact h.none_lost j d v hbefore
    · exact Stage.noConfusion
  case refused =>
    intro j d v r hd hrefused
    rcases getElem?_concat hd with hbefore | ⟨-, rfl⟩
    · exact h.refused j d v r hbefore hrefused
    · cases hrefused
  case counted =>
    intro key' t ht
    exact (hcount key').le.trans (h.counted key' t ht)
  case locked =>
    intro key' t ht hmax
    exact hcovers (h.locked key' t ht hmax)
  case storing =>
    intro j d v state hd hstoring
    rcases getElem?_concat hd with hbefore | ⟨-, rfl⟩
    · obtain ⟨hmore, hlock⟩ := h.storing j d v state hbefore hstoring
      refine ⟨(Nat.succ_le_succ (hcount d.key).le).trans hmore, fun hmax => ?_⟩
      exact ⟨hcovers (hlock hmax).1, (hlock hmax).2⟩
    · cases hstoring
  case alone =>
    exact h.storingAlone.concat nofun

/-- Time passes. -/
theorem Throttling.Recorded.sleep (h : s.Recorded) (millis : ℕ) :
    Throttling.Recorded { s with now := s.now + millis } := by
  have hcount : ∀ key, s.logins.countP (Login.recordedSince key (s.now + millis))
      ≤ s.logins.countP (Login.recordedSince key s.now) := by
    intro key
    refine List.countP_mono_left fun c _ hc => ?_
    obtain ⟨hkey, r, hr, hlt⟩ := of_decide_eq_true hc
    exact decide_eq_true ⟨hkey, r, hr, by omega⟩
  constructor
  case verified_le =>
    intro j d v hd hv
    exact (h.verified_le j d v hd hv).trans (Nat.le_add_right _ _)
  case none_lost =>
    exact h.none_lost
  case refused =>
    intro j d v r hd hrefused
    obtain ⟨hvr, hr, hlater⟩ := h.refused j d v r hd hrefused
    exact ⟨hvr, hr.trans (Nat.le_add_right _ _), hlater⟩
  case counted =>
    intro key t ht
    exact (hcount key).trans (h.counted key t ht)
  case locked =>
    exact h.locked
  case storing =>
    intro j d v state hd hstoring
    obtain ⟨hmore, hlock⟩ := h.storing j d v state hd hstoring
    exact ⟨(Nat.succ_le_succ (hcount d.key)).trans hmore, hlock⟩
  case alone =>
    exact h.alone

/-- **A step in time keeps the records.** -/
theorem Throttling.Recorded.step (h : s.Recorded) (htime : InTime s a)
    (hmoved : s.Moved a s') : s'.Recorded := by
  cases hmoved with
  | called key => exact h.call key
  | throttled hi hstage =>
    exact h.turn hi (by rw [hstage]; rfl) nofun (fun _ => Stage.noConfusion) rfl rfl
  | passed hi hstage hcheck =>
    exact h.turn hi (by rw [hstage]; rfl) nofun (fun _ => Stage.noConfusion) rfl rfl
  | verified hi hstage =>
    refine h.turn hi (by rw [hstage]; rfl) (fun v hv => ?_) (fun _ => Stage.noConfusion) rfl rfl
    cases hv
    exact le_rfl
  | @loaded i c v hi hstage =>
    exact h.load hi hstage ((htime c hi).2 (by rw [hstage]; rfl))
  | stored hi hstage => exact h.store hi hstage
  | failed hi hstage =>
    refine h.turn hi ?_ nofun nofun rfl rfl
    rcases hstage with hstage | hstage <;> rw [hstage] <;> rfl
  | @lost i c v hi hstage =>
    rw [htime c hi] at hstage
    cases hstage
  | slept millis => exact h.sleep millis

/-! ### Verifications -/

/-- What the throttle keeps: with the verifications that have been let through, no more than
the limit fall into an interval that is not over. -/
structure Throttling.Bounded (s : Throttling) : Prop extends s.Recorded where
  window_le : ∀ key x, s.now < x + loginLockDuration →
    s.logins.countP (Login.verifiedSince key x) + s.logins.countP (Login.isVerifying key)
      ≤ loginMaxFailures
  interval_le : ∀ key x, s.logins.countP (Login.verifiedIn key x) ≤ loginMaxFailures

theorem isVerifying_of_ne {stage : Stage} (h : c.stage = stage) (hne : stage ≠ .verifying) :
    c.isVerifying key = false := by
  unfold Login.isVerifying
  rw [h]
  exact decide_eq_false fun hand => hne hand.2

/-- A step that verifies nothing and lets no login through. -/
theorem Throttling.Bounded.turn {stage : Stage} (h : s.Bounded) (hrecorded : s'.Recorded)
    (hi : s.logins[i]? = some c) (hlogins : s'.logins = (s.turn i c stage).logins)
    (hnow : s'.now = s.now) (hverified : stage.verifiedAt = c.stage.verifiedAt)
    (hverifying : stage ≠ .verifying) : s'.Bounded := by
  refine ⟨hrecorded, fun key x hx => ?_, fun key x => ?_⟩
  · have hsince : s'.logins.countP (Login.verifiedSince key x)
        = s.logins.countP (Login.verifiedSince key x) := by
      rw [hlogins]
      refine countP_set_of_eq hi (decide_eq_decide.mpr ?_)
      rw [hverified]
    have hless : s'.logins.countP (Login.isVerifying key)
        ≤ s.logins.countP (Login.isVerifying key) := by
      rw [hlogins]
      refine countP_set_le hi fun hd => ?_
      rw [isVerifying_of_ne rfl hverifying] at hd
      cases hd
    have hbefore := h.window_le key x (hnow ▸ hx)
    omega
  · rw [hlogins]
    have hsame : (s.turn i c stage).logins.countP (Login.verifiedIn key x)
        = s.logins.countP (Login.verifiedIn key x) := by
      refine countP_set_of_eq hi (decide_eq_decide.mpr ?_)
      rw [hverified]
    exact hsame.le.trans (h.interval_le key x)

/-- **Verifications since** a time less than the duration of a lock ago are counted by the
key, or on their way to it. -/
theorem Throttling.Recorded.verifiedSince_le (h : s.Recorded) {x : ℕ}
    (hx : s.now < x + loginLockDuration) (hopen : (s.load key).check s.now = none) :
    s.logins.countP (Login.verifiedSince key x)
      ≤ (s.load key).standing + s.logins.countP (Login.isUnrecorded key) := by
  have hcases : ∀ c ∈ s.logins, c.verifiedSince key x = true →
      (c.recordedSince key s.now = true ∧ ∃ v r, c.stage = .refused v r ∧ x ≤ v) ∨
        c.isUnrecorded key = true := by
    intro c hc hsince
    obtain ⟨i, hi⟩ := List.getElem?_of_mem hc
    obtain ⟨hkey, v, hv, hxv⟩ := of_decide_eq_true hsince
    cases hstage : c.stage with
    | loading w => exact Or.inr (decide_eq_true ⟨hkey, by rw [hstage]; rfl⟩)
    | storing w state => exact Or.inr (decide_eq_true ⟨hkey, by rw [hstage]; rfl⟩)
    | refused w r =>
      obtain ⟨hwr, -, -⟩ := h.refused i c w r hi hstage
      rw [hstage] at hv
      cases hv
      refine Or.inl ⟨decide_eq_true ⟨hkey, r, by rw [hstage]; rfl, by omega⟩, v, r, rfl, hxv⟩
    | failed w =>
      rw [hstage] at hv
      cases hv
      exact absurd hstage (h.none_lost i c v hi)
    | _ =>
      rw [hstage] at hv
      cases hv
  unfold LoginState.standing
  split_ifs with hmax
  · -- a lock has come and gone, and with it all that was verified before
    rw [Nat.zero_add]
    refine List.countP_mono_left fun c hc hsince => ?_
    rcases hcases c hc hsince with ⟨-, v, r, hstage, hxv⟩ | hunrecorded
    · exfalso
      have hread : (s.keys.get s.now key).getD {} = s.load key := rfl
      cases hget : s.keys.get s.now key with
      | none =>
        rw [hget] at hread
        rw [← hread] at hmax
        exact absurd hmax (by decide)
      | some state =>
        rw [hget] at hread
        obtain ⟨t, ht, -, rfl⟩ := Keys.get_eq_some.mp hget
        obtain ⟨i, hi⟩ := List.getElem?_of_mem hc
        have hkey : c.key = key := (of_decide_eq_true hsince).1
        rw [← hread] at hmax hopen
        have hcover := h.locked key t ht hmax i c v r hi hkey hstage
        have hover := LoginState.lockedUntil_le hopen
        dsimp only [Option.getD_some] at hover
        omega
    · exact hunrecorded
  · -- the counter has those that are recorded
    have hsplit := countP_le_add s.logins fun c hc hsince =>
      (hcases c hc hsince).imp_left And.left
    exact hsplit.trans (Nat.add_le_add_right (h.countP_le key) _)

/-- **A login that is let through** has room among the failures of the key. -/
theorem Throttling.Bounded.passed (h : s.Bounded) (hrecorded : (s.turn i c .verifying).Recorded)
    (hi : s.logins[i]? = some c) (hstage : c.stage = .checking)
    (hcheck : (s.load c.key).check s.now = none)
    (hroom : (s.load c.key).standing + s.logins.countP (Login.isVerifying c.key)
      + s.logins.countP (Login.isUnrecorded c.key) < loginMaxFailures) :
    (s.turn i c .verifying).Bounded := by
  have hsame : ∀ key x, (s.turn i c .verifying).logins.countP (Login.verifiedSince key x)
      = s.logins.countP (Login.verifiedSince key x) := by
    intro key x
    refine countP_set_of_eq hi (decide_eq_decide.mpr ?_)
    rw [hstage]
    exact Iff.rfl
  refine ⟨hrecorded, fun key x hx => ?_, fun key x => ?_⟩
  · rw [hsame]
    show _ + (s.logins.set i { c with stage := .verifying }).countP _ ≤ _
    by_cases hkey : c.key = key
    · subst hkey
      have hsince := h.toRecorded.verifiedSince_le hx hcheck
      rw [countP_set_joins hi (isVerifying_of_ne hstage nofun) (by simp [Login.isVerifying])]
      omega
    · rw [countP_set_of_eq hi (by simp [Login.isVerifying, hkey])]
      exact h.window_le key x hx
  · have hin : (s.turn i c .verifying).logins.countP (Login.verifiedIn key x)
        = s.logins.countP (Login.verifiedIn key x) := by
      refine countP_set_of_eq hi (decide_eq_decide.mpr ?_)
      rw [hstage]
      exact Iff.rfl
    exact hin.le.trans (h.interval_le key x)

/-- **A login that is verified** was counted as one that was let through. -/
theorem Throttling.Bounded.verified (h : s.Bounded)
    (hrecorded : (s.turn i c (.loading s.now)).Recorded) (hi : s.logins[i]? = some c)
    (hstage : c.stage = .verifying) : (s.turn i c (.loading s.now)).Bounded := by
  have hwindow : ∀ key x, s.now < x + loginLockDuration →
      (s.turn i c (.loading s.now)).logins.countP (Login.verifiedSince key x)
        + (s.turn i c (.loading s.now)).logins.countP (Login.isVerifying key)
        ≤ loginMaxFailures := by
    intro key x hx
    have hbefore := h.window_le key x hx
    show (s.logins.set i { c with stage := .loading s.now }).countP _
      + (s.logins.set i { c with stage := .loading s.now }).countP _ ≤ _
    by_cases hkey : c.key = key
    · -- one verification more, and one login less that was let through
      have hsince := countP_set hi { c with stage := .loading s.now }
        (Login.verifiedSince key x)
      have hleaves := countP_set_leaves (p := Login.isVerifying key)
        (d := { c with stage := .loading s.now }) hi (decide_eq_true ⟨hkey, hstage⟩)
        (isVerifying_of_ne rfl nofun)
      split_ifs at hsince <;> omega
    · rw [countP_set_of_eq (p := Login.verifiedSince key x) hi
          (by simp [Login.verifiedSince, hkey]),
        countP_set_of_eq (p := Login.isVerifying key) hi (by simp [Login.isVerifying, hkey])]
      exact hbefore
  refine ⟨hrecorded, hwindow, fun key x => ?_⟩
  by_cases hx : x ≤ s.now ∧ s.now < x + loginLockDuration
  · refine le_trans (List.countP_mono_left fun d _ hd => ?_)
      ((Nat.le_add_right _ _).trans (hwindow key x hx.2))
    obtain ⟨hkey, v, hv, hxv, -⟩ := of_decide_eq_true hd
    exact decide_eq_true ⟨hkey, v, hv, hxv⟩
  · -- the interval is over, or yet to come: the new verification is not in it
    refine (countP_set_le hi fun hd => ?_).trans (h.interval_le key x)
    obtain ⟨-, v, hv, hin⟩ := of_decide_eq_true hd
    cases hv
    exact absurd hin hx

/-- **A step in time keeps the bounds.** -/
theorem Throttling.Bounded.step (h : s.Bounded) (htime : InTime s a)
    (hstep : s.step a = some s') : s'.Bounded := by
  have hmoved := Throttling.moved hstep
  have hrecorded := h.toRecorded.step htime hmoved
  cases hmoved with
  | called key =>
    have hnew : ∀ p : Login → Bool, p (Login.mk key .checking) = false →
        (s.logins ++ [Login.mk key .checking]).countP p = s.logins.countP p := by
      intro p hp
      rw [countP_concat, hp]
      rfl
    refine ⟨hrecorded, fun key' x hx => ?_, fun key' x => ?_⟩
    · dsimp only
      rw [hnew _ (by simp [Login.verifiedSince, Stage.verifiedAt]),
        hnew _ (by simp [Login.isVerifying])]
      exact h.window_le key' x hx
    · dsimp only
      rw [hnew _ (by simp [Login.verifiedIn, Stage.verifiedAt])]
      exact h.interval_le key' x
  | throttled hi hstage => exact h.turn hrecorded hi rfl rfl (by rw [hstage]; rfl) nofun
  | @passed i c hi hstage hcheck =>
    exact h.passed hrecorded hi hstage hcheck ((htime c hi).1 hstage hcheck)
  | verified hi hstage => exact h.verified hrecorded hi hstage
  | @loaded i c v hi hstage =>
    exact h.turn hrecorded hi rfl rfl (by rw [hstage]; rfl) nofun
  | @stored i c v state hi hstage =>
    exact h.turn hrecorded hi rfl rfl (by rw [hstage]; rfl) nofun
  | failed hi hstage =>
    refine h.turn hrecorded hi rfl rfl ?_ nofun
    rcases hstage with hstage | hstage <;> rw [hstage] <;> rfl
  | @lost i c v hi hstage =>
    rw [htime c hi] at hstage
    cases hstage
  | slept millis =>
    refine ⟨hrecorded, fun key x hx => h.window_le key x ?_, h.interval_le⟩
    dsimp only at hx
    omega

end Steps

/-! ## Logins one after the other -/

/-- Logins of a key do not overlap, and none fails after its password was verified. -/
def Sequential (s : Throttling) : Action → Prop
  | .login key => ∀ c ∈ s.logins, c.key = key → c.stage.active = false
  | .fail i => ∀ c ∈ s.logins[i]?, c.stage.unrecorded = false
  | _ => True

/-- One login of a key is under way at most. -/
def Throttling.Alone (s : Throttling) : Prop :=
  ∀ (i j : ℕ) (c d : Login), s.logins[i]? = some c → s.logins[j]? = some d → c.key = d.key →
    c.stage.active = true → d.stage.active = true → i = j

section Alone

variable {s s' : Throttling} {a : Action} {i : ℕ} {c : Login}

theorem Throttling.Alone.turn {stage : Stage} (h : s.Alone) (hi : s.logins[i]? = some c)
    (hactive : c.stage.active = true) (hlogins : s'.logins = (s.turn i c stage).logins) :
    s'.Alone := by
  have hset : Threads.Alone (fun c : Login => c.stage.active) Login.key
      (s.turn i c stage).logins :=
    Threads.Alone.set h hi rfl fun _ => hactive
  unfold Throttling.Alone
  rw [hlogins]
  exact hset

theorem Throttling.Alone.step (h : s.Alone) (hsequential : Sequential s a)
    (hstep : s.step a = some s') : s'.Alone := by
  cases Throttling.moved hstep with
  | called key =>
    have hbefore : Threads.Alone (fun c : Login => c.stage.active) Login.key s.logins := h
    exact hbefore.concat fun _ => hsequential
  | throttled hi hstage => exact h.turn hi (by rw [hstage]; rfl) rfl
  | passed hi hstage hcheck => exact h.turn hi (by rw [hstage]; rfl) rfl
  | verified hi hstage => exact h.turn hi (by rw [hstage]; rfl) rfl
  | loaded hi hstage => exact h.turn hi (by rw [hstage]; rfl) rfl
  | stored hi hstage => exact h.turn hi (by rw [hstage]; rfl) rfl
  | failed hi hstage =>
    refine h.turn hi ?_ rfl
    rcases hstage with hstage | hstage <;> rw [hstage] <;> rfl
  | @lost i c v hi hstage =>
    rw [hsequential c hi] at hstage
    cases hstage
  | slept millis => exact h

/-- A login that is alone has no other one of its key at a later stage. -/
theorem Throttling.Alone.countP_eq_zero (h : s.Alone) (hi : s.logins[i]? = some c)
    (hactive : c.stage.active = true) {p : Login → Bool}
    (hp : ∀ d, p d = true → d.key = c.key ∧ d.stage.active = true) (hc : p c = false) :
    s.logins.countP p = 0 := by
  rw [List.countP_eq_zero]
  intro d hd hpd
  obtain ⟨j, hj⟩ := List.getElem?_of_mem hd
  obtain ⟨hkey, hdactive⟩ := hp d hpd
  obtain rfl := h i j c d hi hj hkey.symm hactive hdactive
  obtain rfl : c = d := Option.some.inj (hi.symm.trans hj)
  rw [hc] at hpd
  cases hpd

theorem Stage.active_of_unrecorded {stage : Stage} (h : stage.unrecorded = true) :
    stage.active = true := by
  cases stage with
  | loading v => rfl
  | storing v state => rfl
  | _ => cases h

theorem Throttling.Alone.inTime (h : s.Alone) (hsequential : Sequential s a) : InTime s a := by
  cases a with
  | proceed i =>
    refine fun c hi => ⟨fun hstage hcheck => ?_, fun hloading d hd hkey => ?_⟩
    · have hactive : c.stage.active = true := by
        rw [hstage]
        rfl
      have hverifying : s.logins.countP (Login.isVerifying c.key) = 0 := by
        refine h.countP_eq_zero hi hactive (fun d hd => ?_) (isVerifying_of_ne hstage nofun)
        obtain ⟨hkey, hd⟩ := of_decide_eq_true hd
        exact ⟨hkey, by rw [hd]; rfl⟩
      have hunrecorded : s.logins.countP (Login.isUnrecorded c.key) = 0 := by
        refine h.countP_eq_zero hi hactive (fun d hd => ?_) ?_
        · obtain ⟨hkey, hd⟩ := of_decide_eq_true hd
          exact ⟨hkey, Stage.active_of_unrecorded hd⟩
        · rw [Login.isUnrecorded, hstage]
          exact decide_eq_false fun hand => Bool.false_ne_true hand.2
      rw [hverifying, hunrecorded]
      unfold LoginState.standing
      split_ifs with hmax
      · decide
      · omega
    · -- a login that loads and one that stores would overlap
      by_contra hstoring
      rw [Bool.not_eq_false] at hstoring
      obtain ⟨j, hj⟩ := List.getElem?_of_mem hd
      have hcactive : c.stage.active = true := by
        cases hstage : c.stage with
        | loading v => rfl
        | _ =>
          rw [hstage] at hloading
          cases hloading
      have hdactive : d.stage.active = true := by
        cases hstage : d.stage with
        | storing v state => rfl
        | _ =>
          rw [hstage] at hstoring
          cases hstoring
      obtain rfl := h i j c d hi hj hkey.symm hcactive hdactive
      obtain rfl : c = d := Option.some.inj (Option.mem_def.mp hi ▸ hj)
      cases hstage : c.stage with
      | loading v =>
        rw [hstage] at hstoring
        cases hstoring
      | _ =>
        rw [hstage] at hloading
        cases hloading
  | fail i => exact hsequential
  | login key => trivial
  | sleep millis => trivial

end Alone

/-- **Logins one after the other are in time.** -/
theorem sequential_inTime (actions : List Action)
    (h : Meets Throttling.step Sequential {} actions) : Meets Throttling.step InTime {} actions := by
  have hinit : Throttling.Alone {} := fun _ _ _ _ hc => by cases hc
  exact meets_of_invariant Throttling.Alone (fun s a t hs hcond ht => hs.step hcond ht)
    (fun s a _ hs hcond _ => hs.inTime hcond) hinit h

/-! ## Every run -/

/-- **Every failure counts.**  Logins of a key that do not overlap are in time.  In a run in which
checks and records are in time, the counter of a key is never below the failures recorded within
`loginLockDuration`, and no interval of that length holds more than `loginMaxFailures`
verifications. -/
theorem failures_counted (actions : List Action) (s : Throttling)
    (hrun : exec Throttling.step {} actions = some s) :
    (Meets Throttling.step Sequential {} actions → Meets Throttling.step InTime {} actions) ∧
    (Meets Throttling.step InTime {} actions → ∀ key,
      s.logins.countP (Login.recordedSince key s.now) ≤ (s.load key).failures ∧
        ∀ x, s.logins.countP (Login.verifiedIn key x) ≤ loginMaxFailures) := by
  refine ⟨sequential_inTime actions, fun htime key => ?_⟩
  have hnone : ∀ {i : ℕ} {c : Login}, ([] : List Login)[i]? = some c → False := by
    intro i c hc
    cases hc
  have hinit : Throttling.Recorded {} :=
    { verified_le := fun _ _ _ h => (hnone h).elim
      none_lost := fun _ _ _ h => (hnone h).elim
      refused := fun _ _ _ _ h => (hnone h).elim
      counted := fun _ _ _ => Nat.zero_le _
      locked := fun _ _ h => nomatch h
      storing := fun _ _ _ _ h => (hnone h).elim
      alone := fun _ _ _ _ h => (hnone h).elim }
  have hbound : s.Bounded :=
    invariant Throttling.Bounded (fun s a t h hcond hstep => h.step hcond hstep)
      ⟨hinit, fun _ _ _ => Nat.zero_le _, fun _ _ => Nat.zero_le _⟩ htime hrun
  exact ⟨hbound.toRecorded.countP_le key, hbound.interval_le key⟩

/-- Eleven logins one after the other, with the longest backoff in between. -/
def inTurn : List Action :=
  (List.range 11).flatMap fun i =>
    [.login "ann", .proceed i] ++
      (if i < 10 then [.proceed i, .proceed i, .proceed i, .sleep loginMaxBackoff] else [])

/-- The eleventh is throttled. -/
theorem failures_counted_inTurn :
    ∃ s, exec Throttling.step {} inTurn = some s ∧
      s.logins[10]? = some ⟨"ann", .throttled (loginLockDuration - loginMaxBackoff)⟩ ∧
      s.logins.countP (Login.recordedSince "ann" s.now) = 10 ∧
      s.logins.countP (Login.recordedSince "ann" s.now) ≤ (s.load "ann").failures := by
  have htime : Meets Throttling.step InTime {} inTurn := by
    decide +kernel
  have hend : (exec Throttling.step {} inTurn).map (fun s =>
      (s.logins[10]?, s.logins.countP (Login.recordedSince "ann" s.now)))
        = some (some ⟨"ann", .throttled (loginLockDuration - loginMaxBackoff)⟩, 10) := by
    decide +kernel
  obtain ⟨s, hs, hpair⟩ := Option.map_eq_some_iff.mp hend
  obtain ⟨hlast, hcount⟩ := Prod.mk.injEq .. ▸ hpair
  exact ⟨s, hs, hlast, hcount, ((failures_counted inTurn s hs).2 htime "ann").1⟩

/-- Eleven logins that pass the check before one of them records its failure, and then load the
state of the key before one of them stores it. -/
def atOnce : List Action :=
  (List.range 11).map (fun _ => .login "ann") ++
    (List.range 4).flatMap fun _ => (List.range 11).map fun i => .proceed i

/-- All eleven verify their password, and the counter ends at one. -/
theorem not_forall_failures_counted :
    ¬ ∀ (actions : List Action) (s : Throttling), exec Throttling.step {} actions = some s →
      ∀ key, s.logins.countP (Login.recordedSince key s.now) ≤ (s.load key).failures ∧
        ∀ x, s.logins.countP (Login.verifiedIn key x) ≤ loginMaxFailures := by
  intro h
  have heleven : (exec Throttling.step {} atOnce).map (fun s =>
      (s.logins.countP (Login.verifiedIn "ann" 0), (s.load "ann").failures)) = some (11, 1) := by
    decide +kernel
  obtain ⟨s, hs, hpair⟩ := Option.map_eq_some_iff.mp heleven
  have hle := (h atOnce s hs "ann").2 0
  rw [(Prod.mk.inj hpair).1] at hle
  exact absurd hle (by decide)

end VocalCoach.LoginThrottle
