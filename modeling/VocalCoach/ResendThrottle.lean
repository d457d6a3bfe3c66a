/-
# The resend throttle

`VerificationThrottle.AllowResend`, command by command, for one user: a call looks at the
cooldown key, reads the daily count, sets the cooldown, counts itself, and gives the daily key
its expiry if it has made it.  Between any two of these other calls may go on, time may pass,
and the call may fail.

Whatever a call has checked has to hold still when it writes, and a call that has made the daily
key has to live until the key has its expiry (`InTime`).  Then resends are a cooldown apart, no
daily key counts more than `verificationDailyMax` of them, and every daily key is gone a day
later (`resend_throttled`).  Calls that do not overlap are in time (`sequential_inTime`).

A resend counts from the moment at which its call sets the cooldown.
-/
import VocalCoach.Machine
import VocalCoach.Threads
import Mathlib.Algebra.Group.Nat.Defs
import Mathlib.Order.Nat

namespace VocalCoach.ResendThrottle

open Machine Threads

/-! ## The throttle -/

/-- Times are in milliseconds. -/
def verificationCooldown : ℕ := 60 * 1000

def verificationDailyMax : ℕ := 5

def verificationDailyTTL : ℕ := 24 * 60 * 60 * 1000

/-- What `TTL` answers: the key is not there, it has no expiry, or the seconds it has left. -/
inductive Ttl
  | missing
  | persistent
  | seconds (n : ℕ)
  deriving DecidableEq, Repr

/-- The time left, in whole seconds. -/
def Ttl.until (expiresAt now : ℕ) : Ttl := .seconds ((expiresAt - now + 500) / 1000)

/-- A daily key, with the number of its life. -/
structure Counter where
  value : ℕ
  expiresAt : Option ℕ
  life : ℕ
  deriving DecidableEq, Repr

/-- What a call does next.  `setAt` is when it set the cooldown, `life` that of the daily key it
has counted itself in. -/
inductive Stage
  | checkingCooldown
  | readingCooldown
  | checkingDaily
  | readingDaily
  | settingCooldown
  | counting (setAt : ℕ)
  | expiring (setAt life : ℕ)
  | allowed (setAt life : ℕ)
  | denied (retryAfter : Ttl) (dailyLimitReached : Bool)
  | failed
  deriving DecidableEq, Repr

def Stage.setAt : Stage → Option ℕ
  | .counting t | .expiring t _ | .allowed t _ => some t
  | _ => none

/-- The call has counted itself in the daily key of that life. -/
def Stage.countedIn (life : ℕ) : Stage → Bool
  | .expiring _ l | .allowed _ l => l = life
  | _ => false

def Stage.allowedIn (life : ℕ) : Stage → Bool
  | .allowed _ l => l = life
  | _ => false

def Stage.isExpiring : Stage → Bool
  | .expiring _ _ => true
  | _ => false

/-- The call is under way. -/
def Stage.active : Stage → Bool
  | .allowed _ _ | .denied _ _ | .failed => false
  | _ => true

/-- The two keys of the user, how many daily keys there have been, the clock and the calls. -/
structure Throttling where
  cooldown : Option ℕ := none
  daily : Option Counter := none
  lives : ℕ := 0
  now : ℕ := 0
  calls : List Stage := []

/-- A call starts, goes on with its next command, or fails there; or time passes. -/
inductive Action
  | call
  | proceed (i : ℕ)
  | fail (i : ℕ)
  | sleep (millis : ℕ)
  deriving DecidableEq, Repr

namespace Throttling

variable (s : Throttling)

/-- The cooldown key is there. -/
def cooling : Bool := s.cooldown.any fun expiresAt => s.now < expiresAt

/-- The daily key, if it is there. -/
def dailyNow : Option Counter :=
  s.daily.filter fun d => d.expiresAt.all fun expiresAt => s.now < expiresAt

/-- `GET` of the daily key, `0` without one. -/
def dailyCount : ℕ := s.dailyNow.elim 0 Counter.value

/-- `TTL` of the cooldown key. -/
def cooldownTtl : Ttl :=
  match s.cooldown with
  | some expiresAt => if s.now < expiresAt then .until expiresAt s.now else .missing
  | none => .missing

/-- `TTL` of the daily key. -/
def dailyTtl : Ttl :=
  match s.dailyNow with
  | some d => d.expiresAt.elim .persistent fun expiresAt => .until expiresAt s.now
  | none => .missing

/-- The daily key after `INCR`. -/
def incremented : Counter :=
  match s.dailyNow with
  | some d => { d with value := d.value + 1 }
  | none => { value := 1, expiresAt := none, life := s.lives }

/-- A call goes on to its next stage. -/
def turn (i : ℕ) (stage : Stage) : Throttling := { s with calls := s.calls.set i stage }

/-- `SET` of the cooldown key. -/
def setCooldown (i : ℕ) : Throttling :=
  { s.turn i (.counting s.now) with cooldown := some (s.now + verificationCooldown) }

/-- `INCR` of the daily key; whoever gets 1 has made it. -/
def count (i setAt : ℕ) : Throttling :=
  let d := s.incremented
  { s.turn i (if d.value = 1 then .expiring setAt d.life else .allowed setAt d.life) with
    daily := some d
    lives := if s.dailyNow.isSome then s.lives else s.lives + 1 }

/-- `EXPIRE` of the daily key. -/
def expire (i setAt life : ℕ) : Throttling :=
  { s.turn i (.allowed setAt life) with
    daily := s.dailyNow.map fun d => { d with expiresAt := some (s.now + verificationDailyTTL) } }

/-- The next command of a call. -/
def proceed (i : ℕ) : Stage → Option Throttling
  | .checkingCooldown => some (s.turn i (if s.cooling then .readingCooldown else .checkingDaily))
  | .readingCooldown => some (s.turn i (.denied s.cooldownTtl false))
  | .checkingDaily =>
      some (s.turn i (if verificationDailyMax ≤ s.dailyCount then .readingDaily
        else .settingCooldown))
  | .readingDaily => some (s.turn i (.denied s.dailyTtl true))
  | .settingCooldown => some (s.setCooldown i)
  | .counting setAt => some (s.count i setAt)
  | .expiring setAt life => some (s.expire i setAt life)
  | .allowed _ _ | .denied _ _ | .failed => none

def step : Action → Option Throttling
  | .call => some { s with calls := s.calls ++ [.checkingCooldown] }
  | .proceed i => s.calls[i]?.bind (s.proceed i)
  | .fail i => s.calls[i]?.bind fun c => if c.active then some (s.turn i .failed) else none
  | .sleep millis => some { s with now := s.now + millis }

end Throttling

/-- What a call has checked holds still when it writes, and a call that has made the daily key
does not fail before the key has its expiry. -/
def InTime (s : Throttling) : Action → Prop
  | .proceed i => ∀ c ∈ s.calls[i]?,
      (c = .settingCooldown → s.cooling = false) ∧
      ∀ t, c = .counting t → s.dailyCount < verificationDailyMax
  | .fail i => ∀ c ∈ s.calls[i]?, c.isExpiring = false
  | _ => True

/-! ## One step -/

/-- What one step does. -/
inductive Throttling.Moved (s : Throttling) : Action → Throttling → Prop
  | called : Moved s .call { s with calls := s.calls ++ [.checkingCooldown] }
  /-- The cooldown is over. -/
  | rested {i : ℕ} (h : s.calls[i]? = some .checkingCooldown) (hcooling : s.cooling = false) :
      Moved s (.proceed i) (s.turn i .checkingDaily)
  /-- The day has room. -/
  | permitted {i : ℕ} (h : s.calls[i]? = some .checkingDaily)
      (hroom : s.dailyCount < verificationDailyMax) :
      Moved s (.proceed i) (s.turn i .settingCooldown)
  /-- The call is on its way to be denied, or is. -/
  | refused {i : ℕ} {c d : Stage} (h : s.calls[i]? = some c) (hactive : c.active = true)
      (hc : c.setAt = none)
      (hd : d = .readingCooldown ∨ d = .readingDaily ∨ ∃ ttl limit, d = .denied ttl limit) :
      Moved s (.proceed i) (s.turn i d)
  | cooled {i : ℕ} (h : s.calls[i]? = some .settingCooldown) : Moved s (.proceed i) (s.setCooldown i)
  | counted {i t : ℕ} (h : s.calls[i]? = some (.counting t)) : Moved s (.proceed i) (s.count i t)
  | expired {i t life : ℕ} (h : s.calls[i]? = some (.expiring t life)) :
      Moved s (.proceed i) (s.expire i t life)
  | failed {i : ℕ} {c : Stage} (h : s.calls[i]? = some c) (hactive : c.active = true) :
      Moved s (.fail i) (s.turn i .failed)
  | slept (millis : ℕ) : Moved s (.sleep millis) { s with now := s.now + millis }

section Steps

variable {s s' : Throttling} {a : Action} {i : ℕ} {c d : Stage}

theorem Throttling.moved (h : s.step a = some s') : s.Moved a s' := by
  cases a with
  | call =>
    cases h
    exact .called
  | proceed i =>
    obtain ⟨c, hc, hnext⟩ := Option.bind_eq_some_iff.mp h
    unfold proceed at hnext
    split at hnext
    next =>
      cases hnext
      by_cases hcooling : s.cooling = true
      · rw [if_pos hcooling]
        exact .refused hc rfl rfl (Or.inl rfl)
      · rw [if_neg hcooling]
        exact .rested hc (Bool.eq_false_iff.mpr hcooling)
    next =>
      cases hnext
      exact .refused hc rfl rfl (Or.inr (Or.inr ⟨_, _, rfl⟩))
    next =>
      cases hnext
      by_cases hfull : verificationDailyMax ≤ s.dailyCount
      · rw [if_pos hfull]
        exact .refused hc rfl rfl (Or.inr (Or.inl rfl))
      · rw [if_neg hfull]
        exact .permitted hc (Nat.lt_of_not_le hfull)
    next =>
      cases hnext
      exact .refused hc rfl rfl (Or.inr (Or.inr ⟨_, _, rfl⟩))
    next =>
      cases hnext
      exact .cooled hc
    next t =>
      cases hnext
      exact .counted hc
    next t life =>
      cases hnext
      exact .expired hc
    next => cases hnext
    next => cases hnext
    next => cases hnext
  | fail i =>
    obtain ⟨c, hc, hnext⟩ := Option.bind_eq_some_iff.mp h
    split at hnext
    next hactive =>
      cases hnext
      exact .failed hc hactive
    next => cases hnext
  | sleep millis =>
    cases h
    exact .slept millis

/-! ### The cooldown -/

/-- The cooldown key covers every call that has set it, and these are a cooldown apart. -/
structure Throttling.Cooled (s : Throttling) : Prop where
  covered : ∀ (i : ℕ) (c : Stage) (t : ℕ), s.calls[i]? = some c → c.setAt = some t →
    t ≤ s.now ∧ ∃ e, s.cooldown = some e ∧ t + verificationCooldown ≤ e
  spaced : ∀ (i j : ℕ) (c d : Stage) (t u : ℕ), i ≠ j → s.calls[i]? = some c →
    s.calls[j]? = some d → c.setAt = some t → d.setAt = some u →
      t + verificationCooldown ≤ u ∨ u + verificationCooldown ≤ t

/-- A call that goes on without setting the cooldown. -/
theorem Throttling.Cooled.turn (h : s.Cooled) (hi : s.calls[i]? = some c)
    (hset : ∀ t, d.setAt = some t → c.setAt = some t) : (s.turn i d).Cooled := by
  constructor
  · intro j e t he ht
    rcases getElem?_set_cases he with ⟨rfl, rfl⟩ | ⟨-, hbefore⟩
    · exact h.covered i c t hi (hset t ht)
    · exact h.covered j e t hbefore ht
  · intro j k e f t u hjk he hf ht hu
    rcases getElem?_set_cases he with ⟨rfl, rfl⟩ | ⟨-, hebefore⟩
    · rcases getElem?_set_cases hf with ⟨rfl, rfl⟩ | ⟨-, hfbefore⟩
      · exact absurd rfl hjk
      · exact h.spaced i k c f t u hjk hi hfbefore (hset t ht) hu
    · rcases getElem?_set_cases hf with ⟨rfl, rfl⟩ | ⟨-, hfbefore⟩
      · exact h.spaced j i e c t u hjk hebefore hi ht (hset u hu)
      · exact h.spaced j k e f t u hjk hebefore hfbefore ht hu

/-- **Setting the cooldown** when it is over. -/
theorem Throttling.Cooled.setCooldown (h : s.Cooled) (hcooling : s.cooling = false) (i : ℕ) :
    (s.setCooldown i).Cooled := by
  -- whoever has set it before has done so a cooldown ago
  have hearlier : ∀ (j : ℕ) (c : Stage) (t : ℕ), s.calls[j]? = some c → c.setAt = some t →
      t + verificationCooldown ≤ s.now := by
    intro j c t hc ht
    obtain ⟨-, e, he, hle⟩ := h.covered j c t hc ht
    unfold cooling at hcooling
    rw [he, Option.any_some, decide_eq_false_iff_not] at hcooling
    omega
  constructor
  · intro j c t hc ht
    refine ⟨?_, _, rfl, ?_⟩
    · show t ≤ s.now
      rcases getElem?_set_cases hc with ⟨rfl, rfl⟩ | ⟨-, hbefore⟩
      · cases ht
        exact le_rfl
      · exact (h.covered j c t hbefore ht).1
    · rcases getElem?_set_cases hc with ⟨rfl, rfl⟩ | ⟨-, hbefore⟩
      · cases ht
        exact le_rfl
      · have hpast := (h.covered j c t hbefore ht).1
        omega
  · intro j k c d t u hjk hc hd ht hu
    rcases getElem?_set_cases hc with ⟨rfl, rfl⟩ | ⟨-, hcbefore⟩
    · rcases getElem?_set_cases hd with ⟨rfl, rfl⟩ | ⟨-, hdbefore⟩
      · exact absurd rfl hjk
      · cases ht
        exact Or.inr (hearlier k d u hdbefore hu)
    · rcases getElem?_set_cases hd with ⟨rfl, rfl⟩ | ⟨-, hdbefore⟩
      · cases hu
        exact Or.inl (hearlier j c t hcbefore ht)
      · exact h.spaced j k c d t u hjk hcbefore hdbefore ht hu

/-- **One step** keeps the resends apart. -/
theorem Throttling.Cooled.step (h : s.Cooled) (hin : InTime s a) (hstep : s.step a = some s') :
    s'.Cooled := by
  cases Throttling.moved hstep with
  | called =>
    have hold : ∀ {j : ℕ} {c : Stage} {t : ℕ},
        (s.calls ++ [.checkingCooldown])[j]? = some c → c.setAt = some t → s.calls[j]? = some c := by
      intro j c t hc ht
      rcases getElem?_concat hc with hbefore | ⟨-, rfl⟩
      · exact hbefore
      · cases ht
    constructor
    · exact fun j c t hc ht => h.covered j c t (hold hc ht) ht
    · exact fun j k c d t u hjk hc hd ht hu =>
        h.spaced j k c d t u hjk (hold hc ht) (hold hd hu) ht hu
  | rested hi hcooling => exact h.turn hi nofun
  | permitted hi hroom => exact h.turn hi nofun
  | refused hi hactive hc hd =>
    refine h.turn hi fun t ht => ?_
    rcases hd with rfl | rfl | ⟨ttl, limit, rfl⟩ <;> cases ht
  | cooled hi => exact h.setCooldown ((hin _ hi).1 rfl) _
  | @counted i t hi =>
    -- with an `EXPIRE` to send or not, the call keeps the time at which it set the cooldown
    have hturn : ∀ d : Stage, d.setAt = some t → (s.turn i d).Cooled := by
      intro d hd
      refine h.turn hi fun u hu => ?_
      rw [← hu, hd]
      rfl
    have hset : (if s.incremented.value = 1 then Stage.expiring t s.incremented.life
        else .allowed t s.incremented.life).setAt = some t := by
      split_ifs <;> rfl
    exact ⟨(hturn _ hset).covered, (hturn _ hset).spaced⟩
  | @expired i t life hi =>
    have hturn : (s.turn i (.allowed t life)).Cooled := h.turn hi fun u hu => hu
    exact ⟨hturn.covered, hturn.spaced⟩
  | failed hi hactive => exact h.turn hi nofun
  | slept millis =>
    refine ⟨fun j c t hc ht => ?_, h.spaced⟩
    obtain ⟨hpast, hkey⟩ := h.covered j c t hc ht
    exact ⟨hpast.trans (Nat.le_add_right _ _), hkey⟩

/-! ### The daily key -/

/-- What the daily keys know of the calls. -/
structure Throttling.Counted (s : Throttling) : Prop where
  born : ∀ (i : ℕ) (c : Stage) (life : ℕ), s.calls[i]? = some c → c.countedIn life = true →
    life < s.lives
  bounded : ∀ life, s.calls.countP (Stage.countedIn life) ≤ verificationDailyMax
  daily : ∀ d, s.daily = some d → d.life < s.lives ∧ 1 ≤ d.value ∧
    d.value ≤ verificationDailyMax ∧ s.calls.countP (Stage.countedIn d.life) ≤ d.value
  /-- The key goes within a day, or the call that has made it is about to see to it. -/
  expires : ∀ d, s.daily = some d →
    (∃ e, d.expiresAt = some e ∧ e ≤ s.now + verificationDailyTTL) ∨
      ∃ (i t : ℕ), s.calls[i]? = some (.expiring t d.life)

theorem Throttling.daily_of_dailyNow {k : Counter} (h : s.dailyNow = some k) :
    s.daily = some k := by
  unfold dailyNow at h
  exact (Option.filter_eq_some_iff.mp h).1

/-- A call that goes on without counting itself. -/
theorem Throttling.Counted.turn (h : s.Counted) (hi : s.calls[i]? = some c)
    (hcounted : ∀ life, d.countedIn life = false) (hexpiring : c.isExpiring = false) :
    (s.turn i d).Counted := by
  have hcount : ∀ life, (s.turn i d).calls.countP (Stage.countedIn life) ≤
      s.calls.countP (Stage.countedIn life) := by
    intro life
    refine countP_set_le hi fun hd => ?_
    rw [hcounted] at hd
    cases hd
  refine ⟨fun j e life he hlife => ?_, fun life => ?_, fun k hk => ?_, fun k hk => ?_⟩
  · rcases getElem?_set_cases he with ⟨rfl, rfl⟩ | ⟨-, hbefore⟩
    · rw [hcounted] at hlife
      cases hlife
    · exact h.born j e life hbefore hlife
  · exact (hcount life).trans (h.bounded life)
  · obtain ⟨hborn, hone, hmax, hle⟩ := h.daily k hk
    exact ⟨hborn, hone, hmax, (hcount k.life).trans hle⟩
  · rcases h.expires k hk with hsoon | ⟨j, t, hj⟩
    · exact Or.inl hsoon
    · refine Or.inr ⟨j, t, ?_⟩
      have hne : i ≠ j := by
        rintro rfl
        obtain rfl := Option.some.inj (hi.symm.trans hj)
        cases hexpiring
      exact (List.getElem?_set_ne hne).trans hj

/-- A call counts itself in a life: there is one more, of that life only. -/
theorem countP_count {t life : ℕ} (hi : s.calls[i]? = some (.counting t))
    (hd : ∀ l, d.countedIn l = decide (life = l)) :
    (s.calls.set i d).countP (Stage.countedIn life) =
        s.calls.countP (Stage.countedIn life) + 1 ∧
      ∀ l, l ≠ life → (s.calls.set i d).countP (Stage.countedIn l) =
        s.calls.countP (Stage.countedIn l) := by
  constructor
  · refine countP_set_joins hi rfl ?_
    rw [hd]
    exact decide_eq_true rfl
  · intro l hl
    refine countP_set_of_eq hi ?_
    rw [hd]
    exact decide_eq_false hl.symm

/-- **Making the daily key.** -/
theorem Throttling.Counted.create {t : ℕ} (h : s.Counted) (hi : s.calls[i]? = some (.counting t))
    (hnone : s.dailyNow = none) : (s.count i t).Counted := by
  have hincremented : s.incremented = ⟨1, none, s.lives⟩ := by
    unfold incremented
    rw [hnone]
  have hcounted : ∀ l, (Stage.expiring t s.lives).countedIn l = decide (s.lives = l) := fun _ => rfl
  obtain ⟨hjoins, hothers⟩ := countP_count hi hcounted
  -- nobody has counted itself in a key that was not there
  have hunborn : s.calls.countP (Stage.countedIn s.lives) = 0 := by
    rw [List.countP_eq_zero]
    intro c hc hlife
    obtain ⟨j, hj⟩ := List.getElem?_of_mem hc
    exact absurd (h.born j c _ hj hlife) (lt_irrefl _)
  have hmade : s.count i t = { s.turn i (.expiring t s.lives) with
      daily := some ⟨1, none, s.lives⟩, lives := s.lives + 1 } := by
    unfold count
    rw [hincremented, hnone]
    rfl
  rw [hmade]
  refine ⟨fun j c life hc hlife => ?_, fun life => ?_, fun k hk => ?_, fun k hk => ?_⟩
  · rcases getElem?_set_cases hc with ⟨rfl, rfl⟩ | ⟨-, hbefore⟩
    · rw [hcounted, decide_eq_true_eq] at hlife
      exact Nat.lt_succ_of_le hlife.ge
    · exact (h.born j c life hbefore hlife).trans (Nat.lt_succ_self _)
  · show (s.calls.set i (.expiring t s.lives)).countP (Stage.countedIn life) ≤ _
    by_cases hlife : life = s.lives
    · subst hlife
      rw [hjoins, hunborn]
      decide
    · rw [hothers life hlife]
      exact h.bounded life
  · cases hk
    refine ⟨Nat.lt_succ_self _, le_rfl, (by decide : 1 ≤ verificationDailyMax), ?_⟩
    show (s.calls.set i (.expiring t s.lives)).countP (Stage.countedIn s.lives) ≤ 1
    rw [hjoins, hunborn]
  · cases hk
    have hlt := (List.getElem?_eq_some_iff.mp hi).1
    exact Or.inr ⟨i, t, List.getElem?_set_self hlt⟩

/-- **Counting once more** in a daily key that has room. -/
theorem Throttling.Counted.increment {t : ℕ} {k : Counter} (h : s.Counted)
    (hi : s.calls[i]? = some (.counting t)) (hk : s.dailyNow = some k)
    (hroom : k.value < verificationDailyMax) : (s.count i t).Counted := by
  have hdaily := daily_of_dailyNow hk
  obtain ⟨hborn, hone, -, hle⟩ := h.daily k hdaily
  have hincremented : s.incremented = { k with value := k.value + 1 } := by
    unfold incremented
    rw [hk]
  have hcounted : ∀ l, (Stage.allowed t k.life).countedIn l = decide (k.life = l) := fun _ => rfl
  obtain ⟨hjoins, hothers⟩ := countP_count hi hcounted
  have hmade : s.count i t = { s.turn i (.allowed t k.life) with
      daily := some { k with value := k.value + 1 } } := by
    have hnot : ¬ k.value + 1 = 1 := by omega
    unfold count
    rw [hincremented, hk]
    dsimp only
    rw [if_neg hnot]
    rfl
  rw [hmade]
  refine ⟨fun j c life hc hlife => ?_, fun life => ?_, fun k' hk' => ?_, fun k' hk' => ?_⟩
  · rcases getElem?_set_cases hc with ⟨rfl, rfl⟩ | ⟨-, hbefore⟩
    · rw [hcounted, decide_eq_true_eq] at hlife
      exact hlife ▸ hborn
    · exact h.born j c life hbefore hlife
  · show (s.calls.set i (.allowed t k.life)).countP (Stage.countedIn life) ≤ _
    by_cases hlife : life = k.life
    · subst hlife
      rw [hjoins]
      omega
    · rw [hothers life hlife]
      exact h.bounded life
  · cases hk'
    refine ⟨hborn, Nat.le_add_left _ _, hroom, ?_⟩
    show (s.calls.set i (.allowed t k.life)).countP (Stage.countedIn k.life) ≤ k.value + 1
    rw [hjoins]
    omega
  · cases hk'
    rcases h.expires k hdaily with hsoon | ⟨j, u, hj⟩
    · exact Or.inl hsoon
    · -- the call that owes the `EXPIRE` is another one
      refine Or.inr ⟨j, u, ?_⟩
      have hne : i ≠ j := by
        rintro rfl
        cases hi.symm.trans hj
      exact (List.getElem?_set_ne hne).trans hj

/-- **`EXPIRE`.** -/
theorem Throttling.Counted.expire {t life : ℕ} (h : s.Counted)
    (hi : s.calls[i]? = some (.expiring t life)) : (s.expire i t life).Counted := by
  have hcount : ∀ l, (s.calls.set i (.allowed t life)).countP (Stage.countedIn l) =
      s.calls.countP (Stage.countedIn l) := fun l => countP_set_of_eq hi rfl
  refine ⟨fun j c l hc hl => ?_, fun l => ?_, fun k hk => ?_, fun k hk => ?_⟩
  · rcases getElem?_set_cases hc with ⟨rfl, rfl⟩ | ⟨-, hbefore⟩
    · exact h.born i _ l hi hl
    · exact h.born j c l hbefore hl
  · exact (hcount l).trans_le (h.bounded l)
  · obtain ⟨k', hk', rfl⟩ := Option.map_eq_some_iff.mp hk
    obtain ⟨hborn, hone, hmax, hle⟩ := h.daily k' (daily_of_dailyNow hk')
    exact ⟨hborn, hone, hmax, (hcount _).trans_le hle⟩
  · obtain ⟨k', hk', rfl⟩ := Option.map_eq_some_iff.mp hk
    exact Or.inl ⟨_, rfl, le_rfl⟩

/-- **One step** keeps the count. -/
theorem Throttling.Counted.step (h : s.Counted) (hin : InTime s a) (hstep : s.step a = some s') :
    s'.Counted := by
  cases Throttling.moved hstep with
  | called =>
    have hcount : ∀ life, (s.calls ++ [Stage.checkingCooldown]).countP (Stage.countedIn life) =
        s.calls.countP (Stage.countedIn life) := fun life => countP_concat _ _ _
    refine ⟨fun j c life hc hlife => ?_, fun life => ?_, fun k hk => ?_, fun k hk => ?_⟩
    · rcases getElem?_concat hc with hbefore | ⟨-, rfl⟩
      · exact h.born j c life hbefore hlife
      · cases hlife
    · exact (hcount life).trans_le (h.bounded life)
    · obtain ⟨hborn, hone, hmax, hle⟩ := h.daily k hk
      exact ⟨hborn, hone, hmax, (hcount _).trans_le hle⟩
    · rcases h.expires k hk with hsoon | ⟨j, t, hj⟩
      · exact Or.inl hsoon
      · have hlt := (List.getElem?_eq_some_iff.mp hj).1
        exact Or.inr ⟨j, t, (List.getElem?_append_left hlt).trans hj⟩
  | rested hi hcooling => exact h.turn hi (fun _ => rfl) rfl
  | permitted hi hroom => exact h.turn hi (fun _ => rfl) rfl
  | @refused i c d hi hactive hc hd =>
    have hexpiring : c.isExpiring = false := by
      cases c with
      | expiring t l => cases hc
      | _ => rfl
    refine h.turn hi (fun life => ?_) hexpiring
    rcases hd with rfl | rfl | ⟨ttl, limit, rfl⟩ <;> rfl
  | cooled hi =>
    have hturn := @turn s _ _ (.counting s.now) h hi (fun _ => rfl) rfl
    exact ⟨hturn.born, hturn.bounded, hturn.daily, hturn.expires⟩
  | @counted i t hi =>
    cases hk : s.dailyNow with
    | none => exact h.create hi hk
    | some k =>
      -- the room that was read is there still
      have hroom := (hin _ hi).2 t rfl
      unfold Throttling.dailyCount at hroom
      rw [hk] at hroom
      exact h.increment hi hk hroom
  | expired hi => exact h.expire hi
  | failed hi hactive => exact h.turn hi (fun _ => rfl) (hin _ hi)
  | slept millis =>
    refine ⟨h.born, h.bounded, h.daily, fun k hk => ?_⟩
    rcases h.expires k hk with ⟨e, he, hle⟩ | hsoon
    · refine Or.inl ⟨e, he, ?_⟩
      show e ≤ s.now + millis + verificationDailyTTL
      omega
    · exact Or.inr hsoon

end Steps

/-! ## Locked out -/

/-- The call is past its checks, and not through yet. -/
def Stage.pastChecks : Stage → Bool
  | .settingCooldown | .counting _ | .expiring _ _ => true
  | _ => false

/-- The daily key is full and has no expiry, and no call is past its checks. -/
structure Throttling.LockedOut (s : Throttling) : Prop where
  full : ∃ d, s.daily = some d ∧ d.expiresAt = none ∧ verificationDailyMax ≤ d.value
  refused : ∀ c ∈ s.calls, c.pastChecks = false

section LockedOut

variable {s s' : Throttling} {a : Action} {i : ℕ} {c d : Stage}

theorem Throttling.LockedOut.turn (h : s.LockedOut) (hd : d.pastChecks = false) (i : ℕ) :
    (s.turn i d).LockedOut := by
  refine ⟨h.full, fun e he => ?_⟩
  rcases List.mem_or_eq_of_mem_set he with hbefore | rfl
  · exact h.refused e hbefore
  · exact hd

theorem allowedIn_of_active {life : ℕ} (h : c.active = true) : c.allowedIn life = false := by
  cases c with
  | allowed t l => cases h
  | _ => rfl

/-- **One step** of a user who is locked out allows nothing. -/
theorem Throttling.LockedOut.step (h : s.LockedOut) (hstep : s.step a = some s') :
    s'.LockedOut ∧ ∀ life, s'.calls.countP (Stage.allowedIn life) =
      s.calls.countP (Stage.allowedIn life) := by
  have hpast : ∀ {j : ℕ} {e : Stage}, s.calls[j]? = some e → e.pastChecks = true → False := by
    intro j e hj hpast
    rw [h.refused e (List.mem_of_getElem? hj)] at hpast
    cases hpast
  cases Throttling.moved hstep with
  | called =>
    refine ⟨⟨h.full, fun c hc => ?_⟩, fun life => countP_concat _ _ _⟩
    rcases List.mem_append.mp hc with hbefore | hnew
    · exact h.refused c hbefore
    · rw [List.mem_singleton.mp hnew]
      rfl
  | rested hi hcooling =>
    exact ⟨h.turn rfl _, fun life => countP_set_of_eq hi rfl⟩
  | permitted hi hroom =>
    -- the key is there still, and full
    obtain ⟨d, hd, hexpires, hfull⟩ := h.full
    have hnow : s.dailyNow = some d := by
      unfold dailyNow
      rw [hd]
      exact Option.filter_some_pos (by rw [hexpires]; rfl)
    unfold dailyCount at hroom
    rw [hnow] at hroom
    exact absurd hroom (Nat.not_lt_of_le hfull)
  | @refused i c d hi hactive hc hd =>
    have hd' : d.pastChecks = false ∧ ∀ life, d.allowedIn life = false := by
      rcases hd with rfl | rfl | ⟨ttl, limit, rfl⟩ <;> exact ⟨rfl, fun _ => rfl⟩
    refine ⟨h.turn hd'.1 i, fun life => countP_set_of_eq hi ?_⟩
    rw [hd'.2, allowedIn_of_active hactive]
  | cooled hi => exact (hpast hi rfl).elim
  | counted hi => exact (hpast hi rfl).elim
  | expired hi => exact (hpast hi rfl).elim
  | failed hi hactive =>
    exact ⟨h.turn rfl _, fun life => countP_set_of_eq hi (allowedIn_of_active hactive).symm⟩
  | slept millis => exact ⟨⟨h.full, h.refused⟩, fun _ => rfl⟩

/-- **A user who is locked out stays so**, whatever happens and however long it takes. -/
theorem lockedOut_forever {actions : List Action} (h : s.LockedOut)
    (hrun : exec Throttling.step s actions = some s') :
    s'.LockedOut ∧ ∀ life, s'.calls.countP (Stage.allowedIn life) =
      s.calls.countP (Stage.allowedIn life) := by
  refine invariant_all (fun t : Throttling => t.LockedOut ∧
    ∀ life, t.calls.countP (Stage.allowedIn life) = s.calls.countP (Stage.allowedIn life))
    (fun t a t' ht hstep => ?_) ⟨h, fun _ => rfl⟩ hrun
  obtain ⟨hlocked, hsame⟩ := ht.1.step hstep
  exact ⟨hlocked, fun life => (hsame life).trans (ht.2 life)⟩

end LockedOut

/-! ## One call after the other -/

/-- A call starts when the others are through, and none fails before an `EXPIRE` it owes. -/
def Sequential (s : Throttling) : Action → Prop
  | .call => ∀ c ∈ s.calls, c.active = false
  | .fail i => ∀ c ∈ s.calls[i]?, c.isExpiring = false
  | _ => True

/-- One call at most is under way, and what it has checked holds. -/
structure Throttling.Alone (s : Throttling) : Prop where
  alone : ∀ (i j : ℕ) (c d : Stage), s.calls[i]? = some c → s.calls[j]? = some d →
    c.active = true → d.active = true → i = j
  rested : ∀ (i : ℕ) (c : Stage), s.calls[i]? = some c →
    c = .checkingDaily ∨ c = .settingCooldown → s.cooling = false
  room : ∀ (i : ℕ) (c : Stage), s.calls[i]? = some c →
    c = .settingCooldown ∨ (∃ t, c = .counting t) → s.dailyCount < verificationDailyMax

section Alone

variable {s s' : Throttling} {a : Action} {i : ℕ} {c d : Stage}

theorem Throttling.Alone.callsAlone (h : s.Alone) :
    Threads.Alone Stage.active (fun _ => ()) s.calls :=
  fun i j c d hi hj _ => h.alone i j c d hi hj

/-- The one call under way goes on: only what it has checked matters. -/
theorem Throttling.Alone.turn (h : s.Alone) (hi : s.calls[i]? = some c) (hactive : c.active = true)
    (hcalls : s'.calls = s.calls.set i d)
    (hrested : d = .checkingDaily ∨ d = .settingCooldown → s'.cooling = false)
    (hroom : d = .settingCooldown ∨ (∃ t, d = .counting t) →
      s'.dailyCount < verificationDailyMax) : s'.Alone := by
  have hidle : ∀ {j : ℕ} {e : Stage}, i ≠ j → s.calls[j]? = some e → e.active = false :=
    fun hij hj => h.callsAlone.eq_false hi hactive hj rfl hij
  have hset := h.callsAlone.set (d := d) hi rfl fun _ => hactive
  constructor
  · rw [hcalls]
    exact fun j k e f he hf => hset j k e f he hf rfl
  · intro j e he hstage
    rw [hcalls] at he
    rcases getElem?_set_cases he with ⟨rfl, rfl⟩ | ⟨hij, hbefore⟩
    · exact hrested hstage
    · have hnot := hidle hij hbefore
      rcases hstage with rfl | rfl <;> cases hnot
  · intro j e he hstage
    rw [hcalls] at he
    rcases getElem?_set_cases he with ⟨rfl, rfl⟩ | ⟨hij, hbefore⟩
    · exact hroom hstage
    · have hnot := hidle hij hbefore
      rcases hstage with rfl | ⟨t, rfl⟩ <;> cases hnot

/-- Time only takes from the count. -/
theorem dailyCount_sleep_le (s : Throttling) (millis : ℕ) :
    ({ s with now := s.now + millis } : Throttling).dailyCount ≤ s.dailyCount := by
  unfold Throttling.dailyCount Throttling.dailyNow
  cases hdaily : s.daily with
  | none => exact le_rfl
  | some d =>
    rw [Option.filter_some, Option.filter_some]
    by_cases hlater : (d.expiresAt.all fun e => decide (s.now + millis < e)) = true
    · have hnow : (d.expiresAt.all fun e => decide (s.now < e)) = true := by
        cases hexpires : d.expiresAt with
        | none => rfl
        | some e =>
          rw [hexpires, Option.all_some, decide_eq_true_eq] at hlater
          exact decide_eq_true (by omega)
      rw [if_pos hnow, if_pos hlater]
    · rw [if_neg hlater]
      exact Nat.zero_le _

theorem Throttling.Alone.step (h : s.Alone) (hsequential : Sequential s a)
    (hstep : s.step a = some s') : s'.Alone := by
  cases Throttling.moved hstep with
  | called =>
    have hconcat := h.callsAlone.concat (d := .checkingCooldown) fun _ e he _ => hsequential e he
    constructor
    · exact fun j k e f he hf => hconcat j k e f he hf rfl
    · intro j e he hstage
      rcases getElem?_concat he with hbefore | ⟨-, rfl⟩
      · exact h.rested j e hbefore hstage
      · rcases hstage with hstage | hstage <;> cases hstage
    · intro j e he hstage
      rcases getElem?_concat he with hbefore | ⟨-, rfl⟩
      · exact h.room j e hbefore hstage
      · rcases hstage with hstage | ⟨t, hstage⟩ <;> cases hstage
  | rested hi hcooling =>
    refine h.turn hi rfl rfl (fun _ => hcooling) fun hstage => ?_
    rcases hstage with hstage | ⟨t, hstage⟩ <;> cases hstage
  | permitted hi hroom =>
    exact h.turn hi rfl rfl (fun _ => h.rested _ _ hi (Or.inl rfl)) fun _ => hroom
  | @refused i c d hi hactive hc hd =>
    refine h.turn hi hactive rfl (fun hstage => ?_) fun hstage => ?_
    · rcases hd with rfl | rfl | ⟨ttl, limit, rfl⟩ <;>
        rcases hstage with hstage | hstage <;> cases hstage
    · rcases hd with rfl | rfl | ⟨ttl, limit, rfl⟩ <;>
        rcases hstage with hstage | ⟨t, hstage⟩ <;> cases hstage
  | cooled hi =>
    refine h.turn hi rfl rfl (fun hstage => ?_) fun _ => h.room _ _ hi (Or.inl rfl)
    rcases hstage with hstage | hstage <;> cases hstage
  | counted hi =>
    refine h.turn hi rfl rfl (fun hstage => ?_) fun hstage => ?_
    · split_ifs at hstage <;> rcases hstage with hstage | hstage <;> cases hstage
    · split_ifs at hstage <;> rcases hstage with hstage | ⟨t, hstage⟩ <;> cases hstage
  | expired hi =>
    refine h.turn hi rfl rfl (fun hstage => ?_) fun hstage => ?_
    · rcases hstage with hstage | hstage <;> cases hstage
    · rcases hstage with hstage | ⟨t, hstage⟩ <;> cases hstage
  | failed hi hactive =>
    refine h.turn hi hactive rfl (fun hstage => ?_) fun hstage => ?_
    · rcases hstage with hstage | hstage <;> cases hstage
    · rcases hstage with hstage | ⟨t, hstage⟩ <;> cases hstage
  | slept millis =>
    -- keys only go
    refine ⟨h.alone, fun j c hj hstage => ?_, fun j c hj hstage => ?_⟩
    · have hover := h.rested j c hj hstage
      unfold Throttling.cooling at hover ⊢
      cases hcooldown : s.cooldown with
      | none => rfl
      | some e =>
        rw [hcooldown, Option.any_some, decide_eq_false_iff_not] at hover
        show decide (s.now + millis < e) = false
        exact decide_eq_false (by omega)
    · exact (dailyCount_sleep_le s millis).trans_lt (h.room j c hj hstage)

end Alone

/-- **Calls one after the other are in time.** -/
theorem sequential_inTime (actions : List Action)
    (hmeets : Meets Throttling.step Sequential {} actions) :
    Meets Throttling.step InTime {} actions := by
  refine meets_of_invariant Throttling.Alone (fun _ _ _ h hsequential hstep =>
    h.step hsequential hstep) (fun s a _ h hsequential _ => ?_) ⟨by simp, by simp, by simp⟩ hmeets
  cases a with
  | call => trivial
  | proceed i =>
    intro c hi
    refine ⟨fun hstage => h.rested i c hi (Or.inr hstage), fun t hstage => ?_⟩
    exact h.room i c hi (Or.inr ⟨t, hstage⟩)
  | fail i => exact hsequential
  | sleep millis => trivial

/-! ## Every run -/

/-- What the throttle promises. -/
structure Throttling.Throttled (s : Throttling) : Prop where
  spaced : ∀ (i j t u l m : ℕ), i ≠ j → s.calls[i]? = some (.allowed t l) →
    s.calls[j]? = some (.allowed u m) →
      t + verificationCooldown ≤ u ∨ u + verificationCooldown ≤ t
  bounded : ∀ life, s.calls.countP (Stage.allowedIn life) ≤ verificationDailyMax
  expires : ∀ d, s.dailyNow = some d →
    (∃ e, d.expiresAt = some e ∧ e ≤ s.now + verificationDailyTTL) ∨
      ∃ t, .expiring t d.life ∈ s.calls

/-- **The resend throttle.**  Calls that do not overlap are in time, if none dies before its
`EXPIRE`.  After any run in time: resends are a cooldown apart, no daily key counts more of them
than allowed, and every daily key goes within a day, or the call that has made it is about to see
to it. -/
theorem resend_throttled (actions : List Action) (s : Throttling)
    (hrun : exec Throttling.step {} actions = some s) :
    (Meets Throttling.step Sequential {} actions → Meets Throttling.step InTime {} actions) ∧
    (Meets Throttling.step InTime {} actions → s.Throttled) := by
  refine ⟨sequential_inTime actions, fun hmeets => ?_⟩
  have hcooled : s.Cooled := by
    refine invariant Throttling.Cooled (fun _ _ _ h hin hstep => h.step hin hstep) ?_ hmeets hrun
    exact ⟨by simp, by simp⟩
  have hcounted : s.Counted := by
    refine invariant Throttling.Counted (fun _ _ _ h hin hstep => h.step hin hstep) ?_ hmeets hrun
    exact ⟨by simp, by simp, by simp, by simp⟩
  refine ⟨fun i j t u l m hij hi hj => hcooled.spaced i j _ _ t u hij hi hj rfl rfl,
    fun life => ?_, fun d hd => ?_⟩
  · refine (List.countP_mono_left fun c _ hc => ?_).trans (hcounted.bounded life)
    cases c with
    | allowed t l => exact hc
    | _ => cases hc
  · rcases hcounted.expires d (Throttling.daily_of_dailyNow hd) with hsoon | ⟨i, t, hi⟩
    · exact Or.inl hsoon
    · exact Or.inr ⟨t, List.mem_of_getElem? hi⟩

/-- Two resends, a minute apart: the first has an `EXPIRE` to send. -/
def aMinuteApart : List Action :=
  .call :: List.replicate 5 (.proceed 0) ++
    (.sleep verificationCooldown :: .call :: List.replicate 4 (.proceed 1))

instance (s : Throttling) : DecidablePred (InTime s)
  | .call => isTrue trivial
  | .proceed i => decidable_of_iff (∀ c ∈ s.calls[i]?,
      (c = .settingCooldown → s.cooling = false) ∧
        ((∃ t ∈ c.setAt, c = .counting t) → s.dailyCount < verificationDailyMax)) (by
      refine forall₂_congr fun c _ => and_congr_right fun _ => ⟨fun h t ht => ?_, ?_⟩
      · exact h ⟨t, by rw [ht]; rfl, ht⟩
      · rintro h ⟨t, -, ht⟩
        exact h t ht)
  | .fail i => inferInstanceAs (Decidable (∀ c ∈ s.calls[i]?, c.isExpiring = false))
  | .sleep _ => isTrue trivial

theorem resend_throttled_aMinuteApart :
    ∃ s, exec Throttling.step {} aMinuteApart = some s ∧
      s.calls = [.allowed 0 0, .allowed 60000 0] ∧ s.Throttled := by
  have hcalls : (exec Throttling.step {} aMinuteApart).map Throttling.calls =
      some [.allowed 0 0, .allowed 60000 0] := by
    decide +kernel
  obtain ⟨s, hs, hcalls⟩ := Option.map_eq_some_iff.mp hcalls
  exact ⟨s, hs, hcalls, (resend_throttled aMinuteApart s hs).2 (by decide +kernel)⟩

/-- Six calls, each command of all of them before the next. -/
def sixAtOnce : List Action :=
  List.replicate 6 .call ++ (List.replicate 4 ((List.range 6).map .proceed)).flatten ++
    [.proceed 0]

/-- The call that makes the daily key fails before it sees to its expiry. -/
def failsBeforeExpire : List Action := .call :: List.replicate 4 (.proceed 0) ++ [.fail 0]

/-- **None of the promises holds of every run**: calls that overlap are all allowed at once, and
a daily key may be left without an expiry. -/
theorem not_forall_throttled :
    (¬ ∀ (actions : List Action) (s : Throttling), exec Throttling.step {} actions = some s →
      ∀ (i j t u l m : ℕ), i ≠ j → s.calls[i]? = some (.allowed t l) →
        s.calls[j]? = some (.allowed u m) →
          t + verificationCooldown ≤ u ∨ u + verificationCooldown ≤ t) ∧
    (¬ ∀ (actions : List Action) (s : Throttling), exec Throttling.step {} actions = some s →
      ∀ life, s.calls.countP (Stage.allowedIn life) ≤ verificationDailyMax) ∧
    ¬ ∀ (actions : List Action) (s : Throttling), exec Throttling.step {} actions = some s →
      ∀ d, s.dailyNow = some d →
        (∃ e, d.expiresAt = some e ∧ e ≤ s.now + verificationDailyTTL) ∨
          ∃ t, .expiring t d.life ∈ s.calls := by
  have hsix : (exec Throttling.step {} sixAtOnce).map Throttling.calls =
      some (List.replicate 6 (.allowed 0 0)) := by
    decide +kernel
  have hfails : (exec Throttling.step {} failsBeforeExpire).map
      (fun s => (s.dailyNow, s.calls)) = some (some ⟨1, none, 0⟩, [.failed]) := by
    decide +kernel
  obtain ⟨s, hs, hcalls⟩ := Option.map_eq_some_iff.mp hsix
  obtain ⟨t, ht, hleft⟩ := Option.map_eq_some_iff.mp hfails
  refine ⟨fun h => ?_, fun h => ?_, fun h => ?_⟩
  · have hapart := h sixAtOnce s hs 0 1 0 0 0 0 (by decide) (by rw [hcalls]; rfl)
      (by rw [hcalls]; rfl)
    exact absurd hapart (by decide)
  · have hle := h sixAtOnce s hs 0
    rw [hcalls] at hle
    exact absurd hle (by decide)
  · obtain ⟨hdaily, hcalls'⟩ := Prod.mk.inj hleft
    rcases h failsBeforeExpire t ht _ hdaily with ⟨e, he, -⟩ | ⟨u, hu⟩
    · cases he
    · rw [hcalls'] at hu
      simp at hu

end VocalCoach.ResendThrottle
