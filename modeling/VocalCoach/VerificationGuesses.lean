/-
# Guessing a verification code

`VerifyEmail` command by command: a call reads the row and checks it, compares the code with
the hash it has read, and then counts the failure or marks the account verified.  Between any
two of these other calls may run.

The limit is checked against the row as it was read, so failures that are not on the row yet
do not count: those of calls that are about to count theirs, and of calls that are still
comparing.  A call passes its checks in time when these, added to the attempts on the row, stay
below the limit (`InTime`).  Where all do, and no failure is lost on the way, at most
`maxVerificationAttempts` wrong codes are ever compared; and where nothing but wrong codes is
tried, only there (`guesses_bounded`).  Calls for the account that do not overlap (`InTurn`) are
all in time: then the row has counted every failure, and the check of the attempts is enough.
-/
import VocalCoach.Accounts
import VocalCoach.Threads
import Mathlib.Order.Nat

namespace VocalCoach.Accounts

open Machine Threads

variable {Hash : Type}

/-! ## Calls under way -/

/-- A call of `VerifyEmail`, by what it does next. -/
inductive Attempt (Hash : Type)
  /-- It compares its code with the hash it has read. -/
  | comparing (user : UserId) (codeHash : Hash) (code : String)
  /-- It counts a failure. -/
  | failing (user : UserId)
  /-- It marks the account verified. -/
  | proving (user : UserId)
  | returned (result : Except Error Unit)

/-- The table, the clock and the calls. -/
structure Guessing (Hash : Type) where
  users : Users Hash
  now : Time := 0
  attempts : List (Attempt Hash) := []
  /-- How many wrong codes have been compared with the hash of an account. -/
  wrong : UserId → ℕ := fun _ => 0

/-- One command of a call, the i-th that was made; `fails` says whether it does. -/
inductive GuessAction
  | enter (email code : String) (fails : Bool)
  | compare (i : ℕ) (fails : Bool)
  | increment (i : ℕ) (fails : Bool)
  | mark (i : ℕ) (fails : Bool)
  | sleep (seconds : ℕ)

namespace Guessing

variable (svc : Service Hash) (s : Guessing Hash)

/-- `VerifyEmail` up to the comparison. -/
def enter (email code : String) (fails : Bool) : Attempt Hash :=
  if fails then .returned (.error (.failed .getByEmail))
  else match s.users.getByEmail (svc.normalizeEmail email) with
  | none => .returned (.error .verificationCodeInvalid)
  | some user =>
      if user.emailVerified then .returned (.ok ())
      else if ∀ e ∈ user.verificationExpiresAt, e < s.now then
        .returned (.error .verificationCodeExpired)
      else if user.verificationAttempts ≥ maxVerificationAttempts then
        .returned (.error .tooManyVerificationAttempts)
      else match user.verificationCodeHash with
      | none => .returned (.error .verificationCodeInvalid)
      | some codeHash => .comparing user.id codeHash code

/-- One command. -/
def step : GuessAction → Option (Guessing Hash)
  | .enter email code fails =>
      some { s with attempts := s.attempts ++ [s.enter svc email code fails] }
  | .compare i fails =>
      match s.attempts[i]? with
      | some (.comparing user codeHash code) =>
          if fails then
            some { s with attempts := s.attempts.set i (.returned (.error (.failed .verify))) }
          else if svc.hasher.verify code codeHash = false then
            some
              { s with
                attempts := s.attempts.set i (.failing user)
                wrong := Function.update s.wrong user (s.wrong user + 1) }
          else some { s with attempts := s.attempts.set i (.proving user) }
      | _ => none
  | .increment i fails =>
      match s.attempts[i]? with
      | some (.failing user) =>
          if fails then
            some
              { s with
                attempts := s.attempts.set i
                  (.returned (.error (.failed .incrementVerificationAttempts))) }
          else
            some
              { s with
                users := s.users.incrementVerificationAttempts user
                attempts := s.attempts.set i (.returned (.error .verificationCodeInvalid)) }
      | _ => none
  | .mark i fails =>
      match s.attempts[i]? with
      | some (.proving user) =>
          if fails then
            some { s with attempts := s.attempts.set i (.returned (.error (.failed .markVerified))) }
          else
            some
              { s with
                users := s.users.markVerified user
                attempts := s.attempts.set i (.returned (.ok ())) }
      | _ => none
  | .sleep seconds => some { s with now := s.now + seconds }

end Guessing

/-! ## Failures that are not on the row -/

/-- The call is comparing a code with the hash of the account. -/
def Attempt.comparesFor (id : UserId) : Attempt Hash → Bool
  | .comparing user _ _ => user = id
  | _ => false

/-- The call is about to count a failure of the account. -/
def Attempt.failsFor (id : UserId) : Attempt Hash → Bool
  | .failing user => user = id
  | _ => false

theorem failsFor_self (id : UserId) : (.failing id : Attempt Hash).failsFor id = true :=
  decide_eq_true rfl

theorem failsFor_of_ne {user id : UserId} (h : user ≠ id) :
    (.failing user : Attempt Hash).failsFor id = false :=
  decide_eq_false h

theorem comparesFor_self (id : UserId) (codeHash : Hash) (code : String) :
    (.comparing id codeHash code : Attempt Hash).comparesFor id = true :=
  decide_eq_true rfl

theorem comparesFor_of_ne {user id : UserId} (h : user ≠ id) (codeHash : Hash) (code : String) :
    (.comparing user codeHash code : Attempt Hash).comparesFor id = false :=
  decide_eq_false h

/-- The comparisons with the hash of an account that are under way. -/
def Guessing.comparisons (s : Guessing Hash) (id : UserId) : ℕ :=
  s.attempts.countP (Attempt.comparesFor id)

/-- The failures of an account that are not on its row yet. -/
def Guessing.uncounted (s : Guessing Hash) (id : UserId) : ℕ :=
  s.attempts.countP (Attempt.failsFor id)

/-- A call that passes the checks for the account does so while the failures on the row, those
on their way to it and the comparisons under way stay below the limit; and no failure is lost. -/
def InTime (svc : Service Hash) (id : UserId) (s : Guessing Hash) : GuessAction → Prop
  | .enter email code fails =>
      (s.enter svc email code fails).comparesFor id = true →
        ∀ u ∈ s.users.getByEmail (svc.normalizeEmail email),
          u.verificationAttempts + s.uncounted id + s.comparisons id < maxVerificationAttempts
  | .increment i fails => s.attempts[i]? = some (.failing id) → fails = false
  | _ => True

/-- The calls for the account take turns: one that passes the checks does so while no other
compares or has a failure to count; and no failure is lost. -/
def InTurn (svc : Service Hash) (id : UserId) (s : Guessing Hash) : GuessAction → Prop
  | .enter email code fails =>
      (s.enter svc email code fails).comparesFor id = true →
        s.uncounted id = 0 ∧ s.comparisons id = 0
  | .increment i fails => s.attempts[i]? = some (.failing id) → fails = false
  | _ => True

/-- Nothing but wrong codes is tried for the account, and nothing fails. -/
def OnlyWrong (svc : Service Hash) (id : UserId) (s : Guessing Hash) : GuessAction → Prop
  | .compare i fails =>
      ∀ codeHash code, s.attempts[i]? = some (.comparing id codeHash code) →
        fails = false ∧ svc.hasher.verify code codeHash = false
  | .increment i fails => s.attempts[i]? = some (.failing id) → fails = false
  | _ => True

/-- The row of the account counts the wrong codes, but for those on their way to it. -/
structure Guessing.Counted (id : UserId) (s : Guessing Hash) : Prop where
  counted : ∀ u ∈ s.users, u.id = id → u.emailVerified = false →
    s.wrong id = u.verificationAttempts + s.uncounted id

section Steps

variable {svc : Service Hash} {s s' : Guessing Hash} {id : UserId}

/-- A call that passes the checks has read the row of an unverified account with attempts left. -/
theorem comparesFor_enter {email code : String} {fails : Bool}
    (h : (s.enter svc email code fails).comparesFor id = true) :
    ∃ u, s.users.getByEmail (svc.normalizeEmail email) = some u ∧ u ∈ s.users ∧ u.id = id ∧
      u.emailVerified = false ∧ u.verificationAttempts < maxVerificationAttempts := by
  unfold Guessing.enter at h
  cases hread : s.users.getByEmail (svc.normalizeEmail email) with
  | none =>
    rw [hread] at h
    split_ifs at h <;> cases h
  | some u =>
    rw [hread] at h
    dsimp only at h
    split_ifs at h with hfails hverified hexpired hattempts
    all_goals try cases h
    cases hhash : u.verificationCodeHash with
    | none =>
      rw [hhash] at h
      cases h
    | some codeHash =>
      rw [hhash] at h
      exact ⟨u, rfl, List.mem_of_find?_eq_some hread, of_decide_eq_true h,
        by simpa using hverified, Nat.not_le.mp hattempts⟩

/-- The call at an index is about to count a failure of the account. -/
theorem getElem?_failing_iff {i : ℕ} :
    s.attempts[i]? = some (.failing id) ↔ ∃ c ∈ s.attempts[i]?, c.failsFor id = true := by
  constructor
  · intro hi
    exact ⟨.failing id, hi, failsFor_self id⟩
  · rintro ⟨c, hi, hfails⟩
    cases c with
    | failing user =>
      obtain rfl : user = id := of_decide_eq_true hfails
      exact hi
    | comparing user codeHash code => cases hfails
    | proving user => cases hfails
    | returned result => cases hfails

instance (svc : Service Hash) (id : UserId) (s : Guessing Hash) : DecidablePred (InTurn svc id s)
  | .enter _ _ _ => inferInstanceAs (Decidable (_ → _ ∧ _))
  | .increment i fails =>
      decidable_of_iff
        ((∃ c : Attempt Hash, c ∈ s.attempts[i]? ∧ c.failsFor id = true) → fails = false)
        (imp_congr getElem?_failing_iff.symm Iff.rfl)
  | .compare _ _ => isTrue trivial
  | .mark _ _ => isTrue trivial
  | .sleep _ => isTrue trivial

/-- **A call in its turn is in time**: nothing is on its way to the row, so the attempts that the
code checks are all there are. -/
theorem InTurn.inTime {a : GuessAction} (h : InTurn svc id s a) : InTime svc id s a := by
  cases a with
  | enter email code fails =>
    intro hpasses u hread
    obtain ⟨huncounted, hcomparisons⟩ := h hpasses
    obtain ⟨v, hread', -, -, -, hleft⟩ := comparesFor_enter hpasses
    obtain rfl : v = u := Option.some.inj (hread'.symm.trans hread)
    rw [huncounted, hcomparisons]
    exact hleft
  | increment i fails => exact h
  | compare i fails => trivial
  | mark i fails => trivial
  | sleep seconds => trivial

/-- No call starts out with a failure. -/
theorem failsFor_enter (email code : String) (fails : Bool) :
    (s.enter svc email code fails).failsFor id = false := by
  unfold Guessing.enter
  repeat' split
  all_goals rfl

/-- What one command does. -/
inductive Guessing.Moved (svc : Service Hash) (s : Guessing Hash) :
    GuessAction → Guessing Hash → Prop
  | entered (email code : String) (fails : Bool) :
      Moved svc s (.enter email code fails)
        { s with attempts := s.attempts ++ [s.enter svc email code fails] }
  | compareFailed {i : ℕ} {user : UserId} {codeHash : Hash} {code : String}
      (h : s.attempts[i]? = some (.comparing user codeHash code)) :
      Moved svc s (.compare i true)
        { s with attempts := s.attempts.set i (.returned (.error (.failed .verify))) }
  | refused {i : ℕ} {user : UserId} {codeHash : Hash} {code : String}
      (h : s.attempts[i]? = some (.comparing user codeHash code))
      (hwrong : svc.hasher.verify code codeHash = false) :
      Moved svc s (.compare i false)
        { s with
          attempts := s.attempts.set i (.failing user)
          wrong := Function.update s.wrong user (s.wrong user + 1) }
  | accepted {i : ℕ} {user : UserId} {codeHash : Hash} {code : String}
      (h : s.attempts[i]? = some (.comparing user codeHash code))
      (hright : svc.hasher.verify code codeHash ≠ false) :
      Moved svc s (.compare i false) { s with attempts := s.attempts.set i (.proving user) }
  | lost {i : ℕ} {user : UserId} (h : s.attempts[i]? = some (.failing user)) :
      Moved svc s (.increment i true)
        { s with
          attempts := s.attempts.set i
            (.returned (.error (.failed .incrementVerificationAttempts))) }
  | counted {i : ℕ} {user : UserId} (h : s.attempts[i]? = some (.failing user)) :
      Moved svc s (.increment i false)
        { s with
          users := s.users.incrementVerificationAttempts user
          attempts := s.attempts.set i (.returned (.error .verificationCodeInvalid)) }
  | markFailed {i : ℕ} {user : UserId} (h : s.attempts[i]? = some (.proving user)) :
      Moved svc s (.mark i true)
        { s with attempts := s.attempts.set i (.returned (.error (.failed .markVerified))) }
  | marked {i : ℕ} {user : UserId} (h : s.attempts[i]? = some (.proving user)) :
      Moved svc s (.mark i false)
        { s with
          users := s.users.markVerified user
          attempts := s.attempts.set i (.returned (.ok ())) }
  | slept (seconds : ℕ) : Moved svc s (.sleep seconds) { s with now := s.now + seconds }

theorem Guessing.moved {a : GuessAction} (h : s.step svc a = some s') : s.Moved svc a s' := by
  cases a with
  | enter email code fails =>
    cases h
    exact .entered email code fails
  | compare i fails =>
    simp only [step] at h
    split at h
    next user codeHash code hi =>
      split_ifs at h with hfails hwrong
      · cases h
        subst hfails
        exact .compareFailed hi
      · cases h
        rw [Bool.eq_false_iff.mpr hfails]
        exact .refused hi hwrong
      · cases h
        rw [Bool.eq_false_iff.mpr hfails]
        exact .accepted hi hwrong
    · cases h
  | increment i fails =>
    simp only [step] at h
    split at h
    next user hi =>
      cases fails with
      | true =>
        cases h
        exact .lost hi
      | false =>
        cases h
        exact .counted hi
    · cases h
  | mark i fails =>
    simp only [step] at h
    split at h
    next user hi =>
      cases fails with
      | true =>
        cases h
        exact .markFailed hi
      | false =>
        cases h
        exact .marked hi
    · cases h
  | sleep seconds =>
    cases h
    exact .slept seconds

/-- A step after which the account has no more failures on their way, and the same row. -/
theorem Guessing.Counted.congr (h : s.Counted id) (husers : s'.users = s.users)
    (hwrong : s'.wrong id = s.wrong id) (huncounted : s'.uncounted id = s.uncounted id) :
    s'.Counted id := by
  refine ⟨fun u hu huid hunverified => ?_⟩
  rw [husers] at hu
  rw [hwrong, huncounted]
  exact h.counted u hu huid hunverified

/-- **The row keeps count**, as long as no failure is lost. -/
theorem Guessing.Counted.step {a : GuessAction} (h : s.Counted id) (hmoved : s.Moved svc a s')
    (hkept : ∀ i, a = .increment i true → s.attempts[i]? ≠ some (.failing id)) :
    s'.Counted id := by
  cases hmoved with
  | entered email code fails =>
    refine h.congr rfl rfl ?_
    rw [Guessing.uncounted, countP_concat, failsFor_enter]
    rfl
  | compareFailed hi => exact h.congr rfl rfl (countP_set_of_eq hi rfl)
  | @refused i user codeHash code hi hwrong =>
    by_cases huser : user = id
    · subst huser
      refine ⟨fun u hu huid hunverified => ?_⟩
      have hbefore := h.counted u hu huid hunverified
      have hmore := countP_set_joins (d := .failing user) (p := Attempt.failsFor user) hi rfl
        (failsFor_self user)
      show Function.update s.wrong user (s.wrong user + 1) user = u.verificationAttempts + _
      rw [Function.update_self, hbefore]
      exact (congrArg (u.verificationAttempts + ·) hmore).symm
    · exact h.congr rfl (Function.update_of_ne (Ne.symm huser) _ _)
        (countP_set_of_eq hi (failsFor_of_ne huser))
  | accepted hi hright => exact h.congr rfl rfl (countP_set_of_eq hi rfl)
  | @lost i user hi =>
    have hother : user ≠ id := by
      rintro rfl
      exact hkept i rfl hi
    exact h.congr rfl rfl (countP_set_of_eq hi (failsFor_of_ne hother).symm)
  | @counted i user hi =>
    by_cases huser : user = id
    · subst huser
      have hless := countP_set_leaves (d := .returned (.error .verificationCodeInvalid)) hi
        (failsFor_self user) rfl
      refine ⟨fun u hu huid hunverified => ?_⟩
      obtain ⟨v, hv, rfl⟩ := List.mem_map.mp hu
      by_cases hv' : v.id = user
      · rw [if_pos hv'] at hunverified ⊢
        have hbefore := h.counted v hv hv' hunverified
        rw [Guessing.uncounted] at hbefore
        unfold Guessing.uncounted
        dsimp only
        omega
      · rw [if_neg hv'] at huid
        exact absurd huid hv'
    · have hsame : (s.attempts.set i (.returned (.error .verificationCodeInvalid))).countP
          (Attempt.failsFor id) = s.attempts.countP (Attempt.failsFor id) :=
        countP_set_of_eq hi (failsFor_of_ne huser).symm
      refine ⟨fun u hu huid hunverified => ?_⟩
      obtain ⟨v, hv, rfl⟩ := List.mem_map.mp hu
      by_cases hv' : v.id = user
      · rw [if_pos hv'] at huid
        exact absurd (hv'.symm.trans huid) huser
      · rw [if_neg hv'] at huid hunverified ⊢
        rw [h.counted v hv huid hunverified, Guessing.uncounted, ← hsame]
        rfl
  | markFailed hi => exact h.congr rfl rfl (countP_set_of_eq hi rfl)
  | @marked i user hi =>
    have hsame : (s.attempts.set i (.returned (.ok ()))).countP (Attempt.failsFor id)
        = s.attempts.countP (Attempt.failsFor id) :=
      countP_set_of_eq hi rfl
    refine ⟨fun u hu huid hunverified => ?_⟩
    obtain ⟨v, hv, rfl⟩ := List.mem_map.mp hu
    by_cases hv' : v.id = user
    · rw [if_pos hv'] at hunverified
      cases hunverified
    · rw [if_neg hv'] at huid hunverified ⊢
      rw [h.counted v hv huid hunverified, Guessing.uncounted, ← hsame]
      rfl
  | slept seconds => exact h.congr rfl rfl rfl

/-- A call that neither was nor becomes a comparison leaves their number alone. -/
theorem comparisons_other {i : ℕ} {c d : Attempt Hash} (hi : s.attempts[i]? = some c)
    (hc : c.comparesFor id = false) (hd : d.comparesFor id = false) :
    (s.attempts.set i d).countP (Attempt.comparesFor id)
      = s.attempts.countP (Attempt.comparesFor id) :=
  countP_set_of_eq hi (hd.trans hc.symm)

/-- A call that is no comparison afterwards adds none. -/
theorem comparisons_le_other {i : ℕ} {c d : Attempt Hash} (hi : s.attempts[i]? = some c)
    (hd : d.comparesFor id = false) :
    (s.attempts.set i d).countP (Attempt.comparesFor id)
      ≤ s.attempts.countP (Attempt.comparesFor id) :=
  countP_set_le hi fun htrue => absurd (hd.symm.trans htrue) Bool.false_ne_true

/-- A wrong code is one comparison made more and one under way less. -/
theorem Guessing.comparisons_refused {i : ℕ} {user : UserId} {codeHash : Hash} {code : String}
    (hi : s.attempts[i]? = some (.comparing user codeHash code)) :
    Function.update s.wrong user (s.wrong user + 1) id
      + (s.attempts.set i (.failing user)).countP (Attempt.comparesFor id)
        = s.wrong id + s.comparisons id := by
  unfold Guessing.comparisons
  by_cases huser : user = id
  · subst huser
    have hless := countP_set_leaves (d := .failing user) hi (comparesFor_self user codeHash code)
      rfl
    rw [Function.update_self]
    omega
  · have hsame : (s.attempts.set i (.failing user)).countP (Attempt.comparesFor id)
        = s.attempts.countP (Attempt.comparesFor id) :=
      comparisons_other hi (comparesFor_of_ne huser codeHash code) rfl
    rw [Function.update_of_ne (Ne.symm huser), hsame]

/-- What a step does to the comparisons of an account, those made and those under way: only a
call that passes the checks adds one, and a comparison that fails or is right is none any more. -/
theorem Guessing.comparisons_step {a : GuessAction} (hmoved : s.Moved svc a s') :
    s'.wrong id + s'.comparisons id ≤ s.wrong id + s.comparisons id ∨
      ∃ email code fails, a = .enter email code fails ∧
        (s.enter svc email code fails).comparesFor id = true ∧
        s'.wrong id + s'.comparisons id = s.wrong id + s.comparisons id + 1 := by
  cases hmoved with
  | entered email code fails =>
    have hcount := countP_concat s.attempts (s.enter svc email code fails)
      (Attempt.comparesFor id)
    by_cases hpasses : (s.enter svc email code fails).comparesFor id = true
    · refine Or.inr ⟨email, code, fails, rfl, hpasses, ?_⟩
      rw [if_pos hpasses] at hcount
      exact congrArg (s.wrong id + ·) hcount
    · left
      rw [if_neg hpasses] at hcount
      exact (congrArg (s.wrong id + ·) hcount).le
  | compareFailed hi => exact Or.inl (Nat.add_le_add_left (comparisons_le_other hi rfl) _)
  | refused hi hwrong => exact Or.inl (Guessing.comparisons_refused hi).le
  | accepted hi hright => exact Or.inl (Nat.add_le_add_left (comparisons_le_other hi rfl) _)
  | lost hi => exact Or.inl (congrArg (s.wrong id + ·) (comparisons_other hi rfl rfl)).le
  | counted hi => exact Or.inl (congrArg (s.wrong id + ·) (comparisons_other hi rfl rfl)).le
  | markFailed hi => exact Or.inl (congrArg (s.wrong id + ·) (comparisons_other hi rfl rfl)).le
  | marked hi => exact Or.inl (congrArg (s.wrong id + ·) (comparisons_other hi rfl rfl)).le
  | slept seconds => exact Or.inl le_rfl

/-- Where only wrong codes are tried, no comparison gets lost. -/
theorem Guessing.comparisons_le {a : GuessAction} (hmoved : s.Moved svc a s')
    (honly : OnlyWrong svc id s a) :
    s.wrong id + s.comparisons id ≤ s'.wrong id + s'.comparisons id := by
  cases hmoved with
  | entered email code fails =>
    have hcount := countP_concat s.attempts (s.enter svc email code fails)
      (Attempt.comparesFor id)
    have hle : s.attempts.countP (Attempt.comparesFor id)
        ≤ (s.attempts ++ [s.enter svc email code fails]).countP (Attempt.comparesFor id) := by
      rw [hcount]
      exact Nat.le_add_right _ _
    exact Nat.add_le_add_left hle _
  | @compareFailed i user codeHash code hi =>
    have huser : user ≠ id := by
      rintro rfl
      cases (honly codeHash code hi).1
    have hsame : (s.attempts.set i (.returned (.error (.failed .verify)))).countP
        (Attempt.comparesFor id) = s.attempts.countP (Attempt.comparesFor id) :=
      comparisons_other hi (comparesFor_of_ne huser codeHash code) rfl
    exact (congrArg (s.wrong id + ·) hsame).ge
  | refused hi hwrong => exact (Guessing.comparisons_refused hi).ge
  | @accepted i user codeHash code hi hright =>
    have huser : user ≠ id := by
      rintro rfl
      exact hright (honly codeHash code hi).2
    have hsame : (s.attempts.set i (.proving user)).countP (Attempt.comparesFor id)
        = s.attempts.countP (Attempt.comparesFor id) :=
      comparisons_other hi (comparesFor_of_ne huser codeHash code) rfl
    exact (congrArg (s.wrong id + ·) hsame).ge
  | lost hi => exact (congrArg (s.wrong id + ·) (comparisons_other hi rfl rfl)).ge
  | counted hi => exact (congrArg (s.wrong id + ·) (comparisons_other hi rfl rfl)).ge
  | markFailed hi => exact (congrArg (s.wrong id + ·) (comparisons_other hi rfl rfl)).ge
  | marked hi => exact (congrArg (s.wrong id + ·) (comparisons_other hi rfl rfl)).ge
  | slept seconds => exact le_rfl

/-- The row, the failures on their way and the comparisons under way stay within the limit. -/
structure Guessing.Bounded (id : UserId) (s : Guessing Hash) : Prop extends s.Counted id where
  le_max : s.wrong id + s.comparisons id ≤ maxVerificationAttempts

/-- **A step in time keeps the bound.** -/
theorem Guessing.Bounded.step {a : GuessAction} (h : s.Bounded id) (htime : InTime svc id s a)
    (hstep : s.step svc a = some s') : s'.Bounded id := by
  have hmoved := Guessing.moved hstep
  have hkept : ∀ i, a = .increment i true → s.attempts[i]? ≠ some (.failing id) := by
    rintro i rfl hi
    cases htime hi
  refine ⟨h.toCounted.step hmoved hkept, ?_⟩
  have hcases : s'.wrong id + s'.comparisons id ≤ s.wrong id + s.comparisons id ∨ _ :=
    Guessing.comparisons_step hmoved
  rcases hcases with hle | ⟨email, code, fails, rfl, hpasses, hmore⟩
  · exact hle.trans h.le_max
  · obtain ⟨u, hread, hu, huid, hunverified, -⟩ := comparesFor_enter hpasses
    have hroom := htime hpasses u hread
    have hcounted := h.counted u hu huid hunverified
    omega

/-- Over a run of wrong codes no comparison gets lost. -/
theorem Guessing.comparisons_le_run {actions : List GuessAction}
    (honly : Meets (Guessing.step svc) (OnlyWrong svc id) s actions)
    (hrun : exec (Guessing.step svc) s actions = some s') :
    s.wrong id + s.comparisons id ≤ s'.wrong id + s'.comparisons id := by
  induction actions generalizing s with
  | nil =>
    cases hrun
    exact le_rfl
  | cons a actions ih =>
    obtain ⟨t, ht, hrest⟩ := exec_cons.mp hrun
    obtain ⟨hone, hlater⟩ := honly t ht
    exact (Guessing.comparisons_le (Guessing.moved ht) hone).trans (ih hlater hrest)

/-- **Every call was in time**, if in the end the bound holds and no wrong code is left to be
compared. -/
theorem Guessing.Counted.inTime {actions : List GuessAction} (h : s.Counted id)
    (honly : Meets (Guessing.step svc) (OnlyWrong svc id) s actions)
    (hrun : exec (Guessing.step svc) s actions = some s') (hdone : s'.comparisons id = 0)
    (hbound : s'.wrong id ≤ maxVerificationAttempts) :
    Meets (Guessing.step svc) (InTime svc id) s actions := by
  induction actions generalizing s with
  | nil => trivial
  | cons a actions ih =>
    obtain ⟨t, ht, hrest⟩ := exec_cons.mp hrun
    obtain ⟨hone, hlater⟩ := honly t ht
    have hmoved := Guessing.moved ht
    have hkept : ∀ i, a = .increment i true → s.attempts[i]? ≠ some (.failing id) := by
      rintro i rfl hi
      cases hone hi
    intro t' ht'
    obtain rfl : t = t' := Option.some.inj (ht.symm.trans ht')
    refine ⟨?_, ih (h.step hmoved hkept) hlater hrest⟩
    cases a with
    | enter email code fails =>
      intro hpasses u hread
      -- what the calls have compared, and have yet to compare, only grows
      have hgrows := Guessing.comparisons_le_run hlater hrest
      obtain ⟨v, hread', hv, hvid, hunverified, -⟩ := comparesFor_enter hpasses
      obtain rfl : v = u := Option.some.inj (hread'.symm.trans hread)
      have hcounted := h.counted v hv hvid hunverified
      have hone := countP_concat s.attempts (s.enter svc email code fails)
        (Attempt.comparesFor id)
      rw [if_pos hpasses] at hone
      cases ht
      change s.wrong id + List.countP _ _ ≤ _ at hgrows
      unfold Guessing.comparisons at hdone ⊢
      unfold Guessing.comparisons at hgrows
      dsimp only at hgrows
      omega
    | compare i fails => trivial
    | increment i fails => exact hone
    | mark i fails => trivial
    | sleep seconds => trivial

end Steps

/-! ## Every run -/

/-- **Wrong codes that are compared.**  From an issued code on, calls that take turns pass their
checks in time.  A run in which every call passes its checks in time, and no failure is lost,
compares at most `maxVerificationAttempts` wrong codes with its hash.  And if nothing but wrong
codes is tried and all are compared in the end, no other run does. -/
theorem guesses_bounded (svc : Service Hash) (id : UserId) (users : Users Hash) (now : Time)
    (hissued : ∀ u ∈ users, u.id = id → u.verificationAttempts = 0) (actions : List GuessAction)
    (s' : Guessing Hash) (hrun : exec (Guessing.step svc) { users, now } actions = some s') :
    (Meets (Guessing.step svc) (InTurn svc id) { users, now } actions →
      Meets (Guessing.step svc) (InTime svc id) { users, now } actions) ∧
    (Meets (Guessing.step svc) (InTime svc id) { users, now } actions →
      s'.wrong id ≤ maxVerificationAttempts) ∧
    (Meets (Guessing.step svc) (OnlyWrong svc id) { users, now } actions →
      s'.comparisons id = 0 →
      (s'.wrong id ≤ maxVerificationAttempts ↔
        Meets (Guessing.step svc) (InTime svc id) { users, now } actions)) := by
  have hcounted : Guessing.Counted id { users, now } :=
    ⟨fun u hu huid _ => (hissued u hu huid).symm⟩
  have hbounded : Guessing.Bounded id { users, now } := ⟨hcounted, Nat.zero_le _⟩
  have hsafe : Meets (Guessing.step svc) (InTime svc id) { users, now } actions →
      s'.wrong id ≤ maxVerificationAttempts := by
    intro htime
    have hend : s'.Bounded id :=
      invariant (Guessing.Bounded id) (fun s a t h hcond hstep => h.step hcond hstep)
        hbounded htime hrun
    exact (Nat.le_add_right _ _).trans hend.le_max
  exact ⟨meets_mono fun _ _ => InTurn.inTime, hsafe,
    fun honly hdone => ⟨hcounted.inTime honly hrun hdone, hsafe⟩⟩

/-- An account that waits for the code `"123456"`. -/
def waitingAccount : Users (ℕ × String) :=
  [{ id := 0
     email := "ann@example.com"
     passwordHash := some (1, "a-long-password")
     displayName := "Ann"
     emailVerified := false
     verificationCodeHash := some (2, "123456")
     verificationExpiresAt := some verificationCodeTTL }]

/-- One wrong code after the other. -/
def guessInTurn : List GuessAction :=
  (List.range 6).flatMap fun i =>
    [.enter "ann@example.com" "000000" false] ++
      (if i < 5 then [.compare i false, .increment i false] else [])

/-- Six wrong codes one after the other: the last one is not compared. -/
theorem guesses_bounded_inTurn :
    ∃ s', exec (Guessing.step plainService) { users := waitingAccount, now := 0 } guessInTurn
        = some s' ∧
      s'.wrong 0 = 5 ∧ s'.wrong 0 ≤ maxVerificationAttempts ∧
      (Meets (Guessing.step plainService) (OnlyWrong plainService 0)
          { users := waitingAccount, now := 0 } guessInTurn → s'.comparisons 0 = 0 →
        (s'.wrong 0 ≤ maxVerificationAttempts ↔
          Meets (Guessing.step plainService) (InTime plainService 0)
            { users := waitingAccount, now := 0 } guessInTurn)) := by
  have hissued : ∀ u ∈ waitingAccount, u.id = 0 → u.verificationAttempts = 0 := by decide
  have hturn : Meets (Guessing.step plainService) (InTurn plainService 0)
      { users := waitingAccount, now := 0 } guessInTurn := by
    decide +kernel
  have hwrong : (exec (Guessing.step plainService) { users := waitingAccount, now := 0 }
      guessInTurn).map (fun s => s.wrong 0) = some 5 := by
    decide +kernel
  obtain ⟨s', hs', hfive⟩ := Option.map_eq_some_iff.mp hwrong
  obtain ⟨hinTime, hbound, honly⟩ := guesses_bounded plainService 0 _ 0 hissued _ _ hs'
  exact ⟨s', hs', hfive, hbound (hinTime hturn), honly⟩

/-- Six calls that read the row before any of them counts its failure. -/
def guessAtOnce : List GuessAction :=
  (List.range 6).map (fun _ => .enter "ann@example.com" "000000" false) ++
    (List.range 6).map fun i => .compare i false

/-- All six compare their code. -/
theorem not_forall_guesses_bounded :
    ¬ ∀ (svc : Service (ℕ × String)) (id : UserId) (users : Users (ℕ × String)) (now : Time),
      (∀ u ∈ users, u.id = id → u.verificationAttempts = 0) →
      ∀ (actions : List GuessAction) (s' : Guessing (ℕ × String)),
        exec (Guessing.step svc) { users, now } actions = some s' →
        s'.wrong id ≤ maxVerificationAttempts := by
  intro h
  have hissued : ∀ u ∈ waitingAccount, u.id = 0 → u.verificationAttempts = 0 := by decide
  have hwrong : (exec (Guessing.step plainService) { users := waitingAccount, now := 0 }
      guessAtOnce).map (fun s => s.wrong 0) = some 6 := by
    decide +kernel
  obtain ⟨s', hs', hsix⟩ := Option.map_eq_some_iff.mp hwrong
  have hbound := h plainService 0 _ 0 hissued _ _ hs'
  rw [hsix] at hbound
  revert hbound
  decide

end VocalCoach.Accounts
