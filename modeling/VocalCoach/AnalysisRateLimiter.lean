/-
# The analysis rate limiter

`Allow` command by command: a call reads the clock, trims the user's sorted set, counts it,
and then reads its oldest record or adds its own.  Between any two of these other calls may
run, and the key may expire.

A call that finds room is right about it when the set still counts every call that was allowed
less than a window before, and when the calls that are about to be recorded leave room too
(`Intact`).  Where all are, no window holds more allowed calls than the limit, and whoever waits
for `retryAfter` after a denial is not denied again unless another call was allowed
(`allow_slidingWindow`).  Calls of one user that do not overlap, none of which outlives the
key, are right (`sequential_intact`).
-/
import VocalCoach.Machine
import VocalCoach.SortedSets
import VocalCoach.Threads

namespace VocalCoach.AnalysisRateLimiter

open ExpiringKeys Machine Threads

abbrev UserId := ℕ

/-- A limiter: `window` is in nanoseconds, and `ttl` is the time to live, in milliseconds, that
`Expire` asks for it. -/
structure Limiter where
  limit : ℕ
  window : ℕ
  ttl : ℕ

/-- The nanoseconds of a time in milliseconds. -/
def nanos (millis : ℕ) : ℕ := millis * 1000000

/-- `now.Add(-l.window).UnixMilli()`. -/
def Limiter.cutoffMillis (l : Limiter) (now : ℕ) : ℤ := ((nanos now : ℤ) - l.window) / 1000000

/-- A score is up to the cutoff if and only if it is a window old. -/
theorem Limiter.le_cutoffMillis {l : Limiter} {score now : ℕ} :
    (score : ℤ) ≤ l.cutoffMillis now ↔ nanos score + l.window ≤ nanos now := by
  unfold Limiter.cutoffMillis
  rw [Int.le_ediv_iff_mul_le (by decide)]
  unfold nanos
  omega

/-! ## Calls under way -/

/-- The command at which a call failed. -/
inductive Failed
  | trim
  | count
  | readOldest
  | record
  deriving DecidableEq, Repr

/-- What `Allow` returns. -/
inductive Answer
  | allowed
  | denied (retryAfter : ℕ)
  | failed (error : Failed)
  deriving DecidableEq, Repr

/-- What a call does next. -/
inductive Stage
  | trimming
  | counting
  /-- It has found the limit reached, and reads the oldest record. -/
  | readingOldest
  | recording
  | returned (answer : Answer)
  deriving DecidableEq, Repr

/-- A call of `Allow`, with the time it has read, in milliseconds. -/
structure Call where
  user : UserId
  now : ℕ
  stage : Stage
  deriving DecidableEq, Repr

/-- The keys, with members `"nowMillis-uuid"`, the clock, and the calls.  The place of a call
stands for its `uuid.NewString()`. -/
structure Limiting where
  keys : Keys UserId (SortedSet (ℕ × ℕ)) := fun _ => none
  now : ℕ := 0
  calls : List Call := []

/-- `Allow` is called, goes on with its next command, or fails there; or time passes. -/
inductive Action
  | call (user : UserId)
  | proceed (i : ℕ)
  | fail (i : ℕ)
  | sleep (millis : ℕ)
  deriving DecidableEq, Repr

namespace Limiting

variable (l : Limiter) (s : Limiting)

/-- The sorted set of a user. -/
def records (user : UserId) : SortedSet (ℕ × ℕ) := s.keys.sorted s.now user

/-- A call goes on to its next stage. -/
def turn (i : ℕ) (c : Call) (stage : Stage) : Limiting :=
  { s with calls := s.calls.set i { c with stage } }

/-- `ZRemRangeByScore(key, "0", cutoffMillis)`. -/
def trim (i : ℕ) (c : Call) : Limiting :=
  { s.turn i c .counting with
    keys := s.keys.zremrangebyscore c.user 0 (l.cutoffMillis c.now) }

/-- `ZCard(key)`. -/
def count (i : ℕ) (c : Call) : Limiting :=
  if (s.records c.user).length ≥ l.limit then s.turn i c .readingOldest
  else s.turn i c .recording

/-- How long until the oldest record ages out. -/
def retryAfter (user : UserId) : ℕ :=
  match (s.records user).lowest with
  | some score => nanos score + l.window - nanos s.now
  | none => 0

/-- `ZRangeWithScores(key, 0, 0)`. -/
def readOldest (i : ℕ) (c : Call) : Limiting :=
  s.turn i c (.returned (.denied (s.retryAfter l c.user)))

/-- `ZAdd` and `Expire` in one transaction. -/
def record (i : ℕ) (c : Call) : Limiting :=
  { s.turn i c (.returned .allowed) with
    keys := s.keys.zadd s.now c.user (c.now, i) c.now (s.now + l.ttl) }

/-- The next command of a call. -/
def proceed (i : ℕ) (c : Call) : Option Limiting :=
  match c.stage with
  | .trimming => some (s.trim l i c)
  | .counting => some (s.count l i c)
  | .readingOldest => some (s.readOldest l i c)
  | .recording => some (s.record l i c)
  | .returned _ => none

/-- The next command of a call fails. -/
def fail (i : ℕ) (c : Call) : Option Limiting :=
  match c.stage with
  | .trimming => some (s.turn i c (.returned (.failed .trim)))
  | .counting => some (s.turn i c (.returned (.failed .count)))
  | .readingOldest => some (s.turn i c (.returned (.failed .readOldest)))
  | .recording => some (s.turn i c (.returned (.failed .record)))
  | .returned _ => none

def step : Action → Option Limiting
  | .call user => some { s with calls := s.calls ++ [{ user, now := s.now, stage := .trimming }] }
  | .proceed i => s.calls[i]?.bind (s.proceed l i)
  | .fail i => s.calls[i]?.bind (s.fail i)
  | .sleep millis => some { s with now := s.now + millis }

end Limiting

/-! ## Allowed calls -/

/-- The call of a user has found room, and is to be recorded. -/
def Call.isRecording (user : UserId) (c : Call) : Bool := c.user = user ∧ c.stage = .recording

def Call.isAllowed (user : UserId) (c : Call) : Bool := c.user = user ∧ c.stage = .returned .allowed

/-- An allowed call in the half-open interval of a window from `x` on. -/
def Call.allowedIn (l : Limiter) (user : UserId) (x : ℕ) (c : Call) : Bool :=
  c.isAllowed user ∧ x ≤ nanos c.now ∧ nanos c.now < x + l.window

/-- An allowed call that is less than a window before another one, or after it. -/
def Call.allowedSince (l : Limiter) (c c' : Call) : Bool :=
  c'.isAllowed c.user ∧ nanos c.now < nanos c'.now + l.window

/-- The call finds room in the set. -/
def Limiting.FindsRoom (l : Limiter) (s : Limiting) (c : Call) : Prop :=
  c.stage = .counting ∧ (s.records c.user).length < l.limit

/-- A call that finds room finds all that is or will be recorded: the set counts the calls
that were allowed less than a window before, and with those that are about to be recorded it
stays below the limit. -/
def Intact (l : Limiter) (s : Limiting) : Action → Prop
  | .proceed i => ∀ c ∈ s.calls[i]?, s.FindsRoom l c →
      s.calls.countP (Call.allowedSince l c) ≤ (s.records c.user).length ∧
        (s.records c.user).length + s.calls.countP (Call.isRecording c.user) < l.limit
  | _ => True

instance (l : Limiter) (s : Limiting) (c : Call) : Decidable (s.FindsRoom l c) :=
  inferInstanceAs (Decidable (_ ∧ _))

instance (l : Limiter) (s : Limiting) : DecidablePred (Intact l s)
  | .call _ => isTrue trivial
  | .proceed i => inferInstanceAs (Decidable (∀ c ∈ s.calls[i]?, _))
  | .fail _ => isTrue trivial
  | .sleep _ => isTrue trivial

/-! ## One step -/

/-- What one step does. -/
inductive Limiting.Moved (l : Limiter) (s : Limiting) : Action → Limiting → Prop
  | called (user : UserId) :
      Moved l s (.call user)
        { s with calls := s.calls ++ [{ user, now := s.now, stage := .trimming }] }
  | trimmed {i : ℕ} {c : Call} (h : s.calls[i]? = some c) (hstage : c.stage = .trimming) :
      Moved l s (.proceed i) (s.trim l i c)
  | full {i : ℕ} {c : Call} (h : s.calls[i]? = some c) (hstage : c.stage = .counting)
      (hfull : l.limit ≤ (s.records c.user).length) :
      Moved l s (.proceed i) (s.turn i c .readingOldest)
  | room {i : ℕ} {c : Call} (h : s.calls[i]? = some c) (hroom : s.FindsRoom l c) :
      Moved l s (.proceed i) (s.turn i c .recording)
  | denied {i : ℕ} {c : Call} (h : s.calls[i]? = some c) (hstage : c.stage = .readingOldest) :
      Moved l s (.proceed i) (s.readOldest l i c)
  | recorded {i : ℕ} {c : Call} (h : s.calls[i]? = some c) (hstage : c.stage = .recording) :
      Moved l s (.proceed i) (s.record l i c)
  | failed {i : ℕ} {c : Call} (h : s.calls[i]? = some c) (hactive : ∀ a, c.stage ≠ .returned a)
      (error : Failed) :
      Moved l s (.fail i) (s.turn i c (.returned (.failed error)))
  | slept (millis : ℕ) : Moved l s (.sleep millis) { s with now := s.now + millis }

section Steps

variable {l : Limiter} {s s' : Limiting} {a : Action} {i : ℕ} {c : Call} {user : UserId}

theorem Limiting.moved (h : s.step l a = some s') : s.Moved l a s' := by
  cases a with
  | call user =>
    cases h
    exact .called user
  | proceed i =>
    obtain ⟨c, hc, hnext⟩ := Option.bind_eq_some_iff.mp h
    unfold proceed at hnext
    split at hnext
    next hstage =>
      cases hnext
      exact .trimmed hc hstage
    next hstage =>
      cases hnext
      unfold count
      split_ifs with hfull
      · exact .full hc hstage hfull
      · exact .room hc ⟨hstage, Nat.lt_of_not_le hfull⟩
    next hstage =>
      cases hnext
      exact .denied hc hstage
    next hstage =>
      cases hnext
      exact .recorded hc hstage
    next => cases hnext
  | fail i =>
    obtain ⟨c, hc, hnext⟩ := Option.bind_eq_some_iff.mp h
    unfold fail at hnext
    split at hnext
    all_goals cases hnext
    all_goals exact .failed hc (fun a ha => by simp_all) _
  | sleep millis =>
    cases h
    exact .slept millis

/-- A call that has found room, and is recorded or to be, in the interval of a window. -/
def Call.admittedIn (l : Limiter) (user : UserId) (x : ℕ) (c : Call) : Bool :=
  (c.isRecording user ∨ c.isAllowed user) ∧ x ≤ nanos c.now ∧ nanos c.now < x + l.window

/-- What the commands keep. -/
structure Limiting.Bounded (l : Limiter) (s : Limiting) : Prop where
  admitted_le : ∀ user x, s.calls.countP (Call.admittedIn l user x) ≤ l.limit
  records_le : ∀ user,
    (s.records user).length + s.calls.countP (Call.isRecording user) ≤ l.limit

/-- Allowed calls in the window of a call that finds room are less than a window before it or
after it. -/
theorem admittedIn_imp {x : ℕ} (hx : nanos c.now < x + l.window) (c' : Call)
    (h : c'.admittedIn l c.user x = true) :
    c'.isRecording c.user = true ∨ Call.allowedSince l c c' = true := by
  unfold Call.admittedIn at h
  obtain ⟨hor, hlow, -⟩ := of_decide_eq_true h
  refine hor.imp_right fun hallowed => ?_
  unfold Call.allowedSince
  exact decide_eq_true ⟨hallowed, by omega⟩

theorem isRecording_of_ne {stage : Stage} (h : c.stage = stage) (hne : stage ≠ .recording) :
    c.isRecording user = false := by
  unfold Call.isRecording
  rw [h]
  exact decide_eq_false fun hand => hne hand.2

theorem isAllowed_of_ne {stage : Stage} (h : c.stage = stage) (hne : stage ≠ .returned .allowed) :
    c.isAllowed user = false := by
  unfold Call.isAllowed
  rw [h]
  exact decide_eq_false fun hand => hne hand.2

theorem admittedIn_of_ne {x : ℕ} {stage : Stage} (h : c.stage = stage)
    (hrecording : stage ≠ .recording) (hallowed : stage ≠ .returned .allowed) :
    c.admittedIn l user x = false := by
  unfold Call.admittedIn
  rw [isRecording_of_ne h hrecording, isAllowed_of_ne h hallowed]
  exact decide_eq_false (by simp)

/-- A step that finds no room and adds no record. -/
theorem Limiting.Bounded.turn {stage : Stage} (h : s.Bounded l) (hi : s.calls[i]? = some c)
    (hcalls : s'.calls = (s.turn i c stage).calls)
    (hrecords : ∀ user, (s'.records user).length ≤ (s.records user).length)
    (hrecording : stage ≠ .recording) (hallowed : stage ≠ .returned .allowed) :
    s'.Bounded l := by
  constructor
  · intro user x
    rw [hcalls]
    refine (countP_set_le hi fun hd => ?_).trans (h.admitted_le user x)
    rw [admittedIn_of_ne rfl hrecording hallowed] at hd
    cases hd
  · intro user
    rw [hcalls]
    have hturn : (s.turn i c stage).calls.countP (Call.isRecording user)
        ≤ s.calls.countP (Call.isRecording user) := by
      refine countP_set_le hi fun hd => ?_
      rw [isRecording_of_ne rfl hrecording] at hd
      cases hd
    have hbefore := h.records_le user
    have hless := hrecords user
    omega

/-- **A call that finds room** has it among the calls of its window. -/
theorem Limiting.Bounded.room (h : s.Bounded l) (hi : s.calls[i]? = some c)
    (hroom : s.FindsRoom l c)
    (hkept : s.calls.countP (Call.allowedSince l c) ≤ (s.records c.user).length)
    (hleft : (s.records c.user).length + s.calls.countP (Call.isRecording c.user) < l.limit) :
    (s.turn i c .recording).Bounded l := by
  constructor
  · intro user x
    have hc : c.admittedIn l user x = false := admittedIn_of_ne hroom.1 (by decide) (by decide)
    by_cases hd : Call.admittedIn l user x { c with stage := .recording } = true
    · -- the others in the window are on their way to the set, or the set counts them
      obtain ⟨hor, -, hhigh⟩ := of_decide_eq_true hd
      have huser : c.user = user := by
        rcases hor with hor | hor
        · exact (of_decide_eq_true hor).1
        · cases (of_decide_eq_true hor).2
      subst huser
      have hothers := countP_le_add s.calls fun c' _ => @admittedIn_imp l c x hhigh c'
      have hjoins := countP_set_joins hi hc hd
      show (s.calls.set i { c with stage := .recording }).countP _ ≤ _
      omega
    · exact (countP_set_le hi fun h => absurd h hd).trans (h.admitted_le user x)
  · intro user
    have hc : c.isRecording user = false := isRecording_of_ne hroom.1 (by decide)
    show (s.records user).length + (s.calls.set i { c with stage := .recording }).countP _ ≤ _
    by_cases huser : c.user = user
    · subst huser
      rw [countP_set_joins hi hc (by simp [Call.isRecording])]
      omega
    · rw [countP_set_of_eq hi (by simp [Call.isRecording, huser])]
      exact h.records_le user

/-- **A call that is recorded** was counted as one to be. -/
theorem Limiting.Bounded.record (h : s.Bounded l) (hi : s.calls[i]? = some c)
    (hstage : c.stage = .recording) : (s.record l i c).Bounded l := by
  constructor
  · -- it was admitted when it found room
    intro user x
    refine (countP_set_le hi fun hd => ?_).trans (h.admitted_le user x)
    have hand := of_decide_eq_true hd
    refine decide_eq_true ⟨Or.inl ?_, hand.2⟩
    rcases hand.1 with hor | hor
    · cases (of_decide_eq_true hor).2
    · exact decide_eq_true ⟨(of_decide_eq_true hor).1, hstage⟩
  · intro user
    have hbefore := h.records_le user
    have hd : Call.isRecording user { c with stage := .returned .allowed } = false :=
      isRecording_of_ne rfl (by simp)
    show ((s.keys.zadd s.now c.user (c.now, i) c.now (s.now + l.ttl)).sorted s.now user).length +
      (s.calls.set i { c with stage := .returned .allowed }).countP _ ≤ _
    unfold Limiting.records at hbefore
    by_cases huser : c.user = user
    · -- one record more at most, and one call less that is to be recorded
      subst huser
      have hone := Keys.length_sorted_zadd_le s.keys s.now c.user (c.now, i) c.now (s.now + l.ttl)
      have hleaves := countP_set_leaves hi (by simp [Call.isRecording, hstage]) hd
      omega
    · rw [Keys.sorted_zadd_of_ne (Ne.symm huser),
        countP_set_of_eq hi (by simp [Call.isRecording, huser])]
      exact hbefore

/-- **A step with an intact set keeps the bound.** -/
theorem Limiting.Bounded.step (h : s.Bounded l) (hintact : Intact l s a)
    (hstep : s.step l a = some s') : s'.Bounded l := by
  cases Limiting.moved hstep with
  | called user =>
    constructor
    · intro user' x
      rw [countP_concat, admittedIn_of_ne rfl (by simp) (by simp)]
      exact h.admitted_le user' x
    · intro user'
      rw [countP_concat, isRecording_of_ne rfl (by simp)]
      exact h.records_le user'
  | trimmed hi hstage =>
    refine h.turn hi rfl (fun user => ?_) (by decide) (by decide)
    exact (Keys.sorted_zremrangebyscore_sublist ..).length_le
  | full hi hstage hfull => exact h.turn hi rfl (fun _ => le_rfl) (by decide) (by decide)
  | room hi hroom => exact h.room hi hroom (hintact _ hi hroom).1 (hintact _ hi hroom).2
  | denied hi hstage => exact h.turn hi rfl (fun _ => le_rfl) (by nofun) (by nofun)
  | recorded hi hstage => exact h.record hi hstage
  | failed hi hactive error => exact h.turn hi rfl (fun _ => le_rfl) (by nofun) (by nofun)
  | slept millis =>
    refine ⟨h.admitted_le, fun user => ?_⟩
    have hless := (Keys.sorted_sublist (m := s.keys) (Nat.le_add_right s.now millis) user).length_le
    have hbefore := h.records_le user
    unfold Limiting.records at hbefore ⊢
    dsimp only
    omega

/-! ## After a denial -/

/-- A call that is not over is not allowed yet. -/
theorem isAllowed_of_active (h : ∀ a, c.stage ≠ .returned a) : c.isAllowed user = false := by
  unfold Call.isAllowed
  exact decide_eq_false fun hand => h .allowed hand.2

/-- Allowed calls stay allowed. -/
theorem Limiting.allowed_le (user : UserId) (hmoved : s.Moved l a s') :
    s.calls.countP (Call.isAllowed user) ≤ s'.calls.countP (Call.isAllowed user) := by
  have hturn : ∀ {i : ℕ} {c d : Call}, s.calls[i]? = some c → (∀ a, c.stage ≠ .returned a) →
      s.calls.countP (Call.isAllowed user) ≤ (s.calls.set i d).countP (Call.isAllowed user) := by
    intro i c d hi hactive
    refine le_countP_set hi fun hc => ?_
    rw [isAllowed_of_active hactive] at hc
    cases hc
  cases hmoved with
  | called user' =>
    rw [countP_concat]
    exact Nat.le_add_right _ _
  | trimmed hi hstage => exact hturn hi (by simp [hstage])
  | full hi hstage hfull => exact hturn hi (by simp [hstage])
  | room hi hroom => exact hturn hi (by simp [hroom.1])
  | denied hi hstage => exact hturn hi (by simp [hstage])
  | recorded hi hstage => exact hturn hi (by simp [hstage])
  | failed hi hactive error => exact hturn hi hactive
  | slept millis => exact le_rfl

/-- A user has waited since `t`: the set has lost records only, and calls that read the clock
after the deadline find room. -/
structure Limiting.Waited (l : Limiter) (t : Limiting) (user : UserId) (deadline : ℕ)
    (s : Limiting) : Prop where
  records_sublist : (s.records user).Sublist (t.records user)
  late : ∀ (i : ℕ) (c : Call), t.calls.length ≤ i → s.calls[i]? = some c → c.user = user →
    deadline ≤ nanos c.now →
    (c.stage = .counting → (s.records user).length < l.limit) ∧ c.stage ≠ .readingOldest ∧
      ∀ r, c.stage ≠ .returned (.denied r)

/-- **The oldest record goes** when a call trims the set after the deadline. -/
theorem length_trim_lt {t : Limiting} {deadline now : ℕ} (hbound : t.Bounded l)
    (hlimit : 0 < l.limit)
    (hold : ∀ score ∈ (t.records user).lowest, nanos score + l.window ≤ deadline)
    (hlate : deadline ≤ nanos now) (hsub : (s.records user).Sublist (t.records user)) :
    ((s.records user).zremrangebyscore 0 (l.cutoffMillis now)).length < l.limit := by
  have hle : (t.records user).length ≤ l.limit :=
    (Nat.le_add_right _ _).trans (hbound.records_le user)
  have htrim : ((s.records user).zremrangebyscore 0 (l.cutoffMillis now)).Sublist
      (t.records user) :=
    List.filter_sublist.trans hsub
  cases hlowest : (t.records user).lowest with
  | none =>
    rw [SortedSet.lowest_eq_none.mp hlowest] at htrim
    rw [List.sublist_nil.mp htrim]
    exact hlimit
  | some score =>
    obtain ⟨m, hm, rfl⟩ := SortedSet.exists_of_lowest hlowest
    refine lt_of_lt_of_le (lt_of_le_of_ne htrim.length_le fun hlength => ?_) hle
    have hmem : m ∈ (s.records user).zremrangebyscore 0 (l.cutoffMillis now) := by
      rw [htrim.eq_of_length hlength]
      exact hm
    have hkept := of_decide_eq_true (List.mem_filter.mp hmem).2
    have hscore : (m.2 : ℤ) ≤ l.cutoffMillis now :=
      Limiter.le_cutoffMillis.mpr ((hold m.2 hlowest).trans hlate)
    exact hkept ⟨Int.natCast_nonneg _, hscore⟩

/-- A step of another call, or one of the user's own that cannot be denied. -/
theorem Limiting.Waited.turn {t : Limiting} {deadline : ℕ} {stage : Stage}
    (h : Limiting.Waited l t user deadline s)
    (hcalls : s'.calls = (s.turn i c stage).calls)
    (hrecords : (s'.records user).Sublist (s.records user))
    (hstage : t.calls.length ≤ i → c.user = user → deadline ≤ nanos c.now →
      (stage = .counting → (s'.records user).length < l.limit) ∧ stage ≠ .readingOldest ∧
        ∀ r, stage ≠ .returned (.denied r)) :
    Limiting.Waited l t user deadline s' := by
  refine ⟨hrecords.trans h.records_sublist, fun j d hj hd huser hlate => ?_⟩
  rw [hcalls] at hd
  rcases getElem?_set_cases hd with ⟨rfl, rfl⟩ | ⟨-, hbefore⟩
  · exact hstage hj huser hlate
  · obtain ⟨hcounting, hrest⟩ := h.late j d hj hbefore huser hlate
    exact ⟨fun hd => hrecords.length_le.trans_lt (hcounting hd), hrest⟩

/-- **A step keeps the user waiting**, unless it allows a call. -/
theorem Limiting.Waited.step {t : Limiting} {deadline : ℕ}
    (h : Limiting.Waited l t user deadline s) (hbound : t.Bounded l) (hlimit : 0 < l.limit)
    (hold : ∀ score ∈ (t.records user).lowest, nanos score + l.window ≤ deadline)
    (hmoved : s.Moved l a s')
    (hnone : s'.calls.countP (Call.isAllowed user) ≤ s.calls.countP (Call.isAllowed user)) :
    Limiting.Waited l t user deadline s' := by
  cases hmoved with
  | called user' =>
    refine ⟨h.records_sublist, fun j d hj hd huser hlate => ?_⟩
    rcases getElem?_concat hd with hbefore | ⟨-, rfl⟩
    · exact h.late j d hj hbefore huser hlate
    · exact ⟨nofun, nofun, nofun⟩
  | @trimmed i c hi hstage =>
    refine h.turn rfl (Keys.sorted_zremrangebyscore_sublist ..) fun hj huser hlate => ?_
    subst huser
    refine ⟨fun _ => ?_, nofun, nofun⟩
    show ((s.keys.zremrangebyscore c.user 0 (l.cutoffMillis c.now)).sorted s.now c.user).length
      < l.limit
    rw [Keys.sorted_zremrangebyscore_self]
    exact length_trim_lt hbound hlimit hold hlate h.records_sublist
  | @full i c hi hstage hfull =>
    refine h.turn rfl (List.Sublist.refl _) fun hj huser hlate => ?_
    subst huser
    exact absurd ((h.late i c hj hi rfl hlate).1 hstage) (Nat.not_lt.mpr hfull)
  | room hi hroom => exact h.turn rfl (List.Sublist.refl _) fun _ _ _ => ⟨nofun, nofun, nofun⟩
  | @denied i c hi hstage =>
    refine h.turn rfl (List.Sublist.refl _) fun hj huser hlate => ?_
    exact absurd hstage (h.late i c hj hi huser hlate).2.1
  | @recorded i c hi hstage =>
    by_cases huser : c.user = user
    · have hjoins := countP_set_joins (p := Call.isAllowed user) hi
        (isAllowed_of_active (by simp [hstage]))
        (show Call.isAllowed user { c with stage := .returned .allowed } = true by
          simp [Call.isAllowed, huser])
      change (s.calls.set i { c with stage := .returned .allowed }).countP _ ≤ _ at hnone
      omega
    · refine h.turn rfl ?_ fun _ _ _ => ⟨nofun, nofun, nofun⟩
      show ((s.keys.zadd s.now c.user (c.now, i) c.now (s.now + l.ttl)).sorted s.now user).Sublist
        (s.keys.sorted s.now user)
      rw [Keys.sorted_zadd_of_ne (Ne.symm huser)]
  | failed hi hactive error =>
    exact h.turn rfl (List.Sublist.refl _) fun _ _ _ => ⟨nofun, nofun, nofun⟩
  | slept millis =>
    have hrecords := Keys.sorted_sublist (m := s.keys) (Nat.le_add_right s.now millis) user
    refine ⟨hrecords.trans h.records_sublist, fun j d hj hd huser hlate => ?_⟩
    obtain ⟨hcounting, hrest⟩ := h.late j d hj hd huser hlate
    exact ⟨fun hd => hrecords.length_le.trans_lt (hcounting hd), hrest⟩

/-- Over a run the user waits on, or a call is allowed. -/
theorem Limiting.Waited.run {t : Limiting} {deadline : ℕ} {actions : List Action}
    (h : Limiting.Waited l t user deadline s) (hbound : t.Bounded l) (hlimit : 0 < l.limit)
    (hold : ∀ score ∈ (t.records user).lowest, nanos score + l.window ≤ deadline)
    (hrun : exec (Limiting.step l) s actions = some s') :
    s.calls.countP (Call.isAllowed user) < s'.calls.countP (Call.isAllowed user) ∨
      Limiting.Waited l t user deadline s' := by
  induction actions generalizing s with
  | nil =>
    cases hrun
    exact Or.inr h
  | cons a actions ih =>
    obtain ⟨u, hu, hrest⟩ := exec_cons.mp hrun
    have hmoved := Limiting.moved hu
    have hlater : u.calls.countP (Call.isAllowed user) ≤ s'.calls.countP (Call.isAllowed user) :=
      invariant_all
        (fun v => u.calls.countP (Call.isAllowed user) ≤ v.calls.countP (Call.isAllowed user))
        (fun v b w hle hw => hle.trans (Limiting.allowed_le user (Limiting.moved hw))) le_rfl hrest
    by_cases hmore : s.calls.countP (Call.isAllowed user) < u.calls.countP (Call.isAllowed user)
    · exact Or.inl (hmore.trans_le hlater)
    · have hnone := Nat.le_of_not_lt hmore
      have hsame := le_antisymm hnone (Limiting.allowed_le user hmoved)
      rw [← hsame]
      exact ih (h.step hbound hlimit hold hmoved hnone) hrest

/-- A denial starts the wait: its deadline is when the oldest record ages out. -/
theorem Limiting.waited_of_denied {d : Call} {r : ℕ} (hi : s.calls[i]? = some c)
    (hstep : s.step l (.proceed i) = some s') (hd : s'.calls[i]? = some d)
    (hr : d.stage = .returned (.denied r)) :
    c.stage = .readingOldest ∧ Limiting.Waited l s' d.user (nanos s'.now + r) s' ∧
      ∀ score ∈ (s'.records d.user).lowest, nanos score + l.window ≤ nanos s'.now + r := by
  have hself : ∀ {e : Call}, (s.calls.set i e)[i]? = some e := fun {e} =>
    List.getElem?_set_self (List.getElem?_eq_some_iff.mp hi).1
  have hwait : Limiting.Waited l s' d.user (nanos s'.now + r) s' := by
    refine ⟨List.Sublist.refl _, fun j e hj he => ?_⟩
    exact absurd (List.getElem?_eq_some_iff.mp he).1 (Nat.not_lt.mpr hj)
  suffices hread : c.stage = .readingOldest ∧
      ∀ score ∈ (s'.records d.user).lowest, nanos score + l.window ≤ nanos s'.now + r from
    ⟨hread.1, hwait, hread.2⟩
  cases Limiting.moved hstep with
  | trimmed hi' hstage =>
    cases hself.symm.trans hd
    cases hr
  | full hi' hstage hfull =>
    cases hself.symm.trans hd
    cases hr
  | room hi' hroom =>
    cases hself.symm.trans hd
    cases hr
  | @denied i c' hi' hstage =>
    cases hself.symm.trans hd
    cases hr
    obtain rfl : c' = c := Option.some.inj (hi'.symm.trans hi)
    refine ⟨hstage, fun score hscore => ?_⟩
    show nanos score + l.window ≤ nanos s.now + s.retryAfter l c'.user
    have hread : (s.records c'.user).lowest = some score := hscore
    unfold Limiting.retryAfter
    rw [hread]
    dsimp only
    omega
  | recorded hi' hstage =>
    cases hself.symm.trans hd
    cases hr

end Steps

/-! ## Calls one after the other -/

/-- The call is under way. -/
def Call.active (c : Call) : Bool := match c.stage with
  | .returned _ => false
  | _ => true

/-- A user's calls do not overlap, and none of them outlives the key: it runs while the key is
there, or what the key held was a window old. -/
def Limiting.Sequential (l : Limiter) (s : Limiting) : Action → Prop
  | .call user => ∀ c ∈ s.calls, c.user = user → c.active = false
  | .proceed i => ∀ c ∈ s.calls[i]?, ∀ t ∈ s.keys c.user, t.expiresAt ≤ s.now →
      ∀ m ∈ t.value, nanos m.2 + l.window ≤ nanos c.now
  | _ => True

/-- What calls that do not overlap keep. -/
structure Limiting.Orderly (l : Limiter) (s : Limiting) : Prop where
  alone : ∀ (i j : ℕ) (c d : Call), s.calls[i]? = some c → s.calls[j]? = some d →
    c.user = d.user → c.active = true → d.active = true → i = j
  le_now : ∀ (i : ℕ) (c : Call), s.calls[i]? = some c → c.now ≤ s.now
  latest : ∀ (i j : ℕ) (c d : Call), s.calls[i]? = some c → s.calls[j]? = some d →
    c.user = d.user → d.active = true → c.now ≤ d.now
  kept : ∀ (i : ℕ) (c : Call), s.calls[i]? = some c → c.stage = .returned .allowed →
    (∃ t, s.keys c.user = some t ∧ ((c.now, i), c.now) ∈ t.value) ∨
      ∃ (j : ℕ) (d : Call), s.calls[j]? = some d ∧ d.user = c.user ∧
        nanos c.now + l.window ≤ nanos d.now

section Sequential

variable {l : Limiter} {s s' : Limiting} {a : Action} {i : ℕ} {c : Call}

/-- A call goes on, and the keys lose nothing but what is a window old. -/
theorem Limiting.Orderly.turn {stage : Stage} (h : s.Orderly l) (hi : s.calls[i]? = some c)
    (hactive : c.active = true) (hcalls : s'.calls = (s.turn i c stage).calls)
    (hnow : s'.now = s.now)
    (hkeys : ∀ user t m, s.keys user = some t → m ∈ t.value → m.1.2 ≠ i →
      (∃ t', s'.keys user = some t' ∧ m ∈ t'.value) ∨
        (c.user = user ∧ nanos m.2 + l.window ≤ nanos c.now))
    (hnew : stage = .returned .allowed →
      ∃ t, s'.keys c.user = some t ∧ ((c.now, i), c.now) ∈ t.value) :
    s'.Orderly l := by
  -- every call was there before, and was under way if it is
  have hback : ∀ (j : ℕ) (d : Call), s'.calls[j]? = some d →
      ∃ d', s.calls[j]? = some d' ∧ d'.user = d.user ∧ d'.now = d.now ∧
        (d.active = true → d'.active = true) := by
    intro j d hd
    rw [hcalls] at hd
    rcases getElem?_set_cases hd with ⟨rfl, rfl⟩ | ⟨-, hbefore⟩
    · exact ⟨c, hi, rfl, rfl, fun _ => hactive⟩
    · exact ⟨d, hbefore, rfl, rfl, id⟩
  have hforth : ∀ (j : ℕ) (d : Call), s.calls[j]? = some d →
      ∃ d', s'.calls[j]? = some d' ∧ d'.user = d.user ∧ d'.now = d.now := by
    intro j d hd
    rw [hcalls]
    by_cases hij : i = j
    · subst hij
      obtain rfl : c = d := Option.some.inj (hi.symm.trans hd)
      exact ⟨_, List.getElem?_set_self (List.getElem?_eq_some_iff.mp hi).1, rfl, rfl⟩
    · exact ⟨d, (List.getElem?_set_ne hij).trans hd, rfl, rfl⟩
  constructor
  case alone =>
    have hset : Threads.Alone Call.active Call.user (s.turn i c stage).calls :=
      Threads.Alone.set h.alone hi rfl fun _ => hactive
    rw [hcalls]
    exact hset
  case le_now =>
    intro j d hd
    obtain ⟨d', hd', -, hdnow, -⟩ := hback j d hd
    rw [hnow, ← hdnow]
    exact h.le_now j d' hd'
  case latest =>
    intro j k d e hd he huser heactive
    obtain ⟨d', hd', hduser, hdnow, -⟩ := hback j d hd
    obtain ⟨e', he', heuser, henow, heback⟩ := hback k e he
    rw [← hdnow, ← henow]
    exact h.latest j k d' e' hd' he' (by rw [hduser, heuser, huser]) (heback heactive)
  case kept =>
    intro j d hd hallowed
    rw [hcalls] at hd
    rcases getElem?_set_cases hd with ⟨rfl, rfl⟩ | ⟨hij, hbefore⟩
    · exact Or.inl (hnew hallowed)
    · rcases h.kept j d hbefore hallowed with ⟨t, ht, hmem⟩ | ⟨k, e, he, heuser, hold⟩
      · rcases hkeys d.user t _ ht hmem (Ne.symm hij) with hstill | ⟨huser, hold⟩
        · exact Or.inl hstill
        · obtain ⟨c', hc', hcuser, hcnow⟩ := hforth i c hi
          exact Or.inr ⟨i, c', hc', hcuser.trans huser, by rw [hcnow]; exact hold⟩
      · obtain ⟨e', he', heuser', henow⟩ := hforth k e he
        exact Or.inr ⟨k, e', he', heuser'.trans heuser, by rw [henow]; exact hold⟩

theorem active_of_stage {stage : Stage} (h : c.stage = stage)
    (hne : ∀ a, stage ≠ .returned a) : c.active = true := by
  subst h
  unfold Call.active
  split
  next a ha => exact absurd ha (hne a)
  next => rfl

/-- A record that is trimmed is a window old. -/
theorem mem_zremrangebyscore {records : SortedSet (ℕ × ℕ)} {m : (ℕ × ℕ) × ℕ} {now : ℕ}
    (hm : m ∈ records) :
    m ∈ records.zremrangebyscore 0 (l.cutoffMillis now) ∨ nanos m.2 + l.window ≤ nanos now := by
  by_cases hold : nanos m.2 + l.window ≤ nanos now
  · exact Or.inr hold
  · left
    refine List.mem_filter.mpr ⟨hm, decide_eq_true fun hand => hold ?_⟩
    exact Limiter.le_cutoffMillis.mp hand.2

theorem Limiting.Orderly.step (h : s.Orderly l) (hsequential : s.Sequential l a)
    (hstep : s.step l a = some s') : s'.Orderly l := by
  have hstays : ∀ {i : ℕ} {c : Call} {stage : Stage}, s.calls[i]? = some c → c.active = true →
      stage ≠ .returned .allowed → (s.turn i c stage).Orderly l := by
    intro i c stage hi hactive hstage
    exact h.turn hi hactive rfl rfl (fun user t m ht hm _ => Or.inl ⟨t, ht, hm⟩)
      fun hallowed => absurd hallowed hstage
  cases Limiting.moved hstep with
  | called user =>
    have hnone : ∀ (i : ℕ) (c : Call), s.calls[i]? = some c → c.user = user → c.active = false :=
      fun i c hc => hsequential c (List.mem_of_getElem? hc)
    constructor
    · have hbefore : Threads.Alone Call.active Call.user s.calls := h.alone
      exact hbefore.concat fun _ => hsequential
    · intro j d hd
      rcases getElem?_concat hd with hd | ⟨rfl, rfl⟩
      · exact h.le_now j d hd
      · exact le_rfl
    · intro j k d e hd he huser heactive
      rcases getElem?_concat he with he | ⟨rfl, rfl⟩
      · rcases getElem?_concat hd with hd | ⟨rfl, rfl⟩
        · exact h.latest j k d e hd he huser heactive
        · rw [hnone k e he huser.symm] at heactive
          cases heactive
      · rcases getElem?_concat hd with hd | ⟨rfl, rfl⟩
        · exact h.le_now j d hd
        · exact le_rfl
    · intro j d hd hallowed
      rcases getElem?_concat hd with hd | ⟨rfl, rfl⟩
      · refine (h.kept j d hd hallowed).imp_right ?_
        rintro ⟨k, e, he, hrest⟩
        refine ⟨k, e, ?_, hrest⟩
        exact (List.getElem?_append_left (List.getElem?_eq_some_iff.mp he).1).trans he
      · cases hallowed
  | @trimmed i c hi hstage =>
    refine h.turn hi (active_of_stage hstage (by simp)) rfl rfl (fun user t m ht hm _ => ?_)
      (by simp)
    show (∃ t', s.keys.zremrangebyscore c.user 0 (l.cutoffMillis c.now) user = some t' ∧
      m ∈ t'.value) ∨ _
    unfold Keys.zremrangebyscore
    by_cases huser : user = c.user
    · subst huser
      rw [Function.update_self, ht]
      rcases @mem_zremrangebyscore l _ m c.now hm with hstill | hold
      · exact Or.inl ⟨_, rfl, hstill⟩
      · exact Or.inr ⟨rfl, hold⟩
    · rw [Function.update_of_ne huser]
      exact Or.inl ⟨t, ht, hm⟩
  | full hi hstage hfull => exact hstays hi (active_of_stage hstage (by simp)) (by simp)
  | room hi hroom => exact hstays hi (active_of_stage hroom.1 (by simp)) (by simp)
  | denied hi hstage => exact hstays hi (active_of_stage hstage (by simp)) (by simp)
  | @recorded i c hi hstage =>
    have hself : s.keys.zadd s.now c.user (c.now, i) c.now (s.now + l.ttl) c.user
        = some ⟨(s.keys.sorted s.now c.user).zadd (c.now, i) c.now, s.now + l.ttl⟩ :=
      Keys.set_self ..
    refine h.turn hi (active_of_stage hstage (by simp)) rfl rfl (fun user t m ht hm hne => ?_)
      fun _ => ⟨_, hself, List.mem_cons_self⟩
    by_cases huser : user = c.user
    · subst huser
      -- a key that has expired loses its records, but these were a window old
      by_cases hlive : s.now < t.expiresAt
      · left
        refine ⟨_, hself, List.mem_cons_of_mem _ (List.mem_filter.mpr ⟨?_, ?_⟩)⟩
        · rw [Keys.sorted_eq ht, if_pos hlive]
          exact hm
        · exact decide_eq_true fun heq => hne (congrArg Prod.snd heq)
      · exact Or.inr ⟨rfl, hsequential c hi t ht (Nat.le_of_not_lt hlive) m hm⟩
    · exact Or.inl ⟨t, (Keys.set_of_ne huser ..).trans ht, hm⟩
  | failed hi hactive error => exact hstays hi (active_of_stage rfl hactive) (by simp)
  | slept millis =>
    exact ⟨h.alone, fun j d hd => (h.le_now j d hd).trans (Nat.le_add_right _ _), h.latest, h.kept⟩

/-- **The set counts the calls of the window**, where calls do not overlap. -/
theorem Limiting.Orderly.intact (h : s.Orderly l) (hsequential : s.Sequential l a) :
    Intact l s a := by
  cases a with
  | proceed i =>
    intro c hi hroom
    have hactive : c.active = true := active_of_stage hroom.1 (by simp)
    have hnone : s.calls.countP (Call.isRecording c.user) = 0 := by
      rw [List.countP_eq_zero]
      intro d hd hrecording
      obtain ⟨j, hj⟩ := List.getElem?_of_mem hd
      obtain ⟨huser, hstage⟩ := of_decide_eq_true hrecording
      obtain rfl := h.alone i j c d hi hj huser.symm hactive (active_of_stage hstage (by simp))
      obtain rfl : c = d := Option.some.inj (Option.mem_def.mp hi ▸ hj)
      exact absurd (hroom.1.symm.trans hstage) (by simp)
    refine ⟨?_, by rw [hnone]; exact hroom.2⟩
    refine countP_le_length (f := fun j d => ((d.now, j), d.now)) ?_ fun j d hj hd => ?_
    · intro j k d e heq
      exact congrArg (fun m => m.1.2) heq
    · obtain ⟨hallowed, hrecent⟩ := of_decide_eq_true hd
      obtain ⟨huser, hstage⟩ := of_decide_eq_true hallowed
      rcases h.kept j d hj hstage with ⟨t, ht, hmem⟩ | ⟨k, e, he, heuser, hold⟩
      · rw [huser] at ht
        have hlive : s.now < t.expiresAt := by
          by_contra hexpired
          have hold := hsequential c hi t ht (Nat.le_of_not_lt hexpired) _ hmem
          dsimp only at hold
          omega
        unfold Limiting.records
        rw [Keys.sorted_eq ht, if_pos hlive]
        exact hmem
      · have hlatest := h.latest k i e c he hi (heuser.trans huser) hactive
        unfold nanos at hold hrecent
        omega
  | call user => trivial
  | fail i => trivial
  | sleep millis => trivial

end Sequential

/-- **Calls one after the other find an intact set**, if none of them outlives the key. -/
theorem sequential_intact (l : Limiter) (actions : List Action)
    (h : Meets (Limiting.step l) (Limiting.Sequential l) {} actions) :
    Meets (Limiting.step l) (Intact l) {} actions := by
  have hinit : Limiting.Orderly l {} := by
    constructor
    · intro i j c d hc
      cases hc
    · intro i c hc
      cases hc
    · intro i j c d hc
      cases hc
    · intro i c hc
      cases hc
  exact meets_of_invariant (Limiting.Orderly l) (fun s a t hs hcond ht => hs.step hcond ht)
    (fun s a _ hs hcond _ => hs.intact hcond) hinit h

/-! ## Every run -/

/-- **The sliding window.**  Calls of a user that do not overlap, none of which outlives the key,
find an intact set.  Where every call that finds room finds an intact set, every half-open interval
of a window holds at most `limit` allowed calls; and a call made `retryAfter` or more after a
denial is not denied, unless a call of the user was allowed since. -/
theorem allow_slidingWindow (l : Limiter) (actions : List Action) (s : Limiting)
    (hrun : exec (Limiting.step l) {} actions = some s) :
    (Meets (Limiting.step l) (Limiting.Sequential l) {} actions →
      Meets (Limiting.step l) (Intact l) {} actions) ∧
    (Meets (Limiting.step l) (Intact l) {} actions →
      (∀ user x, s.calls.countP (Call.allowedIn l user x) ≤ l.limit) ∧
      (0 < l.limit → ∀ i t d r, s.step l (.proceed i) = some t → t.calls[i]? = some d →
        d.stage = .returned (.denied r) → ∀ later s', exec (Limiting.step l) t later = some s' →
        ∀ (j : ℕ) (c : Call) (r' : ℕ), t.calls.length ≤ j → s'.calls[j]? = some c →
          c.user = d.user → nanos t.now + r ≤ nanos c.now → c.stage = .returned (.denied r') →
          t.calls.countP (Call.isAllowed d.user) < s'.calls.countP (Call.isAllowed d.user))) := by
  refine ⟨sequential_intact l actions, fun hintact => ?_⟩
  have hinit : Limiting.Bounded l {} := ⟨fun _ _ => Nat.zero_le _, fun _ => Nat.zero_le _⟩
  have hbound : s.Bounded l :=
    invariant (Limiting.Bounded l) (fun s a t h hcond hstep => h.step hcond hstep)
      hinit hintact hrun
  constructor
  · intro user x
    refine le_trans (List.countP_mono_left fun c _ hc => ?_) (hbound.admitted_le user x)
    have hand := of_decide_eq_true hc
    exact decide_eq_true ⟨Or.inr hand.1, hand.2⟩
  · intro hlimit i t d r hdenial hd hr later s' hlater j c r' hj hc huser hlate hdenied
    obtain ⟨c', hi, -⟩ := Option.bind_eq_some_iff.mp hdenial
    obtain ⟨hstage, hwait, hold⟩ := Limiting.waited_of_denied hi hdenial hd hr
    have hquiet : Intact l s (.proceed i) := by
      intro e he hroom
      obtain rfl : e = c' := Option.some.inj (he.symm.trans hi)
      exact absurd (hroom.1.symm.trans hstage) (by simp)
    have hbound' : t.Bounded l := hbound.step hquiet hdenial
    rcases hwait.run hbound' hlimit hold hlater with hmore | hwaited
    · exact hmore
    · exact absurd hdenied ((hwaited.late j c hj hc huser hlate).2.2 r')

/-- Two calls an hour. -/
def twoAnHour : Limiter := { limit := 2, window := 3600000000000, ttl := 3600000 }

/-- Three calls of a user one after the other, up to the denial of the third. -/
def threeCalls : List Action :=
  [.call 7, .proceed 0, .proceed 0, .proceed 0, .sleep 10, .call 7, .proceed 1, .proceed 1,
    .proceed 1, .sleep 10, .call 7, .proceed 2, .proceed 2]

theorem allow_slidingWindow_threeCalls :
    ∃ s, exec (Limiting.step twoAnHour) {} threeCalls = some s ∧
      (s.step twoAnHour (.proceed 2)).bind (fun t => t.calls[2]?)
        = some ⟨7, 20, .returned (.denied 3599980000000)⟩ ∧
      s.calls.countP (Call.allowedIn twoAnHour 7 0) ≤ 2 := by
  have hmeets : Meets (Limiting.step twoAnHour) (Intact twoAnHour) {} threeCalls := by
    decide +kernel
  have hdenied : ((exec (Limiting.step twoAnHour) {} threeCalls).bind fun s =>
      (s.step twoAnHour (.proceed 2)).bind fun t => t.calls[2]?)
        = some ⟨7, 20, .returned (.denied 3599980000000)⟩ := by
    decide +kernel
  obtain ⟨s, hs, hcall⟩ := Option.bind_eq_some_iff.mp hdenied
  exact ⟨s, hs, hcall, ((allow_slidingWindow twoAnHour threeCalls s hs).2 hmeets).1 7 0⟩

/-- Two calls that both count the set before one of them is recorded. -/
def overlapping : List Action :=
  [.call 7, .call 7, .proceed 0, .proceed 0, .proceed 1, .proceed 1, .proceed 0, .proceed 1]

/-- Both are allowed, with a limit of one. -/
theorem not_forall_slidingWindow :
    ¬ ∀ (l : Limiter) (actions : List Action) (s : Limiting), 0 < l.limit →
      exec (Limiting.step l) {} actions = some s →
      ∀ user x, s.calls.countP (Call.allowedIn l user x) ≤ l.limit := by
  intro h
  have htwo : (exec (Limiting.step { twoAnHour with limit := 1 }) {} overlapping).map
      (fun s => s.calls.countP (Call.allowedIn { twoAnHour with limit := 1 } 7 0)) = some 2 := by
    decide +kernel
  obtain ⟨s, hs, hcount⟩ := Option.map_eq_some_iff.mp htwo
  have hle := h { twoAnHour with limit := 1 } overlapping s (by decide) hs 7 0
  rw [hcount] at hle
  exact absurd hle (by decide)

end VocalCoach.AnalysisRateLimiter
