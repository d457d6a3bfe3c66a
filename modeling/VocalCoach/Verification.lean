/-
# Whose password a verified account has

An account keeps the password it was created with (`World.Sound`).  `Register` for an
address that waits to be verified sends a new code and leaves that password, and
`ResendVerification` does the same.  So the account that is verified with a code has the
password of the `Register` call that counts for the code if and only if that call supplied
the first password again (`verified_ownPassword_iff`).
-/
import VocalCoach.AccountSteps

namespace VocalCoach.Accounts

open Machine

variable {Hash : Type} {svc : Service Hash} {w w' : World Hash} {around : Surroundings} {a : Action}
variable {id : UserId} {email given password : String} {u : User Hash}

/-! ## Verified accounts -/

/-- **What a verified account looks like**, as long as it is there. -/
def World.Proven (w : World Hash) : Prop :=
  ∀ p ∈ w.verified, p.1 < w.nextId ∧
    ∀ u ∈ w.users, u.id = p.1 → u.emailVerified = true ∧ u.passwordHash.isSome ∧ u.active

/-- A step that keeps every row. -/
theorem World.Proven.map (h : w.Proven) {f : User Hash → User Hash}
    (husers : w'.users = w.users.map f) (hf : ∀ u : User Hash, u.Kept (f u))
    (hnext : w'.nextId = w.nextId) (hverified : w'.verified = w.verified) : w'.Proven := by
  intro p hp
  rw [hverified] at hp
  obtain ⟨hlt, hrow⟩ := h p hp
  refine ⟨hnext ▸ hlt, fun v hv hid => ?_⟩
  rw [husers] at hv
  obtain ⟨u, hu, rfl⟩ := List.mem_map.mp hv
  rw [(hf u).id] at hid
  obtain ⟨hproven, hpassword, hactive⟩ := hrow u hu hid
  refine ⟨(hf u).emailVerified hproven, ?_, (hf u).verified hproven hactive⟩
  rw [(hf u).passwordHash]
  exact hpassword

/-- A step that adds a row. -/
theorem World.Proven.append (h : w.Proven) (husers : w'.users = w.users ++ [u])
    (hid : u.id = w.nextId) (hnext : w'.nextId = w.nextId + 1)
    (hverified : w'.verified = w.verified) : w'.Proven := by
  intro p hp
  rw [hverified] at hp
  obtain ⟨hlt, hrow⟩ := h p hp
  refine ⟨hnext ▸ Nat.lt_succ_of_lt hlt, fun v hv heq => ?_⟩
  rw [husers, List.mem_append, List.mem_singleton] at hv
  rcases hv with hv | rfl
  · exact hrow v hv heq
  · exact absurd (heq.symm.trans hid) (Nat.ne_of_lt hlt)

/-- **Every step keeps what verified accounts look like.** -/
theorem World.Proven.step (h : w.Proven) (hsound : w.Sound svc) (hstep : Changed svc w a w') :
    w'.Proven := by
  cases hstep with
  | nothing => exact h
  | registered => exact h.append rfl rfl rfl rfl
  | reissued => exact h.map rfl (.update (fun u => .code u _ _ _) _) rfl rfl
  | attempted => exact h.map rfl (.update (fun u => .code u _ _ _) _) rfl rfl
  | @verified around email code user codeHash hmem hactive hunverified hcode hverify =>
    intro p hp
    rcases List.mem_append.mp hp with hp | hp
    · have hkept : World.Proven { w with users := w.users.markVerified user.id } :=
        h.map rfl (.update .markVerified _) rfl rfl
      exact hkept p hp
    · obtain rfl := List.mem_singleton.mp hp
      refine ⟨hsound.id_lt user hmem, fun v hv hid => ?_⟩
      obtain ⟨v, hv', rfl⟩ := Users.mem_update hv
      rw [(User.Kept.update .markVerified user.id v).id] at hid
      obtain rfl := hsound.id_inj v hv' user hmem hid
      rw [if_pos rfl]
      exact ⟨rfl, hsound.waiting v hmem hunverified, hactive⟩
  | known around identity hget =>
    rw [World.Proven, issueSession_users, issueSession_nextId, issueSession_verified]
    exact h
  | linked around identity hnone hget =>
    exact h.map (issueSession_users ..) (.update (fun u => .linkGoogleID u _) _)
      (issueSession_nextId ..) (issueSession_verified ..)
  | created around identity hnone =>
    exact h.append (u := googleUser svc w identity) (issueSession_users ..) rfl
      (issueSession_nextId ..) (issueSession_verified ..)
  | deleted around id =>
    intro p hp
    obtain ⟨hlt, hrow⟩ := h p hp
    exact ⟨hlt, fun v hv => hrow v (List.mem_of_mem_filter hv)⟩
  | cleanedUp => exact h.map rfl (.cleanUp w.now) rfl rfl

/-! ## Login -/

/-- `Login` accepts the password for the account. -/
def World.Accepts (svc : Service Hash) (w : World Hash) (id : UserId) (given : String) : Prop :=
  ∃ around email, w.login svc around email given = .ok id

/-- An account `Login` signs in to is verified, and has the password. -/
theorem of_login (h : w.login svc around email given = .ok id) :
    ∃ u ∈ w.users, u.id = id ∧ ∃ hash, u.passwordHash = some hash ∧
      svc.hasher.verify given hash = true := by
  unfold World.login at h
  split at h
  · cases h
  split at h
  · cases h
  split at h
  · cases h
  dsimp only at h
  split at h
  · cases h
  unfold World.loginChecked at h
  split at h
  next u hget =>
    obtain ⟨hmem, -⟩ := Users.getByEmail_eq_some hget
    split at h
    next hok =>
      obtain ⟨hsome, hverify⟩ := hok
      split at h
      · cases h
      split at h
      · cases h
      split at h
      · cases h
      obtain ⟨hash, hhash⟩ := Option.isSome_iff_exists.mp hsome
      rw [hget, Option.bind_some, hhash, Option.getD_some] at hverify
      exact ⟨u, hmem, Except.ok.inj h, hash, hhash, hverify⟩
    · split at h <;> cases h
  · split at h <;> cases h

/-- Where nothing fails, `Login` signs in to a verified account with its password. -/
theorem login_eq_ok (hsound : w.Sound svc) (hmem : u ∈ w.users) (hactive : u.active)
    (hverified : u.emailVerified = true) {hash : Hash} (hhash : u.passwordHash = some hash)
    (hverify : svc.hasher.verify given hash = true) : w.Accepts svc u.id given := by
  obtain ⟨raw, hraw⟩ := hsound.normal u hmem
  have hget : w.users.getByEmail (svc.normalizeEmail raw) = some u := by
    cases hfound : w.users.getByEmail (svc.normalizeEmail raw) with
    | none => exact absurd hraw (Users.getByEmail_eq_none hfound hmem hactive)
    | some v =>
      obtain ⟨hv, hemail, hvactive⟩ := Users.getByEmail_eq_some hfound
      rw [hsound.email_inj v hv u hmem hvactive hactive (hemail.trans hraw.symm)]
  refine ⟨{}, raw, ?_⟩
  simp [World.login, World.loginChecked, hget, hhash, hverify, hverified]

/-- **A verified account accepts the password it was created with, and no other.** -/
theorem accepts_iff (hsound : w.Sound svc) (hproven : w.Proven) (hverified : (id, password) ∈ w.verified)
    (hhere : ∃ u ∈ w.users, u.id = id) : w.Accepts svc id given ↔ given = w.creator id := by
  obtain ⟨u, hmem, rfl⟩ := hhere
  obtain ⟨-, hrow⟩ := hproven _ hverified
  obtain ⟨hdone, hsome, hactive⟩ := hrow u hmem rfl
  obtain ⟨hash, hhash⟩ := Option.isSome_iff_exists.mp hsome
  obtain ⟨salt, rfl⟩ := hsound.password u hmem hash hhash
  constructor
  · rintro ⟨around, email, hlogin⟩
    obtain ⟨v, hv, hid, hash', hhash', hverify⟩ := of_login hlogin
    obtain rfl := hsound.id_inj v hv u hmem hid
    rw [hhash, Option.some.injEq] at hhash'
    rw [← hhash'] at hverify
    exact (svc.hasher.verify_hash salt _ given).mp hverify
  · rintro rfl
    exact login_eq_ok hsound hmem hactive hdone hhash ((svc.hasher.verify_hash salt _ _).mpr rfl)

/-- **Whose account it is.**  An account that was verified with a code accepts the password
of the `Register` call that counts for the code, and no other, if and only if that call
supplied the password the account was created with. -/
theorem verified_ownPassword_iff {as : List Action} (hrun : exec (step svc) {} as = some w)
    (hverified : (id, password) ∈ w.verified) (hhere : ∃ u ∈ w.users, u.id = id) :
    (∀ given, w.Accepts svc id given ↔ given = password) ↔ password = w.creator id := by
  obtain ⟨hsound, hproven⟩ := invariant_all (fun w => w.Sound svc ∧ w.Proven)
    (fun _ _ _ h hstep => ⟨h.1.step (step_cases hstep), h.2.step h.1 (step_cases hstep)⟩)
    ⟨World.Sound.empty, by simp [World.Proven]⟩ hrun
  constructor
  · intro h
    have hown : w.Accepts svc id (w.creator id) :=
      (accepts_iff hsound hproven hverified hhere).mpr rfl
    exact ((h _).mp hown).symm
  · rintro rfl given
    exact accepts_iff hsound hproven hverified hhere

/-- An address is registered and verified. -/
def registeredOnce : List Action :=
  [.register {} "a@example.com" "correct-horse-battery" "First",
    .verifyEmail {} "a@example.com" "000000"]

/-- An address is registered by one person and then by another one, who owns the mailbox and
verifies it. -/
def registeredTwice : List Action :=
  [.register {} "a@example.com" "correct-horse-battery" "First",
    .register { code := "123456" } "a@example.com" "another-strong-pass" "Second",
    .verifyEmail {} "a@example.com" "123456"]

def onceVerified : World (ℕ × String) :=
  (exec (step plainService) {} registeredOnce).get (by decide +kernel)

theorem verified_ownPassword_iff_onceVerified :
    (∀ given, onceVerified.Accepts plainService 0 given ↔ given = "correct-horse-battery") ↔
      "correct-horse-battery" = onceVerified.creator 0 := by
  have hverified : onceVerified.verified = [(0, "correct-horse-battery")] := by decide +kernel
  have hhere : onceVerified.users.any (fun u => u.id = 0) = true := by decide +kernel
  refine verified_ownPassword_iff (Option.some_get _).symm (hverified ▸ List.mem_singleton_self _) ?_
  obtain ⟨u, hu, hid⟩ := List.any_eq_true.mp hhere
  exact ⟨u, hu, of_decide_eq_true hid⟩

/-- The account of the second person has the password of the first. -/
theorem not_forall_ownPassword :
    ¬ ∀ (as : List Action) (w : World (ℕ × String)), exec (step plainService) {} as = some w →
      ∀ id password, (id, password) ∈ w.verified →
        ∀ given, w.Accepts plainService id given → given = password := by
  intro h
  have hrun : (exec (step plainService) {} registeredTwice).map (fun w =>
      decide (w.verified = [(0, "another-strong-pass")] ∧
        w.login plainService {} "a@example.com" "correct-horse-battery" = .ok 0)) = some true := by
    decide +kernel
  obtain ⟨w, hw, htrue⟩ := Option.map_eq_some_iff.mp hrun
  obtain ⟨hverified, hlogin⟩ := of_decide_eq_true htrue
  have heq := h _ w hw 0 "another-strong-pass" (hverified ▸ List.mem_singleton_self _)
    "correct-horse-battery" ⟨{}, "a@example.com", hlogin⟩
  exact absurd heq (by decide)

end VocalCoach.Accounts
