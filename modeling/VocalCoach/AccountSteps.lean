/-
# What a call does to the accounts

`Changed` says what a step can be, a constructor for each way the table changes
(`step_cases`).  `World.Sound` is what holds without any condition: the ids and the indexes
of the table, whose password each account has, and what a verified account looks like.
-/
import VocalCoach.Accounts

namespace VocalCoach.Accounts

open Machine

variable {Hash : Type} {svc : Service Hash} {w w' : World Hash}

/-! ## Statements -/

namespace Users

variable {users users' : Users Hash} {u v : User Hash} {id : UserId} {f : User Hash → User Hash}
variable {email googleId : String}

theorem getByEmail_eq_some (h : users.getByEmail email = some u) :
    u ∈ users ∧ u.email = email ∧ u.active := by
  have hp := List.find?_some h
  exact ⟨List.mem_of_find?_eq_some h, of_decide_eq_true hp⟩

theorem getByEmail_eq_none (h : users.getByEmail email = none) (hu : u ∈ users)
    (hactive : u.active) : u.email ≠ email := by
  have hnot := List.find?_eq_none.mp h u hu
  rw [decide_eq_true_eq] at hnot
  exact fun heq => hnot ⟨heq, hactive⟩

theorem getByGoogleID_eq_some (h : users.getByGoogleID googleId = some u) :
    u ∈ users ∧ u.googleId = some googleId ∧ u.active := by
  have hp := List.find?_some h
  exact ⟨List.mem_of_find?_eq_some h, of_decide_eq_true hp⟩

theorem create_eq_ok (h : users.create u = .ok users') :
    users' = users ++ [u] ∧ ∀ v ∈ users, ¬ v.conflicts u := by
  unfold create at h
  split_ifs at h with hconflict
  obtain rfl := Except.ok.inj h
  exact ⟨rfl, fun v hv hc => hconflict ⟨v, hv, hc⟩⟩

theorem linkGoogleID_eq_ok (h : users.linkGoogleID id googleId = .ok users') :
    users' = users.update id fun u => { u with googleId := some googleId } := by
  unfold linkGoogleID at h
  split_ifs at h
  exact (Except.ok.inj h).symm

theorem mem_update (hv : v ∈ users.update id f) :
    ∃ u ∈ users, v = if u.id = id then f u else u := by
  obtain ⟨u, hu, rfl⟩ := List.mem_map.mp hv
  exact ⟨u, hu, rfl⟩

end Users

/-! ## The cases of a step -/

/-- The row `Register` creates. -/
def registeredUser (svc : Service Hash) (around : Surroundings) (w : World Hash)
    (email password displayName : String) : User Hash :=
  { id := w.nextId
    email := svc.normalizeEmail email
    passwordHash := some (svc.hasher.hash around.passwordSalt password)
    displayName
    emailVerified := false
    verificationCodeHash := some (svc.hasher.hash around.codeSalt around.code)
    verificationExpiresAt := some (w.now + verificationCodeTTL)
    createdAt := w.now }

/-- The row `GoogleCallback` creates. -/
def googleUser (svc : Service Hash) (w : World Hash) (identity : GoogleIdentity) : User Hash :=
  { id := w.nextId
    email := svc.normalizeEmail identity.email
    googleId := some identity.subject
    displayName :=
      if identity.name = "" then svc.normalizeEmail identity.email else identity.name
    emailVerified := true
    createdAt := w.now }

/-- What a step does. -/
inductive Changed (svc : Service Hash) (w : World Hash) : Action → World Hash → Prop
  /-- It leaves the table as it is. -/
  | nothing (a latest) {now} (hnow : w.now ≤ now) : Changed svc w a { w with now, latest }
  | registered (around email password displayName latest)
      (hnone : w.users.getByEmail (svc.normalizeEmail email) = none) :
      Changed svc w (.register around email password displayName)
        { w with
          users := w.users ++ [registeredUser svc around w email password displayName]
          nextId := w.nextId + 1
          creator := Function.update w.creator w.nextId password
          issuer := Function.update w.issuer w.nextId password
          latest }
  /-- An account that is not verified gets another code. -/
  | reissued (a) {user} (codeHash expiresAt password latest) (hmem : user ∈ w.users)
      (hactive : user.active) (hunverified : user.emailVerified = false) :
      Changed svc w a
        { w with
          users := w.users.updateVerificationCode user.id codeHash expiresAt
          issuer := Function.update w.issuer user.id password
          latest }
  | attempted (a user) :
      Changed svc w a { w with users := w.users.incrementVerificationAttempts user }
  | verified (around email code) {user codeHash} (hmem : user ∈ w.users) (hactive : user.active)
      (hunverified : user.emailVerified = false)
      (hcode : user.verificationCodeHash = some codeHash)
      (hverify : svc.hasher.verify code codeHash = true) :
      Changed svc w (.verifyEmail around email code)
        { w with
          users := w.users.markVerified user.id
          verified := w.verified ++ [(user.id, w.issuer user.id)] }
  | known (around identity) {user}
      (hget : w.users.getByGoogleID identity.subject = some user) :
      Changed svc w (.googleCallback around identity)
        (w.issueSession around identity user.id).2
  | linked (around identity) {existing}
      (hnone : w.users.getByGoogleID identity.subject = none)
      (hget : w.users.getByEmail (svc.normalizeEmail identity.email) = some existing) :
      Changed svc w (.googleCallback around identity)
        (World.issueSession around
          { w with
            users := w.users.update existing.id fun u =>
              { u with googleId := some identity.subject }
            linkedUnverified :=
              if existing.emailVerified then w.linkedUnverified
              else w.linkedUnverified ++ [existing.id] }
          identity existing.id).2
  | created (around identity)
      (hnone : w.users.getByEmail (svc.normalizeEmail identity.email) = none) :
      Changed svc w (.googleCallback around identity)
        (World.issueSession around
          { w with users := w.users ++ [googleUser svc w identity], nextId := w.nextId + 1 }
          identity w.nextId).2
  | deleted (around id) :
      Changed svc w (.deleteAccount around id)
        { w with
          users := w.users.hardDelete id
          signedIn := w.signedIn.filter fun p => p.2 ≠ id }
  | cleanedUp : Changed svc w .cleanUp w.cleanUp

variable {around : Surroundings} {a : Action}

theorem Changed.refl (a : Action) : Changed svc w a w := .nothing a w.latest (Nat.le_refl _)

theorem registerExisting_cases {existing : User Hash} (hmem : existing ∈ w.users)
    (hactive : existing.active) (latest : String → String) (password : String) (codeHash : Hash)
    (expiresAt : Time) :
    Changed svc w a
      ({ w with latest }.registerExisting around existing password codeHash expiresAt) := by
  unfold World.registerExisting
  split
  · exact .nothing _ _ (Nat.le_refl _)
  next hunverified =>
    split
    · exact .nothing _ _ (Nat.le_refl _)
    split
    · exact .nothing _ _ (Nat.le_refl _)
    · exact .reissued _ _ _ _ _ hmem hactive (eq_false_of_ne_true hunverified)

theorem registerNew_cases {email : String}
    (hnone : w.users.getByEmail (svc.normalizeEmail email) = none) (latest : String → String)
    (password displayName : String) :
    Changed svc w (.register around email password displayName)
      (World.registerNew svc around { w with latest } (svc.normalizeEmail email) password displayName
        (svc.hasher.hash around.codeSalt around.code) (w.now + verificationCodeTTL)).2 := by
  unfold World.registerNew
  split
  · exact .nothing _ _ (Nat.le_refl _)
  dsimp only
  split
  · exact .nothing _ _ (Nat.le_refl _)
  next users hcreate =>
    obtain ⟨rfl, -⟩ := Users.create_eq_ok hcreate
    split <;> exact .registered _ _ _ _ _ hnone

theorem register_cases (email password displayName : String) :
    Changed svc w (.register around email password displayName)
      (w.register svc around email password displayName).2 := by
  unfold World.register
  split
  · exact .refl _
  split
  · exact .refl _
  split
  · exact .refl _
  split
  · exact .refl _
  dsimp only
  split
  next existing hget =>
    obtain ⟨hmem, -, hactive⟩ := Users.getByEmail_eq_some hget
    exact registerExisting_cases hmem hactive _ _ _ _
  next hget => exact registerNew_cases hget _ _ _

theorem verifyEmail_cases (email code : String) :
    Changed svc w (.verifyEmail around email code) (w.verifyEmail svc around email code).2 := by
  unfold World.verifyEmail
  split
  · exact .refl _
  split
  · exact .refl _
  next user hget =>
    obtain ⟨hmem, -, hactive⟩ := Users.getByEmail_eq_some hget
    split
    · exact .refl _
    next hunverified =>
      split
      · exact .refl _
      split
      · exact .refl _
      split
      · exact .refl _
      next codeHash hcode =>
        split
        · exact .refl _
        split
        · split
          · exact .refl _
          · exact .attempted _ _
        next hverify =>
          split
          · exact .refl _
          · exact .verified _ _ _ hmem hactive (eq_false_of_ne_true hunverified) hcode
              (eq_true_of_ne_false hverify)

theorem resendVerification_cases (email : String) :
    Changed svc w (.resendVerification around email) (w.resendVerification svc around email).2 := by
  unfold World.resendVerification
  split
  · exact .refl _
  split
  · exact .refl _
  next user hget =>
    obtain ⟨hmem, -, hactive⟩ := Users.getByEmail_eq_some hget
    split
    · exact .refl _
    next hunverified =>
      have hunverified := eq_false_of_ne_true hunverified
      split
      · exact .refl _
      split
      · exact .refl _
      split
      · exact .refl _
      split
      · exact .refl _
      dsimp only
      split <;> exact .reissued _ _ _ _ _ hmem hactive hunverified

theorem googleCallback_cases (identity : GoogleIdentity) :
    Changed svc w (.googleCallback around identity) (w.googleCallback svc around identity).2 := by
  unfold World.googleCallback
  split
  · exact .refl _
  split
  next user hget => exact .known _ _ hget
  next hnone =>
    split
    · exact .refl _
    split
    · exact .refl _
    dsimp only
    split
    next existing hemail =>
      split
      · exact .refl _
      split
      · exact .refl _
      next users hlink =>
        obtain rfl := Users.linkGoogleID_eq_ok hlink
        exact .linked _ _ hnone hemail
    next hemail =>
      split
      · exact .refl _
      split
      · exact .refl _
      next users hcreate =>
        obtain ⟨rfl, -⟩ := Users.create_eq_ok hcreate
        exact .created _ _ hemail

theorem deleteAccount_cases (id : UserId) :
    Changed svc w (.deleteAccount around id) (w.deleteAccount around id).2 := by
  unfold World.deleteAccount
  split
  · exact .refl _
  split
  · exact .refl _
  split
  · exact .refl _
  · exact .deleted _ _

/-- **The cases of a step.** -/
theorem step_cases (h : step svc w a = some w') : Changed svc w a w' := by
  cases a with
  | register around email password displayName =>
    cases h
    exact register_cases email password displayName
  | verifyEmail around email code =>
    cases h
    exact verifyEmail_cases email code
  | resendVerification around email =>
    cases h
    exact resendVerification_cases email
  | login =>
    cases h
    exact .refl _
  | googleCallback around identity =>
    cases h
    exact googleCallback_cases identity
  | deleteAccount around id =>
    cases h
    exact deleteAccount_cases id
  | cleanUp =>
    cases h
    exact .cleanedUp
  | sleep seconds =>
    cases h
    exact .nothing _ _ (Nat.le_add_right _ _)

/-! ## What holds without any condition -/

/-- What becomes of a row that stays: it keeps its id, its address and its password, and
once it is verified it is neither deleted nor unverified. -/
structure User.Kept (u v : User Hash) : Prop where
  id : v.id = u.id
  email : v.email = u.email
  passwordHash : v.passwordHash = u.passwordHash
  active : v.active → u.active
  emailVerified : u.emailVerified = true → v.emailVerified = true
  verified : u.emailVerified = true → u.active → v.active

theorem User.Kept.refl (u : User Hash) : u.Kept u := ⟨rfl, rfl, rfl, fun h => h, fun h => h, fun _ h => h⟩

/-- The table: its ids, its index on the address, and whose password each row has. -/
structure Users.Sound (svc : Service Hash) (nextId : UserId) (creator : UserId → String)
    (users : Users Hash) : Prop where
  id_lt : ∀ u ∈ users, u.id < nextId
  id_inj : ∀ u ∈ users, ∀ v ∈ users, u.id = v.id → u = v
  email_inj : ∀ u ∈ users, ∀ v ∈ users, u.active → v.active → u.email = v.email → u = v
  normal : ∀ u ∈ users, ∃ raw, u.email = svc.normalizeEmail raw
  password : ∀ u ∈ users, ∀ h, u.passwordHash = some h →
    ∃ salt, h = svc.hasher.hash salt (creator u.id)
  waiting : ∀ u ∈ users, u.emailVerified = false → u.passwordHash.isSome

namespace Users.Sound

variable {users : Users Hash} {nextId : UserId} {creator : UserId → String}

/-- What keeps every row keeps the table. -/
theorem map (h : users.Sound svc nextId creator) {f : User Hash → User Hash}
    (hf : ∀ u ∈ users, u.Kept (f u)) : Users.Sound svc nextId creator (users.map f) := by
  constructor
  case id_lt =>
    simp only [List.forall_mem_map]
    intro u hu
    rw [(hf u hu).id]
    exact h.id_lt u hu
  case id_inj =>
    simp only [List.forall_mem_map]
    intro u hu v hv heq
    rw [(hf u hu).id, (hf v hv).id] at heq
    rw [h.id_inj u hu v hv heq]
  case email_inj =>
    simp only [List.forall_mem_map]
    intro u hu v hv hactive hactive' heq
    rw [(hf u hu).email, (hf v hv).email] at heq
    rw [h.email_inj u hu v hv ((hf u hu).active hactive) ((hf v hv).active hactive') heq]
  case normal =>
    simp only [List.forall_mem_map]
    intro u hu
    rw [(hf u hu).email]
    exact h.normal u hu
  case password =>
    simp only [List.forall_mem_map]
    intro u hu
    rw [(hf u hu).passwordHash, (hf u hu).id]
    exact h.password u hu
  case waiting =>
    simp only [List.forall_mem_map]
    intro u hu hunverified
    rw [(hf u hu).passwordHash]
    refine h.waiting u hu (eq_false_of_ne_true fun hverified => ?_)
    rw [(hf u hu).emailVerified hverified] at hunverified
    cases hunverified

theorem filter (h : users.Sound svc nextId creator) (p : User Hash → Bool) :
    Users.Sound svc nextId creator (users.filter p) := by
  have hsub : ∀ u ∈ users.filter p, u ∈ users := fun u hu => List.mem_of_mem_filter hu
  exact ⟨fun u hu => h.id_lt u (hsub u hu),
    fun u hu v hv => h.id_inj u (hsub u hu) v (hsub v hv),
    fun u hu v hv => h.email_inj u (hsub u hu) v (hsub v hv),
    fun u hu => h.normal u (hsub u hu), fun u hu => h.password u (hsub u hu),
    fun u hu => h.waiting u (hsub u hu)⟩

/-- A new row, for an address that is free. -/
theorem append (h : users.Sound svc nextId creator) {u : User Hash} {raw : String}
    {creator' : UserId → String} (hid : u.id = nextId) (hemail : u.email = svc.normalizeEmail raw)
    (hnone : users.getByEmail (svc.normalizeEmail raw) = none)
    (hcreator : ∀ id < nextId, creator' id = creator id)
    (hpassword : ∀ hash, u.passwordHash = some hash →
      ∃ salt, hash = svc.hasher.hash salt (creator' u.id))
    (hwaiting : u.emailVerified = false → u.passwordHash.isSome) :
    Users.Sound svc (nextId + 1) creator' (users ++ [u]) := by
  have hne : ∀ v ∈ users, v.id ≠ u.id := fun v hv => by
    rw [hid]
    exact Nat.ne_of_lt (h.id_lt v hv)
  have hfree : ∀ v ∈ users, v.active → v.email ≠ u.email := fun v hv hactive => by
    rw [hemail]
    exact Users.getByEmail_eq_none hnone hv hactive
  constructor
  case id_lt =>
    intro v hv
    rcases List.mem_append.mp hv with hv | hv
    · exact Nat.lt_succ_of_lt (h.id_lt v hv)
    · rw [List.mem_singleton.mp hv, hid]
      exact Nat.lt_succ_self _
  case id_inj =>
    intro v hv v' hv' heq
    rcases List.mem_append.mp hv with hv | hv <;> rcases List.mem_append.mp hv' with hv' | hv'
    · exact h.id_inj v hv v' hv' heq
    · exact absurd (heq.trans (List.mem_singleton.mp hv' ▸ rfl)) (hne v hv)
    · exact absurd (heq.symm.trans (List.mem_singleton.mp hv ▸ rfl)) (hne v' hv')
    · rw [List.mem_singleton.mp hv, List.mem_singleton.mp hv']
  case email_inj =>
    intro v hv v' hv' hactive hactive' heq
    rcases List.mem_append.mp hv with hv | hv <;> rcases List.mem_append.mp hv' with hv' | hv'
    · exact h.email_inj v hv v' hv' hactive hactive' heq
    · exact absurd (heq.trans (List.mem_singleton.mp hv' ▸ rfl)) (hfree v hv hactive)
    · exact absurd (heq.symm.trans (List.mem_singleton.mp hv ▸ rfl)) (hfree v' hv' hactive')
    · rw [List.mem_singleton.mp hv, List.mem_singleton.mp hv']
  case normal =>
    intro v hv
    rcases List.mem_append.mp hv with hv | hv
    · exact h.normal v hv
    · exact ⟨raw, List.mem_singleton.mp hv ▸ hemail⟩
  case password =>
    intro v hv hash hhash
    rcases List.mem_append.mp hv with hv | hv
    · rw [hcreator v.id (h.id_lt v hv)]
      exact h.password v hv hash hhash
    · obtain rfl := List.mem_singleton.mp hv
      exact hpassword hash hhash
  case waiting =>
    intro v hv
    rcases List.mem_append.mp hv with hv | hv
    · exact h.waiting v hv
    · obtain rfl := List.mem_singleton.mp hv
      exact hwaiting

end Users.Sound

/-! ### Rows that stay -/

namespace User.Kept

/-- An update that keeps the row it is about. -/
theorem update {f : User Hash → User Hash} (hf : ∀ u : User Hash, u.Kept (f u)) (id : UserId)
    (u : User Hash) : u.Kept (if u.id = id then f u else u) := by
  split
  · exact hf u
  · exact .refl u

/-- The clean-up takes no row that is verified. -/
theorem cleanUp (now : Time) (u : User Hash) :
    u.Kept (if u.expired now then { u with deletedAt := some now } else u) := by
  split
  next hexpired =>
    refine ⟨rfl, rfl, rfl, fun h => (by cases h), fun h => h, fun hverified => ?_⟩
    rw [hexpired.1] at hverified
    cases hverified
  · exact .refl u

theorem code (u : User Hash) (codeHash : Option Hash) (expiresAt : Option Time) (attempts : ℕ) :
    u.Kept
      { u with
        verificationCodeHash := codeHash
        verificationExpiresAt := expiresAt
        verificationAttempts := attempts } :=
  ⟨rfl, rfl, rfl, fun h => h, fun h => h, fun _ h => h⟩

theorem markVerified (u : User Hash) :
    u.Kept
      { u with
        emailVerified := true
        verificationCodeHash := none
        verificationExpiresAt := none
        verificationAttempts := 0 } :=
  ⟨rfl, rfl, rfl, fun h => h, fun _ => rfl, fun _ h => h⟩

theorem linkGoogleID (u : User Hash) (googleId : String) :
    u.Kept { u with googleId := some googleId } :=
  ⟨rfl, rfl, rfl, fun h => h, fun h => h, fun _ h => h⟩

end User.Kept

@[simp] theorem issueSession_users (identity : GoogleIdentity) (id : UserId) :
    (w.issueSession around identity id).2.users = w.users := by
  unfold World.issueSession
  split <;> rfl

@[simp] theorem issueSession_nextId (identity : GoogleIdentity) (id : UserId) :
    (w.issueSession around identity id).2.nextId = w.nextId := by
  unfold World.issueSession
  split <;> rfl

@[simp] theorem issueSession_creator (identity : GoogleIdentity) (id : UserId) :
    (w.issueSession around identity id).2.creator = w.creator := by
  unfold World.issueSession
  split <;> rfl

@[simp] theorem issueSession_verified (identity : GoogleIdentity) (id : UserId) :
    (w.issueSession around identity id).2.verified = w.verified := by
  unfold World.issueSession
  split <;> rfl

@[simp] theorem issueSession_linkedUnverified (identity : GoogleIdentity) (id : UserId) :
    (w.issueSession around identity id).2.linkedUnverified = w.linkedUnverified := by
  unfold World.issueSession
  split <;> rfl

theorem mem_issueSession {identity : GoogleIdentity} {id : UserId} {p : GoogleIdentity × UserId}
    (hp : p ∈ (w.issueSession around identity id).2.signedIn) :
    p ∈ w.signedIn ∨ p = (identity, id) := by
  unfold World.issueSession at hp
  split at hp
  · exact Or.inl hp
  · rw [List.mem_append, List.mem_singleton] at hp
    exact hp

/-- **What holds of the table in every reachable state.** -/
def World.Sound (svc : Service Hash) (w : World Hash) : Prop :=
  w.users.Sound svc w.nextId w.creator

theorem World.Sound.empty : World.Sound svc {} := ⟨by simp, by simp, by simp, by simp, by simp, by simp⟩

/-- **Every step keeps the table.** -/
theorem World.Sound.step (h : w.Sound svc) (hstep : Changed svc w a w') : w'.Sound svc := by
  cases hstep with
  | nothing => exact h
  | registered around email password displayName latest hnone =>
    refine Users.Sound.append h rfl rfl hnone (fun id hid => ?_) (fun hash hhash => ?_) fun _ => rfl
    · exact Function.update_of_ne (Nat.ne_of_lt hid) ..
    · cases hhash
      have hself : Function.update w.creator w.nextId password w.nextId = password :=
        Function.update_self ..
      exact ⟨around.passwordSalt, congrArg (svc.hasher.hash around.passwordSalt) hself.symm⟩
  | reissued =>
    exact Users.Sound.map h fun u _ => .update (fun u => .code u _ _ _) _ u
  | attempted => exact Users.Sound.map h fun u _ => .update (fun u => .code u _ _ _) _ u
  | verified => exact Users.Sound.map h fun u _ => .update .markVerified _ u
  | known around identity hget =>
    rw [World.Sound, issueSession_users, issueSession_nextId, issueSession_creator]
    exact h
  | linked around identity hnone hget =>
    rw [World.Sound, issueSession_users, issueSession_nextId, issueSession_creator]
    exact Users.Sound.map h fun u _ => .update (fun u => .linkGoogleID u _) _ u
  | created around identity hnone =>
    rw [World.Sound, issueSession_users, issueSession_nextId, issueSession_creator]
    refine Users.Sound.append h rfl rfl hnone (fun _ _ => rfl) (fun hash hhash => ?_) fun hfalse => ?_
    · cases hhash
    · cases hfalse
  | deleted around id => exact Users.Sound.filter h _
  | cleanedUp => exact Users.Sound.map h fun u _ => .cleanUp w.now u

end VocalCoach.Accounts
