/-
# Accounts

`service/auth`: registration, verification of the e-mail address, login, Google sign-in,
deletion and the hourly clean-up, over the table `users` of `user_repository.go` with the
indexes of its migration.

Each call is a whole step.  `Surroundings` is what the world around the service does during
it: the salts and the code that are drawn, what the throttles answer, and which of the calls
the service makes fail.  `World` also keeps the history the results speak of.
-/
import VocalCoach.Machine
import Mathlib.Data.List.Basic
import Mathlib.Tactic.Common

namespace VocalCoach.Accounts

open Machine

abbrev Time := ℕ

abbrev UserId := ℕ

/-- `verificationCodeTTL`, in seconds. -/
def verificationCodeTTL : Time := 24 * 3600

def maxVerificationAttempts : ℕ := 5

def minPasswordLength : ℕ := 10

/-! ## What the service is given -/

/-- `PasswordHasher`: what `argon2id` offers.  A hash accepts the secret it was made of, and
no other. -/
structure PasswordHasher (Hash : Type) where
  hash (salt : ℕ) (secret : String) : Hash
  verify (secret : String) (hash : Hash) : Bool
  dummyHash : Hash
  verify_hash : ∀ salt secret given, verify given (hash salt secret) = true ↔ given = secret

/-- The service and what it uses of the standard library and of the file of common
passwords. -/
structure Service (Hash : Type) where
  hasher : PasswordHasher Hash
  /-- `normalizeEmail`: `strings.ToLower` of `strings.TrimSpace`. -/
  normalizeEmail : String → String
  /-- The password, in lower case, is one of `commonPasswords`. -/
  common : String → Bool

/-- The calls the service makes, which may fail. -/
inductive Dependency
  | hashPassword
  | newVerificationCode
  | verify
  | getByEmail
  | getByGoogleID
  | create
  | updateVerificationCode
  | incrementVerificationAttempts
  | markVerified
  | linkGoogleID
  | hardDelete
  | allowResend
  | checkThrottle
  | recordFailure
  | resetThrottle
  | sendVerificationCode
  | issueSession
  | revokeAllForUser
  deriving DecidableEq, Repr

/-- What goes on around a call of the service. -/
structure Surroundings where
  passwordSalt : ℕ := 0
  codeSalt : ℕ := 0
  /-- The code that is drawn. -/
  code : String := "000000"
  /-- What `AllowResend` answers. -/
  allowed : Bool := true
  /-- What the login throttle answers. -/
  locked : Bool := false
  fails : Dependency → Bool := fun _ => false

/-- What a call of the service returns instead of a result. -/
inductive Error
  | weakPassword
  | emailTaken
  | notFound
  | verificationCodeInvalid
  | verificationCodeExpired
  | tooManyVerificationAttempts
  | verificationThrottled
  | accountLocked
  | invalidCredentials
  | emailNotVerified
  | googleEmailNotVerified
  /-- A call the service made failed. -/
  | failed (d : Dependency)
  deriving DecidableEq, Repr

/-- `GoogleIdentity`. -/
structure GoogleIdentity where
  subject : String
  email : String
  emailVerified : Bool
  name : String
  deriving DecidableEq, Repr

/-! ## The table -/

/-- A row of `users`. -/
structure User (Hash : Type) where
  id : UserId
  email : String
  passwordHash : Option Hash := none
  googleId : Option String := none
  displayName : String
  emailVerified : Bool
  verificationCodeHash : Option Hash := none
  verificationExpiresAt : Option Time := none
  verificationAttempts : ℕ := 0
  createdAt : Time := 0
  deletedAt : Option Time := none

variable {Hash : Type}

namespace User

/-- `deleted_at IS NULL`. -/
abbrev active (u : User Hash) : Prop := u.deletedAt = none

/-- The row `SoftDeleteExpiredUnverified` deletes. -/
abbrev expired (now : Time) (u : User Hash) : Prop :=
  u.emailVerified = false ∧ u.active ∧ ∃ e ∈ u.verificationExpiresAt, e < now

/-- `users_email_active_uidx` and `users_google_id_uidx`: two rows that may not both be
there. -/
def conflicts (u v : User Hash) : Prop :=
  u.active ∧ v.active ∧ u.email = v.email ∨ u.googleId.isSome ∧ u.googleId = v.googleId

instance (u v : User Hash) : Decidable (u.conflicts v) := inferInstanceAs (Decidable (_ ∨ _))

end User

/-! ### Statements -/

/-- The table. -/
abbrev Users (Hash : Type) := List (User Hash)

namespace Users

variable (users : Users Hash)

/-- `GetByEmail`. -/
def getByEmail (email : String) : Option (User Hash) :=
  users.find? fun u => u.email = email ∧ u.active

/-- `GetByGoogleID`. -/
def getByGoogleID (googleId : String) : Option (User Hash) :=
  users.find? fun u => u.googleId = some googleId ∧ u.active

/-- `Create`. -/
def create (u : User Hash) : Except Error (Users Hash) :=
  if ∃ v ∈ users, v.conflicts u then .error .emailTaken else .ok (users ++ [u])

/-- An `UPDATE` of the row with this id. -/
def update (id : UserId) (f : User Hash → User Hash) : Users Hash :=
  users.map fun u => if u.id = id then f u else u

/-- `UpdateVerificationCode`. -/
def updateVerificationCode (id : UserId) (codeHash : Hash) (expiresAt : Time) : Users Hash :=
  users.update id fun u =>
    { u with
      verificationCodeHash := some codeHash
      verificationExpiresAt := some expiresAt
      verificationAttempts := 0 }

/-- `IncrementVerificationAttempts`. -/
def incrementVerificationAttempts (id : UserId) : Users Hash :=
  users.update id fun u => { u with verificationAttempts := u.verificationAttempts + 1 }

/-- `MarkVerified`. -/
def markVerified (id : UserId) : Users Hash :=
  users.update id fun u =>
    { u with
      emailVerified := true
      verificationCodeHash := none
      verificationExpiresAt := none
      verificationAttempts := 0 }

/-- `LinkGoogleID`. -/
def linkGoogleID (id : UserId) (googleId : String) : Except Error (Users Hash) :=
  if ∃ v ∈ users, v.id ≠ id ∧ v.googleId = some googleId then .error .emailTaken
  else .ok (users.update id fun u => { u with googleId := some googleId })

/-- `HardDelete`. -/
def hardDelete (id : UserId) : Users Hash := users.filter fun u => u.id ≠ id

/-- `SoftDeleteExpiredUnverified`. -/
def softDeleteExpiredUnverified (now : Time) : Users Hash :=
  users.map fun u => if u.expired now then { u with deletedAt := some now } else u

end Users

/-! ## The calls -/

/-- The table, the clock, and what happened so far. -/
structure World (Hash : Type) where
  users : Users Hash := []
  now : Time := 0
  nextId : UserId := 0
  /-- The password an account was created with. -/
  creator : UserId → String := fun _ => ""
  /-- The password of the `Register` call that counts for the code an account waits for. -/
  issuer : UserId → String := fun _ => ""
  /-- The password of the latest `Register` call for an address that was not refused. -/
  latest : String → String := fun _ => ""
  /-- The accounts that were verified with a code, and the password that counted for it. -/
  verified : List (UserId × String) := []
  /-- The identities `GoogleCallback` signed in, and to which account, unless its owner has
  deleted it since. -/
  signedIn : List (GoogleIdentity × UserId) := []
  /-- The accounts `GoogleCallback` linked while they were not verified. -/
  linkedUnverified : List UserId := []

namespace World

variable (svc : Service Hash) (around : Surroundings) (w : World Hash)

/-- `validatePasswordPolicy` refuses the password. -/
abbrev weak (password : String) : Prop :=
  password.utf8ByteSize < minPasswordLength ∨ svc.common password = true

/-- `Register` once it has looked up the address and found an account. -/
def registerExisting (existing : User Hash) (password : String) (codeHash : Hash)
    (expiresAt : Time) : World Hash :=
  if existing.emailVerified then w
  else if around.fails .allowResend ∨ around.allowed = false then w
  else if around.fails .updateVerificationCode then w
  else
    { w with
      users := w.users.updateVerificationCode existing.id codeHash expiresAt
      issuer := Function.update w.issuer existing.id password }

/-- `Register` once it has looked up the address and found none. -/
def registerNew (email password displayName : String) (codeHash : Hash) (expiresAt : Time) :
    Except Error Unit × World Hash :=
  if around.fails .create then (.error (.failed .create), w)
  else
    let user : User Hash :=
      { id := w.nextId
        email
        passwordHash := some (svc.hasher.hash around.passwordSalt password)
        displayName
        emailVerified := false
        verificationCodeHash := some codeHash
        verificationExpiresAt := some expiresAt
        createdAt := w.now }
    match w.users.create user with
    | .error _ => (.ok (), w)
    | .ok users =>
        let w :=
          { w with
            users
            nextId := w.nextId + 1
            creator := Function.update w.creator user.id password
            issuer := Function.update w.issuer user.id password }
        if around.fails .sendVerificationCode then (.error (.failed .sendVerificationCode), w)
        else (.ok (), w)

/-- `Register`. -/
def register (email password displayName : String) : Except Error Unit × World Hash :=
  if weak svc password then (.error .weakPassword, w)
  else if around.fails .hashPassword then (.error (.failed .hashPassword), w)
  else if around.fails .newVerificationCode then (.error (.failed .newVerificationCode), w)
  else if around.fails .getByEmail then (.error (.failed .getByEmail), w)
  else
    let email := svc.normalizeEmail email
    let codeHash := svc.hasher.hash around.codeSalt around.code
    let expiresAt := w.now + verificationCodeTTL
    let w := { w with latest := Function.update w.latest email password }
    match w.users.getByEmail email with
    | some existing => (.ok (), w.registerExisting around existing password codeHash expiresAt)
    | none => w.registerNew svc around email password displayName codeHash expiresAt

/-- `VerifyEmail`. -/
def verifyEmail (email code : String) : Except Error Unit × World Hash :=
  if around.fails .getByEmail then (.error (.failed .getByEmail), w)
  else match w.users.getByEmail (svc.normalizeEmail email) with
  | none => (.error .verificationCodeInvalid, w)
  | some user =>
      if user.emailVerified then (.ok (), w)
      else if ∀ e ∈ user.verificationExpiresAt, e < w.now then
        (.error .verificationCodeExpired, w)
      else if user.verificationAttempts ≥ maxVerificationAttempts then
        (.error .tooManyVerificationAttempts, w)
      else match user.verificationCodeHash with
      | none => (.error .verificationCodeInvalid, w)
      | some codeHash =>
          if around.fails .verify then (.error (.failed .verify), w)
          else if svc.hasher.verify code codeHash = false then
            if around.fails .incrementVerificationAttempts then
              (.error (.failed .incrementVerificationAttempts), w)
            else
              (.error .verificationCodeInvalid,
                { w with users := w.users.incrementVerificationAttempts user.id })
          else if around.fails .markVerified then (.error (.failed .markVerified), w)
          else
            (.ok (),
              { w with
                users := w.users.markVerified user.id
                verified := w.verified ++ [(user.id, w.issuer user.id)] })

/-- `ResendVerification`. -/
def resendVerification (email : String) : Except Error Unit × World Hash :=
  if around.fails .getByEmail then (.error (.failed .getByEmail), w)
  else match w.users.getByEmail (svc.normalizeEmail email) with
  | none => (.ok (), w)
  | some user =>
      if user.emailVerified then (.ok (), w)
      else if around.fails .allowResend then (.error (.failed .allowResend), w)
      else if around.allowed = false then (.error .verificationThrottled, w)
      else if around.fails .newVerificationCode then (.error (.failed .newVerificationCode), w)
      else if around.fails .updateVerificationCode then
        (.error (.failed .updateVerificationCode), w)
      else
        let codeHash := svc.hasher.hash around.codeSalt around.code
        let w :=
          { w with
            users := w.users.updateVerificationCode user.id codeHash
              (w.now + verificationCodeTTL)
            issuer := Function.update w.issuer user.id (w.latest user.email) }
        if around.fails .sendVerificationCode then (.error (.failed .sendVerificationCode), w)
        else (.ok (), w)

/-- `Login` once the password has been checked. -/
def loginChecked (user : Option (User Hash)) (ok : Bool) : Except Error UserId :=
  match user with
  | some user =>
      if user.passwordHash.isSome ∧ ok then
        if user.emailVerified = false then .error .emailNotVerified
        else if around.fails .resetThrottle then .error (.failed .resetThrottle)
        else if around.fails .issueSession then .error (.failed .issueSession)
        else .ok user.id
      else if around.fails .recordFailure then .error (.failed .recordFailure)
      else .error .invalidCredentials
  | none =>
      if around.fails .recordFailure then .error (.failed .recordFailure)
      else .error .invalidCredentials

/-- `Login`: the account it signs in to. -/
def login (email password : String) : Except Error UserId :=
  if around.fails .checkThrottle then .error (.failed .checkThrottle)
  else if around.locked then .error .accountLocked
  else if around.fails .getByEmail then .error (.failed .getByEmail)
  else
    let user := w.users.getByEmail (svc.normalizeEmail email)
    let hashToCheck := (user.bind User.passwordHash).getD svc.hasher.dummyHash
    if around.fails .verify then .error (.failed .verify)
    else loginChecked around user (svc.hasher.verify password hashToCheck)

/-- The end of `GoogleCallback`. -/
def issueSession (identity : GoogleIdentity) (id : UserId) : Except Error UserId × World Hash :=
  if around.fails .issueSession then (.error (.failed .issueSession), w)
  else (.ok id, { w with signedIn := w.signedIn ++ [(identity, id)] })

/-- `GoogleCallback`, once the code has been exchanged for an identity. -/
def googleCallback (identity : GoogleIdentity) : Except Error UserId × World Hash :=
  if around.fails .getByGoogleID then (.error (.failed .getByGoogleID), w)
  else match w.users.getByGoogleID identity.subject with
  | some user => w.issueSession around identity user.id
  | none =>
      if identity.emailVerified = false then (.error .googleEmailNotVerified, w)
      else if around.fails .getByEmail then (.error (.failed .getByEmail), w)
      else
        let email := svc.normalizeEmail identity.email
        match w.users.getByEmail email with
        | some existing =>
            if around.fails .linkGoogleID then (.error (.failed .linkGoogleID), w)
            else match w.users.linkGoogleID existing.id identity.subject with
            | .error e => (.error e, w)
            | .ok users =>
                { w with
                  users
                  linkedUnverified :=
                    if existing.emailVerified then w.linkedUnverified
                    else w.linkedUnverified ++ [existing.id] }.issueSession around identity
                  existing.id
        | none =>
            if around.fails .create then (.error (.failed .create), w)
            else
              let newUser : User Hash :=
                { id := w.nextId
                  email
                  googleId := some identity.subject
                  displayName := if identity.name = "" then email else identity.name
                  emailVerified := true
                  createdAt := w.now }
              match w.users.create newUser with
              | .error e => (.error e, w)
              | .ok users =>
                  { w with users, nextId := w.nextId + 1 }.issueSession around identity newUser.id

/-- `DeleteAccount`. -/
def deleteAccount (id : UserId) : Except Error Unit × World Hash :=
  if around.fails .revokeAllForUser then (.error (.failed .revokeAllForUser), w)
  else if around.fails .hardDelete then (.error (.failed .hardDelete), w)
  else if ∀ u ∈ w.users, u.id ≠ id then (.error .notFound, w)
  else
    (.ok (),
      { w with
        users := w.users.hardDelete id
        signedIn := w.signedIn.filter fun p => p.2 ≠ id })

/-- `CleanupExpiredUnverifiedAccounts`. -/
def cleanUp : World Hash := { w with users := w.users.softDeleteExpiredUnverified w.now }

end World

/-! ## Runs -/

inductive Action
  | register (around : Surroundings) (email password displayName : String)
  | verifyEmail (around : Surroundings) (email code : String)
  | resendVerification (around : Surroundings) (email : String)
  | login (around : Surroundings) (email password : String)
  | googleCallback (around : Surroundings) (identity : GoogleIdentity)
  | deleteAccount (around : Surroundings) (id : UserId)
  | cleanUp
  | sleep (seconds : ℕ)

/-- One call of the service, or time that passes. -/
def step (svc : Service Hash) (w : World Hash) : Action → Option (World Hash)
  | .register around email password displayName =>
      some (w.register svc around email password displayName).2
  | .verifyEmail around email code => some (w.verifyEmail svc around email code).2
  | .resendVerification around email => some (w.resendVerification svc around email).2
  | .login .. => some w
  | .googleCallback around identity => some (w.googleCallback svc around identity).2
  | .deleteAccount around id => some (w.deleteAccount around id).2
  | .cleanUp => some w.cleanUp
  | .sleep seconds => some { w with now := w.now + seconds }

/-! ## A service on plain data -/

/-- A hasher that keeps the secret beside its salt. -/
def plainHasher : PasswordHasher (ℕ × String) where
  hash salt secret := (salt, secret)
  verify secret hash := secret == hash.2
  dummyHash := (0, "no-such-account-placeholder")
  verify_hash := by simp

/-- The service on addresses that are in normal form, with no common password. -/
def plainService : Service (ℕ × String) where
  hasher := plainHasher
  normalizeEmail email := email
  common _ := false

end VocalCoach.Accounts
