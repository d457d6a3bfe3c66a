/-
# The refresh token store

`redisrepo/refresh_token_store.go`: refresh tokens in Redis, grouped into families.  Each
method of the store is here twice: as what it computes when nothing else goes on
(`Store.rotate` and the others), and as a `Call` in flight, by the Redis command it sends
next, for the runs where calls interleave.  A `TxPipeline` is one command.

A token and its hash are one number, and so are the ids of users and families; new ones
come from counters, as random ones do not repeat.  `World` also keeps the history the
results speak of: what was issued, which token followed which, and what was revoked.
-/
import VocalCoach.ExpiringKeys
import VocalCoach.Machine

namespace VocalCoach.RefreshTokens

open ExpiringKeys Machine

abbrev Time := ℕ

abbrev UserId := ℕ

abbrev FamilyId := ℕ

abbrev Token := ℕ

/-! ## The keys -/

/-- `tokenStatus`. -/
inductive TokenStatus
  | active
  | rotated
  deriving DecidableEq, Repr

/-- `tokenRecord`. -/
structure TokenRecord where
  userId : UserId
  familyId : FamilyId
  status : TokenStatus
  deriving DecidableEq, Repr

/-- `REFRESH_TOKEN_TTL` as it is by default, in seconds. -/
def refreshTokenTTL : Time := 720 * 3600

/-- How long a token that was rotated away is remembered, in seconds. -/
def grace : Time := 30

/-- The four kinds of keys: `tokenKey`, `familyTokensKey`, `familyRevokedKey`,
`userFamiliesKey`. -/
structure Store where
  tokens : Keys Token TokenRecord := fun _ => none
  familyTokens : Keys FamilyId (List Token) := fun _ => none
  familyRevoked : Keys FamilyId Unit := fun _ => none
  userFamilies : Keys UserId (List FamilyId) := fun _ => none

/-- What a call returns instead of a token. -/
inductive Error
  | refreshTokenInvalid
  | refreshTokenReused
  deriving DecidableEq, Repr

namespace Store

variable (ttl now : Time) (s : Store)

/-! ### Commands -/

/-- The pipeline of `issueInFamily`. -/
def issueInFamily (userId : UserId) (familyId : FamilyId) (token : Token) : Store :=
  { s with
    tokens := s.tokens.set token ⟨userId, familyId, .active⟩ (now + ttl)
    familyTokens := s.familyTokens.sadd now familyId token (now + ttl)
    userFamilies := s.userFamilies.sadd now userId familyId (now + ttl) }

/-- The `SET` of `Rotate`. -/
def markRotated (token : Token) (record : TokenRecord) : Store :=
  { s with tokens := s.tokens.set token { record with status := .rotated } (now + grace) }

/-- The pipeline of `revokeFamily`, with the hashes it has listed. -/
def dropFamily (familyId : FamilyId) (hashes : List Token) : Store :=
  { s with
    tokens := s.tokens.delAll hashes
    familyRevoked := s.familyRevoked.set familyId () (now + ttl)
    familyTokens := s.familyTokens.del familyId }

/-- The `DEL` of `Revoke`. -/
def dropToken (token : Token) : Store := { s with tokens := s.tokens.del token }

/-- The `DEL` that ends `RevokeAllForUser`. -/
def dropUser (userId : UserId) : Store := { s with userFamilies := s.userFamilies.del userId }

section

variable {ttl now s} {userId : UserId} {familyId : FamilyId} {token : Token} {record : TokenRecord}
variable {hashes : List Token}

@[simp] theorem issueInFamily_tokens : (s.issueInFamily ttl now userId familyId token).tokens =
    s.tokens.set token ⟨userId, familyId, .active⟩ (now + ttl) := rfl

@[simp] theorem issueInFamily_familyTokens :
    (s.issueInFamily ttl now userId familyId token).familyTokens =
      s.familyTokens.sadd now familyId token (now + ttl) := rfl

@[simp] theorem issueInFamily_familyRevoked :
    (s.issueInFamily ttl now userId familyId token).familyRevoked = s.familyRevoked := rfl

@[simp] theorem issueInFamily_userFamilies :
    (s.issueInFamily ttl now userId familyId token).userFamilies =
      s.userFamilies.sadd now userId familyId (now + ttl) := rfl

@[simp] theorem markRotated_tokens : (s.markRotated now token record).tokens =
    s.tokens.set token { record with status := .rotated } (now + grace) := rfl

@[simp] theorem dropFamily_tokens : (s.dropFamily ttl now familyId hashes).tokens =
    s.tokens.delAll hashes := rfl

@[simp] theorem dropFamily_familyRevoked : (s.dropFamily ttl now familyId hashes).familyRevoked =
    s.familyRevoked.set familyId () (now + ttl) := rfl

@[simp] theorem dropFamily_familyTokens : (s.dropFamily ttl now familyId hashes).familyTokens =
    s.familyTokens.del familyId := rfl

@[simp] theorem dropToken_tokens : (s.dropToken token).tokens = s.tokens.del token := rfl

end

/-! ### Whole calls -/

/-- `revokeFamily`. -/
def revokeFamily (familyId : FamilyId) : Store :=
  s.dropFamily ttl now familyId (s.familyTokens.members now familyId)

/-- `Rotate`, with the token it would issue. -/
def rotate (token fresh : Token) : Except Error (Token × UserId) × Store :=
  match s.tokens.get now token with
  | none => (.error .refreshTokenInvalid, s)
  | some record =>
      if record.status = .rotated then
        (.error .refreshTokenReused, s.revokeFamily ttl now record.familyId)
      else if (s.familyRevoked.get now record.familyId).isSome then
        (.error .refreshTokenInvalid, s)
      else
        (.ok (fresh, record.userId),
          (s.markRotated now token record).issueInFamily ttl now record.userId record.familyId
            fresh)

/-- `Rotate` would accept the token: both of its checks pass. -/
def Accepts (token : Token) (record : TokenRecord) : Prop :=
  s.tokens.get now token = some record ∧ record.status = .active ∧
    s.familyRevoked.get now record.familyId = none

instance {now : Time} {s : Store} {token : Token} {record : TokenRecord} :
    Decidable (s.Accepts now token record) :=
  inferInstanceAs (Decidable (_ ∧ _ ∧ _))

end Store

/-! ## Calls in flight -/

/-- Who has called `revokeFamily`. -/
inductive Origin
  /-- `Rotate`, which has been handed a token that was rotated away. -/
  | rotate
  /-- `RevokeAllForUser`, with the families it has yet to revoke.  `existing` are the
  families the user had when it was called. -/
  | all (userId : UserId) (families existing : List FamilyId)
  deriving DecidableEq, Repr

/-- A call in flight, by the command it sends next. -/
inductive Call
  | issue (userId : UserId)
  /-- `Rotate` before `GET`. -/
  | rotateGet (token : Token)
  /-- `Rotate` before `EXISTS`. -/
  | rotateExists (token : Token) (record : TokenRecord)
  /-- `Rotate` before `SET`. -/
  | rotateMark (token : Token) (record : TokenRecord)
  /-- `Rotate` before the pipeline of `issueInFamily`. -/
  | rotateIssue (token : Token) (record : TokenRecord)
  /-- `revokeFamily` before `SMEMBERS`. -/
  | familyMembers (familyId : FamilyId) (origin : Origin)
  /-- `revokeFamily` before its pipeline. -/
  | familyExec (familyId : FamilyId) (hashes : List Token) (origin : Origin)
  | revoke (token : Token)
  /-- `RevokeAllForUser` before `SMEMBERS`. -/
  | userMembers (userId : UserId) (existing : List FamilyId)
  /-- `RevokeAllForUser` before `DEL`. -/
  | userDel (userId : UserId) (existing : List FamilyId)
  deriving DecidableEq, Repr

/-- A token that was issued. -/
structure Issued where
  token : Token
  userId : UserId
  familyId : FamilyId
  issuedAt : Time
  deriving DecidableEq, Repr

/-- The store, the clock and the calls in flight, and what happened so far. -/
structure World where
  store : Store := {}
  now : Time := 0
  calls : List Call := []
  nextToken : Token := 0
  nextFamily : FamilyId := 0
  issued : List Issued := []
  /-- The tokens `Rotate` returned, each with the one that was presented. -/
  successors : List (Token × Token) := []
  /-- The families that existed when a revocation of them was called that has returned. -/
  revoked : List FamilyId := []

inductive Request
  | issue (userId : UserId)
  | rotate (token : Token)
  | revoke (token : Token)
  | revokeAllForUser (userId : UserId)
  deriving DecidableEq, Repr

inductive Action
  | request (r : Request)
  /-- A call sends its next command, other than `SMEMBERS`. -/
  | advance (c : Call)
  /-- A call sends `SMEMBERS`, which returns these members, in some order. -/
  | members (c : Call) (listed : List ℕ)
  /-- A call ends with an error where it stands. -/
  | abort (c : Call)
  | sleep (seconds : ℕ)
  deriving DecidableEq, Repr

variable (ttl : Time)

/-- The families of a user so far. -/
def World.familiesOf (w : World) (userId : UserId) : List FamilyId :=
  (w.issued.filter fun i => i.userId = userId).map Issued.familyId

/-- A request arrives. -/
def Request.call (w : World) : Request → Call
  | .issue userId => .issue userId
  | .rotate token => .rotateGet token
  | .revoke token => .revoke token
  | .revokeAllForUser userId => .userMembers userId (w.familiesOf userId)

/-- `issueInFamily` sends its pipeline. -/
def World.issue (w : World) (userId : UserId) (familyId : FamilyId) : World :=
  { w with
    store := w.store.issueInFamily ttl w.now userId familyId w.nextToken
    nextToken := w.nextToken + 1
    issued := w.issued ++ [⟨w.nextToken, userId, familyId, w.now⟩] }

/-- What follows once `revokeFamily` has returned. -/
def Origin.next : Origin → List Call
  | .rotate => []
  | .all userId [] existing => [.userDel userId existing]
  | .all userId (familyId :: families) existing =>
      [.familyMembers familyId (.all userId families existing)]

/-- A call sends its next command; `rest` are the other calls in flight. -/
def Call.advance (w : World) (rest : List Call) : Call → Option World
  | .issue userId =>
      some { w.issue ttl userId w.nextFamily with calls := rest, nextFamily := w.nextFamily + 1 }
  | .rotateGet token =>
      match w.store.tokens.get w.now token with
      | none => some { w with calls := rest }
      | some record =>
          if record.status = .rotated then
            some { w with calls := .familyMembers record.familyId .rotate :: rest }
          else some { w with calls := .rotateExists token record :: rest }
  | .rotateExists token record =>
      if (w.store.familyRevoked.get w.now record.familyId).isSome then
        some { w with calls := rest }
      else some { w with calls := .rotateMark token record :: rest }
  | .rotateMark token record =>
      some { w with
        store := w.store.markRotated w.now token record
        calls := .rotateIssue token record :: rest }
  | .rotateIssue token record =>
      some { w.issue ttl record.userId record.familyId with
        calls := rest
        successors := w.successors ++ [(token, w.nextToken)] }
  | .familyExec familyId hashes origin =>
      some { w with
        store := w.store.dropFamily ttl w.now familyId hashes
        calls := origin.next ++ rest
        revoked := w.revoked ++ [familyId] }
  | .revoke token => some { w with store := w.store.dropToken token, calls := rest }
  | .userDel userId existing =>
      some { w with
        store := w.store.dropUser userId
        calls := rest
        revoked := w.revoked ++ existing }
  | .familyMembers .. | .userMembers .. => none

/-- A call is told the members of a set. -/
def Call.members (w : World) (rest : List Call) (listed : List ℕ) : Call → Option World
  | .familyMembers familyId origin =>
      if listed.Perm (w.store.familyTokens.members w.now familyId) then
        some { w with calls := .familyExec familyId listed origin :: rest }
      else none
  | .userMembers userId existing =>
      if listed.Perm (w.store.userFamilies.members w.now userId) then
        some { w with calls := (Origin.all userId listed existing).next ++ rest }
      else none
  | _ => none

/-- One step of the store and its callers. -/
def step (w : World) : Action → Option World
  | .request r => some { w with calls := r.call w :: w.calls }
  | .advance c => if c ∈ w.calls then c.advance ttl w (w.calls.erase c) else none
  | .members c listed => if c ∈ w.calls then c.members w (w.calls.erase c) listed else none
  | .abort c => if c ∈ w.calls then some { w with calls := w.calls.erase c } else none
  | .sleep seconds => some { w with now := w.now + seconds }

end VocalCoach.RefreshTokens
