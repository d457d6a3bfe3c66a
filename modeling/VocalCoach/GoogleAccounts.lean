/-
# Accounts that Google signs in to

A row that has a `google_id` has the address of that identity, and is verified unless the
callback linked it before it was (`World.Linked`): a row Google creates is verified from the
start.  So the clean-up spares it, the row an identity was signed in to stays the one active row
with its address, and every later callback finds it (`googleCallback_survives`).

Linking leaves an unverified row unverified.  The clean-up takes it once its code has expired,
and it keeps its `google_id`, which no other row may have then.
-/
import VocalCoach.AccountSteps

namespace VocalCoach.Accounts

open Machine

variable {Hash : Type} {svc : Service Hash} {w w' : World Hash} {around : Surroundings} {a : Action}
variable {emailOf : String → String} {u : User Hash} {identity : GoogleIdentity}

/-! ## The identities and the condition -/

/-- The address of an identity is verified, and is that of its subject. -/
def GoogleIdentity.Genuine (emailOf : String → String) (identity : GoogleIdentity) : Prop :=
  identity.emailVerified = true ∧ identity.email = emailOf identity.subject

/-- The identity a step is about. -/
def Action.presents : Action → Option GoogleIdentity
  | .googleCallback _ identity => some identity
  | _ => none

/-- Google vouches for every identity. -/
def Action.Genuine (emailOf : String → String) (a : Action) : Prop :=
  ∀ identity ∈ a.presents, identity.Genuine emailOf

instance {identity : GoogleIdentity} : Decidable (identity.Genuine emailOf) :=
  inferInstanceAs (Decidable (_ ∧ _))

instance : Decidable (a.Genuine emailOf) :=
  inferInstanceAs (Decidable (∀ identity ∈ a.presents, identity.Genuine emailOf))

def Action.isCleanUp : Action → Bool
  | .cleanUp => true
  | _ => false

/-- An account that was linked before it was verified has not expired when the clean-up runs: its
code has been entered since, or is still good. -/
def LinksInTime (w : World Hash) (a : Action) : Prop :=
  a.isCleanUp = true → ∀ u ∈ w.users, u.id ∈ w.linkedUnverified → ¬ u.expired w.now

/-- A callback that links an account finds it verified. -/
def LinksVerified (svc : Service Hash) (w : World Hash) (a : Action) : Prop :=
  ∀ identity ∈ a.presents, w.users.getByGoogleID identity.subject = none →
    ∀ existing ∈ w.users.getByEmail (svc.normalizeEmail identity.email),
      existing.emailVerified = true

instance : Decidable (LinksInTime w a) :=
  inferInstanceAs (Decidable (a.isCleanUp = true →
    ∀ u ∈ w.users, u.id ∈ w.linkedUnverified → ¬ u.expired w.now))

/-- **Where only verified accounts are linked**, none is left unverified. -/
theorem linkedUnverified_step (h : w.linkedUnverified = []) (hverified : LinksVerified svc w a)
    (hstep : Changed svc w a w') : w'.linkedUnverified = [] := by
  cases hstep with
  | nothing | registered | reissued | attempted | verified | deleted | cleanedUp => exact h
  | known | created => exact (issueSession_linkedUnverified ..).trans h
  | linked around identity hnone hget =>
    have hfound := hverified identity rfl hnone _ hget
    rw [issueSession_linkedUnverified, if_pos hfound]
    exact h

theorem LinksVerified.inTime {as : List Action}
    (h : Meets (step svc) (LinksVerified svc) {} as) : Meets (step svc) LinksInTime {} as := by
  refine meets_of_invariant (fun w => w.linkedUnverified = [])
    (fun _ _ _ hnone hcond hstep => linkedUnverified_step hnone hcond (step_cases hstep))
    (fun w a _ hnone _ _ _ u _ hmem => ?_) rfl h
  rw [hnone] at hmem
  cases hmem

/-! ## Rows that are linked -/

/-- **Linked rows**: their address, that they are there, and which of them are verified. -/
structure World.Linked (svc : Service Hash) (emailOf : String → String) (w : World Hash) : Prop where
  rows : ∀ u ∈ w.users, ∀ g, u.googleId = some g → u.active ∧ u.email = svc.normalizeEmail (emailOf g)
  proven : ∀ u ∈ w.users, u.googleId.isSome = true →
    u.emailVerified = true ∨ u.id ∈ w.linkedUnverified
  signedIn : ∀ p ∈ w.signedIn, p.1.Genuine emailOf ∧
    ∃ u ∈ w.users, u.id = p.2 ∧ u.email = svc.normalizeEmail p.1.email ∧ u.googleId.isSome = true

theorem World.Linked.empty : World.Linked svc emailOf {} := ⟨by simp, by simp, by simp⟩

/-- What becomes of a row whose link stays. -/
structure User.KeepsLink (u v : User Hash) : Prop where
  id : v.id = u.id
  email : v.email = u.email
  googleId : v.googleId = u.googleId
  emailVerified : u.emailVerified = true → v.emailVerified = true
  active : u.googleId.isSome = true → u.active → v.active

/-- A statement that changes rows one by one and unlinks none. -/
theorem World.Linked.map (h : w.Linked svc emailOf) {f : User Hash → User Hash}
    (husers : w'.users = w.users.map f) (hsignedIn : w'.signedIn = w.signedIn)
    (hlinked : w'.linkedUnverified = w.linkedUnverified)
    (hf : ∀ u ∈ w.users, u.KeepsLink (f u)) : w'.Linked svc emailOf := by
  constructor
  · rw [husers, List.forall_mem_map]
    intro u hu g hg
    rw [(hf u hu).googleId] at hg
    obtain ⟨hactive, haddress⟩ := h.rows u hu g hg
    exact ⟨(hf u hu).active (by rw [hg]; rfl) hactive, (hf u hu).email.trans haddress⟩
  · rw [husers, List.forall_mem_map]
    intro u hu hsome
    rw [(hf u hu).googleId] at hsome
    rw [(hf u hu).id, hlinked]
    exact (h.proven u hu hsome).imp (hf u hu).emailVerified id
  · intro p hp
    rw [hsignedIn] at hp
    obtain ⟨hgenuine, u, hu, hid, hemail, hsome⟩ := h.signedIn p hp
    refine ⟨hgenuine, f u, ?_, (hf u hu).id.trans hid, (hf u hu).email.trans hemail, ?_⟩
    · rw [husers]
      exact List.mem_map_of_mem hu
    · rw [(hf u hu).googleId]
      exact hsome

/-- A row is added. -/
theorem World.Linked.append (h : w.Linked svc emailOf) (husers : w'.users = w.users ++ [u])
    (hsignedIn : w'.signedIn = w.signedIn) (hlinked : w'.linkedUnverified = w.linkedUnverified)
    (hrow : ∀ g, u.googleId = some g → u.active ∧ u.email = svc.normalizeEmail (emailOf g) ∧
      u.emailVerified = true) :
    w'.Linked svc emailOf := by
  constructor
  · intro v hv g hg
    rw [husers, List.mem_append, List.mem_singleton] at hv
    rcases hv with hv | rfl
    · exact h.rows v hv g hg
    · exact ⟨(hrow g hg).1, (hrow g hg).2.1⟩
  · intro v hv hsome
    rw [husers, List.mem_append, List.mem_singleton] at hv
    rw [hlinked]
    rcases hv with hv | rfl
    · exact h.proven v hv hsome
    · obtain ⟨g, hg⟩ := Option.isSome_iff_exists.mp hsome
      exact Or.inl (hrow g hg).2.2
  · intro p hp
    rw [hsignedIn] at hp
    obtain ⟨hgenuine, v, hv, hrest⟩ := h.signedIn p hp
    exact ⟨hgenuine, v, husers ▸ List.mem_append_left _ hv, hrest⟩

/-- A row with the address of the identity is linked to it. -/
theorem World.Linked.link (h : w.Linked svc emailOf) (hsound : w.Sound svc)
    (hgenuine : identity.Genuine emailOf) {existing : User Hash}
    (hget : w.users.getByEmail (svc.normalizeEmail identity.email) = some existing) :
    World.Linked svc emailOf
      { w with
        users := w.users.update existing.id fun u => { u with googleId := some identity.subject }
        linkedUnverified :=
          if existing.emailVerified then w.linkedUnverified
          else w.linkedUnverified ++ [existing.id] } := by
  obtain ⟨hmem, haddress, hactive⟩ := Users.getByEmail_eq_some hget
  constructor
  · intro v hv g hg
    obtain ⟨u, hu, rfl⟩ := Users.mem_update hv
    split_ifs at hg ⊢ with hid
    · obtain rfl := hsound.id_inj u hu existing hmem hid
      obtain rfl : identity.subject = g := Option.some.inj hg
      exact ⟨hactive, by rw [← hgenuine.2]; exact haddress⟩
    · exact h.rows u hu g hg
  · intro v hv hsome
    obtain ⟨u, hu, rfl⟩ := Users.mem_update hv
    by_cases hid : u.id = existing.id
    · obtain rfl := hsound.id_inj u hu existing hmem hid
      rw [if_pos hid]
      by_cases hverified : u.emailVerified = true
      · exact Or.inl hverified
      · right
        dsimp only
        rw [if_neg hverified]
        exact List.mem_append_right _ (List.mem_singleton_self _)
    · rw [if_neg hid] at hsome ⊢
      refine (h.proven u hu hsome).imp_right fun hlinked => ?_
      dsimp only
      split_ifs
      · exact hlinked
      · exact List.mem_append_left _ hlinked
  · intro p hp
    obtain ⟨hgenuine', u, hu, hid, hemail, hsome⟩ := h.signedIn p hp
    refine ⟨hgenuine', _, List.mem_map_of_mem hu, ?_⟩
    dsimp only
    split_ifs
    · exact ⟨hid, hemail, rfl⟩
    · exact ⟨hid, hemail, hsome⟩

/-- The session of the callback. -/
theorem World.Linked.issueSession (h : w.Linked svc emailOf) (hgenuine : identity.Genuine emailOf)
    (hmem : u ∈ w.users) (hemail : u.email = svc.normalizeEmail identity.email)
    (hsome : u.googleId.isSome = true) :
    World.Linked svc emailOf (w.issueSession around identity u.id).2 := by
  refine ⟨by rw [issueSession_users]; exact h.rows, ?_, fun p hp => ?_⟩
  · rw [issueSession_users, issueSession_linkedUnverified]
    exact h.proven
  rw [issueSession_users]
  rcases mem_issueSession hp with hp | rfl
  · exact h.signedIn p hp
  · exact ⟨hgenuine, u, hmem, rfl, hemail, hsome⟩

/-- **A step keeps what is linked**: the clean-up takes no verified row. -/
theorem World.Linked.step (h : w.Linked svc emailOf) (hsound : w.Sound svc)
    (hgenuine : a.Genuine emailOf) (htime : LinksInTime w a) (hstep : Changed svc w a w') :
    w'.Linked svc emailOf := by
  cases hstep with
  | nothing => exact ⟨h.rows, h.proven, h.signedIn⟩
  | registered => exact h.append rfl rfl rfl fun g hg => by cases hg
  | reissued | attempted | verified =>
    -- a statement on columns that are none of Google's
    refine h.map rfl rfl rfl fun u _ => ?_
    split_ifs <;> exact ⟨rfl, rfl, rfl, by simp, fun _ hactive => hactive⟩
  | known around identity hget =>
    obtain ⟨hmem, hgoogle, -⟩ := Users.getByGoogleID_eq_some hget
    have hid := hgenuine identity rfl
    refine h.issueSession hid hmem ?_ (by rw [hgoogle]; rfl)
    rw [hid.2]
    exact (h.rows _ hmem _ hgoogle).2
  | @linked around identity existing hnone hget =>
    obtain ⟨hmem, haddress, -⟩ := Users.getByEmail_eq_some hget
    have hid := hgenuine identity rfl
    have hlinked : { existing with googleId := some identity.subject } ∈
        w.users.update existing.id fun u => { u with googleId := some identity.subject } :=
      List.mem_map.mpr ⟨existing, hmem, if_pos rfl⟩
    exact (h.link hsound hid hget).issueSession
      (u := { existing with googleId := some identity.subject }) hid hlinked haddress rfl
  | created around identity hnone =>
    have hid := hgenuine identity rfl
    have hrow : ∀ g, (googleUser svc w identity).googleId = some g →
        (googleUser svc w identity).active ∧
          (googleUser svc w identity).email = svc.normalizeEmail (emailOf g) ∧
          (googleUser svc w identity).emailVerified = true := by
      intro g hg
      obtain rfl : identity.subject = g := Option.some.inj hg
      exact ⟨rfl, congrArg svc.normalizeEmail hid.2, rfl⟩
    have happend : World.Linked svc emailOf
        { w with users := w.users ++ [googleUser svc w identity], nextId := w.nextId + 1 } :=
      h.append rfl rfl rfl hrow
    exact happend.issueSession (u := googleUser svc w identity) hid
      (List.mem_append_right _ (List.mem_singleton_self _)) rfl rfl
  | deleted around id =>
    refine ⟨fun u hu => h.rows u (List.mem_of_mem_filter hu),
      fun u hu => h.proven u (List.mem_of_mem_filter hu), fun p hp => ?_⟩
    obtain ⟨hp, hne⟩ := List.mem_filter.mp hp
    obtain ⟨hid, u, hu, huid, hrest⟩ := h.signedIn p hp
    refine ⟨hid, u, List.mem_filter.mpr ⟨hu, ?_⟩, huid, hrest⟩
    rw [huid]
    exact hne
  | cleanedUp =>
    refine h.map rfl rfl rfl fun u hu => ?_
    split_ifs with hexpired
    · refine ⟨rfl, rfl, rfl, fun hverified => hverified, fun hsome => ?_⟩
      rcases h.proven u hu hsome with hverified | hlinked
      · rw [hexpired.1] at hverified
        cases hverified
      · exact absurd hexpired (htime rfl u hu hlinked)
    · exact ⟨rfl, rfl, rfl, fun hverified => hverified, fun _ hactive => hactive⟩

/-! ## Coming back -/

/-- The service as it is when nothing fails. -/
def Surroundings.Sound (around : Surroundings) : Prop := ∀ d, around.fails d = false

/-- **The callback signs in to the active row with the address.** -/
theorem googleCallback_eq_ok (h : w.Linked svc emailOf) (hsound : w.Sound svc)
    (haround : around.Sound) (hgenuine : identity.Genuine emailOf) (hmem : u ∈ w.users)
    (hactive : u.active) (hemail : u.email = svc.normalizeEmail identity.email) :
    (w.googleCallback svc around identity).1 = .ok u.id := by
  have hsession : ∀ (w₁ : World Hash) id, (w₁.issueSession around identity id).1 = .ok id := by
    intro w₁ id
    simp [World.issueSession, haround .issueSession]
  -- a row that is linked to the identity is this one
  have hlinked : ∀ v ∈ w.users, v.googleId = some identity.subject → v = u := by
    intro v hv hgoogle
    obtain ⟨hvactive, hvemail⟩ := h.rows v hv _ hgoogle
    rw [← hgenuine.2, ← hemail] at hvemail
    exact hsound.email_inj v hv u hmem hvactive hactive hvemail
  simp only [World.googleCallback, haround .getByGoogleID, Bool.false_eq_true, if_false]
  cases hget : w.users.getByGoogleID identity.subject with
  | some v =>
    obtain ⟨hv, hgoogle, -⟩ := Users.getByGoogleID_eq_some hget
    rw [hlinked v hv hgoogle]
    exact hsession w u.id
  | none =>
    have hfound : w.users.getByEmail (svc.normalizeEmail identity.email) = some u := by
      cases hfound : w.users.getByEmail (svc.normalizeEmail identity.email) with
      | none => exact absurd hemail (Users.getByEmail_eq_none hfound hmem hactive)
      | some v =>
        obtain ⟨hv, hvemail, hvactive⟩ := Users.getByEmail_eq_some hfound
        rw [hsound.email_inj v hv u hmem hvactive hactive (hvemail.trans hemail.symm)]
    have hfree : ¬ ∃ v ∈ w.users, v.id ≠ u.id ∧ v.googleId = some identity.subject := by
      rintro ⟨v, hv, hne, hgoogle⟩
      exact hne (congrArg User.id (hlinked v hv hgoogle))
    simp only [hgenuine.1, Bool.true_eq_false, if_false, haround .getByEmail, Bool.false_eq_true,
      hfound, haround .linkGoogleID, Users.linkGoogleID, hfree]
    exact hsession _ u.id

/-- The row is there, and whenever nothing fails the callback signs in to it. -/
def World.Survives (svc : Service Hash) (w : World Hash) (p : GoogleIdentity × UserId) : Prop :=
  (∃ u ∈ w.users, u.id = p.2 ∧ u.active) ∧
    ∀ around : Surroundings, around.Sound → (w.googleCallback svc around p.1).1 = .ok p.2

/-- **An account an identity was signed in to survives** until its owner deletes it, where no
account that was linked unverified is left to expire; so it is where only verified accounts are
linked. -/
theorem googleCallback_survives {as : List Action} (hgenuine : ∀ a ∈ as, a.Genuine emailOf)
    (hrun : exec (step svc) {} as = some w) :
    (Meets (step svc) (LinksVerified svc) {} as → Meets (step svc) LinksInTime {} as) ∧
    (Meets (step svc) LinksInTime {} as → ∀ p ∈ w.signedIn, w.Survives svc p) := by
  refine ⟨LinksVerified.inTime, fun htime p hp => ?_⟩
  have hmeets := meets_and htime hgenuine
  obtain ⟨hsound, hlinked⟩ := invariant (fun w => w.Sound svc ∧ w.Linked svc emailOf)
    (fun _ _ _ h hcond hstep => ⟨h.1.step (step_cases hstep),
      h.2.step h.1 hcond.2 hcond.1 (step_cases hstep)⟩)
    ⟨World.Sound.empty, World.Linked.empty⟩ hmeets hrun
  obtain ⟨hid, u, hmem, huid, hemail, hsome⟩ := hlinked.signedIn p hp
  obtain ⟨g, hg⟩ := Option.isSome_iff_exists.mp hsome
  have hactive := (hlinked.rows u hmem g hg).1
  refine ⟨⟨u, hmem, huid, hactive⟩, fun around haround => ?_⟩
  rw [← huid]
  exact googleCallback_eq_ok hlinked hsound haround hid hmem hactive hemail

/-- An identity of Google's. -/
def someIdentity : GoogleIdentity := ⟨"sub-1", "a@example.com", true, "A"⟩

/-- An address is registered, linked to a Google identity, and then verified; two days later the
clean-up runs. -/
def linkedThenVerified : List Action :=
  [.register {} "a@example.com" "correct-horse-battery" "A", .googleCallback {} someIdentity,
    .verifyEmail {} "a@example.com" "000000", .sleep (2 * verificationCodeTTL), .cleanUp]

/-- The same, where the code is never entered. -/
def neverVerified : List Action :=
  [.register {} "a@example.com" "correct-horse-battery" "A", .googleCallback {} someIdentity,
    .sleep (2 * verificationCodeTTL), .cleanUp]

def linkedAccount : World (ℕ × String) :=
  (exec (step plainService) {} linkedThenVerified).get (by decide +kernel)

theorem googleCallback_survives_linkedAccount :
    linkedAccount.Survives plainService (someIdentity, 0) := by
  have hgenuine : ∀ a ∈ linkedThenVerified, a.Genuine fun _ => "a@example.com" := by decide +kernel
  have htime : Meets (step plainService) LinksInTime {} linkedThenVerified := by decide +kernel
  have hsignedIn : linkedAccount.signedIn = [(someIdentity, 0)] := by decide +kernel
  exact (googleCallback_survives hgenuine (Option.some_get _).symm).2 htime _
    (hsignedIn ▸ List.mem_singleton_self _)

/-- The clean-up takes the account that Google signed in to, and the identity cannot come back. -/
theorem not_forall_survives :
    ¬ ∀ (emailOf : String → String) (as : List Action) (w : World (ℕ × String)),
      (∀ a ∈ as, a.Genuine emailOf) → exec (step plainService) {} as = some w →
      ∀ p ∈ w.signedIn, w.Survives plainService p := by
  intro h
  have hgenuine : ∀ a ∈ neverVerified, a.Genuine fun _ => "a@example.com" := by decide +kernel
  have hrun : (exec (step plainService) {} neverVerified).map (fun w =>
      decide (w.signedIn = [(someIdentity, 0)] ∧
        (w.googleCallback plainService {} someIdentity).1 = .error .emailTaken)) = some true := by
    decide +kernel
  obtain ⟨w, hw, htrue⟩ := Option.map_eq_some_iff.mp hrun
  obtain ⟨hsignedIn, herror⟩ := of_decide_eq_true htrue
  have hsurvives := h _ _ w hgenuine hw (someIdentity, 0) (hsignedIn ▸ List.mem_singleton_self _)
  have hok := hsurvives.2 {} fun _ => rfl
  rw [herror] at hok
  cases hok

end VocalCoach.Accounts
