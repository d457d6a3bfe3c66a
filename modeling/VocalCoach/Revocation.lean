/-
# Which tokens a revocation reaches

A token is *past* once its time is up or its family has a revoked marker that outlives it,
and *reached* while its family is in its user's families and its hash is in its family's
tokens, both sets to stay as long as it does.  `World.Reachable` says that every token is
one or the other.  A token escapes both only where it is written while `RevokeAllForUser`,
having listed the families, no longer has this one before it (`NoneMissed`).

`World.Gone` says that the tokens of a family whose revocation has returned are past.  A
successor that `Rotate` writes afterwards is not (`NoneRevived`).
-/
import VocalCoach.TokenSteps

namespace VocalCoach.RefreshTokens

open ExpiringKeys Machine

variable {ttl now : Time} {w w' : World} {a : Action} {c : Call} {rest : List Call} {s : Store}
variable {i : Issued} {userId : UserId} {familyId : FamilyId} {token : Token} {hashes : List Token}

/-! ## A token in the store -/

/-- No `Rotate` accepts the token from now on, unless its family loses its marker. -/
def Issued.Past (ttl now : Time) (s : Store) (i : Issued) : Prop :=
  i.issuedAt + ttl ≤ now ∨
    ∃ t, s.familyRevoked i.familyId = some t ∧ i.issuedAt + ttl ≤ t.expiresAt

/-- Both sets name the token, and stay as long as it does. -/
structure Issued.Reached (ttl : Time) (s : Store) (i : Issued) : Prop where
  family : ∃ t, s.userFamilies i.userId = some t ∧ i.familyId ∈ t.value ∧
    i.issuedAt + ttl ≤ t.expiresAt
  token : ∃ t, s.familyTokens i.familyId = some t ∧ i.token ∈ t.value ∧
    i.issuedAt + ttl ≤ t.expiresAt

theorem Issued.Past.later {now' : Time} (h : i.Past ttl now s) (hle : now ≤ now') :
    i.Past ttl now' s :=
  h.imp_left fun hexpired => Nat.le_trans hexpired hle

/-- A family that is revoked again is revoked for longer. -/
theorem Issued.Past.dropFamily (h : i.Past ttl now s) (hpast : i.issuedAt ≤ now)
    (familyId : FamilyId) (hashes : List Token) :
    i.Past ttl now (s.dropFamily ttl now familyId hashes) := by
  by_cases heq : i.familyId = familyId
  · subst heq
    exact Or.inr ⟨_, Keys.set_self .., Nat.add_le_add_right hpast ttl⟩
  · refine h.imp_right ?_
    rintro ⟨t, ht, hle⟩
    exact ⟨t, (Keys.set_of_ne heq ..).trans ht, hle⟩

/-- The marker of a family outlives every token of it. -/
theorem Issued.past_dropFamily (hpast : i.issuedAt ≤ now) (hashes : List Token) :
    i.Past ttl now (s.dropFamily ttl now i.familyId hashes) :=
  Or.inr ⟨_, Keys.set_self .., Nat.add_le_add_right hpast ttl⟩

theorem Issued.Reached.dropFamily (h : i.Reached ttl s) (hne : i.familyId ≠ familyId) :
    i.Reached ttl (s.dropFamily ttl now familyId hashes) := by
  obtain ⟨t, ht, hmem, hle⟩ := h.token
  exact ⟨h.family, t, (Keys.del_of_ne hne).trans ht, hmem, hle⟩

theorem Issued.Reached.dropUser (h : i.Reached ttl s) (hne : i.userId ≠ userId) :
    i.Reached ttl (s.dropUser userId) := by
  obtain ⟨t, ht, hmem, hle⟩ := h.family
  exact ⟨⟨t, (Keys.del_of_ne hne).trans ht, hmem, hle⟩, h.token⟩

/-- A token that was reached stays so when another one is issued. -/
theorem Issued.Reached.issueInFamily (h : i.Reached ttl s) (hlive : now < i.issuedAt + ttl)
    (hpast : i.issuedAt ≤ now) (userId : UserId) (familyId : FamilyId) (token : Token) :
    i.Reached ttl (s.issueInFamily ttl now userId familyId token) := by
  have hlater : i.issuedAt + ttl ≤ now + ttl := Nat.add_le_add_right hpast ttl
  obtain ⟨t, ht, hmem, hle⟩ := h.family
  obtain ⟨t', ht', hmem', hle'⟩ := h.token
  exact ⟨Keys.sadd_keeps ht hmem hle hlive hlater userId familyId,
    Keys.sadd_keeps ht' hmem' hle' hlive hlater familyId token⟩

/-- A token that has just been issued is reached. -/
theorem reached_issueInFamily (s : Store) (now : Time) (userId : UserId) (familyId : FamilyId)
    (token : Token) :
    Issued.Reached ttl (s.issueInFamily ttl now userId familyId token)
      ⟨token, userId, familyId, now⟩ :=
  ⟨⟨_, Keys.sadd_self .., List.mem_insert_self, Nat.le_refl _⟩,
    ⟨_, Keys.sadd_self .., List.mem_insert_self, Nat.le_refl _⟩⟩

/-- **A token that `Rotate` accepts is not past.** -/
theorem World.Sound.accepts (h : w.Sound ttl) {record : TokenRecord}
    (hacc : w.store.Accepts w.now token record) :
    ∃ i ∈ w.issued, i.token = token ∧ i.userId = record.userId ∧ i.familyId = record.familyId ∧
      ¬ i.Past ttl w.now w.store := by
  obtain ⟨hget, hactive, hlive⟩ := hacc
  obtain ⟨t, ht, hlt, rfl⟩ := Keys.get_eq_some.mp hget
  obtain ⟨i, hi, htoken, huser, hfamily, hexpires⟩ := h.store.records token t ht
  refine ⟨i, hi, htoken, huser, hfamily, ?_⟩
  rw [hexpires hactive] at hlt
  rintro (hexpired | ⟨m, hm, hle⟩)
  · exact absurd hlt (Nat.not_lt.mpr hexpired)
  · have hgone := Keys.get_eq_none.mp hlive m (hfamily ▸ hm)
    exact absurd (Nat.lt_of_lt_of_le hlt hle) (Nat.not_lt.mpr hgone)

/-! ## What a sweep has before it -/

/-- The families `RevokeAllForUser` has yet to revoke, once it has listed them. -/
def Call.sweeping : Call → Option (UserId × List FamilyId)
  | .familyMembers familyId (.all userId families _)
  | .familyExec familyId _ (.all userId families _) => some (userId, familyId :: families)
  | .userDel userId _ => some (userId, [])
  | _ => none

/-- The token a command issues: its user and its family. -/
def Action.issues (w : World) : Action → Option (UserId × FamilyId)
  | .advance (.issue userId) => some (userId, w.nextFamily)
  | .advance (.rotateIssue _ record) => some (record.userId, record.familyId)
  | _ => none

/-- No token is issued to a user while a sweep that has listed the user's families no
longer has this one before it. -/
def NoneMissed (w : World) (a : Action) : Prop :=
  ∀ p ∈ a.issues w, ∀ c ∈ w.calls, ∀ q ∈ c.sweeping, q.1 = p.1 → p.2 ∈ q.2

instance : Decidable (NoneMissed w a) :=
  inferInstanceAs (Decidable (∀ p ∈ a.issues w, ∀ c ∈ w.calls, ∀ q ∈ c.sweeping,
    q.1 = p.1 → p.2 ∈ q.2))

/-- All tokens of the user that are not past are of these families. -/
def World.Within (ttl : Time) (w : World) (q : UserId × List FamilyId) : Prop :=
  ∀ i ∈ w.issued, i.userId = q.1 → i.Past ttl w.now w.store ∨ i.familyId ∈ q.2

/-- **Every token is past or reached**, and a sweep has every family before it that it has
not seen to. -/
structure World.Reachable (ttl : Time) (w : World) : Prop where
  tokens : ∀ i ∈ w.issued, i.Past ttl w.now w.store ∨ i.Reached ttl w.store
  sweeps : ∀ c ∈ w.calls, ∀ q ∈ c.sweeping, w.Within ttl q

theorem World.Reachable.empty : World.Reachable ttl {} := ⟨by simp, by simp⟩

theorem World.Within.later {q : UserId × List FamilyId} (h : w.Within ttl q)
    (hissued : w'.issued = w.issued)
    (hpast : ∀ i ∈ w.issued, i.Past ttl w.now w.store → i.Past ttl w'.now w'.store) :
    w'.Within ttl q := by
  intro i hi huser
  rw [hissued] at hi
  exact (h i hi huser).imp_left (hpast i hi)

/-- A step that issues nothing. -/
theorem World.Reachable.keep (h : w.Reachable ttl) (hissued : w'.issued = w.issued)
    (hpast : ∀ i ∈ w.issued, i.Past ttl w.now w.store → i.Past ttl w'.now w'.store)
    (hreached : ∀ i ∈ w.issued, i.Reached ttl w.store →
      i.Past ttl w'.now w'.store ∨ i.Reached ttl w'.store)
    (hcalls : ∀ c ∈ w'.calls, c ∈ w.calls ∨ ∀ q ∈ c.sweeping, w'.Within ttl q) :
    w'.Reachable ttl := by
  refine ⟨fun i hi => ?_, fun c hc q hq => ?_⟩
  · rw [hissued] at hi
    rcases h.tokens i hi with hgone | hkept
    · exact Or.inl (hpast i hi hgone)
    · exact hreached i hi hkept
  · rcases hcalls c hc with hold | hnew
    · exact (h.sweeps c hold q hq).later hissued hpast
    · exact hnew q hq

/-- A step that issues nothing and leaves the sets and the markers as they are. -/
theorem World.Reachable.quiet (h : w.Reachable ttl) (hissued : w'.issued = w.issued)
    (hnow : w.now ≤ w'.now) (hrevoked : w'.store.familyRevoked = w.store.familyRevoked)
    (htokens : w'.store.familyTokens = w.store.familyTokens)
    (hfamilies : w'.store.userFamilies = w.store.userFamilies)
    (hcalls : ∀ c ∈ w'.calls, c ∈ w.calls ∨ c.sweeping = none ∨ ∃ d ∈ w.calls, c.sweeping =
      d.sweeping) : w'.Reachable ttl := by
  have hpast : ∀ i ∈ w.issued, i.Past ttl w.now w.store → i.Past ttl w'.now w'.store := by
    intro i _ hgone
    refine (hgone.later hnow).imp_right ?_
    rw [hrevoked]
    exact id
  refine h.keep hissued hpast (fun i _ hkept => Or.inr ?_) fun c hc => ?_
  · exact ⟨by rw [hfamilies]; exact hkept.family, by rw [htokens]; exact hkept.token⟩
  · rcases hcalls c hc with hold | hnone | ⟨d, hd, heq⟩
    · exact Or.inl hold
    · exact Or.inr fun q hq => by rw [hnone] at hq; cases hq
    · exact Or.inr fun q hq => (h.sweeps d hd q (heq ▸ hq)).later hissued hpast

/-- A token is issued. -/
theorem World.Reachable.issue (h : w.Reachable ttl) (hsound : w.Sound ttl)
    (hissued : w'.issued = w.issued ++ [⟨w.nextToken, userId, familyId, w.now⟩])
    (hstore : w'.store = w.store.issueInFamily ttl w.now userId familyId w.nextToken)
    (hnow : w'.now = w.now) (hcalls : w'.calls ⊆ w.calls)
    (hmissed : ∀ c ∈ w.calls, ∀ q ∈ c.sweeping, q.1 = userId → familyId ∈ q.2) :
    w'.Reachable ttl := by
  have hpast : ∀ i : Issued, i.Past ttl w.now w.store → i.Past ttl w'.now w'.store := by
    rw [hstore, hnow]
    exact fun _ hgone => hgone
  refine ⟨fun i hi => ?_, fun c hc q hq i hi huser => ?_⟩
  · rw [hissued, List.mem_append, List.mem_singleton] at hi
    rcases hi with hi | rfl
    · by_cases hexpired : i.issuedAt + ttl ≤ w.now
      · exact Or.inl (hpast i (Or.inl hexpired))
      · refine (h.tokens i hi).imp (hpast i) fun hkept => ?_
        rw [hstore]
        exact hkept.issueInFamily (Nat.lt_of_not_le hexpired) (hsound.log.past i hi) _ _ _
    · rw [hstore]
      exact Or.inr (reached_issueInFamily ..)
  · rw [hissued, List.mem_append, List.mem_singleton] at hi
    rcases hi with hi | rfl
    · exact (h.sweeps c (hcalls hc) q hq i hi huser).imp_left (hpast i)
    · exact Or.inr (hmissed c (hcalls hc) q hq huser.symm)

/-- What a sweep has before it once it has revoked a family. -/
theorem Origin.sweeping_next {userId : UserId} {families existing : List FamilyId} {d : Call}
    (hd : d ∈ (Origin.all userId families existing).next) : d.sweeping = some (userId, families) := by
  cases families <;> obtain rfl := List.mem_singleton.mp hd <;> rfl

/-- A family is revoked. -/
theorem World.Reachable.drop (h : w.Reachable ttl) (hsound : w.Sound ttl) {origin : Origin}
    (hmem : Call.familyExec familyId hashes origin ∈ w.calls) {revoked : List FamilyId} :
    { w with
      store := w.store.dropFamily ttl w.now familyId hashes
      calls := origin.next ++ w.calls.erase (.familyExec familyId hashes origin)
      revoked }.Reachable ttl := by
  have hpast : ∀ i ∈ w.issued, i.Past ttl w.now w.store →
      i.Past ttl w.now (w.store.dropFamily ttl w.now familyId hashes) :=
    fun i hi hgone => hgone.dropFamily (hsound.log.past i hi) _ _
  refine h.keep rfl hpast (fun i hi hkept => ?_) fun d hd => ?_
  · by_cases heq : i.familyId = familyId
    · subst heq
      exact Or.inl (Issued.past_dropFamily (hsound.log.past i hi) hashes)
    · exact Or.inr (hkept.dropFamily heq)
  · rcases List.mem_append.mp hd with hd | hd
    · refine Or.inr fun q hq i hi huser => ?_
      cases origin with
      | rotate => cases hd
      | all userId families existing =>
        rw [Origin.sweeping_next hd] at hq
        cases hq
        -- this family is done, and the rest of them are still to come
        rcases h.sweeps _ hmem _ rfl i hi huser with hgone | hbefore
        · exact Or.inl (hpast i hi hgone)
        · rcases List.mem_cons.mp hbefore with heq | hbefore
          · subst heq
            exact Or.inl (Issued.past_dropFamily (hsound.log.past i hi) hashes)
          · exact Or.inr hbefore
    · exact Or.inl (List.mem_of_mem_erase hd)

/-- The families of a user are deleted. -/
theorem World.Reachable.dropUser (h : w.Reachable ttl) {existing revoked : List FamilyId}
    (hmem : Call.userDel userId existing ∈ w.calls) :
    { w with
      store := w.store.dropUser userId
      calls := w.calls.erase (.userDel userId existing)
      revoked }.Reachable ttl := by
  refine h.keep rfl (fun _ _ hgone => hgone) (fun i hi hkept => ?_)
    fun d hd => Or.inl (List.mem_of_mem_erase hd)
  by_cases huser : i.userId = userId
  · exact Or.inl ((h.sweeps _ hmem _ rfl i hi huser).resolve_right List.not_mem_nil)
  · exact Or.inr (hkept.dropUser huser)

/-- The families of a user are listed. -/
theorem World.Reachable.list (h : w.Reachable ttl) {listed : List ℕ} {existing : List FamilyId}
    (hlisted : listed.Perm (w.store.userFamilies.members w.now userId)) :
    { w with
      calls := (Origin.all userId listed existing).next ++ w.calls.erase
        (.userMembers userId existing) }.Reachable ttl := by
  refine h.keep rfl (fun _ _ hgone => hgone) (fun _ _ hkept => Or.inr hkept) fun d hd => ?_
  rcases List.mem_append.mp hd with hd | hd
  · refine Or.inr fun q hq i hi huser => ?_
    rw [Origin.sweeping_next hd] at hq
    cases hq
    by_cases hexpired : i.issuedAt + ttl ≤ w.now
    · exact Or.inl (Or.inl hexpired)
    · refine (h.tokens i hi).imp_right fun hkept => hlisted.symm.subset ?_
      obtain ⟨t, ht, hmem, hle⟩ := hkept.family
      rw [show i.userId = userId from huser] at ht
      exact Keys.mem_members.mpr
        ⟨t, ht, Nat.lt_of_lt_of_le (Nat.lt_of_not_le hexpired) hle, hmem⟩
  · exact Or.inl (List.mem_of_mem_erase hd)

/-- **A step keeps every token past or reached**, if it misses none. -/
theorem World.Reachable.step (h : w.Reachable ttl) (hsound : w.Sound ttl) (hmissed : NoneMissed w a)
    (hstep : step ttl w a = some w') : w'.Reachable ttl := by
  rcases step_cases hstep with ⟨r, rfl, rfl⟩ | ⟨c, hmem, rfl, hadv⟩ |
    ⟨c, hmem, listed, rfl, hlisted⟩ | ⟨c, hmem, rfl, rfl⟩ | ⟨seconds, rfl, rfl⟩
  · refine h.quiet rfl (Nat.le_refl _) rfl rfl rfl fun d hd => ?_
    rcases List.mem_cons.mp hd with rfl | hd
    · cases r <;> exact Or.inr (Or.inl rfl)
    · exact Or.inl hd
  · have hrest : ∀ d ∈ w.calls.erase c, d ∈ w.calls := fun d hd => List.mem_of_mem_erase hd
    -- a call that goes on to a command that sweeps nothing
    have hnext : ∀ {e : Call}, e.sweeping = none → ∀ d ∈ e :: w.calls.erase c,
        d ∈ w.calls ∨ d.sweeping = none ∨ ∃ d' ∈ w.calls, d.sweeping = d'.sweeping := by
      intro e he d hd
      rcases List.mem_cons.mp hd with rfl | hd
      · exact Or.inr (Or.inl he)
      · exact Or.inl (hrest d hd)
    cases hadv with
    | issue userId => exact h.issue hsound rfl rfl rfl hrest (hmissed _ rfl)
    | unknown token hget =>
      exact h.quiet rfl (Nat.le_refl _) rfl rfl rfl fun d hd => Or.inl (hrest d hd)
    | reused token hget hrotated => exact h.quiet rfl (Nat.le_refl _) rfl rfl rfl (hnext rfl)
    | read token hget hactive => exact h.quiet rfl (Nat.le_refl _) rfl rfl rfl (hnext rfl)
    | refused token record =>
      exact h.quiet rfl (Nat.le_refl _) rfl rfl rfl fun d hd => Or.inl (hrest d hd)
    | checked token record hlive => exact h.quiet rfl (Nat.le_refl _) rfl rfl rfl (hnext rfl)
    | mark token record => exact h.quiet rfl (Nat.le_refl _) rfl rfl rfl (hnext rfl)
    | rotate token record => exact h.issue hsound rfl rfl rfl hrest (hmissed _ rfl)
    | drop familyId hashes origin => exact h.drop hsound hmem
    | revoke token =>
      exact h.quiet rfl (Nat.le_refl _) rfl rfl rfl fun d hd => Or.inl (hrest d hd)
    | dropUser userId existing => exact h.dropUser hmem
  · cases hlisted with
    | family familyId origin hlisted =>
      refine h.quiet rfl (Nat.le_refl _) rfl rfl rfl fun d hd => ?_
      rcases List.mem_cons.mp hd with rfl | hd
      · cases origin with
        | rotate => exact Or.inr (Or.inl rfl)
        | all userId families existing => exact Or.inr (Or.inr ⟨_, hmem, rfl⟩)
      · exact Or.inl (List.mem_of_mem_erase hd)
    | user userId existing hlisted => exact h.list hlisted
  · exact h.quiet rfl (Nat.le_refl _) rfl rfl rfl fun d hd => Or.inl (List.mem_of_mem_erase hd)
  · exact h.quiet rfl (Nat.le_add_right _ _) rfl rfl rfl fun d hd => Or.inl hd

/-- The two invariants together, over a run that misses no token. -/
theorem reachable_of_noneMissed {as : List Action} (hmeets : Meets (step ttl) NoneMissed {} as)
    (hrun : exec (step ttl) {} as = some w) : w.Sound ttl ∧ w.Reachable ttl :=
  invariant (fun w => w.Sound ttl ∧ w.Reachable ttl)
    (fun _ _ _ h hmissed hstep => ⟨h.1.step hstep, h.2.step h.1 hmissed hstep⟩)
    ⟨World.Sound.empty, World.Reachable.empty⟩ hmeets hrun

/-- **Every token that `Rotate` accepts can be revoked**: its family is in its user's
families and its hash in its family's tokens, where no token is issued to a user whose
families a sweep has listed and will delete without revoking this one. -/
theorem accepted_reachable {as : List Action} (hmeets : Meets (step ttl) NoneMissed {} as)
    (hrun : exec (step ttl) {} as = some w) (token : Token) (record : TokenRecord)
    (hacc : w.store.Accepts w.now token record) :
    record.familyId ∈ w.store.userFamilies.members w.now record.userId ∧
      token ∈ w.store.familyTokens.members w.now record.familyId := by
  obtain ⟨hsound, hreachable⟩ := reachable_of_noneMissed hmeets hrun
  obtain ⟨i, hi, rfl, huser, hfamily, hnotPast⟩ := hsound.accepts hacc
  have hlive : w.now < i.issuedAt + ttl := Nat.lt_of_not_le fun h => hnotPast (Or.inl h)
  have hkept := (hreachable.tokens i hi).resolve_left hnotPast
  obtain ⟨t, ht, hmem, hle⟩ := hkept.family
  obtain ⟨t', ht', hmem', hle'⟩ := hkept.token
  rw [huser] at ht
  rw [hfamily] at ht' hmem
  exact ⟨Keys.mem_members.mpr ⟨t, ht, Nat.lt_of_lt_of_le hlive hle, hmem⟩,
    Keys.mem_members.mpr ⟨t', ht', Nat.lt_of_lt_of_le hlive hle', hmem'⟩⟩

/-- A user signs in, and the token is rotated. -/
def signedIn : List Action :=
  [.request (.issue 7), .advance (.issue 7), .request (.rotate 0), .advance (.rotateGet 0),
    .advance (.rotateExists 0 ⟨7, 0, .active⟩), .advance (.rotateMark 0 ⟨7, 0, .active⟩),
    .advance (.rotateIssue 0 ⟨7, 0, .active⟩)]

def afterSignedIn : World := (exec (step refreshTokenTTL) {} signedIn).get (by decide +kernel)

theorem accepted_reachable_afterSignedIn :
    0 ∈ afterSignedIn.store.userFamilies.members afterSignedIn.now 7 ∧
      1 ∈ afterSignedIn.store.familyTokens.members afterSignedIn.now 0 := by
  have hmeets : Meets (step refreshTokenTTL) NoneMissed {} signedIn := by decide +kernel
  exact accepted_reachable hmeets (Option.some_get _).symm 1 ⟨7, 0, .active⟩ (by decide +kernel)

/-- The user signs in once more while all sessions are being revoked, after the families have
been listed. -/
def signsInDuringSweep : List Action :=
  [.request (.issue 7), .advance (.issue 7), .request (.revokeAllForUser 7),
    .members (.userMembers 7 [0]) [0], .request (.issue 7), .advance (.issue 7),
    .members (.familyMembers 0 (.all 7 [] [0])) [0],
    .advance (.familyExec 0 [0] (.all 7 [] [0])), .advance (.userDel 7 [0])]

/-- The second session is in no set of the user's, and no call is in flight. -/
theorem not_forall_accepted_reachable :
    ¬ ∀ (as : List Action) (w : World), exec (step refreshTokenTTL) {} as = some w → w.calls = [] →
      ∀ token record, w.store.Accepts w.now token record →
        record.familyId ∈ w.store.userFamilies.members w.now record.userId ∧
          token ∈ w.store.familyTokens.members w.now record.familyId := by
  intro h
  have hrun : (exec (step refreshTokenTTL) {} signsInDuringSweep).map (fun w =>
      decide (w.calls = [] ∧ w.store.Accepts w.now 1 ⟨7, 1, .active⟩ ∧
        1 ∉ w.store.userFamilies.members w.now 7)) = some true := by
    decide +kernel
  obtain ⟨w, hw, htrue⟩ := Option.map_eq_some_iff.mp hrun
  obtain ⟨hcalls, hacc, hmissing⟩ := of_decide_eq_true htrue
  exact hmissing (h _ w hw hcalls 1 ⟨7, 1, .active⟩ hacc).1

/-! ## What a revocation leaves -/

/-- The family `Rotate` writes a successor in. -/
def Action.succeedsIn : Action → Option FamilyId
  | .advance (.rotateIssue _ record) => some record.familyId
  | _ => none

/-- No `Rotate` writes a successor in a family whose revocation has returned. -/
def NoneRevived (w : World) (a : Action) : Prop := ∀ familyId ∈ a.succeedsIn, familyId ∉ w.revoked

instance : Decidable (NoneRevived w a) :=
  inferInstanceAs (Decidable (∀ familyId ∈ a.succeedsIn, familyId ∉ w.revoked))

/-- **The tokens of a family whose revocation has returned are past.** -/
def World.Gone (ttl : Time) (w : World) : Prop :=
  ∀ familyId ∈ w.revoked, ∀ i ∈ w.issued, i.familyId = familyId → i.Past ttl w.now w.store

theorem World.Gone.quiet (h : w.Gone ttl) (hissued : w'.issued = w.issued)
    (hrevoked : w'.revoked = w.revoked)
    (hpast : ∀ i ∈ w.issued, i.Past ttl w.now w.store → i.Past ttl w'.now w'.store) :
    w'.Gone ttl := by
  intro f hf i hi hfamily
  rw [hissued] at hi
  rw [hrevoked] at hf
  exact hpast i hi (h f hf i hi hfamily)

/-- A token is issued in a family that is not revoked. -/
theorem World.Gone.issue (h : w.Gone ttl)
    (hissued : w'.issued = w.issued ++ [⟨w.nextToken, userId, familyId, w.now⟩])
    (hrevoked : w'.revoked = w.revoked)
    (hpast : ∀ i ∈ w.issued, i.Past ttl w.now w.store → i.Past ttl w'.now w'.store)
    (hnew : familyId ∉ w.revoked) : w'.Gone ttl := by
  intro f hf i hi hfamily
  rw [hrevoked] at hf
  rw [hissued, List.mem_append, List.mem_singleton] at hi
  rcases hi with hi | rfl
  · exact hpast i hi (h f hf i hi hfamily)
  · subst hfamily
    exact absurd hf hnew

/-- **A step keeps what was revoked revoked**, if it revives nothing. -/
theorem World.Gone.step (h : w.Gone ttl) (hsound : w.Sound ttl) (hreachable : w.Reachable ttl)
    (hrevived : NoneRevived w a) (hstep : step ttl w a = some w') : w'.Gone ttl := by
  rcases step_cases hstep with ⟨r, rfl, rfl⟩ | ⟨c, hmem, rfl, hadv⟩ |
    ⟨c, hmem, listed, rfl, hlisted⟩ | ⟨c, hmem, rfl, rfl⟩ | ⟨seconds, rfl, rfl⟩
  · exact h
  · cases hadv with
    | issue userId =>
      refine h.issue rfl rfl (fun _ _ hgone => hgone) fun hf => ?_
      exact Nat.lt_irrefl _ (hsound.revoked _ hf)
    | unknown | reused | read | refused | checked => exact h
    | mark | revoke => exact h.quiet rfl rfl fun _ _ hgone => hgone
    | rotate token record => exact h.issue rfl rfl (fun _ _ hgone => hgone) (hrevived _ rfl)
    | drop familyId hashes origin =>
      intro f hf i hi hfamily
      rcases List.mem_append.mp hf with hf | hf
      · exact (h f hf i hi hfamily).dropFamily (hsound.log.past i hi) _ _
      · obtain rfl := List.mem_singleton.mp hf
        subst hfamily
        exact Issued.past_dropFamily (hsound.log.past i hi) hashes
    | dropUser userId existing =>
      intro f hf i hi hfamily
      rcases List.mem_append.mp hf with hf | hf
      · exact h f hf i hi hfamily
      · -- the family is the user's, and the sweep has none left before it
        obtain ⟨j, hj, huser, hjfamily⟩ := hsound.calls _ hmem f hf
        have hiuser : i.userId = userId := by
          rw [← huser]
          exact hsound.log.owner i hi j hj (hfamily.trans hjfamily.symm)
        exact (hreachable.sweeps _ hmem _ rfl i hi hiuser).resolve_right List.not_mem_nil
  · cases hlisted with
    | family => exact h
    | user => exact h
  · exact h
  · exact h.quiet rfl rfl fun _ _ hgone => hgone.later (Nat.le_add_right _ _)

/-- No token of a family whose revocation has returned is accepted. -/
def World.RevokedForGood (w : World) : Prop :=
  ∀ familyId ∈ w.revoked, ∀ token record, w.store.Accepts w.now token record →
    record.familyId ≠ familyId

/-- **A revocation is complete and permanent** where no token is missed and no family is
revived. -/
theorem revoked_forGood {as : List Action} (hmissed : Meets (step ttl) NoneMissed {} as)
    (hrevived : Meets (step ttl) NoneRevived {} as) (hrun : exec (step ttl) {} as = some w) :
    w.RevokedForGood := by
  have hinv := invariant (fun w => w.Sound ttl ∧ w.Reachable ttl ∧ w.Gone ttl)
    (fun _ _ _ h hcond hstep => ⟨h.1.step hstep, h.2.1.step h.1 hcond.1 hstep,
      h.2.2.step h.1 h.2.1 hcond.2 hstep⟩)
    ⟨World.Sound.empty, World.Reachable.empty, by simp [World.Gone]⟩
    (meets_inter hmissed hrevived) hrun
  obtain ⟨hsound, -, hgone⟩ := hinv
  intro familyId hfamily token record hacc heq
  obtain ⟨i, hi, -, -, hifamily, hnotPast⟩ := hsound.accepts hacc
  exact hnotPast (hgone familyId hfamily i hi (hifamily.trans heq))

/-- A user signs out of all sessions, and in again. -/
def signsOutAndIn : List Action :=
  [.request (.issue 7), .advance (.issue 7), .request (.revokeAllForUser 7),
    .members (.userMembers 7 [0]) [0], .members (.familyMembers 0 (.all 7 [] [0])) [0],
    .advance (.familyExec 0 [0] (.all 7 [] [0])), .advance (.userDel 7 [0]),
    .request (.issue 7), .advance (.issue 7), .sleep 60]

def signedInAgain : World := (exec (step refreshTokenTTL) {} signsOutAndIn).get (by decide +kernel)

theorem revoked_forGood_signedInAgain : signedInAgain.RevokedForGood := by
  have hmissed : Meets (step refreshTokenTTL) NoneMissed {} signsOutAndIn := by decide +kernel
  have hrevived : Meets (step refreshTokenTTL) NoneRevived {} signsOutAndIn := by decide +kernel
  exact revoked_forGood hmissed hrevived (Option.some_get _).symm

/-- `Rotate` has passed its checks when the family is revoked, and writes its successor ten
seconds later.  It is there when the marker has expired. -/
def writesLate : List Action :=
  [.request (.issue 7), .advance (.issue 7), .request (.rotate 0), .advance (.rotateGet 0),
    .advance (.rotateExists 0 ⟨7, 0, .active⟩), .advance (.rotateMark 0 ⟨7, 0, .active⟩),
    .request (.revokeAllForUser 7), .members (.userMembers 7 [0]) [0],
    .members (.familyMembers 0 (.all 7 [] [0])) [0],
    .advance (.familyExec 0 [0] (.all 7 [] [0])), .advance (.userDel 7 [0]),
    .sleep 10, .advance (.rotateIssue 0 ⟨7, 0, .active⟩), .sleep (refreshTokenTTL - 10)]

/-- The family is accepted again. -/
theorem not_forall_revoked_forGood :
    ¬ ∀ (as : List Action) (w : World), exec (step refreshTokenTTL) {} as = some w →
      w.RevokedForGood := by
  intro h
  have hrun : (exec (step refreshTokenTTL) {} writesLate).map (fun w =>
      decide (0 ∈ w.revoked ∧ w.store.Accepts w.now 1 ⟨7, 0, .active⟩)) = some true := by
    decide +kernel
  obtain ⟨w, hw, htrue⟩ := Option.map_eq_some_iff.mp hrun
  obtain ⟨hrevoked, hacc⟩ := of_decide_eq_true htrue
  exact h _ w hw 0 hrevoked 1 ⟨7, 0, .active⟩ hacc rfl

end VocalCoach.RefreshTokens
