/-
# What a step does to the refresh tokens

`step_cases` says what each step can be, and `Advanced` what a command does, a constructor
for each branch of the code.  A call that runs alone does what its method computes
(`exec_rotate`, `exec_issue`).

`World.Sound` is what holds without any condition: the records, the sets and the calls in
flight speak of tokens that were issued, and an active token lives for `ttl`.
-/
import VocalCoach.RefreshTokens
import Mathlib.Tactic.Common

namespace VocalCoach.RefreshTokens

open ExpiringKeys Machine

variable {ttl : Time} {w w' : World} {a : Action} {c : Call} {rest : List Call}

/-! ## The cases of a step -/

/-- What a command other than `SMEMBERS` does. -/
inductive Advanced (ttl : Time) (w : World) (rest : List Call) : Call → World → Prop
  | issue (userId) : Advanced ttl w rest (.issue userId)
      { w.issue ttl userId w.nextFamily with calls := rest, nextFamily := w.nextFamily + 1 }
  | unknown (token) (hget : w.store.tokens.get w.now token = none) :
      Advanced ttl w rest (.rotateGet token) { w with calls := rest }
  | reused (token) {record} (hget : w.store.tokens.get w.now token = some record)
      (hrotated : record.status = .rotated) :
      Advanced ttl w rest (.rotateGet token)
        { w with calls := .familyMembers record.familyId .rotate :: rest }
  | read (token) {record} (hget : w.store.tokens.get w.now token = some record)
      (hactive : record.status = .active) :
      Advanced ttl w rest (.rotateGet token) { w with calls := .rotateExists token record :: rest }
  | refused (token record) : Advanced ttl w rest (.rotateExists token record) { w with calls := rest }
  | checked (token record) (hlive : w.store.familyRevoked.get w.now record.familyId = none) :
      Advanced ttl w rest (.rotateExists token record)
        { w with calls := .rotateMark token record :: rest }
  | mark (token record) : Advanced ttl w rest (.rotateMark token record)
      { w with
        store := w.store.markRotated w.now token record
        calls := .rotateIssue token record :: rest }
  | rotate (token record) : Advanced ttl w rest (.rotateIssue token record)
      { w.issue ttl record.userId record.familyId with
        calls := rest
        successors := w.successors ++ [(token, w.nextToken)] }
  | drop (familyId hashes origin) : Advanced ttl w rest (.familyExec familyId hashes origin)
      { w with
        store := w.store.dropFamily ttl w.now familyId hashes
        calls := origin.next ++ rest
        revoked := w.revoked ++ [familyId] }
  | revoke (token) : Advanced ttl w rest (.revoke token)
      { w with store := w.store.dropToken token, calls := rest }
  | dropUser (userId existing) : Advanced ttl w rest (.userDel userId existing)
      { w with
        store := w.store.dropUser userId
        calls := rest
        revoked := w.revoked ++ existing }

/-- What `SMEMBERS` does. -/
inductive Listed (w : World) (rest : List Call) (listed : List ℕ) : Call → World → Prop
  | family (familyId origin) (hlisted : listed.Perm (w.store.familyTokens.members w.now familyId)) :
      Listed w rest listed (.familyMembers familyId origin)
        { w with calls := .familyExec familyId listed origin :: rest }
  | user (userId existing) (hlisted : listed.Perm (w.store.userFamilies.members w.now userId)) :
      Listed w rest listed (.userMembers userId existing)
        { w with calls := (Origin.all userId listed existing).next ++ rest }

theorem advance_cases (h : c.advance ttl w rest = some w') : Advanced ttl w rest c w' := by
  cases c with
  | issue userId =>
    cases h
    exact .issue userId
  | rotateGet token =>
    simp only [Call.advance] at h
    cases hget : w.store.tokens.get w.now token with
    | none =>
      rw [hget] at h
      cases h
      exact .unknown token hget
    | some record =>
      rw [hget] at h
      cases hstatus : record.status with
      | rotated =>
        simp only [hstatus, if_true] at h
        cases h
        exact .reused token hget hstatus
      | active =>
        simp only [hstatus, reduceCtorEq, if_false] at h
        cases h
        exact .read token hget hstatus
  | rotateExists token record =>
    simp only [Call.advance] at h
    split_ifs at h with hrevoked
    · cases h
      exact .refused token record
    · cases h
      exact .checked token record (by simpa using hrevoked)
  | rotateMark token record =>
    cases h
    exact .mark token record
  | rotateIssue token record =>
    cases h
    exact .rotate token record
  | familyExec familyId hashes origin =>
    cases h
    exact .drop familyId hashes origin
  | revoke token =>
    cases h
    exact .revoke token
  | userDel userId existing =>
    cases h
    exact .dropUser userId existing
  | familyMembers familyId origin => cases h
  | userMembers userId existing => cases h

theorem members_cases {listed : List ℕ} (h : c.members w rest listed = some w') :
    Listed w rest listed c w' := by
  cases c <;> simp only [Call.members, reduceCtorEq] at h
  case familyMembers familyId origin =>
    split_ifs at h with hlisted
    cases h
    exact .family familyId origin hlisted
  case userMembers userId existing =>
    split_ifs at h with hlisted
    cases h
    exact .user userId existing hlisted

/-- **The cases of a step.** -/
theorem step_cases (h : step ttl w a = some w') :
    (∃ r, a = .request r ∧ w' = { w with calls := r.call w :: w.calls }) ∨
      (∃ c ∈ w.calls, a = .advance c ∧ Advanced ttl w (w.calls.erase c) c w') ∨
      (∃ c ∈ w.calls, ∃ listed, a = .members c listed ∧ Listed w (w.calls.erase c) listed c w') ∨
      (∃ c ∈ w.calls, a = .abort c ∧ w' = { w with calls := w.calls.erase c }) ∨
      ∃ seconds, a = .sleep seconds ∧ w' = { w with now := w.now + seconds } := by
  cases a with
  | request r => exact Or.inl ⟨r, rfl, (Option.some.inj h).symm⟩
  | advance c =>
    rw [step, Option.ite_none_right_eq_some] at h
    exact Or.inr (Or.inl ⟨c, h.1, rfl, advance_cases h.2⟩)
  | members c listed =>
    rw [step, Option.ite_none_right_eq_some] at h
    exact Or.inr (Or.inr (Or.inl ⟨c, h.1, listed, rfl, members_cases h.2⟩))
  | abort c =>
    rw [step, Option.ite_none_right_eq_some] at h
    exact Or.inr (Or.inr (Or.inr (Or.inl ⟨c, h.1, rfl, (Option.some.inj h.2).symm⟩)))
  | sleep seconds =>
    exact Or.inr (Or.inr (Or.inr (Or.inr ⟨seconds, rfl, (Option.some.inj h).symm⟩)))

/-! ## What holds without any condition -/

/-- The token was issued, to that user and in that family. -/
def Known (issued : List Issued) (token : Token) (record : TokenRecord) : Prop :=
  ∃ i ∈ issued, i.token = token ∧ i.userId = record.userId ∧ i.familyId = record.familyId

/-- The family is one of the user's. -/
def Owned (issued : List Issued) (userId : UserId) (familyId : FamilyId) : Prop :=
  ∃ i ∈ issued, i.userId = userId ∧ i.familyId = familyId

/-- The log of what was issued. -/
structure LogSound (nextToken : Token) (nextFamily : FamilyId) (now : Time) (issued : List Issued) :
    Prop where
  token_lt : ∀ i ∈ issued, i.token < nextToken
  family_lt : ∀ i ∈ issued, i.familyId < nextFamily
  past : ∀ i ∈ issued, i.issuedAt ≤ now
  owner : ∀ i ∈ issued, ∀ j ∈ issued, i.familyId = j.familyId → i.userId = j.userId

/-- What the keys speak of. -/
structure Store.Sound (ttl : Time) (issued : List Issued) (s : Store) : Prop where
  records : ∀ token t, s.tokens token = some t →
    ∃ i ∈ issued, i.token = token ∧ i.userId = t.value.userId ∧ i.familyId = t.value.familyId ∧
      (t.value.status = .active → t.expiresAt = i.issuedAt + ttl)
  families : ∀ userId t, s.userFamilies userId = some t → ∀ familyId ∈ t.value,
    Owned issued userId familyId

/-- What a sweep speaks of: families of the user. -/
def Origin.Sound (issued : List Issued) : Origin → Prop
  | .rotate => True
  | .all userId families existing =>
      (∀ f ∈ families, Owned issued userId f) ∧ ∀ f ∈ existing, Owned issued userId f

/-- What a call in flight speaks of. -/
def Call.Sound (issued : List Issued) : Call → Prop
  | .rotateExists token record | .rotateMark token record | .rotateIssue token record =>
      Known issued token record
  | .familyMembers familyId origin | .familyExec familyId _ origin =>
      (∃ userId, Owned issued userId familyId) ∧ origin.Sound issued
  | .userMembers userId existing | .userDel userId existing =>
      ∀ f ∈ existing, Owned issued userId f
  | .issue _ | .rotateGet _ | .revoke _ => True

/-- **What holds in every reachable state.** -/
structure World.Sound (ttl : Time) (w : World) : Prop where
  log : LogSound w.nextToken w.nextFamily w.now w.issued
  store : w.store.Sound ttl w.issued
  calls : ∀ c ∈ w.calls, c.Sound w.issued
  revoked : ∀ f ∈ w.revoked, f < w.nextFamily

theorem World.Sound.empty : World.Sound ttl {} :=
  ⟨⟨by simp, by simp, by simp, by simp⟩, ⟨by simp, by simp⟩, by simp, by simp⟩

section

variable {issued issued' : List Issued} {userId : UserId} {familyId : FamilyId} {token : Token}
variable {record : TokenRecord} {s : Store}

theorem Known.mono (hsub : issued ⊆ issued') (h : Known issued token record) :
    Known issued' token record := by
  obtain ⟨i, hi, hrest⟩ := h
  exact ⟨i, hsub hi, hrest⟩

theorem Owned.mono (hsub : issued ⊆ issued') (h : Owned issued userId familyId) :
    Owned issued' userId familyId := by
  obtain ⟨i, hi, hrest⟩ := h
  exact ⟨i, hsub hi, hrest⟩

theorem Known.owned (h : Known issued token record) :
    Owned issued record.userId record.familyId := by
  obtain ⟨i, hi, -, huser, hfamily⟩ := h
  exact ⟨i, hi, huser, hfamily⟩

theorem Origin.Sound.mono {origin : Origin} (hsub : issued ⊆ issued')
    (h : origin.Sound issued) : origin.Sound issued' := by
  cases origin with
  | rotate => trivial
  | all userId families existing =>
    exact ⟨fun f hf => (h.1 f hf).mono hsub, fun f hf => (h.2 f hf).mono hsub⟩

theorem Call.Sound.mono (hsub : issued ⊆ issued') (h : c.Sound issued) : c.Sound issued' := by
  cases c with
  | issue | rotateGet | revoke => trivial
  | rotateExists | rotateMark | rotateIssue => exact Known.mono hsub h
  | familyMembers | familyExec =>
    obtain ⟨⟨userId, howned⟩, horigin⟩ := h
    exact ⟨⟨userId, howned.mono hsub⟩, horigin.mono hsub⟩
  | userMembers | userDel => exact fun f hf => (h f hf).mono hsub

/-- A sweep goes on with families of its user. -/
theorem Origin.Sound.next {origin : Origin} (h : origin.Sound issued) :
    ∀ d ∈ origin.next, d.Sound issued := by
  intro d hd
  cases origin with
  | rotate => cases hd
  | all userId families existing =>
    obtain ⟨hfamilies, hexisting⟩ := h
    cases families with
    | nil =>
      obtain rfl := List.mem_singleton.mp hd
      exact hexisting
    | cons familyId families =>
      obtain rfl := List.mem_singleton.mp hd
      exact ⟨⟨userId, hfamilies familyId List.mem_cons_self⟩,
        fun f hf => hfamilies f (List.mem_cons_of_mem _ hf), hexisting⟩

/-- A key that reads was issued. -/
theorem Store.Sound.known {now : Time} (h : s.Sound ttl issued)
    (hget : s.tokens.get now token = some record) : Known issued token record := by
  obtain ⟨t, ht, -, rfl⟩ := Keys.get_eq_some.mp hget
  obtain ⟨i, hi, htoken, huser, hfamily, -⟩ := h.records token t ht
  exact ⟨i, hi, htoken, huser, hfamily⟩

theorem Store.Sound.markRotated (h : s.Sound ttl issued) (hknown : Known issued token record)
    (now : Time) : (s.markRotated now token record).Sound ttl issued := by
  refine ⟨fun token' t ht => ?_, h.families⟩
  rcases Keys.set_eq_some ht with ⟨rfl, rfl⟩ | ht
  · obtain ⟨i, hi, hid, huser, hfamily⟩ := hknown
    exact ⟨i, hi, hid, huser, hfamily, by simp⟩
  · exact h.records token' t ht

theorem Store.Sound.dropFamily (h : s.Sound ttl issued) (now : Time) (familyId : FamilyId)
    (hashes : List Token) : (s.dropFamily ttl now familyId hashes).Sound ttl issued :=
  ⟨fun token t ht => h.records token t (Keys.delAll_eq_some ht).2, h.families⟩

theorem Store.Sound.dropToken (h : s.Sound ttl issued) (token : Token) :
    (s.dropToken token).Sound ttl issued :=
  ⟨fun token' t ht => h.records token' t (Keys.del_eq_some ht).2, h.families⟩

theorem Store.Sound.dropUser (h : s.Sound ttl issued) (userId : UserId) :
    (s.dropUser userId).Sound ttl issued :=
  ⟨h.records, fun userId' t ht => h.families userId' t (Keys.del_eq_some ht).2⟩

/-- `issueInFamily` adds the token it logs. -/
theorem Store.Sound.issueInFamily (h : s.Sound ttl issued) (now : Time) (userId : UserId)
    (familyId : FamilyId) (token : Token) :
    (s.issueInFamily ttl now userId familyId token).Sound ttl
      (issued ++ [⟨token, userId, familyId, now⟩]) := by
  have hnew : (⟨token, userId, familyId, now⟩ : Issued) ∈
      issued ++ [⟨token, userId, familyId, now⟩] :=
    List.mem_append_right _ (List.mem_singleton_self _)
  have hold : issued ⊆ issued ++ [⟨token, userId, familyId, now⟩] :=
    List.subset_append_left _ _
  constructor
  · intro token' t ht
    rcases Keys.set_eq_some ht with ⟨rfl, rfl⟩ | ht
    · exact ⟨_, hnew, rfl, rfl, rfl, fun _ => rfl⟩
    · obtain ⟨i, hi, hrest⟩ := h.records token' t ht
      exact ⟨i, hold hi, hrest⟩
  · intro userId' t ht f hf
    rcases Keys.mem_sadd ht hf with ⟨rfl, rfl⟩ | ⟨t', ht', hmem⟩
    · exact ⟨_, hnew, rfl, rfl⟩
    · exact (h.families userId' t' ht' f hmem).mono hold

/-- A new token, in a new family or in one of the user's. -/
theorem LogSound.issue {nextToken : Token} {nextFamily nextFamily' : FamilyId} {now : Time}
    (h : LogSound nextToken nextFamily now issued) (hnext : nextFamily ≤ nextFamily')
    (hlt : familyId < nextFamily')
    (hfamily : nextFamily ≤ familyId ∨ Owned issued userId familyId) :
    LogSound (nextToken + 1) nextFamily' now (issued ++ [⟨nextToken, userId, familyId, now⟩]) := by
  have hmem : ∀ i ∈ issued ++ [⟨nextToken, userId, familyId, now⟩],
      i ∈ issued ∨ i = ⟨nextToken, userId, familyId, now⟩ := by
    intro i hi
    rcases List.mem_append.mp hi with hi | hi
    · exact Or.inl hi
    · exact Or.inr (List.mem_singleton.mp hi)
  -- the owner of the family is the user, if it has one
  have howner : ∀ i ∈ issued, i.familyId = familyId → i.userId = userId := by
    intro i hi heq
    rcases hfamily with hle | ⟨j, hj, huser, hfamily⟩
    · exact absurd (heq ▸ h.family_lt i hi) (Nat.not_lt.mpr hle)
    · rw [← huser]
      exact h.owner i hi j hj (heq.trans hfamily.symm)
  refine ⟨fun i hi => ?_, fun i hi => ?_, fun i hi => ?_, fun i hi j hj hij => ?_⟩
  · rcases hmem i hi with hi | rfl
    · exact Nat.lt_succ_of_lt (h.token_lt i hi)
    · exact Nat.lt_succ_self _
  · rcases hmem i hi with hi | rfl
    · exact Nat.lt_of_lt_of_le (h.family_lt i hi) hnext
    · exact hlt
  · rcases hmem i hi with hi | rfl
    · exact h.past i hi
    · exact Nat.le_refl _
  · rcases hmem i hi with hi | rfl <;> rcases hmem j hj with hj | rfl
    · exact h.owner i hi j hj hij
    · exact howner i hi hij
    · exact (howner j hj hij.symm).symm
    · rfl

end

/-- The families of a user are its own. -/
theorem World.owned_familiesOf {userId : UserId} {f : FamilyId} (hf : f ∈ w.familiesOf userId) :
    Owned w.issued userId f := by
  obtain ⟨i, hi, rfl⟩ := List.mem_map.mp hf
  obtain ⟨hi, huser⟩ := List.mem_filter.mp hi
  exact ⟨i, hi, of_decide_eq_true huser, rfl⟩

theorem World.Sound.family_lt {userId : UserId} {f : FamilyId} (h : w.Sound ttl)
    (howned : Owned w.issued userId f) : f < w.nextFamily := by
  obtain ⟨i, hi, -, rfl⟩ := howned
  exact h.log.family_lt i hi

/-- A command keeps what holds without any condition. -/
theorem World.Sound.advance (h : w.Sound ttl) (hmem : c ∈ w.calls)
    (hstep : Advanced ttl w (w.calls.erase c) c w') : w'.Sound ttl := by
  have hcall : c.Sound w.issued := h.calls c hmem
  have hrest : ∀ d ∈ w.calls.erase c, d.Sound w.issued :=
    fun d hd => h.calls d (List.mem_of_mem_erase hd)
  cases hstep with
  | issue userId =>
    refine ⟨h.log.issue (Nat.le_succ _) (Nat.lt_succ_self _) (Or.inl (Nat.le_refl _)),
      h.store.issueInFamily _ _ _ _, fun d hd => (hrest d hd).mono (List.subset_append_left _ _), ?_⟩
    exact fun f hf => Nat.lt_succ_of_lt (h.revoked f hf)
  | unknown token hget => exact ⟨h.log, h.store, hrest, h.revoked⟩
  | reused token hget hrotated =>
    have hknown := (h.store.known hget).owned
    refine ⟨h.log, h.store, fun d hd => ?_, h.revoked⟩
    rcases List.mem_cons.mp hd with rfl | hd
    · exact ⟨⟨_, hknown⟩, trivial⟩
    · exact hrest d hd
  | read token hget hactive =>
    have hknown := h.store.known hget
    refine ⟨h.log, h.store, fun d hd => ?_, h.revoked⟩
    rcases List.mem_cons.mp hd with rfl | hd
    · exact hknown
    · exact hrest d hd
  | refused token record => exact ⟨h.log, h.store, hrest, h.revoked⟩
  | checked token record hlive =>
    refine ⟨h.log, h.store, fun d hd => ?_, h.revoked⟩
    rcases List.mem_cons.mp hd with rfl | hd
    · exact hcall
    · exact hrest d hd
  | mark token record =>
    refine ⟨h.log, h.store.markRotated hcall _, fun d hd => ?_, h.revoked⟩
    rcases List.mem_cons.mp hd with rfl | hd
    · exact hcall
    · exact hrest d hd
  | rotate token record =>
    -- the successor joins the family of the token
    have howned := Known.owned hcall
    exact ⟨h.log.issue (Nat.le_refl _) (h.family_lt howned) (Or.inr howned),
      h.store.issueInFamily _ _ _ _, fun d hd => (hrest d hd).mono (List.subset_append_left _ _), h.revoked⟩
  | drop familyId hashes origin =>
    obtain ⟨⟨userId, howned⟩, horigin⟩ := hcall
    refine ⟨h.log, h.store.dropFamily _ _ _, fun d hd => ?_, fun f hf => ?_⟩
    · rcases List.mem_append.mp hd with hd | hd
      · exact horigin.next d hd
      · exact hrest d hd
    · rcases List.mem_append.mp hf with hf | hf
      · exact h.revoked f hf
      · obtain rfl := List.mem_singleton.mp hf
        exact h.family_lt howned
  | revoke token => exact ⟨h.log, h.store.dropToken _, hrest, h.revoked⟩
  | dropUser userId existing =>
    refine ⟨h.log, h.store.dropUser _, hrest, fun f hf => ?_⟩
    rcases List.mem_append.mp hf with hf | hf
    · exact h.revoked f hf
    · exact h.family_lt (hcall f hf)

/-- A listing keeps what holds without any condition. -/
theorem World.Sound.members {listed : List ℕ} (h : w.Sound ttl) (hmem : c ∈ w.calls)
    (hstep : Listed w (w.calls.erase c) listed c w') : w'.Sound ttl := by
  have hcall : c.Sound w.issued := h.calls c hmem
  have hrest : ∀ d ∈ w.calls.erase c, d.Sound w.issued :=
    fun d hd => h.calls d (List.mem_of_mem_erase hd)
  cases hstep with
  | family familyId origin hlisted =>
    refine ⟨h.log, h.store, fun d hd => ?_, h.revoked⟩
    rcases List.mem_cons.mp hd with rfl | hd
    · exact hcall
    · exact hrest d hd
  | user userId existing hlisted =>
    refine ⟨h.log, h.store, fun d hd => ?_, h.revoked⟩
    rcases List.mem_append.mp hd with hd | hd
    · have horigin : (Origin.all userId listed existing).Sound w.issued := by
        refine ⟨fun f hf => ?_, hcall⟩
        obtain ⟨t, ht, -, hmem⟩ := Keys.mem_members.mp (hlisted.subset hf)
        exact h.store.families userId t ht f hmem
      exact horigin.next d hd
    · exact hrest d hd

/-- **Every step keeps what holds without any condition.** -/
theorem World.Sound.step (h : w.Sound ttl) (hstep : step ttl w a = some w') : w'.Sound ttl := by
  rcases step_cases hstep with ⟨r, rfl, rfl⟩ | ⟨c, hmem, rfl, hadv⟩ |
    ⟨c, hmem, listed, rfl, hlisted⟩ | ⟨c, hmem, rfl, rfl⟩ | ⟨seconds, rfl, rfl⟩
  · refine ⟨h.log, h.store, fun d hd => ?_, h.revoked⟩
    rcases List.mem_cons.mp hd with rfl | hd
    · cases r with
      | issue | rotate | revoke => trivial
      | revokeAllForUser userId => exact fun f hf => World.owned_familiesOf hf
    · exact h.calls d hd
  · exact h.advance hmem hadv
  · exact h.members hmem hlisted
  · exact ⟨h.log, h.store, fun d hd => h.calls d (List.mem_of_mem_erase hd), h.revoked⟩
  · refine ⟨⟨h.log.token_lt, h.log.family_lt, fun i hi => ?_, h.log.owner⟩, h.store, h.calls,
      h.revoked⟩
    exact Nat.le_trans (h.log.past i hi) (Nat.le_add_right _ _)

end VocalCoach.RefreshTokens
