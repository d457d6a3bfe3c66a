/-
# A token that is presented again

Histories of calls that do not overlap: `Issue`, `Rotate` and `Revoke`, one after the other,
with time passing between them.  Each call is what its method computes, and is a run of the
store in which no other call is in flight (`exec_after`).

A token that is rotated away is remembered for `grace`.  Presented again while it is, it
ends its family; later, or once `Revoke` has deleted it, it is a token like any unknown one, and
the family lives on (`rotate_detectsReuse`).
-/
import VocalCoach.TokenSteps

namespace VocalCoach.RefreshTokens

open ExpiringKeys Machine

/-- The store between two calls. -/
structure Sessions where
  store : Store := {}
  now : Time := 0
  nextToken : Token := 0
  nextFamily : FamilyId := 0

/-- A whole call, or time that passes. -/
inductive Operation
  | issue (userId : UserId)
  | rotate (token : Token)
  | revoke (token : Token)
  | sleep (seconds : ℕ)
  deriving DecidableEq, Repr

namespace Sessions

variable (ttl : Time) (s : Sessions)

/-- What `Rotate` returns. -/
def rotate (token : Token) : Except Error (Token × UserId) :=
  (s.store.rotate ttl s.now token s.nextToken).1

/-- One operation. -/
def perform : Operation → Sessions
  | .issue userId =>
      { s with
        store := s.store.issueInFamily ttl s.now userId s.nextFamily s.nextToken
        nextToken := s.nextToken + 1
        nextFamily := s.nextFamily + 1 }
  | .rotate token =>
      match s.store.rotate ttl s.now token s.nextToken with
      | (.ok _, store) => { s with store, nextToken := s.nextToken + 1 }
      | (.error _, store) => { s with store }
  | .revoke token => { s with store := s.store.dropToken token }
  | .sleep seconds => { s with now := s.now + seconds }

/-- A history. -/
def after (history : List Operation) : Sessions := history.foldl (perform ttl) s

end Sessions

variable {ttl : Time} {s : Sessions} {token : Token} {familyId : FamilyId} {op : Operation}

/-- **What `Rotate` does**, a constructor for each branch. -/
inductive Presented (ttl : Time) (s : Sessions) (token : Token) : Except Error (Token × UserId) →
    Sessions → Prop
  | unknown (hget : s.store.tokens.get s.now token = none) :
      Presented ttl s token (.error .refreshTokenInvalid) s
  | reused {record} (hget : s.store.tokens.get s.now token = some record)
      (hrotated : record.status = .rotated) :
      Presented ttl s token (.error .refreshTokenReused)
        { s with store := s.store.revokeFamily ttl s.now record.familyId }
  | refused {record} (hget : s.store.tokens.get s.now token = some record)
      (hactive : record.status = .active)
      (hrevoked : s.store.familyRevoked.get s.now record.familyId = some ()) :
      Presented ttl s token (.error .refreshTokenInvalid) s
  | rotated {record} (hget : s.store.tokens.get s.now token = some record)
      (hactive : record.status = .active)
      (hlive : s.store.familyRevoked.get s.now record.familyId = none) :
      Presented ttl s token (.ok (s.nextToken, record.userId))
        { s with
          store := (s.store.markRotated s.now token record).issueInFamily ttl s.now record.userId
            record.familyId s.nextToken
          nextToken := s.nextToken + 1 }

theorem presented (ttl : Time) (s : Sessions) (token : Token) :
    Presented ttl s token (s.rotate ttl token) (s.perform ttl (.rotate token)) := by
  simp only [Sessions.rotate, Sessions.perform]
  cases hget : s.store.tokens.get s.now token with
  | none =>
    have hrotate : s.store.rotate ttl s.now token s.nextToken =
        (.error .refreshTokenInvalid, s.store) := by
      simp [Store.rotate, hget]
    rw [hrotate]
    exact .unknown hget
  | some record =>
    cases hstatus : record.status with
    | rotated =>
      have hrotate : s.store.rotate ttl s.now token s.nextToken =
          (.error .refreshTokenReused, s.store.revokeFamily ttl s.now record.familyId) := by
        simp [Store.rotate, hget, hstatus]
      rw [hrotate]
      exact .reused hget hstatus
    | active =>
      cases hrevoked : s.store.familyRevoked.get s.now record.familyId with
      | some u =>
        have hrotate : s.store.rotate ttl s.now token s.nextToken =
            (.error .refreshTokenInvalid, s.store) := by
          simp [Store.rotate, hget, hstatus, hrevoked]
        rw [hrotate]
        exact .refused hget hstatus hrevoked
      | none =>
        have hrotate : s.store.rotate ttl s.now token s.nextToken =
            (.ok (s.nextToken, record.userId),
              (s.store.markRotated s.now token record).issueInFamily ttl s.now record.userId
                record.familyId s.nextToken) := by
          simp [Store.rotate, hget, hstatus, hrevoked]
        rw [hrotate]
        exact .rotated hget hstatus hrevoked

/-! ## Calls that do not overlap -/

/-- What a history sees of the store. -/
def World.sessions (w : World) : Sessions := ⟨w.store, w.now, w.nextToken, w.nextFamily⟩

section

variable {w w' : World} {as : List Action} {c : Call}

theorem exec_request (hidle : w.calls = []) (r : Request) :
    exec (step ttl) w (.request r :: as) = exec (step ttl) { w with calls := [r.call w] } as := by
  simp [exec, step, hidle]

theorem exec_advance (hcalls : w.calls = [c]) (h : c.advance ttl w [] = some w') :
    exec (step ttl) w (.advance c :: as) = exec (step ttl) w' as := by
  simp [exec, step, hcalls, h]

theorem exec_members (hcalls : w.calls = [c]) {listed : List ℕ}
    (h : c.members w [] listed = some w') :
    exec (step ttl) w (.members c listed :: as) = exec (step ttl) w' as := by
  simp [exec, step, hcalls, h]

/-- `Rotate` that runs alone. -/
theorem exec_rotate (hidle : w.calls = []) (token : Token) :
    ∃ as w', exec (step ttl) w as = some w' ∧ w'.calls = [] ∧
      w'.sessions = w.sessions.perform ttl (.rotate token) := by
  have hcases := presented ttl w.sessions token
  generalize w.sessions.rotate ttl token = result at hcases
  generalize w.sessions.perform ttl (.rotate token) = after at hcases ⊢
  cases hcases with
  | unknown hget =>
    have hread : Call.advance ttl { w with calls := [.rotateGet token] } [] (.rotateGet token) =
        some { w with calls := [] } := by
      simp [Call.advance, show w.store.tokens.get w.now token = none from hget]
    exact ⟨[.request (.rotate token), .advance (.rotateGet token)], _,
      (exec_request hidle _).trans (exec_advance rfl hread), rfl, rfl⟩
  | @reused record hget hrotated =>
    -- the family is listed, and deleted in one transaction
    have hget : w.store.tokens.get w.now token = some record := hget
    let hashes := w.store.familyTokens.members w.now record.familyId
    have hread : Call.advance ttl { w with calls := [.rotateGet token] } [] (.rotateGet token) =
        some { w with calls := [.familyMembers record.familyId .rotate] } := by
      simp [Call.advance, hget, hrotated]
    have hlist : Call.members { w with calls := [.familyMembers record.familyId .rotate] } [] hashes
        (.familyMembers record.familyId .rotate) =
          some { w with calls := [.familyExec record.familyId hashes .rotate] } :=
      if_pos (List.Perm.refl _)
    exact ⟨[.request (.rotate token), .advance (.rotateGet token),
      .members (.familyMembers record.familyId .rotate) hashes,
      .advance (.familyExec record.familyId hashes .rotate)], _,
      (exec_request hidle _).trans <| (exec_advance rfl hread).trans <|
        (exec_members rfl hlist).trans (exec_advance rfl rfl), rfl, rfl⟩
  | @refused record hget hactive hrevoked =>
    have hget : w.store.tokens.get w.now token = some record := hget
    have hrevoked : w.store.familyRevoked.get w.now record.familyId = some () := hrevoked
    have hread : Call.advance ttl { w with calls := [.rotateGet token] } [] (.rotateGet token) =
        some { w with calls := [.rotateExists token record] } := by
      simp [Call.advance, hget, hactive]
    have hcheck : Call.advance ttl { w with calls := [.rotateExists token record] } []
        (.rotateExists token record) = some { w with calls := [] } := by
      simp [Call.advance, hrevoked]
    exact ⟨[.request (.rotate token), .advance (.rotateGet token),
      .advance (.rotateExists token record)], _,
      (exec_request hidle _).trans <| (exec_advance rfl hread).trans (exec_advance rfl hcheck),
      rfl, rfl⟩
  | @rotated record hget hactive hlive =>
    have hget : w.store.tokens.get w.now token = some record := hget
    have hlive : w.store.familyRevoked.get w.now record.familyId = none := hlive
    have hread : Call.advance ttl { w with calls := [.rotateGet token] } [] (.rotateGet token) =
        some { w with calls := [.rotateExists token record] } := by
      simp [Call.advance, hget, hactive]
    have hcheck : Call.advance ttl { w with calls := [.rotateExists token record] } []
        (.rotateExists token record) = some { w with calls := [.rotateMark token record] } := by
      simp [Call.advance, hlive]
    exact ⟨[.request (.rotate token), .advance (.rotateGet token),
      .advance (.rotateExists token record), .advance (.rotateMark token record),
      .advance (.rotateIssue token record)], _,
      (exec_request hidle _).trans <| (exec_advance rfl hread).trans <|
        (exec_advance rfl hcheck).trans <| (exec_advance rfl rfl).trans (exec_advance rfl rfl),
      rfl, rfl⟩

/-- **A call that runs alone does what its method computes.** -/
theorem exec_perform (hidle : w.calls = []) (op : Operation) :
    ∃ as w', exec (step ttl) w as = some w' ∧ w'.calls = [] ∧
      w'.sessions = w.sessions.perform ttl op := by
  cases op with
  | issue userId =>
    exact ⟨[.request (.issue userId), .advance (.issue userId)], _,
      (exec_request hidle _).trans (exec_advance rfl rfl), rfl, rfl⟩
  | rotate token => exact exec_rotate hidle token
  | revoke token =>
    exact ⟨[.request (.revoke token), .advance (.revoke token)], _,
      (exec_request hidle _).trans (exec_advance rfl rfl), rfl, rfl⟩
  | sleep seconds => exact ⟨[.sleep seconds], _, rfl, hidle, rfl⟩

/-- **Every history is a run of the store.** -/
theorem exec_after (hidle : w.calls = []) (history : List Operation) :
    ∃ as w', exec (step ttl) w as = some w' ∧ w'.calls = [] ∧
      w'.sessions = w.sessions.after ttl history := by
  induction history generalizing w with
  | nil => exact ⟨[], w, rfl, hidle, rfl⟩
  | cons op history ih =>
    obtain ⟨as, t, hrun, hidle', hperform⟩ : ∃ as t, exec (step ttl) w as = some t ∧
        t.calls = [] ∧ t.sessions = w.sessions.perform ttl op :=
      exec_perform hidle op
    obtain ⟨bs, w', hrun', hdone, hafter⟩ := ih hidle'
    refine ⟨as ++ bs, w', exec_append.mpr ⟨t, hrun, hrun'⟩, hdone, ?_⟩
    rw [hafter, hperform]
    rfl

end

/-! ## What holds between two calls -/

variable {now : Time} {nextToken : Token} {nextFamily : FamilyId} {store : Store}

/-- Every unexpired active token is in its family's set, which stays as long as it does. -/
structure Store.Tracked (ttl now : Time) (nextToken : Token) (nextFamily : FamilyId)
    (store : Store) : Prop where
  known : ∀ token t, store.tokens token = some t →
    token < nextToken ∧ t.value.familyId < nextFamily
  expires : ∀ token t, store.tokens token = some t → t.value.status = .active →
    t.expiresAt ≤ now + ttl
  listed : ∀ token t, store.tokens token = some t → t.value.status = .active →
    now < t.expiresAt → ∃ set, store.familyTokens t.value.familyId = some set ∧
      token ∈ set.value ∧ t.expiresAt ≤ set.expiresAt
  members : ∀ familyId set, store.familyTokens familyId = some set → ∀ token ∈ set.value,
    token < nextToken ∧ ∀ t, store.tokens token = some t → t.value.familyId = familyId

/-- No unexpired token of the family is active. -/
def Store.Dead (now : Time) (familyId : FamilyId) (store : Store) : Prop :=
  ∀ token t, store.tokens token = some t → t.value.familyId = familyId →
    t.value.status = .active → t.expiresAt ≤ now

/-- The token is marked as rotated away, until a time. -/
def Store.Marks (token : Token) (familyId : FamilyId) (stays : Time) (store : Store) : Prop :=
  ∃ userId, store.tokens token = some ⟨⟨userId, familyId, .rotated⟩, stays⟩

def Sessions.Sound (ttl : Time) (s : Sessions) : Prop :=
  s.store.Tracked ttl s.now s.nextToken s.nextFamily

theorem Sessions.Sound.empty : Sessions.Sound ttl {} := ⟨by simp, by simp, by simp, by simp⟩

namespace Store.Tracked

theorem later (h : store.Tracked ttl now nextToken nextFamily) (seconds : ℕ) :
    store.Tracked ttl (now + seconds) nextToken nextFamily := by
  refine ⟨h.known, fun token t ht hactive => ?_, fun token t ht hactive hlive => ?_, h.members⟩
  · have hle := h.expires token t ht hactive
    exact Nat.le_trans hle (Nat.add_le_add_right (Nat.le_add_right now seconds) ttl)
  · exact h.listed token t ht hactive (Nat.lt_of_le_of_lt (Nat.le_add_right now seconds) hlive)

/-- What only takes tokens away. -/
theorem sub {store' : Store} (h : store.Tracked ttl now nextToken nextFamily)
    (htokens : ∀ token t, store'.tokens token = some t → store.tokens token = some t)
    (hsets : store'.familyTokens = store.familyTokens) :
    store'.Tracked ttl now nextToken nextFamily := by
  refine ⟨fun token t ht => h.known token t (htokens token t ht),
    fun token t ht => h.expires token t (htokens token t ht), fun token t ht => ?_, ?_⟩
  · rw [hsets]
    exact h.listed token t (htokens token t ht)
  · intro familyId set hset token htoken
    rw [hsets] at hset
    obtain ⟨hlt, hfamily⟩ := h.members familyId set hset token htoken
    exact ⟨hlt, fun t ht => hfamily t (htokens token t ht)⟩

theorem revokeFamily (h : store.Tracked ttl now nextToken nextFamily) (familyId : FamilyId) :
    (store.revokeFamily ttl now familyId).Tracked ttl now nextToken nextFamily := by
  have htokens : ∀ token t, (store.revokeFamily ttl now familyId).tokens token = some t →
      token ∉ store.familyTokens.members now familyId ∧ store.tokens token = some t :=
    fun token t ht => Keys.delAll_eq_some ht
  refine ⟨fun token t ht => h.known token t (htokens token t ht).2,
    fun token t ht => h.expires token t (htokens token t ht).2, fun token t ht hactive hlive => ?_,
    fun g set hset token htoken => ?_⟩
  · obtain ⟨hnot, ht⟩ := htokens token t ht
    obtain ⟨set, hset, hmem, hle⟩ := h.listed token t ht hactive hlive
    -- a token of the family would have been listed, and deleted
    have hne : t.value.familyId ≠ familyId := by
      rintro rfl
      exact hnot (Keys.mem_members.mpr ⟨set, hset, Nat.lt_of_lt_of_le hlive hle, hmem⟩)
    exact ⟨set, (Keys.del_of_ne hne).trans hset, hmem, hle⟩
  · obtain ⟨-, hset⟩ := Keys.del_eq_some hset
    obtain ⟨hlt, hfamily⟩ := h.members g set hset token htoken
    exact ⟨hlt, fun t ht => hfamily t (htokens token t ht).2⟩

/-- **A family that is revoked is dead.** -/
theorem dead_revokeFamily (h : store.Tracked ttl now nextToken nextFamily) (familyId : FamilyId) :
    (store.revokeFamily ttl now familyId).Dead now familyId := by
  intro token t ht hfamily hactive
  obtain ⟨hnot, ht⟩ := Keys.delAll_eq_some ht
  by_contra hlive
  obtain ⟨set, hset, hmem, hle⟩ := h.listed token t ht hactive (Nat.lt_of_not_le hlive)
  rw [hfamily] at hset
  refine hnot (Keys.mem_members.mpr ⟨set, hset, ?_, hmem⟩)
  exact Nat.lt_of_lt_of_le (Nat.lt_of_not_le hlive) hle

theorem markRotated (h : store.Tracked ttl now nextToken nextFamily) {token : Token}
    {t : Timed TokenRecord} (ht : store.tokens token = some t) :
    (store.markRotated now token t.value).Tracked ttl now nextToken nextFamily := by
  have htokens : ∀ token' t', (store.markRotated now token t.value).tokens token' = some t' →
      (t'.value.status = .rotated ∧ token' = token ∧ t'.value.familyId = t.value.familyId) ∨
        store.tokens token' = some t' := by
    intro token' t' ht'
    rcases Keys.set_eq_some ht' with ⟨rfl, rfl⟩ | ht'
    · exact Or.inl ⟨rfl, rfl, rfl⟩
    · exact Or.inr ht'
  refine ⟨fun token' t' ht' => ?_, fun token' t' ht' hactive => ?_,
    fun token' t' ht' hactive => ?_, fun f set hset token' hmem => ?_⟩
  · rcases htokens token' t' ht' with ⟨-, rfl, hfamily⟩ | ht'
    · rw [hfamily]
      exact h.known token' t ht
    · exact h.known token' t' ht'
  · rcases htokens token' t' ht' with ⟨hrotated, -⟩ | ht'
    · rw [hrotated] at hactive
      cases hactive
    · exact h.expires token' t' ht' hactive
  · rcases htokens token' t' ht' with ⟨hrotated, -⟩ | ht'
    · rw [hrotated] at hactive
      cases hactive
    · exact h.listed token' t' ht' hactive
  · obtain ⟨hlt, hfamily⟩ := h.members f set hset token' hmem
    refine ⟨hlt, fun t' ht' => ?_⟩
    rcases htokens token' t' ht' with ⟨-, rfl, hsame⟩ | ht'
    · rw [hsame]
      exact hfamily t ht
    · exact hfamily t' ht'

/-- A new token is in its family's set. -/
theorem issueInFamily (h : store.Tracked ttl now nextToken nextFamily) {nextFamily' : FamilyId}
    (hle : nextFamily ≤ nextFamily') {familyId : FamilyId} (hlt : familyId < nextFamily')
    (userId : UserId) :
    (store.issueInFamily ttl now userId familyId nextToken).Tracked ttl now (nextToken + 1)
      nextFamily' := by
  have htokens : ∀ token t,
      (store.issueInFamily ttl now userId familyId nextToken).tokens token = some t →
        (token = nextToken ∧ t = ⟨⟨userId, familyId, .active⟩, now + ttl⟩) ∨
          store.tokens token = some t :=
    fun token t ht => Keys.set_eq_some ht
  have hold : store.tokens nextToken = none := by
    by_contra hne
    obtain ⟨t, ht⟩ := Option.ne_none_iff_exists'.mp hne
    exact Nat.lt_irrefl _ (h.known nextToken t ht).1
  refine ⟨fun token t ht => ?_, fun token t ht hactive => ?_, fun token t ht hactive hlive => ?_,
    fun f set hset token hmem => ?_⟩
  · rcases htokens token t ht with ⟨rfl, rfl⟩ | ht
    · exact ⟨Nat.lt_succ_self _, hlt⟩
    · obtain ⟨hlt', hfamily⟩ := h.known token t ht
      exact ⟨Nat.lt_succ_of_lt hlt', Nat.lt_of_lt_of_le hfamily hle⟩
  · rcases htokens token t ht with ⟨rfl, rfl⟩ | ht
    · exact Nat.le_refl _
    · exact h.expires token t ht hactive
  · rcases htokens token t ht with ⟨rfl, rfl⟩ | ht
    · exact ⟨_, Keys.sadd_self .., List.mem_insert_self, Nat.le_refl _⟩
    · obtain ⟨set, hset, hmem, hle'⟩ := h.listed token t ht hactive hlive
      exact Keys.sadd_keeps hset hmem hle' hlive (h.expires token t ht hactive) familyId nextToken
  · -- the members are the old ones and the new token
    rcases Keys.mem_sadd hset hmem with ⟨rfl, rfl⟩ | ⟨set', hset', hmem'⟩
    · refine ⟨Nat.lt_succ_self _, fun t ht => ?_⟩
      rcases htokens token t ht with ⟨-, rfl⟩ | ht
      · rfl
      · rw [hold] at ht
        cases ht
    · obtain ⟨hlt', hfamily⟩ := h.members f set' hset' token hmem'
      refine ⟨Nat.lt_succ_of_lt hlt', fun t ht => ?_⟩
      rcases htokens token t ht with ⟨rfl, -⟩ | ht
      · exact absurd hlt' (Nat.lt_irrefl _)
      · exact hfamily t ht

end Store.Tracked

/-- **Every call keeps what holds between two calls.** -/
theorem Sessions.Sound.perform (h : s.Sound ttl) (op : Operation) : (s.perform ttl op).Sound ttl := by
  cases op with
  | issue userId =>
    exact Store.Tracked.issueInFamily h (Nat.le_succ _) (Nat.lt_succ_self _) userId
  | rotate token =>
    have hcases := presented ttl s token
    generalize s.rotate ttl token = result at hcases
    generalize s.perform ttl (.rotate token) = after at hcases ⊢
    cases hcases with
    | unknown | refused => exact h
    | reused hget hrotated => exact Store.Tracked.revokeFamily h _
    | rotated hget hactive hlive =>
      obtain ⟨t, ht, -, rfl⟩ := Keys.get_eq_some.mp hget
      have hmarked := Store.Tracked.markRotated h ht
      exact hmarked.issueInFamily (Nat.le_refl _) (h.known token t ht).2 _
  | revoke token => exact Store.Tracked.sub h (fun _ _ ht => (Keys.del_eq_some ht).2) rfl
  | sleep seconds => exact Store.Tracked.later h seconds

theorem Sessions.Sound.after (h : s.Sound ttl) (history : List Operation) :
    (s.after ttl history).Sound ttl := by
  induction history generalizing s with
  | nil => exact h
  | cons op history ih => exact ih (h.perform op)

/-! ## A family that is dead -/

/-- The family has been used, and no unexpired token of it is active. -/
def Sessions.Dead (familyId : FamilyId) (s : Sessions) : Prop :=
  familyId < s.nextFamily ∧ s.store.Dead s.now familyId

/-- An active token of another family leaves the family as it is. -/
theorem Store.Dead.issueInFamily {g : FamilyId} (h : store.Dead now familyId) (hne : g ≠ familyId)
    (userId : UserId) (token : Token) :
    (store.issueInFamily ttl now userId g token).Dead now familyId := by
  intro token' t ht hfamily hactive
  rcases Keys.set_eq_some ht with ⟨rfl, rfl⟩ | ht
  · exact absurd hfamily hne
  · exact h token' t ht hfamily hactive

theorem Store.Dead.markRotated (h : store.Dead now familyId) (token : Token)
    (record : TokenRecord) : (store.markRotated now token record).Dead now familyId := by
  intro token' t ht hfamily hactive
  rcases Keys.set_eq_some ht with ⟨rfl, rfl⟩ | ht
  · cases hactive
  · exact h token' t ht hfamily hactive

/-- **A dead family stays dead.** -/
theorem Sessions.Dead.perform (h : s.Dead familyId) (op : Operation) :
    (s.perform ttl op).Dead familyId := by
  obtain ⟨hlt, hdead⟩ := h
  cases op with
  | issue userId =>
    exact ⟨Nat.lt_succ_of_lt hlt, hdead.issueInFamily (Nat.ne_of_gt hlt) userId _⟩
  | rotate token =>
    have hcases := presented ttl s token
    generalize s.rotate ttl token = result at hcases
    generalize s.perform ttl (.rotate token) = after at hcases ⊢
    cases hcases with
    | unknown | refused => exact ⟨hlt, hdead⟩
    | reused hget hrotated =>
      exact ⟨hlt, fun token' t ht => hdead token' t (Keys.delAll_eq_some ht).2⟩
    | rotated hget hactive hlive =>
      obtain ⟨t, ht, hunexpired, rfl⟩ := Keys.get_eq_some.mp hget
      -- the token that was presented is active, so its family is another one
      have hne : t.value.familyId ≠ familyId := by
        intro heq
        exact absurd hunexpired (Nat.not_lt.mpr (hdead token t ht heq hactive))
      exact ⟨hlt, (hdead.markRotated token t.value).issueInFamily hne _ _⟩
  | revoke token => exact ⟨hlt, fun token' t ht => hdead token' t (Keys.del_eq_some ht).2⟩
  | sleep seconds =>
    refine ⟨hlt, fun token' t ht hfamily hactive => ?_⟩
    exact Nat.le_trans (hdead token' t ht hfamily hactive) (Nat.le_add_right _ _)

theorem Sessions.Dead.after (h : s.Dead familyId) (history : List Operation) :
    (s.after ttl history).Dead familyId := by
  induction history generalizing s with
  | nil => exact h
  | cons op history ih => exact ih (h.perform op)

/-- No token of a dead family is accepted. -/
theorem Sessions.Dead.not_accepts (h : s.Dead familyId) {token : Token} {record : TokenRecord}
    (hget : s.store.tokens.get s.now token = some record) (hactive : record.status = .active) :
    record.familyId ≠ familyId := by
  intro heq
  obtain ⟨t, ht, hlive, rfl⟩ := Keys.get_eq_some.mp hget
  exact absurd hlive (Nat.not_lt.mpr (h.2 token t ht heq hactive))

/-- The families that are marked as revoked are dead. -/
def Sessions.Marked (s : Sessions) : Prop :=
  ∀ familyId t, s.store.familyRevoked familyId = some t → s.Dead familyId

/-- Only `revokeFamily` marks a family, and then it is dead. -/
theorem Sessions.Marked.perform (h : s.Marked) (hsound : s.Sound ttl) (op : Operation) :
    (s.perform ttl op).Marked := by
  intro familyId t ht
  cases op with
  | issue userId => exact (h familyId t ht).perform (.issue userId)
  | revoke token =>
    have hdead : (s.perform ttl (.revoke token)).Dead familyId := (h familyId t ht).perform _
    exact hdead
  | sleep seconds =>
    have hdead : (s.perform ttl (.sleep seconds)).Dead familyId := (h familyId t ht).perform _
    exact hdead
  | rotate token =>
    have hkept : s.Dead familyId → (s.perform ttl (.rotate token)).Dead familyId :=
      fun hdead => hdead.perform _
    have hcases := presented ttl s token
    generalize s.rotate ttl token = result at hcases
    generalize s.perform ttl (.rotate token) = after at hcases hkept ht ⊢
    cases hcases with
    | unknown | refused | rotated => exact hkept (h familyId t ht)
    | reused hget hrotated =>
      rcases Keys.set_eq_some ht with ⟨rfl, -⟩ | ht
      · obtain ⟨u, hu, -, rfl⟩ := Keys.get_eq_some.mp hget
        exact ⟨(hsound.known token u hu).2, Store.Tracked.dead_revokeFamily hsound _⟩
      · exact hkept (h familyId t ht)

theorem Sessions.Marked.after (h : s.Marked) (hsound : s.Sound ttl) (history : List Operation) :
    (s.after ttl history).Marked := by
  induction history generalizing s with
  | nil => exact h
  | cons op history ih => exact ih (h.perform hsound op) (hsound.perform op)

/-! ## A token that was rotated away -/

variable {stays : Time}

/-- A token that is there no more does not come back. -/
theorem missing_perform (hlt : token < s.nextToken) (hnone : s.store.tokens token = none)
    (op : Operation) : token < (s.perform ttl op).nextToken ∧
      (s.perform ttl op).store.tokens token = none := by
  have hne : token ≠ s.nextToken := Nat.ne_of_lt hlt
  cases op with
  | issue userId => exact ⟨Nat.lt_succ_of_lt hlt, (Keys.set_of_ne hne ..).trans hnone⟩
  | rotate token' =>
    have hcases := presented ttl s token'
    generalize s.rotate ttl token' = result at hcases
    generalize s.perform ttl (.rotate token') = after at hcases ⊢
    cases hcases with
    | unknown | refused => exact ⟨hlt, hnone⟩
    | reused hget hrotated =>
      refine ⟨hlt, Option.eq_none_iff_forall_ne_some.mpr fun t ht => ?_⟩
      rw [(Keys.delAll_eq_some ht).2] at hnone
      cases hnone
    | rotated hget hactive hlive =>
      have hother : token ≠ token' := by
        rintro rfl
        obtain ⟨t, ht, -, -⟩ := Keys.get_eq_some.mp hget
        rw [hnone] at ht
        cases ht
      refine ⟨Nat.lt_succ_of_lt hlt, ?_⟩
      exact (Keys.set_of_ne hne ..).trans ((Keys.set_of_ne hother ..).trans hnone)
  | revoke token' =>
    refine ⟨hlt, Option.eq_none_iff_forall_ne_some.mpr fun t ht => ?_⟩
    rw [(Keys.del_eq_some ht).2] at hnone
    cases hnone
  | sleep seconds => exact ⟨hlt, hnone⟩

theorem missing_after (hlt : token < s.nextToken) (hnone : s.store.tokens token = none)
    (history : List Operation) : (s.after ttl history).store.tokens token = none := by
  induction history generalizing s with
  | nil => exact hnone
  | cons op history ih =>
    have hnext : token < (s.perform ttl op).nextToken ∧
        (s.perform ttl op).store.tokens token = none :=
      missing_perform hlt hnone op
    exact ih hnext.1 hnext.2

/-- A token that is marked stays so, unless it is revoked or its family dies. -/
theorem marks_perform (h : s.Sound ttl) (hmarks : s.store.Marks token familyId stays)
    (hop : op ≠ .revoke token) : (s.perform ttl op).store.Marks token familyId stays ∨
      (s.perform ttl op).Dead familyId := by
  obtain ⟨userId, hmark⟩ := hmarks
  obtain ⟨hlt, hfamily⟩ := h.known token _ hmark
  have hne : token ≠ s.nextToken := Nat.ne_of_lt hlt
  cases op with
  | issue => exact Or.inl ⟨userId, (Keys.set_of_ne hne ..).trans hmark⟩
  | rotate token' =>
    have hcases := presented ttl s token'
    generalize s.rotate ttl token' = result at hcases
    generalize s.perform ttl (.rotate token') = after at hcases ⊢
    cases hcases with
    | unknown | refused => exact Or.inl ⟨userId, hmark⟩
    | @reused record hget hrotated =>
      by_cases hmem : token ∈ s.store.familyTokens.members s.now record.familyId
      · -- the family that is revoked is the token's
        obtain ⟨set, hset, -, hin⟩ := Keys.mem_members.mp hmem
        obtain rfl : familyId = record.familyId := (h.members _ set hset token hin).2 _ hmark
        exact Or.inr ⟨hfamily, Store.Tracked.dead_revokeFamily h _⟩
      · exact Or.inl ⟨userId, (Keys.delAll_of_not_mem hmem).trans hmark⟩
    | rotated hget hactive hlive =>
      have hother : token ≠ token' := by
        rintro rfl
        obtain ⟨t, ht, -, rfl⟩ := Keys.get_eq_some.mp hget
        rw [hmark, Option.some.injEq] at ht
        rw [← ht] at hactive
        cases hactive
      exact Or.inl ⟨userId, (Keys.set_of_ne hne ..).trans ((Keys.set_of_ne hother ..).trans hmark)⟩
  | revoke token' =>
    have hother : token ≠ token' := fun heq => hop (congrArg Operation.revoke heq.symm)
    exact Or.inl ⟨userId, (Keys.del_of_ne hother).trans hmark⟩
  | sleep seconds => exact Or.inl ⟨userId, hmark⟩

theorem marks_after (h : s.Sound ttl) (hmarks : s.store.Marks token familyId stays)
    {history : List Operation} (hnot : .revoke token ∉ history) :
    (s.after ttl history).store.Marks token familyId stays ∨ (s.after ttl history).Dead familyId := by
  induction history generalizing s with
  | nil => exact Or.inl hmarks
  | cons op history ih =>
    rw [List.mem_cons, not_or] at hnot
    rcases marks_perform h hmarks (fun heq => hnot.1 heq.symm) with hmarks' | hdead
    · exact ih (h.perform op) hmarks' hnot.2
    · exact Or.inr (hdead.after history)

theorem nextToken_le_perform (s : Sessions) (op : Operation) :
    s.nextToken ≤ (s.perform ttl op).nextToken := by
  cases op with
  | issue => exact Nat.le_succ _
  | rotate token =>
    have hcases := presented ttl s token
    generalize s.rotate ttl token = result at hcases
    generalize s.perform ttl (.rotate token) = after at hcases ⊢
    cases hcases with
    | unknown | reused | refused => exact Nat.le_refl _
    | rotated => exact Nat.le_succ _
  | revoke | sleep => exact Nat.le_refl _

/-- A token that has been revoked is missing. -/
theorem missing_of_mem (hlt : token < s.nextToken) {history : List Operation}
    (hmem : .revoke token ∈ history) : (s.after ttl history).store.tokens token = none := by
  induction history generalizing s with
  | nil => cases hmem
  | cons op history ih =>
    rcases List.mem_cons.mp hmem with rfl | hmem
    · have hgone : (s.perform ttl (.revoke token)).store.tokens token = none := Keys.del_self ..
      exact missing_after (s := s.perform ttl (.revoke token)) hlt hgone history
    · exact ih (Nat.lt_of_lt_of_le hlt (nextToken_le_perform s op)) hmem

/-- `Rotate` marks the token that it is presented. -/
theorem marks_rotate {record : TokenRecord} {fresh : Token} {userId : UserId} (h : s.Sound ttl)
    (hget : s.store.tokens.get s.now token = some record)
    (hok : s.rotate ttl token = .ok (fresh, userId)) :
    (s.perform ttl (.rotate token)).store.Marks token record.familyId (s.now + grace) := by
  have hcases := presented ttl s token
  rw [hok] at hcases
  generalize s.perform ttl (.rotate token) = after at hcases ⊢
  cases hcases with
  | rotated hget' hactive hlive =>
    obtain rfl : record = _ := Option.some.inj (hget.symm.trans hget')
    obtain ⟨t, ht, -⟩ := Keys.get_eq_some.mp hget
    have hne : token ≠ s.nextToken := Nat.ne_of_lt (h.known token t ht).1
    exact ⟨record.userId, (Keys.set_of_ne hne ..).trans (Keys.set_self ..)⟩

/-- A token that is unknown changes nothing. -/
theorem rotate_unknown (hget : s.store.tokens.get s.now token = none) :
    s.rotate ttl token = .error .refreshTokenInvalid ∧ s.perform ttl (.rotate token) = s := by
  have hcases := presented ttl s token
  generalize s.rotate ttl token = result at hcases ⊢
  generalize s.perform ttl (.rotate token) = after at hcases ⊢
  cases hcases with
  | unknown => exact ⟨rfl, rfl⟩
  | reused hget' | refused hget' | rotated hget' =>
    rw [hget] at hget'
    cases hget'

/-- A token that is still marked ends its family. -/
theorem rotate_marked (h : s.Sound ttl) (hmarks : s.store.Marks token familyId stays)
    (hstays : s.now < stays) : s.rotate ttl token = .error .refreshTokenReused ∧
      (s.perform ttl (.rotate token)).Dead familyId := by
  obtain ⟨userId, hmark⟩ := hmarks
  have hread : s.store.tokens.get s.now token = some ⟨userId, familyId, .rotated⟩ :=
    Keys.get_eq_some.mpr ⟨_, hmark, hstays, rfl⟩
  have hcases := presented ttl s token
  generalize s.rotate ttl token = result at hcases ⊢
  generalize s.perform ttl (.rotate token) = after at hcases ⊢
  cases hcases with
  | unknown hget =>
    rw [hread] at hget
    cases hget
  | reused hget hrotated =>
    obtain rfl := Option.some.inj (hread.symm.trans hget)
    exact ⟨rfl, (h.known token _ hmark).2, Store.Tracked.dead_revokeFamily h familyId⟩
  | refused hget hactive | rotated hget hactive =>
    obtain rfl := Option.some.inj (hread.symm.trans hget)
    cases hactive

/-- A token of the family is active and has not expired. -/
def Sessions.Active (familyId : FamilyId) (s : Sessions) : Prop :=
  ∃ token record, s.store.tokens.get s.now token = some record ∧ record.status = .active ∧
    record.familyId = familyId

/-- `Rotate` accepts no token of the family. -/
def Sessions.Ended (familyId : FamilyId) (s : Sessions) : Prop :=
  ∀ token record, s.store.Accepts s.now token record → record.familyId ≠ familyId

/-- A family with an active token is not over: the token is accepted. -/
theorem Sessions.Active.not_ended (h : s.Active familyId) (hmarked : s.Marked) :
    ¬ s.Ended familyId := by
  obtain ⟨token, record, hget, hactive, rfl⟩ := h
  intro hended
  refine hended token record ⟨hget, hactive, Keys.get_eq_none.mpr fun t ht => ?_⟩ rfl
  exact absurd rfl ((hmarked record.familyId t ht).not_accepts hget hactive)

/-- What `Rotate` does with a token that was rotated away, while its family is active. -/
theorem rotate_again {between : List Operation} {fresh : Token} {record : TokenRecord}
    {userId : UserId} (hsound : s.Sound ttl) (hget : s.store.tokens.get s.now token = some record)
    (hok : s.rotate ttl token = .ok (fresh, userId)) {t : Sessions}
    (ht : (s.perform ttl (.rotate token)).after ttl between = t)
    (hactive : t.Active record.familyId) :
    if .revoke token ∉ between ∧ t.now < s.now + grace then
      t.rotate ttl token = .error .refreshTokenReused ∧ ∀ later,
        ((t.perform ttl (.rotate token)).after ttl later).Ended record.familyId
    else t.rotate ttl token = .error .refreshTokenInvalid ∧ t.perform ttl (.rotate token) = t := by
  subst ht
  have hsound' := hsound.perform (.rotate token)
  have hmarks := marks_rotate hsound hget hok
  split_ifs with hcond
  · rcases marks_after hsound' hmarks hcond.1 with hmarks | hdead
    · obtain ⟨hreused, hdead⟩ := rotate_marked (hsound'.after between) hmarks hcond.2
      refine ⟨hreused, fun later token' record' hacc => ?_⟩
      exact (hdead.after later).not_accepts hacc.1 hacc.2.1
    · -- the family has not died, as a token of it is active
      obtain ⟨token', record', hget', hactive', hfamily⟩ := hactive
      exact absurd hfamily (hdead.not_accepts hget' hactive')
  · refine rotate_unknown (Keys.get_eq_none.mpr fun t ht => ?_)
    by_cases hmem : .revoke token ∈ between
    · obtain ⟨u, hu⟩ := hmarks
      rw [missing_of_mem (hsound'.known token _ hu).1 hmem] at ht
      cases ht
    · rcases marks_after hsound' hmarks hmem with ⟨u, hu⟩ | hdead
      · rw [hu, Option.some.injEq] at ht
        rw [← ht]
        exact Nat.le_of_not_lt fun hgrace => hcond ⟨hmem, hgrace⟩
      · obtain ⟨token', record', hget', hactive', hfamily⟩ := hactive
        exact absurd hfamily (hdead.not_accepts hget' hactive')

/-- **A token that was rotated away is presented again**, while its family is active.  Within
`grace`, and unless it has been revoked, that ends the family for good; otherwise the token
is unknown, and nothing changes.  So the family is over just where the token is remembered. -/
theorem rotate_detectsReuse {before between : List Operation} {s t : Sessions} {token fresh : Token}
    {record : TokenRecord} {userId : UserId} (hs : Sessions.after ttl {} before = s)
    (hget : s.store.tokens.get s.now token = some record)
    (hok : s.rotate ttl token = .ok (fresh, userId))
    (ht : (s.perform ttl (.rotate token)).after ttl between = t)
    (hactive : t.Active record.familyId) :
    (if .revoke token ∉ between ∧ t.now < s.now + grace then
      t.rotate ttl token = .error .refreshTokenReused ∧ ∀ later,
        ((t.perform ttl (.rotate token)).after ttl later).Ended record.familyId
    else
      t.rotate ttl token = .error .refreshTokenInvalid ∧ t.perform ttl (.rotate token) = t) ∧
    ((∀ later, ((t.perform ttl (.rotate token)).after ttl later).Ended record.familyId) ↔
      .revoke token ∉ between ∧ t.now < s.now + grace) := by
  have hsound : s.Sound ttl := hs ▸ Sessions.Sound.empty.after before
  have hinit : Sessions.Marked {} := by
    intro familyId t ht
    cases ht
  have hmarked : s.Marked := hs ▸ hinit.after Sessions.Sound.empty before
  have hagain := rotate_again hsound hget hok ht hactive
  refine ⟨hagain, fun hended => ?_, fun hcond => ?_⟩
  · by_contra hcond
    rw [if_neg hcond] at hagain
    have hstill := hended []
    rw [hagain.2] at hstill
    have hmarked' : t.Marked :=
      ht ▸ (hmarked.perform hsound _).after (hsound.perform _) between
    exact hactive.not_ended hmarked' hstill
  · rw [if_pos hcond] at hagain
    exact hagain.2

/-- A user signs in. -/
def signedInOnce : Sessions := Sessions.after refreshTokenTTL {} [.issue 7]

/-- The first token is presented again half a minute after it was rotated away. -/
def halfAMinuteLater : Sessions :=
  (signedInOnce.perform refreshTokenTTL (.rotate 0)).after refreshTokenTTL [.sleep 30]

/-- The first token is presented again after ten seconds, two generations later. -/
def tenSecondsLater : Sessions :=
  (signedInOnce.perform refreshTokenTTL (.rotate 0)).after refreshTokenTTL [.rotate 1, .sleep 10]

theorem rotate_detectsReuse_tenSecondsLater :
    tenSecondsLater.rotate refreshTokenTTL 0 = .error .refreshTokenReused ∧ ∀ later,
      ((tenSecondsLater.perform refreshTokenTTL (.rotate 0)).after refreshTokenTTL later).Ended 0 := by
  have hactive : tenSecondsLater.Active 0 :=
    ⟨2, ⟨7, 0, .active⟩, by decide +kernel, rfl, rfl⟩
  have hbefore : Sessions.after refreshTokenTTL {} [.issue 7] = signedInOnce := rfl
  have hget : signedInOnce.store.tokens.get signedInOnce.now 0 = some ⟨7, 0, .active⟩ := by
    decide +kernel
  have hok : signedInOnce.rotate refreshTokenTTL 0 = .ok (1, 7) := by decide +kernel
  have hreuse := (rotate_detectsReuse hbefore hget hok (rfl : _ = tenSecondsLater) hactive).1
  rwa [if_pos (by decide +kernel)] at hreuse

/-- Half a minute later the token is unknown, and its successor is still accepted. -/
theorem not_forall_detectsReuse :
    ¬ ∀ (before between later : List Operation) (s t : Sessions) (token fresh : Token)
      (record : TokenRecord) (userId : UserId), Sessions.after refreshTokenTTL {} before = s →
      s.store.tokens.get s.now token = some record →
      s.rotate refreshTokenTTL token = .ok (fresh, userId) →
      (s.perform refreshTokenTTL (.rotate token)).after refreshTokenTTL between = t →
      t.Active record.familyId →
      ((t.perform refreshTokenTTL (.rotate token)).after refreshTokenTTL later).Ended
        record.familyId := by
  intro h
  have hactive : halfAMinuteLater.Active 0 :=
    ⟨1, ⟨7, 0, .active⟩, by decide +kernel, rfl, rfl⟩
  have hended := h [.issue 7] [.sleep 30] [] signedInOnce halfAMinuteLater 0 1 ⟨7, 0, .active⟩ 7 rfl
    (by decide +kernel) rfl rfl hactive
  have hacc : (halfAMinuteLater.perform refreshTokenTTL (.rotate 0)).store.Accepts
      (halfAMinuteLater.perform refreshTokenTTL (.rotate 0)).now 1 ⟨7, 0, .active⟩ := by
    decide +kernel
  exact hended 1 ⟨7, 0, .active⟩ hacc rfl

end VocalCoach.RefreshTokens
