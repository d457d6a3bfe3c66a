/-
# Calls of `Rotate` that present the same token

`Rotate` reads the token, checks its family, marks the token and then writes the
successor, in four commands.  A call that has read the token as active and not yet marked
it *holds* the token: it will go on to write a successor whatever others do.  So two calls
that hold the token at once fork the family, and nothing else does
(`rotate_singleSuccessor`).
-/
import VocalCoach.TokenSteps

namespace VocalCoach.RefreshTokens

open ExpiringKeys Machine

variable {ttl : Time} {w w' : World} {a : Action} {c : Call} {rest : List Call} {token : Token}

/-- The call has read the token as active and has not marked it yet. -/
def Call.holds (token : Token) : Call → Bool
  | .rotateExists token' _ | .rotateMark token' _ => token' = token
  | _ => false

/-- The call has marked the token and has not written its successor yet. -/
def Call.succeeds (token : Token) : Call → Bool
  | .rotateIssue token' _ => token' = token
  | _ => false

/-- What a sweep does next claims no token. -/
theorem Origin.next_claims {origin : Origin} {d : Call} (hd : d ∈ origin.next) :
    ¬ d.holds token ∧ ¬ d.succeeds token := by
  cases origin with
  | rotate => cases hd
  | all userId families existing =>
    cases families <;> obtain rfl := List.mem_singleton.mp hd <;> simp [Call.holds, Call.succeeds]

/-- The token the command reads. -/
def Action.reads : Action → Option Token
  | .advance (.rotateGet token) => some token
  | _ => none

/-- No call reads a token as active that another one holds. -/
def OneHolder (w : World) (a : Action) : Prop :=
  ∀ token ∈ a.reads, (∀ record ∈ w.store.tokens.get w.now token, record.status = .rotated) ∨
    w.calls.countP (Call.holds token) = 0

instance : Decidable (OneHolder w a) :=
  inferInstanceAs (Decidable (∀ token ∈ a.reads,
    (∀ record ∈ w.store.tokens.get w.now token, record.status = .rotated) ∨
      w.calls.countP (Call.holds token) = 0))

/-- How many tokens `Rotate` has returned for this one. -/
def World.successorsOf (w : World) (token : Token) : ℕ :=
  w.successors.countP fun p => p.1 = token

/-- The calls that have returned, or will return, a successor of the token. -/
def World.claims (w : World) (token : Token) : ℕ :=
  w.calls.countP (Call.succeeds token) + w.successorsOf token

/-- The token has one holder or one successor at most, and once it is marked it stays so. -/
structure World.Single (token : Token) (w : World) : Prop where
  le_one : w.calls.countP (Call.holds token) + w.claims token ≤ 1
  known : 0 < w.claims token → token < w.nextToken
  marked : 0 < w.claims token → ∀ t, w.store.tokens token = some t → t.value.status = .rotated

theorem World.Single.empty : World.Single token {} :=
  ⟨Nat.zero_le _, fun h => absurd h (Nat.lt_irrefl 0), fun h => absurd h (Nat.lt_irrefl 0)⟩

/-! ## What a step does to the claims -/

/-- What two states need to share for the claims on a token to be the same. -/
theorem World.Single.congr (h : w.Single token)
    (hholds : w'.calls.countP (Call.holds token) ≤ w.calls.countP (Call.holds token))
    (hclaims : w'.claims token ≤ w.claims token) (hnext : w.nextToken ≤ w'.nextToken)
    (hmarked : token < w.nextToken → ∀ t, w'.store.tokens token = some t →
      w.store.tokens token = some t ∨ t.value.status = .rotated) : w'.Single token := by
  refine ⟨?_, fun hpos => ?_, fun hpos t ht => ?_⟩
  · have hle := h.le_one
    omega
  · have hlt := h.known (by omega)
    exact Nat.lt_of_lt_of_le hlt hnext
  · rcases hmarked (h.known (by omega)) t ht with ht | hrotated
    · exact h.marked (by omega) t ht
    · exact hrotated

/-- A call that ends, or goes on without a claim, adds none. -/
theorem World.Single.quiet (h : w.Single token) (added : List Call)
    (hcalls : w'.calls = added ++ w.calls.erase c) (hadded : ∀ d ∈ added, ¬ d.holds token ∧ ¬ d.succeeds token)
    (hsuccessors : w'.successors = w.successors) (hnext : w.nextToken ≤ w'.nextToken)
    (hmarked : token < w.nextToken → ∀ t, w'.store.tokens token = some t →
      w.store.tokens token = some t ∨ t.value.status = .rotated) : w'.Single token := by
  have hzero : ∀ p : Call → Bool, (∀ d ∈ added, ¬ p d) →
      w'.calls.countP p ≤ w.calls.countP p := by
    intro p hp
    rw [hcalls, List.countP_append, List.countP_eq_zero.mpr hp, Nat.zero_add]
    exact List.erase_sublist.countP_le
  refine h.congr (hzero _ fun d hd => (hadded d hd).1) ?_ hnext hmarked
  have hissuing := hzero (Call.succeeds token) fun d hd => (hadded d hd).2
  rw [World.claims, World.claims, World.successorsOf, World.successorsOf, hsuccessors]
  omega

/-- How many calls there are of a kind, the one that steps counted apart. -/
theorem countP_calls (hmem : c ∈ w.calls) (p : Call → Bool) :
    w.calls.countP p = (if p c then 1 else 0) + (w.calls.erase c).countP p := by
  rw [(List.perm_cons_erase hmem).countP_eq, List.countP_cons, Nat.add_comm]

/-- A token read as active has not been marked. -/
theorem World.Single.claims_eq_zero (h : w.Single token) {record : TokenRecord}
    (hget : w.store.tokens.get w.now token = some record) (hactive : record.status = .active) :
    w.claims token = 0 := by
  by_contra hne
  obtain ⟨t, ht, -, rfl⟩ := Keys.get_eq_some.mp hget
  rw [h.marked (by omega) t ht] at hactive
  cases hactive

/-- The call that reads a token as active is its only holder. -/
theorem World.Single.read (h : w.Single token) {token' : Token} {record : TokenRecord}
    (hmem : Call.rotateGet token' ∈ w.calls)
    (hget : w.store.tokens.get w.now token' = some record) (hactive : record.status = .active)
    (hone : OneHolder w (.advance (.rotateGet token'))) :
    { w with calls := .rotateExists token' record :: w.calls.erase (.rotateGet token') }.Single
      token := by
  by_cases heq : token' = token
  · subst heq
    have hnone := h.claims_eq_zero hget hactive
    have hholders : w.calls.countP (Call.holds token') = 0 := by
      refine (hone token' rfl).resolve_left fun hrotated => ?_
      rw [hrotated record hget] at hactive
      cases hactive
    rw [countP_calls hmem] at hholders
    rw [World.claims, countP_calls hmem, World.successorsOf] at hnone
    have hholds : (Call.rotateExists token' record :: w.calls.erase (.rotateGet token')).countP
        (Call.holds token') = 1 := by
      rw [List.countP_cons_of_pos (by simp [Call.holds])]
      omega
    have hclaims : World.claims { w with
        calls := .rotateExists token' record :: w.calls.erase (.rotateGet token') } token' = 0 := by
      simp only [World.claims, World.successorsOf]
      rw [List.countP_cons_of_neg (by simp [Call.succeeds])]
      omega
    refine ⟨?_, fun hpos => by omega, fun hpos => by omega⟩
    rw [hclaims]
    exact Nat.le_of_eq hholds
  · refine h.quiet [.rotateExists token' record] rfl ?_ rfl (Nat.le_refl _)
      fun _ t ht => Or.inl ht
    simp [Call.holds, Call.succeeds, heq]

/-- A holder that marks the token goes from one kind to the other. -/
theorem World.Single.mark (h : w.Single token) {token' : Token} {record : TokenRecord}
    (hmem : Call.rotateMark token' record ∈ w.calls) (hlt : token' < w.nextToken) :
    { w with
      store := w.store.markRotated w.now token' record
      calls := .rotateIssue token' record :: w.calls.erase (.rotateMark token' record) }.Single
      token := by
  have hle := h.le_one
  rw [World.claims, countP_calls hmem, countP_calls hmem] at hle
  by_cases heq : token' = token
  · subst heq
    simp only [Call.holds, Call.succeeds, decide_true, if_true, Bool.false_eq_true, if_false,
      World.successorsOf] at hle
    refine ⟨?_, fun _ => hlt, fun _ t ht => ?_⟩
    · simp only [World.claims, World.successorsOf]
      rw [List.countP_cons_of_neg (by simp [Call.holds]),
        List.countP_cons_of_pos (by simp [Call.succeeds])]
      omega
    · rw [Store.markRotated_tokens, Keys.set_self, Option.some.injEq] at ht
      rw [← ht]
  · refine h.quiet [.rotateIssue token' record] rfl ?_ rfl (Nat.le_refl _)
      fun _ t ht => ?_
    · simp [Call.holds, Call.succeeds, heq]
    · rw [Store.markRotated_tokens, Keys.set_of_ne (Ne.symm heq)] at ht
      exact Or.inl ht

/-- A new token is none that was issued. -/
theorem World.tokens_issue {userId : UserId} {familyId : FamilyId} {t : Timed TokenRecord}
    (hlt : token < w.nextToken) (ht : (w.issue ttl userId familyId).store.tokens token = some t) :
    w.store.tokens token = some t := by
  have hne : token ≠ w.nextToken := Nat.ne_of_lt hlt
  rwa [World.issue, Store.issueInFamily_tokens, Keys.set_of_ne hne] at ht

/-- The call that has marked the token returns its successor. -/
theorem World.Single.issue (h : w.Single token) {token' : Token} {record : TokenRecord}
    (hmem : Call.rotateIssue token' record ∈ w.calls) :
    { w.issue ttl record.userId record.familyId with
      calls := w.calls.erase (.rotateIssue token' record)
      successors := w.successors ++ [(token', w.nextToken)] }.Single token := by
  refine h.congr (List.erase_sublist.countP_le) ?_ (Nat.le_succ _)
    fun hlt t ht => Or.inl (World.tokens_issue hlt ht)
  -- what it was going to return is now what it has returned
  simp only [World.claims, World.successorsOf]
  rw [countP_calls hmem, List.countP_append]
  by_cases heq : token' = token
  · simp only [Call.succeeds, heq, decide_true, if_true, List.countP_cons_of_pos,
      List.countP_nil]
    omega
  · simp [Call.succeeds, heq]

/-- **A step leaves a token one holder or one successor at most.** -/
theorem World.Single.step (h : w.Single token) (hsound : w.Sound ttl) (hone : OneHolder w a)
    (hstep : step ttl w a = some w') : w'.Single token := by
  have hsame : ∀ {w₁ : World}, w₁.store.tokens = w.store.tokens → token < w.nextToken →
      ∀ t, w₁.store.tokens token = some t →
        w.store.tokens token = some t ∨ t.value.status = .rotated :=
    fun htokens _ t ht => Or.inl (htokens ▸ ht)
  rcases step_cases hstep with ⟨r, rfl, rfl⟩ | ⟨c, hmem, rfl, hadv⟩ |
    ⟨c, hmem, listed, rfl, hlisted⟩ | ⟨c, hmem, rfl, rfl⟩ | ⟨seconds, rfl, rfl⟩
  · refine h.congr ?_ ?_ (Nat.le_refl _) (hsame rfl)
    · cases r <;> simp [Request.call, Call.holds]
    · cases r <;> simp [Request.call, Call.succeeds, World.claims, World.successorsOf]
  · have hcall : c.Sound w.issued := hsound.calls c hmem
    cases hadv with
    | issue userId =>
      exact h.quiet [] rfl (by simp) rfl (Nat.le_succ _)
        fun hlt t ht => Or.inl (World.tokens_issue hlt ht)
    | unknown token' hget => exact h.quiet [] rfl (by simp) rfl (Nat.le_refl _) (hsame rfl)
    | reused token' hget hrotated =>
      exact h.quiet [_] rfl (by simp [Call.holds, Call.succeeds]) rfl (Nat.le_refl _)
        (hsame rfl)
    | read token' hget hactive => exact h.read hmem hget hactive hone
    | refused token' record =>
      exact h.quiet [] rfl (by simp) rfl (Nat.le_refl _) (hsame rfl)
    | checked token' record hlive =>
      -- the call that goes on holds what it held
      refine h.congr ?_ ?_ (Nat.le_refl _) (hsame rfl)
      · rw [countP_calls hmem, List.countP_cons, Nat.add_comm]
        exact Nat.le_refl _
      · simp only [World.claims, World.successorsOf]
        rw [countP_calls hmem, List.countP_cons, Nat.add_comm (List.countP _ _)]
        exact Nat.le_refl _
    | mark token' record =>
      obtain ⟨i, hi, rfl, -⟩ := hcall
      exact h.mark hmem (hsound.log.token_lt i hi)
    | rotate token' record => exact h.issue hmem
    | drop familyId hashes origin =>
      refine h.quiet origin.next rfl ?_ rfl (Nat.le_refl _)
        fun _ t ht => Or.inl (Keys.delAll_eq_some ht).2
      exact fun d hd => origin.next_claims hd
    | revoke token' =>
      exact h.quiet [] rfl (by simp) rfl (Nat.le_refl _)
        fun _ t ht => Or.inl (Keys.del_eq_some ht).2
    | dropUser userId existing =>
      exact h.quiet [] rfl (by simp) rfl (Nat.le_refl _) (hsame rfl)
  · cases hlisted with
    | family familyId origin hlisted =>
      exact h.quiet [_] rfl (by simp [Call.holds, Call.succeeds]) rfl (Nat.le_refl _)
        (hsame rfl)
    | user userId existing hlisted =>
      exact h.quiet (Origin.all userId listed existing).next rfl
        (fun d hd => Origin.next_claims hd) rfl (Nat.le_refl _) (hsame rfl)
  · exact h.quiet [] rfl (by simp) rfl (Nat.le_refl _) (hsame rfl)
  · exact h.congr (Nat.le_refl _) (Nat.le_refl _) (Nat.le_refl _) (hsame rfl)

/-- **`Rotate` returns one successor of a token at most**, where no call reads the token as
active that another one has read and not marked yet. -/
theorem rotate_singleSuccessor {as : List Action}
    (hmeets : Meets (step ttl) OneHolder {} as) (hrun : exec (step ttl) {} as = some w)
    (token : Token) : w.successorsOf token ≤ 1 := by
  have hinv := invariant (fun w => w.Sound ttl ∧ w.Single token)
    (fun _ _ _ h hone hstep => ⟨h.1.step hstep, h.2.step h.1 hone hstep⟩)
    ⟨World.Sound.empty, World.Single.empty⟩ hmeets hrun
  have hle := hinv.2.le_one
  rw [World.claims] at hle
  omega

/-! ## Two calls at once -/

/-- The first token there is. -/
def tokenZero : TokenRecord := ⟨7, 0, .active⟩

/-- A user signs in, and the token is presented twice. -/
def presentedTwice : List Action :=
  [.request (.issue 7), .advance (.issue 7), .request (.rotate 0), .request (.rotate 0),
    .advance (.rotateGet 0)]

/-- The second call reads the token once the first one has marked it. -/
def oneAfterTheOther : List Action :=
  presentedTwice ++
    [.advance (.rotateExists 0 tokenZero), .advance (.rotateMark 0 tokenZero),
      .advance (.rotateGet 0), .advance (.rotateIssue 0 tokenZero)]

/-- Both calls read the token before either of them marks it. -/
def bothAtOnce : List Action :=
  presentedTwice ++
    [.advance (.rotateGet 0), .advance (.rotateExists 0 tokenZero),
      .advance (.rotateExists 0 tokenZero), .advance (.rotateMark 0 tokenZero),
      .advance (.rotateMark 0 tokenZero), .advance (.rotateIssue 0 tokenZero),
      .advance (.rotateIssue 0 tokenZero)]

def rotatedOnce : World := (exec (step refreshTokenTTL) {} oneAfterTheOther).get (by decide +kernel)

theorem rotate_singleSuccessor_oneAfterTheOther : rotatedOnce.successorsOf 0 ≤ 1 := by
  have hmeets : Meets (step refreshTokenTTL) OneHolder {} oneAfterTheOther := by decide +kernel
  exact rotate_singleSuccessor hmeets (Option.some_get _).symm 0

/-- Each of two calls at once returns a token. -/
theorem not_forall_singleSuccessor :
    ¬ ∀ (as : List Action) (w : World), exec (step refreshTokenTTL) {} as = some w →
      ∀ token, w.successorsOf token ≤ 1 := by
  intro h
  have hrun : (exec (step refreshTokenTTL) {} bothAtOnce).map (fun w => w.successorsOf 0) = some 2 := by
    decide +kernel
  obtain ⟨w, hw, htwo⟩ := Option.map_eq_some_iff.mp hrun
  have hle := h bothAtOnce w hw 0
  omega

end VocalCoach.RefreshTokens
