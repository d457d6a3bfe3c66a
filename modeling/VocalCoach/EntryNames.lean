/-
# Names of stream entries

`XADD` returns the id of the entry it added, `SetQueueStreamID` writes it to the row, and
`Cancel` reads it there for its `XDEL`.  In between the entry may be gone and the row may
have a newer one.  What still holds is `Refers`: an entry that goes by the id is of the
analysis it is taken for, as ids are never drawn twice.
-/
import VocalCoach.Steps

namespace VocalCoach

open RedisStream

variable {cfg : Config} {w w' : World} {a : Action} {e : Effect}

/-! ## Good names -/

/-- What goes by the name of the entry is of this analysis. -/
structure Refers (s : Stream AnalysisId) (id : AnalysisId) (entry : EntryId) : Prop where
  le : entry ≤ s.lastId
  fields : ∀ x ∈ s.entries, x.id = entry → x.fields = id

/-- The entry a request names, and the analysis it takes it for. -/
def Call.names : Call → Option (AnalysisId × EntryId)
  | .setStreamId id entry | .cancelRemove id entry => some (id, entry)
  | _ => none

theorem step_run (hstep : step cfg w a = some w') :
    w'.run = w.run ∨ ∃ c : Command AnalysisId, w'.run = c.run w.now w.run := by
  rcases step_cases hstep with hlife | ⟨e, -, rfl⟩
  · exact Or.inl (lifecycle_untouched hlife).run
  · cases hc : e.run with
    | none => exact Or.inl (by simp only [World.apply, hc, Option.elim_none])
    | some c => exact Or.inr ⟨c, by simp only [World.apply, hc, Option.elim_some]⟩

theorem step_lastId (hstep : step cfg w a = some w') : w.run.lastId ≤ w'.run.lastId := by
  rcases step_run hstep with hsame | ⟨c, hrun⟩
  · rw [hsame]
  · rw [hrun]
    exact c.lastId_le_run w.run w.now

/-- A name stays good: new entries get new ids. -/
theorem Refers.step {id : AnalysisId} {entry : EntryId} (h : Refers w.run id entry)
    (hstep : step cfg w a = some w') : Refers w'.run id entry := by
  refine ⟨h.le.trans (step_lastId hstep), fun x hx hid => ?_⟩
  rcases step_run hstep with hsame | ⟨c, hrun⟩
  · exact h.fields x (hsame ▸ hx) hid
  · rcases Command.mem_run (hrun ▸ hx) with hx | hnew
    · exact h.fields x hx hid
    · rw [← hid, hnew] at h
      exact absurd h.le (Nat.not_succ_le_self _)

/-- The id `XADD` returns names the entry just added. -/
theorem refers_xadd {s : Stream AnalysisId} (hs : s.Ordered) (id : AnalysisId) :
    Refers (s.xadd id) id (s.lastId + 1) := by
  refine ⟨Nat.le_refl _, fun x hx hid => ?_⟩
  rcases List.mem_append.mp hx with hx | hx
  · exact absurd (hid ▸ hs.entries_le x hx) (Nat.not_succ_le_self _)
  · rw [List.mem_singleton.mp hx]

theorem refers_self {s : Stream AnalysisId} (hs : s.Ordered) {x : Entry AnalysisId}
    (hx : x ∈ s.entries) : Refers s x.fields x.id :=
  ⟨hs.entries_le x hx, fun _ hy hid => congrArg Entry.fields (hs.eq_of_id hy hx hid)⟩

/-! ## Where names come from -/

/-- **Where a request gets the name from**: it had it before, it just added the entry, or
it is a `Cancel` that read the row. -/
theorem step_names (hstep : step cfg w a = some w') {c : Call} (hc : c ∈ w'.calls)
    {id : AnalysisId} {entry : EntryId} (hname : c.names = some (id, entry)) :
    c ∈ w.calls ∨ (w'.run = w.run.xadd id ∧ entry = w.run.lastId + 1) ∨
      ∃ r ∈ w.db.analyses, r.id = id ∧ r.queueStreamId = some entry := by
  rcases step_cases hstep with hlife | ⟨e, hplan, rfl⟩
  · exact Or.inl ((lifecycle_untouched hlife).calls ▸ hc)
  change c ∈ e.calls at hc
  by_cases hapi : a.ofApi
  · cases plan_apiMove hplan hapi with
    | request hmove =>
      cases hmove <;> simp only [World.keep, List.mem_cons] at hc
      case refused => exact Or.inl hc
      case cancelStored r _ hr _ hentry =>
        rcases hc with rfl | hc
        · cases hname
          have hid : r.id = id := by simpa using List.find?_some hr
          exact Or.inr (Or.inr ⟨r, List.mem_of_find?_eq_some hr, hid, hentry⟩)
        · exact Or.inl hc
      all_goals
        rcases hc with rfl | hc
        · cases hname
        · exact Or.inl hc
    | @advance c₀ _ hc₀ hmove =>
      have hrest : c ∈ w.calls.erase c₀ → c ∈ w.calls := List.mem_of_mem_erase
      cases hmove <;> simp only [List.mem_cons] at hc
      case publish | retryPublish =>
        rcases hc with rfl | hc
        · cases hname
          exact Or.inr (Or.inl ⟨rfl, rfl⟩)
        · exact Or.inl (hrest hc)
      all_goals first
        | exact Or.inl (hrest hc)
        | (rcases hc with rfl | hc
           · cases hname
           · exact Or.inl (hrest hc))
    | @abort c₀ hc₀ =>
      refine Or.inl ?_
      cases c₀ <;> simp only [Call.onError, List.mem_cons] at hc
      case cancelRemove =>
        rcases hc with rfl | hc
        · cases hname
        · exact List.mem_of_mem_erase hc
      all_goals exact List.mem_of_mem_erase hc
  · rw [(plan_move hplan (by simpa using hapi)).calls.1] at hc
    exact Or.inl hc

/-- A new `Remove` comes from a `Cancel` that has just committed. -/
theorem step_cancelRemove (hsound : w.Sound) (hstep : step cfg w a = some w') {id : AnalysisId}
    {entry : EntryId} (hc : Call.cancelRemove id entry ∈ w'.calls) {r : Analysis}
    (hr : r ∈ w'.db.analyses) (hid : r.id = id) (hq : r.status = .queued) :
    Call.cancelRemove id entry ∈ w.calls := by
  rcases step_cases hstep with hlife | ⟨e, hplan, rfl⟩
  · exact (lifecycle_untouched hlife).calls ▸ hc
  change Call.cancelRemove id entry ∈ e.calls at hc
  by_cases hapi : a.ofApi
  · cases plan_apiMove hplan hapi with
    | request hmove =>
      cases hmove <;> simp only [World.keep, List.mem_cons, reduceCtorEq, false_or] at hc
      case cancelStored userId _ r₀ _ hr₀ hguard _ =>
        rcases hc with heq | hc
        · -- the row is canceled by the same step
          cases heq
          rcases mem_run.mp (show r ∈ (Statement.run w.now w.db (.cancel id userId)).analyses from hr)
            with ⟨b, hb, hbr⟩ | hins
          · obtain ⟨hr₀mem, hr₀id⟩ := hsound.db.analysis_eq_some.mp hr₀
            have hbid : b.id = id := (onRow_id hbr).symm.trans hid
            obtain rfl := hsound.db.eq_of_id hb hr₀mem (hbid.trans hr₀id.symm)
            simp only [Statement.onRow, hguard, if_true, Option.some.injEq] at hbr
            rw [← hbr] at hq
            cases hq
          · cases hins
        · exact hc
      all_goals exact hc
    | advance _ hmove =>
      cases hmove <;> simp only [List.mem_cons, reduceCtorEq, false_or] at hc <;>
        exact List.mem_of_mem_erase hc
    | @abort c₀ _ =>
      cases c₀ <;> simp only [Call.onError, List.mem_cons, reduceCtorEq, false_or] at hc <;>
        exact List.mem_of_mem_erase hc
  · rw [(plan_move hplan (by simpa using hapi)).calls.1] at hc
    exact hc

/-- A row's name for its entry comes from `SetQueueStreamID`. -/
theorem onRow_queueStreamId {now : Time} {db : Database} {s : Statement} {b r : Analysis}
    (h : s.onRow now db b = some r) {entry : EntryId} (hentry : r.queueStreamId = some entry) :
    b.queueStreamId = some entry ∨ s = .setQueueStreamId b.id entry := by
  cases s <;> simp only [Statement.onRow, Option.some.injEq, Option.ite_none_left_eq_some] at h
  case setQueueStreamId id entry' =>
    subst h
    split_ifs at hentry with hid
    · cases hentry
      exact Or.inr (by rw [hid])
    · exact Or.inl hentry
  case retry | retryToWaitingForReference =>
    subst h
    split_ifs at hentry
    · cases hentry
    · exact Or.inl hentry
  all_goals first
    | (obtain ⟨-, rfl⟩ := h; exact Or.inl hentry)
    | (subst h; split_ifs at hentry <;> exact Or.inl hentry)

/-- A row's name for its entry was there before, or a request just wrote it. -/
theorem step_queueStreamId (hstep : step cfg w a = some w') {r : Analysis}
    (hr : r ∈ w'.db.analyses) {entry : EntryId} (hentry : r.queueStreamId = some entry) :
    (∃ b ∈ w.db.analyses, b.id = r.id ∧ b.queueStreamId = some entry) ∨
      .setStreamId r.id entry ∈ w.calls := by
  rcases step_row hstep hr with hr | ⟨e, s, hplan, hs, ⟨b, hb, hbr⟩ | hins⟩
  · exact Or.inl ⟨r, hr, rfl, hentry⟩
  · have hid := onRow_id hbr
    rcases onRow_queueStreamId hbr hentry with hold | rfl
    · exact Or.inl ⟨b, hb, hid.symm, hold⟩
    · refine Or.inr ?_
      cases plan_apiStatement hplan hs rfl
      rw [hid]
      exact (Option.ite_none_right_eq_some.mp hplan).1
  · cases s <;> simp only [Statement.inserted, List.mem_singleton, List.not_mem_nil] at hins
    rw [hins] at hentry
    cases hentry

end VocalCoach
