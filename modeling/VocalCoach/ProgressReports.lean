/-
# What a run reports

The calls of `save_stage_progress` and `mark_processing` that one run of the pipeline makes.
Positions come from the whole list of the mode, the order from the stages that are left, and
the next stage from a counter that goes through them.

`pendingStages` are the stages of the mode that are not saved, in flat order.  A run reports
the results of the first of them, in order and without a gap, however it ends
(`stages_isPrefix`); the stage its i-th call names as the next one is the pending stage
after the i-th (`getElem?_saves`), and the indexes it announces are their positions in the
whole list, which the flat order makes increase (`announced_run`).
-/
import VocalCoach.Resuming
import Mathlib.Order.Nat

namespace VocalCoach.Pipeline

variable {Job Data : Type} {fails : Failures} {plan : Plan Job Data} {stops : ℕ → Bool}
variable {entries : List (Entry Job Data)} {c : Context Job Data}

/-! ## Positions -/

/-- `_flatten(_stages_for_mode(...))`: the stages of a mode, in order. -/
def activeFlat (entries : List (Entry Job Data)) (mode : Option Mode) :
    List (PipelineStage Job Data) :=
  flatten (stagesForMode entries mode)

/-- Those of them that are not saved. -/
def pendingStages (entries : List (Entry Job Data)) (alreadyDone : Completed Data)
    (mode : Option Mode) : List (PipelineStage Job Data) :=
  (activeFlat entries mode).filter fun s => (alreadyDone s.name).isNone

/-- Going on with a list whose names are new leaves the others where they are. -/
theorem positions_of_not_mem (flat : List (PipelineStage Job Data)) (n : ℕ) (f : String → ℕ)
    {name : String} (h : name ∉ flat.map PipelineStage.name) :
    (flat.zipIdx n).foldl
        (fun positions p => Function.update positions p.1.name (p.2 + 1)) f name = f name := by
  induction flat generalizing n f with
  | nil => rfl
  | cons s rest ih =>
    rw [List.map_cons, List.mem_cons, not_or] at h
    rw [List.zipIdx_cons, List.foldl_cons, ih _ _ h.2, Function.update_of_ne h.1]

theorem positions_getElem? (flat : List (PipelineStage Job Data)) (n : ℕ) (f : String → ℕ)
    (hnames : (flat.map PipelineStage.name).Nodup) {k : ℕ} {s : PipelineStage Job Data}
    (hk : flat[k]? = some s) :
    (flat.zipIdx n).foldl
        (fun positions p => Function.update positions p.1.name (p.2 + 1)) f s.name
      = n + k + 1 := by
  induction flat generalizing n f k with
  | nil => cases hk
  | cons first rest ih =>
    rw [List.map_cons, List.nodup_cons] at hnames
    rw [List.zipIdx_cons, List.foldl_cons]
    cases k with
    | zero =>
      obtain rfl : first = s := Option.some.inj hk
      rw [positions_of_not_mem _ _ _ hnames.1, Function.update_self]
    | succ k =>
      rw [ih (n + 1) _ hnames.2 hk]
      omega

/-- **The position of a stage is its place in the list, counted from one.** -/
theorem stagePositions_getElem? {flat : List (PipelineStage Job Data)}
    (hnames : (flat.map PipelineStage.name).Nodup) {k : ℕ} {s : PipelineStage Job Data}
    (hk : flat[k]? = some s) : stagePositions flat s.name = k + 1 := by
  rw [stagePositions, positions_getElem? flat 0 _ hnames hk, Nat.zero_add]

/-- In flat order the positions increase. -/
theorem pairwise_stagePositions {flat : List (PipelineStage Job Data)}
    (hnames : (flat.map PipelineStage.name).Nodup) :
    flat.Pairwise fun s t => stagePositions flat s.name < stagePositions flat t.name := by
  rw [List.pairwise_iff_getElem]
  intro i j hi hj hlt
  rw [stagePositions_getElem? hnames (List.getElem?_eq_getElem hi),
    stagePositions_getElem? hnames (List.getElem?_eq_getElem hj)]
  omega

/-! ## The calls of a run -/

/-- The results a run saves are those of the first stages of its list. -/
theorem saved_isPrefix (plan : Plan Job Data) (fails : Failures) (stops : ℕ → Bool)
    (entries : List (Entry Job Data)) (turn position : ℕ) (c : Context Job Data) :
    ∃ results, (runEntries plan fails stops entries turn position c).saved
        = plan.saves position results ∧
      results.map StageResult.stage <+: (flatten entries).map PipelineStage.name := by
  induction entries generalizing turn position c with
  | nil => exact ⟨[], rfl, List.nil_prefix⟩
  | cons entry entries ih =>
    have hflat : flatten (entry :: entries) = entry.members ++ flatten entries := List.flatMap_cons
    unfold runEntries
    by_cases hstop : stops turn = true
    · rw [if_pos hstop]
      exact ⟨[], rfl, List.nil_prefix⟩
    · rw [if_neg hstop]
      dsimp only
      rcases hrun : runEntry fails c entry with ⟨e | results, executed⟩
      · exact ⟨[], rfl, List.nil_prefix⟩
      · have hstages : results.map StageResult.stage = entry.members.map PipelineStage.name :=
          stages_of_runEntry (congrArg Prod.fst hrun)
        obtain ⟨later, hlater, hprefix⟩ := ih (turn + 1) (position + results.length)
          (results.foldl Context.withResult c)
        refine ⟨results ++ later, ?_, ?_⟩
        · rw [saves_append, ← hlater]
        · rw [hflat, List.map_append, List.map_append, hstages]
          exact (List.prefix_append_right_inj _).mpr hprefix

/-- The call for the result at a position: it names the stage after it in the list that is
left. -/
def Plan.call (plan : Plan Job Data) (position : ℕ) (r : StageResult Data) : Progress Data where
  result := r
  nextStage := plan.remainingFlat[position + 1]?.map PipelineStage.name
  nextStageIndex := plan.remainingFlat[position + 1]?.map fun s => plan.positions s.name
  totalStages := plan.total

/-- **The i-th call of a run.** -/
theorem getElem?_saves (plan : Plan Job Data) (position : ℕ) (results : List (StageResult Data))
    (i : ℕ) :
    (plan.saves position results)[i]? = results[i]?.map (plan.call (position + i)) := by
  induction results generalizing position i with
  | nil => rfl
  | cons r results ih =>
    rw [Plan.saves]
    cases i with
    | zero => rfl
    | succ i =>
      have hindex : position + 1 + i = position + (i + 1) := by omega
      rw [List.getElem?_cons_succ, List.getElem?_cons_succ, ih, hindex]

/-- The indexes of the next stages, one call after the other. -/
theorem filterMap_saves (plan : Plan Job Data) (position : ℕ) (results : List (StageResult Data)) :
    (plan.saves position results).filterMap Progress.nextStageIndex =
      ((plan.remainingFlat.drop (position + 1)).take results.length).map
        fun s => plan.positions s.name := by
  induction results generalizing position with
  | nil => simp [Plan.saves]
  | cons r results ih =>
    rw [Plan.saves]
    by_cases hnext : position + 1 < plan.remainingFlat.length
    · rw [List.filterMap_cons_some (by rw [List.getElem?_eq_getElem hnext]; rfl), ih,
        List.drop_eq_getElem_cons hnext, List.length_cons, List.take_succ_cons, List.map_cons]
    · have hover : plan.remainingFlat.length ≤ position + 1 := not_lt.mp hnext
      rw [List.filterMap_cons_none (by rw [List.getElem?_eq_none hover]; rfl), ih,
        List.drop_of_length_le hover, List.drop_of_length_le (hover.trans (Nat.le_succ _))]
      simp

/-! ## One run -/

/-- The indexes a run announces, in order: that of `mark_processing`, then those of the calls of
`save_stage_progress` that have one. -/
def Report.announced (report : Report Job Data) : List ℕ :=
  (report.marked.toList.map fun mark => mark.2.1) ++
    report.saved.filterMap Progress.nextStageIndex

/-- The reports of a run are consistent with the whole list and the stages that are left. -/
structure Report.Consistent (report : Report Job Data) (flat pending : List (PipelineStage Job Data)) :
    Prop where
  /-- The stages that are left, in order and without a gap. -/
  stages : report.saved.map (fun p => p.result.stage) <+: pending.map PipelineStage.name
  /-- The next stage is the one the following call reports. -/
  following : ∀ i p q, report.saved[i]? = some p → report.saved[i + 1]? = some q →
    p.nextStage = some q.result.stage
  /-- After the last call it is the first stage that was not reported, if there is one. -/
  last : ∀ p, report.saved.getLast? = some p →
    p.nextStage = pending[report.saved.length]?.map PipelineStage.name
  /-- A run that completes leaves none. -/
  completed : report.outcome = .completed → report.saved.length = pending.length
  /-- The next index is the position of the next stage. -/
  index : ∀ p ∈ report.saved, (p.nextStage = none ∧ p.nextStageIndex = none) ∨
    ∃ k s, flat[k]? = some s ∧ p.nextStage = some s.name ∧ p.nextStageIndex = some (k + 1)
  increasing : report.announced.Pairwise (· < ·)
  total : ∀ p ∈ report.saved, p.totalStages = flat.length
  /-- `mark_processing` names the first stage that is left. -/
  marked : ∀ s, pending.head? = some s →
    ∃ k, flat[k]? = some s ∧ report.marked = some (s.name, k + 1, flat.length)
  unmarked : pending = [] → report.marked = none

theorem remainingEntries_eq_pending (entries : List (Entry Job Data))
    (alreadyDone : Completed Data) (mode : Option Mode) :
    flatten (remainingEntries (stagesForMode entries mode) alreadyDone) =
      pendingStages entries alreadyDone mode := by
  rw [remainingEntries, flatten_restrict]
  rfl

section Run

variable {initial : Context Job Data} {alreadyDone : Completed Data} {mode : Option Mode}

/-- What `run` works out before its loop. -/
def planOf (entries : List (Entry Job Data)) (alreadyDone : Completed Data)
    (mode : Option Mode) : Plan Job Data where
  positions := stagePositions (activeFlat entries mode)
  total := (activeFlat entries mode).length
  remainingFlat := pendingStages entries alreadyDone mode

/-- The calls of a run, from the results it saves. -/
theorem run_saved (entries : List (Entry Job Data)) (initial : Context Job Data)
    (alreadyDone : Completed Data) (fails : Failures) (stops : ℕ → Bool) (mode : Option Mode) :
    (run entries initial alreadyDone fails stops mode).marked =
        ((pendingStages entries alreadyDone mode).head?.map fun first =>
          (first.name, stagePositions (activeFlat entries mode) first.name,
            (activeFlat entries mode).length)) ∧
      ∃ results, (run entries initial alreadyDone fails stops mode).saved
          = (planOf entries alreadyDone mode).saves 0 results ∧
        results.map StageResult.stage <+:
          (pendingStages entries alreadyDone mode).map PipelineStage.name ∧
        ((run entries initial alreadyDone fails stops mode).outcome = .completed →
          results.map StageResult.stage =
            (pendingStages entries alreadyDone mode).map PipelineStage.name) := by
  have hpending := remainingEntries_eq_pending entries alreadyDone mode
  refine ⟨?_, ?_⟩
  · show (flatten (remainingEntries (stagesForMode entries mode) alreadyDone)).head?.map _ = _
    rw [hpending]
    rfl
  · -- the loop of `run`, with its plan under a name
    let context : Context Job Data :=
      { initial with completed := fun name => (alreadyDone name).or (initial.completed name) }
    let remaining := remainingEntries (stagesForMode entries mode) alreadyDone
    have hplan : planOf entries alreadyDone mode =
        { positions := stagePositions (flatten (stagesForMode entries mode))
          total := (flatten (stagesForMode entries mode)).length
          remainingFlat := flatten remaining } := by
      rw [hpending]
      rfl
    have hrun : (run entries initial alreadyDone fails stops mode).saved =
          (runEntries (planOf entries alreadyDone mode) fails stops remaining 0 0 context).saved ∧
        (run entries initial alreadyDone fails stops mode).outcome =
          (runEntries (planOf entries alreadyDone mode) fails stops remaining 0 0 context).outcome := by
      rw [hplan]
      exact ⟨rfl, rfl⟩
    obtain ⟨results, hsaved, hprefix⟩ :=
      saved_isPrefix (planOf entries alreadyDone mode) fails stops remaining 0 0 context
    rw [hpending] at hprefix
    refine ⟨results, hrun.1.trans hsaved, hprefix, fun hdone => ?_⟩
    have hall := stages_of_completed (hrun.2.symm.trans hdone)
    rw [hsaved, hpending] at hall
    have hresults := congrArg (List.map StageResult.stage)
      (saves_map_result (planOf entries alreadyDone mode) 0 results)
    rw [List.map_map] at hresults
    exact hresults.symm.trans hall

/-- **The reports of a run are consistent**, however it ends. -/
theorem run_consistent (entries : List (Entry Job Data)) (initial : Context Job Data)
    (alreadyDone : Completed Data) (fails : Failures) (stops : ℕ → Bool) (mode : Option Mode)
    (hnames : ((flatten entries).map PipelineStage.name).Nodup) :
    (run entries initial alreadyDone fails stops mode).Consistent (activeFlat entries mode)
      (pendingStages entries alreadyDone mode) := by
  obtain ⟨hmarked, results, hsaved, hprefix, hcompleted⟩ :=
    run_saved entries initial alreadyDone fails stops mode
  have hflat : ((activeFlat entries mode).map PipelineStage.name).Nodup :=
    nodup_stagesForMode hnames mode
  have hplace : ∀ s ∈ pendingStages entries alreadyDone mode,
      ∃ k, (activeFlat entries mode)[k]? = some s ∧
        stagePositions (activeFlat entries mode) s.name = k + 1 := by
    intro s hs
    obtain ⟨k, hk⟩ := List.mem_iff_getElem?.mp (List.mem_of_mem_filter hs)
    exact ⟨k, hk, stagePositions_getElem? hflat hk⟩
  have hresults := saves_map_result (planOf entries alreadyDone mode) 0 results
  rw [← hsaved] at hresults
  have hlength : (run entries initial alreadyDone fails stops mode).saved.length
      = results.length := by
    rw [← hresults, List.length_map]
  have hcall : ∀ i, (run entries initial alreadyDone fails stops mode).saved[i]? =
      results[i]?.map ((planOf entries alreadyDone mode).call i) := by
    intro i
    rw [hsaved, getElem?_saves, Nat.zero_add]
  constructor
  case stages =>
    have hstages := congrArg (List.map StageResult.stage) hresults
    rw [List.map_map] at hstages
    rw [← hstages] at hprefix
    exact hprefix
  case following =>
    intro i p q hp hq
    rw [hcall] at hp hq
    obtain ⟨r, -, rfl⟩ := Option.map_eq_some_iff.mp hp
    obtain ⟨r', hr', rfl⟩ := Option.map_eq_some_iff.mp hq
    -- the stage of the next result is the next pending one
    have hnext : (results.map StageResult.stage)[i + 1]? = some r'.stage := by
      rw [List.getElem?_map, hr']
      rfl
    have hpending : ((pendingStages entries alreadyDone mode).map PipelineStage.name)[i + 1]?
        = some r'.stage := by
      obtain ⟨rest, hrest⟩ := hprefix
      rw [← hrest, List.getElem?_append_left (List.getElem?_eq_some_iff.mp hnext).1, hnext]
    rwa [List.getElem?_map] at hpending
  case last =>
    intro p hp
    have hpos : 0 < (run entries initial alreadyDone fails stops mode).saved.length :=
      List.length_pos_iff.mpr fun hnil => by rw [hnil] at hp; cases hp
    rw [List.getLast?_eq_getElem?, hcall] at hp
    obtain ⟨r, -, rfl⟩ := Option.map_eq_some_iff.mp hp
    show (pendingStages entries alreadyDone mode)[_]?.map _ = _
    rw [Nat.sub_add_cancel hpos]
  case completed =>
    intro hdone
    have hall := congrArg List.length (hcompleted hdone)
    rwa [List.length_map, List.length_map, ← hlength] at hall
  case index =>
    intro p hp
    obtain ⟨i, hi⟩ := List.mem_iff_getElem?.mp hp
    rw [hcall] at hi
    obtain ⟨r, -, rfl⟩ := Option.map_eq_some_iff.mp hi
    cases hnext : (pendingStages entries alreadyDone mode)[i + 1]? with
    | none =>
      left
      simp [Plan.call, planOf, hnext]
    | some s =>
      right
      obtain ⟨k, hk, hposition⟩ := hplace s (List.mem_of_getElem? hnext)
      exact ⟨k, s, hk, by simp [Plan.call, planOf, hnext],
        by simp [Plan.call, planOf, hnext, hposition]⟩
  case increasing =>
    have hannounced : (run entries initial alreadyDone fails stops mode).announced =
        ((pendingStages entries alreadyDone mode).take (results.length + 1)).map
          fun s => stagePositions (activeFlat entries mode) s.name := by
      rw [Report.announced, hmarked, hsaved, filterMap_saves]
      show _ ++ (((pendingStages entries alreadyDone mode).drop 1).take results.length).map
        (fun s => stagePositions (activeFlat entries mode) s.name) = _
      cases pendingStages entries alreadyDone mode <;> simp
    have hsublist : ((pendingStages entries alreadyDone mode).take (results.length + 1)).Sublist
        (activeFlat entries mode) :=
      (List.take_sublist _ _).trans List.filter_sublist
    rw [hannounced, List.pairwise_map]
    exact (pairwise_stagePositions hflat).sublist hsublist
  case total =>
    intro p hp
    obtain ⟨i, hi⟩ := List.mem_iff_getElem?.mp hp
    rw [hcall] at hi
    obtain ⟨r, -, rfl⟩ := Option.map_eq_some_iff.mp hi
    rfl
  case marked =>
    intro s hs
    obtain ⟨k, hk, hposition⟩ := hplace s (List.mem_of_mem_head? hs)
    exact ⟨k, hk, by rw [hmarked, hs, Option.map_some, hposition]⟩
  case unmarked =>
    intro hnone
    rw [hmarked, hnone]
    rfl

end Run

/-- A run that takes up where one was cut off amid a group. -/
theorem run_consistent_resumed :
    (run aspectEntries freshContext (record (fun _ => none) (cutAmidGroup.map Progress.result))
      (fun _ _ => none) (fun _ => false) none).Consistent (activeFlat aspectEntries none)
      (pendingStages aspectEntries
        (record (fun _ => none) (cutAmidGroup.map Progress.result)) none) ∧
    (run aspectEntries freshContext (record (fun _ => none) (cutAmidGroup.map Progress.result))
      (fun _ _ => none) (fun _ => false) none).announced = [3, 4] :=
  ⟨run_consistent _ _ _ _ _ _ (by decide), by decide +kernel⟩

/-- A run that is stopped after its first stage: its last call names the stage it did not
start. -/
theorem not_forall_following :
    ¬ ∀ (entries : List (Entry Unit ℕ)) (initial : Context Unit ℕ) (alreadyDone : Completed ℕ)
      (fails : Failures) (stops : ℕ → Bool) (mode : Option Mode),
      ((flatten entries).map PipelineStage.name).Nodup →
      ∀ i p, (run entries initial alreadyDone fails stops mode).saved[i]? = some p →
        p.nextStage = (run entries initial alreadyDone fails stops mode).saved[i + 1]?.map
          fun q => q.result.stage := by
  intro h
  have hstopped := h aspectEntries freshContext (fun _ => none) (fun _ _ => none)
    (fun turn => decide (turn = 1)) none (by decide) 0
  revert hstopped
  decide +kernel

end VocalCoach.Pipeline
