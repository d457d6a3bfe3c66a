/-
# What a done analysis was made from

Wherever the deliveries of an entry are cut off, a row that is `done` is what the rest of
`handle` makes of a row with every stage saved (`concluded_of_done`).

* Until the run completes, the row has no scores, and its stages are `Saved`
  (`Underway`).
* From then on, it either is not done yet or has all its columns (`Concluding`).
-/
import VocalCoach.Redelivery

namespace VocalCoach.Pipeline.Completion

open Program

variable {Value : Type} {h : Handler Value} {d : Delivery} {id : AnalysisId}
variable {db : Database Value} {r base : Row Value} {t baseTable : Snapshots Value}
variable {R : Row Value → Snapshots Value → Prop}

/-! ## Once the run has completed -/

section Storing

variable {record : Row Value}

theorem target_scores {aspect : String} (haspect : aspect ∈ aspects) :
    (r.target h).scores aspect =
      ((field r.stages aspect "score").bind h.conversions.float).or (r.scores aspect) :=
  if_pos haspect

/-- A row with every stage saved, or what the rest of `handle` has made of it so far. -/
structure Concluding (h : Handler Value) (id : AnalysisId) (base : Row Value)
    (baseTable : Snapshots Value) (r : Row Value) (t : Snapshots Value) : Prop where
  between : Between h id base baseTable r t
  done : r.status = .done → Convertible h (prune base.stages) ∧ r.untime = base.target h

/-- What was read of the row is still there. -/
structure Storing (h : Handler Value) (id : AnalysisId) (base : Row Value)
    (baseTable : Snapshots Value) (record r : Row Value) (t : Snapshots Value) : Prop where
  reading : Reading h id base baseTable record r t
  done : r.status = .done → Convertible h (prune base.stages) ∧ r.untime = base.target h

/-- A done row is its own target. -/
theorem Storing.target (hs : Storing h id base baseTable record r t) (hdone : r.status = .done) :
    r.untime = r.target h := by
  rw [(hs.done hdone).2, hs.reading.between.row]

/-- A statement that writes to a done row what is there. -/
theorem Storing.write {r' : Row Value} {t' : Snapshots Value}
    (hs : Storing h id base baseTable record r t)
    (hreading : Reading h id base baseTable record r' t') (hstatus : r'.status = r.status)
    (hsame : r.untime = r.target h → r'.untime = r.untime) :
    Storing h id base baseTable record r' t' := by
  refine ⟨hreading, fun hdone => ?_⟩
  rw [hstatus] at hdone
  exact ⟨(hs.done hdone).1, (hsame (hs.target hdone)).trans (hs.done hdone).2⟩

theorem keeps_updateAnalysis {f : Time → Row Value → Row Value}
    (hR : ∀ now r t, R r t → R (f now r) t) : Keeps (Holds db id R) (updateAnalysis d id f) :=
  triple_updateAnalysis hR fun _ _ hw => hw

/-- A saved field, whether it is there or not. -/
theorem keeps_saveField {value : Option Value} {convert : Value → Option Value}
    {save : Value → Row Value → Row Value}
    (hsome : ∀ converted, value.bind convert = some converted → ∀ r t, R r t →
      R (save converted r) t) :
    Keeps (Holds db id R) (saveField d id value convert save) := by
  cases value with
  | none => exact keeps_pure _
  | some v =>
    refine Triple.bind (Q := fun converted w => convert v = some converted ∧ Holds db id R w)
      (triple_require (fun _ hconverted w hw => ⟨hconverted, hw⟩) fun _ w hw => hw) fun converted => ?_
    exact triple_of_imp fun hconverted => keeps_updateAnalysis fun _ => hsome converted hconverted

theorem Storing.saveAspectScore (hs : Storing h id base baseTable record r t) {aspect : String}
    {score : Value} (haspect : aspect ∈ aspects)
    (hscore : (field record.stages aspect "score").bind h.conversions.float = some score) :
    Storing h id base baseTable record (r.saveAspectScore aspect score) t := by
  have hreading := hs.reading
  rw [← hreading.stages] at hscore
  refine hs.write ⟨hreading.between.saveAspectScore haspect hscore, hreading.stages,
    hreading.userId, hreading.mode⟩ rfl fun htarget => ?_
  have hcolumn : r.scores aspect = some score := by
    show r.untime.scores aspect = some score
    rw [htarget, target_scores haspect, hscore]
    rfl
  rw [Row.saveAspectScore, ← hcolumn, Function.update_eq_self]

theorem Storing.savePianoRoll (hs : Storing h id base baseTable record r t) {roll : Value}
    (hroll : (field record.stages "pitch" "piano_roll").bind h.conversions.pianoRoll = some roll) :
    Storing h id base baseTable record (r.savePianoRoll roll) t := by
  have hreading := hs.reading
  rw [← hreading.stages] at hroll
  refine hs.write ⟨hreading.between.savePianoRoll hroll, hreading.stages, hreading.userId,
    hreading.mode⟩ rfl fun htarget => ?_
  have hcolumn : r.pitchCurveJson = some roll := by
    show r.untime.pitchCurveJson = some roll
    rw [htarget, Row.target, hroll]
    rfl
  rw [Row.savePianoRoll, ← hcolumn]

theorem Storing.saveUserPitchCurve (hs : Storing h id base baseTable record r t) {curve : Value}
    (hcurve : (field record.stages "pitch" "user_pitch_curve").bind h.conversions.pitchCurve =
      some curve) :
    Storing h id base baseTable record (r.saveUserPitchCurve curve) t := by
  have hreading := hs.reading
  rw [← hreading.stages] at hcurve
  refine hs.write ⟨hreading.between.saveUserPitchCurve hcurve, hreading.stages, hreading.userId,
    hreading.mode⟩ rfl fun htarget => ?_
  have hcolumn : r.userPitch = some curve := by
    show r.untime.userPitch = some curve
    rw [htarget, Row.target, hcurve]
    rfl
  rw [Row.saveUserPitchCurve, ← hcolumn]

theorem Storing.saveScoringResult (hs : Storing h id base baseTable record r t)
    {scoring : Scoring Value}
    (hscoring : (aggregateData record.stages).bind h.conversions.scoring = some scoring) :
    Storing h id base baseTable record (r.saveScoringResult scoring) t := by
  have hreading := hs.reading
  rw [← hreading.stages] at hscoring
  refine hs.write ⟨hreading.between.saveScoringResult hscoring, hreading.stages, hreading.userId,
    hreading.mode⟩ rfl fun htarget => ?_
  have hcolumn : r.scoring = some scoring := by
    show r.untime.scoring = some scoring
    rw [htarget, Row.target, hscoring]
    rfl
  rw [Row.saveScoringResult, ← hcolumn]

theorem keeps_saveAspects {rest : List String} (hrest : ∀ aspect ∈ rest, aspect ∈ aspects) :
    Keeps (Holds db id (Storing h id base baseTable record))
      (saveAspects h d id record.stages rest) := by
  induction rest with
  | nil => exact keeps_pure _
  | cons aspect rest ih =>
    refine Keeps.bind (keeps_saveField ?_) fun _ =>
      ih fun other hother => hrest other (List.mem_cons_of_mem _ hother)
    intro score hscore r t hs
    exact hs.saveAspectScore (hrest aspect List.mem_cons_self) hscore

theorem keeps_saveScoring :
    Keeps (Holds db id (Storing h id base baseTable record)) (saveScoring h d id record) := by
  unfold saveScoring
  cases hdata : aggregateData record.stages with
  | none => exact keeps_pure _
  | some data =>
    refine Triple.bind (Q := fun scoring w => h.conversions.scoring data = some scoring ∧
      Holds db id (Storing h id base baseTable record) w)
      (triple_require (fun _ hscoring w hw => ⟨hscoring, hw⟩) fun _ w hw => hw) fun scoring => ?_
    refine triple_of_imp fun hscoring => ?_
    have hbind : (aggregateData record.stages).bind h.conversions.scoring = some scoring := by
      rw [hdata, Option.bind_some, hscoring]
    refine Keeps.bind (keeps_updateAnalysis fun _ r t hs => hs.saveScoringResult hbind) fun _ => ?_
    refine triple_recordProgressSnapshot ?_ fun _ _ hw => hw
    intro now r t hs
    have hsnapshot := snapshot_of_reading hs.reading now hbind
    exact hs.write ⟨hs.reading.between.record hsnapshot, hs.reading.stages, hs.reading.userId,
      hs.reading.mode⟩ rfl fun _ => rfl

/-- **`_persist_scores` on a done row changes nothing.** -/
theorem keeps_persistScores :
    Keeps (Holds db id (Concluding h id base baseTable)) (persistScores h d id) := by
  refine Triple.bind (triple_getById fun _ _ hw => hw) fun record => ?_
  have hrest : Keeps (Holds db id (Storing h id base baseTable record)) (do
      saveAspects h d id record.stages aspects
      saveField d id (field record.stages "pitch" "piano_roll") h.conversions.pianoRoll
        Row.savePianoRoll
      saveField d id (field record.stages "pitch" "user_pitch_curve") h.conversions.pitchCurve
        Row.saveUserPitchCurve
      saveScoring h d id record) := by
    refine Keeps.bind (keeps_saveAspects fun _ haspect => haspect) fun _ => ?_
    refine Keeps.bind (keeps_saveField fun _ hroll r t hs => hs.savePianoRoll hroll) fun _ => ?_
    refine Keeps.bind (keeps_saveField fun _ hcurve r t hs => hs.saveUserPitchCurve hcurve)
      fun _ => ?_
    exact keeps_saveScoring
  have hback : ∀ w, Holds db id (Storing h id base baseTable record) w →
      Holds db id (Concluding h id base baseTable) w :=
    fun w hw => hw.mono fun r t hs => ⟨hs.reading.between, hs.done⟩
  refine Triple.weaken hrest (fun w hw => hw.mono ?_) (fun _ => hback) hback
  rintro r t ⟨hc, rfl⟩
  exact ⟨⟨hc.between, rfl, rfl, rfl⟩, hc.done⟩

end Storing

theorem Holds.and {R' : Row Value → Snapshots Value → Prop} {w : World Value}
    (hw : Holds db id R w) (hw' : Holds db id R' w) :
    Holds db id (fun r t => R r t ∧ R' r t) w := by
  obtain ⟨hpending, r, t, hdb, hr⟩ := hw
  obtain ⟨-, r', t', hdb', hr'⟩ := hw'
  have hsame : db.put id r t = db.put id r' t' := hdb.symm.trans hdb'
  have hrow : some r = some r' := by
    rw [← put_analyses db id r t, hsame, put_analyses]
  cases hrow
  obtain rfl : t = t' := congrArg Database.snapshots hsame
  exact ⟨hpending, r, t, hdb, hr, hr'⟩

theorem Concluding.pruned (hc : Concluding h id base baseTable r t) (hp : Persisted h id r t) :
    Concluding h id base baseTable r.pruneDenseStageFields t := by
  refine ⟨hc.between.pruned hp, fun hdone => ?_⟩
  obtain ⟨hconvertible, htarget⟩ := hc.done hdone
  -- the stages of a done row are pruned already
  have hstages : r.stages = prune base.stages := by
    show r.untime.stages = prune base.stages
    rw [htarget]
    rfl
  have hsame : r.pruneDenseStageFields = r := by
    rw [Row.pruneDenseStageFields, hstages, prune_prune, ← hstages]
  rw [hsame]
  exact ⟨hconvertible, htarget⟩

theorem Concluding.markDone (hc : Concluding h id base baseTable r t) (hp : Persisted h id r t)
    (hpruned : prune r.stages = r.stages) (now : Time) :
    Concluding h id base baseTable (r.markDone h.modelVersions now) t := by
  refine ⟨hc.between.markDone now, fun _ => ⟨?_, ?_⟩⟩
  · rcases hc.between.stages with hsame | hsame
    · rw [← hsame]
      exact hp.convertible.pruned
    · rw [← hsame]
      exact hp.convertible
  · rw [hp.untime_markDone hpruned, hc.between.row]

/-- An operation that leaves the database alone. -/
theorem keeps_elsewhere {f : World Value → World Value} (hdb : ∀ w, (f w).db = w.db)
    (hpending : ∀ w, (f w).acknowledged = w.acknowledged) :
    Keeps (Holds db id R) (operate d fun _ w => ((), f w)) := by
  refine triple_operate ?_ fun _ _ hw => hw
  rintro _ w ⟨hunacked, r, t, hw, hr⟩
  exact ⟨(hpending w).trans hunacked, r, t, (hdb w).trans hw, hr⟩

/-- **`handle` once the run has completed.** -/
theorem keeps_finish :
    Keeps (Holds db id (Concluding h id base baseTable)) (finish h d id) := by
  -- the stages `_persist_scores` reads are those of the base, pruned or not
  have hsplit : ∀ w, Holds db id (Concluding h id base baseTable) w →
      ∃ found : { stages // stages = base.stages ∨ stages = prune base.stages },
        Holds db id (Concluding h id base baseTable) w ∧
          Holds db id (fun r t => Between h id base baseTable r t ∧ r.stages = found.val) w := by
    rintro w ⟨hpending, r, t, hdb, hc⟩
    exact ⟨⟨r.stages, hc.between.stages⟩, ⟨hpending, r, t, hdb, hc⟩,
      hpending, r, t, hdb, hc.between, rfl⟩
  have hpersist : ∀ found : { stages // stages = base.stages ∨ stages = prune base.stages },
      Triple (fun w => Holds db id (Concluding h id base baseTable) w ∧
          Holds db id (fun r t => Between h id base baseTable r t ∧ r.stages = found.val) w)
        (persistScores h d id)
        (fun _ => Holds db id fun r t =>
          Concluding h id base baseTable r t ∧ Persisted h id r t)
        (Holds db id (Concluding h id base baseTable)) := by
    intro found
    refine Triple.weaken (keeps_persistScores.and (triple_persistScores found.property))
      (fun _ hw => hw) ?_ fun w hw => hw.1
    rintro _ w ⟨hw, hw'⟩
    exact (hw.and hw').mono fun r t hr => ⟨hr.1, hr.2.2.2⟩
  refine Triple.bind (Triple.weaken (Triple.exists hpersist) hsplit (fun _ _ hw => hw)
    fun _ hw => hw) fun _ => ?_
  refine Triple.bind (Q := fun _ => Holds db id fun r t =>
    Concluding h id base baseTable r t ∧ Persisted h id r t ∧ prune r.stages = r.stages) ?_
    fun _ => ?_
  · refine triple_updateAnalysis ?_ fun _ w hw => hw.mono fun r t hr => hr.1
    rintro _ r t ⟨hc, hp⟩
    exact ⟨hc.pruned hp, hp.pruned, prune_prune _⟩
  refine Triple.bind (Q := fun _ => Holds db id (Concluding h id base baseTable)) ?_ fun _ => ?_
  · refine triple_updateAnalysis ?_ fun _ w hw => hw.mono fun r t hr => hr.1
    rintro now r t ⟨hc, hp, hpruned⟩
    exact hc.markDone hp hpruned now
  refine Keeps.bind (keeps_elsewhere (fun _ => rfl) fun _ => rfl) fun _ => ?_
  refine Keeps.bind (keeps_elsewhere (fun _ => rfl) fun _ => rfl) fun _ => ?_
  exact keeps_elsewhere (fun _ => rfl) fun _ => rfl

/-- The row and the snapshots are as `R` says, whether the entry is over or not. -/
def Reached (db : Database Value) (id : AnalysisId) (R : Row Value → Snapshots Value → Prop)
    (w : World Value) : Prop :=
  ∃ r t, w.db = db.put id r t ∧ R r t

theorem Holds.reached {w : World Value} (hw : Holds db id R w) : Reached db id R w := hw.2

/-- `_ack_and_remove` touches no row. -/
theorem triple_ackAndRemove (terminal : Bool) :
    Triple (Holds db id R) (ackAndRemove d terminal) (fun _ => Reached db id R)
      (Reached db id R) := by
  cases terminal with
  | false => exact triple_pure fun _ hw => hw.reached
  | true =>
    refine Triple.bind (Q := fun _ => Reached db id R) ?_ fun _ => ?_
    · exact triple_operate (fun _ _ hw => hw.2) fun _ _ hw => hw.reached
    · exact triple_operate (fun _ _ hw => hw) fun _ _ hw => hw

/-- **A redelivery.** -/
theorem triple_processEntry_again (hall : AllSaved h base) (hsong : SongReady db base.songId) :
    Triple (Holds db id (Concluding h id base baseTable)) (processEntry h d id)
      (fun _ => Reached db id (Concluding h id base baseTable))
      (Reached db id (Concluding h id base baseTable)) := by
  have hassoc : processEntry h d id =
      attempt h d id >>= fun outcome => conclude h d id outcome >>= ackAndRemove d := bind_assoc _ _ _
  rw [hassoc]
  refine Triple.bind (triple_attempt_again hall hsong (fun _ _ hr => hr.between)
    fun _ _ hw => hw.reached) fun outcome => triple_of_imp fun houtcome => ?_
  subst houtcome
  refine Triple.bind (Q := fun _ => Holds db id (Concluding h id base baseTable)) ?_
    triple_ackAndRemove
  exact Triple.bind (keeps_finish.weaken (fun _ hw => hw) (fun _ _ hw => hw) fun _ hw => hw.reached)
    fun _ => triple_pure fun _ hw => hw

/-! ## Until the run completes -/

/-- A row that earlier runs of the pipeline have left. -/
structure Underway (h : Handler Value) (db : Database Value) (id : AnalysisId) (r : Row Value) :
    Prop where
  undone : r.status ≠ .done
  scores : r.scores = fun _ => none
  saved : ∀ context, contextOf db id r = some context →
    ∃ met, Saved h.stages context (some r.mode) r.stages met

/-- The results that a run has saved until it was cut off. -/
structure SavedFrom (db : Database Value) (id : AnalysisId) (found : Row Value)
    (saved : List (Progress (Fields Value))) (r : Row Value) : Prop where
  context : contextOf db id r = contextOf db id found
  mode : r.mode = found.mode
  undone : r.status ≠ .done
  scores : r.scores = fun _ => none
  stages : r.stages = record found.stages (saved.map Progress.result)

section Runs

variable {found : Row Value} {context : Context (Job Value) (Fields Value)}

theorem SavedFrom.underway {saved : List (Progress (Fields Value))} {fails : Failures}
    {stops : ℕ → Bool} (hfound : Underway h db id found)
    (hcontext : contextOf db id found = some context)
    (hcut : saved <+: (run h.stages context found.stages fails stops (some found.mode)).saved)
    (hr : SavedFrom db id found saved r) : Underway h db id r := by
  refine ⟨hr.undone, hr.scores, fun context' hcontext' => ?_⟩
  rw [hr.context, hcontext] at hcontext'
  cases hcontext'
  obtain ⟨met, hsaved⟩ := hfound.saved context hcontext
  rw [hr.mode, hr.stages]
  exact ⟨_, hsaved.run fails stops saved hcut⟩

/-- **The calls of `save_stage_progress`**, wherever they are cut off. -/
theorem triple_saveEach_from {all : List (Progress (Fields Value))} {E : World Value → Prop}
    (hE : ∀ saved, saved <+: all → ∀ w, Holds db id (fun r _ => SavedFrom db id found saved r) w →
      E w) {saved rest : List (Progress (Fields Value))} (hall : saved ++ rest = all) :
    Triple (Holds db id fun r _ => SavedFrom db id found saved r) (saveEach d id rest)
      (fun _ => Holds db id fun r _ => SavedFrom db id found all r) E := by
  induction rest generalizing saved with
  | nil =>
    rw [List.append_nil] at hall
    subst hall
    exact triple_pure fun _ hw => hw
  | cons p rest ih =>
    have hsplit : saved ++ [p] ++ rest = all := by
      rw [List.append_assoc, List.singleton_append, hall]
    refine Triple.bind (Q := fun _ => Holds db id fun r _ =>
      SavedFrom db id found (saved ++ [p]) r) ?_ fun _ => ih hsplit
    refine triple_updateAnalysis ?_ fun _ => hE saved ⟨_, hall⟩
    intro now r t hr
    refine ⟨hr.context, hr.mode, hr.undone, hr.scores, ?_⟩
    rw [List.map_append, record_append, ← hr.stages]
    rfl

/-- **A run of the pipeline**, and what it leaves where it completes. -/
theorem triple_attempt_underway :
    Triple (Holds db id fun r _ => Underway h db id r) (attempt h d id)
      (fun outcome => Holds db id fun r _ => Underway h db id r ∧
        (outcome = .completed → AllSaved h r ∧ SongReady db r.songId))
      (Holds db id fun r _ => Underway h db id r) := by
  refine Triple.bind (triple_getById fun _ _ hw => hw) fun found => ?_
  have hpre : ∀ w, Holds db id (fun r _ => Underway h db id r ∧ r = found) w →
      Underway h db id found ∧ Holds db id (fun r _ => r = found) w := by
    rintro w ⟨hpending, r, t, hdb, hr, rfl⟩
    exact ⟨hr, hpending, r, t, hdb, rfl⟩
  refine Triple.weaken (triple_of_imp fun hfound => ?_) hpre (fun _ _ hw => hw) (fun _ hw => hw)
  refine Triple.bind (triple_buildContext fun _ w hw => hw.mono fun r t hr => hr ▸ hfound)
    fun context => triple_of_imp fun hcontext => ?_
  dsimp only
  generalize hreport : run h.stages context found.stages d.fails d.stops (some found.mode) = report
  have hcut : ∀ saved, saved <+: report.saved → ∀ w,
      Holds db id (fun r _ => SavedFrom db id found saved r) w →
        Holds db id (fun r _ => Underway h db id r) w :=
    fun saved hsaved w hw => hw.mono fun r t hr => hr.underway hfound hcontext (hreport ▸ hsaved)
  refine Triple.bind (Q := fun _ => Holds db id fun r _ => SavedFrom db id found [] r) ?_ fun _ => ?_
  · have hstart : SavedFrom db id found [] found := ⟨rfl, rfl, hfound.undone, hfound.scores, rfl⟩
    cases report.marked with
    | none => exact triple_pure fun w hw => hw.mono fun r t hr => hr ▸ hstart
    | some first =>
      refine triple_updateAnalysis ?_ fun _ w hw => hw.mono fun r t hr => hr ▸ hfound
      rintro now r t rfl
      exact ⟨rfl, rfl, by simp [Row.markProcessing], hstart.scores, rfl⟩
  refine Triple.bind (triple_saveEach_from hcut (List.nil_append _)) fun _ => ?_
  refine triple_pure fun w hw => hw.mono fun r t hr => ?_
  have hall : report.saved <+:
      (run h.stages context found.stages d.fails d.stops (some found.mode)).saved := by
    simpa only [hreport] using List.prefix_refl report.saved
  refine ⟨hr.underway hfound hcontext hall, fun hdone => ?_⟩
  refine ⟨allSaved_of_completed (hreport ▸ hdone) (hreport ▸ hr.stages) hr.mode, ?_⟩
  have hsame : contextOf db id r = some context := hr.context.trans hcontext
  exact (contextOf_eq hsame).1

end Runs

/-! ## Deliveries -/

/-- Each of these is reached by any number of deliveries. -/
def Delivered (h : Handler Value) (db : Database Value) (id : AnalysisId) (w : World Value) : Prop :=
  Reached db id (fun r _ => Underway h db id r) w ∨
    ∃ base baseTable, Underway h db id base ∧ AllSaved h base ∧ SongReady db base.songId ∧
      Reached db id (Concluding h id base baseTable) w

/-- What `handle` makes of the row once the runner has returned or raised. -/
theorem triple_conclude_underway (outcome : Outcome) :
    Triple (Holds db id fun r _ => Underway h db id r ∧
        (outcome = .completed → AllSaved h r ∧ SongReady db r.songId))
      (conclude h d id outcome >>= ackAndRemove d) (fun _ => Delivered h db id)
      (Delivered h db id) := by
  have hreached : ∀ w, Reached db id (fun r _ => Underway h db id r) w → Delivered h db id w :=
    fun w hw => Or.inl hw
  have hunderway : ∀ w, Holds db id (fun r _ => Underway h db id r ∧
      (outcome = .completed → AllSaved h r ∧ SongReady db r.songId)) w →
        Holds db id (fun r _ => Underway h db id r) w :=
    fun w hw => hw.mono fun r t hr => hr.1
  have hack : ∀ terminal, Triple (Holds db id fun r _ => Underway h db id r)
      (ackAndRemove d terminal) (fun _ => Delivered h db id) (Delivered h db id) :=
    fun terminal => (triple_ackAndRemove terminal).weaken (fun _ hw => hw) (fun _ => hreached) hreached
  cases outcome with
  | raised e =>
    refine Triple.bind (Q := fun _ => Holds db id fun r _ => Underway h db id r) ?_ hack
    refine Triple.bind (Q := fun _ => Holds db id fun r _ => Underway h db id r) ?_ fun _ => ?_
    · refine triple_updateAnalysis ?_ fun _ w hw => hreached w (hunderway w hw).reached
      rintro now r t ⟨hr, -⟩
      exact ⟨by simp [Row.markFailed], hr.scores, hr.saved⟩
    refine Triple.bind (Q := fun _ => Holds db id fun r _ => Underway h db id r) ?_ fun _ => ?_
    · have hpublish : Keeps (Holds db id fun r _ => Underway h db id r)
          (publish d (.failed id e.errorCode e.message)) :=
        keeps_elsewhere (fun _ => rfl) fun _ => rfl
      exact hpublish.weaken (fun _ hw => hw) (fun _ _ hw => hw) fun w hw => hreached w hw.reached
    exact triple_pure fun _ hw => hw
  | interrupted =>
    refine Triple.bind (Q := fun _ => Holds db id fun r _ => Underway h db id r) ?_ hack
    exact triple_pure hunderway
  | completed =>
    -- from here on the row is the base
    have hsplit : ∀ w, Holds db id (fun r _ => Underway h db id r ∧
        (Outcome.completed = .completed → AllSaved h r ∧ SongReady db r.songId)) w →
          ∃ base : Row Value × Snapshots Value, (Underway h db id base.1 ∧ AllSaved h base.1 ∧
            SongReady db base.1.songId) ∧ Holds db id (Concluding h id base.1 base.2) w := by
      rintro w ⟨hpending, r, t, hdb, hr, hdone⟩
      exact ⟨(r, t), ⟨hr, hdone rfl⟩, hpending, r, t, hdb, Between.refl _ _ _ _,
        fun hstatus => absurd hstatus hr.undone⟩
    refine Triple.weaken (Triple.exists (P := fun base : Row Value × Snapshots Value => fun w =>
      (Underway h db id base.1 ∧ AllSaved h base.1 ∧ SongReady db base.1.songId) ∧
        Holds db id (Concluding h id base.1 base.2) w) fun base => triple_of_imp ?_)
      hsplit (fun _ _ hw => hw) (fun _ hw => hw)
    rintro ⟨hbase, hall, hsong⟩
    have hdelivered : ∀ w, Reached db id (Concluding h id base.1 base.2) w → Delivered h db id w :=
      fun w hw => Or.inr ⟨base.1, base.2, hbase, hall, hsong, hw⟩
    refine Triple.bind (Q := fun _ => Holds db id (Concluding h id base.1 base.2)) ?_
      fun terminal => (triple_ackAndRemove terminal).weaken (fun _ hw => hw) (fun _ => hdelivered)
        hdelivered
    exact Triple.bind (keeps_finish.weaken (fun _ hw => hw) (fun _ _ hw => hw)
      fun w hw => hdelivered w hw.reached) fun _ => triple_pure fun _ hw => hw

/-- **One delivery.** -/
theorem Delivered.deliver {w : World Value} (hw : Delivered h db id w) (d : Delivery) :
    Delivered h db id (deliver h d id w) := by
  unfold Completion.deliver
  by_cases hacked : w.acknowledged = true
  · rw [if_pos hacked]
    exact hw
  rw [if_neg hacked]
  have hpending : w.acknowledged = false := Bool.not_eq_true _ |>.mp hacked
  have hassoc : processEntry h d id =
      attempt h d id >>= fun outcome => conclude h d id outcome >>= ackAndRemove d := bind_assoc _ _ _
  have hrun : Triple (fun v => Delivered h db id v ∧ v.acknowledged = false) (processEntry h d id)
      (fun _ => Delivered h db id) (Delivered h db id) := by
    rintro v ⟨hv | ⟨base, baseTable, hbase, hall, hsong, hv⟩, hunacked⟩
    · rw [hassoc]
      refine Triple.bind (triple_attempt_underway.weaken (fun _ hw => hw) (fun _ _ hw => hw)
        fun _ hw => Or.inl hw.reached) triple_conclude_underway v ⟨hunacked, hv⟩
    · exact (triple_processEntry_again hall hsong).weaken (fun _ hw => hw)
        (fun _ _ hw => Or.inr ⟨base, baseTable, hbase, hall, hsong, hw⟩)
        (fun _ hw => Or.inr ⟨base, baseTable, hbase, hall, hsong, hw⟩) v ⟨hunacked, hv⟩
  have hpost := hrun { w with clock := 0 } ⟨hw, hpending⟩
  cases hend : processEntry h d id { w with clock := 0 } with
  | mk result v =>
    rw [hend] at hpost
    cases result <;> exact hpost

theorem Delivered.deliverAll {w : World Value} (hw : Delivered h db id w)
    (deliveries : List Delivery) : Delivered h db id (deliverAll h id deliveries w) := by
  induction deliveries generalizing w with
  | nil => exact hw
  | cons d deliveries ih => exact ih (hw.deliver d)

/-- **A done row** was made from one with every stage saved, by `_persist_scores`,
`prune_dense_stage_fields` and `mark_done`, however often they were begun. -/
theorem concluded_of_done {w : World Value} {start row : Row Value}
    (hstart : w.db.analyses id = some start) (hunderway : Underway h w.db id start)
    (deliveries : List Delivery)
    (hrow : (deliverAll h id deliveries w).db.analyses id = some row) (hdone : row.status = .done) :
    ∃ base, Underway h w.db id base ∧ AllSaved h base ∧ SongReady w.db base.songId ∧
      Convertible h (prune base.stages) ∧ row.untime = base.target h := by
  have hw : Delivered h w.db id w :=
    Or.inl ⟨start, w.db.snapshots, (put_self _ _ _ hstart).symm, hunderway⟩
  rcases hw.deliverAll deliveries with ⟨r, t, hdb, hr⟩ | ⟨base, baseTable, hbase, hall, hsong, hlast⟩
  · rw [hdb, put_analyses] at hrow
    cases hrow
    exact absurd hdone hr.undone
  · obtain ⟨r, t, hdb, hr⟩ := hlast
    rw [hdb, put_analyses] at hrow
    cases hrow
    exact ⟨base, hbase, hall, hsong, hr.done hdone⟩

end VocalCoach.Pipeline.Completion
