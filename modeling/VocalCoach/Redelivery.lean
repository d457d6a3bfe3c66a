/-
# An analysis whose completion is cut short

Once the last stage is saved, whatever cuts `handle` short, the next delivery completes the
analysis as if nothing had happened (`deliver_idempotent`).

Each statement has its triple: the row stays between the last stage and the end, and where a
delivery is cut short the process died or a conversion raised (`Cut`).
-/
import VocalCoach.Resuming
import VocalCoach.Targets
import Mathlib.Data.List.Nodup

namespace VocalCoach.Pipeline.Completion

open Program

variable {Value : Type} {h : Handler Value} {d : Delivery} {id : AnalysisId}
variable {stages : Completed (Fields Value)} {r base : Row Value} {t baseTable : Snapshots Value}

/-! ## The statements -/

/-- The database with another row and other snapshots of the analysis. -/
def Database.put (db : Database Value) (id : AnalysisId) (r : Row Value) (t : Snapshots Value) :
    Database Value :=
  { db with analyses := Function.update db.analyses id (some r), snapshots := t }

section Put

variable (db : Database Value) (id : AnalysisId) (r : Row Value) (t : Snapshots Value)

@[simp] theorem put_analyses : (db.put id r t).analyses id = some r := Function.update_self _ _ _

@[simp] theorem put_songs : (db.put id r t).songs = db.songs := rfl

theorem put_updateAnalysis (f : Row Value → Row Value) :
    (db.put id r t).updateAnalysis id f = db.put id (f r) t := by
  simp [Database.updateAnalysis, Database.put]

theorem put_recordProgressSnapshot (s : Snapshot Value) :
    (db.put id r t).recordProgressSnapshot s = db.put id r (t.upsert s) := rfl

theorem put_untime :
    (db.put id r t).untime id = db.put id r.untime (Snapshots.untime id t) := by
  rw [Database.untime, put_updateAnalysis]
  rfl

theorem put_self (h : db.analyses id = some r) : db.put id r db.snapshots = db := by
  rw [Database.put, ← h, Function.update_eq_self]

end Put

/-- The entry is pending, and the row and the snapshots are as `R` says. -/
def Holds (db : Database Value) (id : AnalysisId) (R : Row Value → Snapshots Value → Prop)
    (w : World Value) : Prop :=
  w.acknowledged = false ∧ ∃ r t, w.db = db.put id r t ∧ R r t

variable {db : Database Value} {R R' : Row Value → Snapshots Value → Prop}

theorem Holds.mono {w : World Value} (hw : Holds db id R w) (hR : ∀ r t, R r t → R' r t) :
    Holds db id R' w := by
  obtain ⟨hpending, r, t, hdb, hr⟩ := hw
  exact ⟨hpending, r, t, hdb, hR r t hr⟩

theorem triple_operate {α : Type} {f : Time → World Value → α × World Value}
    {P E : World Value → Prop} {Q : α → World Value → Prop}
    (hQ : ∀ now w, P w → Q (f now w).1 { (f now w).2 with clock := w.clock + 1 })
    (hE : d.diesAt ≠ none → ∀ w, P w → E w) : Triple P (operate d f) Q E := by
  intro w hw
  unfold operate
  by_cases hdies : d.diesAt = some w.clock
  · simp only [hdies, if_true]
    refine hE ?_ w hw
    rw [hdies]
    exact Option.some_ne_none _
  · simp only [hdies, if_false]
    exact hQ (d.time w.clock) w hw

theorem triple_require {σ α : Type} {o : Option α} {P E : σ → Prop} {Q : α → σ → Prop}
    (hsome : ∀ a, o = some a → ∀ s, P s → Q a s) (hnone : o = none → ∀ s, P s → E s) :
    Triple P (require o) Q E := by
  intro s hs
  cases o with
  | none => exact hnone rfl s hs
  | some a => exact hsome a rfl s hs

theorem triple_updateAnalysis {f : Time → Row Value → Row Value} {E : World Value → Prop}
    (hR : ∀ now r t, R r t → R' (f now r) t)
    (hE : d.diesAt ≠ none → ∀ w, Holds db id R w → E w) :
    Triple (Holds db id R) (updateAnalysis d id f) (fun _ => Holds db id R') E := by
  unfold updateAnalysis execute
  refine triple_operate ?_ hE
  rintro now w ⟨hpending, r, t, hdb, hr⟩
  refine ⟨hpending, f now r, t, ?_, hR now r t hr⟩
  dsimp only
  rw [hdb, put_updateAnalysis]

theorem triple_recordProgressSnapshot {s : Time → Snapshot Value} {E : World Value → Prop}
    (hR : ∀ now r t, R r t → R' r (t.upsert (s now)))
    (hE : d.diesAt ≠ none → ∀ w, Holds db id R w → E w) :
    Triple (Holds db id R) (execute d fun now db => db.recordProgressSnapshot (s now))
      (fun _ => Holds db id R') E := by
  unfold execute
  refine triple_operate ?_ hE
  rintro now w ⟨hpending, r, t, hdb, hr⟩
  refine ⟨hpending, r, t.upsert (s now), ?_, hR now r t hr⟩
  dsimp only
  rw [hdb, put_recordProgressSnapshot]

/-- `get_by_id` returns the row that is there. -/
theorem triple_getById {E : World Value → Prop}
    (hE : d.diesAt ≠ none → ∀ w, Holds db id R w → E w) :
    Triple (Holds db id R) (getById d id)
      (fun record => Holds db id fun r t => R r t ∧ r = record) E := by
  refine Triple.bind (Q := fun found w => ∃ record, found = some record ∧
    Holds db id (fun r t => R r t ∧ r = record) w) ?_ fun found => ?_
  · refine triple_operate ?_ hE
    rintro now w ⟨hpending, r, t, hdb, hr⟩
    refine ⟨r, ?_, hpending, r, t, hdb, hr, rfl⟩
    dsimp only
    rw [hdb, put_analyses]
  · refine triple_require ?_ ?_
    · rintro record rfl w ⟨record', heq, hw⟩
      obtain rfl : record = record' := Option.some.inj heq
      exact hw
    · rintro rfl w ⟨record, heq, -⟩
      cases heq

/-! ## The rest of `handle` -/

/-- A delivery that was cut short: the process died, or a conversion raised. -/
def Cut (h : Handler Value) (d : Delivery) (id : AnalysisId) (db : Database Value)
    (base : Row Value) (baseTable : Snapshots Value) (w : World Value) : Prop :=
  Holds db id (Between h id base baseTable) w ∧ (d.diesAt = none → ¬Convertible h base.stages)

theorem cut_of_dies (hR : ∀ r t, R r t → Between h id base baseTable r t)
    (hdies : d.diesAt ≠ none) (w : World Value) (hw : Holds db id R w) :
    Cut h d id db base baseTable w :=
  ⟨hw.mono hR, fun hnone => absurd hnone hdies⟩

section Persisting

variable {record : Row Value}

/-- The row while `_persist_scores` goes on: what was read of it is still there. -/
structure Reading (h : Handler Value) (id : AnalysisId) (base : Row Value)
    (baseTable : Snapshots Value) (record r : Row Value) (t : Snapshots Value) : Prop where
  between : Between h id base baseTable r t
  stages : r.stages = record.stages
  userId : r.userId = record.userId
  mode : r.mode = record.mode

variable (hstages : record.stages = base.stages ∨ record.stages = prune base.stages)
variable (hR : ∀ r t, R r t → Between h id base baseTable r t)

include hstages in
theorem convertible_record (hc : Convertible h base.stages) : Convertible h record.stages := by
  rcases hstages with hsame | hpruned
  · rwa [hsame]
  · rw [hpruned]
    exact hc.pruned

include hstages hR in
/-- A field is saved, or it is not there. -/
theorem triple_saveField {value : Option Value} {convert : Value → Option Value}
    {save : Value → Row Value → Row Value}
    (hraises : Convertible h record.stages → ∀ v, value = some v → convert v ≠ none)
    (hnone : value = none → ∀ r t, R r t → R' r t)
    (hsome : ∀ converted, value.bind convert = some converted → ∀ r t, R r t →
      R' (save converted r) t) :
    Triple (Holds db id R) (saveField d id value convert save) (fun _ => Holds db id R')
      (Cut h d id db base baseTable) := by
  cases value with
  | none => exact triple_pure fun w hw => hw.mono (hnone rfl)
  | some v =>
    refine Triple.bind (Q := fun converted w => convert v = some converted ∧ Holds db id R w) ?_
      fun converted => ?_
    · refine triple_require (fun converted hconverted w hw => ⟨hconverted, hw⟩) ?_
      intro hraised w hw
      exact ⟨hw.mono hR, fun _ hc => hraises (convertible_record hstages hc) v rfl hraised⟩
    · refine triple_of_imp fun hconverted => ?_
      exact triple_updateAnalysis (fun _ => hsome converted hconverted) (cut_of_dies hR)

include hstages in
theorem triple_saveAspects {done rest : List String} (hrest : ∀ aspect ∈ rest, aspect ∈ aspects) :
    Triple
      (Holds db id fun r t => Reading h id base baseTable record r t ∧ ∀ aspect ∈ done,
        Stored (field record.stages aspect "score") h.conversions.float (r.scores aspect))
      (saveAspects h d id record.stages rest)
      (fun _ => Holds db id fun r t => Reading h id base baseTable record r t ∧
        ∀ aspect ∈ done ++ rest,
          Stored (field record.stages aspect "score") h.conversions.float (r.scores aspect))
      (Cut h d id db base baseTable) := by
  induction rest generalizing done with
  | nil =>
    rw [List.append_nil]
    exact triple_pure fun w hw => hw
  | cons aspect rest ih =>
    have haspect := hrest aspect List.mem_cons_self
    have hsplit : done ++ aspect :: rest = (done ++ [aspect]) ++ rest := by simp
    rw [hsplit]
    refine Triple.bind (Q := fun _ => Holds db id fun r t => Reading h id base baseTable record r t ∧
      ∀ other ∈ done ++ [aspect],
        Stored (field record.stages other "score") h.conversions.float (r.scores other)) ?_
      fun _ => ih fun other hother => hrest other (List.mem_cons_of_mem _ hother)
    refine triple_saveField hstages (fun r t hr => hr.1.between) (fun hc => hc.scores aspect haspect) ?_ ?_
    · rintro hnone r t ⟨hreading, hstored⟩
      refine ⟨hreading, fun other hother => ?_⟩
      rcases List.mem_append.mp hother with hdone | hlast
      · exact hstored other hdone
      · rw [List.mem_singleton.mp hlast]
        exact stored_none hnone
    · rintro converted hconverted r t ⟨hreading, hstored⟩
      refine ⟨⟨?_, hreading.stages, hreading.userId, hreading.mode⟩, fun other hother => ?_⟩
      · exact hreading.between.saveAspectScore haspect (by rw [hreading.stages, hconverted])
      · by_cases hsame : other = aspect
        · subst hsame
          exact stored_some hconverted (Function.update_self _ _ _)
        · have hkept : (r.saveAspectScore aspect converted).scores other = r.scores other :=
            Function.update_of_ne hsame _ _
          rw [hkept]
          rcases List.mem_append.mp hother with hdone | hlast
          · exact hstored other hdone
          · exact absurd (List.mem_singleton.mp hlast) hsame

/-- The columns before the result of `aggregate` is saved. -/
structure FieldsStored (h : Handler Value) (record r : Row Value) : Prop where
  scores : ∀ aspect ∈ aspects,
    Stored (field record.stages aspect "score") h.conversions.float (r.scores aspect)
  pianoRoll : Stored (field record.stages "pitch" "piano_roll") h.conversions.pianoRoll r.pitchCurveJson
  userPitch : Stored (field record.stages "pitch" "user_pitch_curve") h.conversions.pitchCurve
    r.userPitch

theorem snapshot_of_reading (hreading : Reading h id base baseTable record r t) (now : Time)
    {scoring : Scoring Value}
    (hscoring : (aggregateData record.stages).bind h.conversions.scoring = some scoring) :
    r.snapshot h id now = some
      { userId := record.userId
        analysisId := id
        overallScore := scoring.overallScore
        mode := record.mode
        confidence := scoring.confidence
        createdAt := now } := by
  rw [Row.snapshot, hreading.stages, hscoring, hreading.userId, hreading.mode]
  rfl

/-- What is left to persist once the columns are there: the result of `aggregate`. -/
theorem FieldsStored.persisted (hfields : FieldsStored h record r)
    (hstages : r.stages = record.stages)
    (hscoring : Stored (aggregateData r.stages) h.conversions.scoring r.scoring)
    (hsnapshots : r.targetSnapshots h id t = Snapshots.untime id t) : Persisted h id r t where
  scores := by
    rw [hstages]
    exact hfields.scores
  pianoRoll := by
    rw [hstages]
    exact hfields.pianoRoll
  userPitch := by
    rw [hstages]
    exact hfields.userPitch
  scoring := hscoring
  snapshots := hsnapshots

/-- Recording a snapshot again changes its time only. -/
theorem targetSnapshots_upsert (s : Snapshot Value) (now : Time)
    (hs : ∀ now, r.snapshot h id now = some { s with createdAt := now }) (hid : s.analysisId = id) :
    r.targetSnapshots h id (t.upsert { s with createdAt := now }) =
      Snapshots.untime id (t.upsert { s with createdAt := now }) := by
  rw [Row.targetSnapshots, hs 0]
  have hagain := Snapshots.upsert_upsert t { s with createdAt := 0 } now
  have htime := Snapshots.untime_upsert t { s with createdAt := 0 } now
  subst hid
  exact (congrArg (Snapshots.untime s.analysisId) hagain).trans htime.symm

include hstages in
theorem triple_saveScoring :
    Triple (Holds db id fun r t => Reading h id base baseTable record r t ∧ FieldsStored h record r)
      (saveScoring h d id record)
      (fun _ => Holds db id fun r t => Reading h id base baseTable record r t ∧ Persisted h id r t)
      (Cut h d id db base baseTable) := by
  unfold saveScoring
  cases hdata : aggregateData record.stages with
  | none =>
    -- without the result there is nothing to save, and no snapshot to record
    refine triple_pure fun w hw => hw.mono ?_
    rintro r t ⟨hreading, hfields⟩
    have hgone : aggregateData r.stages = none := by rw [hreading.stages, hdata]
    refine ⟨hreading, hfields.persisted hreading.stages (stored_none hgone) ?_⟩
    rw [Row.targetSnapshots, Row.snapshot, hgone]
    rfl
  | some data =>
    refine Triple.bind (Q := fun scoring w => h.conversions.scoring data = some scoring ∧
      Holds db id (fun r t => Reading h id base baseTable record r t ∧ FieldsStored h record r) w) ?_
      fun scoring => ?_
    · refine triple_require (fun scoring hscoring w hw => ⟨hscoring, hw⟩) ?_
      intro hraised w hw
      refine ⟨hw.mono fun r t hr => hr.1.between, fun _ hc => ?_⟩
      exact (convertible_record hstages hc).scoring data hdata hraised
    · refine triple_of_imp fun hscoring => ?_
      have hbind : (aggregateData record.stages).bind h.conversions.scoring = some scoring := by
        rw [hdata, Option.bind_some, hscoring]
      -- first the column, then the snapshot
      refine Triple.bind (Q := fun _ => Holds db id fun r t =>
        Reading h id base baseTable record r t ∧ FieldsStored h record r ∧ r.scoring = some scoring)
        ?_ fun _ => ?_
      · refine triple_updateAnalysis ?_ (cut_of_dies fun r t hr => hr.1.between)
        rintro _ r t ⟨hreading, hfields⟩
        refine ⟨⟨?_, hreading.stages, hreading.userId, hreading.mode⟩, ?_, rfl⟩
        · exact hreading.between.saveScoringResult (by rw [hreading.stages, hbind])
        · exact ⟨hfields.scores, hfields.pianoRoll, hfields.userPitch⟩
      · refine triple_recordProgressSnapshot ?_ (cut_of_dies fun r t hr => hr.1.between)
        rintro now r t ⟨hreading, hfields, hcolumn⟩
        have hsnapshot := fun now => snapshot_of_reading hreading now hbind
        refine ⟨⟨hreading.between.record (hsnapshot now), hreading.stages, hreading.userId,
          hreading.mode⟩, hfields.persisted hreading.stages ?_ ?_⟩
        · rw [hcolumn]
          exact stored_some (by rw [hreading.stages, hbind]) rfl
        · exact targetSnapshots_upsert
            { userId := record.userId, analysisId := id, overallScore := scoring.overallScore
              mode := record.mode, confidence := scoring.confidence, createdAt := now }
            now hsnapshot rfl

end Persisting

/-- **`_persist_scores`.** -/
theorem triple_persistScores
    (hstages : stages = base.stages ∨ stages = prune base.stages) :
    Triple (Holds db id fun r t => Between h id base baseTable r t ∧ r.stages = stages)
      (persistScores h d id)
      (fun _ => Holds db id fun r t => Between h id base baseTable r t ∧ r.stages = stages ∧
        Persisted h id r t)
      (Cut h d id db base baseTable) := by
  refine Triple.bind (triple_getById (cut_of_dies fun r t hr => hr.1)) fun record => ?_
  have hpre : ∀ w, Holds db id (fun r t => (Between h id base baseTable r t ∧ r.stages = stages) ∧
      r = record) w → record.stages = stages ∧
        Holds db id (fun r t => Reading h id base baseTable record r t) w := by
    rintro w ⟨hpending, r, t, hdb, ⟨hbetween, hsame⟩, rfl⟩
    exact ⟨hsame, hpending, r, t, hdb, hbetween, rfl, rfl, rfl⟩
  refine Triple.weaken (triple_of_imp ?_) hpre (fun _ _ hw => hw) (fun _ hw => hw)
  rintro rfl
  refine Triple.bind (Q := fun _ => Holds db id fun r t => Reading h id base baseTable record r t ∧
    ∀ aspect ∈ aspects,
      Stored (field record.stages aspect "score") h.conversions.float (r.scores aspect)) ?_ fun _ => ?_
  · have hnone : ∀ w, Holds db id (fun r t => Reading h id base baseTable record r t) w →
        Holds db id (fun r t => Reading h id base baseTable record r t ∧ ∀ aspect ∈ [],
          Stored (field record.stages aspect "score") h.conversions.float (r.scores aspect)) w :=
      fun w hw => hw.mono fun r t hr => ⟨hr, fun aspect haspect => by cases haspect⟩
    exact Triple.weaken (triple_saveAspects hstages fun aspect haspect => haspect) hnone
      (fun _ _ hw => hw) (fun _ hw => hw)
  refine Triple.bind (Q := fun _ => Holds db id fun r t => Reading h id base baseTable record r t ∧
    (∀ aspect ∈ aspects,
      Stored (field record.stages aspect "score") h.conversions.float (r.scores aspect)) ∧
    Stored (field record.stages "pitch" "piano_roll") h.conversions.pianoRoll r.pitchCurveJson) ?_
    fun _ => ?_
  · refine triple_saveField hstages (fun r t hr => hr.1.between) (fun hc => hc.pianoRoll) ?_ ?_
    · rintro hnone r t ⟨hreading, hscores⟩
      exact ⟨hreading, hscores, stored_none hnone⟩
    · rintro converted hconverted r t ⟨hreading, hscores⟩
      refine ⟨⟨?_, hreading.stages, hreading.userId, hreading.mode⟩, hscores, stored_some hconverted rfl⟩
      exact hreading.between.savePianoRoll (by rw [hreading.stages, hconverted])
  refine Triple.bind (Q := fun _ => Holds db id fun r t => Reading h id base baseTable record r t ∧
    FieldsStored h record r) ?_ fun _ => ?_
  · refine triple_saveField hstages (fun r t hr => hr.1.between) (fun hc => hc.userPitch) ?_ ?_
    · rintro hnone r t ⟨hreading, hscores, hroll⟩
      exact ⟨hreading, hscores, hroll, stored_none hnone⟩
    · rintro converted hconverted r t ⟨hreading, hscores, hroll⟩
      refine ⟨⟨?_, hreading.stages, hreading.userId, hreading.mode⟩, hscores, hroll,
        stored_some hconverted rfl⟩
      exact hreading.between.saveUserPitchCurve (by rw [hreading.stages, hconverted])
  refine Triple.weaken (triple_saveScoring hstages) (fun _ hw => hw) ?_ (fun _ hw => hw)
  rintro _ w hw
  exact hw.mono fun r t hr => ⟨hr.1.between, hr.1.stages, hr.2⟩

/-- How the row is left, up to timestamps. -/
structure Settled (h : Handler Value) (id : AnalysisId) (base : Row Value)
    (baseTable : Snapshots Value) (r : Row Value) (t : Snapshots Value) : Prop where
  between : Between h id base baseTable r t
  row : r.untime = base.target h
  snapshots : Snapshots.untime id t = base.targetSnapshots h id baseTable

/-- An operation that leaves the database and the entry alone. -/
theorem triple_elsewhere {f : World Value → World Value}
    (hdb : ∀ w, (f w).db = w.db) (hpending : ∀ w, (f w).acknowledged = w.acknowledged)
    (hR : ∀ r t, R r t → Between h id base baseTable r t) :
    Triple (Holds db id R) (operate d fun _ w => ((), f w)) (fun _ => Holds db id R)
      (Cut h d id db base baseTable) := by
  refine triple_operate ?_ (cut_of_dies hR)
  rintro _ w ⟨hunacked, hrest⟩
  refine ⟨(hpending w).trans hunacked, ?_⟩
  dsimp only
  rw [hdb w]
  exact hrest

/-- **`handle` once the run has completed.** -/
theorem triple_finish (hstages : stages = base.stages ∨ stages = prune base.stages) :
    Triple (Holds db id fun r t => Between h id base baseTable r t ∧ r.stages = stages)
      (finish h d id)
      (fun _ w => Convertible h stages ∧ Holds db id (Settled h id base baseTable) w)
      (Cut h d id db base baseTable) := by
  refine Triple.bind (triple_persistScores hstages) fun _ => ?_
  have hconvertible : ∀ w, Holds db id (fun r t => Between h id base baseTable r t ∧
      r.stages = stages ∧ Persisted h id r t) w → Convertible h stages ∧
        Holds db id (fun r t => Between h id base baseTable r t ∧ Persisted h id r t) w := by
    rintro w ⟨hpending, r, t, hdb, hbetween, rfl, hpersisted⟩
    exact ⟨hpersisted.convertible, hpending, r, t, hdb, hbetween, hpersisted⟩
  refine Triple.weaken (triple_of_imp fun hc => ?_) hconvertible (fun _ _ hw => hw) (fun _ hw => hw)
  refine Triple.bind (Q := fun _ => Holds db id fun r t => Between h id base baseTable r t ∧
    Persisted h id r t ∧ prune r.stages = r.stages) ?_ fun _ => ?_
  · refine triple_updateAnalysis ?_ (cut_of_dies fun r t hr => hr.1)
    rintro _ r t ⟨hbetween, hpersisted⟩
    exact ⟨hbetween.pruned hpersisted, hpersisted.pruned, prune_prune _⟩
  refine Triple.bind (Q := fun _ => Holds db id (Settled h id base baseTable)) ?_ fun _ => ?_
  · refine triple_updateAnalysis ?_ (cut_of_dies fun r t hr => hr.1)
    rintro now r t ⟨hbetween, hpersisted, hpruned⟩
    refine ⟨hbetween.markDone now, ?_, ?_⟩
    · rw [hpersisted.untime_markDone hpruned, hbetween.row]
    · rw [← hpersisted.snapshots, hbetween.snapshots]
  refine Triple.bind (triple_elsewhere (fun _ => rfl) (fun _ => rfl) fun r t hr => hr.between) fun _ => ?_
  refine Triple.bind (triple_elsewhere (fun _ => rfl) (fun _ => rfl) fun r t hr => hr.between) fun _ => ?_
  refine Triple.weaken (triple_elsewhere (R := Settled h id base baseTable) (fun _ => rfl)
    (fun _ => rfl) fun r t hr => hr.between) (fun _ hw => hw) (fun _ w hw => ⟨hc, hw⟩) (fun _ hw => hw)

/-! ## Runs with nothing left -/

theorem remainingEntries_eq_nil {Job Data : Type} {entries : List (Entry Job Data)}
    {alreadyDone : Completed Data} (hall : ∀ s ∈ flatten entries, (alreadyDone s.name).isSome = true) :
    remainingEntries entries alreadyDone = [] := by
  rw [remainingEntries, List.filterMap_eq_nil_iff]
  intro entry hentry
  have hmembers : ∀ s ∈ entry.members, ¬(alreadyDone s.name).isNone = true := by
    intro s hs hnone
    have hsome := hall s (List.mem_flatMap.mpr ⟨entry, hentry, hs⟩)
    rw [Option.isNone_iff_eq_none.mp hnone] at hsome
    cases hsome
  cases entry with
  | stage s => exact if_neg (hmembers s List.mem_cons_self)
  | group members =>
    have hempty : members.filter (fun s => (alreadyDone s.name).isNone) = [] :=
      List.filter_eq_nil_iff.mpr hmembers
    rw [Entry.restrict, hempty]
    rfl

/-- The stages of the analysis are all saved. -/
def AllSaved (h : Handler Value) (r : Row Value) : Prop :=
  ∀ s ∈ flatten (stagesForMode h.stages (some r.mode)), (r.stages s.name).isSome = true

theorem run_of_allSaved (context : Context (Job Value) (Fields Value)) (fails : Failures)
    (stops : ℕ → Bool) (hall : AllSaved h r) :
    (run h.stages context r.stages fails stops (some r.mode)).outcome = .completed ∧
      (run h.stages context r.stages fails stops (some r.mode)).saved = [] ∧
      (run h.stages context r.stages fails stops (some r.mode)).marked = none := by
  have hnone := remainingEntries_eq_nil hall
  unfold run
  dsimp only
  rw [hnone]
  exact ⟨rfl, rfl, rfl⟩

/-- The reference of the song is cached. -/
def SongReady (db : Database Value) (song : SongId) : Prop :=
  ∃ found, db.songs song = some found ∧ found.vocalStemPath ≠ none ∧ found.referencePitch ≠ none

/-- What `_build_context` makes of the row and its song. -/
def contextOf (db : Database Value) (id : AnalysisId) (analysis : Row Value) :
    Option (Context (Job Value) (Fields Value)) := do
  let song ← db.songs analysis.songId
  let referenceVocalStemPath ← song.vocalStemPath
  let referencePitch ← song.referencePitch
  pure
    { job :=
        { analysisId := id
          userId := analysis.userId
          songId := analysis.songId
          referenceVocalStemPath
          referencePitch
          referenceLyrics := song.lyrics
          mode := analysis.mode
          allowTransposition := analysis.allowTransposition
          locale := analysis.locale }
      completed := fun _ => none }

theorem contextOf_eq {context : Context (Job Value) (Fields Value)}
    (hcontext : contextOf db id r = some context) :
    SongReady db r.songId ∧ context.job.mode = r.mode ∧ context.completed = fun _ => none := by
  obtain ⟨song, hsong, hrest⟩ := Option.bind_eq_some_iff.mp hcontext
  obtain ⟨path, hpath, hrest⟩ := Option.bind_eq_some_iff.mp hrest
  obtain ⟨pitch, hpitch, hpure⟩ := Option.bind_eq_some_iff.mp hrest
  cases hpure
  refine ⟨⟨song, hsong, ?_, ?_⟩, rfl, rfl⟩
  · rw [hpath]
    exact Option.some_ne_none _
  · rw [hpitch]
    exact Option.some_ne_none _

variable (id) in
theorem exists_contextOf (hsong : SongReady db r.songId) :
    ∃ context, contextOf db id r = some context := by
  obtain ⟨song, hsong, hpath, hpitch⟩ := hsong
  obtain ⟨path, hpath⟩ := Option.ne_none_iff_exists'.mp hpath
  obtain ⟨pitch, hpitch⟩ := Option.ne_none_iff_exists'.mp hpitch
  refine ⟨_, Option.bind_eq_some_iff.mpr ⟨song, hsong, Option.bind_eq_some_iff.mpr ⟨path, hpath,
    Option.bind_eq_some_iff.mpr ⟨pitch, hpitch, rfl⟩⟩⟩⟩

theorem triple_buildContext {record : Row Value} {E : World Value → Prop}
    (hE : (SongReady db record.songId → d.diesAt ≠ none) → ∀ w, Holds db id R w → E w) :
    Triple (Holds db id R) (buildContext d id record)
      (fun context w => contextOf db id record = some context ∧ Holds db id R w) E := by
  refine Triple.bind (Q := fun found w => db.songs record.songId = found ∧ Holds db id R w) ?_
    fun found => triple_of_imp fun hfound => ?_
  · refine triple_operate ?_ fun hdies => hE fun _ => hdies
    rintro _ w ⟨hpending, r, t, hdb, hr⟩
    refine ⟨?_, hpending, r, t, hdb, hr⟩
    dsimp only
    rw [hdb, put_songs]
  refine Triple.bind (Q := fun song w => found = some song ∧ Holds db id R w) ?_
    fun song => triple_of_imp fun hsong => ?_
  · refine triple_require (fun song hsong w hw => ⟨hsong, hw⟩) fun hnone w hw => hE ?_ w hw
    rintro ⟨song, hsong, -⟩
    rw [hfound, hnone] at hsong
    cases hsong
  refine Triple.bind (Q := fun path w => song.vocalStemPath = some path ∧ Holds db id R w) ?_
    fun path => triple_of_imp fun hpath => ?_
  · refine triple_require (fun path hpath w hw => ⟨hpath, hw⟩) fun hnone w hw => hE ?_ w hw
    rintro ⟨song', hsong', hpath', -⟩
    obtain rfl : song = song' := Option.some.inj (hsong.symm.trans (hfound.symm.trans hsong'))
    exact absurd hnone hpath'
  refine Triple.bind (Q := fun pitch w => song.referencePitch = some pitch ∧ Holds db id R w) ?_
    fun pitch => triple_of_imp fun hpitch => ?_
  · refine triple_require (fun pitch hpitch w hw => ⟨hpitch, hw⟩) fun hnone w hw => hE ?_ w hw
    rintro ⟨song', hsong', -, hpitch'⟩
    obtain rfl : song = song' := Option.some.inj (hsong.symm.trans (hfound.symm.trans hsong'))
    exact absurd hnone hpitch'
  refine triple_pure fun w hw => ⟨?_, hw⟩
  show (db.songs record.songId).bind _ = _
  rw [hfound, hsong, Option.bind_some, hpath, Option.bind_eq_bind, Option.bind_some, hpitch]
  rfl

/-- **A redelivery has nothing to run.** -/
theorem triple_attempt_again {E : World Value → Prop} (hall : AllSaved h base)
    (hsong : SongReady db base.songId) (hR : ∀ r t, R r t → Between h id base baseTable r t)
    (hE : d.diesAt ≠ none → ∀ w, Holds db id R w → E w) :
    Triple (Holds db id R) (attempt h d id)
      (fun outcome w => outcome = .completed ∧ Holds db id R w) E := by
  refine Triple.bind (triple_getById hE) fun record => ?_
  have hpre : ∀ w, Holds db id (fun r t => R r t ∧ r = record) w →
      (record.songId = base.songId ∧ AllSaved h record) ∧ Holds db id R w := by
    rintro w ⟨hpending, r, t, hdb, hr, rfl⟩
    have hbetween := hR r t hr
    refine ⟨⟨hbetween.songId, ?_⟩, hpending, r, t, hdb, hr⟩
    intro s hs
    rw [hbetween.mode] at hs
    rw [hbetween.isSome_stages]
    exact hall s hs
  refine Triple.weaken (triple_of_imp ?_) hpre (fun _ _ hw => hw) (fun _ hw => hw)
  rintro ⟨hsame, hrecord⟩
  refine Triple.bind (triple_buildContext ?_) fun context => ?_
  · intro hready w hw
    exact hE (hready (hsame ▸ hsong)) w hw
  refine Triple.weaken (triple_of_imp fun _ => ?_) (fun _ hw => hw) (fun _ _ hw => hw) (fun _ hw => hw)
  obtain ⟨houtcome, hsaved, hmarked⟩ := run_of_allSaved context d.fails d.stops hrecord
  dsimp only
  rw [hmarked, hsaved, houtcome]
  refine Triple.bind (Q := fun _ => Holds db id R) (triple_pure fun _ hw => hw) fun _ => ?_
  refine Triple.bind (Q := fun _ => Holds db id R) (triple_pure fun _ hw => hw) fun _ => ?_
  exact triple_pure fun _ hw => ⟨rfl, hw⟩

/-! ## The first run -/

theorem triple_saveEach {saved : List (Progress (Fields Value))} {mode : Mode} {song : SongId} :
    Triple (Holds db id fun r _ => r.stages = stages ∧ r.mode = mode ∧ r.songId = song)
      (saveEach d id saved)
      (fun _ => Holds db id fun r _ =>
        r.stages = record stages (saved.map Progress.result) ∧ r.mode = mode ∧ r.songId = song)
      (fun _ => True) := by
  induction saved generalizing stages with
  | nil => exact triple_pure fun w hw => hw
  | cons p saved ih =>
    refine Triple.bind (Q := fun _ => Holds db id fun r _ =>
      r.stages = Function.update stages p.result.stage (some p.result) ∧ r.mode = mode ∧
        r.songId = song) ?_ fun _ => ih
    refine triple_updateAnalysis ?_ fun _ _ _ => trivial
    rintro now r t ⟨rfl, hmode, hsong⟩
    exact ⟨rfl, hmode, hsong⟩

/-- Where the runner completes, every stage is saved. -/
theorem allSaved_of_completed {context : Context (Job Value) (Fields Value)} {fails : Failures}
    {stops : ℕ → Bool} {row : Row Value}
    (hdone : (run h.stages context r.stages fails stops (some r.mode)).outcome = .completed)
    (hstages : row.stages = record r.stages
      ((run h.stages context r.stages fails stops (some r.mode)).saved.map Progress.result))
    (hmode : row.mode = r.mode) : AllSaved h row := by
  have hnames := stages_of_completed hdone
  intro s hs
  rw [hmode] at hs
  rw [hstages, Option.isSome_iff_ne_none, ne_eq, record_eq_none, List.map_map]
  rintro ⟨hbefore, hunsaved⟩
  -- a stage that was not saved before was left to run
  refine hunsaved ?_
  have hleft : s.name ∈ (flatten (remainingEntries (stagesForMode h.stages (some r.mode)) r.stages)).map
      PipelineStage.name := by
    rw [remainingEntries, flatten_restrict]
    refine List.mem_map_of_mem (List.mem_filter.mpr ⟨hs, ?_⟩)
    rw [hbefore]
    rfl
  rw [← hnames] at hleft
  exact hleft

theorem triple_attempt {w : World Value} {found : Row Value} :
    Triple (Holds w.db id fun r _ => r = found) (attempt h d id)
      (fun outcome => Holds w.db id fun r _ => outcome = .completed →
        AllSaved h r ∧ SongReady w.db r.songId)
      (fun _ => True) := by
  refine Triple.bind (triple_getById fun _ _ _ => trivial) fun analysis => ?_
  refine Triple.bind (triple_buildContext fun _ _ _ => trivial) fun context => ?_
  refine triple_of_imp fun hcontext => ?_
  have hsong := (contextOf_eq hcontext).1
  dsimp only
  have hstart : ∀ v, Holds w.db id (fun r t => r = found ∧ r = analysis) v →
      Holds w.db id (fun r _ => r.stages = analysis.stages ∧ r.mode = analysis.mode ∧
        r.songId = analysis.songId) v := by
    intro v hv
    refine hv.mono ?_
    rintro r t ⟨-, rfl⟩
    exact ⟨rfl, rfl, rfl⟩
  refine Triple.weaken ?_ hstart (fun _ _ hw => hw) (fun _ hw => hw)
  refine Triple.bind (Q := fun _ => Holds w.db id fun r _ => r.stages = analysis.stages ∧
    r.mode = analysis.mode ∧ r.songId = analysis.songId) ?_ fun _ => ?_
  · cases (run h.stages context analysis.stages d.fails d.stops (some analysis.mode)).marked with
    | none => exact triple_pure fun v hv => hv
    | some first => exact triple_updateAnalysis (fun _ _ _ hr => hr) fun _ _ _ => trivial
  refine Triple.bind triple_saveEach fun _ => ?_
  refine triple_pure fun v hv => hv.mono ?_
  rintro r t ⟨hstages, hmode, hsame⟩ hdone
  exact ⟨allSaved_of_completed hdone hstages hmode, hsame ▸ hsong⟩

/-- **Where the run completes, the row has every stage, and so does a redelivery find it.** -/
theorem attempt_completed {w v : World Value} (hpending : w.acknowledged = false)
    (hrun : attempt h d id w = (some .completed, v)) :
    v.acknowledged = false ∧ ∃ base, v.db.analyses id = some base ∧ AllSaved h base ∧
      SongReady v.db base.songId := by
  cases hfound : w.db.analyses id with
  | none =>
    have hmissing : Triple (fun u : World Value => u.db.analyses id = none) (attempt h d id)
        (fun _ _ => False) (fun _ => True) := by
      refine Triple.bind (Q := fun _ _ => False) ?_ fun _ _ hfalse => hfalse.elim
      refine Triple.bind (Q := fun found _ => found = none) ?_ fun found => ?_
      · exact triple_operate (fun _ u hu => hu) fun _ _ _ => trivial
      · refine triple_require ?_ fun _ _ _ => trivial
        rintro row rfl u hu
        cases hu
    exact (hmissing.of_returns hfound hrun).elim
  | some found =>
    have hw : Holds w.db id (fun r _ => r = found) w :=
      ⟨hpending, found, w.db.snapshots, (put_self _ _ _ hfound).symm, rfl⟩
    obtain ⟨hunacked, r, t, hdb, hr⟩ := (triple_attempt (w := w)).of_returns hw hrun
    obtain ⟨hall, hsong⟩ := hr rfl
    refine ⟨hunacked, r, ?_, hall, ?_⟩
    · rw [hdb, put_analyses]
    · rw [hdb]
      exact hsong

/-! ## A delivery that does not die -/

/-- The same delivery by a process that lives. -/
def Delivery.unharmed (d : Delivery) : Delivery := { d with diesAt := none }

theorem extends_operate {α : Type} (f : Time → World Value → α × World Value) :
    Extends (operate d f) (operate d.unharmed f) := by
  intro w a v hrun
  unfold operate at hrun ⊢
  split at hrun
  · cases hrun
  · rw [if_neg (by simp [Delivery.unharmed])]
    exact hrun

theorem extends_updateAnalysis (f : Time → Row Value → Row Value) :
    Extends (updateAnalysis d id f) (updateAnalysis d.unharmed id f) := by
  unfold updateAnalysis execute
  exact extends_operate _

theorem extends_saveEach (saved : List (Progress (Fields Value))) :
    Extends (saveEach d id saved) (saveEach d.unharmed id saved) := by
  induction saved with
  | nil => exact Extends.refl _
  | cons p saved ih => exact Extends.bind (extends_updateAnalysis _) fun _ => ih

theorem extends_attempt : Extends (attempt h d id) (attempt h d.unharmed id) := by
  refine Extends.bind (Extends.bind (extends_operate _) fun _ => Extends.refl _) fun analysis => ?_
  refine Extends.bind (Extends.bind (extends_operate _) fun _ => Extends.refl _) fun context => ?_
  refine Extends.bind ?_ fun _ => ?_
  · have hfails : d.unharmed.fails = d.fails := rfl
    have hstops : d.unharmed.stops = d.stops := rfl
    rw [hfails, hstops]
    cases (run h.stages context analysis.stages d.fails d.stops (some analysis.mode)).marked with
    | none => exact Extends.refl _
    | some first => exact extends_updateAnalysis _
  · exact Extends.bind (extends_saveEach _) fun _ => Extends.refl _

/-! ## Deliveries -/

/-- The entry is over, and the analysis is completed. -/
def Final (h : Handler Value) (id : AnalysisId) (db : Database Value) (base : Row Value)
    (baseTable : Snapshots Value) (w : World Value) : Prop :=
  w.acknowledged = true ∧
    w.db.untime id = db.put id (base.target h) (base.targetSnapshots h id baseTable)

/-- How a delivery that was cut short leaves the entry. -/
def Left (h : Handler Value) (d : Delivery) (id : AnalysisId) (db : Database Value)
    (base : Row Value) (baseTable : Snapshots Value) (w : World Value) : Prop :=
  Cut h d id db base baseTable w ∨ Final h id db base baseTable w ∧ d.diesAt ≠ none

theorem triple_ending (hstages : stages = base.stages ∨ stages = prune base.stages) :
    Triple (Holds db id fun r t => Between h id base baseTable r t ∧ r.stages = stages)
      (conclude h d id .completed >>= ackAndRemove d)
      (fun _ w => Convertible h stages ∧ Final h id db base baseTable w)
      (Left h d id db base baseTable) := by
  refine Triple.bind (Q := fun terminal w => terminal = true ∧ Convertible h stages ∧
    Holds db id (Settled h id base baseTable) w) ?_ fun terminal => triple_of_imp fun hterminal => ?_
  · refine Triple.bind (Triple.weaken (triple_finish hstages) (fun _ hw => hw) (fun _ _ hw => hw)
      fun _ hw => Or.inl hw) fun _ => ?_
    exact triple_pure fun w hw => ⟨rfl, hw⟩
  refine triple_of_imp fun hc => ?_
  subst hterminal
  refine Triple.bind (Q := fun _ => Final h id db base baseTable) ?_ fun _ => ?_
  · refine triple_operate ?_ fun hdies w hw => ?_
    · rintro _ w ⟨-, r, t, hdb, hsettled⟩
      refine ⟨rfl, ?_⟩
      dsimp only
      rw [hdb, put_untime, hsettled.row, hsettled.snapshots]
    · exact Or.inl (cut_of_dies (fun r t hr => hr.between) hdies w hw)
  · exact triple_operate (fun _ w hw => ⟨hc, hw⟩) fun hdies w hw => Or.inr ⟨hw, hdies⟩

/-- **A redelivery.** -/
theorem triple_processEntry (hall : AllSaved h base) (hsong : SongReady db base.songId) :
    Triple (Holds db id (Between h id base baseTable)) (processEntry h d id)
      (fun _ w => Final h id db base baseTable w) (Left h d id db base baseTable) := by
  have hsplit : ∀ w, Holds db id (Between h id base baseTable) w →
      ∃ found : { stages // stages = base.stages ∨ stages = prune base.stages },
        Holds db id (fun r t => Between h id base baseTable r t ∧ r.stages = found.val) w := by
    rintro w ⟨hpending, r, t, hdb, hbetween⟩
    exact ⟨⟨r.stages, hbetween.stages⟩, hpending, r, t, hdb, hbetween, rfl⟩
  have hrest : Triple (Holds db id (Between h id base baseTable))
      (conclude h d id .completed >>= ackAndRemove d)
      (fun _ w => Final h id db base baseTable w) (Left h d id db base baseTable) := by
    refine Triple.weaken (Triple.exists (P := fun found : { stages //
      stages = base.stages ∨ stages = prune base.stages } => Holds db id fun r t =>
        Between h id base baseTable r t ∧ r.stages = found.val) fun found => ?_) hsplit
      (fun _ _ hw => hw) (fun _ hw => hw)
    exact (triple_ending found.property).weaken (fun _ hw => hw) (fun _ _ hw => hw.2) fun _ hw => hw
  have hassoc : processEntry h d id =
      attempt h d id >>= fun outcome => conclude h d id outcome >>= ackAndRemove d := bind_assoc _ _ _
  rw [hassoc]
  refine Triple.bind (triple_attempt_again hall hsong (fun _ _ hr => hr) fun hdies w hw =>
    Or.inl (cut_of_dies (fun _ _ hr => hr) hdies w hw)) fun outcome =>
      triple_of_imp fun houtcome => ?_
  rw [houtcome]
  exact hrest

/-- How the entry is left by any number of deliveries. -/
def Sound (h : Handler Value) (id : AnalysisId) (db : Database Value) (base : Row Value)
    (baseTable : Snapshots Value) (w : World Value) : Prop :=
  Holds db id (Between h id base baseTable) w ∨ Final h id db base baseTable w

section Deliveries

variable {w : World Value} (hall : AllSaved h base) (hsong : SongReady db base.songId)

include hall hsong

theorem Sound.deliver (hw : Sound h id db base baseTable w) :
    Sound h id db base baseTable (deliver h d id w) ∧
      (d.diesAt = none → Convertible h base.stages → (deliver h d id w).acknowledged = true) := by
  rcases hw with hpending | hfinal
  · have hclock : Holds db id (Between h id base baseTable) { w with clock := 0 } := hpending
    have hpost := triple_processEntry (d := d) hall hsong _ hclock
    unfold Completion.deliver
    rw [if_neg (by rw [hpending.1]; exact Bool.false_ne_true)]
    cases hrun : processEntry h d id { w with clock := 0 } with
    | mk result v =>
      rw [hrun] at hpost
      cases result with
      | some _ => exact ⟨Or.inr hpost, fun _ _ => hpost.1⟩
      | none =>
        rcases hpost with hcut | ⟨hfinal, hdies⟩
        · exact ⟨Or.inl hcut.1, fun hlives hc => absurd hc (hcut.2 hlives)⟩
        · exact ⟨Or.inr hfinal, fun hlives => absurd hlives hdies⟩
  · unfold Completion.deliver
    rw [if_pos hfinal.1]
    exact ⟨Or.inr hfinal, fun _ _ => hfinal.1⟩

theorem Sound.deliverAll (hw : Sound h id db base baseTable w) (deliveries : List Delivery) :
    Sound h id db base baseTable (deliverAll h id deliveries w) := by
  induction deliveries generalizing w with
  | nil => exact hw
  | cons d deliveries ih => exact ih (Sound.deliver hall hsong hw).1

end Deliveries

/-- Where `handle` gets to when the runner has completed. -/
theorem deliver_of_attempt {w v : World Value} (hpending : w.acknowledged = false)
    (hrun : attempt h d id { w with clock := 0 } = (some .completed, v)) :
    deliver h d id w = ((conclude h d id .completed >>= ackAndRemove d) v).2 := by
  have hassoc : processEntry h d id =
      attempt h d id >>= fun outcome => conclude h d id outcome >>= ackAndRemove d := bind_assoc _ _ _
  rw [deliver, if_neg (by rw [hpending]; exact Bool.false_ne_true), hassoc, bind_of_returns hrun]

/-- **How a delivery ends whose run has completed**: the entry is over, or what is left is
still to be gone through. -/
theorem deliver_ending {w v : World Value} (hpending : w.acknowledged = false)
    (hrun : attempt h d id { w with clock := 0 } = (some .completed, v))
    (hunacked : v.acknowledged = false) (hbase : v.db.analyses id = some base) :
    (Convertible h base.stages ∧ Final h id v.db base v.db.snapshots (deliver h d id w)) ∨
      Left h d id v.db base v.db.snapshots (deliver h d id w) := by
  have hstart : Holds v.db id (fun r t => Between h id base v.db.snapshots r t ∧
      r.stages = base.stages) v :=
    ⟨hunacked, base, v.db.snapshots, (put_self _ _ _ hbase).symm, Between.refl _ _ _ _, rfl⟩
  have hpost := triple_ending (h := h) (d := d) (Or.inl rfl) v hstart
  rw [deliver_of_attempt hpending hrun]
  cases hend : (conclude h d id .completed >>= ackAndRemove d) v with
  | mk result u =>
    rw [hend] at hpost
    cases result with
    | some _ => exact Or.inl hpost
    | none => exact Or.inr hpost

/-- The row of an analysis whose entry is over. -/
theorem Final.row {w : World Value} (hw : Final h id db base baseTable w) :
    ∃ row, w.db.analyses id = some row ∧ row.untime = base.target h := by
  have hrow := congrArg (fun db => Database.analyses db id) hw.2
  have huntimed : (w.db.untime id).analyses id = (w.db.analyses id).map Row.untime :=
    Function.update_self _ _ _
  rw [put_analyses, huntimed] at hrow
  exact Option.map_eq_some_iff.mp hrow

/-- **There is one snapshot.** -/
theorem Final.snapshot {w : World Value} (hw : Final h id db base baseTable w)
    (hc : Convertible h base.stages) (haggregate : (base.stages "aggregate").isSome = true) :
    ∃! s, s ∈ w.db.snapshots.val ∧ s.analysisId = id := by
  obtain ⟨data, hdata⟩ : ∃ data, aggregateData base.stages = some data := by
    rw [aggregateData]
    obtain ⟨result, hresult⟩ := Option.isSome_iff_exists.mp haggregate
    rw [hresult]
    exact ⟨_, rfl⟩
  obtain ⟨scoring, hscoring⟩ := Option.ne_none_iff_exists'.mp (hc.scoring data hdata)
  have hsnapshots : Snapshots.untime id w.db.snapshots = base.targetSnapshots h id baseTable :=
    congrArg Database.snapshots hw.2
  have hids : w.db.snapshots.val.map Snapshot.analysisId =
      (base.targetSnapshots h id baseTable).val.map Snapshot.analysisId := by
    rw [← hsnapshots]
    simp [Snapshots.untime, Function.comp_def]
  have hmem : id ∈ w.db.snapshots.val.map Snapshot.analysisId := by
    rw [hids, Row.targetSnapshots, Row.snapshot, hdata, Option.bind_some, hscoring]
    simp only [Option.map_some, Snapshots.untime, List.map_map, Function.comp_def,
      Snapshot.untime_analysisId]
    exact Snapshots.mem_upsert _ _
  obtain ⟨s, hs, hid⟩ := List.mem_map.mp hmem
  refine ⟨s, ⟨hs, hid⟩, ?_⟩
  rintro s' ⟨hs', hid'⟩
  exact List.inj_on_of_nodup_map w.db.snapshots.property hs' hs (hid'.trans hid.symm)

/-- **Completing an analysis is idempotent.**  Whatever cuts a delivery short once its last stage
is saved, and however often the entry is delivered after that: when the entry is over, the
database is as if nothing had happened, up to the timestamps of the analysis.  The analysis
is done and has one snapshot, and a delivery that does not die does end it. -/
theorem deliver_idempotent {w : World Value} (hpending : w.acknowledged = false) (first : Delivery)
    (hthrough : ∃ v, attempt h first id { w with clock := 0 } = (some .completed, v))
    (hsuccess : (deliver h first.unharmed id w).acknowledged = true)
    (redeliveries : List Delivery) :
    let crashFree := deliver h first.unharmed id w
    let crashed := deliverAll h id redeliveries (deliver h first id w)
    (crashed.acknowledged = true →
      crashed.db.untime id = crashFree.db.untime id ∧
        ∃ row, crashed.db.analyses id = some row ∧ row.status = .done ∧
          ((row.stages "aggregate").isSome = true →
            ∃! s, s ∈ crashed.db.snapshots.val ∧ s.analysisId = id)) ∧
      ∀ last, last.diesAt = none → (deliver h last id crashed).acknowledged = true := by
  intro crashFree crashed
  obtain ⟨v, hrun⟩ := hthrough
  obtain ⟨hunacked, base, hbase, hall, hsong⟩ :=
    attempt_completed (w := { w with clock := 0 }) hpending hrun
  -- both deliveries go on from the row with every stage saved
  have hfreeRun : attempt h first.unharmed id { w with clock := 0 } = (some .completed, v) :=
    extends_attempt _ _ _ hrun
  have hfree : Convertible h base.stages ∧ Final h id v.db base v.db.snapshots crashFree := by
    rcases deliver_ending hpending hfreeRun hunacked hbase with hended | hcut | ⟨-, hdies⟩
    · exact hended
    · rw [hcut.1.1] at hsuccess
      cases hsuccess
    · exact absurd rfl hdies
  have hfirst : Sound h id v.db base v.db.snapshots (deliver h first id w) := by
    rcases deliver_ending hpending hrun hunacked hbase with ⟨-, hfinal⟩ | hcut | ⟨hfinal, -⟩
    · exact Or.inr hfinal
    · exact Or.inl hcut.1
    · exact Or.inr hfinal
  have hcrashed : Sound h id v.db base v.db.snapshots crashed :=
    Sound.deliverAll hall hsong hfirst redeliveries
  refine ⟨fun hacked => ?_, fun last hlast => (Sound.deliver hall hsong hcrashed).2 hlast hfree.1⟩
  have hfinal : Final h id v.db base v.db.snapshots crashed := by
    rcases hcrashed with hholds | hfinal
    · rw [hholds.1] at hacked
      cases hacked
    · exact hfinal
  refine ⟨hfinal.2.trans hfree.2.2.symm, ?_⟩
  obtain ⟨row, hrow, huntimed⟩ := hfinal.row
  refine ⟨row, hrow, congrArg Row.status huntimed, fun haggregate => hfinal.snapshot hfree.1 ?_⟩
  have hstages : row.stages = prune base.stages := congrArg Row.stages huntimed
  rw [hstages, isSome_prune] at haggregate
  exact haggregate

/-- A stage whose data are these fields. -/
def yields (name : String) (fields : List (String × ℕ)) : PipelineStage (Job ℕ) (Fields ℕ) :=
  { name, produce := fun _ => (1, some fun key => fields.lookup key) }

/-- A handler with the stages `pitch` and `aggregate`. -/
def smallHandler : Handler ℕ where
  stages :=
    [.stage (yields "pitch" [("score", 80), ("piano_roll", 1), ("user_pitch_curve", 2)]),
      .stage (yields "aggregate"
        [("overall_score", 75), ("confidence", 0), ("key_shift_semitones", 0), ("feedback_text", 0),
          ("scoring_version", 0), ("weights_profile", 0), ("effective_mode", 0),
          ("aspect_confidence", 0), ("warnings", 0), ("unavailable_aspects", 0),
          ("accompaniment_level", 0), ("voiced_ratio", 0), ("alignment_cost", 0)])]
  conversions :=
    { float := some
      optionalFloat := some
      str := some
      dict := some
      list := some
      pianoRoll := some
      pitchCurve := some }
  modelVersions := [("crepe", "1")]

/-- Analysis 1 of user 0 is queued. -/
def queuedWorld : World ℕ where
  db :=
    { analyses := fun id =>
        if id = 1 then
          some
            { userId := 0
              songId := 0
              status := .queued
              mode := .clean
              allowTransposition := false
              locale := "en"
              stages := fun _ => none }
        else none
      songs := fun _ => some { vocalStemPath := some "stem.wav", referencePitch := some 0, lyrics := none }
      snapshots := ⟨[], List.nodup_nil⟩ }

/-- The first process dies after it has pruned the stages, the second one right after its first
statement, the third one goes on. -/
theorem deliver_idempotent_afterPruning :
    ((deliverAll smallHandler 1 [{ diesAt := some 1 }, {}]
        (deliver smallHandler { diesAt := some 12 } 1 queuedWorld)).db.untime 1) =
      (deliver smallHandler {} 1 queuedWorld).db.untime 1 := by
  have hthrough : ∃ v, attempt smallHandler { diesAt := some 12 } 1 { queuedWorld with clock := 0 } =
      (some .completed, v) :=
    returns_of_fst (by decide +kernel)
  have hidempotent := @deliver_idempotent ℕ smallHandler 1 queuedWorld rfl
    { diesAt := some 12 } hthrough (by decide +kernel) [{ diesAt := some 1 }, {}]
  exact (hidempotent.1 (by decide +kernel)).1

end VocalCoach.Pipeline.Completion
