/-
# Resumable jobs

A job runs a list of entries, each a group of stages, and saves every stage it has run; a
job that is taken up again runs what is not saved yet.  The outcome of a job is a column
of its row, written without a look at what it overwrites.

The question is whether a finished row can be unfinished by a second run of its job.
`View` is what the one worker is about to do, `Turns` how a step changes that and
`Changes` how it changes a row.  `Kept` is the invariant that answers it: a finished row
has every stage saved, so its job has nothing to run and ends where it is.
-/
import Mathlib.Data.Nat.Notation
import Mathlib.Data.List.Basic

namespace Resumption

variable {Stage Row : Type*} [DecidableEq Stage]

/-! ## What resuming leaves to do -/

/-- `_remaining_entries`: the stages that are not done, without the entries left empty. -/
def remainingEntries (done : List Stage) (entries : List (List Stage)) : List (List Stage) :=
  (entries.map fun members => members.filter (· ∉ done)).filter (· ≠ [])

theorem mem_flatten_remainingEntries {done : List Stage} {entries : List (List Stage)}
    {stage : Stage} :
    stage ∈ (remainingEntries done entries).flatten ↔ stage ∈ entries.flatten ∧ stage ∉ done := by
  simp only [remainingEntries, List.mem_flatten, List.mem_filter, List.mem_map]
  constructor
  · rintro ⟨_, ⟨⟨members, hmembers, rfl⟩, -⟩, hstage⟩
    obtain ⟨hin, hnot⟩ := List.mem_filter.mp hstage
    exact ⟨⟨members, hmembers, hin⟩, by simpa using hnot⟩
  · rintro ⟨⟨members, hmembers, hin⟩, hnot⟩
    have hstage : stage ∈ members.filter (· ∉ done) :=
      List.mem_filter.mpr ⟨hin, by simpa using hnot⟩
    exact ⟨_, ⟨⟨members, hmembers, rfl⟩, by simpa using List.ne_nil_of_mem hstage⟩, hstage⟩

/-- Nothing is left once every stage is saved. -/
theorem remainingEntries_eq_nil {done : List Stage} {entries : List (List Stage)}
    (h : ∀ stage ∈ entries.flatten, stage ∈ done) : remainingEntries done entries = [] := by
  simp only [remainingEntries, List.filter_eq_nil_iff, List.mem_map]
  rintro _ ⟨members, hmembers, rfl⟩
  simp only [decide_not, Bool.not_eq_true', decide_eq_false_iff_not, not_not,
    List.filter_eq_nil_iff]
  intro stage hstage
  simpa using h stage (List.mem_flatten.mpr ⟨members, hmembers, hstage⟩)

/-! ## Rows and the worker -/

/-- How the rows of a table are read as jobs. -/
structure Jobs (Row Stage : Type*) where
  id : Row → ℕ
  entries : Row → List (List Stage)
  saved : Row → List Stage
  finished : Row → Prop
  /-- The rows the worker is not to be handed. -/
  failed : Row → Prop

/-- What the worker is about to do with a job: read its row, run and save the entries left
before it finishes it, or fail it. -/
inductive View (Stage : Type*)
  | none
  | read (id : ℕ)
  | todo (id : ℕ) (entries : List (List Stage))
  | failing (id : ℕ)

variable (J : Jobs Row Stage)

/-- Every stage of the row is saved or still to run. -/
def Jobs.Covered (r : Row) (entries : List (List Stage)) : Prop :=
  ∀ stage ∈ (J.entries r).flatten, stage ∈ J.saved r ∨ stage ∈ entries.flatten

/-- What holds of the job in the worker's hands; the ids below `next` are taken. -/
def Jobs.ViewOk (rows : List Row) (next : ℕ) : View Stage → Prop
  | .none => True
  | .read id => ∀ r ∈ rows, J.id r = id → ¬ J.failed r
  | .todo id entries => id < next ∧ ∀ r ∈ rows, J.id r = id →
      ¬ J.failed r ∧ (J.finished r → entries = []) ∧ J.Covered r entries
  | .failing id => ∀ r ∈ rows, J.id r = id → ¬ J.finished r

/-- The invariant of resumable jobs. -/
structure Jobs.Kept (rows : List Row) (next : ℕ) (view : View Stage) : Prop where
  finished : ∀ r ∈ rows, J.finished r → J.Covered r []
  view : J.ViewOk rows next view

/-! ## One step -/

/-- How the status of a row `b` may change, to that of `r`. -/
inductive Jobs.Lands (view : View Stage) (retried : Option ℕ) (b r : Row) : Prop
  | same (hfinished : J.finished r ↔ J.finished b) (hfailed : J.failed r ↔ J.failed b)
  /-- The row is moved on while it awaits its job, or retried after it failed. -/
  | awaiting (hb : ¬ J.finished b) (hb' : ¬ J.failed b ∨ retried = some (J.id r))
      (h : ¬ J.finished r) (h' : ¬ J.failed r)
  | started (entries) (hview : view = .todo (J.id r) entries) (hne : entries ≠ [])
      (h : ¬ J.finished r) (h' : ¬ J.failed r)
  | finished (hview : view = .todo (J.id r) []) (h : J.finished r) (h' : ¬ J.failed r)
  | failed (hview : view = .failing (J.id r) ∨ view = .none ∧ ¬ J.finished b)
      (h : ¬ J.finished r) (h' : J.failed b → J.failed r)

/-- How a step may change a row: what it asks for is fixed, what is saved only grows. -/
structure Jobs.Changes (view : View Stage) (retried : Option ℕ) (b r : Row) : Prop where
  id : J.id r = J.id b
  entries : J.entries r = J.entries b
  saved : J.saved b ⊆ J.saved r
  lands : J.Lands view retried b r

/-- The rows after a step: as they were, changed, or new. -/
def Jobs.Moved (rows rows' : List Row) (next : ℕ) (view : View Stage) (retried : Option ℕ) : Prop :=
  ∀ r ∈ rows', r ∈ rows ∨ (∃ b ∈ rows, J.Changes view retried b r) ∨
    (J.id r = next ∧ ¬ J.finished r ∧ ¬ J.failed r)

/-- How a step that hands over `handles` and gives up on `givesUp` changes what the worker
is about to do. -/
inductive Jobs.Turns (handles givesUp : Option ℕ) (rows rows' : List Row) :
    View Stage → View Stage → Prop
  | drop {v} : Jobs.Turns handles givesUp rows rows' v .none
  | stay {v} : Jobs.Turns handles givesUp rows rows' v v
  | handOver {v id} (hrows : rows' = rows) (h : handles = some id) :
      Jobs.Turns handles givesUp rows rows' v (.read id)
  | giveUp {v id} (hrows : rows' = rows) (h : givesUp = some id) :
      Jobs.Turns handles givesUp rows rows' v (.failing id)
  | plan {id r} (hrows : rows' = rows) (hr : r ∈ rows) (hid : J.id r = id) :
      Jobs.Turns handles givesUp rows rows' (.read id)
        (.todo id (remainingEntries (J.saved r) (J.entries r)))
  | fail {id members remaining} (hrows : rows' = rows) :
      Jobs.Turns handles givesUp rows rows' (.todo id (members :: remaining)) (.failing id)
  | advance {id members remaining entries}
      (h : ∀ stage ∈ (members :: remaining).flatten, stage ∈ entries.flatten ∨
        ∀ r ∈ rows', J.id r = id → stage ∈ J.saved r) :
      Jobs.Turns handles givesUp rows rows' (.todo id (members :: remaining)) (.todo id entries)

variable {J} {rows rows' : List Row} {next next' : ℕ} {view view' : View Stage}
variable {handles givesUp retried : Option ℕ}

omit [DecidableEq Stage] in
/-- A row that gains saved stages is covered all the more. -/
theorem Jobs.Changes.covered {b r : Row} {entries : List (List Stage)}
    (h : J.Changes view retried b r) (hcov : J.Covered b entries) : J.Covered r entries := by
  intro stage hstage
  rw [h.entries] at hstage
  rcases hcov stage hstage with hin | hin
  · exact Or.inl (h.saved hin)
  · exact Or.inr hin

omit [DecidableEq Stage] in
/-- What is saved of the finished rows stays, if what is finished now was covered. -/
theorem Jobs.Moved.covered (hmoved : J.Moved rows rows' next view retried)
    (hfinished : ∀ r ∈ rows, J.finished r → J.Covered r [])
    (hview : ∀ b ∈ rows, view = .todo (J.id b) [] → J.Covered b []) :
    ∀ r ∈ rows', J.finished r → J.Covered r [] := by
  intro r hr hdone
  rcases hmoved r hr with hr | ⟨b, hb, hchange⟩ | ⟨-, hne, -⟩
  · exact hfinished r hr hdone
  · cases hchange.lands with
    | same hsame => exact hchange.covered (hfinished b hb (hsame.mp hdone))
    | awaiting _ _ hne => exact absurd hdone hne
    | started _ _ _ hne => exact absurd hdone hne
    | finished hnow => exact hchange.covered (hview b hb (hchange.id ▸ hnow))
    | failed _ hne => exact absurd hdone hne
  · exact absurd hdone hne

/-- What is left is planned from what is saved, so the two make up all the stages. -/
theorem Jobs.covered_remaining (r : Row) :
    J.Covered r (remainingEntries (J.saved r) (J.entries r)) := by
  intro stage hstage
  by_cases hsaved : stage ∈ J.saved r
  · exact Or.inl hsaved
  · exact Or.inr (mem_flatten_remainingEntries.mpr ⟨hstage, hsaved⟩)

omit [DecidableEq Stage] in
/-- Stages that are left no more have been saved. -/
theorem Jobs.Covered.advance {r : Row} {entries entries' : List (List Stage)}
    (h : J.Covered r entries)
    (hstages : ∀ stage ∈ entries.flatten, stage ∈ entries'.flatten ∨ stage ∈ J.saved r) :
    J.Covered r entries' := by
  intro stage hstage
  rcases h stage hstage with hin | hin
  · exact Or.inl hin
  · exact (hstages stage hin).symm

omit [DecidableEq Stage] in
/-- What holds of the job in the worker's hands survives what a step does to the rows. -/
theorem Jobs.ViewOk.moved (h : J.ViewOk rows next view)
    (hmoved : J.Moved rows rows' next view retried) (hnext : next ≤ next') :
    J.ViewOk rows' next' view := by
  cases view with
  | none => trivial
  | read id =>
    intro r hr hid
    rcases hmoved r hr with hr | ⟨b, hb, hchange⟩ | ⟨-, -, hne⟩
    · exact h r hr hid
    · have hb' := h b hb (hchange.id ▸ hid)
      cases hchange.lands with
      | same _ hfailed => rwa [hfailed]
      | awaiting _ _ _ hne => exact hne
      | started _ hview => cases hview
      | finished hview => cases hview
      | failed hview => rcases hview with hview | ⟨hview, -⟩ <;> cases hview
    · exact hne
  | todo id entries =>
    refine ⟨Nat.lt_of_lt_of_le h.1 hnext, fun r hr hid => ?_⟩
    rcases hmoved r hr with hr | ⟨b, hb, hchange⟩ | ⟨hnew, -, -⟩
    · exact h.2 r hr hid
    · obtain ⟨hfailed, hfinished, hcov⟩ := h.2 b hb (hchange.id ▸ hid)
      cases hchange.lands with
      | same hsame hsame' =>
        exact ⟨by rwa [hsame'], fun hr' => hfinished (hsame.mp hr'), hchange.covered hcov⟩
      | awaiting _ _ hne hne' => exact ⟨hne', fun hr' => absurd hr' hne, hchange.covered hcov⟩
      | started _ _ _ hne hne' => exact ⟨hne', fun hr' => absurd hr' hne, hchange.covered hcov⟩
      | finished hview _ hne' =>
        cases hview
        exact ⟨hne', fun _ => rfl, hchange.covered hcov⟩
      | failed hview => rcases hview with hview | ⟨hview, -⟩ <;> cases hview
    · have htaken := h.1
      omega
  | failing id =>
    intro r hr hid
    rcases hmoved r hr with hr | ⟨b, hb, hchange⟩ | ⟨-, hne, -⟩
    · exact h r hr hid
    · have hb' := h b hb (hchange.id ▸ hid)
      cases hchange.lands with
      | same hfinished => rwa [hfinished]
      | awaiting _ _ hne => exact hne
      | started _ hview => cases hview
      | finished hview => cases hview
      | failed _ hne => exact hne
    · exact hne

/-- **A step keeps the invariant** if it hands over no failed job and gives up on no
finished one. -/
theorem Jobs.Kept.step (h : J.Kept rows next view)
    (hmoved : J.Moved rows rows' next view retried) (hnext : next ≤ next')
    (hfresh : ∀ r ∈ rows, J.id r < next)
    (hunique : ∀ r ∈ rows, ∀ s ∈ rows, J.id r = J.id s → r = s)
    (hturns : J.Turns handles givesUp rows rows' view view')
    (hhandles : ∀ id ∈ handles, ∀ r ∈ rows, J.id r = id → ¬ J.failed r)
    (hgivesUp : ∀ id ∈ givesUp, ∀ r ∈ rows, J.id r = id → ¬ J.finished r) :
    J.Kept rows' next' view' := by
  refine ⟨hmoved.covered h.finished fun b hb hview => ?_, ?_⟩
  · have hok := h.view
    rw [hview] at hok
    exact (hok.2 b hb rfl).2.2
  · have hok := h.view.moved hmoved hnext
    cases hturns with
    | drop => trivial
    | stay => exact hok
    | handOver hrows hid =>
      subst hrows
      exact hhandles _ hid
    | giveUp hrows hid =>
      subst hrows
      exact hgivesUp _ hid
    | @plan id r hrows hr hid =>
      subst hrows
      refine ⟨hid ▸ Nat.lt_of_lt_of_le (hfresh r hr) hnext, fun s hs hsid => ?_⟩
      obtain rfl : r = s := hunique r hr s hs (hid.trans hsid.symm)
      refine ⟨hok r hs hsid, fun hfinished => ?_, Jobs.covered_remaining r⟩
      refine remainingEntries_eq_nil fun stage hstage => ?_
      rcases h.finished r hs hfinished stage hstage with hin | hin
      · exact hin
      · cases hin
    | fail hrows =>
      -- a finished row has no stage left to fail in
      intro r hr hid hfinished
      exact absurd ((hok.2 r hr hid).2.1 hfinished) (List.cons_ne_nil _ _)
    | advance hstages =>
      refine ⟨hok.1, fun r hr hid => ?_⟩
      obtain ⟨hfailed, hfinished, hcov⟩ := hok.2 r hr hid
      refine ⟨hfailed, fun hr' => absurd (hfinished hr') (List.cons_ne_nil _ _), ?_⟩
      exact hcov.advance fun stage hin => (hstages stage hin).imp_right fun hsaved =>
        hsaved r hr hid

/-! ## What is saved of a finished row -/

/-- Every stage of a finished row is saved, and every stage of the job in the worker's hands
is saved or still to run.  Unlike `Kept` this asks nothing of who is handed over. -/
structure Jobs.Covering (J : Jobs Row Stage) (rows : List Row) (next : ℕ) (view : View Stage) :
    Prop where
  finished : ∀ r ∈ rows, J.finished r → J.Covered r []
  todo : ∀ id entries, view = .todo id entries →
    id < next ∧ ∀ r ∈ rows, J.id r = id → J.Covered r entries

omit [DecidableEq Stage] in
/-- The job in the worker's hands stays covered over what a step does to the rows. -/
theorem Jobs.Covering.moved (h : J.Covering rows next view)
    (hmoved : J.Moved rows rows' next view retried) {id : ℕ} {entries : List (List Stage)}
    (hview : view = .todo id entries) : ∀ r ∈ rows', J.id r = id → J.Covered r entries := by
  intro r hr hid
  obtain ⟨htaken, hcov⟩ := h.todo id entries hview
  rcases hmoved r hr with hr | ⟨b, hb, hchange⟩ | ⟨hnew, -, -⟩
  · exact hcov r hr hid
  · exact hchange.covered (hcov b hb (hchange.id ▸ hid))
  · omega

/-- **Every step keeps what is saved of the finished rows.** -/
theorem Jobs.Covering.step (h : J.Covering rows next view)
    (hmoved : J.Moved rows rows' next view retried) (hnext : next ≤ next')
    (hfresh : ∀ r ∈ rows, J.id r < next)
    (hunique : ∀ r ∈ rows, ∀ s ∈ rows, J.id r = J.id s → r = s)
    (hturns : J.Turns handles givesUp rows rows' view view') : J.Covering rows' next' view' := by
  refine ⟨hmoved.covered h.finished fun b hb hview => (h.todo _ _ hview).2 b hb rfl,
    fun id entries hview' => ?_⟩
  · cases hturns with
    | drop | handOver | giveUp | fail => cases hview'
    | stay =>
      exact ⟨Nat.lt_of_lt_of_le (h.todo id entries hview').1 hnext, h.moved hmoved hview'⟩
    | @plan _ r hrows hr hid =>
      cases hview'
      subst hrows
      refine ⟨hid ▸ Nat.lt_of_lt_of_le (hfresh r hr) hnext, fun s hs hsid => ?_⟩
      obtain rfl : r = s := hunique r hr s hs (hid.trans hsid.symm)
      exact Jobs.covered_remaining r
    | advance hstages =>
      cases hview'
      refine ⟨Nat.lt_of_lt_of_le (h.todo id _ rfl).1 hnext, fun r hr hid => ?_⟩
      exact (h.moved hmoved rfl r hr hid).advance fun stage hin =>
        (hstages stage hin).imp_right fun hsaved => hsaved r hr hid

/-! ## What an outcome survives -/

omit [DecidableEq Stage] in
/-- **A finished row stays finished.** -/
theorem Jobs.Kept.finished_moved (h : J.Kept rows next view)
    (hmoved : J.Moved rows rows' next view retried) {id : ℕ} (htaken : id < next)
    (hid : ∀ r ∈ rows, J.id r = id → J.finished r) : ∀ r ∈ rows', J.id r = id → J.finished r := by
  intro r hr hrid
  have hok := h.view
  rcases hmoved r hr with hr | ⟨b, hb, hchange⟩ | ⟨hnew, -, -⟩
  · exact hid r hr hrid
  · have hbid := hchange.id ▸ hrid
    have hb' := hid b hb hbid
    cases hchange.lands with
    | same hfinished => exact hfinished.mpr hb'
    | awaiting hne => exact absurd hb' hne
    | started _ hview hne =>
      rw [hview] at hok
      exact absurd ((hok.2 b hb (hbid.trans hrid.symm)).2.1 hb') hne
    | finished _ hfinished => exact hfinished
    | failed hview =>
      rcases hview with hview | ⟨-, hne⟩
      · rw [hview] at hok
        exact absurd hb' (hok b hb (hbid.trans hrid.symm))
      · exact absurd hb' hne
  · omega

omit [DecidableEq Stage] in
/-- **A failed row stays failed** until it is retried. -/
theorem Jobs.Kept.failed_moved (h : J.Kept rows next view)
    (hmoved : J.Moved rows rows' next view retried) {id : ℕ} (htaken : id < next)
    (hretried : retried ≠ some id) (hid : ∀ r ∈ rows, J.id r = id → J.failed r) :
    ∀ r ∈ rows', J.id r = id → J.failed r := by
  intro r hr hrid
  have hok := h.view
  rcases hmoved r hr with hr | ⟨b, hb, hchange⟩ | ⟨hnew, -, -⟩
  · exact hid r hr hrid
  · have hbid := hchange.id ▸ hrid
    have hb' := hid b hb hbid
    cases hchange.lands with
    | same _ hfailed => exact hfailed.mpr hb'
    | awaiting _ hne =>
      rcases hne with hne | hne
      · exact absurd hb' hne
      · exact absurd (hrid ▸ hne) hretried
    | started _ hview | finished hview =>
      rw [hview] at hok
      exact absurd hb' (hok.2 b hb (hbid.trans hrid.symm)).1
    | failed _ _ hkeep => exact hkeep hb'
  · omega

end Resumption
