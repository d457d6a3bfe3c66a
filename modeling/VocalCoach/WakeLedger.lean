/-
# The ledger of a wake

`wake_waiting_for_reference` moves the waiting analyses of a song to `queued` in one
transaction, and `_wake_ready` then appends them to `analyses:run` one by one.  The list
in between lives in the worker's memory only.

The ledger of one `songs:prep` entry counts over a run what was woken, what was appended
and what a crash or an exception lost; `woken_total` is its balance, and
`wakesAppended_iff` the condition under which nothing is lost.
-/
import VocalCoach.PrepJobs

namespace VocalCoach

open RedisStream Machine

variable {cfg : Config} {w w' : World} {a : Action} {e : Effect}

/-! ## The accounts -/

/-- The analyses woken for an entry that are yet to be appended. -/
def Worker.unappended (entry : EntryId) : Worker → List AnalysisId
  | .prepAppend x _ ids => if x = entry then ids else []
  | _ => []

/-- How often an action moves the analysis from waiting to queued for the entry. -/
def woken (entry : EntryId) (id : AnalysisId) (w : World) : Action → ℕ
  | .wake _ =>
      match w.worker with
      | .prepWake x songId => if x = entry then (w.db.newlyQueued songId).count id else 0
      | _ => 0
  | _ => 0

/-- How often an action appends the analysis to `analyses:run` for the entry. -/
def appended (entry : EntryId) (id : AnalysisId) (w : World) : Action → ℕ
  | .work => if (w.worker.unappended entry).head? = some id then 1 else 0
  | _ => 0

/-- How often an action loses the analysis before it is appended. -/
def lost (entry : EntryId) (id : AnalysisId) (w : World) : Action → ℕ
  | .crash | .raise => (w.worker.unappended entry).count id
  | _ => 0

/-! ## One step -/

/-- **The balance of one step**: what is yet to be appended grows by what is woken and
shrinks by what is appended or lost. -/
theorem step_ledger (entry : EntryId) (id : AnalysisId) (hstep : step cfg w a = some w') :
    (w.worker.unappended entry).count id + woken entry id w a =
      (w'.worker.unappended entry).count id + (appended entry id w a + lost entry id w a) := by
  rcases step_cases hstep with hlife | ⟨e, hplan, rfl⟩
  · cases a <;> simp only [lifecycle, reduceCtorEq] at hlife
    case sleep =>
      cases hlife
      rfl
    case start =>
      split_ifs at hlife with hdown
      cases hlife
      rw [hdown]
      rfl
    case crash =>
      split_ifs at hlife
      cases hlife
      simp [woken, appended, lost, Worker.unappended]
    case enterLoop =>
      split_ifs at hlife
      cases hlife
      rfl
  by_cases hapi : a.ofApi
  · have hworker : (w.apply e).worker = w.worker := plan_worker hplan hapi
    rw [hworker]
    cases a <;> simp only [Action.ofApi, Bool.false_eq_true] at hapi <;> rfl
  have hmove := plan_move hplan (by simpa using hapi)
  show _ = (e.worker.unappended entry).count id + _
  generalize hworker : w.worker = worker at hmove
  cases hmove <;> simp only [woken, appended, lost, hworker]
  case wake x songId ids hperm =>
    by_cases hx : x = entry <;> simp [Worker.unappended, hx, hperm.count_eq id]
  case append x songId head ids =>
    by_cases hx : x = entry <;> by_cases hid : head = id <;> simp [Worker.unappended, hx, hid]
  case appended x songId =>
    by_cases hx : x = entry <;> simp [Worker.unappended, hx]
  case raised => simp [Worker.unappended]
  all_goals rfl

/-! ## A run -/

/-- **The ledger of an entry over a run.** -/
theorem woken_total {actions : List Action} (entry : EntryId) (id : AnalysisId)
    (hrun : exec (step cfg) {} actions = some w) :
    total (step cfg) (woken entry id) {} actions =
      (w.worker.unappended entry).count id + (total (step cfg) (appended entry id) {} actions +
        total (step cfg) (lost entry id) {} actions) := by
  have hbalance := total_balance (fun w => (w.worker.unappended entry).count id)
    (fun _ _ _ hstep => step_ledger entry id hstep) hrun
  rw [total_add] at hbalance
  simpa [Worker.unappended] using hbalance

/-- An entry that is acknowledged, or was never added, has nothing left to append. -/
theorem unappended_of_acknowledged {entry : EntryId} (h : PrepSound w)
    (hacked : ∀ x ∈ w.prep.entries, x.id = entry → ¬ w.prep.Outstanding x) :
    w.worker.unappended entry = [] := by
  generalize hworker : w.worker = worker
  unfold Worker.unappended
  split
  next x songId ids =>
    split_ifs with hx
    · have hout := h.handled ⟨x, songId⟩ (by rw [hworker]; rfl)
      exact absurd hout (hacked _ hout.1 hx)
    · rfl
  · rfl

/-- Every analysis the entry moved from waiting to queued was appended as often as that. -/
def WakesAppended (cfg : Config) (actions : List Action) (entry : EntryId) : Prop :=
  ∀ id, total (step cfg) (appended entry id) {} actions
    = total (step cfg) (woken entry id) {} actions

/-- No crash and no exception finds the worker with woken analyses yet to be appended. -/
def AppendsAll (entry : EntryId) (w : World) (a : Action) : Prop :=
  a = .crash ∨ a = .raise → w.worker.unappended entry = []

instance (entry : EntryId) (w : World) (a : Action) : Decidable (AppendsAll entry w a) :=
  inferInstanceAs (Decidable (_ → _))

theorem lost_eq_zero_iff {entry : EntryId} :
    (∀ id, lost entry id w a = 0) ↔ AppendsAll entry w a := by
  have hnil : (∀ id, (w.worker.unappended entry).count id = 0) ↔ w.worker.unappended entry = [] := by
    rw [List.eq_nil_iff_forall_not_mem]
    exact forall_congr' fun id => List.count_eq_zero
  cases a <;> simp [lost, AppendsAll, hnil]

/-- **When a wake is crash-safe.**  After any run that leaves an entry of `songs:prep`
acknowledged, every analysis the entry moved from waiting to queued has been appended to
`analyses:run` exactly once for each such move if and only if no crash and no exception
fell between the commit of the wake and the last append. -/
theorem wakesAppended_iff (cfg : Config) (actions : List Action) (w : World) (entry : EntryId)
    (hrun : exec (step cfg) {} actions = some w)
    (hacked : ∀ x ∈ w.prep.entries, x.id = entry → ¬ w.prep.Outstanding x) :
    WakesAppended cfg actions entry ↔ Meets (step cfg) (AppendsAll entry) {} actions := by
  have hsound : PrepSound w :=
    invariant_all PrepSound (fun s a s' h hs => h.step hs) PrepSound.empty hrun
  have hnone := unappended_of_acknowledged hsound hacked
  have hlost : ∀ id, total (step cfg) (appended entry id) {} actions
      = total (step cfg) (woken entry id) {} actions ↔
        Meets (step cfg) (fun w a => lost entry id w a = 0) {} actions := by
    intro id
    have hledger := woken_total entry id hrun
    rw [hnone, List.count_nil, Nat.zero_add] at hledger
    rw [← total_eq_zero_iff hrun, hledger]
    omega
  rw [WakesAppended, forall_congr' hlost, meets_forall]
  exact meets_congr fun s a => lost_eq_zero_iff

/-! ## Two runs -/

/-- An analysis waits for the first song, which is readied and wakes it. -/
def wakesFirstAnalysis : List Action :=
  startsFirstSong ++ enqueuesWaiting 7 0 ++ readiesFirstSong ++ [.wake [1]]

/-- The worker appends the woken analysis and acknowledges the entry. -/
def appendsFirstAnalysis : List Action := wakesFirstAnalysis ++ [.work, .work, .work, .work]

def wokenAndAppended : World :=
  (exec (step defaultConfig) {} appendsFirstAnalysis).get (by decide +kernel)

theorem wakesAppended_iff_appendsFirstAnalysis :
    WakesAppended defaultConfig appendsFirstAnalysis 1 :=
  (wakesAppended_iff defaultConfig appendsFirstAnalysis wokenAndAppended 1 (Option.some_get _).symm
    (by decide +kernel)).mpr (by decide +kernel)

/-- The worker crashes between the commit and the append; its successor reclaims the
entry, wakes nobody, as nobody waits any more, and acknowledges it. -/
def crashesBeforeAppend : List Action :=
  wakesFirstAnalysis ++
    [.crash, .start 0, .sleep songsPrepPendingClaimMinIdle, .reclaimPrep 1, .work, .work, .work,
      .work, .wake [], .work, .work, .work]

/-- The analysis is queued and has no entry, though its `songs:prep` entry is acknowledged. -/
theorem not_forall_wakesAppended :
    ¬ ∀ (actions : List Action) (w : World) (entry : EntryId),
      exec (step defaultConfig) {} actions = some w →
      (∀ x ∈ w.prep.entries, x.id = entry → ¬ w.prep.Outstanding x) →
      WakesAppended defaultConfig actions entry := by
  intro h
  have hrun : (exec (step defaultConfig) {} crashesBeforeAppend).map (fun w => w.prep.entries)
      = some [] := by
    decide +kernel
  obtain ⟨w, hw, hentries⟩ := Option.map_eq_some_iff.mp hrun
  have hcounts := h crashesBeforeAppend w 1 hw (by rw [hentries]; exact nofun) 1
  exact absurd hcounts (by decide +kernel)

end VocalCoach
