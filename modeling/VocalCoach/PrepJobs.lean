/-
# The `songs:prep` entry in the worker's hands

An entry of `songs:prep` is outstanding until the worker acknowledges it, and the worker
acknowledges it only when the waiting analyses of its song have been woken or failed, or
when it gives up and cannot record that (`plan_past`).

`PrepSound` says that the job in the worker's hands is that of an outstanding entry, which
is why a crash loses none.
-/
import VocalCoach.Outcomes

namespace VocalCoach

open RedisStream Machine

variable {cfg : Config} {w w' : World} {a : Action} {e : Effect}

/-! ## Commands on `songs:prep` -/

/-- The commands on `songs:prep`, each with where the worker stands. -/
inductive PrepCommand : Worker → Command SongId → Prop
  | xadd {worker songId} : PrepCommand worker (.xadd songId)
  | xack {entry} : PrepCommand (.prepAck entry) (.xack entry)
  | xdel {entry} : PrepCommand (.prepDel entry) (.xdel entry)
  | xreadgroup {worker consumer count} : PrepCommand worker (.xreadgroup consumer count)
  | xclaim {worker consumer minIdle entry} : PrepCommand worker (.xclaim consumer minIdle entry)

theorem plan_prepCommand {c : Command SongId} (h : plan cfg w a = some e)
    (hc : e.prep = some c) : PrepCommand w.worker c := by
  by_cases ha : a.ofApi
  · cases plan_apiMove h ha with
    | request hmove => cases hmove <;> cases hc
    | advance _ hmove => cases hmove <;> cases hc <;> constructor
    | abort => cases hc
  · have hmove := plan_move h (by simpa using ha)
    generalize w.worker = worker at hmove
    cases hmove <;> cases hc <;> constructor

theorem step_prep (hstep : step cfg w a = some w') :
    w'.prep = w.prep ∨ ∃ c, PrepCommand w.worker c ∧ w'.prep = c.run w.now w.prep := by
  rcases step_cases hstep with hlife | ⟨e, hplan, rfl⟩
  · exact Or.inl (lifecycle_untouched hlife).prep
  · cases hc : e.prep with
    | none => exact Or.inl (by simp only [World.apply, hc, Option.elim_none])
    | some c =>
      exact Or.inr ⟨c, plan_prepCommand hplan hc, by simp only [World.apply, hc, Option.elim_some]⟩

/-- **An entry stays outstanding** until the worker is about to remove it. -/
theorem step_outstanding (hs : w.prep.Ordered) (hstep : step cfg w a = some w')
    {x : Entry SongId} (hx : w.prep.Outstanding x) (hack : w.worker ≠ .prepAck x.id)
    (hdel : w.worker ≠ .prepDel x.id) : w'.prep.Outstanding x := by
  rcases step_prep hstep with hsame | ⟨c, hc, hrun⟩
  · rw [hsame]
    exact hx
  · rw [hrun]
    generalize w.worker = worker at hc hack hdel
    cases hc with
    | xadd => exact hx.xadd _
    | xack => exact hx.xack fun hid => hack (hid ▸ rfl)
    | xdel => exact hx.xdel fun hid => hdel (hid ▸ rfl)
    | xreadgroup => exact hx.xreadgroup hs _ _ _
    | xclaim => exact hx.xclaim _ _ _ _

/-! ## The job in hand -/

/-- The entry whose handler, or whose give-up, the worker is in. -/
def Worker.prepJob : Worker → Option (Entry SongId)
  | .prepRead entry songId | .prepStart entry songId _ | .prepRun entry songId _ _
  | .prepFail entry songId _ _ | .prepFailWaiting entry songId _ _ | .prepReady entry songId
  | .prepWake entry songId | .prepAppend entry songId _ => some ⟨entry, songId⟩
  | _ => none

/-- The entry whose waiting analyses the worker has dealt with. -/
def Worker.past : Worker → Option EntryId
  | .prepAppend entry _ _ | .prepAck entry | .prepDel entry => some entry
  | _ => none

/-- The entry the worker is giving up on. -/
def Worker.givingUp : Worker → Option (Entry SongId)
  | .prepFail entry songId _ true | .prepFailWaiting entry songId _ true => some ⟨entry, songId⟩
  | _ => none

/-- **How an entry gets into the worker's hands**: it is there already, or it is one of the
pending ones. -/
theorem plan_prepJob {x : Entry SongId} (h : plan cfg w a = some e)
    (hx : e.worker.prepJob = some x) :
    w.worker.prepJob = some x ∨ (w.worker = .idle ∧ w.prep.Outstanding x) := by
  by_cases ha : a.ofApi
  · rw [plan_worker h ha] at hx
    exact Or.inl hx
  have hmove := plan_move h (by simpa using ha)
  generalize w.worker = worker at hmove
  cases hmove
  case pickPrep d hd hid _ hrange =>
    cases hx
    exact Or.inr ⟨rfl, Stream.mem_of_xrange hrange, Or.inr ⟨d, hd, hid⟩⟩
  case reclaimPrep d hd _ hrange =>
    cases hx
    obtain ⟨hpending, hid, -⟩ := Stream.mem_of_claimable hd
    exact Or.inr ⟨rfl, Stream.mem_of_xrange hrange, Or.inr ⟨d, hpending, hid⟩⟩
  case giveUpPrep d hd _ hrange =>
    cases hx
    obtain ⟨hpending, hid, -⟩ := Stream.mem_of_claimable hd
    exact Or.inr ⟨rfl, Stream.mem_of_xrange hrange, Or.inr ⟨d, hpending, hid⟩⟩
  all_goals first
    | exact Or.inl hx
    | cases hx

/-- What holds of `songs:prep` in every reachable state. -/
structure PrepSound (w : World) : Prop where
  ordered : w.prep.Ordered
  handled : ∀ x, w.worker.prepJob = some x → w.prep.Outstanding x

theorem PrepSound.empty : PrepSound {} := ⟨Stream.Ordered.empty, by rintro x ⟨⟩⟩

theorem PrepSound.step (h : PrepSound w) (hstep : step cfg w a = some w') : PrepSound w' := by
  constructor
  · rcases step_prep hstep with hsame | ⟨c, -, hrun⟩
    · rw [hsame]
      exact h.ordered
    · rw [hrun]
      exact c.run_ordered h.ordered w.now
  · intro x hx
    have hfrom : w.worker.prepJob = some x ∨ (w.worker = .idle ∧ w.prep.Outstanding x) := by
      rcases step_cases hstep with hlife | ⟨e, hplan, rfl⟩
      · rcases (lifecycle_untouched hlife).worker with hw | hw | hw <;> rw [hw] at hx
        · exact Or.inl hx
        · cases hx
        · cases hx
      · exact plan_prepJob hplan hx
    rcases hfrom with hjob | ⟨hidle, hout⟩
    · refine step_outstanding h.ordered hstep (h.handled x hjob) ?_ ?_ <;>
        intro hw <;> rw [hw] at hjob <;> cases hjob
    · refine step_outstanding h.ordered hstep hout ?_ ?_ <;> rw [hidle] <;> exact nofun

/-- The entry in the worker's hands is the one of its id. -/
theorem PrepSound.fields_eq (h : PrepSound w) {x : Entry SongId} (hx : x ∈ w.prep.entries)
    {songId : SongId} (hjob : w.worker.prepJob = some ⟨x.id, songId⟩) : songId = x.fields := by
  have hentry := h.ordered.eq_of_id (h.handled _ hjob).1 hx rfl
  rw [← hentry]

/-- **An outstanding entry the worker has not marked** stays so until a step marks it.  What
marking means is free, as long as an entry is marked when it is removed and an idle worker
marks none. -/
theorem step_unmarked {mark : Worker → Option EntryId} (hack : ∀ i, mark (.prepAck i) = some i)
    (hdel : ∀ i, mark (.prepDel i) = some i) (hidle : mark .idle = none)
    (hdown : mark .down = none) (hprep : PrepSound w) (hstep : step cfg w a = some w')
    {x : Entry SongId} (hx : w.prep.Outstanding x) (hmark : mark w.worker ≠ some x.id) :
    (w'.prep.Outstanding x ∧ mark w'.worker ≠ some x.id) ∨
      ∃ e, plan cfg w a = some e ∧ mark e.worker = some x.id := by
  have hx' : w'.prep.Outstanding x := by
    refine step_outstanding hprep.ordered hstep hx ?_ ?_ <;> intro hw <;> rw [hw] at hmark
    · exact hmark (hack x.id)
    · exact hmark (hdel x.id)
  by_cases hmark' : mark w'.worker = some x.id
  · rcases step_cases hstep with hlife | ⟨e, hplan, rfl⟩
    · rcases (lifecycle_untouched hlife).worker with hw | hw | hw <;> rw [hw] at hmark'
      · exact absurd hmark' hmark
      · rw [hidle] at hmark'
        cases hmark'
      · rw [hdown] at hmark'
        cases hmark'
    · exact Or.inr ⟨e, hplan, hmark'⟩
  · exact Or.inl ⟨hx', hmark'⟩

/-! ## Getting past the waiting analyses -/

/-- **How the worker gets past an entry**: its waiting analyses are woken or failed, the
give-up could not be recorded, or the message is gone. -/
theorem plan_past {entry : EntryId} (h : plan cfg w a = some e)
    (hpast : e.worker.past = some entry) :
    w.worker.past = some entry ∨
      (∃ songId s, w.worker.prepJob = some ⟨entry, songId⟩ ∧ e.statement = some s ∧
        (s = .wakeWaitingForReference songId ∨
          ∃ errorCode, s = .failWaitingForReference songId errorCode)) ∨
      (a = .raise ∧ ∃ songId, w.worker.givingUp = some ⟨entry, songId⟩) ∨
      w.prep.xrange entry = none := by
  by_cases ha : a.ofApi
  · rw [plan_worker h ha] at hpast
    exact Or.inl hpast
  have hmove := plan_move h (by simpa using ha)
  generalize w.worker = worker at hmove
  cases hmove
  case giveUpPrepGone hrange =>
    cases hpast
    exact Or.inr (Or.inr (Or.inr hrange))
  case wake =>
    cases hpast
    exact Or.inr (Or.inl ⟨_, _, rfl, rfl, Or.inl rfl⟩)
  case failWaiting =>
    cases hpast
    exact Or.inr (Or.inl ⟨_, _, rfl, rfl, Or.inr ⟨_, rfl⟩⟩)
  case unrecordedPrep | unrecordedWaiting =>
    cases hpast
    exact Or.inr (Or.inr (Or.inl ⟨rfl, _, rfl⟩))
  all_goals first
    | exact Or.inl hpast
    | cases hpast

end VocalCoach
