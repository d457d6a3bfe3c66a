/-
# The hub of the status channel

`transport/ws/hub.go` with every call of `Handler.ServeAnalysis` at once: which connections the
hub sends what.  `StatusChannel` is one connection, with the broadcasts that reach it; here the
hub decides which reach it.

The hub's lock is a `sync.RWMutex`.  Broadcasts may overlap, each with the sends it has left;
`register` and `unregister` wait until none is under way.

* `run_connection`: in a run of the whole server each connection goes through a run of
  `StatusChannel`.
* `broadcast_sentOnce`: a broadcast is sent once to each connection that watches the analysis
  when it begins.
* `received_owned`: what a connection receives is about the analysis it asked for, and its user
  owns that.
* `clients_isSome_iff`: the hub keeps an analysis exactly as long as someone watches it.
-/
import VocalCoach.StatusChannel
import Mathlib.Algebra.GroupWithZero.Nat
import Mathlib.Data.List.Count
import Mathlib.Data.List.Nodup

namespace VocalCoach.Hub

open Machine StatusChannel

abbrev ConnId := ℕ

/-! ## The server -/

/-- A call of `ServeAnalysis`: the analysis of the URL, the user of the token, the row that
`GetByID` returned, and where the call stands. -/
structure Watch where
  analysis : AnalysisId
  user : UserId
  row : Option Analysis := none
  connection : Connection := .authenticated
  deriving DecidableEq, Repr

/-- Between `register` and `unregister`. -/
def subscribed : Connection → Bool
  | .registered .. | .running _ => true
  | _ => false

structure Server where
  watches : ConnId → Option Watch := fun _ => none
  /-- `clients` of the hub. -/
  clients : AnalysisId → Option (List ConnId) := fun _ => none
  /-- The broadcasts that hold the read lock, each with the sends it has left. -/
  sending : List (List (ConnId × Event)) := []
  /-- What was ever broadcast. -/
  begun : List (AnalysisId × Event) := []

/-- The clients of an analysis. -/
def Server.watching (w : Server) (id : AnalysisId) : List ConnId := (w.clients id).getD []

/-- `register`. -/
def Server.register (w : Server) (id : AnalysisId) (k : ConnId) : Server :=
  { w with clients := Function.update w.clients id (some ((w.watching id).insert k)) }

/-- `unregister`: an analysis without clients is deleted. -/
def Server.unregister (w : Server) (id : AnalysisId) (k : ConnId) : Server :=
  let set := (w.watching id).erase k
  { w with clients := Function.update w.clients id (if set.length = 0 then none else some set) }

def Server.setWatch (w : Server) (k : ConnId) (watch : Watch) : Server :=
  { w with watches := Function.update w.watches k (some watch) }

/-- What a broadcast has to send. -/
def Server.sends (w : Server) (events : List (AnalysisId × Event)) : List (ConnId × Event) :=
  events.flatMap fun p => (w.watching p.1).map fun k => (k, p.2)

inductive Action
  /-- A connection is authenticated. -/
  | connect (k : ConnId) (analysis : AnalysisId) (user : UserId)
  /-- `GetByID` returns a row. -/
  | read (k : ConnId) (current : Analysis)
  | register (k : ConnId)
  | snapshot (k : ConnId)
  | take (k : ConnId)
  | write (k : ConnId)
  /-- The call returns, through `unregister` if it has registered. -/
  | leave (k : ConnId)
  /-- A broadcast takes the read lock: `BroadcastPositions` of several analyses, or another of
  one. -/
  | broadcast (events : List (AnalysisId × Event))
  /-- A broadcast under way sends one of what it has left. -/
  | send (broadcast next : ℕ)
  /-- A broadcast with nothing left returns. -/
  | finish (broadcast : ℕ)
  deriving DecidableEq, Repr

/-- A step of one connection that the hub has no part in. -/
def Server.advance (w : Server) (k : ConnId) (a : StatusChannel.Action) : Option Server :=
  match w.watches k with
  | none => none
  | some watch =>
      (StatusChannel.step watch.connection a).map fun connection =>
        w.setWatch k { watch with connection }

def step (w : Server) : Action → Option Server
  | .connect k analysis user =>
      if w.watches k = none then some (w.setWatch k { analysis, user }) else none
  | .read k current =>
      match w.watches k with
      | none => none
      | some watch =>
          if current.id = watch.analysis ∧ current.userId = watch.user then
            (StatusChannel.step watch.connection (.read current)).map fun connection =>
              w.setWatch k { watch with connection, row := some current }
          else none
  | .register k =>
      match w.watches k with
      | none => none
      | some watch =>
          if w.sending = [] then
            (w.advance k .register).map fun w => w.register watch.analysis k
          else none
  | .snapshot k => w.advance k .snapshot
  | .take k => w.advance k .take
  | .write k => w.advance k .write
  | .leave k =>
      match w.watches k with
      | none => none
      | some watch =>
          if subscribed watch.connection then
            if w.sending = [] then
              (w.advance k .disconnect).map fun w => w.unregister watch.analysis k
            else none
          else w.advance k .disconnect
  | .broadcast events =>
      some { w with sending := w.sending ++ [w.sends events], begun := w.begun ++ events }
  | .send i j =>
      match w.sending[i]? with
      | none => none
      | some left =>
          match left[j]? with
          | none => none
          | some (k, ev) =>
              (w.advance k (.broadcast ev)).map fun w =>
                { w with sending := w.sending.set i (left.eraseIdx j) }
  | .finish i =>
      if w.sending[i]? = some [] then some { w with sending := w.sending.eraseIdx i } else none

/-! ## One connection -/

/-- Where a connection stands; one that has not come yet is about to. -/
def Server.connection (w : Server) (k : ConnId) : Connection :=
  (w.watches k).elim .authenticated Watch.connection

/-- What a step is for one connection. -/
def actionsOf (k : ConnId) (w : Server) : Action → List StatusChannel.Action
  | .read k' current => if k' = k then [.read current] else []
  | .register k' => if k' = k then [.register] else []
  | .snapshot k' => if k' = k then [.snapshot] else []
  | .take k' => if k' = k then [.take] else []
  | .write k' => if k' = k then [.write] else []
  | .leave k' => if k' = k then [.disconnect] else []
  | .send i j =>
      match (w.sending[i]?).bind fun left => left[j]? with
      | some (k', ev) => if k' = k then [.broadcast ev] else []
      | none => []
  | _ => []

/-! ## What a step does -/

section Cases

variable {w w' : Server} {k : ConnId}

theorem advance_cases {a : StatusChannel.Action} (h : w.advance k a = some w') :
    ∃ watch connection, w.watches k = some watch ∧
      StatusChannel.step watch.connection a = some connection ∧
      w' = w.setWatch k { watch with connection } := by
  unfold Server.advance at h
  split at h
  · cases h
  next watch hwatch =>
    obtain ⟨connection, hstep, rfl⟩ := Option.map_eq_some_iff.mp h
    exact ⟨watch, connection, hwatch, hstep, rfl⟩

theorem advance_sending {a : StatusChannel.Action} (h : w.advance k a = some w') :
    w'.sending = w.sending := by
  obtain ⟨watch, connection, -, -, rfl⟩ := advance_cases h
  rfl

theorem connect_cases {analysis : AnalysisId} {user : UserId}
    (h : step w (.connect k analysis user) = some w') :
    w.watches k = none ∧ w' = w.setWatch k { analysis, user } := by
  rw [step, Option.ite_none_right_eq_some] at h
  exact ⟨h.1, (Option.some.inj h.2).symm⟩

theorem read_cases {current : Analysis} (h : step w (.read k current) = some w') :
    ∃ watch connection, w.watches k = some watch ∧
      (current.id = watch.analysis ∧ current.userId = watch.user) ∧
      StatusChannel.step watch.connection (.read current) = some connection ∧
      w' = w.setWatch k { watch with connection, row := some current } := by
  simp only [step] at h
  split at h
  · cases h
  next watch hwatch =>
    rw [Option.ite_none_right_eq_some] at h
    obtain ⟨connection, hstep, rfl⟩ := Option.map_eq_some_iff.mp h.2
    exact ⟨watch, connection, hwatch, h.1, hstep, rfl⟩

theorem register_cases (h : step w (.register k) = some w') :
    ∃ watch v, w.watches k = some watch ∧ w.sending = [] ∧ w.advance k .register = some v ∧
      w' = v.register watch.analysis k := by
  simp only [step] at h
  split at h
  · cases h
  next watch hwatch =>
    rw [Option.ite_none_right_eq_some] at h
    obtain ⟨v, hv, rfl⟩ := Option.map_eq_some_iff.mp h.2
    exact ⟨watch, v, hwatch, h.1, hv, rfl⟩

theorem leave_cases (h : step w (.leave k) = some w') :
    (∃ watch v, w.watches k = some watch ∧ w.sending = [] ∧ w.advance k .disconnect = some v ∧
      w' = v.unregister watch.analysis k) ∨
    (subscribed (w.connection k) = false ∧ w.advance k .disconnect = some w') := by
  simp only [step] at h
  split at h
  · cases h
  next watch hwatch =>
    split_ifs at h with hsubscribed hlock
    · obtain ⟨v, hv, rfl⟩ := Option.map_eq_some_iff.mp h
      exact Or.inl ⟨watch, v, hwatch, hlock, hv, rfl⟩
    · refine Or.inr ⟨?_, h⟩
      rw [Server.connection, hwatch]
      simpa using hsubscribed

theorem send_cases {i j : ℕ} (h : step w (.send i j) = some w') :
    ∃ left k ev v, w.sending[i]? = some left ∧ left[j]? = some (k, ev) ∧
      w.advance k (.broadcast ev) = some v ∧
      w' = { v with sending := v.sending.set i (left.eraseIdx j) } := by
  simp only [step] at h
  split at h
  · cases h
  next left hleft =>
    split at h
    · cases h
    next k ev hnext =>
      obtain ⟨v, hv, rfl⟩ := Option.map_eq_some_iff.mp h
      exact ⟨left, k, ev, v, hleft, hnext, hv, rfl⟩

theorem finish_cases {i : ℕ} (h : step w (.finish i) = some w') :
    w.sending[i]? = some [] ∧ w' = { w with sending := w.sending.eraseIdx i } := by
  rw [step, Option.ite_none_right_eq_some] at h
  exact ⟨h.1, (Option.some.inj h.2).symm⟩

end Cases

/-! ## The run of a connection -/

theorem connection_setWatch (w : Server) (k k' : ConnId) (watch : Watch) :
    (w.setWatch k' watch).connection k = if k' = k then watch.connection else w.connection k := by
  unfold Server.connection Server.setWatch
  by_cases h : k' = k
  · subst h
    simp
  · simp [Function.update_of_ne (Ne.symm h), h]

/-- A step of a connection is its own. -/
theorem advance_connection {w w' : Server} {k k' : ConnId} {a : StatusChannel.Action}
    (h : w.advance k' a = some w') :
    exec StatusChannel.step (w.connection k) (if k' = k then [a] else []) =
      some (w'.connection k) := by
  unfold Server.advance at h
  split at h
  · cases h
  next watch hwatch =>
    obtain ⟨connection, hstep, rfl⟩ := Option.map_eq_some_iff.mp h
    rw [connection_setWatch]
    by_cases hk : k' = k
    · subst hk
      have hconnection : w.connection k' = watch.connection := by
        rw [Server.connection, hwatch]
        rfl
      rw [if_pos rfl, if_pos rfl, hconnection]
      exact exec_cons.mpr ⟨connection, hstep, rfl⟩
    · rw [if_neg hk, if_neg hk]
      rfl

/-- **A step of the server is a step of one connection, or of none.** -/
theorem step_connection (k : ConnId) {w w' : Server} {a : Action} (h : step w a = some w') :
    exec StatusChannel.step (w.connection k) (actionsOf k w a) = some (w'.connection k) := by
  cases a with
  | connect k' analysis user =>
    obtain ⟨hnew, rfl⟩ := connect_cases h
    rw [connection_setWatch]
    by_cases hk : k' = k
    · subst hk
      rw [if_pos rfl, Server.connection, hnew]
      rfl
    · rw [if_neg hk]
      rfl
  | read k' current =>
    obtain ⟨watch, connection, hwatch, -, hstep, rfl⟩ := read_cases h
    rw [connection_setWatch]
    by_cases hk : k' = k
    · subst hk
      have hconnection : w.connection k' = watch.connection := by
        rw [Server.connection, hwatch]
        rfl
      rw [actionsOf, if_pos rfl, if_pos rfl, hconnection]
      exact exec_cons.mpr ⟨connection, hstep, rfl⟩
    · rw [actionsOf, if_neg hk, if_neg hk]
      rfl
  | snapshot k' => exact advance_connection h
  | take k' => exact advance_connection h
  | write k' => exact advance_connection h
  | register k' =>
    obtain ⟨watch, v, -, -, hv, rfl⟩ := register_cases h
    have hown := advance_connection (k := k) hv
    exact hown
  | leave k' =>
    rcases leave_cases h with ⟨watch, v, -, -, hv, rfl⟩ | ⟨-, hv⟩
    · have hown := advance_connection (k := k) hv
      exact hown
    · exact advance_connection hv
  | broadcast events =>
    cases h
    rfl
  | send i j =>
    obtain ⟨left, k', ev, v, hleft, hnext, hv, rfl⟩ := send_cases h
    rw [actionsOf, hleft, Option.bind_some, hnext]
    have hown := advance_connection (k := k) hv
    exact hown
  | finish i =>
    obtain ⟨-, rfl⟩ := finish_cases h
    rfl

/-- **Each connection of a run goes through a run of its own**, with the broadcasts that the hub
sends it. -/
theorem run_connection (k : ConnId) {w : Server} {as : List Action}
    (hrun : exec step {} as = some w) :
    exec StatusChannel.step .authenticated (projected step (actionsOf k) {} as) =
      some (w.connection k) :=
  exec_projected (fun w => w.connection k) (fun _ _ _ h => step_connection k h) hrun

/-- Analysis 7 of user 1 is open in two tabs while its first stage starts; the second tab is closed
before the next one starts. -/
def twoTabs : List Action :=
  let row : Analysis :=
    { id := 7, userId := 1, songId := 3, status := .queued, mode := .clean, queueSeq := 1,
      queuedAt := 0, queuePosition := some 2 }
  [.connect 0 7 1, .connect 1 7 1, .read 1 row, .read 0 row, .register 0, .snapshot 0, .register 1,
    .broadcast [(7, .stage "separate" 1 9)], .send 0 1, .take 0, .snapshot 1, .send 0 0, .write 0,
    .finish 0, .leave 1, .broadcast [(7, .stage "pitch" 2 9)], .send 0 0]

theorem run_connection_twoTabs : ∃ w, exec step {} twoTabs = some w ∧
    exec StatusChannel.step .authenticated (projected step (actionsOf 0) {} twoTabs) =
      some (w.connection 0) := by
  obtain ⟨w, hrun⟩ := Option.isSome_iff_exists.mp
    (show (exec step {} twoTabs).isSome = true by decide +kernel)
  exact ⟨w, hrun, run_connection 0 hrun⟩

/-! ## Who watches -/

/-- What an event of a connection may be about. -/
def Concerns (w : Server) (watch : Watch) (ev : Event) : Prop :=
  (watch.analysis, ev) ∈ w.begun ∨ watch.row.bind StatusChannel.snapshot = some ev

/-- The events a connection holds or has received. -/
def held : Connection → List Event
  | .registered _ c => c.accepted
  | .running c => c.accepted
  | _ => []

/-- The row a connection has read, while it has not queued the snapshot. -/
def pendingRow : Connection → Option Analysis
  | .read current => some current
  | .registered current _ => some current
  | _ => none

/-- What holds of one call of `ServeAnalysis`. -/
structure Watch.Sound (w : Server) (watch : Watch) : Prop where
  row : ∀ current, watch.row = some current →
    current.id = watch.analysis ∧ current.userId = watch.user
  read : ∀ current, pendingRow watch.connection = some current → watch.row = some current
  owned : subscribed watch.connection = true → watch.row.isSome = true
  concerns : ∀ ev ∈ held watch.connection, Concerns w watch ev

structure Server.Sound (w : Server) : Prop where
  watch : ∀ k watch, w.watches k = some watch → watch.Sound w
  /-- The clients of an analysis are the connections that are subscribed to it. -/
  clients : ∀ id k, k ∈ w.watching id ↔
    ∃ watch, w.watches k = some watch ∧ watch.analysis = id ∧ subscribed watch.connection = true
  nodup : ∀ id, (w.watching id).Nodup
  kept : ∀ id, w.clients id ≠ some []
  /-- Nothing is sent to a connection that has left. -/
  sending : ∀ left ∈ w.sending, ∀ p ∈ left, ∃ watch, w.watches p.1 = some watch ∧
    subscribed watch.connection = true ∧ (watch.analysis, p.2) ∈ w.begun

theorem Server.Sound.empty : Server.Sound {} where
  watch _ _ h := by cases h
  clients _ _ := by simp [Server.watching]
  nodup _ := List.nodup_nil
  kept _ h := by cases h
  sending _ h := by cases h

theorem held_send (c : Client) (ev : Event) {e : Event} (h : e ∈ (c.send ev).accepted) :
    e ∈ c.accepted ∨ e = ev := by
  rw [Client.accepted_send] at h
  split_ifs at h
  · simpa using h
  · exact Or.inl h

/-- Where the events of a connection come from. -/
theorem held_step {v v' : Connection} {a : StatusChannel.Action}
    (h : StatusChannel.step v a = some v') {e : Event} (he : e ∈ held v') :
    e ∈ held v ∨ a = .broadcast e ∨
      ∃ current, pendingRow v = some current ∧ StatusChannel.snapshot current = some e := by
  cases a with
  | read current =>
    cases v <;> cases h
    cases he
  | register =>
    cases v <;> cases h
    simp [held, Client.accepted] at he
  | snapshot =>
    cases v with
    | registered current c =>
      cases h
      rcases hsnapshot : StatusChannel.snapshot current with _ | ev
      · rw [hsnapshot] at he
        exact Or.inl he
      · rw [hsnapshot] at he
        rcases held_send c ev he with he | rfl
        · exact Or.inl he
        · exact Or.inr (Or.inr ⟨current, rfl, hsnapshot⟩)
    | authenticated | read | running | closed => cases h
  | broadcast ev =>
    cases h
    cases v with
    | registered current c => exact (held_send c ev he).imp_right fun h => Or.inl (by rw [h])
    | running c => exact (held_send c ev he).imp_right fun h => Or.inl (by rw [h])
    | authenticated | read | closed => exact Or.inl he
  | take =>
    cases v <;> try cases h
    obtain ⟨d, hd, rfl⟩ := Option.map_eq_some_iff.mp h
    left
    rwa [held, Client.accepted_take hd] at he
  | write =>
    cases v <;> try cases h
    obtain ⟨d, hd, rfl⟩ := Option.map_eq_some_iff.mp h
    left
    rwa [held, Client.accepted_write hd] at he
  | disconnect =>
    cases h
    cases he

/-- A row that is pending was pending before, or is the one read. -/
theorem pendingRow_step {v v' : Connection} {a : StatusChannel.Action}
    (h : StatusChannel.step v a = some v') {current : Analysis} (hrow : pendingRow v' = some current) :
    a = .read current ∨ pendingRow v = some current := by
  cases a with
  | read =>
    cases v <;> cases h
    cases hrow
    exact Or.inl rfl
  | register => cases v <;> cases h; exact Or.inr hrow
  | snapshot => cases v <;> cases h; cases hrow
  | broadcast ev => cases h; cases v <;> exact Or.inr hrow
  | take =>
    cases v <;> try cases h
    obtain ⟨d, hd, rfl⟩ := Option.map_eq_some_iff.mp h
    cases hrow
  | write =>
    cases v <;> try cases h
    obtain ⟨d, hd, rfl⟩ := Option.map_eq_some_iff.mp h
    cases hrow
  | disconnect => cases h; cases hrow

/-- Only `register` and the end change whether a connection is subscribed. -/
theorem subscribed_step {v v' : Connection} {a : StatusChannel.Action}
    (h : StatusChannel.step v a = some v') (hregister : a ≠ .register)
    (hleave : a ≠ .disconnect ∨ subscribed v = false) : subscribed v' = subscribed v := by
  cases a with
  | read => cases v <;> cases h; rfl
  | register => exact absurd rfl hregister
  | snapshot => cases v <;> cases h; rfl
  | broadcast ev => cases h; cases v <;> rfl
  | take =>
    cases v <;> try cases h
    obtain ⟨d, hd, rfl⟩ := Option.map_eq_some_iff.mp h
    rfl
  | write =>
    cases v <;> try cases h
    obtain ⟨d, hd, rfl⟩ := Option.map_eq_some_iff.mp h
    rfl
  | disconnect =>
    cases h
    rw [hleave.resolve_left (fun h => h rfl)]
    rfl

theorem Watch.Sound.step {w : Server} {watch : Watch} (h : watch.Sound w) {connection : Connection}
    {a : StatusChannel.Action} (hstep : StatusChannel.step watch.connection a = some connection)
    (hread : ∀ current, a ≠ .read current)
    (hbroadcast : ∀ ev, a = .broadcast ev → (watch.analysis, ev) ∈ w.begun) :
    Watch.Sound w { watch with connection } where
  row := h.row
  read current hcurrent :=
    h.read current ((pendingRow_step hstep hcurrent).resolve_left (hread current))
  owned hsubscribed := by
    show watch.row.isSome = true
    by_cases hregister : a = .register
    · subst hregister
      obtain ⟨current, hcurrent⟩ : ∃ current, watch.connection = .read current := by
        cases hconnection : watch.connection with
        | read current => exact ⟨current, rfl⟩
        | _ =>
          rw [hconnection] at hstep
          cases hstep
      rw [h.read current (by rw [hcurrent]; rfl)]
      rfl
    · by_cases hleave : a = .disconnect
      · subst hleave
        cases hstep
        cases hsubscribed
      · apply h.owned
        rw [← subscribed_step hstep hregister (Or.inl hleave)]
        exact hsubscribed
  concerns ev hev := by
    rcases held_step hstep hev with hev | rfl | ⟨current, hcurrent, hsnapshot⟩
    · exact h.concerns ev hev
    · exact Or.inl (hbroadcast ev rfl)
    · right
      show watch.row.bind StatusChannel.snapshot = some ev
      rw [h.read current hcurrent]
      exact hsnapshot

theorem Watch.Sound.mono {w w' : Server} {watch : Watch} (h : watch.Sound w)
    (hbegun : w.begun ⊆ w'.begun) : watch.Sound w' where
  row := h.row
  read := h.read
  owned := h.owned
  concerns ev hev := (h.concerns ev hev).imp_left fun hmem => hbegun hmem

/-! ## One step -/

section Steps

variable {w w' : Server} {k : ConnId} {watch watch' : Watch}

theorem watches_setWatch (k' : ConnId) : (w.setWatch k watch').watches k' =
    if k' = k then some watch' else w.watches k' := by
  unfold Server.setWatch
  by_cases h : k' = k
  · subst h
    simp
  · simp [h]

/-- A connection that stays as it is for the hub. -/
theorem Server.Sound.setWatch (h : w.Sound) (hwatch : w.watches k = some watch)
    (hanalysis : watch'.analysis = watch.analysis)
    (hsubscribed : subscribed watch'.connection = subscribed watch.connection)
    (hsound : watch'.Sound w) : (w.setWatch k watch').Sound where
  watch k' v hv := by
    rw [watches_setWatch] at hv
    split_ifs at hv with hk
    · cases hv
      exact hsound.mono (List.Subset.refl _)
    · exact (h.watch k' v hv).mono (List.Subset.refl _)
  clients id k' := by
    show k' ∈ w.watching id ↔ _
    rw [h.clients, watches_setWatch]
    by_cases hk : k' = k
    · subst hk
      rw [if_pos rfl, hwatch]
      simp [hanalysis, hsubscribed]
    · rw [if_neg hk]
  nodup := h.nodup
  kept := h.kept
  sending left hleft p hp := by
    obtain ⟨v, hv, hsub, hmem⟩ := h.sending left hleft p hp
    rw [watches_setWatch]
    by_cases hk : p.1 = k
    · rw [hk, hwatch] at hv
      cases hv
      rw [if_pos hk]
      exact ⟨watch', rfl, hsubscribed.trans hsub, by rw [hanalysis]; exact hmem⟩
    · rw [if_neg hk]
      exact ⟨v, hv, hsub, hmem⟩

theorem watching_register (id id' : AnalysisId) : (w.register id k).watching id' =
    if id' = id then (w.watching id).insert k else w.watching id' := by
  unfold Server.register Server.watching
  by_cases h : id' = id
  · subst h
    simp
  · simp [h]

theorem watching_unregister (id id' : AnalysisId) : (w.unregister id k).watching id' =
    if id' = id then (w.watching id).erase k else w.watching id' := by
  unfold Server.unregister Server.watching
  by_cases h : id' = id
  · subst h
    simp only [Function.update_self, if_true]
    split_ifs with hempty
    · exact (List.length_eq_zero_iff.mp hempty).symm
    · rfl
  · simp [h]

theorem kept_register (h : ∀ id, w.clients id ≠ some []) (id id' : AnalysisId) :
    (w.register id k).clients id' ≠ some [] := by
  unfold Server.register
  by_cases hid : id' = id
  · subst hid
    simp only [Function.update_self]
    intro heq
    exact List.ne_nil_of_mem List.mem_insert_self (Option.some.inj heq)
  · simp only [Function.update_of_ne hid]
    exact h id'

theorem kept_unregister (h : ∀ id, w.clients id ≠ some []) (id id' : AnalysisId) :
    (w.unregister id k).clients id' ≠ some [] := by
  unfold Server.unregister
  by_cases hid : id' = id
  · subst hid
    simp only [Function.update_self]
    split_ifs with hempty
    · simp
    · intro heq
      rw [Option.some.inj heq] at hempty
      exact hempty rfl
  · simp only [Function.update_of_ne hid]
    exact h id'

theorem Server.Sound.advance (h : w.Sound) {a : StatusChannel.Action}
    (hadvance : w.advance k a = some w') (hread : ∀ current, a ≠ .read current)
    (hregister : a ≠ .register) (hleave : a ≠ .disconnect ∨ subscribed (w.connection k) = false)
    (hbroadcast : ∀ ev, a = .broadcast ev →
      ∀ watch, w.watches k = some watch → (watch.analysis, ev) ∈ w.begun) : w'.Sound := by
  obtain ⟨watch, connection, hwatch, hstep, rfl⟩ := advance_cases hadvance
  have hconnection : w.connection k = watch.connection := by
    rw [Server.connection, hwatch]
    rfl
  rw [hconnection] at hleave
  have hsound : Watch.Sound w { watch with connection } :=
    (h.watch k watch hwatch).step hstep hread fun ev hev => hbroadcast ev hev watch hwatch
  exact h.setWatch hwatch rfl (subscribed_step hstep hregister hleave) hsound

theorem Server.Sound.register (h : w.Sound) (hwatch : w.watches k = some watch)
    (hlock : w.sending = []) {v : Server} (hadvance : w.advance k .register = some v) :
    (v.register watch.analysis k).Sound := by
  obtain ⟨watch', connection, hwatch', hstep, rfl⟩ := advance_cases hadvance
  obtain rfl : watch = watch' := Option.some.inj (hwatch.symm.trans hwatch')
  have hbefore : subscribed watch.connection = false ∧ subscribed connection = true := by
    cases hconnection : watch.connection <;> rw [hconnection] at hstep <;> cases hstep
    exact ⟨rfl, rfl⟩
  have hsound := (h.watch k watch hwatch).step hstep (by simp) (by simp)
  refine ⟨fun k' v hv => ?_, fun id k' => ?_, fun id => ?_, kept_register h.kept _, ?_⟩
  · change (w.setWatch k _).watches k' = some v at hv
    rw [watches_setWatch] at hv
    split_ifs at hv with hk
    · cases hv
      exact hsound.mono (List.Subset.refl _)
    · exact (h.watch k' v hv).mono (List.Subset.refl _)
  · rw [watching_register]
    show _ ↔ ∃ v, (w.setWatch k { watch with connection }).watches k' = some v ∧ _
    rw [watches_setWatch]
    have hold := h.clients id k'
    by_cases hk : k' = k
    · subst hk
      rw [hwatch] at hold
      by_cases hid : id = watch.analysis
      · subst hid
        simp [hbefore.2]
      · have hother : watch.analysis ≠ id := Ne.symm hid
        rw [if_neg hid, if_pos rfl]
        show k' ∈ w.watching id ↔ _
        simp [hold, hother]
    · rw [if_neg hk, ← hold]
      by_cases hid : id = watch.analysis
      · subst hid
        rw [if_pos rfl, List.mem_insert_iff]
        exact or_iff_right hk
      · rw [if_neg hid]
        rfl
  · rw [watching_register]
    split_ifs with hid
    · exact (h.nodup _).insert
    · exact h.nodup id
  · intro left hleft
    change left ∈ w.sending at hleft
    rw [hlock] at hleft
    cases hleft

theorem Server.Sound.unregister (h : w.Sound) (hwatch : w.watches k = some watch)
    (hlock : w.sending = []) {v : Server} (hadvance : w.advance k .disconnect = some v) :
    (v.unregister watch.analysis k).Sound := by
  obtain ⟨watch', connection, hwatch', hstep, rfl⟩ := advance_cases hadvance
  obtain rfl : watch = watch' := Option.some.inj (hwatch.symm.trans hwatch')
  have hsound := (h.watch k watch hwatch).step hstep (by simp) (by simp)
  cases hstep
  refine ⟨fun k' v hv => ?_, fun id k' => ?_, fun id => ?_, kept_unregister h.kept _, ?_⟩
  · change (w.setWatch k _).watches k' = some v at hv
    rw [watches_setWatch] at hv
    split_ifs at hv with hk
    · cases hv
      exact hsound.mono (List.Subset.refl _)
    · exact (h.watch k' v hv).mono (List.Subset.refl _)
  · rw [watching_unregister]
    show _ ↔ ∃ v, (w.setWatch k { watch with connection := .closed }).watches k' = some v ∧ _
    rw [watches_setWatch]
    have hold := h.clients id k'
    by_cases hk : k' = k
    · subst hk
      rw [hwatch] at hold
      rw [if_pos rfl]
      have hclosed : ¬ ∃ v, some { watch with connection := .closed } = some v ∧ v.analysis = id ∧
          subscribed v.connection = true := by
        rintro ⟨v, hv, -, hsub⟩
        cases hv
        cases hsub
      refine iff_of_false ?_ hclosed
      split_ifs with hid
      · exact (h.nodup _).not_mem_erase
      · show k' ∉ w.watching id
        rw [hold]
        rintro ⟨v, hv, hanalysis, -⟩
        cases hv
        exact hid hanalysis.symm
    · rw [if_neg hk, ← hold]
      by_cases hid : id = watch.analysis
      · subst hid
        rw [if_pos rfl]
        exact List.mem_erase_of_ne hk
      · rw [if_neg hid]
        rfl
  · rw [watching_unregister]
    split_ifs with hid
    · exact (h.nodup _).erase _
    · exact h.nodup id
  · intro left hleft
    change left ∈ w.sending at hleft
    rw [hlock] at hleft
    cases hleft

theorem mem_sends {events : List (AnalysisId × Event)} {p : ConnId × Event}
    (h : p ∈ w.sends events) : ∃ id, (id, p.2) ∈ events ∧ p.1 ∈ w.watching id := by
  obtain ⟨q, hq, hp⟩ := List.mem_flatMap.mp h
  obtain ⟨k, hk, rfl⟩ := List.mem_map.mp hp
  exact ⟨q.1, hq, hk⟩

/-- What is left to send only shrinks. -/
theorem Server.Sound.less (h : w.Sound) {sending : List (List (ConnId × Event))}
    (hsub : ∀ left ∈ sending, ∀ p ∈ left, ∃ left' ∈ w.sending, p ∈ left') :
    Server.Sound { w with sending } where
  watch k watch hwatch := (h.watch k watch hwatch).mono (List.Subset.refl _)
  clients := h.clients
  nodup := h.nodup
  kept := h.kept
  sending left hleft p hp := by
    obtain ⟨left', hleft', hp'⟩ := hsub left hleft p hp
    exact h.sending left' hleft' p hp'

/-- One that comes is not subscribed to anything. -/
theorem Server.Sound.connect (h : w.Sound) (hnew : w.watches k = none) (analysis : AnalysisId)
    (user : UserId) : (w.setWatch k { analysis, user }).Sound := by
  refine ⟨fun k' v hv => ?_, fun id k' => ?_, h.nodup, h.kept, fun left hleft p hp => ?_⟩
  · rw [watches_setWatch] at hv
    split_ifs at hv
    · cases hv
      exact ⟨by simp, by simp [pendingRow], by simp [subscribed], by simp [held]⟩
    · exact (h.watch k' v hv).mono (List.Subset.refl _)
  · show k' ∈ w.watching id ↔ _
    rw [h.clients, watches_setWatch]
    by_cases hk : k' = k
    · subst hk
      rw [if_pos rfl, hnew]
      simp [subscribed]
    · rw [if_neg hk]
  · obtain ⟨v, hv, hsending⟩ := h.sending left hleft p hp
    have hk : p.1 ≠ k := by
      intro heq
      rw [heq, hnew] at hv
      cases hv
    rw [watches_setWatch, if_neg hk]
    exact ⟨v, hv, hsending⟩

/-- What a broadcast is to send goes to those that are subscribed. -/
theorem Server.Sound.broadcast (h : w.Sound) (events : List (AnalysisId × Event)) :
    Server.Sound
      { w with sending := w.sending ++ [w.sends events], begun := w.begun ++ events } := by
  have hbegun : w.begun ⊆ w.begun ++ events := List.subset_append_left _ _
  refine ⟨fun k watch hwatch => (h.watch k watch hwatch).mono hbegun, h.clients, h.nodup, h.kept,
    fun left hleft p hp => ?_⟩
  rcases List.mem_append.mp hleft with hleft | hleft
  · obtain ⟨watch, hwatch, hsub, hmem⟩ := h.sending left hleft p hp
    exact ⟨watch, hwatch, hsub, hbegun hmem⟩
  · obtain rfl := List.mem_singleton.mp hleft
    obtain ⟨id, hevent, hk⟩ := mem_sends hp
    obtain ⟨watch, hwatch, rfl, hsub⟩ := (h.clients id p.1).mp hk
    exact ⟨watch, hwatch, hsub, List.mem_append_right _ hevent⟩

/-- What is sent was to be sent. -/
theorem Server.Sound.send (h : w.Sound) {i j : ℕ} {left : List (ConnId × Event)} {ev : Event}
    (hleft : w.sending[i]? = some left) (hnext : left[j]? = some (k, ev)) {v : Server}
    (hadvance : w.advance k (.broadcast ev) = some v) :
    Server.Sound { v with sending := v.sending.set i (left.eraseIdx j) } := by
  have hmem : left ∈ w.sending := List.mem_of_getElem? hleft
  obtain ⟨watch, hwatch, -, hbegun⟩ := h.sending left hmem (k, ev) (List.mem_of_getElem? hnext)
  have hsound : v.Sound := by
    refine h.advance hadvance (by simp) (by simp) (by simp) fun ev' hev watch' hwatch' => ?_
    obtain rfl : watch = watch' := Option.some.inj (hwatch.symm.trans hwatch')
    cases hev
    exact hbegun
  refine hsound.less fun left' hleft' p hp => ?_
  rw [advance_sending hadvance] at hleft' ⊢
  rcases List.mem_or_eq_of_mem_set hleft' with hleft' | rfl
  · exact ⟨left', hleft', hp⟩
  · exact ⟨left, hmem, List.mem_of_mem_eraseIdx hp⟩

/-- **Every step keeps the server sound.** -/
theorem Server.Sound.step {a : Action} (h : w.Sound) (hstep : step w a = some w') : w'.Sound := by
  cases a with
  | connect k analysis user =>
    obtain ⟨hnew, rfl⟩ := connect_cases hstep
    exact h.connect hnew analysis user
  | read k current =>
    obtain ⟨watch, connection, hwatch, hrow, hconnection, rfl⟩ := read_cases hstep
    obtain ⟨hbefore, rfl⟩ := step_read hconnection
    refine h.setWatch hwatch rfl (by rw [hbefore]; rfl) ⟨fun current' hcurrent => ?_,
      fun current' hcurrent => hcurrent, by simp, by simp [held]⟩
    cases hcurrent
    exact hrow
  | register k =>
    obtain ⟨watch, v, hwatch, hlock, hv, rfl⟩ := register_cases hstep
    exact h.register hwatch hlock hv
  | snapshot k => exact h.advance hstep (by simp) (by simp) (by simp) (by simp)
  | take k => exact h.advance hstep (by simp) (by simp) (by simp) (by simp)
  | write k => exact h.advance hstep (by simp) (by simp) (by simp) (by simp)
  | leave k =>
    rcases leave_cases hstep with ⟨watch, v, hwatch, hlock, hv, rfl⟩ | ⟨hout, hv⟩
    · exact h.unregister hwatch hlock hv
    · exact h.advance hv (by simp) (by simp) (Or.inr hout) (by simp)
  | broadcast events =>
    cases hstep
    exact h.broadcast events
  | send i j =>
    obtain ⟨left, k, ev, v, hleft, hnext, hv, rfl⟩ := send_cases hstep
    exact h.send hleft hnext hv
  | finish i =>
    obtain ⟨-, rfl⟩ := finish_cases hstep
    exact h.less fun left hleft p hp => ⟨left, List.mem_of_mem_eraseIdx hleft, hp⟩

end Steps

theorem sound_of_run {w : Server} {as : List Action} (hrun : exec step {} as = some w) : w.Sound :=
  invariant_all Server.Sound (fun _ _ _ h hstep => h.step hstep) Server.Sound.empty hrun

/-! ## How often a broadcast is sent -/

/-- How often broadcasts under way are still to send this event to this connection. -/
def unsent (k : ConnId) (ev : Event) (w : Server) : ℕ :=
  (w.sending.map fun left => left.count (k, ev)).sum

/-- How often a step begins to broadcast this event of the analysis a connection is subscribed
to. -/
def begins (k : ConnId) (ev : Event) (w : Server) : Action → ℕ
  | .broadcast events =>
      match w.watches k with
      | some watch => if subscribed watch.connection then events.count (watch.analysis, ev) else 0
      | none => 0
  | _ => 0

/-- How often a step sends this event to this connection. -/
def sends (k : ConnId) (ev : Event) (w : Server) (a : Action) : ℕ :=
  (actionsOf k w a).countP fun b => b = .broadcast ev

theorem sum_map_set {α : Type} (f : α → ℕ) {l : List α} {i : ℕ} {a : α} (h : l[i]? = some a)
    (b : α) : ((l.set i b).map f).sum + f a = (l.map f).sum + f b := by
  induction l generalizing i with
  | nil => cases h
  | cons c l ih =>
    cases i with
    | zero =>
      obtain rfl : c = a := by simpa using h
      simp only [List.set_cons_zero, List.map_cons, List.sum_cons]
      omega
    | succ i =>
      have hrest := ih (by simpa using h)
      simp only [List.set_cons_succ, List.map_cons, List.sum_cons]
      omega

theorem sum_map_eraseIdx {α : Type} (f : α → ℕ) {l : List α} {i : ℕ} {a : α} (h : l[i]? = some a) :
    ((l.eraseIdx i).map f).sum + f a = (l.map f).sum := by
  induction l generalizing i with
  | nil => cases h
  | cons c l ih =>
    cases i with
    | zero =>
      obtain rfl : c = a := by simpa using h
      simp only [List.eraseIdx_cons_zero, List.map_cons, List.sum_cons]
      omega
    | succ i =>
      have hrest := ih (by simpa using h)
      simp only [List.eraseIdx_cons_succ, List.map_cons, List.sum_cons]
      omega

theorem count_eraseIdx {α : Type} [BEq α] (x : α) {l : List α} {i : ℕ} {a : α}
    (h : l[i]? = some a) : (l.eraseIdx i).count x + (if a == x then 1 else 0) = l.count x := by
  induction l generalizing i with
  | nil => cases h
  | cons c l ih =>
    cases i with
    | zero =>
      obtain rfl : c = a := by simpa using h
      rw [List.eraseIdx_cons_zero, List.count_cons]
    | succ i =>
      have hrest := ih (by simpa using h)
      rw [List.eraseIdx_cons_succ, List.count_cons, List.count_cons]
      omega

/-- A broadcast has each of its events to send once to each connection that is subscribed. -/
theorem count_sends {w : Server} (hsound : w.Sound) (k : ConnId) (ev : Event)
    (events : List (AnalysisId × Event)) :
    (w.sends events).count (k, ev) = begins k ev w (.broadcast events) := by
  have hone : ∀ p : AnalysisId × Event, ((w.watching p.1).map fun k' => (k', p.2)).count (k, ev) =
      if p.2 = ev ∧ k ∈ w.watching p.1 then 1 else 0 := by
    rintro ⟨id, ev'⟩
    by_cases hev : ev' = ev
    · subst hev
      have hinjective : Function.Injective fun k' : ConnId => (k', ev') :=
        fun _ _ h => (Prod.mk.inj h).1
      have hcount : ((w.watching id).map fun k' => (k', ev')).count (k, ev') =
          (w.watching id).count k := List.count_map_of_injective _ _ hinjective k
      rw [hcount]
      by_cases hk : k ∈ w.watching id
      · rw [if_pos ⟨rfl, hk⟩, List.count_eq_one_of_mem (hsound.nodup id) hk]
      · rw [if_neg (fun h => hk h.2), List.count_eq_zero_of_not_mem hk]
    · rw [if_neg (fun h => hev h.1)]
      apply List.count_eq_zero_of_not_mem
      intro hmem
      obtain ⟨k', -, heq⟩ := List.mem_map.mp hmem
      exact hev (Prod.mk.inj heq).2
  induction events with
  | nil => cases hwatch : w.watches k <;> simp [Server.sends, begins, hwatch]
  | cons p events ih =>
    have hsplit : w.sends (p :: events) =
        (w.watching p.1).map (fun k' => (k', p.2)) ++ w.sends events := List.flatMap_cons
    rw [hsplit, List.count_append, hone, ih]
    have hclients := hsound.clients p.1 k
    unfold begins
    cases hwatch : w.watches k with
    | none =>
      have hk : k ∉ w.watching p.1 := by simp [hclients, hwatch]
      simp [hk]
    | some watch =>
      rw [hwatch] at hclients
      by_cases hsub : subscribed watch.connection = true
      · have hiff : (p.2 = ev ∧ k ∈ w.watching p.1) ↔ p = (watch.analysis, ev) := by
          rw [hclients]
          constructor
          · rintro ⟨hev, v, hv, hanalysis, -⟩
            cases hv
            exact Prod.ext hanalysis.symm hev
          · rintro rfl
            exact ⟨rfl, watch, rfl, rfl, hsub⟩
        simp only [hsub, if_true, List.count_cons, hiff, beq_iff_eq]
        omega
      · have hk : k ∉ w.watching p.1 := by
          rw [hclients]
          rintro ⟨v, hv, -, hsub'⟩
          cases hv
          exact hsub hsub'
        simp [hk, hsub]

/-- Only a broadcast that begins, sends or returns changes what is under way. -/
theorem step_sending {w w' : Server} {a : Action} (h : step w a = some w')
    (hbroadcast : ∀ events, a ≠ .broadcast events) (hsend : ∀ i j, a ≠ .send i j)
    (hfinish : ∀ i, a ≠ .finish i) : w'.sending = w.sending := by
  cases a with
  | connect k analysis user =>
    obtain ⟨-, rfl⟩ := connect_cases h
    rfl
  | read k current =>
    obtain ⟨watch, connection, -, -, -, rfl⟩ := read_cases h
    rfl
  | register k =>
    obtain ⟨watch, v, -, -, hv, rfl⟩ := register_cases h
    have hkept := advance_sending hv
    exact hkept
  | snapshot k => exact advance_sending h
  | take k => exact advance_sending h
  | write k => exact advance_sending h
  | leave k =>
    rcases leave_cases h with ⟨watch, v, -, -, hv, rfl⟩ | ⟨-, hv⟩
    · have hkept := advance_sending hv
      exact hkept
    · exact advance_sending hv
  | broadcast events => exact absurd rfl (hbroadcast events)
  | send i j => exact absurd rfl (hsend i j)
  | finish i => exact absurd rfl (hfinish i)

theorem begins_eq_zero {w : Server} {a : Action} (k : ConnId) (ev : Event)
    (h : ∀ events, a ≠ .broadcast events) : begins k ev w a = 0 := by
  cases a with
  | broadcast events => exact absurd rfl (h events)
  | _ => rfl

theorem sends_eq_zero {w : Server} {a : Action} (k : ConnId) (ev : Event)
    (h : ∀ i j, a ≠ .send i j) : sends k ev w a = 0 := by
  cases a with
  | send i j => exact absurd rfl (h i j)
  | _ =>
    simp only [sends, actionsOf]
    first
      | rfl
      | split_ifs <;> simp

/-- **What a step begins to send is sent by it, later, or not yet.** -/
theorem step_unsent {w w' : Server} (hsound : w.Sound) (k : ConnId) (ev : Event) {a : Action}
    (h : step w a = some w') :
    unsent k ev w + begins k ev w a = unsent k ev w' + sends k ev w a := by
  cases a with
  | broadcast events =>
    cases h
    have hcount := count_sends hsound k ev events
    have hnone : sends k ev w (.broadcast events) = 0 := rfl
    rw [hnone, ← hcount]
    simp [unsent]
  | send i j =>
    obtain ⟨left, k', ev', v, hleft, hnext, hv, rfl⟩ := send_cases h
    have hone : sends k ev w (.send i j) = if ((k', ev') == (k, ev)) = true then 1 else 0 := by
      unfold sends
      rw [actionsOf, hleft, Option.bind_some, hnext]
      by_cases hk : k' = k
      · simp [hk, List.countP_cons]
      · simp [hk]
    have herase := count_eraseIdx (k, ev) hnext
    have hset : unsent k ev { v with sending := v.sending.set i (left.eraseIdx j) } +
        left.count (k, ev) = unsent k ev w + (left.eraseIdx j).count (k, ev) := by
      rw [advance_sending hv]
      exact sum_map_set (fun left => left.count (k, ev)) hleft (left.eraseIdx j)
    have hbegins : begins k ev w (.send i j) = 0 := rfl
    omega
  | finish i =>
    obtain ⟨hdone, rfl⟩ := finish_cases h
    exact (sum_map_eraseIdx (fun left => left.count (k, ev)) hdone).symm
  | _ =>
    have hsame := step_sending h (by simp) (by simp) (by simp)
    rw [begins_eq_zero k ev (by simp), sends_eq_zero k ev (by simp)]
    unfold unsent
    rw [hsame]

/-- **A broadcast is sent once to each connection that watches its analysis when it begins**, and
to no other: what a connection has been sent of an event, with what is still under way, is how
often the event was broadcast while the connection was subscribed. -/
theorem broadcast_sentOnce (k : ConnId) (ev : Event) {w : Server} {as : List Action}
    (hrun : exec step {} as = some w) :
    (projected step (actionsOf k) {} as).countP (fun b => b = .broadcast ev) + unsent k ev w =
      total step (begins k ev) {} as := by
  have hbalance : unsent k ev {} + total step (begins k ev) {} as =
      unsent k ev w + total step (sends k ev) {} as :=
    total_balance_of_invariant Server.Sound (unsent k ev) (fun _ _ _ h hstep => h.step hstep)
      (fun _ _ _ h hstep => step_unsent h k ev hstep) Server.Sound.empty hrun
  have hcount : (projected step (actionsOf k) {} as).countP (fun b => b = .broadcast ev) =
      total step (sends k ev) {} as := countP_projected _ _ _
  have hstart : unsent k ev {} = 0 := rfl
  omega

theorem broadcast_sentOnce_twoTabs : ∃ w, exec step {} twoTabs = some w ∧
    (projected step (actionsOf 0) {} twoTabs).countP (fun b => b = .broadcast (.stage "pitch" 2 9)) +
      unsent 0 (.stage "pitch" 2 9) w = 1 := by
  obtain ⟨w, hrun⟩ := Option.isSome_iff_exists.mp
    (show (exec step {} twoTabs).isSome = true by decide +kernel)
  refine ⟨w, hrun, (broadcast_sentOnce 0 _ hrun).trans ?_⟩
  decide +kernel

/-- **A connection receives events of the analysis it asked for and of no other**: each is the
snapshot of the row it read or was broadcast for that analysis, and the row belongs to the user
of its token. -/
theorem received_owned {w : Server} {as : List Action} (hrun : exec step {} as = some w)
    {k : ConnId} {watch : Watch} (hwatch : w.watches k = some watch) {ev : Event}
    (hev : ev ∈ held watch.connection) :
    ∃ row, watch.row = some row ∧ row.id = watch.analysis ∧ row.userId = watch.user ∧
      ((watch.analysis, ev) ∈ w.begun ∨ StatusChannel.snapshot row = some ev) := by
  have hsound := (sound_of_run hrun).watch k watch hwatch
  have hsubscribed : subscribed watch.connection = true := by
    cases hconnection : watch.connection with
    | registered current c => rfl
    | running c => rfl
    | _ =>
      rw [hconnection] at hev
      cases hev
  obtain ⟨row, hrow⟩ := Option.isSome_iff_exists.mp (hsound.owned hsubscribed)
  obtain ⟨hid, huser⟩ := hsound.row row hrow
  have hconcerns := hsound.concerns ev hev
  rw [Concerns, hrow, Option.bind_some] at hconcerns
  exact ⟨row, hrow, hid, huser, hconcerns⟩

theorem received_owned_twoTabs : ∃ w watch row, exec step {} twoTabs = some w ∧
    w.watches 0 = some watch ∧ .stage "separate" 1 9 ∈ held watch.connection ∧
      watch.row = some row ∧ row.userId = watch.user := by
  obtain ⟨w, hrun⟩ := Option.isSome_iff_exists.mp
    (show (exec step {} twoTabs).isSome = true by decide +kernel)
  have hheld : ((exec step {} twoTabs).bind fun w => w.watches 0).any
      (fun watch => .stage "separate" 1 9 ∈ held watch.connection) = true := by decide +kernel
  rw [hrun, Option.bind_some] at hheld
  obtain ⟨watch, hwatch, hev⟩ := (Option.any_eq_true ..).mp hheld
  obtain ⟨row, hrow, -, huser, -⟩ := received_owned hrun hwatch (of_decide_eq_true hev)
  exact ⟨w, watch, row, hrun, hwatch, of_decide_eq_true hev, hrow, huser⟩

/-- **The hub keeps an analysis exactly as long as someone watches it.** -/
theorem clients_isSome_iff {w : Server} {as : List Action} (hrun : exec step {} as = some w)
    (id : AnalysisId) : (w.clients id).isSome = true ↔
      ∃ k watch, w.watches k = some watch ∧ watch.analysis = id ∧
        subscribed watch.connection = true := by
  have hsound := sound_of_run hrun
  have hkept := hsound.kept id
  constructor
  · intro hsome
    obtain ⟨set, hset⟩ := Option.isSome_iff_exists.mp hsome
    have hne : set ≠ [] := fun hempty => hkept (hempty ▸ hset)
    obtain ⟨k, hk⟩ := List.exists_mem_of_ne_nil set hne
    have hmem : k ∈ w.watching id := by rwa [Server.watching, hset]
    exact ⟨k, (hsound.clients id k).mp hmem⟩
  · rintro ⟨k, hwatch⟩
    have hmem := (hsound.clients id k).mpr hwatch
    cases hset : w.clients id with
    | none =>
      rw [Server.watching, hset] at hmem
      cases hmem
    | some set => rfl

theorem clients_isSome_iff_twoTabs : ∃ w, exec step {} twoTabs = some w ∧
    ∃ k watch, w.watches k = some watch ∧ watch.analysis = 7 ∧
      subscribed watch.connection = true := by
  obtain ⟨w, hrun⟩ := Option.isSome_iff_exists.mp
    (show (exec step {} twoTabs).isSome = true by decide +kernel)
  have hkept : ((exec step {} twoTabs).bind fun w => w.clients 7).isSome = true := by
    decide +kernel
  rw [hrun, Option.bind_some] at hkept
  exact ⟨w, hrun, (clients_isSome_iff hrun 7).mp hkept⟩

end VocalCoach.Hub
