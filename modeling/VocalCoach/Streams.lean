/-
# A stream with one consumer group

A Redis stream and its consumer group, as `XADD`, `XDEL`, `XREADGROUP`, `XACK`,
`XPENDING`, `XCLAIM` and `XRANGE` see them: the messages in id order, the last id handed
out, the last id delivered to the group, and the pending entries list, which holds for
every delivered and unacknowledged id its consumer, the time and the number of its
deliveries.  Deleting a message leaves its row of the pending list behind; claiming such
a row drops it.

`fields` is the payload of a message, times are in seconds, consumers are numbers.
-/
import Mathlib.Data.Nat.Notation
import Mathlib.Data.List.Basic
import Mathlib.Data.List.Nodup

namespace RedisStream

/-- A message. -/
structure Entry (F : Type*) where
  id : ℕ
  fields : F
  deriving DecidableEq, Repr

/-- A row of the pending entries list. -/
structure Delivery where
  id : ℕ
  consumer : ℕ
  deliveredAt : ℕ
  timesDelivered : ℕ
  deriving DecidableEq, Repr

/-- How long ago an entry was delivered. -/
def Delivery.idle (now : ℕ) (d : Delivery) : ℕ := now - d.deliveredAt

structure Stream (F : Type*) where
  entries : List (Entry F) := []
  lastId : ℕ := 0
  lastDelivered : ℕ := 0
  pending : List Delivery := []
  deriving DecidableEq, Repr

namespace Stream

variable {F : Type*}

/-! ## Commands -/

def xadd (fields : F) (s : Stream F) : Stream F :=
  { s with entries := s.entries ++ [⟨s.lastId + 1, fields⟩], lastId := s.lastId + 1 }

def xlen (s : Stream F) : ℕ := s.entries.length

def xdel (id : ℕ) (s : Stream F) : Stream F :=
  { s with entries := s.entries.filter fun e => e.id ≠ id }

def xack (id : ℕ) (s : Stream F) : Stream F :=
  { s with pending := s.pending.filter fun d => d.id ≠ id }

/-- The messages no consumer of the group has been handed yet. -/
def undelivered (s : Stream F) : List (Entry F) :=
  s.entries.filter fun e => s.lastDelivered < e.id

/-- The messages `XREADGROUP ... COUNT count ... >` returns. -/
def newEntries (count : ℕ) (s : Stream F) : List (Entry F) := s.undelivered.take count

def xreadgroup (consumer now count : ℕ) (s : Stream F) : Stream F :=
  { s with
    pending := s.pending ++ (s.newEntries count).map fun e => ⟨e.id, consumer, now, 1⟩
    lastDelivered := ((s.newEntries count).getLast?.map Entry.id).getD s.lastDelivered }

/-- `XRANGE id id`. -/
def xrange (id : ℕ) (s : Stream F) : Option F :=
  (s.entries.find? fun e => e.id = id).map Entry.fields

/-- `XPENDING ... IDLE minIdle - + count [consumer]`. -/
def xpending (consumer : Option ℕ) (minIdle now count : ℕ) (s : Stream F) : List Delivery :=
  (s.pending.filter fun d =>
    minIdle ≤ d.idle now ∧ (consumer = none ∨ consumer = some d.consumer)).take count

/-- The row `XCLAIM` of one id takes over. -/
def claimable (minIdle now id : ℕ) (s : Stream F) : Option Delivery :=
  s.pending.find? fun d => d.id = id ∧ minIdle ≤ d.idle now

def xclaim (consumer minIdle now id : ℕ) (s : Stream F) : Stream F :=
  if (s.claimable minIdle now id).isNone then s
  else if (s.xrange id).isNone then s.xack id
  else { s with
    pending := s.pending.map fun d =>
      if d.id = id then ⟨id, consumer, now, d.timesDelivered + 1⟩ else d }

/-- The message `XCLAIM` of one id returns. -/
def xclaimed (minIdle now id : ℕ) (s : Stream F) : Option F :=
  if (s.claimable minIdle now id).isNone then none else s.xrange id

/-! ## Ordered streams -/

/-- Ids grow along the stream, and the group is handed them in that order. -/
structure Ordered (s : Stream F) : Prop where
  increasing : s.entries.Pairwise fun e f => e.id < f.id
  entries_le : ∀ e ∈ s.entries, e.id ≤ s.lastId
  delivered_le : s.lastDelivered ≤ s.lastId
  pending_le : ∀ d ∈ s.pending, d.id ≤ s.lastDelivered

variable {s : Stream F} {e f : Entry F} {id consumer now minIdle count : ℕ}

theorem Ordered.empty : Ordered ({} : Stream F) :=
  ⟨List.Pairwise.nil, by simp, Nat.le_refl _, by simp⟩

/-- The message of an id is unique. -/
theorem Ordered.eq_of_id (h : s.Ordered) (he : e ∈ s.entries) (hf : f ∈ s.entries)
    (hid : e.id = f.id) : e = f := by
  have hnodup : (s.entries.map Entry.id).Nodup :=
    List.pairwise_map.mpr (h.increasing.imp fun hlt => Nat.ne_of_lt hlt)
  exact List.inj_on_of_nodup_map hnodup he hf hid

/-- `XRANGE` finds a message that is there. -/
theorem mem_of_xrange {fields : F} (h : s.xrange id = some fields) : ⟨id, fields⟩ ∈ s.entries := by
  obtain ⟨e, he, rfl⟩ := Option.map_eq_some_iff.mp h
  have hid : e.id = id := by simpa using List.find?_some he
  rw [← hid]
  exact List.mem_of_find?_eq_some he

theorem xrange_isSome (he : e ∈ s.entries) : (s.xrange e.id).isSome := by
  simp only [xrange, Option.isSome_map, List.find?_isSome]
  exact ⟨e, he, by simp⟩

theorem ne_of_xrange (h : s.xrange id = none) (he : e ∈ s.entries) : e.id ≠ id := by
  rintro rfl
  have hthere := xrange_isSome he
  rw [h] at hthere
  cases hthere

/-- `XCLAIM` takes over a row of the pending list that has idled long enough. -/
theorem mem_of_claimable {d : Delivery} (h : s.claimable minIdle now id = some d) :
    d ∈ s.pending ∧ d.id = id ∧ minIdle ≤ d.idle now := by
  have hp := List.find?_some h
  simp only [decide_eq_true_eq] at hp
  exact ⟨List.mem_of_find?_eq_some h, hp⟩

theorem xclaimed_eq {d : Delivery} (h : s.claimable minIdle now id = some d) :
    s.xclaimed minIdle now id = s.xrange id := by
  simp [xclaimed, h]

theorem mem_undelivered : e ∈ s.undelivered ↔ e ∈ s.entries ∧ s.lastDelivered < e.id := by
  simp [undelivered]

theorem mem_of_newEntries (h : e ∈ s.newEntries count) :
    e ∈ s.entries ∧ s.lastDelivered < e.id :=
  mem_undelivered.mp (List.mem_of_mem_take h)

/-- Where `XREADGROUP` leaves the group: past what it hands out, before all the rest. -/
theorem Ordered.cursor (h : s.Ordered) (consumer now count : ℕ) :
    s.lastDelivered ≤ (s.xreadgroup consumer now count).lastDelivered ∧
      (s.xreadgroup consumer now count).lastDelivered ≤ s.lastId ∧
      (∀ e ∈ s.newEntries count, e.id ≤ (s.xreadgroup consumer now count).lastDelivered) ∧
      ∀ e ∈ s.undelivered, e ∉ s.newEntries count →
        (s.xreadgroup consumer now count).lastDelivered < e.id := by
  have hsorted : s.undelivered.Pairwise fun e f => e.id < f.id := h.increasing.filter _
  have hsplit : s.undelivered = s.newEntries count ++ s.undelivered.drop count :=
    (List.take_append_drop count _).symm
  simp only [xreadgroup]
  cases hlast : (s.newEntries count).getLast? with
  | none =>
    rw [List.getLast?_eq_none_iff] at hlast
    refine ⟨Nat.le_refl _, h.delivered_le, by simp [hlast], fun e he _ => ?_⟩
    exact (mem_undelivered.mp he).2
  | some l =>
    obtain ⟨front, hfront⟩ := List.getLast?_eq_some_iff.mp hlast
    have hl : l ∈ s.newEntries count := by simp [hfront]
    obtain ⟨hlin, hllt⟩ := mem_of_newEntries hl
    refine ⟨Nat.le_of_lt hllt, h.entries_le l hlin, fun e he => ?_, fun e he hnot => ?_⟩
    · have hnew : (s.newEntries count).Pairwise fun e f => e.id < f.id :=
        hsorted.sublist (List.take_sublist _ _)
      rw [hfront] at he hnew
      rcases List.mem_append.mp he with he | he
      · exact Nat.le_of_lt ((List.pairwise_append.mp hnew).2.2 e he l (by simp))
      · rw [List.mem_singleton.mp he]
        exact Nat.le_refl _
    · rw [hsplit] at he hsorted
      rcases List.mem_append.mp he with he | he
      · exact absurd he hnot
      · exact (List.pairwise_append.mp hsorted).2.2 l hl e he

theorem Ordered.xadd (h : s.Ordered) (fields : F) : (s.xadd fields).Ordered := by
  refine ⟨?_, ?_, Nat.le_succ_of_le h.delivered_le, h.pending_le⟩
  · refine List.pairwise_append.mpr ⟨h.increasing, List.pairwise_singleton _ _, ?_⟩
    intro e he f hf
    rw [List.mem_singleton.mp hf]
    exact Nat.lt_succ_of_le (h.entries_le e he)
  · intro e he
    rcases List.mem_append.mp he with he | he
    · exact Nat.le_succ_of_le (h.entries_le e he)
    · rw [List.mem_singleton.mp he]
      exact Nat.le_refl _

theorem Ordered.xdel (h : s.Ordered) (id : ℕ) : (s.xdel id).Ordered :=
  ⟨h.increasing.filter _, fun e he => h.entries_le e (List.mem_of_mem_filter he), h.delivered_le,
    h.pending_le⟩

theorem Ordered.xack (h : s.Ordered) (id : ℕ) : (s.xack id).Ordered :=
  ⟨h.increasing, h.entries_le, h.delivered_le,
    fun d hd => h.pending_le d (List.mem_of_mem_filter hd)⟩

theorem Ordered.xreadgroup (h : s.Ordered) (consumer now count : ℕ) :
    (s.xreadgroup consumer now count).Ordered := by
  obtain ⟨hle, hlast, hnew, -⟩ := h.cursor consumer now count
  refine ⟨h.increasing, h.entries_le, hlast, fun d hd => ?_⟩
  rcases List.mem_append.mp hd with hd | hd
  · exact Nat.le_trans (h.pending_le d hd) hle
  · obtain ⟨e, he, rfl⟩ := List.mem_map.mp hd
    exact hnew e he

/-- A row of the pending list keeps its id over `XCLAIM`, or is dropped. -/
theorem exists_of_mem_xclaim {d : Delivery} (hd : d ∈ (s.xclaim consumer minIdle now id).pending) :
    ∃ d₀ ∈ s.pending, d₀.id = d.id := by
  unfold xclaim at hd
  split_ifs at hd
  · exact ⟨d, hd, rfl⟩
  · exact ⟨d, List.mem_of_mem_filter hd, rfl⟩
  · obtain ⟨d₀, hd₀, rfl⟩ := List.mem_map.mp hd
    refine ⟨d₀, hd₀, ?_⟩
    split_ifs with hid
    · exact hid
    · rfl

theorem xclaim_entries (s : Stream F) (consumer minIdle now id : ℕ) :
    (s.xclaim consumer minIdle now id).entries = s.entries ∧
    (s.xclaim consumer minIdle now id).lastId = s.lastId ∧
    (s.xclaim consumer minIdle now id).lastDelivered = s.lastDelivered := by
  unfold xclaim
  split_ifs <;> exact ⟨rfl, rfl, rfl⟩

theorem Ordered.xclaim (h : s.Ordered) (consumer minIdle now id : ℕ) :
    (s.xclaim consumer minIdle now id).Ordered := by
  obtain ⟨hentries, hlast, hdelivered⟩ :=
    xclaim_entries s consumer minIdle now id
  refine ⟨hentries ▸ h.increasing, ?_, ?_, fun d hd => ?_⟩
  · rw [hentries, hlast]
    exact h.entries_le
  · rw [hlast, hdelivered]
    exact h.delivered_le
  · obtain ⟨d₀, hd₀, hid⟩ := exists_of_mem_xclaim hd
    rw [hdelivered, ← hid]
    exact h.pending_le d₀ hd₀

/-- `XPENDING` lists every row if all have idled long enough and they fit. -/
theorem xpending_all (h : ∀ d ∈ s.pending, minIdle ≤ d.idle now) (hlen : s.pending.length ≤ count) :
    s.xpending none minIdle now count = s.pending := by
  have hall : (s.pending.filter fun d =>
      minIdle ≤ d.idle now ∧ ((none : Option ℕ) = none ∨ none = some d.consumer)) = s.pending :=
    List.filter_eq_self.mpr fun d hd => decide_eq_true ⟨h d hd, Or.inl rfl⟩
  unfold xpending
  rw [hall, List.take_of_length_le hlen]

/-! ## Sorted pending lists -/

/-- The pending list holds each id once, in id order. -/
def SortedPending (s : Stream F) : Prop := s.pending.Pairwise fun d e => d.id < e.id

theorem SortedPending.empty : SortedPending ({} : Stream F) := List.Pairwise.nil

/-- The row of an id is unique. -/
theorem SortedPending.eq_of_id {d d' : Delivery} (h : s.SortedPending) (hd : d ∈ s.pending)
    (hd' : d' ∈ s.pending) (hid : d.id = d'.id) : d = d' := by
  have hnodup : (s.pending.map Delivery.id).Nodup :=
    List.pairwise_map.mpr (List.Pairwise.imp (fun hlt => Nat.ne_of_lt hlt) h)
  exact List.inj_on_of_nodup_map hnodup hd hd' hid

theorem SortedPending.xack (h : s.SortedPending) (id : ℕ) : (s.xack id).SortedPending :=
  List.Pairwise.filter _ h

theorem SortedPending.xreadgroup (h : s.SortedPending) (hs : s.Ordered) (consumer now count : ℕ) :
    (s.xreadgroup consumer now count).SortedPending := by
  have hsorted : s.undelivered.Pairwise fun e f => e.id < f.id := hs.increasing.filter _
  have hnew : (s.newEntries count).Pairwise fun e f => e.id < f.id :=
    hsorted.sublist (List.take_sublist _ _)
  refine List.pairwise_append.mpr ⟨h, List.pairwise_map.mpr hnew, fun d hd e he => ?_⟩
  obtain ⟨x, hx, rfl⟩ := List.mem_map.mp he
  exact Nat.lt_of_le_of_lt (hs.pending_le d hd) (mem_of_newEntries hx).2

theorem SortedPending.xclaim (h : s.SortedPending) (consumer minIdle now id : ℕ) :
    (s.xclaim consumer minIdle now id).SortedPending := by
  unfold Stream.xclaim
  split_ifs
  · exact h
  · exact h.xack id
  · refine List.pairwise_map.mpr (List.Pairwise.imp (fun {d e} hlt => ?_) h)
    have hid : ∀ d : Delivery,
        (if d.id = id then (⟨id, consumer, now, d.timesDelivered + 1⟩ : Delivery) else d).id = d.id := by
      intro d
      split_ifs with heq
      · exact heq.symm
      · rfl
    rwa [hid, hid]

/-! ## Pending messages -/

/-- The message is handed out and not acknowledged. -/
def Pending (s : Stream F) (id : ℕ) : Prop := ∃ d ∈ s.pending, d.id = id

instance (s : Stream F) (id : ℕ) : Decidable (s.Pending id) :=
  inferInstanceAs (Decidable (∃ d ∈ s.pending, _))

theorem Pending.xack {i : ℕ} (h : s.Pending i) (hid : i ≠ id) : (s.xack id).Pending i := by
  obtain ⟨d, hd, rfl⟩ := h
  exact ⟨d, List.mem_filter.mpr ⟨hd, decide_eq_true hid⟩, rfl⟩

theorem Pending.xreadgroup {i : ℕ} (h : s.Pending i) (consumer now count : ℕ) :
    (s.xreadgroup consumer now count).Pending i := by
  obtain ⟨d, hd, hi⟩ := h
  exact ⟨d, List.mem_append_left _ hd, hi⟩

/-- A message that is read is pending. -/
theorem pending_of_newEntries (h : e ∈ s.newEntries count) (consumer now : ℕ) :
    (s.xreadgroup consumer now count).Pending e.id :=
  ⟨⟨e.id, consumer, now, 1⟩, List.mem_append_right _ (List.mem_map.mpr ⟨e, h, rfl⟩), rfl⟩

/-- Claiming drops no row whose message is there. -/
theorem Pending.xclaim {i : ℕ} (h : s.Pending i) (hthere : i = id → (s.xrange id).isSome)
    (consumer minIdle now : ℕ) : (s.xclaim consumer minIdle now id).Pending i := by
  unfold Stream.xclaim
  split_ifs with hnone hgone
  · exact h
  · refine h.xack fun hid => ?_
    rw [Option.isNone_iff_eq_none] at hgone
    have hsome := hthere hid
    rw [hgone] at hsome
    cases hsome
  · obtain ⟨d, hd, rfl⟩ := h
    refine ⟨_, List.mem_map.mpr ⟨d, hd, rfl⟩, ?_⟩
    split_ifs with hid
    · exact hid.symm
    · rfl

/-! ## Outstanding messages -/

/-- A message the group has not acknowledged: still to be handed out, or pending. -/
def Outstanding (s : Stream F) (e : Entry F) : Prop :=
  e ∈ s.entries ∧ (s.lastDelivered < e.id ∨ ∃ d ∈ s.pending, d.id = e.id)

instance [DecidableEq F] (s : Stream F) (e : Entry F) : Decidable (s.Outstanding e) :=
  inferInstanceAs (Decidable (_ ∧ (_ ∨ ∃ d ∈ s.pending, _)))

theorem Outstanding.xadd (h : s.Outstanding e) (fields : F) : (s.xadd fields).Outstanding e :=
  ⟨List.mem_append_left _ h.1, h.2⟩

theorem Outstanding.xdel (h : s.Outstanding e) (hid : e.id ≠ id) : (s.xdel id).Outstanding e :=
  ⟨List.mem_filter.mpr ⟨h.1, by simpa using hid⟩, h.2⟩

theorem Outstanding.xack (h : s.Outstanding e) (hid : e.id ≠ id) : (s.xack id).Outstanding e := by
  refine ⟨h.1, h.2.imp_right ?_⟩
  rintro ⟨d, hd, hde⟩
  exact ⟨d, List.mem_filter.mpr ⟨hd, by simpa [hde] using hid⟩, hde⟩

/-- Reading moves a message from one place to the other. -/
theorem Outstanding.xreadgroup (hs : s.Ordered) (h : s.Outstanding e) (consumer now count : ℕ) :
    (s.xreadgroup consumer now count).Outstanding e := by
  refine ⟨h.1, ?_⟩
  rcases h.2 with hlt | ⟨d, hd, hde⟩
  · by_cases hnew : e ∈ s.newEntries count
    · exact Or.inr ⟨⟨e.id, consumer, now, 1⟩,
        List.mem_append_right _ (List.mem_map.mpr ⟨e, hnew, rfl⟩), rfl⟩
    · exact Or.inl ((hs.cursor consumer now count).2.2.2 e (mem_undelivered.mpr ⟨h.1, hlt⟩) hnew)
  · exact Or.inr ⟨d, List.mem_append_left _ hd, hde⟩

/-- Claiming drops no message that is there. -/
theorem Outstanding.xclaim (h : s.Outstanding e) (consumer minIdle now id : ℕ) :
    (s.xclaim consumer minIdle now id).Outstanding e := by
  unfold Stream.xclaim
  split_ifs with hnone hgone
  · exact h
  · refine h.xack ?_
    rintro rfl
    simp [Option.isSome_iff_ne_none.mp (xrange_isSome h.1)] at hgone
  · refine ⟨h.1, h.2.imp_right ?_⟩
    rintro ⟨d, hd, hde⟩
    refine ⟨_, List.mem_map.mpr ⟨d, hd, rfl⟩, ?_⟩
    split_ifs with hid
    · exact hid ▸ hde
    · exact hde

end Stream

end RedisStream
