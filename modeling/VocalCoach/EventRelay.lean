/-
# Status events from the worker to the browser

Three programs, each with its own idea of JSON, pass a status event on: the worker's
`RedisEventPublisher` prints it, the API's `relayOne` decodes it and calls the hub, the hub
prints its own `event`, and the page's `onmessage` reads that.

* `relayOne_eq_some_iff`: which payloads the relay passes on, and as what.
* `published_delivered`: what the worker publishes reaches the page as published; a text that
  is empty and a number that is 0 arrive as missing, but a position never does.

`uuid.Parse` and `String` are parameters: the relay needs that an id is read back from its text
and that the empty text is none.
-/
import VocalCoach.JsonPrint
import Mathlib.Algebra.Group.Int.Defs
import Mathlib.Data.List.Nodup

namespace VocalCoach.EventRelay

open JsonText

/-! ## The worker: `RedisEventPublisher` -/

/-- `_publish`: `json.dumps` of the payload. -/
def publish (payload : List (List Char × Json)) : List Char := ensureAscii.print (.obj payload)

/-- A call of `EventPublisher`, but for the analysis. -/
inductive WorkerCall
  | publishStage (name : List Char) (index total : ℤ)
  | publishDone
  | publishFailed (errorCode message : List Char)
  | publishQueued (position : ℤ)
  deriving DecidableEq, Repr

/-- The payload of a call. -/
def WorkerCall.payload (analysisId : List Char) : WorkerCall → List (List Char × Json)
  | .publishStage name index total =>
      [("analysis_id".toList, .str analysisId), ("type".toList, .str "stage".toList),
        ("name".toList, .str name), ("index".toList, .num (.ofInt index)),
        ("total".toList, .num (.ofInt total))]
  | .publishDone =>
      [("analysis_id".toList, .str analysisId), ("type".toList, .str "done".toList)]
  | .publishFailed errorCode message =>
      [("analysis_id".toList, .str analysisId), ("type".toList, .str "failed".toList),
        ("error_code".toList, .str errorCode), ("message".toList, .str message)]
  | .publishQueued position =>
      [("analysis_id".toList, .str analysisId), ("type".toList, .str "queued".toList),
        ("position".toList, .num (.ofInt position))]

/-! ## The relay: `json.Unmarshal` into `workerEvent` -/

/-- `workerEvent`. -/
structure WorkerEvent where
  analysisId : List Char := []
  type : List Char := []
  name : List Char := []
  index : ℤ := 0
  total : ℤ := 0
  position : ℤ := 0
  errorCode : List Char := []
  message : List Char := []
  deriving DecidableEq, Repr

/-- Its fields of type `string`. -/
inductive TextField
  | analysisId | type | name | errorCode | message
  deriving DecidableEq, Repr

/-- Its fields of type `int`. -/
inductive IntField
  | index | total | position
  deriving DecidableEq, Repr

/-- A field of either type. -/
inductive Field
  | text (f : TextField)
  | int (f : IntField)
  deriving DecidableEq, Repr

/-- The fields in their order, each with its tag. -/
def tags : List (List Char × Field) :=
  [("analysis_id".toList, .text .analysisId), ("type".toList, .text .type),
    ("name".toList, .text .name), ("index".toList, .int .index), ("total".toList, .int .total),
    ("position".toList, .int .position), ("error_code".toList, .text .errorCode),
    ("message".toList, .text .message)]

def WorkerEvent.text (e : WorkerEvent) : TextField → List Char
  | .analysisId => e.analysisId
  | .type => e.type
  | .name => e.name
  | .errorCode => e.errorCode
  | .message => e.message

def WorkerEvent.int (e : WorkerEvent) : IntField → ℤ
  | .index => e.index
  | .total => e.total
  | .position => e.position

def WorkerEvent.setText (e : WorkerEvent) (s : List Char) : TextField → WorkerEvent
  | .analysisId => { e with analysisId := s }
  | .type => { e with type := s }
  | .name => { e with name := s }
  | .errorCode => { e with errorCode := s }
  | .message => { e with message := s }

def WorkerEvent.setInt (e : WorkerEvent) (i : ℤ) : IntField → WorkerEvent
  | .index => { e with index := i }
  | .total => { e with total := i }
  | .position => { e with position := i }

/-- `foldRune`, as far as it matters against a tag: two characters outside ASCII fold to
letters inside. -/
def foldRune (c : Char) : Char :=
  if 'a' ≤ c ∧ c ≤ 'z' then Char.ofNat (c.toNat - 32)
  else if c = Char.ofNat 0x17F then 'S'
  else if c = Char.ofNat 0x212A then 'K'
  else c

/-- The field a key names: by its exact tag, else by a tag that differs in case. -/
def fieldOf (key : List Char) : Option Field :=
  match tags.lookup key with
  | some f => some f
  | none => (tags.find? fun p => p.1.map foldRune = key.map foldRune).map Prod.snd

/-- `strconv.ParseInt` in base 10, with 64 bits. -/
def parseInt64 (t : List Char) : Option ℤ :=
  (parseInt t).filter fun i => -2 ^ 63 ≤ i ∧ i < 2 ^ 63

/-- Store a value in a field.  `null` leaves it as it is. -/
def store (e : WorkerEvent) : Field → Json → Option WorkerEvent
  | .text f, .str s => some (e.setText s f)
  | .int f, .num n => (parseInt64 n.text).map fun i => e.setInt i f
  | _, .null => some e
  | _, _ => none

/-- Store a member; one that names no field is skipped. -/
def storeMember (e : WorkerEvent) (m : List Char × Json) : Option WorkerEvent :=
  match fieldOf m.1 with
  | none => some e
  | some f => store e f m.2

def maxNestingDepth : ℕ := 10000

/-- `json.Unmarshal`.  An error in one member is an error, whatever else is stored. -/
def unmarshal (payload : List Char) : Option WorkerEvent :=
  match parse payload with
  | none => none
  | some v =>
      if v.depth ≤ maxNestingDepth then
        match v with
        | .obj members => members.foldlM storeMember {}
        | .null => some {}
        | _ => none
      else none

/-- A call of `EventSink`. -/
inductive Broadcast (Uuid : Type)
  | stage (id : Uuid) (name : List Char) (index total : ℤ)
  | done (id : Uuid)
  | failed (id : Uuid) (errorCode message : List Char)
  | positions (positions : List (Uuid × ℤ))
  deriving DecidableEq, Repr

/-- The call for an event, by its type. -/
def WorkerEvent.broadcast {Uuid : Type} (e : WorkerEvent) (id : Uuid) : Option (Broadcast Uuid) :=
  if e.type = "stage".toList then some (.stage id e.name e.index e.total)
  else if e.type = "done".toList then some (.done id)
  else if e.type = "failed".toList then some (.failed id e.errorCode e.message)
  else if e.type = "queued".toList then some (.positions [(id, e.position)])
  else none

variable {Uuid : Type} (parseUuid : List Char → Option Uuid)

/-- `relayOne`: the call it makes, or none. -/
def relayOne (payload : List Char) : Option (Broadcast Uuid) :=
  match unmarshal payload with
  | none => none
  | some evt =>
      match parseUuid evt.analysisId with
      | none => none
      | some id => evt.broadcast id

/-! ## The hub -/

/-- `event`. -/
structure Event where
  type : List Char
  position : Option ℤ := none
  name : List Char := []
  index : ℤ := 0
  total : ℤ := 0
  analysisId : List Char := []
  errorCode : List Char := []
  message : List Char := []
  deriving DecidableEq, Repr

/-- A text field with `omitempty`. -/
def omitText (s : List Char) : Option Json := if s = [] then none else some (.str s)

/-- A number field with `omitempty`. -/
def omitInt (i : ℤ) : Option Json := if i = 0 then none else some (.num (.ofInt i))

/-- The fields in their order, those that are omitted as `none`. -/
def Event.fields (e : Event) : List (List Char × Option Json) :=
  [("type".toList, some (.str e.type)),
    ("position".toList, e.position.map fun i => .num (.ofInt i)),
    ("name".toList, omitText e.name), ("index".toList, omitInt e.index),
    ("total".toList, omitInt e.total), ("analysis_id".toList, omitText e.analysisId),
    ("error_code".toList, omitText e.errorCode), ("message".toList, omitText e.message)]

def Event.members (e : Event) : List (List Char × Json) :=
  e.fields.filterMap fun p => p.2.map fun v => (p.1, v)

/-- `wsjson.Write`: the object and a line break. -/
def Event.write (e : Event) : List Char := escapeHtml.print (.obj e.members) ++ ['\n']

/-- What the hub sends for a call, and to whose watchers. -/
def Broadcast.events (uuidString : Uuid → List Char) : Broadcast Uuid → List (Uuid × Event)
  | .stage id name index total => [(id, { type := "stage".toList, name, index, total })]
  | .done id => [(id, { type := "done".toList, analysisId := uuidString id })]
  | .failed id errorCode message => [(id, { type := "failed".toList, errorCode, message })]
  | .positions ps =>
      ps.map fun p => (p.1, { type := "queued".toList, position := some p.2 })

/-! ## The page -/

/-- A property of an object: the last member of that name. -/
def property (members : List (List Char × Json)) (key : List Char) : Option Json :=
  members.reverse.lookup key

/-- What `onmessage` does with a message. -/
inductive Reaction
  | ignored
  /-- `null` has no properties. -/
  | thrown
  | setPosition (position : Option Json)
  | invalidated

/-- `onmessage`. -/
def onmessage (data : List Char) : Reaction :=
  match parse data with
  | none => .ignored
  | some .null => .thrown
  | some (.obj members) =>
      match property members "type".toList with
      | some (.str type) =>
          if type = "queued".toList then .setPosition (property members "position".toList)
          else .invalidated
      | _ => .invalidated
  | some _ => .invalidated

/-- The properties of a message, as the page sees them. -/
def payloadOf (data : List Char) (key : List Char) : Option Json :=
  match parse data with
  | some (.obj members) => property members key
  | _ => none

/-! ## Fields -/

theorem text_setText (e : WorkerEvent) (s : List Char) (f g : TextField) :
    (e.setText s f).text g = if f = g then s else e.text g := by
  cases f <;> cases g <;> rfl

theorem int_setText (e : WorkerEvent) (s : List Char) (f : TextField) (g : IntField) :
    (e.setText s f).int g = e.int g := by
  cases f <;> cases g <;> rfl

theorem int_setInt (e : WorkerEvent) (i : ℤ) (f g : IntField) :
    (e.setInt i f).int g = if f = g then i else e.int g := by
  cases f <;> cases g <;> rfl

theorem text_setInt (e : WorkerEvent) (i : ℤ) (f : IntField) (g : TextField) :
    (e.setInt i f).text g = e.text g := by
  cases f <;> cases g <;> rfl

theorem WorkerEvent.ext_fields {e e' : WorkerEvent} (htext : ∀ f, e.text f = e'.text f)
    (hint : ∀ f, e.int f = e'.int f) : e = e' := by
  cases e
  cases e'
  congr
  exacts [htext .analysisId, htext .type, htext .name, hint .index, hint .total, hint .position,
    htext .errorCode, htext .message]

/-! ## What the relay decodes -/

/-- The field can hold the value. -/
def Field.Takes : Field → Json → Prop
  | _, .null => True
  | .text _, .str _ => True
  | .int _, .num n => parseInt64 n.text ≠ none
  | _, _ => False

/-- Every member that names a field has a value it can hold. -/
def WellTyped (members : List (List Char × Json)) : Prop :=
  ∀ m ∈ members, ∀ f, fieldOf m.1 = some f → f.Takes m.2

/-- The texts given to a field, in order. -/
def textsOf (f : TextField) (members : List (List Char × Json)) : List (List Char) :=
  members.filterMap fun m =>
    match fieldOf m.1, m.2 with
    | some g, .str s => if g = .text f then some s else none
    | _, _ => none

/-- The numbers given to a field, in order. -/
def intsOf (f : IntField) (members : List (List Char × Json)) : List ℤ :=
  members.filterMap fun m =>
    match fieldOf m.1, m.2 with
    | some g, .num n => if g = .int f then parseInt64 n.text else none
    | _, _ => none

/-- The event that members describe: in each field the last value given to it. -/
def described (members : List (List Char × Json)) : WorkerEvent where
  analysisId := (textsOf .analysisId members).getLastD []
  type := (textsOf .type members).getLastD []
  name := (textsOf .name members).getLastD []
  index := (intsOf .index members).getLastD 0
  total := (intsOf .total members).getLastD 0
  position := (intsOf .position members).getLastD 0
  errorCode := (textsOf .errorCode members).getLastD []
  message := (textsOf .message members).getLastD []

theorem textsOf_cons (f : TextField) (m : List Char × Json) (members : List (List Char × Json)) :
    textsOf f (m :: members) = textsOf f [m] ++ textsOf f members :=
  List.filterMap_append (l := [m])

theorem intsOf_cons (f : IntField) (m : List Char × Json) (members : List (List Char × Json)) :
    intsOf f (m :: members) = intsOf f [m] ++ intsOf f members :=
  List.filterMap_append (l := [m])

theorem getLastD_append {α : Type} (as bs : List α) (d : α) :
    (as ++ bs).getLastD d = bs.getLastD (as.getLastD d) := by
  cases bs with
  | nil => rw [List.append_nil]; rfl
  | cons b bs => simp [List.getLastD_eq_getLast?, List.getLast?_append, List.getLast?_cons]

/-- Storing a value a field takes leaves the last value given to each field. -/
theorem storeMember_takes (e : WorkerEvent) {m : List Char × Json}
    (h : ∀ f, fieldOf m.1 = some f → f.Takes m.2) :
    ∃ e', storeMember e m = some e' ∧ (∀ f, e'.text f = (textsOf f [m]).getLastD (e.text f)) ∧
      ∀ f, e'.int f = (intsOf f [m]).getLastD (e.int f) := by
  obtain ⟨key, v⟩ := m
  unfold storeMember textsOf intsOf
  rcases hf : fieldOf key with _ | f
  · exact ⟨e, rfl, fun _ => by simp [hf], fun _ => by simp [hf]⟩
  · have htakes := h f hf
    rcases f with f | f
    · cases v with
      | null => exact ⟨e, rfl, fun _ => by simp [hf], fun _ => by simp [hf]⟩
      | str s =>
        refine ⟨e.setText s f, rfl, fun g => ?_, fun g => ?_⟩
        · rw [text_setText]
          by_cases hg : f = g <;> simp [hf, hg]
        · rw [int_setText]
          simp [hf]
      | bool | num | arr | obj => exact htakes.elim
    · cases v with
      | null => exact ⟨e, rfl, fun _ => by simp [hf], fun _ => by simp [hf]⟩
      | num n =>
        obtain ⟨i, hi⟩ := Option.ne_none_iff_exists'.mp htakes
        refine ⟨e.setInt i f, by simp [store, hi], fun g => ?_, fun g => ?_⟩
        · rw [text_setInt]
          simp [hf]
        · rw [int_setInt]
          by_cases hg : f = g <;> simp [hf, hg, hi]
      | bool | str | arr | obj => exact htakes.elim

theorem storeMember_refuses (e : WorkerEvent) {m : List Char × Json} {f : Field}
    (hf : fieldOf m.1 = some f) (h : ¬ f.Takes m.2) : storeMember e m = none := by
  obtain ⟨key, v⟩ := m
  unfold storeMember
  rw [hf]
  dsimp only at h ⊢
  rcases f with f | f
  · cases v with
    | null | str => exact absurd trivial h
    | bool | num | arr | obj => rfl
  · cases v with
    | null => exact absurd trivial h
    | num n =>
      have hnone : parseInt64 n.text = none := not_not.mp h
      simp [store, hnone]
    | bool | str | arr | obj => rfl

/-- Storing members one after the other leaves the last value given to each field. -/
theorem foldlM_storeMember {members : List (List Char × Json)} (h : WellTyped members)
    (e : WorkerEvent) :
    ∃ e', members.foldlM storeMember e = some e' ∧
      (∀ f, e'.text f = (textsOf f members).getLastD (e.text f)) ∧
      ∀ f, e'.int f = (intsOf f members).getLastD (e.int f) := by
  induction members generalizing e with
  | nil => exact ⟨e, rfl, fun _ => rfl, fun _ => rfl⟩
  | cons m members ih =>
    obtain ⟨e', hstore, htext, hint⟩ := storeMember_takes e (h m List.mem_cons_self)
    obtain ⟨e'', hrest, htext', hint'⟩ := ih (fun p hp => h p (List.mem_cons_of_mem _ hp)) e'
    refine ⟨e'', ?_, fun f => ?_, fun f => ?_⟩
    · rw [List.foldlM_cons, hstore]
      exact hrest
    · rw [textsOf_cons, getLastD_append, ← htext, htext']
    · rw [intsOf_cons, getLastD_append, ← hint, hint']

theorem wellTyped_of_foldlM {members : List (List Char × Json)} {e e' : WorkerEvent}
    (h : members.foldlM storeMember e = some e') : WellTyped members := by
  induction members generalizing e with
  | nil => exact fun _ hm => by cases hm
  | cons m members ih =>
    rw [List.foldlM_cons] at h
    obtain ⟨e₁, hstore, hrest⟩ := Option.bind_eq_some_iff.mp h
    intro p hp f hf
    rcases List.mem_cons.mp hp with rfl | hp
    · by_contra hrefused
      rw [storeMember_refuses e hf hrefused] at hstore
      cases hstore
    · exact ih hrest p hp f hf

/-- **Members are decoded to what they describe**, where every field can hold what it is given. -/
theorem foldlM_storeMember_eq_some_iff {members : List (List Char × Json)} {e : WorkerEvent} :
    members.foldlM storeMember {} = some e ↔ WellTyped members ∧ e = described members := by
  have hdescribed : WellTyped members →
      members.foldlM storeMember {} = some (described members) := by
    intro h
    obtain ⟨e', he', htext, hint⟩ := foldlM_storeMember h {}
    have heq : e' = described members := by
      apply WorkerEvent.ext_fields
      · intro f
        rw [htext]
        cases f <;> rfl
      · intro f
        rw [hint]
        cases f <;> rfl
    rw [he', heq]
  constructor
  · intro h
    have htyped := wellTyped_of_foldlM h
    rw [hdescribed htyped] at h
    exact ⟨htyped, (Option.some.inj h).symm⟩
  · rintro ⟨htyped, rfl⟩
    exact hdescribed htyped

/-- What a payload is decoded to: `null` leaves every field empty. -/
theorem unmarshal_eq_some_iff {payload : List Char} {e : WorkerEvent} :
    unmarshal payload = some e ↔ ∃ v, Text v payload ∧ v.depth ≤ maxNestingDepth ∧
      ((v = .null ∧ e = {}) ∨
        ∃ members, v = .obj members ∧ WellTyped members ∧ e = described members) := by
  unfold unmarshal
  constructor
  · intro h
    split at h
    · cases h
    next v hparse =>
      split_ifs at h with hdepth
      refine ⟨v, parse_eq_some_iff.mp hparse, hdepth, ?_⟩
      cases v with
      | obj members => exact Or.inr ⟨members, rfl, foldlM_storeMember_eq_some_iff.mp h⟩
      | null => exact Or.inl ⟨rfl, (Option.some.inj h).symm⟩
      | _ => cases h
  · rintro ⟨v, htext, hdepth, hv⟩
    rw [parse_eq_some_iff.mpr htext]
    dsimp only
    rw [if_pos hdepth]
    rcases hv with ⟨rfl, rfl⟩ | ⟨members, rfl, hdescribed⟩
    · rfl
    · exact foldlM_storeMember_eq_some_iff.mpr hdescribed

theorem relayOne_eq_some {payload : List Char} {b : Broadcast Uuid} :
    relayOne parseUuid payload = some b ↔ ∃ evt id, unmarshal payload = some evt ∧
      parseUuid evt.analysisId = some id ∧ evt.broadcast id = some b := by
  unfold relayOne
  constructor
  · intro h
    split at h
    · cases h
    next evt hevt =>
      split at h
      · cases h
      next id hid => exact ⟨evt, id, hevt, hid, h⟩
  · rintro ⟨evt, id, hevt, hid, hb⟩
    rw [hevt]
    dsimp only
    rw [hid]
    exact hb

/-- **What the relay passes on.**  A payload is passed on exactly when it is the text of an
object that is not nested too deep, every field it names can hold its value, the last
`analysis_id` is an id and the last `type` one of the four; and then as the last value of each
field says. -/
theorem relayOne_eq_some_iff (hempty : parseUuid [] = none) {payload : List Char}
    {b : Broadcast Uuid} :
    relayOne parseUuid payload = some b ↔
      ∃ members id, Text (.obj members) payload ∧ (Json.obj members).depth ≤ maxNestingDepth ∧
        WellTyped members ∧ parseUuid (described members).analysisId = some id ∧
        (described members).broadcast id = some b := by
  rw [relayOne_eq_some]
  constructor
  · rintro ⟨evt, id, hevt, hid, hb⟩
    obtain ⟨v, htext, hdepth, ⟨-, rfl⟩ | ⟨members, rfl, htyped, rfl⟩⟩ :=
      unmarshal_eq_some_iff.mp hevt
    · -- `null` leaves the id empty
      change parseUuid [] = some id at hid
      rw [hempty] at hid
      cases hid
    · exact ⟨members, id, htext, hdepth, htyped, hid, hb⟩
  · rintro ⟨members, id, htext, hdepth, htyped, hid, hb⟩
    have hevt : unmarshal payload = some (described members) :=
      unmarshal_eq_some_iff.mpr ⟨_, htext, hdepth, Or.inr ⟨members, rfl, htyped, rfl⟩⟩
    exact ⟨_, id, hevt, hid, hb⟩

/-- The form `String` gives an id. -/
def isCanonical (t : List Char) : Bool :=
  t.length = 36 && t.zipIdx.all fun p =>
    if p.2 = 8 ∨ p.2 = 13 ∨ p.2 = 18 ∨ p.2 = 23 then p.1 = '-'
    else p.1.isDigit || ('a' ≤ p.1 && p.1 ≤ 'f')

/-- `uuid.Parse` of that form. -/
def parseCanonical (t : List Char) : Option { t : List Char // isCanonical t = true } :=
  if h : isCanonical t = true then some ⟨t, h⟩ else none

def someId : { t : List Char // isCanonical t = true } :=
  ⟨"0b5c1f6e-8a3d-4e2f-9b70-c4d1e2f3a495".toList, by decide +kernel⟩

def retyped : List Char :=
  "\x7b\"Analysis_ID\": \"0b5c1f6e-8a3d-4e2f-9b70-c4d1e2f3a495\", ".toList ++
    "\"type\": \"failed\", \"x\": [1, \x7b\x7d], \"type\": \"done\"\x7d".toList

theorem relayOne_eq_some_iff_retyped : ∃ members id, Text (.obj members) retyped ∧
    (Json.obj members).depth ≤ maxNestingDepth ∧ WellTyped members ∧
    parseCanonical (described members).analysisId = some id ∧
    (described members).broadcast id = some (.done someId) :=
  (relayOne_eq_some_iff parseCanonical (by decide)).mp (by decide +kernel)

/-! ## What is published is delivered -/

/-- A number an `int` of 64 bits can hold. -/
def Int64 (i : ℤ) : Prop := -2 ^ 63 ≤ i ∧ i < 2 ^ 63

instance (i : ℤ) : Decidable (Int64 i) := inferInstanceAs (Decidable (_ ∧ _))

/-- The numbers of a call fit. -/
def WorkerCall.Fits : WorkerCall → Prop
  | .publishStage _ index total => Int64 index ∧ Int64 total
  | .publishQueued position => Int64 position
  | _ => True

/-- The hub's call for a worker's call. -/
def WorkerCall.broadcast (id : Uuid) : WorkerCall → Broadcast Uuid
  | .publishStage name index total => .stage id name index total
  | .publishDone => .done id
  | .publishFailed errorCode message => .failed id errorCode message
  | .publishQueued position => .positions [(id, position)]

/-- The properties of a call's message, as the call's name and arguments say. -/
def WorkerCall.seen (analysisId : List Char) : WorkerCall → List (List Char × Option Json)
  | .publishStage name index total =>
      [("type".toList, some (.str "stage".toList)), ("name".toList, omitText name),
        ("index".toList, omitInt index), ("total".toList, omitInt total)]
  | .publishDone =>
      [("type".toList, some (.str "done".toList)), ("analysis_id".toList, omitText analysisId)]
  | .publishFailed errorCode message =>
      [("type".toList, some (.str "failed".toList)), ("error_code".toList, omitText errorCode),
        ("message".toList, omitText message)]
  | .publishQueued position =>
      [("type".toList, some (.str "queued".toList)),
        ("position".toList, some (.num (.ofInt position)))]

/-- What the page does about a call. -/
def WorkerCall.reaction : WorkerCall → Reaction
  | .publishQueued position => .setPosition (some (.num (.ofInt position)))
  | _ => .invalidated

theorem parseInt64_ofInt {i : ℤ} (h : Int64 i) : parseInt64 (Number.ofInt i).text = some i := by
  show (parseInt (decimal i)).filter _ = some i
  rw [parseInt_decimal]
  exact Option.filter_eq_some_iff.mpr ⟨rfl, decide_eq_true h⟩

theorem store_ofInt (e : WorkerEvent) (f : IntField) {i : ℤ} (h : Int64 i) :
    store e (.int f) (.num (.ofInt i)) = some (e.setInt i f) := by
  rw [store, parseInt64_ofInt h]
  rfl

/-- The payload of a call is decoded to the call. -/
theorem unmarshal_publish (analysisId : List Char) {e : WorkerCall} (h : e.Fits) :
    ∃ evt, unmarshal (publish (e.payload analysisId)) = some evt ∧ evt.analysisId = analysisId ∧
      ∀ id : Uuid, evt.broadcast id = some (e.broadcast id) := by
  have hparse : parse (publish (e.payload analysisId)) = some (.obj (e.payload analysisId)) := by
    simpa [publish] using parse_print ensureAscii (.obj (e.payload analysisId)) blank_nil
  have hdepth : (Json.obj (e.payload analysisId)).depth = 1 := by cases e <;> rfl
  have hmax : 1 ≤ maxNestingDepth := by decide
  unfold unmarshal
  rw [hparse]
  dsimp only
  rw [hdepth, if_pos hmax]
  cases e with
  | publishStage name index total =>
    obtain ⟨hindex, htotal⟩ := h
    refine ⟨{ analysisId, type := "stage".toList, name, index, total }, ?_, rfl, fun id => rfl⟩
    show (store { analysisId, type := "stage".toList, name } (.int .index)
      (.num (.ofInt index))).bind (fun e => (store e (.int .total) (.num (.ofInt total))).bind some)
      = _
    rw [store_ofInt _ _ hindex, Option.bind_some, store_ofInt _ _ htotal]
    rfl
  | publishDone => exact ⟨{ analysisId, type := "done".toList }, rfl, rfl, fun id => rfl⟩
  | publishFailed errorCode message =>
    exact ⟨{ analysisId, type := "failed".toList, errorCode, message }, rfl, rfl, fun id => rfl⟩
  | publishQueued position =>
    refine ⟨{ analysisId, type := "queued".toList, position }, ?_, rfl, fun id => rfl⟩
    show (store { analysisId, type := "queued".toList } (.int .position)
      (.num (.ofInt position))).bind some = _
    rw [store_ofInt _ _ h]
    rfl

theorem parse_write (ev : Event) : parse ev.write = some (.obj ev.members) :=
  parse_print escapeHtml _ fun c hc => by
    rw [List.mem_singleton.mp hc]
    rfl

theorem lookup_present {fields : List (List Char × Option Json)} {key : List Char}
    {v : Option Json} (hkeys : (fields.map Prod.fst).Nodup) (h : (key, v) ∈ fields) :
    (fields.filterMap fun p => p.2.map fun v => (p.1, v)).lookup key = v := by
  induction fields with
  | nil => cases h
  | cons p fields ih =>
    obtain ⟨k, w⟩ := p
    obtain ⟨hk, hrest⟩ := List.nodup_cons.mp hkeys
    have hother : ∀ {w}, (key, w) ∈ fields → key ≠ k := by
      rintro w hmem rfl
      exact hk (List.mem_map.mpr ⟨_, hmem, rfl⟩)
    rcases List.mem_cons.mp h with heq | hmem
    · obtain ⟨rfl, rfl⟩ := Prod.mk.inj heq
      cases v with
      | none =>
        show (fields.filterMap fun p => p.2.map fun v => (p.1, v)).lookup key = none
        refine List.lookup_eq_none_iff.mpr fun q hq => ?_
        obtain ⟨⟨k', w⟩, hfield, hq⟩ := List.mem_filterMap.mp hq
        obtain ⟨v, -, rfl⟩ := Option.map_eq_some_iff.mp hq
        apply bne_iff_ne.mpr
        rintro rfl
        exact hother hfield rfl
      | some v => exact List.lookup_cons_self
    · have hne : (key == k) = false := beq_eq_false_iff_ne.mpr (hother hmem)
      cases w with
      | none => exact ih hrest hmem
      | some w =>
        show ((k, w) :: fields.filterMap fun p => p.2.map fun v => (p.1, v)).lookup key = v
        rw [List.lookup_cons, hne]
        exact ih hrest hmem

/-- A field is the property of its name, and one that is omitted is none. -/
theorem property_members (ev : Event) {key : List Char} {v : Option Json}
    (h : (key, v) ∈ ev.fields) : property ev.members key = v := by
  have hkeys : (ev.fields.map Prod.fst).Nodup := by
    show ["type".toList, "position".toList, "name".toList, "index".toList, "total".toList,
      "analysis_id".toList, "error_code".toList, "message".toList].Nodup
    decide
  have hreverse : ev.members.reverse =
      ev.fields.reverse.filterMap fun p => p.2.map fun v => (p.1, v) := List.filterMap_reverse.symm
  rw [property, hreverse]
  exact lookup_present (by rwa [List.map_reverse, List.nodup_reverse]) (List.mem_reverse.mpr h)

/-- The event of a call's message. -/
def WorkerCall.event (analysisId : List Char) : WorkerCall → Event
  | .publishStage name index total => { type := "stage".toList, name, index, total }
  | .publishDone => { type := "done".toList, analysisId }
  | .publishFailed errorCode message => { type := "failed".toList, errorCode, message }
  | .publishQueued position => { type := "queued".toList, position := some position }

theorem seen_fields (analysisId : List Char) (e : WorkerCall) :
    e.seen analysisId ⊆ (e.event analysisId).fields := by
  -- the properties are listed in the order of the fields
  apply List.Sublist.subset
  cases e with
  | publishStage name index total =>
    exact .cons_cons _ (.cons _ (.cons_cons _ (.cons_cons _ (.cons_cons _ (List.nil_sublist _)))))
  | publishDone =>
    exact .cons_cons _ (.cons _ (.cons _ (.cons _ (.cons _ (.cons_cons _ (List.nil_sublist _))))))
  | publishFailed errorCode message =>
    exact .cons_cons _ (.cons _ (.cons _ (.cons _ (.cons _ (.cons _ (.cons_cons _ (.cons_cons _
      (List.nil_sublist _))))))))
  | publishQueued position => exact .cons_cons _ (.cons_cons _ (List.nil_sublist _))

/-- **What the worker publishes is delivered.**  The relay makes the hub's call for it, the hub
sends one message, to the watchers of the analysis, the page finds in it the arguments of the
worker's call, and it sets the position of a queued analysis and fetches the others anew. -/
theorem published_delivered {uuidString : Uuid → List Char}
    (hparse : ∀ id, parseUuid (uuidString id) = some id) (id : Uuid) (e : WorkerCall)
    (h : e.Fits) :
    ∃ b ev, relayOne parseUuid (publish (e.payload (uuidString id))) = some b ∧
      b.events uuidString = [(id, ev)] ∧ onmessage ev.write = e.reaction ∧
      ∀ p ∈ e.seen (uuidString id), payloadOf ev.write p.1 = p.2 := by
  obtain ⟨evt, hevt, hid, hcall⟩ := unmarshal_publish (uuidString id) h
  refine ⟨e.broadcast id, e.event (uuidString id), ?_, ?_, ?_, ?_⟩
  · exact (relayOne_eq_some _).mpr ⟨evt, id, hevt, by rw [hid, hparse], hcall id⟩
  · cases e <;> rfl
  · have htype : ("type".toList, some (Json.str (e.event (uuidString id)).type)) ∈
        (e.event (uuidString id)).fields := List.mem_cons_self
    unfold onmessage
    rw [parse_write]
    dsimp only
    rw [property_members _ htype]
    cases e with
    | publishQueued position =>
      have hposition : ("position".toList, some (Json.num (.ofInt position))) ∈
          ((WorkerCall.publishQueued position).event (uuidString id)).fields :=
        List.mem_cons_of_mem _ List.mem_cons_self
      rw [property_members _ hposition]
      rfl
    | publishStage | publishDone | publishFailed => rfl
  · intro p hp
    unfold payloadOf
    rw [parse_write]
    exact property_members _ (seen_fields _ e hp)

theorem published_delivered_stage : ∃ b ev,
    relayOne parseCanonical
      (publish ((WorkerCall.publishStage "pitch".toList 3 12).payload someId.val)) = some b ∧
      b.events Subtype.val = [(someId, ev)] ∧ onmessage ev.write = .invalidated ∧
      ∀ p ∈ (WorkerCall.publishStage "pitch".toList 3 12).seen someId.val,
        payloadOf ev.write p.1 = p.2 :=
  published_delivered parseCanonical (fun id => by simp [parseCanonical, id.2]) someId
    (.publishStage "pitch".toList 3 12) ⟨by decide, by decide⟩

end VocalCoach.EventRelay
