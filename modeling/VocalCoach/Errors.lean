/-
# The error taxonomy and the stage subprocess boundary

Models `vocalcoach/errors.py`, `run_ffmpeg` of `audio/ffmpeg.py`, and the pair
`_stage_worker` / `_join_subprocess` of `pipeline/runner.py`.

A stage runs in a spawned child; whatever it raises reaches the parent through a
`multiprocessing.Queue`, that is, pickled in the child and rebuilt in the parent.
Of Python this file uses:

* argument binding of a call against a signature (`PySignature.bind`);
* `Exception.__init__(message)` sets `args = (message,)`;
* pickling an exception sends `(class, args, __dict__)`, and the receiver calls
  `class(*args)` and then restores `__dict__` (`unpickle`).

The main result is `joinSubprocess_keeps_class_iff`: a failure keeps its retry
class and its `error_code` across the boundary exactly when it is not a
`StageTimeout`, the one class whose constructor does not accept its own `args`.
-/
import Mathlib.Data.List.Basic
import Mathlib.Tactic.Common
import Mathlib.Data.Int.Notation

namespace VocalCoach

/-! ## Python values and argument binding -/

/-- The Python values the modelled constructors receive. -/
inductive PyValue
  | none
  | str (s : String)
  | int (i : ℤ)
  deriving DecidableEq, Repr

/-- `str(value)`, as an f-string interpolates it. -/
def PyValue.text : PyValue → String
  | .none => "None"
  | .str s => s
  | .int i => toString i

/-- How a call can fail to match a signature. -/
inductive TypeError
  | tooManyPositional
  | unexpectedKeyword (name : String)
  | multipleValues (name : String)
  | missing (name : String)
  deriving DecidableEq, Repr

/-- The arguments of one call. -/
structure PyCall where
  positional : List PyValue
  keywords : List (String × PyValue)
  deriving DecidableEq, Repr

/-- Parameters of a constructor, without `self`: required ones that may be given
by position or by name, and optional keyword-only ones. -/
structure PySignature where
  required : List String
  keywordOnly : List String

/-- Match a call against a signature; the result lists the bound parameters. -/
def PySignature.bind (sig : PySignature) (call : PyCall) :
    Except TypeError (List (String × PyValue)) :=
  let byPosition := sig.required.zip call.positional
  let bound := byPosition ++ call.keywords
  if sig.required.length < call.positional.length then .error .tooManyPositional
  else match call.keywords.find? (fun kw => kw.1 ∉ sig.required ++ sig.keywordOnly) with
    | some kw => .error (.unexpectedKeyword kw.1)
    | none => match call.keywords.find? (fun kw => kw.1 ∈ byPosition.map Prod.fst) with
      | some kw => .error (.multipleValues kw.1)
      | none => match sig.required.find? (fun name => name ∉ bound.map Prod.fst) with
        | some name => .error (.missing name)
        | none => .ok bound

/-! ## The exception hierarchy -/

/-- Every class of `errors.py`. -/
inductive ErrorClass
  | pipelineError
  | transientPipelineError
  | logicalPipelineError
  | stageTimeout
  | internalPipelineError
  | referenceTooQuiet
  | noVoiceDetected
  | alignmentFailed
  | alignmentTooLarge
  deriving DecidableEq, Repr

/-- Which of the two branches of the hierarchy `PipelineRunner` catches. -/
inductive RetryClass
  | transient
  | logical
  deriving DecidableEq, Repr

namespace ErrorClass

/-- The base class, `none` for `PipelineError` itself (whose base is `Exception`). -/
def base : ErrorClass → Option ErrorClass
  | pipelineError => none
  | transientPipelineError | logicalPipelineError => some pipelineError
  | stageTimeout | internalPipelineError => some transientPipelineError
  | referenceTooQuiet | noVoiceDetected | alignmentFailed | alignmentTooLarge =>
      some logicalPipelineError

/-- What `isinstance` finds: `none` for a bare `PipelineError`. -/
def retryClass : ErrorClass → Option RetryClass
  | pipelineError => none
  | transientPipelineError | stageTimeout | internalPipelineError => some .transient
  | logicalPipelineError | referenceTooQuiet | noVoiceDetected | alignmentFailed
  | alignmentTooLarge => some .logical

/-- The class attribute `error_code`, inherited where the class sets none. -/
def errorCode : ErrorClass → String
  | pipelineError | transientPipelineError | logicalPipelineError => "INTERNAL"
  | stageTimeout => "TIMEOUT"
  | internalPipelineError => "INTERNAL"
  | referenceTooQuiet => "REFERENCE_TOO_QUIET"
  | noVoiceDetected => "NO_VOICE_DETECTED"
  | alignmentFailed => "ALIGNMENT_FAILED"
  | alignmentTooLarge => "ALIGNMENT_TOO_LARGE"

/-- The signature of `__init__`: only `StageTimeout` overrides the inherited one. -/
def signature : ErrorClass → PySignature
  | stageTimeout => ⟨["stage_name", "timeout_seconds"], []⟩
  | _ => ⟨["message"], ["error_code"]⟩

end ErrorClass

/-- An instance of a class of the hierarchy.  Every `__init__` of the hierarchy
ends in `Exception.__init__(message)` with one argument, so `message` is all of
`args`; `dict` is the instance `__dict__`, which can only hold `error_code`. -/
structure PyException where
  cls : ErrorClass
  message : PyValue
  dict : Option PyValue
  deriving DecidableEq, Repr

namespace PyException

/-- `exc.args`. -/
def args (e : PyException) : List PyValue := [e.message]

/-- `exc.error_code`: the instance attribute hides the class attribute. -/
def errorCode (e : PyException) : PyValue := e.dict.getD (.str e.cls.errorCode)

/-- The retry class of an instance is that of its class. -/
def retryClass (e : PyException) : Option RetryClass := e.cls.retryClass

end PyException

/-- The message `StageTimeout.__init__` formats (and `_join_subprocess` repeats). -/
def timeoutMessage (stageName timeoutSeconds : PyValue) : String :=
  "stage '" ++ stageName.text ++ "' exceeded its " ++ timeoutSeconds.text ++ "s timeout"

/-- Calling a class of the hierarchy. -/
def construct (c : ErrorClass) (call : PyCall) : Except TypeError PyException := do
  let bound ← c.signature.bind call
  let param := fun name => (bound.lookup name).getD .none
  match c with
  | .stageTimeout =>
      return ⟨c, .str (timeoutMessage (param "stage_name") (param "timeout_seconds")), none⟩
  | _ =>
      -- `if error_code is not None: self.error_code = error_code`
      let code := param "error_code"
      return ⟨c, param "message", if code = .none then none else some code⟩

/-- `cls(message)` as the code raises it, without an explicit `error_code`. -/
def PyException.of (c : ErrorClass) (message : String) : PyException := ⟨c, .str message, none⟩

/-! ## Pickling -/

/-- What crosses the queue for an exception. -/
structure PickledException where
  cls : ErrorClass
  args : List PyValue
  dict : Option PyValue
  deriving DecidableEq, Repr

/-- `pickle.dumps(exc)`: the triple `Exception.__reduce__` gives. -/
def pickle (e : PyException) : PickledException := ⟨e.cls, e.args, e.dict⟩

/-- `pickle.loads`: call the class on `args`, then restore `__dict__`. -/
def unpickle (p : PickledException) : Except TypeError PyException := do
  let e ← construct p.cls ⟨p.args, []⟩
  return { e with dict := p.dict }

/-- One positional argument is what every constructor but `StageTimeout`'s takes. -/
theorem construct_one (c : ErrorClass) (v : PyValue) (h : c ≠ .stageTimeout) :
    construct c ⟨[v], []⟩ = .ok ⟨c, v, none⟩ := by
  cases c <;> first | exact absurd rfl h | rfl

/-- A call that is accepted gives an instance of the class called. -/
theorem construct_cls {c : ErrorClass} {call : PyCall} {e : PyException}
    (h : construct c call = .ok e) : e.cls = c := by
  unfold construct at h
  cases hb : c.signature.bind call with
  | error t => simp [hb, bind, Except.bind] at h
  | ok bound =>
    simp only [hb, bind, Except.bind] at h
    cases c <;> simp only [pure, Except.pure, Except.ok.injEq] at h <;> rw [← h]

/-- **Round trip.**  Outside `StageTimeout`, an exception survives pickling whole. -/
theorem unpickle_pickle (e : PyException) (h : e.cls ≠ .stageTimeout) :
    unpickle (pickle e) = .ok e := by
  show (construct e.cls ⟨[e.message], []⟩).bind _ = _
  rw [construct_one e.cls e.message h]
  rfl

/-- A `StageTimeout` cannot be rebuilt from its own `args`. -/
theorem unpickle_pickle_stageTimeout (e : PyException) (h : e.cls = .stageTimeout) :
    unpickle (pickle e) = .error (.missing "timeout_seconds") := by
  obtain ⟨c, v, d⟩ := e
  subst h
  rfl

/-! ## `run_ffmpeg` -/

/-- How `subprocess.run([ffmpeg_path, *args], check=True, ...)` ends. -/
inductive SubprocessOutcome
  | completed
  | timeoutExpired
  | calledProcessError (stderr : String)
  | osError (text : String)
  deriving DecidableEq, Repr

/-- `stderr[-2000:]`. -/
def stderrTail (stderr : String) : String :=
  String.ofList (stderr.toList.drop (stderr.length - 2000))

/-- `run_ffmpeg`: what the stage `stageName` sees of one ffmpeg invocation. -/
def runFfmpeg (stageName : String) (timeoutSeconds : ℕ) : SubprocessOutcome →
    Except PyException Unit
  | .completed => .ok ()
  | .timeoutExpired =>
      .error (.of .stageTimeout
        (timeoutMessage (.str stageName) (.int timeoutSeconds)))
  | .calledProcessError stderr =>
      .error (.of .internalPipelineError
        ("ffmpeg failed in stage '" ++ stageName ++ "': " ++ stderrTail stderr))
  | .osError text =>
      .error (.of .internalPipelineError
        ("could not run ffmpeg for stage '" ++ stageName ++ "': " ++ text))

/-! ## The boundary -/

/-- What a stage's `run` raises. -/
inductive Raised
  | pipeline (e : PyException)
  | other (text : String)
  deriving DecidableEq, Repr

/-- The retry class the runner owes a failure: any other exception counts as internal. -/
def Raised.retryClass : Raised → Option RetryClass
  | .pipeline e => e.retryClass
  | .other _ => ErrorClass.internalPipelineError.retryClass

/-- The error code the runner owes a failure. -/
def Raised.errorCode : Raised → PyValue
  | .pipeline e => e.errorCode
  | .other _ => .str ErrorClass.internalPipelineError.errorCode

/-- The failure is an instance of `StageTimeout`. -/
def Raised.isStageTimeout : Raised → Bool
  | .pipeline e => e.cls = .stageTimeout
  | .other _ => false

/-- The exception `_stage_worker` reports for a failure of `stageName`: any
non-pipeline exception is wrapped into an `InternalPipelineError`. -/
def Raised.reported (stageName : String) : Raised → PyException
  | .pipeline e => e
  | .other text =>
      .of .internalPipelineError ("stage '" ++ stageName ++ "' crashed: " ++ text)

/-- Wrapping a failure in the child does not change the class it counts as. -/
theorem Raised.reported_class (stageName : String) (raised : Raised) :
    (raised.reported stageName).retryClass = raised.retryClass ∧
      (raised.reported stageName).errorCode = raised.errorCode := by
  cases raised <;> exact ⟨rfl, rfl⟩

theorem Raised.reported_isStageTimeout (stageName : String) (raised : Raised) :
    (raised.reported stageName).cls = .stageTimeout ↔ raised.isStageTimeout = true := by
  cases raised <;> simp [Raised.reported, Raised.isStageTimeout, PyException.of]

/-- What the child puts on the queue, as it travels. -/
inductive Message (Result : Type*)
  | ok (result : Result)
  | error (payload : PickledException)

/-- `_stage_worker`: run the stage and put its result, or its error, on the queue. -/
def stageWorker {Result : Type*} (stageName : String) :
    Except Raised Result → Message Result
  | .ok result => .ok result
  | .error raised => .error (pickle (raised.reported stageName))

/-- What `result_queue.get(timeout=...)` finds: a message, or nothing in time, with
the child still alive or gone with an exit code. -/
inductive QueueRead (Result : Type*)
  | item (m : Message Result)
  | emptyAlive
  | emptyExited (exitCode : ℤ)

/-- `_join_subprocess`.  The outer `Except` is an exception escaping the call. -/
def joinSubprocess {Result : Type*} (stageName : String) (timeoutSeconds : ℕ) :
    QueueRead Result → Except TypeError (PyException ⊕ Result)
  | .item (.ok result) => .ok (.inr result)
  | .item (.error payload) => (unpickle payload).map .inl
  | .emptyAlive =>
      .ok (.inl ⟨.transientPipelineError,
        .str (timeoutMessage (.str stageName) (.int timeoutSeconds)), some (.str "TIMEOUT")⟩)
  | .emptyExited exitCode =>
      .ok (.inl (.of .internalPipelineError
        ("stage '" ++ stageName ++ "' produced no result (exit code "
          ++ toString exitCode ++ ")")))

/-- What the parent makes of the failure `raised` of its child. -/
def parentOutcome (Result : Type*) (stageName : String) (timeoutSeconds : ℕ)
    (raised : Raised) : Except TypeError (PyException ⊕ Result) :=
  joinSubprocess stageName timeoutSeconds (.item (stageWorker stageName (.error raised)))

/-- A failure other than a `StageTimeout` reaches the parent as it was reported. -/
theorem parentOutcome_of_not_stageTimeout (Result : Type*) (stageName : String)
    (timeoutSeconds : ℕ) (raised : Raised) (h : raised.isStageTimeout = false) :
    parentOutcome Result stageName timeoutSeconds raised
      = .ok (.inl (raised.reported stageName)) := by
  have hcls : (raised.reported stageName).cls ≠ .stageTimeout := by
    rw [Ne, Raised.reported_isStageTimeout, h]
    exact Bool.false_ne_true
  show (unpickle (pickle (raised.reported stageName))).map Sum.inl = _
  rw [unpickle_pickle _ hcls]
  rfl

/-- A `StageTimeout` makes the parent raise `TypeError`. -/
theorem parentOutcome_stageTimeout (Result : Type*) (stageName : String)
    (timeoutSeconds : ℕ) (raised : Raised) (h : raised.isStageTimeout = true) :
    parentOutcome Result stageName timeoutSeconds raised
      = .error (.missing "timeout_seconds") := by
  have hcls : (raised.reported stageName).cls = .stageTimeout :=
    (Raised.reported_isStageTimeout stageName raised).mpr h
  show (unpickle (pickle (raised.reported stageName))).map Sum.inl = _
  rw [unpickle_pickle_stageTimeout _ hcls]
  rfl

/-- The parent learns of `raised` without raising itself, and what it learns has
the retry class and the error code of the failure. -/
def KeepsClass (Result : Type*) (stageName : String) (timeoutSeconds : ℕ)
    (raised : Raised) : Prop :=
  ∃ e : PyException, parentOutcome Result stageName timeoutSeconds raised = .ok (.inl e) ∧
    e.retryClass = raised.retryClass ∧ e.errorCode = raised.errorCode

/-- A failure keeps its class exactly when it is no `StageTimeout`. -/
theorem keepsClass_iff (Result : Type*) (stageName : String) (timeoutSeconds : ℕ)
    (raised : Raised) :
    KeepsClass Result stageName timeoutSeconds raised ↔ raised.isStageTimeout = false := by
  constructor
  · rintro ⟨e, he, -, -⟩
    by_contra hst
    rw [parentOutcome_stageTimeout Result stageName timeoutSeconds raised (by simpa using hst)]
      at he
    cases he
  · intro h
    exact ⟨raised.reported stageName,
      parentOutcome_of_not_stageTimeout Result stageName timeoutSeconds raised h,
      raised.reported_class stageName⟩

/-- **The boundary keeps a failure's class exactly off `StageTimeout`**, whatever
the class and the shape of the call that built the exception; any exception from
outside the hierarchy arrives as an `InternalPipelineError`. -/
theorem joinSubprocess_keeps_class_iff (Result : Type*) (stageName : String)
    (timeoutSeconds : ℕ) (c : ErrorClass) (call : PyCall) (e : PyException)
    (h : construct c call = .ok e) :
    (KeepsClass Result stageName timeoutSeconds (.pipeline e) ↔ c ≠ .stageTimeout) ∧
      ∀ text, KeepsClass Result stageName timeoutSeconds (.other text) := by
  constructor
  · rw [keepsClass_iff, ← construct_cls h]
    simp [Raised.isStageTimeout]
  · intro text
    exact (keepsClass_iff Result stageName timeoutSeconds (.other text)).mpr rfl

/-- The law at work on a keyword call that overrides the code. -/
theorem joinSubprocess_keeps_class_iff_override :
    (KeepsClass Unit "align" 60
        (.pipeline ⟨.alignmentFailed, .str "diverged", some (.str "TOO_FAR")⟩) ↔
      ErrorClass.alignmentFailed ≠ .stageTimeout) ∧
      ∀ text, KeepsClass Unit "align" 60 (.other text) :=
  joinSubprocess_keeps_class_iff Unit "align" 60 .alignmentFailed
    ⟨[], [("error_code", .str "TOO_FAR"), ("message", .str "diverged")]⟩ _ (by decide)

/-- ffmpeg running over the budget of `preprocess` (45 s) does not reach the parent
as a transient `TIMEOUT`: `_join_subprocess` itself raises. -/
theorem not_forall_keepsClass :
    ¬ ∀ raised : Raised, KeepsClass Unit "preprocess" 45 raised := by
  intro h
  obtain ⟨e, he, -, -⟩ :=
    h (.pipeline (.of .stageTimeout (timeoutMessage (.str "preprocess") (.int 45))))
  rw [parentOutcome_stageTimeout Unit "preprocess" 45 _ (by decide)] at he
  cases he

end VocalCoach
