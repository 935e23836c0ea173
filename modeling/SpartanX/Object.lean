import SpartanX.Global
import SpartanX.Lib.Counter

/-!
# `Object` — `sx_object.c` and the status checks of `SXQueue.c`

Every object of the framework starts with a header (`ObjHeader`): a reference count and the deallocator its
last release runs. A runtime object (server, queue, client) adds a status that other parties change through
`SXSuspendObject` and `SXResumeObject`, and the handler blocks.

The requests are proved to be granted exactly in the statuses they name, except that a resume request is
also granted to an idle object: the refusal code is the negated status number, and the number of `idle` is
the success code (`sxResumeObject_spec`). `requests_guarded_iff` says what that does to the history of an
object.
-/

namespace SpartanX

/-! ## The object header -/

/-- `sx_deallocator`: the function a header points to. -/
inductive Dealloc
  | null
  | freeSocket
  | freeQueue
  | freeServer
  | freeClient
  deriving DecidableEq, Repr

/-- `sx_object_t`. The memory of a fresh object comes from `calloc`, so the default is all zeros. The count is
    a `long` that stops at `sx_weak_object`, far from its bounds. -/
structure ObjHeader where
  refCount : Int     := 0
  dealloc  : Dealloc := .null
  deriving DecidableEq, Repr

/-- `sx_obj_init`. -/
def sxObjInit (obj : ObjHeader) (dealloc : Dealloc) : ObjHeader :=
  { obj with refCount := 1, dealloc := dealloc }

/-- `SXRetain`. -/
def sxRetain (obj : ObjHeader) : ObjHeader :=
  { obj with refCount := Counter.stickyRetain sxWeakObject obj.refCount }

/-- `SXRelease`: the header after it, and whether it ran `SXFree`, that is `obj->dealloc(obj)`. -/
def sxRelease (obj : ObjHeader) : ObjHeader × Bool :=
  let r := Counter.stickyRelease sxWeakObject obj.refCount
  ({ obj with refCount := r.1 }, r.2)

/-! ## Runtime objects -/

/-- Which of the blocks of a runtime object are set; an unset one is `NULL`. -/
structure Handlers where
  didConnect    : Bool := false
  dataHandler   : Bool := false
  didDisconnect : Bool := false
  willSuspend   : Bool := false
  didResume     : Bool := false
  willKill      : Bool := false
  errHandler    : Bool := false
  deriving DecidableEq, Repr

/-- `sx_runtime_object_t`, the items a server, a queue and a client start with. -/
structure RuntimeObject where
  obj       : ObjHeader   := {}
  dataSize  : CInt.SizeT  := 0
  recvFlags : CInt.IntT   := 0
  sendFlags : CInt.IntT   := 0
  status    : Status      := .idle
  handlers  : Handlers    := {}
  deriving DecidableEq, Repr

/-- `sx_runtime_obj_init`. -/
def sxRuntimeObjInit (o : RuntimeObject) (dealloc : Dealloc) : RuntimeObject :=
  { o with obj := sxObjInit o.obj dealloc, sendFlags := 0, recvFlags := 0, status := .idle }

/-! ## Status checks -/

/-- `SXCheckStatus`. -/
def sxCheckStatus (current required : Status) : SXError :=
  if current = required then sxSuccess else current.negated

/-- `SXCheckCompatibleStatus`: the loop over the array. -/
def sxCheckCompatibleStatus (current : Status) : List Status → SXError
  | []          => current.negated
  | st :: array => if current = st then sxSuccess else sxCheckCompatibleStatus current array

/-- `SXCheckIncompatibleStatus`: the loop over the array. -/
def sxCheckIncompatibleStatus (current : Status) : List Status → SXError
  | []          => sxSuccess
  | st :: array => if current = st then current.negated else sxCheckIncompatibleStatus current array

/-- `SXSuspendObject`. -/
def sxSuspendObject : Option RuntimeObject → SXError × Option RuntimeObject
  | none     => (sxErrorInvalidServer, none)
  | some obj =>
    let err := sxCheckCompatibleStatus obj.status [.idle, .running]
    if err ≠ sxSuccess then (err, some obj) else (sxSuccess, some { obj with status := .suspend })

/-- `SXResumeObject`. -/
def sxResumeObject : Option RuntimeObject → SXError × Option RuntimeObject
  | none     => (sxErrorInvalidServer, none)
  | some obj =>
    let err := sxCheckStatus obj.status .suspend
    if err ≠ sxSuccess then (err, some obj) else (sxSuccess, some { obj with status := .resuming })

/-- A status passes `SXCheckStatus` if it is the required one, or if it is `idle`. -/
theorem sxCheckStatus_eq_sxSuccess {current required : Status} :
    sxCheckStatus current required = sxSuccess ↔ current = required ∨ current = .idle := by
  unfold sxCheckStatus
  by_cases h : current = required
  · simp [h]
  · simp [h, Status.negated_eq_sxSuccess]

/-- A status passes `SXCheckCompatibleStatus` if it is in the array, or if it is `idle`. -/
theorem sxCheckCompatibleStatus_eq_sxSuccess {current : Status} {array : List Status} :
    sxCheckCompatibleStatus current array = sxSuccess ↔ current ∈ array ∨ current = .idle := by
  induction array with
  | nil => simp [sxCheckCompatibleStatus, Status.negated_eq_sxSuccess]
  | cons st array ih =>
      unfold sxCheckCompatibleStatus
      by_cases h : current = st
      · simp [h]
      · simp [h, ih]

/-- A status passes `SXCheckIncompatibleStatus` if it is not in the array, or if it is `idle`. -/
theorem sxCheckIncompatibleStatus_eq_sxSuccess {current : Status} {array : List Status} :
    sxCheckIncompatibleStatus current array = sxSuccess ↔ current ∉ array ∨ current = .idle := by
  induction array with
  | nil => simp [sxCheckIncompatibleStatus]
  | cons st array ih =>
      unfold sxCheckIncompatibleStatus
      by_cases h : current = st
      · simp [h, Status.negated_eq_sxSuccess]
      · simp [h, ih]

/-! ## One request -/

/-- **A suspend request** is granted to an idle or running object, which it suspends; a refused one leaves
    the object alone. -/
theorem sxSuspendObject_spec (obj : RuntimeObject) :
    (obj.status ∈ [Status.idle, .running] ∧
      sxSuspendObject (some obj) = (sxSuccess, some { obj with status := .suspend })) ∨
    (obj.status ∉ [Status.idle, .running] ∧
      ∃ err, err ≠ sxSuccess ∧ sxSuspendObject (some obj) = (err, some obj)) := by
  have hiff : sxCheckCompatibleStatus obj.status [.idle, .running] = sxSuccess ↔
      obj.status ∈ [Status.idle, .running] := by
    rw [sxCheckCompatibleStatus_eq_sxSuccess, or_iff_left_iff_imp]
    rintro h
    simp [h]
  by_cases h : obj.status ∈ [Status.idle, .running]
  · exact Or.inl ⟨h, by simp [sxSuspendObject, hiff.mpr h]⟩
  · have herr := mt hiff.mp h
    exact Or.inr ⟨h, _, herr, by simp only [sxSuspendObject, if_pos herr]⟩

/-- **A resume request** is granted to a suspended object, and also to an idle one; either is then resuming.
    A refused request leaves the object alone. -/
theorem sxResumeObject_spec (obj : RuntimeObject) :
    (obj.status ∈ [Status.suspend, .idle] ∧
      sxResumeObject (some obj) = (sxSuccess, some { obj with status := .resuming })) ∨
    (obj.status ∉ [Status.suspend, .idle] ∧
      ∃ err, err ≠ sxSuccess ∧ sxResumeObject (some obj) = (err, some obj)) := by
  have hiff : sxCheckStatus obj.status .suspend = sxSuccess ↔
      obj.status ∈ [Status.suspend, .idle] := by
    rw [sxCheckStatus_eq_sxSuccess]
    simp
  by_cases h : obj.status ∈ [Status.suspend, .idle]
  · exact Or.inl ⟨h, by simp [sxResumeObject, hiff.mpr h]⟩
  · have herr := mt hiff.mp h
    exact Or.inr ⟨h, _, herr, by simp only [sxResumeObject, if_pos herr]⟩

/-! ## The history of an object -/

/-- What happens to the status of a runtime object: a request by another party, or a write by a run loop. -/
inductive StatusAct
  | suspend
  | resume
  | write (st : Status)
  deriving DecidableEq, Repr

/-- A request as its caller sees it: the status at the call, the code it returned and the status after it. -/
structure Request where
  act    : StatusAct
  before : Status
  err    : SXError
  after  : Status
  deriving DecidableEq, Repr

/-- Perform one act; a request reports what it did. -/
def StatusAct.perform (obj : RuntimeObject) : StatusAct → RuntimeObject × List Request
  | .suspend  =>
    let r := sxSuspendObject (some obj)
    let obj' := r.2.getD obj
    (obj', [⟨.suspend, obj.status, r.1, obj'.status⟩])
  | .resume   =>
    let r := sxResumeObject (some obj)
    let obj' := r.2.getD obj
    (obj', [⟨.resume, obj.status, r.1, obj'.status⟩])
  | .write st => ({ obj with status := st }, [])

/-- The requests of a history, in order. -/
def requests (obj : RuntimeObject) : List StatusAct → List Request
  | []          => []
  | act :: acts => (act.perform obj).2 ++ requests (act.perform obj).1 acts

/-- The statuses that grant a request, and the status it then sets. -/
def StatusAct.grant : StatusAct → List Status × Status
  | .suspend  => ([.idle, .running], .suspend)
  | .resume   => ([.suspend], .resuming)
  | .write st => ([], st)

/-- The request is guarded exactly: it succeeds in the statuses that grant it and no other, sets its status
    when it succeeds and changes nothing when it does not; and it makes an object resuming that was not so
    before only out of `suspend`. -/
def Request.Guarded (r : Request) : Prop :=
  (r.err = sxSuccess ↔ r.before ∈ r.act.grant.1) ∧
  (r.err = sxSuccess → r.after = r.act.grant.2) ∧
  (r.err ≠ sxSuccess → r.after = r.before) ∧
  (r.after = .resuming → r.before ≠ .resuming → r.before = .suspend)

/-- One request is guarded unless it asks to resume an idle object. -/
theorem guarded_iff_of_mem_perform {obj : RuntimeObject} {act : StatusAct} {r : Request}
    (hr : r ∈ (act.perform obj).2) : r.Guarded ↔ ¬ (r.act = .resume ∧ r.before = .idle) := by
  cases act with
  | write st => simp [StatusAct.perform] at hr
  | suspend =>
      simp only [StatusAct.perform, List.mem_singleton] at hr
      subst hr
      rcases sxSuspendObject_spec obj with ⟨hst, h⟩ | ⟨hst, err, herr, h⟩
      · simp [Request.Guarded, StatusAct.grant, h, hst]
      · simp only [List.mem_cons, List.not_mem_nil, or_false, not_or] at hst
        simp only [h, Option.getD_some]
        refine iff_of_true ⟨iff_of_false herr ?_, fun he => absurd he herr, fun _ => rfl,
          fun h1 h2 => absurd h1 h2⟩ (by simp)
        simpa [StatusAct.grant] using hst
  | resume =>
      simp only [StatusAct.perform, List.mem_singleton] at hr
      subst hr
      rcases sxResumeObject_spec obj with ⟨hst, h⟩ | ⟨hst, err, herr, h⟩
      · simp only [List.mem_cons, List.not_mem_nil, or_false] at hst
        rcases hst with hst | hst <;> simp [Request.Guarded, StatusAct.grant, h, hst]
      · simp only [List.mem_cons, List.not_mem_nil, or_false, not_or] at hst
        simp [Request.Guarded, StatusAct.grant, h, herr, hst]

/-- The same for every request of a history. -/
theorem guarded_iff_of_mem_requests {acts : List StatusAct} {obj : RuntimeObject} {r : Request}
    (hr : r ∈ requests obj acts) : r.Guarded ↔ ¬ (r.act = .resume ∧ r.before = .idle) := by
  induction acts generalizing obj with
  | nil => simp [requests] at hr
  | cons act acts ih =>
      rcases List.mem_append.mp hr with h | h
      · exact guarded_iff_of_mem_perform h
      · exact ih h

/-- **Status requests are guarded exactly, resume requests to an idle object apart.** Along every history of
    an initialised runtime object, all requests are guarded iff none of them is a resume request made while
    the status is `idle`. -/
theorem requests_guarded_iff (o : RuntimeObject) (dealloc : Dealloc) (acts : List StatusAct) :
    (∀ r ∈ requests (sxRuntimeObjInit o dealloc) acts, r.Guarded) ↔
      ∀ r ∈ requests (sxRuntimeObjInit o dealloc) acts, r.act = .resume → r.before ≠ .idle := by
  apply forall₂_congr
  intro r hr
  rw [guarded_iff_of_mem_requests hr, not_and]

/-- A fresh object is idle; a resume request to it is granted and makes it resuming. -/
theorem resume_idle_granted :
    requests (sxRuntimeObjInit {} .freeClient) [.resume] = [⟨.resume, .idle, sxSuccess, .resuming⟩] ∧
      ¬ ∀ r ∈ requests (sxRuntimeObjInit {} .freeClient) [.resume], r.Guarded := by
  have hreq : requests (sxRuntimeObjInit {} .freeClient) [.resume] =
      [⟨.resume, .idle, sxSuccess, .resuming⟩] := by decide
  refine ⟨hreq, ?_⟩
  intro h
  rw [hreq] at h
  have hg := (h _ (List.mem_singleton_self _)).1.mp rfl
  simp [StatusAct.grant] at hg

end SpartanX
