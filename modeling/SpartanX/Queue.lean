import SpartanX.Socket

/-!
# `Queue` — the queue object of one connection

`SXCreateQueue` initialises a header, but not the queue's: it passes `&socket->obj` to `sx_obj_init`. The
queue keeps the zeroed header of its allocation and the socket gets the deallocator of queues.
-/

namespace SpartanX

/-- `sx_queue_t`; its socket is the one its connection holds. -/
structure Queue extends RuntimeObject where
  deriving DecidableEq, Repr

/-- `SXCreateQueue`: the queue, and the socket it was created on. The test for a `NULL` socket comes after
    the socket's header has been written, so a `NULL` socket crashes before it. -/
def sxCreateQueue : Option Socket → Option (Queue × Socket)
  | none        => none
  | some socket => some ({}, { socket with obj := sxObjInit socket.obj .freeQueue })

/-- `SXSuspendObject(queue)` on a queue. -/
def Queue.suspendObject (queue : Queue) : SXError × Queue :=
  let r := sxSuspendObject (some queue.toRuntimeObject)
  (r.1, { queue with toRuntimeObject := r.2.getD queue.toRuntimeObject })

/-- `SXResumeObject(queue)` on a queue. -/
def Queue.resumeObject (queue : Queue) : SXError × Queue :=
  let r := sxResumeObject (some queue.toRuntimeObject)
  (r.1, { queue with toRuntimeObject := r.2.getD queue.toRuntimeObject })

/-- What a suspend request does to a queue. -/
theorem Queue.suspendObject_spec (queue : Queue) :
    (queue.status ∈ [Status.idle, .running] ∧
      queue.suspendObject = (sxSuccess, { queue with status := .suspend })) ∨
    (queue.status ∉ [Status.idle, .running] ∧ ∃ err, err ≠ sxSuccess ∧ queue.suspendObject = (err, queue)) := by
  rcases sxSuspendObject_spec queue.toRuntimeObject with ⟨hst, h⟩ | ⟨hst, err, herr, h⟩
  · exact Or.inl ⟨hst, by simp [Queue.suspendObject, h]⟩
  · exact Or.inr ⟨hst, err, herr, by simp [Queue.suspendObject, h]⟩

/-- What a resume request does to a queue. -/
theorem Queue.resumeObject_spec (queue : Queue) :
    (queue.status ∈ [Status.suspend, .idle] ∧
      queue.resumeObject = (sxSuccess, { queue with status := .resuming })) ∨
    (queue.status ∉ [Status.suspend, .idle] ∧ ∃ err, err ≠ sxSuccess ∧ queue.resumeObject = (err, queue)) := by
  rcases sxResumeObject_spec queue.toRuntimeObject with ⟨hst, h⟩ | ⟨hst, err, herr, h⟩
  · exact Or.inl ⟨hst, by simp [Queue.resumeObject, h]⟩
  · exact Or.inr ⟨hst, err, herr, by simp [Queue.resumeObject, h]⟩

end SpartanX
