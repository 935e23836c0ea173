import SpartanX.Connection.Block

/-!
# `Rounds` — the iterations of a run loop, read off its trace

The loops of the framework have the same shape: an iteration looks at the status, receives, may look at the
status again, calls the data handler, and either goes on or leaves. A trace is read as the list of its finished
iterations, each with what it got from outside and whether the loop went on after it (`rounds`). What the
events of a loop mean for its iterations is a view of them (`RoundEvent`), so the same reading serves every
loop.
-/

namespace SpartanX

open CInt

/-- What an event means for the iteration it belongs to. `start` is the first statement of an iteration, `leave`
    the first one behind the loop. -/
inductive RoundEvent
  | start
  | switch (st : Status)
  | recv (r : Option (List Byte))
  | reread (st : Status)
  | answer (ret : SizeT)
  | leave
  deriving DecidableEq, Repr

/-- An iteration: the status at its `switch`, the result of its `recv`, the status read after it, the answer of
    the data handler, as far as it got to each of them, and whether the loop went on after it. -/
structure Round where
  status : Option Status              := none
  recv   : Option (Option (List Byte)) := none
  reread : Option Status              := none
  ret    : Option SizeT               := none
  kept   : Bool                       := false
  deriving DecidableEq, Repr

/-- The finished iterations, in order, and the one that is not finished. -/
structure Rounds where
  finished : List Round   := []
  current  : Option Round := none
  deriving DecidableEq, Repr

/-- The iterations after one more event: an iteration is finished when the next one begins or the loop is left. -/
def Rounds.note (w : Rounds) : RoundEvent → Rounds
  | .start     =>
    { finished := w.finished ++ (w.current.map fun r => { r with kept := true }).toList, current := some {} }
  | .leave     =>
    { finished := w.finished ++ (w.current.map fun r => { r with kept := false }).toList, current := none }
  | .switch st  => { w with current := w.current.map fun r => { r with status := some st } }
  | .recv res   => { w with current := w.current.map fun r => { r with recv := some res } }
  | .reread st  => { w with current := w.current.map fun r => { r with reread := some st } }
  | .answer ret => { w with current := w.current.map fun r => { r with ret := some ret } }

variable {ε : Type}

/-- The iterations of a trace, under a view of its events. -/
def rounds (view : ε → Option RoundEvent) (tr : List ε) : Rounds := (tr.filterMap view).foldl Rounds.note {}

theorem rounds_append (view : ε → Option RoundEvent) (tr es : List ε) :
    rounds view (tr ++ es) = (es.filterMap view).foldl Rounds.note (rounds view tr) := by
  unfold rounds
  rw [List.filterMap_append, List.foldl_append]

/-- Events that mean nothing for an iteration. -/
theorem rounds_pass {view : ε → Option RoundEvent} (tr : List ε) {es : List ε} (h : ∀ e ∈ es, view e = none) :
    rounds view (tr ++ es) = rounds view tr := by
  rw [rounds_append, List.filterMap_eq_nil_iff.mpr h]
  rfl

/-- What an event of a connection means. -/
def ConnEvent.round : ConnEvent → Option RoundEvent
  | .iterate             => some .start
  | .branch st           => some (.switch st)
  | .recv _ r            => some (.recv r)
  | .reread st           => some (.reread st)
  | .dataHandler _ _ ret => some (.answer ret)
  | .close _             => some .leave
  | _                    => none

end SpartanX
