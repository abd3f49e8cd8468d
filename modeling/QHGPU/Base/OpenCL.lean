import Mathlib.Data.List.Perm.Basic

/-!
# OpenCL

What the host code relies on of command queues and launches. Commands of an in-order queue run
in the order in which they are enqueued. Those of an out-of-order queue, enqueued without wait
lists, run in any order.
-/

namespace QHGPU

/-- The flag `CL_QUEUE_OUT_OF_ORDER_EXEC_MODE_ENABLE` of a queue. -/
inductive QueueMode where
  | inOrder
  | outOfOrder
  deriving DecidableEq, Repr

/-- The orders in which the commands of a queue may run. -/
def QueueMode.Allows {α : Type} : QueueMode → (enqueued order : List α) → Prop
  | .inOrder, enqueued, order => order = enqueued
  | .outOfOrder, enqueued, order => order.Perm enqueued

/-- `clEnqueueNDRangeKernel` in one dimension: no size is 0, and the work-groups tile the
range. -/
def rangeAccepted (globalSize localSize : Nat) : Bool :=
  decide (0 < globalSize) && decide (0 < localSize) && decide (globalSize % localSize = 0)

end QHGPU
