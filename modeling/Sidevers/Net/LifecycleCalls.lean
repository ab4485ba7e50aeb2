/-
The lifecycle of one side under calls at once (`touch_send`,
`refresh_lifecycle`, `set_self_retired`).

The lifecycle, the time of the last send and the retirement flag each have a
lock of their own, held for one read or write. A call is at its next lock, or
at the store with the row it has put together. What a call does by itself is
in `Sidevers.Net.Side`.
-/
import Sidevers.Lib.Tasks
import Sidevers.Net.Side

namespace Sidevers.Net

open Sidevers.Core
open Sidevers.Lib

/-- What is left of a call after its row is written. -/
inductive RowWriter where
  /-- Nothing, in `touch_send` and `refresh_lifecycle`. -/
  | sender
  /-- The second row of `set_self_retired`. -/
  | retiring
  | retiringLast
  deriving DecidableEq

/-- A call at its next await. -/
inductive LifecycleCall where
  /-- `touch_send`, at `last_send_at` and then at `lifecycle`. -/
  | touchSend (now : UInt64)
  | touchLifecycle (now : UInt64)
  /-- `refresh_lifecycle`, at `lifecycle`, `last_send_at`, `lifecycle`; it
  reads the clock before the last. -/
  | refreshLifecycle (now : UInt64)
  | refreshLastSend (now : UInt64)
  | refreshSet (next : SideLifecycle)
  /-- `set_self_retired`, at `is_self_retired` and then at `lifecycle`. -/
  | setSelfRetired
  | setRetired
  /-- `persist_lifecycle`, at `last_send_at`. -/
  | persistLifecycle (state : SideLifecycle) (writer : RowWriter)
  /-- `persist_side_row`, at `last_send_at` and then at `lifecycle`. -/
  | persistSideRow
  | persistSideRowLifecycle (last : Option UInt64)
  /-- A row that lacks the flag, at `is_self_retired`. -/
  | persistFlag (last : Option UInt64) (lifecycle : SideLifecycle)
      (writer : RowWriter)
  /-- A whole row, at the store. -/
  | persistStore (last : Option UInt64) (lifecycle : SideLifecycle)
      (isSelfRetired : Bool) (writer : RowWriter)
  | done
  /-- `set_self_retired` has returned. -/
  | returned
  deriving DecidableEq

/-- The calls. -/
inductive LifecycleRequest where
  | touchSend (now : UInt64)
  | refreshLifecycle (now : UInt64)
  | setSelfRetired

/-- A call up to its first await. -/
def LifecycleRequest.begin : LifecycleRequest → LifecycleCall
  | .touchSend now => .touchSend now
  | .refreshLifecycle now => .refreshLifecycle now
  | .setSelfRetired => .setSelfRetired

/-- After the row. -/
def RowWriter.next : RowWriter → LifecycleCall
  | .sender => .done
  | .retiring => .persistSideRow
  | .retiringLast => .returned

/-- The row goes to the store; a failed call is logged and dropped. -/
def Side.storeRow (s : Side) (last : Option UInt64) (lifecycle : SideLifecycle)
    (isSelfRetired : Bool) : Side :=
  s.persist (SideStore.upsertSide
    { address := s.address, seed := s.keypair.seed, label := s.label
      createdAt := s.createdAt, lifecycle := lifecycleLabel lifecycle
      lastSendAt := last, isSelfRetired })

/-- A call up to its next await, `none` when it has none. -/
def LifecycleCall.resume (s : Side) :
    LifecycleCall → Option (Side × LifecycleCall)
  | .touchSend now => some ({ s with lastSendAt := some now },
      .touchLifecycle now)
  | .touchLifecycle now =>
      let lifecycle := if s.lifecycle = .created then .active else s.lifecycle
      some ({ s with lifecycle }, .persistFlag (some now) lifecycle .sender)
  | .refreshLifecycle now =>
      if s.lifecycle = .retired then some (s, .done)
      else some (s, .refreshLastSend now)
  | .refreshLastSend now =>
      some (s, .refreshSet (SideLifecycle.derive s.lastSendAt false now))
  | .refreshSet next =>
      some ({ s with lifecycle := next }, .persistLifecycle next .sender)
  | .setSelfRetired => some ({ s with isSelfRetired := true }, .setRetired)
  | .setRetired => some ({ s with lifecycle := .retired },
      .persistLifecycle .retired .retiring)
  | .persistLifecycle state writer =>
      some (s, .persistFlag s.lastSendAt state writer)
  | .persistSideRow => some (s, .persistSideRowLifecycle s.lastSendAt)
  | .persistSideRowLifecycle last =>
      some (s, .persistFlag last s.lifecycle .retiringLast)
  | .persistFlag last lifecycle writer =>
      some (s, .persistStore last lifecycle s.isSelfRetired writer)
  | .persistStore last lifecycle isSelfRetired writer =>
      some (s.storeRow last lifecycle isSelfRetired, writer.next)
  | .done | .returned => none

/-- The side under calls, and one that goes on at a time. -/
def lifecycleStep (w : Tasks Side LifecycleCall) :
    TasksAction LifecycleRequest → Option (Tasks Side LifecycleCall) :=
  tasksStep LifecycleRequest.begin LifecycleCall.resume w

end Sidevers.Net
