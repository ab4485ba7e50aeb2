/-
Session intents (`session.rs`, protocol spec §4.4): which message types may
travel on a session.
-/
import Sidevers.Core.Envelope
import Sidevers.Net.Error

namespace Sidevers.Net

open Sidevers.Core

/-- `Intent`. -/
inductive Intent where
  | direct
  | storage
  | gossip
  | verse
  | publicLayer
  deriving DecidableEq, Repr

namespace Intent

/-- `as_u8`. -/
def asU8 : Intent → UInt8
  | .direct => 1
  | .storage => 2
  | .gossip => 3
  | .verse => 4
  | .publicLayer => 5

/-- `from_u8`. -/
def fromU8 (v : UInt8) : Option Intent :=
  if v = 1 then some .direct
  else if v = 2 then some .storage
  else if v = 3 then some .gossip
  else if v = 4 then some .verse
  else if v = 5 then some .publicLayer
  else none

@[simp] theorem fromU8_asU8 (i : Intent) : fromU8 i.asU8 = some i := by
  cases i <;> rfl

/-- `accepts`. -/
def accepts (i : Intent) (mt : MessageType) : Bool :=
  match i, mt.category with
  | .direct, .direct => true
  | .storage, .storage => true
  | .gossip, .discovery => true
  | .gossip, .public => true
  | .verse, .verse => true
  | .publicLayer, .public => true
  | _, _ => false

/-- Handshake messages are not valid on any session. -/
theorem accepts_handshake (i : Intent) {mt : MessageType}
    (h : mt.category = .handshake) : i.accepts mt = false := by
  unfold accepts
  rw [h]
  cases i <;> rfl

end Intent

/-- `accept_one`, on the type of the envelope it read. -/
def acceptOne (i : Intent) (mt : MessageType) : Except Error Unit :=
  if i.accepts mt then .ok ()
  else .error (.wrongIntent mt.byte i.asU8)

theorem acceptOne_ok {i : Intent} {mt : MessageType} :
    acceptOne i mt = .ok () ↔ i.accepts mt = true := by
  unfold acceptOne
  split
  case isTrue h => simp [h]
  case isFalse h => simp [h]

end Sidevers.Net
