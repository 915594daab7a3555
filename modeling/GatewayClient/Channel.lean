/-
A bounded channel of frames.  Its room is given to senders first come, first served: a sender that
finds none waits, and when a frame is taken out the room goes to the first that waits.
-/
import GatewayClient.Json.Value

namespace GatewayClient

/-- A channel: its frames, the senders that wait, and those that have been given room. -/
structure Channel where
  capacity : Nat
  frames : List Json := []
  waiting : List Nat := []
  admitted : List Nat := []
  isOpen : Bool := true
deriving DecidableEq

/-- What came of an attempt to send. -/
inductive SendStep where
  | sent
  | failed
  | waits
deriving DecidableEq, Repr

namespace Channel

/-- Whether a frame can be put in at once. -/
def hasRoom (c : Channel) : Bool :=
  decide (c.frames.length + c.admitted.length < c.capacity)

/-- A sender brings a frame: it goes in, or the sender waits, or the channel is closed. -/
def offer (c : Channel) (sender : Nat) (frame : Json) : Channel × SendStep :=
  if !c.isOpen then (c, .failed)
  else if c.hasRoom then ({ c with frames := c.frames ++ [frame] }, .sent)
  else ({ c with waiting := c.waiting ++ [sender] }, .waits)

/-- A sender that waits looks again. -/
def retry (c : Channel) (sender : Nat) (frame : Json) : Channel × SendStep :=
  if !c.isOpen then (c, .failed)
  else if sender ∈ c.admitted then
    ({ c with frames := c.frames ++ [frame], admitted := c.admitted.erase sender }, .sent)
  else (c, .waits)

/-- Room becomes free: it goes to the first that waits; says who got it. -/
def admitNext (c : Channel) : Channel × Option Nat :=
  match c.waiting with
  | [] => (c, none)
  | head :: rest => ({ c with waiting := rest, admitted := c.admitted ++ [head] }, some head)

/-- Takes the first frame out; says who got its room. -/
def takeFrame (c : Channel) : Channel × Option Json × Option Nat :=
  match c.frames with
  | [] => (c, none, none)
  | frame :: rest =>
    let (c, next) := { c with frames := rest }.admitNext
    (c, some frame, next)

/-- A sender that waits goes away; room that it had been given goes on. -/
def giveUp (c : Channel) (sender : Nat) : Channel × Option Nat :=
  if sender ∈ c.admitted then { c with admitted := c.admitted.erase sender }.admitNext
  else ({ c with waiting := c.waiting.erase sender }, none)

/-- The receiving end goes, and the frames with it; says who has to be told. -/
def close (c : Channel) : Channel × List Nat :=
  ({ c with isOpen := false, frames := [], waiting := [], admitted := [] }, c.waiting ++ c.admitted)

end Channel

end GatewayClient
