/-
Sessions: a client under direction.  A session starts activities under tags, plays the platform, and
lets time pass; after each action the client's jobs are advanced until none can go on.  The platform
may be set to answer every request by itself.
-/
import GatewayClient.Client.Operation
import GatewayClient.Client.Run
import GatewayClient.Session.Trial

namespace GatewayClient

/-- A client under direction. -/
structure Session where
  client : Client
  /-- The jobs started, by tag; a tag that was dropped is gone. -/
  tasks : Dictionary String JobId := []
  /-- The tag under which a job is reported. -/
  tags : Dictionary JobId String := []
  receivers : Receivers := []
  /-- What every request is answered with, its id apart, if the platform answers by itself. -/
  answer : Option (List (String × Json)) := none
  /-- How many of the frames carried the platform has looked at. -/
  seen : Nat := 0
  /-- How many of the frames carried, of the activities that are over and of the notes have been
  reported. -/
  reported : Nat := 0
  told : Nat := 0
  noted : Nat := 0
  /-- The events whose listeners and providers are reported. -/
  watched : List String := []
  /-- Whether time passes for the table too.  Where no call is entered by hand, only the timers are
  set forward. -/
  sleeps : Bool := false

namespace Session

/-- A session with a new client.  Over a channel, a job takes in what the platform sends. -/
def start (settings : Settings) (overChannel : Bool) : Session :=
  if overChannel then
    let link := Link.channel { capacity := settings.outboundBuffer.toNat }
    { client := (Client.ofSettings settings link).startReceiver.settle }
  else { client := Client.ofSettings settings (.direct .up) }

/-- What the platform has of a frame, which reaches it as text: numbers are read anew, and a frame
nested too deep to be read is null. -/
def received (frame : Json) : Json :=
  (Json.parse? frame.render).getD .null

/-- Whether a frame is a request. -/
def isRequest (frame : Json) : Bool :=
  (frame.get? "method").isSome

/-- The text of a frame with its id. -/
def answerText (members : List (String × Json)) (id : Json) : String :=
  (Json.object (Json.putMember "id" id members)).render

/-- The platform answers each of some frames that is a request. -/
def answerFrames (client : Client) (members : List (String × Json)) (frames : List Json) : Client :=
  (frames.filter isRequest).foldl
    (fun client frame =>
      (client.deliver (answerText members ((frame.get? "id").getD .null)) true).1)
    client

/-- The frames that a direct link has carried; those in a channel are seen when taken out. -/
def carried (s : Session) : List Json :=
  match s.client.link with
  | .direct _ => s.client.sent
  | .channel _ => []

/-- Whether frames were carried that the platform has not looked at. -/
def hasNews (s : Session) : Bool :=
  decide (s.seen < s.carried.length)

/-- The platform looks at what was carried and, if it is set to, answers. -/
def answerNews (s : Session) : Session :=
  let news := s.carried.drop s.seen
  let client :=
    match s.answer with
    | some members => (answerFrames s.client members (news.map received)).settle
    | none => s.client
  { s with client := client, seen := s.carried.length }

/-- The platform answers until nothing new is sent, so many times at most. -/
def answerAll (s : Session) : Nat → Session
  | 0 => s
  | more + 1 => if s.hasNews then answerAll s.answerNews more else s

/-- The jobs are advanced until none can go on and the platform has nothing to answer.  Each round
of answers lets some job go on. -/
def settle (s : Session) : Session :=
  let settled := { s with client := s.client.settle }
  settled.answerAll s.client.workload

end Session

end GatewayClient
