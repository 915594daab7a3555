/-
The environment of a process and what it says over the settings.  A variable whose bytes are no text
counts as not set.
-/
import GatewayClient.Settings.Basic

namespace GatewayClient

/-- The variables that are set, with their bytes. -/
structure Environment where
  entries : List (String × ByteArray)

namespace Environment

/-- The text of a variable. -/
def text? (env : Environment) (name : String) : Option String :=
  ((env.entries.find? fun v => v.1 == name).map Prod.snd).bind String.fromUTF8?

end Environment

namespace Settings

/-- The waiting time that a text sets: a word of milliseconds, without unit. -/
def waitTimeOf? (text : String) : Option Nat :=
  Text.readWord? text.toList

/-- Settings with what the environment says instead.  A waiting time that is no number says nothing;
the result is not validated. -/
def override (s : Settings) (env : Environment) : Settings where
  waitTime := ((env.text? "FIREBOLT_WAIT_TIME_MS").bind waitTimeOf?).getD s.waitTime
  subscribeTimeout := s.subscribeTimeout
  cleanupInterval := s.cleanupInterval
  gatewayUrl := (env.text? "FIREBOLT_WS_URL").getD s.gatewayUrl
  logLevel := (env.text? "FIREBOLT_LOG_LEVEL").getD s.logLevel
  outboundBuffer := s.outboundBuffer

end Settings

end GatewayClient
