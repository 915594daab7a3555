/-
Payload shapes of the accessibility module: captions and their styles, voice guidance, and audio
description.
-/
import GatewayClient.Shape.Codec

namespace GatewayClient

/-- How captions look; what is not said is left to the application. -/
structure ClosedCaptionsStyles where
  fontFamily : Option String := none
  fontSize : Option Binary64 := none
  fontColor : Option String := none
  fontEdge : Option String := none
  fontEdgeColor : Option String := none
  fontOpacity : Option UInt8 := none
  backgroundColor : Option String := none
  backgroundOpacity : Option UInt8 := none
  textAlign : Option String := none
  textAlignVertical : Option String := none
  windowColor : Option String := none
  windowOpacity : Option UInt8 := none
deriving DecidableEq

def ClosedCaptionsStyles.codec : Codec ClosedCaptionsStyles :=
  (Fields.cons (.optional "fontFamily" .string) <|
    .cons (.optional "fontSize" .double) <|
    .cons (.optional "fontColor" .string) <|
    .cons (.optional "fontEdge" .string) <|
    .cons (.optional "fontEdgeColor" .string) <|
    .cons (.optional "fontOpacity" .uint8) <|
    .cons (.optional "backgroundColor" .string) <|
    .cons (.optional "backgroundOpacity" .uint8) <|
    .cons (.optional "textAlign" .string) <|
    .cons (.optional "textAlignVertical" .string) <|
    .cons (.optional "windowColor" .string) <|
    .cons (.optional "windowOpacity" .uint8) .nil).record.convert
    (fun (fontFamily, fontSize, fontColor, fontEdge, fontEdgeColor, fontOpacity, backgroundColor,
        backgroundOpacity, textAlign, textAlignVertical, windowColor, windowOpacity, ()) =>
      ⟨fontFamily, fontSize, fontColor, fontEdge, fontEdgeColor, fontOpacity, backgroundColor,
        backgroundOpacity, textAlign, textAlignVertical, windowColor, windowOpacity⟩)
    (fun s => (s.fontFamily, s.fontSize, s.fontColor, s.fontEdge, s.fontEdgeColor, s.fontOpacity,
      s.backgroundColor, s.backgroundOpacity, s.textAlign, s.textAlignVertical, s.windowColor,
      s.windowOpacity, ()))

structure ClosedCaptionsSettings where
  enabled : Bool
  styles : ClosedCaptionsStyles
  preferredLanguages : Option (List String)
deriving DecidableEq

def ClosedCaptionsSettings.codec : Codec ClosedCaptionsSettings :=
  (Fields.cons (.required "enabled" .bool) <|
    .cons (.defaulted "styles" ClosedCaptionsStyles.codec {}) <|
    .cons (.optional "preferredLanguages" (.list .string)) .nil).record.convert
    (fun (enabled, styles, preferredLanguages, ()) => ⟨enabled, styles, preferredLanguages⟩)
    (fun s => (s.enabled, s.styles, s.preferredLanguages, ()))

structure VoiceGuidanceSettings where
  enabled : Bool
  speed : Binary64
deriving DecidableEq

def VoiceGuidanceSettings.codec : Codec VoiceGuidanceSettings :=
  (Fields.cons (.required "enabled" .bool) <|
    .cons (.required "speed" .double) .nil).record.convert
    (fun (enabled, speed, ()) => ⟨enabled, speed⟩)
    (fun s => (s.enabled, s.speed, ()))

structure AudioDescriptionSettings where
  enabled : Bool
deriving DecidableEq

def AudioDescriptionSettings.codec : Codec AudioDescriptionSettings :=
  (Fields.cons (.required "enabled" .bool) .nil).record.convert
    (fun (enabled, ()) => ⟨enabled⟩)
    (fun s => (s.enabled, ()))

end GatewayClient
