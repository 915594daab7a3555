/-
Names on the wire.  A member of a module is called `module.member`, the module in lower case; a
property has besides its own name one for its setter and one for the event of its changes.  Case is
that of ASCII letters only.
-/

namespace GatewayClient.WireName

/-- The lower case of an ASCII letter; other characters are left as they are. -/
def lowerChar (c : Char) : Char :=
  if 'A' ≤ c ∧ c ≤ 'Z' then Char.ofNat (c.toNat + 32) else c

/-- The upper case of an ASCII letter; other characters are left as they are. -/
def upperChar (c : Char) : Char :=
  if 'a' ≤ c ∧ c ≤ 'z' then Char.ofNat (c.toNat - 32) else c

/-- A text in ASCII lower case. -/
def lower (text : String) : String :=
  String.ofList (text.toList.map lowerChar)

/-- A name with its first letter in upper case. -/
def capitalize (name : String) : String :=
  match name.toList with
  | [] => ""
  | c :: rest => String.ofList (upperChar c :: rest)

/-- The wire name of a module's member. -/
def method (module member : String) : String :=
  lower module ++ "." ++ member

/-- The wire name that sets a property. -/
def setter (module property : String) : String :=
  method module ("set" ++ capitalize property)

/-- The wire name of the event of a property's changes. -/
def changeEvent (module property : String) : String :=
  method module ("on" ++ capitalize property ++ "Changed")

/-- What stands before and after the first point, if there is one. -/
def splitPoint : List Char → Option (List Char × List Char)
  | [] => none
  | '.' :: rest => some ([], rest)
  | c :: rest => (splitPoint rest).map fun (before, after) => (c :: before, after)

/-- The module and the member that a wire name names; neither may be empty. -/
def split? (full : String) : Option (String × String) :=
  match splitPoint full.toList with
  | some (before, after) =>
    if before.isEmpty ∨ after.isEmpty then none
    else some (String.ofList before, String.ofList after)
  | none => none

end GatewayClient.WireName
