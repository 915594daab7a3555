/-
The error object of a reply: a code, a text and perhaps some data.  A reply's error may be any
value, so `ofWire` makes an object of every value: one that is well formed is taken as it is, and of
any other the code is kept where there is one and the whole value becomes the text.
-/
import GatewayClient.Failure
import GatewayClient.Json.Writer
import GatewayClient.Shape.Codec

namespace GatewayClient

/-- The error of a reply. -/
structure ErrorObject where
  code : Int32
  message : String
  data : Option Json
deriving DecidableEq

namespace ErrorObject

def codec : Codec ErrorObject :=
  (Fields.cons (.required "code" .int32) <|
    .cons (.defaulted "message" .string "") <|
    .cons (.optional "data" .value) .nil).record.convert
    (fun (code, message, data, ()) => ⟨code, message, data⟩)
    (fun e => (e.code, e.message, e.data, ()))

/-- The code of an object whose other members may be anything; 1 where it has none in range. -/
def codeOf (value : Json) : Int32 :=
  ((value.get? "code").bind Codec.int32.decode).getD 1

/-- The error object that a value stands for. -/
def ofWire (value : Json) : ErrorObject :=
  match codec.decode value with
  | some e => e
  | none => ⟨codeOf value, value.render, none⟩

def ofFailure (f : Failure) : ErrorObject :=
  ⟨Int32.ofInt f.code, f.message, none⟩

/-- The failure that an error object reports.  Code 0 reports none, but an error is no success. -/
def toFailure (e : ErrorObject) : Failure :=
  (Failure.ofCode? e.code.toInt).getD .general

/-- A failure survives the wire. -/
theorem toFailure_ofFailure (f : Failure) : (ofFailure f).toFailure = f := by
  cases f <;> decide

end ErrorObject

end GatewayClient
