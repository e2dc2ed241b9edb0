import GraphRead.Value.Json
import GraphRead.Json.Read
import GraphRead.Error
/-!
Cursors: the place of a record in an ordered list, as the values of the order's columns.

A cursor travels as the base64 text, in the alphabet for addresses, of the tagged JSON array of
its values. `Cursor.decode` reads back what `Cursor.encode` writes and says what is wrong with
anything else.
-/

namespace GraphRead

/-- The values that a record is sorted by. -/
structure Cursor where
  values : List Value
  deriving Repr

namespace Cursor

/-- The text of a cursor. -/
def encode (cursor : Cursor) : String :=
  let json := String.ofList (Value.tagged (.list cursor.values)).text
  String.ofList (Base64.encode Base64.urlSafe json.toUTF8.toList)

/-- What can be wrong with the text of a cursor. -/
inductive Fault where
  | notBase64
  | notJson
  | unreadable (failure : ConversionFailure)
  | notValues
  deriving DecidableEq, Repr

/-- The fault of a text in words. -/
def Fault.reason (fault : Fault) (text : String) : String :=
  match fault with
  | notBase64 => "`" ++ text ++ "` is not valid base64"
  | notJson => "`" ++ text ++ "` does not contain JSON"
  | unreadable failure => failure.message
  | notValues => "`" ++ text ++ "` does not hold a list of values"

/-- The characters of bytes in UTF-8. -/
def characters? (bytes : List UInt8) : Option (List Char) :=
  (String.fromUTF8? ⟨bytes.toArray⟩).map String.toList

/-- Reads the values of a cursor, of which there is at least one. -/
def decode? (text : String) : Except Fault Cursor :=
  match Base64.decode Base64.urlSafe text.toList with
  | none => .error .notBase64
  | some bytes =>
    match (characters? bytes).bind Json.read with
    | none => .error .notJson
    | some json =>
      match Value.ofTagged json with
      | .error failure => .error (.unreadable failure)
      | .ok (.list (v :: vs)) => .ok ⟨v :: vs⟩
      | .ok _ => .error .notValues

/-- Reads a cursor, or says in words why the text is none. -/
def decode (text : String) : Except DomainError Cursor :=
  (decode? text).mapError fun fault => .invalidCursor (fault.reason text)

end Cursor

end GraphRead
