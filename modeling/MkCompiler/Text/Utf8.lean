/-!
# Text as bytes

Text is encoded in UTF-8. Bytes that are not part of an encoded character are read as replacement
characters, one for each byte.
-/

namespace MkCompiler.Utf8

def encode (text : String) : List UInt8 :=
  text.toUTF8.toList

/-- Reads bytes from a position on as text. At most `count` characters are read. -/
def decodeFrom (bytes : ByteArray) (position : Nat) : Nat → List Char
  | 0 => []
  | count + 1 =>
    if bytes.size ≤ position then
      []
    else
      match bytes.utf8DecodeChar? position with
      | some c => c :: decodeFrom bytes (position + c.utf8Size) count
      | none => '�' :: decodeFrom bytes (position + 1) count

def decode (bytes : List UInt8) : String :=
  String.ofList (decodeFrom ⟨bytes.toArray⟩ 0 bytes.length)

end MkCompiler.Utf8
