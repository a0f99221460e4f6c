/-!
# Bytes

Payloads and documents are lists of bytes; a text is known by its UTF-8 form.
-/

namespace RoutedCache

abbrev Bytes := List UInt8

/-- The UTF-8 form of a text. -/
def utf8 (text : String) : Bytes := text.toUTF8.data.toList

/-- The text with this UTF-8 form, if there is one. -/
def Bytes.text? (bytes : Bytes) : Option String := String.fromUTF8? ⟨bytes.toArray⟩

def asciiBytes (s : List Char) : Bytes := s.map fun c => c.toNat.toUInt8

end RoutedCache
