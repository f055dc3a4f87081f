import System370.Text.Utf8

/-!
# White space

White space is what the Unicode property of that name says: the ASCII blank and
the five controls from horizontal tab to carriage return, next line, the
no-break space, the spaces of general punctuation and the ideographic space.
A stray octet is never white space.
-/

namespace System370

/-- Whether a code point is white space. -/
def isWhiteSpace (code : Nat) : Bool :=
  code = 0x20 || (0x09 ≤ code && code ≤ 0x0D) || code = 0x85 || code = 0xA0 ||
    code = 0x1680 ||
    (0x2000 ≤ code && code ≤ 0x200A) || code = 0x2028 || code = 0x2029 ||
      code = 0x202F ||
    code = 0x205F || code = 0x3000

/-- A text without the white space at its two ends. -/
def trim (text : Bytes) : Bytes :=
  let inner :=
    ((Utf8.decode text).dropWhile fun r => isWhiteSpace r.code).reverse
  ((inner.dropWhile fun r => isWhiteSpace r.code).reverse).flatMap (·.spelling)

/-- Whether a text holds nothing but white space. -/
def isBlank (text : Bytes) : Bool :=
  (Utf8.decode text).all fun r => isWhiteSpace r.code

end System370
