/-
**The text of code page 437.**

Every byte is one character: those of ASCII for themselves, and the upper half for letters with
marks, lines and blocks, and mathematical signs.

Main definitions:

* `Upkeep.Text.CodePage.decode` — the text of some bytes.
-/

set_option relaxedAutoImplicit false
set_option autoImplicit false

namespace Upkeep

namespace Text

namespace CodePage

/-- The characters of the upper half. -/
def upperHalf : Array Char :=
  ("ÇüéâäàåçêëèïîìÄÅ" ++ "ÉæÆôöòûùÿÖÜ¢£¥₧ƒ" ++ "áíóúñÑªº¿⌐¬½¼¡«»" ++ "░▒▓│┤╡╢╖╕╣║╗╝╜╛┐" ++
    "└┴┬├─┼╞╟╚╔╩╦╠═╬╧" ++ "╨╤╥╙╘╒╓╫╪┘┌█▄▌▐▀" ++ "αßΓπΣσµτΦΘΩδ∞φε∩" ++
    "≡±≥≤⌠⌡÷≈°∙·√ⁿ²■\u00A0").toList.toArray

/-- The character of a byte. -/
def char (b : UInt8) : Char :=
  if b < 0x80 then Char.ofNat b.toNat else upperHalf[b.toNat - 0x80]?.getD '?'

/-- The text of some bytes. -/
def decode (bytes : List UInt8) : String := String.ofList (bytes.map char)

end CodePage

end Text

end Upkeep
