import SharedRuntime.Bytes

/-!
# Code page 437

The character set of archive names that are not marked as UTF-8. The lower half is ASCII; the
upper half is the table below.
-/

set_option autoImplicit false

namespace SharedRuntime.CodePage437

/-- The characters of the bytes 128 to 255, in order. -/
def upperHalf : List Char :=
  "ÇüéâäàåçêëèïîìÄÅÉæÆôöòûùÿÖÜ¢£¥₧ƒáíóúñÑªº¿⌐¬½¼¡«»░▒▓│┤╡╢╖╕╣║╗╝╜╛┐└┴┬├─┼╞╟╚╔╩╦╠═╬╧╨╤╥╙╘╒╓╫╪┘┌█▄▌▐▀αßΓπΣσµτΦΘΩδ∞φε∩≡±≥≤⌠⌡÷≈°∙·√ⁿ²■\u00A0".toList

/-- The character of a byte. -/
def charOf (b : UInt8) : Char :=
  if b < 0x80 then Char.ofNat b.toNat else upperHalf.getD (b.toNat - 128) ' '

/-- The text of the bytes. -/
def decode (bs : Bytes) : String := String.ofList (bs.map charOf)

end SharedRuntime.CodePage437
