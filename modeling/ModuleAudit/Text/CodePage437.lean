import ModuleAudit.Bytes

/-! # Code page 437

The character set of names in archives that do not say otherwise: ASCII, and a row of other characters for
the bytes from 128 on.
-/

namespace ModuleAudit.CodePage437
set_option autoImplicit false

/-- The characters of the bytes from 128 on. -/
def upperHalf : String :=
  "ÇüéâäàåçêëèïîìÄÅÉæÆôöòûùÿÖÜ¢£¥₧ƒ" ++
    "áíóúñÑªº¿⌐¬½¼¡«»░▒▓│┤╡╢╖╕╣║╗╝╜╛┐" ++
    "└┴┬├─┼╞╟╚╔╩╦╠═╬╧╨╤╥╙╘╒╓╫╪┘┌█▄▌▐▀" ++
    "αßΓπΣσµτΦΘΩδ∞φε∩≡±≥≤⌠⌡÷≈°∙·√ⁿ²■\u00a0"

def decodeByte (byte : UInt8) : Char :=
  if byte < 128 then Char.ofNat byte.toNat else (upperHalf.toList[byte.toNat - 128]?).getD (Char.ofNat 0)

def decode (bytes : Bytes) : String := String.ofList (bytes.map decodeByte)

end ModuleAudit.CodePage437
