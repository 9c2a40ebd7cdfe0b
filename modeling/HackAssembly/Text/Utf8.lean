import HackAssembly.Text.Bytes

/-!
# Reading UTF-8

The character that a text starts with, if its first bytes are the encoding of one. The code point
is put together from the lead byte and the bytes after it, and then encoded again: overlong forms,
surrogates and truncated sequences do not encode to what was read and so are refused.
-/

namespace HackAssembly.Utf8

def encode (c : Char) : Bytes := String.utf8EncodeChar c

/-- How many bytes a lead byte announces. -/
def announced (lead : UInt8) : Nat :=
  if lead < 0x80 then 1 else if lead < 0xE0 then 2 else if lead < 0xF0 then 3 else 4

/-- The number formed by the payload bits of a lead byte and of the bytes that it announces. -/
def codePoint (lead : UInt8) (rest : Bytes) : Nat :=
  let width := announced lead
  let payload := if width = 1 then lead.toNat else lead.toNat % Nat.pow 2 (7 - width)
  (rest.take (width - 1)).foldl (fun n b => n * 64 + b.toNat % 64) payload

/-- The character whose encoding `s` starts with. -/
def first? : Bytes → Option Char
  | [] => none
  | lead :: rest =>
    let n := codePoint lead rest
    if n.isValidChar ∧ (encode (Char.ofNat n)).isPrefixOf (lead :: rest) then
      some (Char.ofNat n)
    else
      none

end HackAssembly.Utf8
