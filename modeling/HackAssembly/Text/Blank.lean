import HackAssembly.Text.Bytes

/-!
# White space

The characters with the Unicode property `White_Space`, and trimming. A text need not be
well-formed UTF-8, so an outer blank is a beginning or an ending that is exactly the encoding of a
blank character: a lone byte `0x85` or `0xA0` is none.
-/

namespace HackAssembly.Blank

/-- The characters with the property `White_Space`. -/
def characters : List Char :=
  ['\x09', '\x0a', '\x0b', '\x0c', '\x0d', '\x20', '\u0085', '\u00a0', '\u1680',
   '\u2000', '\u2001', '\u2002', '\u2003', '\u2004', '\u2005', '\u2006', '\u2007', '\u2008',
   '\u2009', '\u200a', '\u2028', '\u2029', '\u202f', '\u205f', '\u3000']

def encodings : List Bytes := characters.map String.utf8EncodeChar

/-- The UTF-8 forms read backwards, for trimming at the end. -/
def reversedEncodings : List Bytes := encodings.map List.reverse

/-- Removes members of `units` from the front of `s` for as long as one stands there. -/
def dropUnits (units : List Bytes) (s : Bytes) : Bytes :=
  match _h : units.find? fun u => !u.isEmpty && u.isPrefixOf s with
  | none => s
  | some u => dropUnits units (s.drop u.length)
termination_by s.length
decreasing_by
  have hu := List.find?_some _h
  simp only [Bool.and_eq_true, Bool.not_eq_true', List.isEmpty_eq_false_iff,
    List.isPrefixOf_iff_prefix] at hu
  have hpos := List.length_pos_iff.mpr hu.1
  have hle := hu.2.length_le
  simp only [List.length_drop]
  omega

def trimLeft (s : Bytes) : Bytes := dropUnits encodings s

def trimRight (s : Bytes) : Bytes := (dropUnits reversedEncodings s.reverse).reverse

/-- Removes the blanks at both ends of `s`. -/
def trim (s : Bytes) : Bytes := trimRight (trimLeft s)

end HackAssembly.Blank
