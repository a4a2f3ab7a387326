import TableLexer.Text.Unprintable

/-!
# Quoted text

A character or a string between quotes. What would end the quotation, the
backslash, and what has no glyph are written by an escape; everything else
stands for itself. The escape of a character depends on the quote only.
-/

namespace TableLexer.Text

/-- The number of a character in lower-case hexadecimal, between braces. -/
def numbered (c : Char) : List Char :=
  '\\' :: 'u' :: '\x7b' :: (Nat.toDigits 16 c.toNat ++ ['\x7d'])

/-- How `c` is written between two `quote` characters. -/
def escape (quote c : Char) : List Char :=
  if c = '\x00' then ['\\', '0']
  else if c = '\t' then ['\\', 't']
  else if c = '\n' then ['\\', 'n']
  else if c = '\r' then ['\\', 'r']
  else if c = '\\' ∨ c = quote then ['\\', c]
  else if isUnprintable c then numbered c
  else [c]

def quoteWith (quote : Char) (text : List Char) : String :=
  String.ofList (quote :: (text.flatMap (escape quote) ++ [quote]))

/-- A character in single quotes. -/
def quoteChar (c : Char) : String := quoteWith '\'' [c]

/-- A string in double quotes. -/
def quoteString (s : String) : String := quoteWith '"' s.toList

@[simp] theorem toList_quoteWith (quote : Char) (text : List Char) :
    (quoteWith quote text).toList = quote :: (text.flatMap (escape quote) ++ [quote]) := by
  simp [quoteWith]

end TableLexer.Text
