import ConfigSchema.Text.Invisible

/-!
Characters written as literals between single quotes.
-/

namespace ConfigSchema.Text

/-- The content of a literal: a quote and a backslash get a backslash, four controls have a letter,
and what cannot be seen is written by its code point in hexadecimal digits. -/
def charLiteralBody (c : Char) : List Char :=
  if c = '\x00' then ['\\', '0']
  else if c = '\t' then ['\\', 't']
  else if c = '\r' then ['\\', 'r']
  else if c = '\n' then ['\\', 'n']
  else if c = '\\' then ['\\', '\\']
  else if c = '\'' then ['\\', '\'']
  else if isInvisible c then '\\' :: 'u' :: '\x7b' :: (Nat.toDigits 16 c.toNat ++ ['\x7d'])
  else [c]

def charLiteral (c : Char) : String :=
  String.ofList ('\'' :: (charLiteralBody c ++ ['\'']))

end ConfigSchema.Text
