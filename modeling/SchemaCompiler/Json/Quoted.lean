import SchemaCompiler.Json.Token

/-
JSON strings as written.

A string stands between double quotes.  The quote, the backslash and control
characters are escaped, by a letter where there is one and by four hexadecimal
digits otherwise; every other character stands for itself.
-/

namespace SchemaCompiler
namespace Json

/-- A hexadecimal digit. -/
def hexDigit (n : Nat) : Char :=
  Nat.digitChar (n % 16)

/-- The written form of a character inside quotes. -/
def escapeChar (c : Char) : List Char :=
  if c = '"' then ['\\', '"']
  else if c = '\\' then ['\\', '\\']
  else if c = '\x08' then ['\\', 'b']
  else if c = '\x0c' then ['\\', 'f']
  else if c = '\n' then ['\\', 'n']
  else if c = '\r' then ['\\', 'r']
  else if c = '\t' then ['\\', 't']
  else if c.toNat < 0x20 then
    ['\\', 'u', '0', '0', hexDigit (c.toNat / 16), hexDigit c.toNat]
  else [c]

/-- A string as written. -/
def quote (content : String) : String :=
  String.ofList ('"' :: content.toList.flatMap escapeChar ++ ['"'])

example : quote "a\"\n\x01" = "\"a\\\"\\n\\u0001\"" := by decide

end Json
end SchemaCompiler
