import KnownIssues.Text.Visible

/-!
# Quoted text in messages

A text that a message quotes stands between double quotes.  Quote and backslash follow a backslash,
the tab, the two line ends and `U+0000` have their short escapes, and every other character that is
not visible is written as its code point in braces.
-/

namespace KnownIssues.Text

/-- The written form of one character. -/
def quoteChar (c : Char) : List Char :=
  match c with
  | '"' => ['\\', '"']
  | '\\' => ['\\', '\\']
  | '\t' => ['\\', 't']
  | '\n' => ['\\', 'n']
  | '\r' => ['\\', 'r']
  | '\x00' => ['\\', '0']
  | c => if isVisible c then [c] else ['\\', 'u', '\x7b'] ++ Nat.toDigits 16 c.toNat ++ ['\x7d']

/-- The text between quotes. -/
def quoted (s : String) : String :=
  .ofList ('"' :: s.toList.flatMap quoteChar ++ ['"'])

example : quoted "a\"b\\\n" = "\"a\\\"b\\\\\\n\"" := by decide +kernel

end KnownIssues.Text
