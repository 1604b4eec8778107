import PolicyEngine.Number.Text
import PolicyEngine.Text.CharRange
import PolicyEngine.Text.HiddenTable

/-!
Texts in quotes, for messages. Whatever could not be seen in print is written as an escape, so that two
texts that differ also look different.
-/
namespace PolicyEngine.Text

/-- Whether a character leaves no mark of its own. -/
def isHidden (c : Char) : Bool := inRanges hiddenRanges c

/-- The escape that gives the code point of a character in hexadecimal digits. -/
def codePointEscape (c : Char) : List Char :=
  ['\\', 'u', '\x7b'] ++ Number.natInRadix 16 c.toNat ++ ['\x7d']

def escapeQuoted (c : Char) : List Char :=
  match c with
  | '"' => ['\\', '"']
  | '\\' => ['\\', '\\']
  | '\n' => ['\\', 'n']
  | '\r' => ['\\', 'r']
  | '\t' => ['\\', 't']
  | '\x00' => ['\\', '0']
  | c => if isHidden c then codePointEscape c else [c]

/-- The text in quotes. -/
def quoted (s : String) : String := String.ofList ('"' :: s.toList.flatMap escapeQuoted ++ ['"'])

end PolicyEngine.Text
