/-!
# Shell tokens

The kinds of token that the shell language is made of, and how a complaint about one names it.
-/
namespace Shellwright.Shell

inductive Token where
  | eof
  | newline
  | redirection
  | word
  | semicolon
  | ampersand
  | andIf
  | orIf
  | bar
  | leftParen
  | rightParen
  | doubleSemicolon
  | reserved (text : String)
deriving DecidableEq

namespace Token

/-- The words that have a meaning of their own where a command can begin. -/
def reservedWords : List String :=
  ["!", "case", "do", "done", "elif", "else", "esac", "fi", "for", "if", "in", "then", "until",
   "while", "\x7b", "\x7d"]

/-- The token that a word is where reserved words are looked for. -/
def ofWord? (text : String) : Option Token :=
  if reservedWords.contains text then some (.reserved text) else none

/-- How a complaint names a token. -/
def describe : Token → String
  | eof => "end of file"
  | newline => "newline"
  | redirection => "redirection"
  | word => "word"
  | semicolon => "\";\""
  | ampersand => "\"&\""
  | andIf => "\"&&\""
  | orIf => "\"||\""
  | bar => "\"|\""
  | leftParen => "\"(\""
  | rightParen => "\")\""
  | doubleSemicolon => "\";;\""
  | reserved text => "\"" ++ text ++ "\""

/-- Whether a token ends a list of commands. -/
def endsList : Token → Bool
  | eof | rightParen | doubleSemicolon => true
  | reserved text =>
    ["do", "done", "elif", "else", "esac", "fi", "then", "\x7d"].contains text
  | _ => false

end Token

end Shellwright.Shell
