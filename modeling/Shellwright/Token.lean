import Shellwright.Keyword
import Shellwright.Position

/-!
# Tokens

A token is a kind together with the position of its first character. The payload of a kind is the
text that was read: the digits of a number stay text, and a string keeps what stands between its
quotes as it is.
-/
namespace Shellwright

namespace Token

inductive Kind where
  | ident (name : String)
  | string (text : String)
  | number (digits : String)
  | keyword (word : Keyword)
  | symbol (char : Char)
  | eof
deriving DecidableEq

namespace Kind

/-- The source text of a token; the end of the input has none. -/
def lexeme : Kind → String
  | ident name => name
  | string text => "\"" ++ text ++ "\""
  | number digits => digits
  | keyword word => word.text
  | symbol char => String.singleton char
  | eof => ""

/-- How a message names a token. -/
def describe : Kind → String
  | ident name => "identifier '" ++ name ++ "'"
  | string text => "string \"" ++ text ++ "\""
  | number digits => "number " ++ digits
  | keyword word => "keyword '" ++ word.text ++ "'"
  | symbol char => "'" ++ String.singleton char ++ "'"
  | eof => "end of input"

def isSymbol (k : Kind) (c : Char) : Bool := k = symbol c

def isKeyword (k : Kind) (w : Keyword) : Bool := k = keyword w

end Kind

end Token

structure Token where
  kind : Token.Kind
  position : Position
deriving DecidableEq

end Shellwright
