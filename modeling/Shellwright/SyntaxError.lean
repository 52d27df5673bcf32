import Shellwright.Token

/-!
# Syntax errors

Why a stream of tokens is no program, and at which token that shows.
-/
namespace Shellwright

open Token (Kind)

/-- How deeply blocks, pipes and calls may be nested in each other. -/
def maxNesting : Nat := 256

/-- A token that the grammar leaves no choice about. -/
inductive Expectation where
  | symbol (char : Char)
  | keyword (word : Keyword)
  | identifier
deriving DecidableEq

def Expectation.text : Expectation → String
  | symbol char => "'" ++ String.singleton char ++ "'"
  | keyword word => "'" ++ word.text ++ "'"
  | identifier => "identifier"

namespace SyntaxError

inductive Cause where
  /-- Something else stands where only `what` can. -/
  | expected (what : Expectation) (found : Kind)
  | expectedExpression (found : Kind)
  /-- A keyword that begins no statement. -/
  | unknownKeyword (word : Keyword)
  /-- A token that begins no statement. -/
  | unexpectedToken (found : Kind)
  /-- An expression that stands alone and is no call. -/
  | invalidStatement (text : String)
  /-- Some other construct than a command between the braces of a pipe. -/
  | nonRunInPipe (construct : String)
  | nestingTooDeep
deriving DecidableEq

def Cause.message : Cause → String
  | expected what found => "expected " ++ what.text ++ ", got " ++ found.describe
  | expectedExpression found => "expected expression, got " ++ found.describe
  | unknownKeyword word => "unknown keyword: " ++ word.text
  | unexpectedToken found => "unexpected token: " ++ found.describe
  | invalidStatement text => "invalid statement: " ++ text
  | nonRunInPipe construct =>
    "only 'run' statements are allowed inside pipe block, got '" ++ construct ++ "'"
  | nestingTooDeep => "nesting deeper than " ++ toString maxNesting ++ " levels"

end SyntaxError

structure SyntaxError where
  cause : SyntaxError.Cause
  position : Position
deriving DecidableEq

namespace SyntaxError

/-- The message without its place. -/
def short (e : SyntaxError) : String := "syntax error: " ++ e.cause.message

def message (e : SyntaxError) : String := e.short ++ " at " ++ e.position.phrase

end SyntaxError

end Shellwright
