import Shellwright.Stmt
import Shellwright.Token

/-!
# Canonical tokens

The tokens that a tree is written with when nothing is added: what reading undoes. Beside them stand
the two measures that decide whether a tree can be read at all: how deeply it is nested, and whether
every part of it is a form that the grammar has.

## Main definitions

* `Expr.kinds`, `Stmt.kinds`, `Program.kinds`: the canonical tokens.
* `Expr.nesting`, `Stmt.nesting`, `Program.nesting`: levels of blocks, pipes and calls.
* `Stmt.wellFormed`, `Program.wellFormed`: every command has a word, and only calls stand alone.
-/
namespace Shellwright

open Token (Kind)

namespace Expr

mutual

def kinds : Expr → List Kind
  | string text => [.string text]
  | number digits => [.number digits]
  | var name => [.ident name]
  | call name args => .ident name :: .symbol '(' :: (kindsList args ++ [.symbol ')'])

/-- Expressions with a comma between any two. -/
def kindsList : List Expr → List Kind
  | [] => []
  | [e] => e.kinds
  | e :: f :: es => e.kinds ++ .symbol ',' :: kindsList (f :: es)

end

mutual

def nesting : Expr → Nat
  | call _ args => nestingList args + 1
  | _ => 0

def nestingList : List Expr → Nat
  | [] => 0
  | e :: es => max e.nesting (nestingList es)

end

def isCall : Expr → Bool
  | call _ _ => true
  | _ => false

end Expr

def Invocation.kinds (c : Invocation) : List Kind := .keyword .run :: Expr.kindsList c

def Invocation.nesting (c : Invocation) : Nat := Expr.nestingList c

namespace Stmt

/-- Tokens between braces. -/
def braced (ks : List Kind) : List Kind := .symbol '\x7b' :: (ks ++ [.symbol '\x7d'])

mutual

def kinds : Stmt → List Kind
  | decl binding name value =>
    .keyword binding.keyword :: .ident name :: .symbol '=' :: value.kinds
  | run command => Invocation.kinds command
  | ifThen cond body => .keyword .if_ :: (cond.kinds ++ braced (kindsList body))
  | forIn name iterable body =>
    .keyword .for_ :: .ident name :: .keyword .in_ :: (iterable.kinds ++ braced (kindsList body))
  | pipe commands => .keyword .pipe :: braced (commands.flatMap Invocation.kinds)
  | expr value => value.kinds

def kindsList : List Stmt → List Kind
  | [] => []
  | s :: ss => s.kinds ++ kindsList ss

end

mutual

def nesting : Stmt → Nat
  | decl _ _ value => value.nesting
  | run command => Invocation.nesting command
  | ifThen cond body => max cond.nesting (nestingList body + 1)
  | forIn _ iterable body => max iterable.nesting (nestingList body + 1)
  | pipe commands => Expr.nestingList commands.flatten + 1
  | expr value => value.nesting

def nestingList : List Stmt → Nat
  | [] => 0
  | s :: ss => max s.nesting (nestingList ss)

end

mutual

def wellFormed : Stmt → Bool
  | decl _ _ _ => true
  | run command => !command.isEmpty
  | ifThen _ body => wellFormedList body
  | forIn _ _ body => wellFormedList body
  | pipe commands => commands.all (!·.isEmpty)
  | expr value => value.isCall

def wellFormedList : List Stmt → Bool
  | [] => true
  | s :: ss => s.wellFormed && wellFormedList ss

end

end Stmt

namespace Program

def kinds (p : Program) : List Kind := Stmt.kindsList p

def nesting (p : Program) : Nat := Stmt.nestingList p

def wellFormed (p : Program) : Bool := Stmt.wellFormedList p

end Program

end Shellwright
