import Lisplet.Integer
import Lisplet.Text.Place
import Lisplet.Text.Quoted

/-!
# Why a text cannot be read

A parse error is a cause and the place it is reported at.  The nesting limit belongs to the machine
and not to the text; that error is reported where the reader stood when the limit was met.
-/

namespace Lisplet

open Text (Place)

inductive ParseCause where
  /-- a text was needed and something else, or the end, was found -/
  | expected (wanted : String) (found : Option Char)
  /-- no expression starts with this character -/
  | notAnExpression (found : Char)
  /-- the text ends where an expression should start -/
  | endBeforeExpression
  | endInList
  | endInString
  /-- the backslash is followed by a character that means nothing there -/
  | invalidEscape (found : Char)
  | integerRange
  /-- the text does not start with a list -/
  | noUnit (found : Option Char)
  | trailing (found : Char)
  /-- more lists are open at once than the reader admits -/
  | nestedTooDeeply
  deriving DecidableEq, Repr

/-- a character in quotes, or the end of the text -/
def foundText : Option Char → String
  | some c => Text.quotedOne c
  | none => "end of input"

def ParseCause.message : ParseCause → String
  | .expected w f => "expected " ++ Text.quoted w ++ ", got " ++ foundText f
  | .notAnExpression c => "expected LIST, STRING, SYMBOL or INTEGER, but found " ++ Text.quotedOne c
  | .endBeforeExpression => "end of input while expecting an expression"
  | .endInList => "end of input within list"
  | .endInString => "end of input within string literal"
  | .invalidEscape c => "invalid escape sequence '\\" ++ String.singleton c ++ "'"
  | .integerRange => "integer literal out of range"
  | .noUnit f => "expected '(' to open the compilation unit, got " ++ foundText f
  | .trailing c => "unexpected " ++ Text.quotedOne c ++ " after end of expression"
  | .nestedTooDeeply => "lists nested too deeply"

/-- a message with the line and column it is about; without a line there is nothing to add -/
def located (message : String) (line column : Option Int) : String :=
  match line with
  | none => message
  | some l =>
    message ++ " (line " ++ String.ofList (Integer.text l) ++ ", column "
      ++ (match column with
        | none => "None"
        | some c => String.ofList (Integer.text c))
      ++ ")"

structure ParseError where
  placed ::
  cause : ParseCause
  place : Place
  deriving DecidableEq, Repr

namespace ParseError

def tooDeep (place : Place) : ParseError := .placed .nestedTooDeeply place

def message (e : ParseError) : String := e.cause.message

def text (e : ParseError) : String :=
  located e.message (some (e.place.line : Int)) (some (e.place.column : Int))

end ParseError

end Lisplet
