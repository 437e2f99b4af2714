import Lisplet.Reading.Error
import Lisplet.Value.Basic

/-!
# What a reader knows

A reader goes over the characters of a text and looks one character ahead.  A character it has
looked at waits in a buffer until it is taken, so what is left of the text is the buffer and the
rest.  Beside them the reader keeps `Marks`: its place in the text, the symbol table, and the names
and integers it has read.
-/

namespace Lisplet

open Text (Place)

/-- something read that is worth a line in the log: a name with the place right after it, or an
integer -/
inductive Lexeme where
  | name (text : String) (place : Place)
  | integer (n : Nat)
  deriving DecidableEq, Repr

structure Marks where
  place : Place
  table : SymbolTable
  /-- names and integers read so far, last first -/
  seen : List Lexeme

namespace Marks

def taking (m : Marks) (c : Char) : Marks := { m with place := m.place.after c }

/-- one name more: it is interned -/
def named (m : Marks) (name : String) : Marks :=
  { m with table := (m.table.symFor name).2, seen := .name name m.place :: m.seen }

def counted (m : Marks) (n : Nat) : Marks := { m with seen := .integer n :: m.seen }

end Marks

/-- what the reader admits: integers of a width, and so many lists open at once -/
structure Limits where
  width : Nat
  depth : Nat
  deriving DecidableEq, Repr

structure Reader where
  /-- a character that has been looked at and not taken -/
  buffer : Option Char
  /-- the characters after it -/
  rest : List Char
  marks : Marks
  limits : Limits

namespace Reader

def ofText (text : String) (table : SymbolTable) (limits : Limits) : Reader :=
  ⟨none, text.toList, ⟨.start, table, []⟩, limits⟩

def place (r : Reader) : Place := r.marks.place

def left (r : Reader) : List Char := r.buffer.toList ++ r.rest

/-- the reader after a character that was found in the buffer; at the end none was -/
def past (r : Reader) : Option Char → Reader
  | none => { r with buffer := none }
  | some c => { r with buffer := none, marks := r.marks.taking c }

end Reader

end Lisplet
