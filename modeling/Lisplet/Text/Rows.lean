/-!
# Rows of a text

An editor shows a text in rows.  A row ends with a line feed, a carriage return, both in this order,
or one of the other characters that end a line; the end belongs to the row.  A text that ends with a
row end has no empty row after it.
-/

namespace Lisplet.Text

def isRowEnd (c : Char) : Bool :=
  c = '\n' || c = '\r' || c = '\x0b' || c = '\x0c' || c = '\x1c' || c = '\x1d' || c = '\x1e'
    || c = '\u0085' || c = '\u2028' || c = '\u2029'

/-- the rows of a text; `row` is the row being read, last character first -/
def rowsFrom (row : List Char) : List Char → List (List Char)
  | [] => if row.isEmpty then [] else [row.reverse]
  | '\r' :: '\n' :: cs => ('\n' :: '\r' :: row).reverse :: rowsFrom [] cs
  | c :: cs => if isRowEnd c then (c :: row).reverse :: rowsFrom [] cs else rowsFrom (c :: row) cs

theorem rowsFrom_crlf (row cs : List Char) :
    rowsFrom row ('\r' :: '\n' :: cs) = ('\n' :: '\r' :: row).reverse :: rowsFrom [] cs := rfl

theorem rowsFrom_cons (row : List Char) {c : Char} {cs : List Char}
    (h : c = '\r' → cs.head? ≠ some '\n') :
    rowsFrom row (c :: cs) = if isRowEnd c then (c :: row).reverse :: rowsFrom [] cs
      else rowsFrom (c :: row) cs := by
  rw [rowsFrom.eq_def]
  split
  · next he => cases he
  · next he =>
    injection he with hc hcs
    exact absurd (by rw [hcs]; rfl) (h hc)
  · next he =>
    injection he with hc hcs
    rw [hc, hcs]

/-- the rows of a text, each with its end -/
def rows (cs : List Char) : List (List Char) := rowsFrom [] cs

end Lisplet.Text
