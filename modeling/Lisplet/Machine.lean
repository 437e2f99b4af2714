import Lisplet.World

/-!
# Machines

A program runs on a machine that counts stack levels.  A new process may use `limit` of them, which
can be raised; `room` is how many the stack itself holds, whatever the limit.  There are always
enough to read a text and to word its errors.
-/

namespace Lisplet

structure Machine where
  limit : Nat
  room : Nat
  overhead_lt : Reading.overhead < limit

/-- a new process on a machine whose stack holds so many levels -/
def Machine.newProcess (room : Nat) : Machine := ⟨1000, room, by decide⟩

end Lisplet
