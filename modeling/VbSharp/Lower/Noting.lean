import VbSharp.Fault

/-!
# Findings made on the way

While an expression is lowered, two kinds of finding are noted: names that nobody declares, and date
literals that have to be checked at run time. The notes of a whole are the notes of its parts in order.
-/
namespace VbSharp

/-- A finding for the outermost code to act on. -/
inductive Note where
  | undeclared (name : Token)
  | date (text : String)
  deriving Repr, DecidableEq

def Noting (α : Type) : Type :=
  Except Fault (α × List Note)

namespace Noting

variable {α β : Type}

def done (a : α) : Noting α :=
  Except.ok (a, [])

/-- Goes on with the result; the notes of both parts are kept. -/
def andThen (first : Noting α) (next : α → Noting β) : Noting β :=
  match first with
  | .error fault => .error fault
  | .ok (a, notes) =>
    match next a with
    | .error fault => .error fault
    | .ok (b, more) => .ok (b, notes ++ more)

instance : Monad Noting where
  pure := done
  bind := andThen

def fail (fault : Fault) : Noting α :=
  Except.error fault

def note (n : Note) : Noting Unit :=
  Except.ok ((), [n])

def lift (result : Except Fault α) : Noting α :=
  match result with
  | .ok a => done a
  | .error fault => fail fault

end Noting
end VbSharp
