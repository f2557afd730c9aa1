import Mathlib.Tactic.TypeStar

/-!
# Programs that read a changing world

A query is a program that looks at the world several times before it has a value, and
between two looks the world may change. `Continues` says which looks have led from a
program to its rest.
-/

namespace Readings

universe u v w

inductive Query (World : Type u) (α : Type v) where
  | done (value : α)
  | read (next : World → Query World α)

namespace Query

variable {World : Type u} {α : Type v} {β : Type w}

def bind : Query World α → (α → Query World β) → Query World β
  | done value, f => f value
  | read next, f => read fun world => bind (next world) f

instance : Monad (Query World) where
  pure := done
  bind := bind

/-- One look at the world. -/
def ask (f : World → α) : Query World α := read fun world => done (f world)

/-- The value after exactly the given looks. -/
def answer : Query World α → List World → Option α
  | done value, [] => some value
  | done _, _ :: _ => none
  | read _, [] => none
  | read next, world :: rest => answer (next world) rest

/-- `rest` is what `q` has left after the looks `seen`. -/
def Continues (q : Query World α) (seen : List World) (rest : Query World α) : Prop :=
  ∀ later, rest.answer later = q.answer (seen ++ later)

variable {q : Query World α} {seen : List World}

theorem Continues.start (q : Query World α) : q.Continues [] q := fun _ => rfl

theorem Continues.read {next : World → Query World α} (h : q.Continues seen (.read next))
    (world : World) : q.Continues (seen ++ [world]) (next world) := by
  intro later
  rw [List.append_assoc, ← h]
  rfl

theorem Continues.answer {value : α} (h : q.Continues seen (.done value)) :
    q.answer seen = some value := by
  have := h []
  rw [List.append_nil] at this
  exact this.symm

end Query

end Readings
