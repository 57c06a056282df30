/-!
# Progress

How much of a task is done, from 0 to 1. It only grows.
-/

namespace Linkage

/-- The part of a task that is done. -/
structure Progress where
  fraction : Float := 0.0

namespace Progress

/-- A number brought between 0 and 1; what is not a number counts as 0. -/
def clamp (f : Float) : Float :=
  if f.isNaN then 0.0 else if f < 0.0 then 0.0 else if f > 1.0 then 1.0 else f

/-- The progress with a larger fraction; nothing if the fraction is not larger. -/
def raise? (p : Progress) (f : Float) : Option Progress :=
  if clamp f > p.fraction then some ⟨clamp f⟩ else none

end Progress

end Linkage
