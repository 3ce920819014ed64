import Mathlib.Data.List.DropRight

/-!
# Calls since a clear

What a cache remembers was asked for after its last clear.
-/

namespace ClassScope

variable {α : Type} {clears : α → Bool}

/-- The calls after the last one that clears. -/
def sinceClear (clears : α → Bool) (calls : List α) : List α :=
  calls.rtakeWhile fun c => ¬ clears c

theorem sinceClear_concat (calls : List α) (c : α) :
    sinceClear clears (calls ++ [c]) = if clears c then [] else sinceClear clears calls ++ [c] := by
  rw [sinceClear, List.rtakeWhile_concat]
  cases clears c with
  | true => rfl
  | false => rfl

end ClassScope
