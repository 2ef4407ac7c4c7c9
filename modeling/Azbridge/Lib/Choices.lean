import Mathlib.Combinatorics.Hall.Basic

/-!
# Choices that keep apart

Each item is given one of its options. Some items must share one exactly if they have fewer options
among them than they are.
-/

namespace Choices

variable {ι α : Type} [DecidableEq α]

variable {items : Finset ι} {options : ι → Finset α}

end Choices
