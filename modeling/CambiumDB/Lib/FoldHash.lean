import Mathlib.Logic.Function.Basic

/-!
# Checksums that are folds

A checksum that folds its input into a register notices every change of a single element if
the step loses nothing of the register and nothing of the element.
-/

namespace CambiumDB

namespace FoldHash

variable {σ β : Type} {step : σ → β → σ}

end FoldHash

end CambiumDB
