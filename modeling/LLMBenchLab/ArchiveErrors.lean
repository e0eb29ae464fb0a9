import LLMBenchLab.ArchiveRoundTrip

/-!
# The errors of the verifier

Every check of the verifier raises `AuditArchiveError`. What else it lets through
comes from three library calls: `json.loads` raises a plain `ValueError` on an
integer with too many digits, it and `json.dumps` raise `RecursionError` on values
nested too deep, and `float.fromhex` raises `OverflowError` on a number out of range.
-/

namespace LLMBenchLab

namespace Archive

open Python Audit
open Text (Str)
open Framing (Bytes)

section Clean

variable {α β : Type}

end Clean

/-! ## What raises something else -/

section Raises

variable {L : Stdlib}

end Raises

/-! ### An integer of too many digits -/

namespace Sample

variable {n : ℕ}

end Sample

end Archive

end LLMBenchLab
