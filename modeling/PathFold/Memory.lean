/-! Memory figures. Allocation is not tracked here, so every figure is zero. -/

namespace PathFold

/-- Bytes held now and at most so far, the same after the peak has been reset, and whether these are
measured at all. -/
structure MemoryReport where
  allocated : Nat
  peak : Nat
  resetAllocated : Nat
  resetPeak : Nat
  tracking : Bool
  deriving DecidableEq, Repr

def MemoryReport.untracked : MemoryReport := ⟨0, 0, 0, 0, false⟩

end PathFold
