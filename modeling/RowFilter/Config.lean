/-!
# Configuration

What a predicate is compiled under, and the defaults.
-/

namespace RowFilter

/-- How much effort goes into the speed of the compiled code. -/
inductive Optimization where
  /-- None, for the fastest compilation. -/
  | none
  /-- As much as makes the code faster. -/
  | speed
  deriving DecidableEq, Repr, Inhabited

/-- The name of an optimization level in code generator settings. -/
def Optimization.setting : Optimization → String
  | none => "none"
  | speed => "speed"

/-- The configuration a predicate is compiled under. Only the null check changes what is
selected; the capacity is that of a cache made from the configuration. -/
structure Config where
  /-- Honour null sentinels in ordering, arithmetic and widening. -/
  nullCheck : Bool := true
  optimization : Optimization := .speed
  /-- Log the compiled code. -/
  dumpCode : Bool := false
  /-- The number of compiled predicates a cache keeps. -/
  cacheCapacity : Nat := 256
  deriving DecidableEq, Repr, Inhabited

end RowFilter
