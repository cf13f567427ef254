-- SUMMARY: Asking a scan to stop.

/-! # Stop tokens

A scan looks at its stop token before each site. Copies of a token share one
flag; once one of them is raised all are. -/

namespace TypeStyle

/-- Stop flags, and the tokens that share them. -/
structure StopTokens where
  /-- The flags that were raised. -/
  raised : List Nat
  /-- The flag of each token. -/
  flags : List Nat
  /-- The number of flags so far. -/
  next : Nat
  deriving Repr

namespace StopTokens

/-- One token, with a flag that is not raised. -/
def initial : StopTokens := ⟨[], [0], 1⟩

/-- Adds a token with a flag of its own. -/
def addFresh (s : StopTokens) : StopTokens :=
  { s with flags := s.flags ++ [s.next], next := s.next + 1 }

/-- Adds a token that shares the flag of token `i`. -/
def addCopy (s : StopTokens) (i : Nat) : Option StopTokens :=
  (s.flags[i]?).map fun flag => { s with flags := s.flags ++ [flag] }

/-- Raises the flag of token `i`. -/
def raise (s : StopTokens) (i : Nat) : Option StopTokens :=
  (s.flags[i]?).map fun flag => { s with raised := flag :: s.raised }

/-- For each token whether its flag is raised. -/
def states (s : StopTokens) : List Bool :=
  s.flags.map fun flag => s.raised.contains flag

end StopTokens

end TypeStyle
