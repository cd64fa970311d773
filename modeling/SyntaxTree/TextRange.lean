import SyntaxTree.Fault

/-!
# Text ranges

A range of byte offsets that never ends before it starts: the order is part of the type, so code
that receives a range needs no check of its own.
-/

namespace SyntaxTree

/-- The byte offsets from `start` up to, and without, `stop`. -/
structure TextRange where
  start : Nat
  stop : Nat
  start_le_stop : start ≤ stop
deriving DecidableEq, Repr

namespace TextRange

/-- The range between two offsets, a fault if they are out of order. -/
def between (start stop : Nat) : Except Fault TextRange :=
  if h : start ≤ stop then .ok ⟨start, stop, h⟩ else .error .reversedRange

/-- The number of bytes in the range. -/
def length (range : TextRange) : Nat :=
  range.stop - range.start

/-- Whether the range holds no byte. -/
def isEmpty (range : TextRange) : Bool :=
  range.start == range.stop

/-- Whether the byte at `offset` lies in the range. -/
def contains (range : TextRange) (offset : Nat) : Bool :=
  range.start ≤ offset && offset < range.stop

/-- How messages and dumps write a range. -/
def label (range : TextRange) : String :=
  toString range.start ++ ".." ++ toString range.stop

theorem between_eq_ok_iff {start stop : Nat} {range : TextRange} :
    between start stop = .ok range ↔ range.start = start ∧ range.stop = stop := by
  unfold between
  split
  · next h =>
    obtain ⟨a, b, hab⟩ := range
    simp only [Except.ok.injEq, mk.injEq]
    exact ⟨fun ⟨ha, hb⟩ => ⟨ha.symm, hb.symm⟩, fun ⟨ha, hb⟩ => ⟨ha.symm, hb.symm⟩⟩
  · next h =>
    have := range.start_le_stop
    constructor
    · intro h'; cases h'
    · rintro ⟨rfl, rfl⟩; exact absurd this h

theorem between_eq_error_iff {start stop : Nat} {fault : Fault} :
    between start stop = .error fault ↔ stop < start ∧ fault = .reversedRange := by
  unfold between
  split
  · next h =>
    refine ⟨fun h' => ?_, fun h' => by omega⟩
    cases h'
  · next h =>
    simp only [Except.error.injEq]
    exact ⟨fun h' => ⟨by omega, h'.symm⟩, fun h' => h'.2.symm⟩

end TextRange

end SyntaxTree
