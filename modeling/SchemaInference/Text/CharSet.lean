set_option autoImplicit false

namespace SchemaInference

/-- A set of code points, as the increasing list of the points where membership changes. -/
structure CharSet where
  boundaries : List Nat

namespace CharSet

def holds (s : CharSet) (code : Nat) : Bool :=
  go false s.boundaries
where
  go (inside : Bool) : List Nat → Bool
    | [] => inside
    | b :: rest => if b ≤ code then go (!inside) rest else inside

def contains (s : CharSet) (c : Char) : Bool :=
  s.holds c.toNat

end CharSet

end SchemaInference
