set_option autoImplicit false

namespace SchemaInference

/-- The names handed out, each with the number that its last repetition got. -/
structure NameRegistry where
  counts : List (String × Nat)

namespace NameRegistry

def empty : NameRegistry := ⟨[]⟩

def contains (r : NameRegistry) (name : String) : Bool :=
  r.counts.any (·.1 == name)

def count? (r : NameRegistry) (name : String) : Option Nat :=
  r.counts.lookup name

def numbered (name : String) (n : Nat) : String :=
  name ++ "_" ++ toString n

/-- The least number from `n` on that makes the name new; `fuel` numbers are tried. -/
def firstFree (r : NameRegistry) (name : String) : Nat → Nat → Nat
  | 0, n => n
  | fuel + 1, n => if r.contains (numbered name n) then firstFree r name fuel (n + 1) else n

def setCount (r : NameRegistry) (name : String) (n : Nat) : NameRegistry :=
  ⟨r.counts.map fun entry => if entry.1 = name then (name, n) else entry⟩

def add (r : NameRegistry) (name : String) : NameRegistry :=
  ⟨r.counts ++ [(name, 1)]⟩

/-- Hands out a name.  Among one more numbers than there are names, one is free. -/
def register (r : NameRegistry) (name : String) : String × NameRegistry :=
  match r.count? name with
  | none => (name, r.add name)
  | some last =>
    let n := r.firstFree name (r.counts.length + 1) (last + 1)
    let candidate := numbered name n
    (candidate, (r.setCount name n).add candidate)

end NameRegistry

end SchemaInference
