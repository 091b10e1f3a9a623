import SchemaInference.Text.CharSet

set_option autoImplicit false

namespace SchemaInference

namespace Text

def blanks : CharSet where
  boundaries := [
    9, 14, 28, 33, 133, 134, 160, 161, 5760, 5761, 8192, 8203, 8232, 8234, 8239, 8240, 8287, 8288,
    12288, 12289]

def isBlank (c : Char) : Bool :=
  blanks.contains c

/-- A blank that may stand around a number: any but the four separators among the control characters. -/
def isWhite (c : Char) : Bool :=
  isBlank c && !(28 ≤ c.toNat && c.toNat ≤ 31)

def trimBy (isOuter : Char → Bool) (cs : List Char) : List Char :=
  ((cs.dropWhile isOuter).reverse.dropWhile isOuter).reverse

def trim (s : String) : String :=
  String.ofList (trimBy isBlank s.toList)

end Text

end SchemaInference
