import SchemaInference.Text.Case

set_option autoImplicit false

namespace SchemaInference

namespace Word

def capitalize (word : String) : String :=
  match word.toList with
  | [] => ""
  | c :: rest => String.ofList (Text.upperSequence c ++ rest)

def singularEndings : List String :=
  ["ss", "ess", "ness", "ress", "ous", "us", "is"]

def looksPlural (word : String) : Bool :=
  2 < word.length && word.toList.getLast? == some 's' &&
    !(singularEndings.any fun ending => (Text.lower word).endsWith ending)

def singularize (word : String) : String :=
  if looksPlural word then String.ofList word.toList.dropLast else word

def isVowel (c : Char) : Bool :=
  "aeiouAEIOU".toList.contains c

/-- The first character and up to three consonants after it; a short word as it is. -/
def abbreviate (word : String) : String :=
  match word.toList with
  | [] => ""
  | first :: rest =>
    if word.length ≤ 4 then word
    else
      let consonants := rest.filter fun c => !isVowel c
      if consonants.isEmpty then String.ofList (first :: rest.take 3)
      else String.ofList (first :: consonants.take 3)

/-- The capital letters, which are the first letters of the parts of a name; without any, the first
character. -/
def initials (name : String) : String :=
  let cs := name.toList
  let capitals := cs.filter Char.isUpper
  if capitals.isEmpty then String.ofList (cs.take 1) else String.ofList capitals

end Word

end SchemaInference
