import SchemaInference.Number.Numeral
import SchemaInference.Settings.Validation

set_option autoImplicit false

namespace SchemaInference

inductive OptionFault
  | notAbove (bound : Nat)
  | below (bound : Nat)
  | above (bound : Nat)
  | notInteger
  | unreadableInteger
  | oversizedInteger
  | fractionalInteger
  | notFinite
  | notNumber
  | unreadableNumber
  | notBoolean
  | unreadableBoolean
  | notAmong (choices : List String)
  | notList
  | notText
  | notPattern
  | notFunction
  | notRecord (typeName : String)
  | unknownField
  | unknownOption
  | refused (text : String)

namespace OptionFault

def choiceText (choices : List String) : String :=
  let texts := choices.map fun c => "'" ++ c ++ "'"
  match texts.reverse with
  | last :: earlier@(_ :: _) => ", ".intercalate earlier.reverse ++ " or " ++ last
  | _ => ", ".intercalate texts

def message : OptionFault → String
  | notAbove bound => "Input should be greater than " ++ toString bound
  | below bound => "Input should be greater than or equal to " ++ toString bound
  | above bound => "Input should be less than or equal to " ++ toString bound
  | notInteger => "Input should be a valid integer"
  | unreadableInteger => "Input should be a valid integer, unable to parse string as an integer"
  | oversizedInteger => "Unable to parse input string as an integer, exceeded maximum size"
  | fractionalInteger => "Input should be a valid integer, got a number with a fractional part"
  | notFinite => "Input should be a finite number"
  | notNumber => "Input should be a valid number"
  | unreadableNumber => "Input should be a valid number, unable to parse string as a number"
  | notBoolean => "Input should be a valid boolean"
  | unreadableBoolean => "Input should be a valid boolean, unable to interpret input"
  | notAmong choices => "Input should be " ++ choiceText choices
  | notList => "Input should be a valid list"
  | notText => "Input should be a valid string"
  | notPattern => "Input should be a valid pattern"
  | notFunction => "Input should be callable"
  | notRecord typeName => "Input should be a dictionary or an instance of " ++ typeName
  | unknownField => "Unexpected keyword argument"
  | unknownOption => "Extra inputs are not permitted"
  | refused text => "Value error, " ++ text

end OptionFault

abbrev Checked (α : Type) := Except OptionFault α

namespace Check

def trimmed (s : String) : List Char :=
  Text.trimBy Text.isWhite s.toList

def strictInteger? (cs : List Char) : Option Int :=
  let (negative, digits) := match cs with
    | '-' :: rest => (true, rest)
    | rest => (false, rest)
  if digits.isEmpty || !digits.all Char.isDigit then none
  else if digits.head? = some '0' && digits.length ≠ 1 then none
  else some (Numeral.signed negative (Numeral.valueOf digits))

def withoutZeros (previous : Char) : List Char → Option (List Char)
  | [] => some [previous]
  | '_' :: c :: rest =>
    if c = '0' then withoutZeros '0' rest
    else if '1' ≤ c ∧ c ≤ '9' then some (c :: rest)
    else none
  | c :: rest =>
    if c = '0' then withoutZeros '0' rest
    else if '1' ≤ c ∧ c ≤ '9' then some (c :: rest)
    else if c = '.' then some (previous :: c :: rest)
    else none

def fromFirstDigit (cs : List Char) : Option (List Char) :=
  match cs with
  | [] => none
  | c :: rest =>
    if c = '0' then withoutZeros '0' rest
    else if ('1' ≤ c ∧ c ≤ '9') ∨ c = '-' then some cs
    else none

def withoutFraction (cs : List Char) : List Char :=
  let whole := cs.takeWhile (· ≠ '.')
  match cs.dropWhile (· ≠ '.') with
  | _ :: fraction => if fraction.all (· = '0') then whole else cs
  | [] => cs

def withoutUnderscores (cs : List Char) : Option (List Char) :=
  let doubled := (cs.zip (cs.drop 1)).any fun (a, b) => a = '_' ∧ b = '_'
  if cs.head? = some '_' ∨ cs.getLast? = some '_' ∨ doubled then none
  else some (cs.filter (· ≠ '_'))

/-- A whole number as text: a plus sign, zeros in front, underscores and a zero fraction may be there. -/
def lenientInteger? (s : String) : Option Int :=
  let cs := trimmed s
  match strictInteger? cs with
  | some i => some i
  | none =>
    let unsigned := match cs with
      | '+' :: rest => rest
      | _ => cs
    if cs.head? = some '+' && unsigned.head? = some '-' then none
    else
      (fromFirstDigit unsigned).bind fun digits =>
        (withoutUnderscores (withoutFraction digits)).bind strictInteger?

def bounded (i : Int) : LowerBound → Checked Nat
  | .above least => if i ≤ least then .error (.notAbove least) else .ok i.toNat
  | .atLeast least => if i < least then .error (.below least) else .ok i.toNat

def isSmall (i : Int) : Bool :=
  decide (i.natAbs < 0x8000000000000000)

def integer : OptionValue → Checked Int
  | .bool b => .ok (if b then 1 else 0)
  | .number (.whole i) => .ok i
  | .number (.real x) =>
    if !x.isFinite then .error .notFinite
    else
      match x.whole? with
      | some i => if isSmall i then .ok i else .error .oversizedInteger
      | none => .error .fractionalInteger
  | .text s =>
    if Numeral.mostDigits < (trimmed s.shown).length then .error .oversizedInteger
    else
      match lenientInteger? s.shown with
      | some i => .ok i
      | none => .error .unreadableInteger
  | _ => .error .notInteger

def plainDouble? (cs : List Char) : Option Double :=
  let (negative, magnitude) := Numeral.splitSign cs
  match Numeral.decimalOf magnitude with
  | some d => some (.ofDecimal .binary64 negative d)
  | none => Numeral.namedOf negative magnitude

def double : OptionValue → Checked Double
  | .bool b => .ok (.finite (if b then 1 else 0))
  | .number (.whole i) =>
    match Double.ofInt .binary64 i with
    | .ok x => .ok x
    | .error _ => .error .notNumber
  | .number (.real x) => .ok x
  | .text s =>
    match plainDouble? (trimmed s.shown) with
    | some x => .ok x
    | none =>
      match (withoutUnderscores s.shown.toList).bind plainDouble? with
      | some x => .ok x
      | none => .error .unreadableNumber
  | _ => .error .notNumber

def within (least most : Option Nat) (x : Double) : Checked Double :=
  match most.filter fun (bound : Nat) => !Double.le x (.finite bound) with
  | some bound => .error (.above bound)
  | none =>
    match least.filter fun (bound : Nat) => !Double.le (.finite bound) x with
    | some bound => .error (.below bound)
    | none => .ok x

def falseWords : List String := ["0", "f", "n", "no", "off", "false"]

def trueWords : List String := ["1", "t", "y", "on", "yes", "true"]

def truthOfInteger (i : Int) : Checked Bool :=
  if i = 0 then .ok false else if i = 1 then .ok true else .error .unreadableBoolean

def boolean : OptionValue → Checked Bool
  | .bool b => .ok b
  | .number (.whole i) => if isSmall i then truthOfInteger i else .error .notBoolean
  | .number (.real x) =>
    match x.whole? with
    | some i => if isSmall i then truthOfInteger i else .error .notBoolean
    | none => .error .notBoolean
  | .text s =>
    let word := String.ofList (s.shown.toList.map Char.toLower)
    if falseWords.contains word then .ok false
    else if trueWords.contains word then .ok true
    else .error .unreadableBoolean
  | _ => .error .notBoolean

def choice {α : Type} (all : List α) (name : α → String) : OptionValue → Checked α
  | .text s =>
    match all.find? fun a => name a == s.shown with
    | some a => .ok a
    | none => .error (.notAmong (all.map name))
  | _ => .error (.notAmong (all.map name))

def function : OptionValue → Checked Template
  | .function t => .ok t
  | _ => .error .notFunction

end Check

inductive Findings (α : Type)
  | found (a : α)
  | problems (ps : List OptionProblem)
  | raised (e : PlainError)

namespace Findings

variable {α β : Type}

def ofCheck (place : List String) : Checked α → Findings α
  | .ok a => found a
  | .error fault => problems [⟨place, fault.message⟩]

def ofValidator (place : List String) : Except Refusal α → Findings α
  | .ok a => found a
  | .error (.message text) => problems [⟨place, (OptionFault.refused text).message⟩]
  | .error (.raised e) => raised e

def map (f : α → β) : Findings α → Findings β
  | found a => found (f a)
  | problems ps => problems ps
  | raised e => raised e

def ap (f : Findings (α → β)) (a : Findings α) : Findings β :=
  match f, a with
  | found f, a => a.map f
  | raised e, _ => raised e
  | problems _, raised e => raised e
  | problems p, found _ => problems p
  | problems p, problems q => problems (p ++ q)

/-- A further check on what was found, if nothing was wrong before it. -/
def followedBy (a : Findings α) (next : α → Findings β) : Findings β :=
  match a with
  | found a => next a
  | problems ps => problems ps
  | raised e => raised e

def each (place : List String) (check : List String → OptionValue → Findings α) :
    Nat → List OptionValue → Findings (List α)
  | _, [] => found []
  | i, v :: rest => (map List.cons (check (place ++ [toString i]) v)).ap (each place check (i + 1) rest)

def withoutOthers (a : Findings α) (options : Options) (known : List String) (place : List String)
    (fault : OptionFault) : Findings α :=
  match options.filter fun o => !known.contains o.1 with
  | [] => a
  | extra => (map (fun a (_ : Unit) => a) a).ap (problems (extra.map fun o => ⟨place ++ [o.1], fault.message⟩))

def outcome : Findings α → Except ValidationFault α
  | found a => .ok a
  | problems ps => .error (.problems ps)
  | raised e => .error (.raised e)

end Findings

mutual

def FieldKind.check : {α : Type} → FieldKind α → List String → OptionValue → Findings α
  | _, .integer, place, v => .ofCheck place (Check.integer v)
  | _, .natural bound, place, v => .ofCheck place (Check.integer v >>= fun i => Check.bounded i bound)
  | _, .double least most, place, v => .ofCheck place (Check.double v >>= Check.within least most)
  | _, .truth, place, v => .ofCheck place (Check.boolean v)
  | _, .choice all name, place, v => .ofCheck place (Check.choice all name v)
  | _, .function, place, v => .ofCheck place (Check.function v)
  | _, .pattern, _, .text source => .found (.text source)
  | _, .pattern, _, .pattern source => .found (.read source)
  | _, .pattern, place, _ =>
    .problems [⟨place ++ ["str"], OptionFault.notText.message⟩,
      ⟨place ++ ["function-plain[pattern_either_validator()]"], OptionFault.notPattern.message⟩]
  | _, .optional _, _, .null => .found none
  | _, .optional kind, place, v => (kind.check place v).map some
  | _, .list item, place, .list items => .each place (fun place v => item.check place v) 0 items
  | _, .list _, place, _ => .ofCheck place (.error .notList)
  | _, .checked kind validator, place, v => (kind.check place v).followedBy fun a => .ofValidator place (validator a)
  | _, .record _ fields, place, .mapping entries =>
    (fields.gather place entries).withoutOthers entries fields.names place .unknownField
  | _, .record typeName _, place, _ => .ofCheck place (.error (.notRecord typeName))

def Fields.gather : {α : Type} → Fields α → List String → Options → Findings α
  | _, .made a, _, _ => .found a
  | _, .field earlier name kind standard, place, options =>
    (earlier.gather place options).ap
      (match options.get? name with
        | some v => kind.check (place ++ [name]) v
        | none => .found standard)

end

def Validation.lenient : Validation where
  build fields validator options :=
    (((fields.gather [] options).withoutOthers options fields.names [] .unknownOption).followedBy fun a =>
      (Findings.ofValidator [] (validator a)).map fun _ => a).outcome

end SchemaInference
