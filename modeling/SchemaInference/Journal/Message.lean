import SchemaInference.Failure
import SchemaInference.Text.Case

/-!
# Messages with places for arguments

A message may have places that begin with a percent sign: a key between parentheses, marks for sign and
alignment, a width, a number of places, and a letter for the kind of text.  Arguments fill the places in
order, or by key when there is one argument that is a mapping.  Every argument must find its place.
-/

set_option autoImplicit false

namespace SchemaInference

namespace Message

inductive Fault
  | tooFewArguments
  | tooManyArguments
  | noMapping
  | missingKey (key : String)
  | wrongKind
  | incomplete
  | incompleteKey
  | unknownLetter (letter : Char) (position : Nat)
  | noCharacter
  | countTooLarge (size : String)
  | countTooLong (what : String)
  | number (e : ConversionError)

namespace Fault

def shownLetter (c : Char) : Char :=
  if 31 ≤ c.toNat ∧ c.toNat ≤ 126 then c else '?'

def error : Fault → PlainError
  | tooFewArguments => .ofType "not enough arguments for format string"
  | tooManyArguments => .ofType "not all arguments converted during string formatting"
  | noMapping => .ofType "format requires a mapping"
  | missingKey key => ⟨"KeyError", [.key], Text.quoted key⟩
  | wrongKind => .ofType "a number is required"
  | incomplete => .ofValue "incomplete format"
  | incompleteKey => .ofValue "incomplete format key"
  | unknownLetter c position =>
    .ofValue ("unsupported format character '" ++ String.singleton (shownLetter c) ++ "' (0x" ++
      String.ofList (Nat.toDigits 16 c.toNat) ++ ") at index " ++ toString position)
  | noCharacter => .ofOverflow "%c arg not in range(0x110000)"
  | countTooLarge size => .ofOverflow ("Python int too large to convert to C " ++ size)
  | countTooLong what => .ofValue (what ++ " too big")
  | number e => e.plain

end Fault

/-- The arguments still to be placed.  With a mapping, the one argument at hand is the mapping itself or,
after a key, what stands under the key. -/
inductive Arguments
  | inOrder (values : List Value)
  | byKey (entries : List (Value × Value)) (atHand : Option Value)

namespace Arguments

/-- One mapping that is not empty is looked into; all other arguments are taken in order. -/
def ofList : List Value → Arguments
  | [.mapping (entry :: rest)] => byKey (entry :: rest) (some (.mapping (entry :: rest)))
  | values => inOrder values

def next : Arguments → Except Fault (Value × Arguments)
  | inOrder (v :: rest) => .ok (v, inOrder rest)
  | inOrder [] => .error .tooFewArguments
  | byKey entries (some v) => .ok (v, byKey entries none)
  | byKey _ none => .error .tooFewArguments

def under (key : String) : Arguments → Except Fault Arguments
  | inOrder _ => .error .noMapping
  | byKey entries _ =>
    match Value.lookup? entries key with
    | some v => .ok (byKey entries (some v))
    | none => .error (.missingKey key)

def isDone : Arguments → Bool
  | inOrder values => values.isEmpty
  | byKey _ _ => true

end Arguments

structure Place where
  leftAligned : Bool
  zeroFilled : Bool
  plusSign : Bool
  blankSign : Bool
  marked : Bool
  width : Nat
  precision : Option Nat

def Place.plain : Place := ⟨false, false, false, false, false, 0, none⟩

def aligned (p : Place) (text : List Char) : List Char :=
  let blanks := List.replicate (p.width - text.length) ' '
  if p.leftAligned then text ++ blanks else blanks ++ text

def alignedNumber (p : Place) (negative : Bool) (mark digits : List Char) : List Char :=
  let sign := if negative then ['-'] else if p.plusSign then ['+'] else if p.blankSign then [' '] else []
  let zeros := if p.zeroFilled && !p.leftAligned then
      List.replicate (p.width - (sign ++ mark ++ digits).length) '0' else []
  aligned p (sign ++ mark ++ zeros ++ digits)

def wholeText (p : Place) (base : Nat) (mark : List Char) (i : Int) : List Char :=
  let digits := Nat.toDigits base i.natAbs
  let padded := List.replicate (p.precision.getD 0 - digits.length) '0' ++ digits
  alignedNumber p (i < 0) (if p.marked then mark else []) padded

def pointed (text : List Char) : List Char :=
  let wholePart := text.takeWhile Char.isDigit
  if wholePart.isEmpty || text.contains '.' then text
  else wholePart ++ '.' :: text.drop wholePart.length

def realText (p : Place) (text : Double → String) (x : Double) : List Char :=
  let marked (digits : List Char) : List Char := if p.marked then pointed digits else digits
  match (text x).toList with
  | '-' :: digits => alignedNumber p true [] (marked digits)
  | digits => alignedNumber p false [] (marked digits)

def generalText (p : Place) (x : Double) : String :=
  let digits := max 1 (p.precision.getD 6)
  if p.marked then x.significantText digits else x.generalTextOf digits

def number? (v : Value) : Except Fault Number :=
  match v with
  | .scalar s =>
    match s.asNumber? with
    | some n => .ok n
    | none => .error .wrongKind
  | _ => .error .wrongKind

def truncated (v : Value) : Except Fault Int := do
  (← number? v).truncate.mapError .number

def exact (v : Value) : Except Fault Int := do
  match ← number? v with
  | .whole i => .ok i
  | .real _ => .error .wrongKind

def double (v : Value) : Except Fault Double := do
  ((← number? v).toDouble .binary64).mapError .number

def asciiOnly (text : String) : List Char :=
  text.toList.flatMap fun c => if c.toNat < 128 then [c] else Text.codeEscape c

def cut (p : Place) (text : List Char) : List Char :=
  aligned p (match p.precision with
    | some n => text.take n
    | none => text)

def character (p : Place) (v : Value) : Except Fault (List Char) :=
  match v with
  | .text s => if s.length = 1 then .ok (aligned p s.toList) else .error .wrongKind
  | v => do
    let i ← exact v
    if 0 ≤ i ∧ i < 0x110000 then .ok (aligned p [Char.ofNat i.toNat]) else .error .noCharacter

def written? (p : Place) (letter : Char) (v : Value) : Option (Except Fault (List Char)) :=
  let places := p.precision.getD 6
  let upperText (text : Double → String) (x : Double) : String := Text.upper (text x)
  match letter with
  | 's' => some (.ok (cut p v.display.toList))
  | 'r' => some (.ok (cut p v.literal.toList))
  | 'a' => some (.ok (cut p (asciiOnly v.literal)))
  | 'c' => some (character p v)
  | 'd' => some ((truncated v).map (wholeText p 10 []))
  | 'i' => some ((truncated v).map (wholeText p 10 []))
  | 'u' => some ((truncated v).map (wholeText p 10 []))
  | 'x' => some ((exact v).map (wholeText p 16 ['0', 'x']))
  | 'X' => some ((exact v).map fun i => (wholeText p 16 ['0', 'x'] i).map Char.toUpper)
  | 'o' => some ((exact v).map (wholeText p 8 ['0', 'o']))
  | 'f' => some ((double v).map (realText p (Double.fixedText places)))
  | 'F' => some ((double v).map (realText p (upperText (Double.fixedText places))))
  | 'e' => some ((double v).map (realText p (Double.exponentialText places)))
  | 'E' => some ((double v).map (realText p (upperText (Double.exponentialText places))))
  | 'g' => some ((double v).map (realText p (generalText p)))
  | 'G' => some ((double v).map (realText p (upperText (generalText p))))
  | _ => none

/-- The key between parentheses, which may themselves hold pairs of them; `open_` is how many are open. -/
def readKey (open_ : Nat) (read : List Char) : List Char → Except Fault (String × List Char)
  | [] => .error .incompleteKey
  | ')' :: rest =>
    if open_ = 0 then .ok (String.ofList read.reverse, rest) else readKey (open_ - 1) (')' :: read) rest
  | '(' :: rest => readKey (open_ + 1) ('(' :: read) rest
  | c :: rest => readKey open_ (c :: read) rest

def readMarks (p : Place) : List Char → Place × List Char
  | '-' :: rest => readMarks { p with leftAligned := true } rest
  | '0' :: rest => readMarks { p with zeroFilled := true } rest
  | '+' :: rest => readMarks { p with plusSign := true } rest
  | ' ' :: rest => readMarks { p with blankSign := true } rest
  | '#' :: rest => readMarks { p with marked := true } rest
  | rest => (p, rest)

/-- What a count is for: its name, the size of its integers, and their least bound. -/
structure CountKind where
  what : String
  size : String
  bound : Nat

def widthCount : CountKind := ⟨"width", "ssize_t", 0x8000000000000000⟩

def precisionCount : CountKind := ⟨"precision", "int", 0x80000000⟩

def readCount (kind : CountKind) (arguments : Arguments) :
    List Char → Except Fault (Int × Arguments × List Char)
  | '*' :: rest => do
    let (v, arguments) ← arguments.next
    let i ← exact v
    if i < -(kind.bound : Int) ∨ (kind.bound : Int) ≤ i then .error (.countTooLarge kind.size)
    else .ok (i, arguments, rest)
  | cs =>
    let n := Numeral.valueOf (cs.takeWhile Char.isDigit)
    if kind.bound ≤ n then .error (.countTooLong kind.what)
    else .ok (n, arguments, cs.dropWhile Char.isDigit)

def skipSize : List Char → List Char
  | c :: rest => if c = 'h' ∨ c = 'l' ∨ c = 'L' then rest else c :: rest
  | [] => []

structure ReadPlace where
  place : Place
  arguments : Arguments
  rest : List Char

def readPlace (arguments : Arguments) (cs : List Char) : Except Fault ReadPlace := do
  let (arguments, cs) ← match cs with
    | '(' :: rest => do
      if arguments matches .inOrder _ then .error .noMapping
      let (key, rest) ← readKey 0 [] rest
      .ok (← arguments.under key, rest)
    | cs => .ok (arguments, cs)
  let (p, cs) := readMarks Place.plain cs
  let (width, arguments, cs) ← readCount widthCount arguments cs
  let p := { p with width := width.natAbs, leftAligned := p.leftAligned || decide (width < 0) }
  match cs with
  | '.' :: cs => do
    let (precision, arguments, cs) ← readCount precisionCount arguments cs
    .ok ⟨{ p with precision := some precision.toNat }, arguments, skipSize cs⟩
  | cs => .ok ⟨p, arguments, skipSize cs⟩

/-- Fills the places from left to right; `size` is the length of the whole message, and `fuel` is no less
than what is left of it. -/
def fillFrom (size : Nat) : Nat → List Char → Arguments → List Char → Except Fault (List Char)
  | 0, done, _, _ => .ok done
  | _ + 1, done, arguments, [] => if arguments.isDone then .ok done else .error .tooManyArguments
  | fuel + 1, done, arguments, '%' :: '%' :: rest => fillFrom size fuel (done ++ ['%']) arguments rest
  | fuel + 1, done, arguments, '%' :: rest => do
    let read ← readPlace arguments rest
    match read.rest with
    | [] => .error .incomplete
    | letter :: rest =>
      let (v, arguments) ← read.arguments.next
      match written? read.place letter v with
      | none => .error (.unknownLetter letter (size - rest.length - 1))
      | some text => fillFrom size fuel (done ++ (← text)) arguments rest
  | fuel + 1, done, arguments, c :: rest => fillFrom size fuel (done ++ [c]) arguments rest

def fill (message : String) (arguments : List Value) : Except Fault String :=
  if arguments.isEmpty then .ok message
  else
    let cs := message.toList
    (fillFrom cs.length (cs.length + 1) [] (.ofList arguments) cs).map String.ofList

end Message

end SchemaInference
