import SchemaInference.Number.Numeral
import SchemaInference.Pattern.Matching
import SchemaInference.Pattern.Problem

/-!
# Reading patterns

A pattern's text is cut into tokens, a backslash taking the next character with it, and read by
recursive descent.  Every defect is reported at the position where reading it stops to make sense.
Reading is bounded by a count of steps, of which there are at most three to a token.
-/

set_option autoImplicit false

namespace SchemaInference

namespace Pattern

inductive Token
  | plain (c : Char)
  | escaped (c : Char)
  /-- Half of a pair, which stands for itself with or without a backslash. -/
  | lone (unit : Fin 0x800) (isEscaped : Bool)
  | broken
deriving DecidableEq

namespace Token

def text : Token → List Char
  | plain c => [c]
  | escaped c => ['\\', c]
  | lone unit isEscaped => (if isEscaped then ['\\'] else []) ++ [(CodePoint.lone unit).shown]
  | broken => ['\\']

def length (t : Token) : Nat :=
  t.text.length

def ofText : WideText → List Token
  | [] => []
  | .char '\\' :: [] => [broken]
  | .char '\\' :: .char c :: rest => escaped c :: ofText rest
  | .char '\\' :: .lone unit :: rest => lone unit true :: ofText rest
  | .char c :: rest => plain c :: ofText rest
  | .lone unit :: rest => lone unit false :: ofText rest

end Token

structure Flags where
  ignoreCase : Bool
  multiLine : Bool
  dotAll : Bool
  verbose : Bool
  ascii : Bool
  unicode : Bool
  template : Bool
deriving DecidableEq

namespace Flags

def none : Flags := ⟨false, false, false, false, false, false, false⟩

def ofLetter? (c : Char) : Option Flags :=
  if c = 'i' then some { none with ignoreCase := true }
  else if c = 'm' then some { none with multiLine := true }
  else if c = 's' then some { none with dotAll := true }
  else if c = 'x' then some { none with verbose := true }
  else if c = 'a' then some { none with ascii := true }
  else if c = 'u' then some { none with unicode := true }
  else if c = 't' then some { none with template := true }
  else Option.none

def combine (op : Bool → Bool → Bool) (a b : Flags) : Flags :=
  { ignoreCase := op a.ignoreCase b.ignoreCase
    multiLine := op a.multiLine b.multiLine
    dotAll := op a.dotAll b.dotAll
    verbose := op a.verbose b.verbose
    ascii := op a.ascii b.ascii
    unicode := op a.unicode b.unicode
    template := op a.template b.template }

def union : Flags → Flags → Flags := combine (· || ·)

def common : Flags → Flags → Flags := combine (· && ·)

/-- The flags inside a group that adds some and drops others; the kinds of letters exclude each other. -/
def within (outer add drop : Flags) : Flags :=
  let kept := if add.ascii || add.unicode then { outer with ascii := false, unicode := false } else outer
  combine (fun on off => on && !off) (union kept add) drop

def folding (f : Flags) : Folding :=
  if !f.ignoreCase then .exact else if f.ascii then .asciiCase else .anyCase

end Flags

structure Width where
  least : Nat
  most : Nat
deriving DecidableEq

namespace Width

def unbounded : Nat := 0x10000000000000000

def zero : Width := ⟨0, 0⟩

def one : Width := ⟨1, 1⟩

def clipped (w : Width) : Width :=
  ⟨min w.least unbounded, min w.most unbounded⟩

def append (a b : Width) : Width :=
  ⟨a.least + b.least, a.most + b.most⟩

def choice (a b : Width) : Width :=
  ⟨min a.least b.least, max a.most b.most⟩

def times (w : Width) (least : Nat) (most : Option Nat) : Width :=
  ⟨w.least * least, match most with
    | some n => w.most * n
    | none => if w.most = 0 then 0 else unbounded⟩

end Width

structure Piece where
  expr : Expr
  width : Width
  isAnchor : Bool
  isRepeat : Bool

namespace Piece

def of (expr : Expr) (width : Width) : Piece := ⟨expr, width, false, false⟩

def ofAnchor (a : Anchor) : Piece := ⟨.anchor a, .zero, true, false⟩

def joined (latestFirst : List Piece) : Piece :=
  latestFirst.foldl
    (fun acc p => match acc.expr with
      | .empty => of p.expr (p.width.append acc.width)
      | e => of (.seq p.expr e) (p.width.append acc.width))
    (of .empty .zero)

end Piece

structure Reading where
  rest : List Token
  position : Nat
  flags : Flags
  /-- The widths of the groups opened so far, once they are closed. -/
  groups : List (Option Width)
  names : List (String × Nat)
  /-- Inside a look behind, the number of groups opened before it. -/
  lookbehind : Option Nat
  conditions : List (Nat × Nat)
  variableLookbehind : Bool

abbrev Reader := StateT Reading (Except Defect)

namespace Reader

def fail {α : Type} (problem : Problem) (before : Nat) : Reader α := do
  let s ← get
  throw (.misread problem (some (s.position - before)))

def next : Reader (Option Token) := do
  return (← get).rest.head?

def advance : Reader Unit := do
  let s ← get
  match s.rest with
  | [] => pure ()
  | t :: rest =>
    set { s with rest, position := s.position + t.length }
    if rest.head? = some .broken then fail .escapeAtEnd 0 else pure ()

def take : Reader (Option Token) := do
  let t ← next
  advance
  return t

def accept (c : Char) : Reader Bool := do
  if (← next) = some (.plain c) then
    advance
    return true
  else return false

def takeWhile (test : Char → Bool) : Nat → Reader (List Char)
  | 0 => pure []
  | n + 1 => do
    match ← next with
    | some (.plain c) =>
      if test c then
        advance
        return c :: (← takeWhile test n)
      else return []
    | _ => return []

def takeUntil (terminator : Char) (what : String) : Nat → List Char → Reader String
  | 0, read => pure (String.ofList read)
  | fuel + 1, read => do
    match ← take with
    | none =>
      if read.isEmpty then fail (.missingName what) 0
      else fail (.unterminatedName terminator) read.length
    | some t =>
      if t = .plain terminator then
        if read.isEmpty then fail (.missingName what) 1 else return String.ofList read
      else takeUntil terminator what fuel (read ++ t.text)

def name (terminator : Char) (what : String) : Reader String := do
  takeUntil terminator what ((← get).rest.length + 1) []

end Reader

open Reader

def isHexDigit (c : Char) : Bool :=
  c.isDigit || ('a' ≤ c && c ≤ 'f') || ('A' ≤ c && c ≤ 'F')

def isOctalDigit (c : Char) : Bool :=
  '0' ≤ c && c ≤ '7'

def isAsciiLetter (c : Char) : Bool :=
  c.isAlpha

def hexValue (digits : List Char) : Nat :=
  digits.foldl
    (fun n c => 16 * n + (if c.isDigit then c.toNat - 48 else c.toLower.toNat - 87)) 0

def octalValue (digits : List Char) : Nat :=
  digits.foldl (fun n c => 8 * n + (c.toNat - 48)) 0

def controlEscape? (c : Char) : Option Nat :=
  if c = 'a' then some 7
  else if c = 'b' then some 8
  else if c = 'f' then some 12
  else if c = 'n' then some 10
  else if c = 'r' then some 13
  else if c = 't' then some 9
  else if c = 'v' then some 11
  else if c = '\\' then some 92
  else none

def categoryEscape? (ascii : Bool) (c : Char) : Option SetItem :=
  if c = 'd' then some (.category .digit false ascii)
  else if c = 'D' then some (.category .digit true ascii)
  else if c = 's' then some (.category .space false ascii)
  else if c = 'S' then some (.category .space true ascii)
  else if c = 'w' then some (.category .word false ascii)
  else if c = 'W' then some (.category .word true ascii)
  else none

def escapeText (c : Char) (digits : List Char) : String :=
  String.ofList ('\\' :: c :: digits)

def hexEscape (c : Char) (count : Nat) : Reader Nat := do
  let digits ← takeWhile isHexDigit count
  if digits.length < count then
    fail (.incompleteEscape (escapeText c digits)) (digits.length + 2)
  else
    let code := hexValue digits
    if 0x110000 ≤ code then fail (.badEscape (escapeText c digits)) (digits.length + 2) else return code

def namedEscape : Reader Nat := do
  if ← accept '\x7b' then
    let name ← name '\x7d' "character name"
    fail (.unknownCharacterName name) (name.length + 4)
  else fail .missingBrace 0

def commonEscape (c : Char) : Reader Nat := do
  if c = 'x' then hexEscape c 2
  else if c = 'u' then hexEscape c 4
  else if c = 'U' then hexEscape c 8
  else if c = 'N' then namedEscape
  else if isAsciiLetter c then fail (.badEscape (escapeText c [])) 2
  else return c.toNat

def setEscape (c : Char) : Reader SetItem := do
  let s ← get
  match controlEscape? c, categoryEscape? s.flags.ascii c with
  | some code, _ => return .code code
  | none, some item => return item
  | none, none =>
    if isOctalDigit c then
      let digits := c :: (← takeWhile isOctalDigit 2)
      if 0o377 < octalValue digits then
        fail (.octalTooLarge (String.ofList ('\\' :: digits))) (digits.length + 1)
      else return .code (octalValue digits)
    else if c.isDigit then fail (.badEscape (escapeText c [])) 2
    else return .code (← commonEscape c)

/-- A reference to a group must not come before the group is closed, nor go against a look behind. -/
def checkLookbehind (number : Nat) : Reader Unit := do
  let s ← get
  match s.lookbehind with
  | none => pure ()
  | some opened =>
    if (s.groups[number]?.join).isNone then fail .openGroup 0
    else if opened ≤ number then fail .groupInLookbehind 0
    else pure ()

def groupReference (number length : Nat) : Reader Piece := do
  let s ← get
  if number < s.groups.length then
    match s.groups[number]?.join with
    | none => fail .openGroup length
    | some width =>
      checkLookbehind number
      return .of (.backreference number s.flags.folding) width
  else fail (.invalidGroup number) (length - 1)

def digitEscape (c : Char) : Reader Piece := do
  let s ← get
  if c = '0' then
    let digits ← takeWhile isOctalDigit 2
    return .of (.code (octalValue digits) s.flags.folding) .one
  else
    match ← takeWhile Char.isDigit 1 with
    | [d] =>
      if isOctalDigit c && isOctalDigit d then
        match ← takeWhile isOctalDigit 1 with
        | [e] =>
          let code := octalValue [c, d, e]
          if 0o377 < code then fail (.octalTooLarge (String.ofList ['\\', c, d, e])) 4
          else return .of (.code code s.flags.folding) .one
        | _ => groupReference (Numeral.valueOf [c, d]) 3
      else groupReference (Numeral.valueOf [c, d]) 3
    | _ => groupReference (Numeral.valueOf [c]) 2

def escape (c : Char) : Reader Piece := do
  let s ← get
  let ascii := s.flags.ascii
  if c = 'A' then return .ofAnchor .textStart
  else if c = 'b' then return .ofAnchor (.boundary ascii)
  else if c = 'B' then return .ofAnchor (.noBoundary ascii)
  else if c = 'Z' then return .ofAnchor .textEnd
  else
    match categoryEscape? ascii c, controlEscape? c with
    | some item, _ => return .of (.set false [item] s.flags.folding) .one
    | none, some code => return .of (.code code s.flags.folding) .one
    | none, none =>
      if c.isDigit then digitEscape c
      else return .of (.code (← commonEscape c) s.flags.folding) .one

def setMember (t : Token) : Reader SetItem :=
  match t with
  | .plain c => pure (.code c.toNat)
  | .escaped c => setEscape c
  | .lone unit _ => pure (.code (CodePoint.lone unit).code)
  | .broken => pure (.code 92)

/-- The members of a set up to its closing bracket, which is a member itself when it comes first. -/
def setItems (start : Nat) : Nat → List SetItem → Reader (List SetItem)
  | 0, items => pure items
  | fuel + 1, items => do
    let unterminated : Reader (List SetItem) := do
      fail .unterminatedSet ((← get).position - start)
    match ← take with
    | none => unterminated
    | some this =>
      if this = .plain ']' && !items.isEmpty then return items
      else
        let first ← setMember this
        if ← accept '-' then
          match ← take with
          | none => unterminated
          | some that =>
            if that = .plain ']' then return items ++ [first, .code 45]
            else
              let second ← setMember that
              match first, second with
              | .code low, .code high =>
                if high < low then
                  fail (.badRange (String.ofList this.text) (String.ofList that.text))
                    (this.length + 1 + that.length)
                else setItems start fuel (items ++ [.range low high])
              | _, _ =>
                fail (.badRange (String.ofList this.text) (String.ofList that.text))
                  (this.length + 1 + that.length)
        else setItems start fuel (items ++ [first])

def braceBounds : Reader (Option (List Char × List Char)) := do
  let size := (← get).rest.length
  let low ← takeWhile Char.isDigit size
  let high ← if ← accept ',' then takeWhile Char.isDigit size else pure low
  if ← accept '\x7d' then return some (low, high) else return none

/-- The bounds of a repetition after its first character, or nothing for a brace that stands for itself. -/
def repeatBounds (c : Char) : Reader (Option (Nat × Option Nat)) := do
  if c = '?' then return some (0, some 1)
  else if c = '*' then return some (0, none)
  else if c = '+' then return some (1, none)
  else if (← next) = some (.plain '\x7d') then return none
  else
    let before ← get
    match ← braceBounds with
    | none =>
      set before
      return none
    | some (low, high) =>
      let limit := 4294967295
      let least := Numeral.valueOf low
      let most := if high.isEmpty then none else some (Numeral.valueOf high)
      if limit ≤ least then throw .countTooLarge
      else if most.any (limit ≤ ·) then throw .countTooLarge
      else if most.any (· < least) then fail .repeatBoundsReversed ((← get).position - before.position)
      else return some (least, most)

def greedMark : Reader Greed := do
  match ← next with
  | some (.plain '?') =>
    advance
    return .lazy
  | some (.plain '+') =>
    advance
    return .possessive
  | _ => return .greedy

def repeatLatest (start : Nat) (bounds : Nat × Option Nat) (pieces : List Piece) : Reader (List Piece) := do
  let offset := (← get).position - start + 1
  match pieces with
  | [] => fail .nothingToRepeat offset
  | p :: earlier =>
    if p.isAnchor then fail .nothingToRepeat offset
    else if p.isRepeat then fail .multipleRepeat offset
    else
      let greed ← greedMark
      let expr := Expr.repeated p.expr bounds.1 bounds.2 greed
      return ⟨expr, p.width.times bounds.1 bounds.2, false, true⟩ :: earlier

def isNameStart (c : Char) : Bool :=
  c = '_' || (Text.isWordChar c && !Text.isDigitLike c)

def isGroupName (name : String) : Bool :=
  match name.toList with
  | [] => false
  | c :: rest => isNameStart c && rest.all Text.isWordChar

def openGroup (name : Option String) : Reader Nat := do
  let s ← get
  let number := s.groups.length
  match name with
  | none => set { s with groups := s.groups ++ [none] }
  | some n =>
    match s.names.lookup n with
    | some earlier => fail (.redefinedGroup n number earlier) (n.length + 1)
    | none => set { s with groups := s.groups ++ [none], names := s.names ++ [(n, number)] }
  return number

def closeGroup (number : Nat) (width : Width) : Reader Unit :=
  modify fun s => { s with groups := s.groups.set number (some width.clipped) }

/-- What an inline flag group says: flags for the whole pattern, or flags to add and to drop inside. -/
inductive FlagChange
  | whole (add : Flags)
  | inside (add drop : Flags)

def isLetterToken : Token → Bool
  | .plain c => isNameStart c && c ≠ '_'
  | _ => false

def flagOf (t : Token) : Option Flags :=
  match t with
  | .plain c => Flags.ofLetter? c
  | _ => none

def droppedFlags (add : Flags) : Nat → Token → Flags → Reader Flags
  | 0, _, drop => pure drop
  | fuel + 1, t, drop => do
    match flagOf t with
    | none => fail .missingFlag 0
    | some flag =>
      if flag.ascii || flag.unicode then fail .typeFlagOff 0
      else
        let drop := drop.union flag
        match ← take with
        | none => fail .missingColon 0
        | some t =>
          if t = .plain ':' then return drop
          else if t = .plain 'L' then fail .typeFlagOff 0
          else if (flagOf t).isNone then
            fail (if isLetterToken t then .unknownFlag else .missingColon) t.length
          else droppedFlags add fuel t drop

def addedFlags : Nat → Token → Flags → Reader (Flags × Token)
  | 0, t, add => pure (add, t)
  | fuel + 1, t, add => do
    if t = .plain 'L' then fail .localeFlag 0
    else
      match flagOf t with
      | none => fail .missingFlagEnd 0
      | some flag =>
        let add := add.union flag
        if (flag.ascii && add.unicode) || (flag.unicode && add.ascii) then fail .incompatibleFlags 0
        else
          match ← take with
          | none => fail .missingFlagEnd 0
          | some t =>
            if t = .plain ')' || t = .plain '-' || t = .plain ':' then return (add, t)
            else if (flagOf t).isNone && t ≠ .plain 'L' then
              fail (if isLetterToken t then .unknownFlag else .missingFlagEnd) t.length
            else addedFlags fuel t add

def inlineFlags (t : Token) : Reader FlagChange := do
  let fuel := (← get).rest.length + 1
  let (add, stop) ← if t = .plain '-' then pure (Flags.none, t) else addedFlags fuel t .none
  if stop = .plain ')' then return .whole add
  else if add.template then fail .globalFlagOn 1
  else if stop = .plain ':' then return .inside add .none
  else
    match ← take with
    | none => fail .missingFlag 0
    | some t =>
      if t = .plain 'L' then fail .typeFlagOff 0
      else if (flagOf t).isNone then
        fail (if isLetterToken t then .unknownFlag else .missingFlag) t.length
      else
        let drop ← droppedFlags add fuel t .none
        if drop.template then fail .globalFlagOff 1
        else if add.common drop ≠ .none then fail .flagOnAndOff 1
        else return .inside add drop

def skipComment (start : Nat) : Nat → Reader Unit
  | 0 => pure ()
  | fuel + 1 => do
    match ← next with
    | none => fail .unterminatedComment ((← get).position - start)
    | some t =>
      advance
      if t = .plain ')' then pure () else skipComment start fuel

def skipLine : Nat → Reader Unit
  | 0 => pure ()
  | fuel + 1 => do
    match ← take with
    | none => pure ()
    | some t => if t = .plain '\n' then pure () else skipLine fuel

def closing (start : Nat) : Reader Unit := do
  if ← accept ')' then pure () else fail .unterminatedGroup ((← get).position - start)

def namedReference : Reader Piece := do
  let n ← name ')' "group name"
  if !isGroupName n then fail (.badGroupName n) (n.length + 1)
  else
    let s ← get
    match s.names.lookup n with
    | none => fail (.unknownGroupName n) (n.length + 1)
    | some number =>
      match s.groups[number]?.join with
      | none => fail .openGroup (n.length + 1)
      | some width =>
        checkLookbehind number
        return .of (.backreference number s.flags.folding) width

def conditionGroup : Reader Nat := do
  let n ← name ')' "group name"
  let back := n.length + 1
  if isGroupName n then
    match (← get).names.lookup n with
    | none => fail (.unknownGroupName n) back
    | some number =>
      checkLookbehind number
      return number
  else
    match Numeral.readInteger? n with
    | some (.ofNat 0) => fail .zeroGroup back
    | some (.ofNat number) =>
      modify fun s =>
        if (s.conditions.lookup number).isSome then s
        else { s with conditions := s.conditions ++ [(number, s.position - n.length - 1)] }
      checkLookbehind number
      return number
    | _ => fail (.badGroupName n) back

inductive Opening
  | capture (name : Option String)
  | plain (add drop : Flags)
  | atomic
  | look (behind negated : Bool)
  | condition
  | done (piece : Option Piece)
  | flags (add : Flags)

def opening (start : Nat) : Reader Opening := do
  if !(← accept '?') then return .capture none
  else
    match ← take with
    | none => fail .endOfPattern 0
    | some (.plain 'P') =>
      match ← take with
      | none => fail .endOfPattern 0
      | some (.plain '<') =>
        let n ← name '>' "group name"
        if isGroupName n then return .capture (some n) else fail (.badGroupName n) (n.length + 1)
      | some (.plain '=') => return .done (some (← namedReference))
      | some t => fail (.unknownExtension ("P" ++ String.ofList t.text)) (t.length + 2)
    | some (.plain ':') => return .plain .none .none
    | some (.plain '#') =>
      skipComment start ((← get).rest.length + 1)
      return .done none
    | some (.plain '=') => return .look false false
    | some (.plain '!') => return .look false true
    | some (.plain '<') =>
      match ← take with
      | none => fail .endOfPattern 0
      | some (.plain '=') => return .look true false
      | some (.plain '!') => return .look true true
      | some t => fail (.unknownExtension ("<" ++ String.ofList t.text)) (t.length + 2)
    | some (.plain '(') => return .condition
    | some (.plain '>') => return .atomic
    | some t =>
      if (flagOf t).isSome || t = .plain '-' || t = .plain 'L' then
        match ← inlineFlags t with
        | .whole add => return .flags add
        | .inside add drop => return .plain add drop
      else fail (.unknownExtension (String.ofList t.text)) (t.length + 1)

def endsSequence (t : Option Token) : Bool :=
  t = none || t = some (.plain '|') || t = some (.plain ')')

mutual

def alternatives (top : Bool) : Nat → Reader Piece
  | 0 => pure (.of .empty .zero)
  | fuel + 1 => do
    let first ← sequence top fuel []
    moreAlternatives fuel first

def moreAlternatives : Nat → Piece → Reader Piece
  | 0, first => pure first
  | fuel + 1, first => do
    if ← accept '|' then
      let second ← sequence false fuel []
      let rest ← moreAlternatives fuel second
      return .of (.alt first.expr rest.expr) (first.width.choice rest.width)
    else return first

def sequence (top : Bool) : Nat → List Piece → Reader Piece
  | 0, pieces => pure (.joined pieces)
  | fuel + 1, pieces => do
    let t ← next
    if endsSequence t then return .joined pieces
    else
      advance
      let s ← get
      match t with
      | none => return .joined pieces
      | some .broken => return .joined pieces
      | some (.lone unit _) =>
        sequence top fuel (.of (.code (CodePoint.lone unit).code s.flags.folding) .one :: pieces)
      | some (.escaped c) => do
        let piece ← escape c
        sequence top fuel (piece :: pieces)
      | some (.plain c) =>
        if s.flags.verbose && " \t\n\r\x0b\x0c".toList.contains c then sequence top fuel pieces
        else if s.flags.verbose && c = '#' then do
          skipLine (s.rest.length + 1)
          sequence top fuel pieces
        else if c = '[' then do
          let negated ← accept '^'
          let items ← setItems (s.position - 1) (s.rest.length + 1) []
          sequence top fuel (.of (.set negated items s.flags.folding) .one :: pieces)
        else if c = '?' || c = '*' || c = '+' || c = '\x7b' then do
          match ← repeatBounds c with
          | none => sequence top fuel (.of (.code c.toNat s.flags.folding) .one :: pieces)
          | some bounds => do
            let pieces ← repeatLatest s.position bounds pieces
            sequence top fuel pieces
        else if c = '.' then sequence top fuel (.of (.any s.flags.dotAll) .one :: pieces)
        else if c = '^' then
          sequence top fuel (.ofAnchor (if s.flags.multiLine then .lineStart else .textStart) :: pieces)
        else if c = '$' then
          sequence top fuel (.ofAnchor (if s.flags.multiLine then .lineEnd else .lastLineEnd) :: pieces)
        else if c = '(' then do
          let start := s.position - 1
          match ← opening start with
          | .done piece => sequence top fuel (piece.toList ++ pieces)
          | .flags add =>
            if top && pieces.isEmpty then do
              modify fun s => { s with flags := s.flags.union add }
              sequence top fuel pieces
            else fail .lateFlags ((← get).position - start)
          | .capture groupName => do
            let number ← openGroup groupName
            let body ← alternatives false fuel
            closing start
            closeGroup number body.width
            sequence top fuel (.of (.group number body.expr) body.width :: pieces)
          | .plain add drop => do
            let outer := (← get).flags
            modify fun s => { s with flags := outer.within add drop }
            let body ← alternatives false fuel
            modify fun s => { s with flags := outer }
            closing start
            sequence top fuel (.of body.expr body.width :: pieces)
          | .atomic => do
            let body ← alternatives false fuel
            closing start
            sequence top fuel (.of (.atomic body.expr) body.width :: pieces)
          | .look behind negated => do
            let outer := (← get).lookbehind
            if behind then
              modify fun s => { s with lookbehind := some (outer.getD s.groups.length) }
            let body ← alternatives false fuel
            modify fun s => { s with lookbehind := outer }
            closing start
            if behind then
              let width := body.width.clipped
              if width.least ≠ width.most then modify fun s => { s with variableLookbehind := true }
              sequence top fuel (.of (.behind negated width.least body.expr) .zero :: pieces)
            else sequence top fuel (.of (.ahead negated body.expr) .zero :: pieces)
          | .condition => do
            let number ← conditionGroup
            let yes ← sequence false fuel []
            let no ← if ← accept '|' then do
                let no ← sequence false fuel []
                if (← next) = some (.plain '|') then fail .tooManyBranches 0 else pure no
              else pure (.of .empty .zero)
            closing start
            sequence top fuel
              (.of (.ifGroup number yes.expr no.expr) (yes.width.choice no.width) :: pieces)
        else sequence top fuel (.of (.code c.toNat s.flags.folding) .one :: pieces)

end

def whole (fuel : Nat) : Reader Expr := do
  if (← next) = some .broken then fail .escapeAtEnd 0
  else
    let piece ← alternatives true fuel
    let s ← get
    if s.flags.ascii && s.flags.unicode then throw .clashingFlags
    else if !s.rest.isEmpty then fail .unbalancedParenthesis 0
    else
      match s.conditions.find? fun (number, _) => decide (s.groups.length ≤ number) with
      | some (number, position) => throw (.misread (.invalidGroup number) (some position))
      | none =>
        if s.variableLookbehind then throw (.misread .variableLookbehind none) else return piece.expr

def read (text : WideText) : Except Defect Expr :=
  let tokens := Token.ofText text
  let start : Reading :=
    { rest := tokens
      position := 0
      flags := { Flags.none with ignoreCase := true }
      groups := [none]
      names := []
      lookbehind := none
      conditions := []
      variableLookbehind := false }
  (whole (4 * tokens.length + 8) start).map (·.1)

end Pattern

end SchemaInference
