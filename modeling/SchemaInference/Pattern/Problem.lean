import SchemaInference.Text.Wide

set_option autoImplicit false

namespace SchemaInference

namespace Pattern

inductive Problem
  | escapeAtEnd
  | incompleteEscape (escape : String)
  | badEscape (escape : String)
  | octalTooLarge (escape : String)
  | missingBrace
  | unknownCharacterName (name : String)
  | missingName (what : String)
  | unterminatedName (terminator : Char)
  | badGroupName (name : String)
  | unknownGroupName (name : String)
  | redefinedGroup (name : String) (number earlier : Nat)
  | openGroup
  | groupInLookbehind
  | invalidGroup (number : Nat)
  | zeroGroup
  | tooManyBranches
  | unterminatedSet
  | badRange (low high : String)
  | repeatBoundsReversed
  | nothingToRepeat
  | multipleRepeat
  | endOfPattern
  | unknownExtension (extension : String)
  | unterminatedComment
  | unterminatedGroup
  | unbalancedParenthesis
  | lateFlags
  | missingFlagEnd
  | missingFlag
  | missingColon
  | unknownFlag
  | localeFlag
  | incompatibleFlags
  | typeFlagOff
  | globalFlagOn
  | globalFlagOff
  | flagOnAndOff
  | variableLookbehind
deriving DecidableEq

namespace Problem

def message : Problem → String
  | escapeAtEnd => "bad escape (end of pattern)"
  | incompleteEscape escape => "incomplete escape " ++ escape
  | badEscape escape => "bad escape " ++ escape
  | octalTooLarge escape => "octal escape value " ++ escape ++ " outside of range 0-0o377"
  | missingBrace => "missing \x7b"
  | unknownCharacterName name => "undefined character name " ++ Text.quoted name
  | missingName what => "missing " ++ what
  | unterminatedName terminator => "missing " ++ String.singleton terminator ++ ", unterminated name"
  | badGroupName name => "bad character in group name " ++ Text.quoted name
  | unknownGroupName name => "unknown group name " ++ Text.quoted name
  | redefinedGroup name number earlier =>
    "redefinition of group name " ++ Text.quoted name ++ " as group " ++ toString number ++
      "; was group " ++ toString earlier
  | openGroup => "cannot refer to an open group"
  | groupInLookbehind => "cannot refer to group defined in the same lookbehind subpattern"
  | invalidGroup number => "invalid group reference " ++ toString number
  | zeroGroup => "bad group number"
  | tooManyBranches => "conditional backref with more than two branches"
  | unterminatedSet => "unterminated character set"
  | badRange low high => "bad character range " ++ low ++ "-" ++ high
  | repeatBoundsReversed => "min repeat greater than max repeat"
  | nothingToRepeat => "nothing to repeat"
  | multipleRepeat => "multiple repeat"
  | endOfPattern => "unexpected end of pattern"
  | unknownExtension extension => "unknown extension ?" ++ extension
  | unterminatedComment => "missing ), unterminated comment"
  | unterminatedGroup => "missing ), unterminated subpattern"
  | unbalancedParenthesis => "unbalanced parenthesis"
  | lateFlags => "global flags not at the start of the expression"
  | missingFlagEnd => "missing -, : or )"
  | missingFlag => "missing flag"
  | missingColon => "missing :"
  | unknownFlag => "unknown flag"
  | localeFlag => "bad inline flags: cannot use 'L' flag with a str pattern"
  | incompatibleFlags => "bad inline flags: flags 'a', 'u' and 'L' are incompatible"
  | typeFlagOff => "bad inline flags: cannot turn off flags 'a', 'u' and 'L'"
  | globalFlagOn => "bad inline flags: cannot turn on global flag"
  | globalFlagOff => "bad inline flags: cannot turn off global flag"
  | flagOnAndOff => "bad inline flags: flag turned on and off"
  | variableLookbehind => "look-behind requires fixed-width pattern"

end Problem

inductive Defect
  | misread (problem : Problem) (position : Option Nat)
  | countTooLarge
  | clashingFlags
deriving DecidableEq

namespace Defect

def column (cs : List Char) (position : Nat) : Nat :=
  ((cs.take position).reverse.takeWhile (· ≠ '\n')).length + 1

/-- The wording, with the position in the given text. -/
def message (text : WideText) : Defect → String
  | misread problem none => problem.message
  | misread problem (some position) =>
    let cs := text.shown.toList
    let place := problem.message ++ " at position " ++ toString position
    if cs.contains '\n' then
      place ++ " (line " ++ toString ((cs.take position).count '\n' + 1) ++ ", column " ++
        toString (column cs position) ++ ")"
    else place
  | countTooLarge => "the repetition number is too large"
  | clashingFlags => "ASCII and UNICODE flags are incompatible"

end Defect

end Pattern

end SchemaInference
