import StackScript.Datum.Reader
import StackScript.Text.Quoted

/-!
# Faults of operations on values

Each cause of a failing operation is a constructor; `Fault.message` is its wording, and
`Fault.kind` its class, by which the machines decide what they report themselves.
-/

namespace StackScript

/-- The classes of faults. -/
inductive FaultKind where
  | type
  | value
  | key
  | index
  | attribute
  | zeroDivision
  | overflow
  | memory
  | runtime
  | missingLibrary
  | json
  deriving DecidableEq, Repr

/-- Why an operation on values fails. -/
inductive Fault where
  -- operands of the wrong kind
  | unsupported (operator left right : String)
  | concatenation (sequence other : String)
  | repetition (kind : String)
  | unordered (operator left right : String)
  | noContainer (kind : String)
  | needsText (kind : String)
  | unhashable (kind : String)
  | notIterable (kind : String)
  | notIterator (kind : String)
  | notReversible (kind : String)
  | notCallable (kind : String)
  | notSubscriptable (kind : String)
  | typeNotSubscriptable (name : String)
  | noItemAssignment (kind : String)
  | indexKind (sequence kind : String)
  | textIndexKind (kind : String)
  | noLength (kind : String)
  | notWhole (kind : String)
  | absKind (kind : String)
  | roundKind (kind : String)
  | intKind (kind : String)
  | floatKind (kind : String)
  | realKind (kind : String)
  | sumOfTexts
  | attributeName (kind : String)
  | textOfText (kind : String)
  | notUnpackable (kind : String)
  | relativeImport (name : String)
  | missingArguments (function : String) (names : List String)
  | extraArguments (function : String) (least most given : Nat)
  | exactArguments (function : String) (wanted : String) (given : Nat)
  | expectedArguments (function wanted : String) (given : Nat)
  | logArguments
  | truncKind (kind : String)
  | exponentKind
  | rangeArguments
  | dictItem (index : Nat)
  | notJson (kind : String)
  | jsonKey (kind : String)
  | jsonSource (kind : String)
  -- format strings
  | formatEnough
  | formatAll
  | formatMapping
  | formatStar
  | formatReal (letter : Char) (kind : String)
  | formatWhole (letter : Char) (kind : String)
  | formatChar
  | formatCharRange
  | formatLetter (letter : Char) (index : Nat)
  | formatIncomplete
  | formatKey
  | formatWidth
  | formatPrecision
  -- values out of range
  | intText (text : String)
  | longText (digits : Nat)
  | longInteger
  | floatText (text : String)
  | nanToInt
  | rangeStep
  | emptyModule
  | unpackFew (wanted got : Nat)
  | unpackMany (wanted : Nat)
  | dictItemLength (index length : Nat)
  | mathDomain
  | mathText (text : String)
  | circular
  | notOpcode (text : String)
  | jsonText (e : Datum.ReadError)
  -- items
  | missingKey (text : String)
  | outOfRange (sequence : String)
  | assignmentOutOfRange
  | popEmpty
  | indexSize
  | tableSize
  -- attributes
  | noAttribute (kind name : String)
  | noMember (library name : String)
  | noTypeMember (type name : String)
  | noLibraryItem (library name : String)
  | notWritable (kind name : String)
  | readOnly (kind name : String)
  | readOnlyMember
  | wrappedAttribute (name : String)
  -- arithmetic
  | divisionByZero
  | floatDivision
  | intModulo
  | floatModulo
  | zeroPower
  | complexZeroPower
  | complexDivision
  | intTooLarge
  | quotientTooLarge
  | infinityToInt
  | resultRange
  | complexPower
  | complexAbs
  | repeatSize
  | longRepeat
  | sizeRange
  | roundedTooLarge
  | mathRange
  | noMemory
  -- libraries
  | noLibrary (name : String)
  | noPackage (name parent : String)
  deriving Repr

namespace Fault

def listing (names : List String) : String :=
  match names.map fun n => s!"'{n}'" with
  | [] => ""
  | [a] => a
  | [a, b] => s!"{a} and {b}"
  | quoted => ", ".intercalate quoted.dropLast ++ ", and " ++ quoted.getLastD ""

def plural (n : Nat) : String := if n = 1 then "" else "s"

/-- A character that can be shown in a report, or else a question mark. -/
def shownLetter (c : Char) : Char :=
  if 31 ≤ c.toNat && c.toNat < 127 then c else '?'

def message : Fault → String
  | unsupported operator left right =>
    s!"unsupported operand type(s) for {operator}: '{left}' and '{right}'"
  | concatenation sequence other => s!"can only concatenate {sequence} (not \"{other}\") to {sequence}"
  | repetition kind => s!"can't multiply sequence by non-int of type '{kind}'"
  | unordered operator left right =>
    s!"'{operator}' not supported between instances of '{left}' and '{right}'"
  | noContainer kind => s!"argument of type '{kind}' is not iterable"
  | needsText kind => s!"'in <string>' requires string as left operand, not {kind}"
  | unhashable kind => s!"unhashable type: '{kind}'"
  | notIterable kind => s!"'{kind}' object is not iterable"
  | notIterator kind => s!"'{kind}' object is not an iterator"
  | notReversible kind => s!"'{kind}' object is not reversible"
  | notCallable kind => s!"'{kind}' object is not callable"
  | notSubscriptable kind => s!"'{kind}' object is not subscriptable"
  | typeNotSubscriptable name => s!"type '{name}' is not subscriptable"
  | noItemAssignment kind => s!"'{kind}' object does not support item assignment"
  | indexKind sequence kind => s!"{sequence} indices must be integers or slices, not {kind}"
  | textIndexKind kind => s!"string indices must be integers, not '{kind}'"
  | noLength kind => s!"object of type '{kind}' has no len()"
  | notWhole kind => s!"'{kind}' object cannot be interpreted as an integer"
  | absKind kind => s!"bad operand type for abs(): '{kind}'"
  | roundKind kind => s!"type {kind} doesn't define __round__ method"
  | intKind kind =>
    s!"int() argument must be a string, a bytes-like object or a real number, not '{kind}'"
  | floatKind kind => s!"float() argument must be a string or a real number, not '{kind}'"
  | realKind kind => s!"must be real number, not {kind}"
  | sumOfTexts => "sum() can't sum strings [use ''.join(seq) instead]"
  | attributeName kind => s!"attribute name must be string, not '{kind}'"
  | textOfText kind => s!"__str__ returned non-string (type {kind})"
  | notUnpackable kind => s!"cannot unpack non-iterable {kind} object"
  | relativeImport name =>
    s!"the 'package' argument is required to perform a relative import for {Text.quoted name}"
  | missingArguments function names =>
    let count := names.length
    s!"{function}() missing {count} required positional argument{plural count}: {listing names}"
  | extraArguments function least most given =>
    let wanted := if least = most then s!"{most} positional argument{plural most}"
      else s!"from {least} to {most} positional arguments"
    let verb := if given = 1 then "was" else "were"
    s!"{function}() takes {wanted} but {given} {verb} given"
  | exactArguments function wanted given => s!"{function}() takes {wanted} ({given} given)"
  | expectedArguments function wanted given => s!"{function} expected {wanted}, got {given}"
  | logArguments => "math.log requires 1 to 2 arguments"
  | truncKind kind => s!"type {kind} doesn't define __trunc__ method"
  | exponentKind => "Expected an int as second argument to ldexp."
  | rangeArguments => "range() takes 1 to 3 arguments"
  | dictItem index =>
    s!"cannot convert dictionary update sequence element #{index} to a sequence"
  | notJson kind => s!"Object of type {kind} is not JSON serializable"
  | jsonKey kind => s!"keys must be str, int, float, bool or None, not {kind}"
  | jsonSource kind => s!"the JSON object must be str, bytes or bytearray, not {kind}"
  | formatEnough => "not enough arguments for format string"
  | formatAll => "not all arguments converted during string formatting"
  | formatMapping => "format requires a mapping"
  | formatStar => "* wants int"
  | formatReal letter kind => s!"%{letter} format: a real number is required, not {kind}"
  | formatWhole letter kind => s!"%{letter} format: an integer is required, not {kind}"
  | formatChar => "%c requires int or char"
  | formatCharRange => "%c arg not in range(0x110000)"
  | formatLetter letter index =>
    let code := String.ofList (Nat.toDigits 16 letter.toNat)
    s!"unsupported format character '{shownLetter letter}' (0x{code}) at index {index}"
  | formatIncomplete => "incomplete format"
  | formatKey => "incomplete format key"
  | formatWidth => "width too big"
  | formatPrecision => "precision too big"
  | intText text =>
    let start := String.ofList ((Text.quoted text).toList.take 200)
    s!"invalid literal for int() with base 10: {start}"
  | longText digits => (Datum.ReadError.tooLong digits).message
  | longInteger =>
    s!"Exceeds the limit ({Number.digitLimit} digits) for integer string conversion; use sys.set_int_max_str_digits() to increase the limit"
  | floatText text => s!"could not convert string to float: {Text.quoted text}"
  | nanToInt => "cannot convert float NaN to integer"
  | rangeStep => "range() arg 3 must not be zero"
  | emptyModule => "Empty module name"
  | unpackFew wanted got => s!"not enough values to unpack (expected {wanted}, got {got})"
  | unpackMany wanted => s!"too many values to unpack (expected {wanted})"
  | dictItemLength index length =>
    s!"dictionary update sequence element #{index} has length {length}; 2 is required"
  | mathDomain => "math domain error"
  | mathText text => text
  | circular => "Circular reference detected"
  | notOpcode text => s!"{text} is not a valid OpCode"
  | jsonText e => e.message
  | missingKey text => text
  | outOfRange sequence => s!"{sequence} index out of range"
  | assignmentOutOfRange => "list assignment index out of range"
  | popEmpty => "pop from empty list"
  | indexSize => "cannot fit 'int' into an index-sized integer"
  | tableSize => "dictionary changed size during iteration"
  | noAttribute kind name => s!"'{kind}' object has no attribute '{name}'"
  | noMember library name => s!"module '{library}' has no attribute '{name}'"
  | noTypeMember type name => s!"type object '{type}' has no attribute '{name}'"
  | noLibraryItem library name => s!"Module '{library}' has no attribute '{name}'"
  | notWritable kind name => s!"attribute '{name}' of '{kind}' objects is not writable"
  | readOnly kind name => s!"'{kind}' object attribute '{name}' is read-only"
  | readOnlyMember => "readonly attribute"
  | wrappedAttribute name => s!"Object has no attribute '{name}'"
  | divisionByZero => "Division by zero"
  | floatDivision => "float division by zero"
  | intModulo => "integer modulo by zero"
  | floatModulo => "float modulo"
  | zeroPower => "0.0 cannot be raised to a negative power"
  | complexZeroPower => "0.0 to a negative or complex power"
  | complexDivision => "complex division by zero"
  | intTooLarge => "int too large to convert to float"
  | quotientTooLarge => "integer division result too large for a float"
  | infinityToInt => "cannot convert float infinity to integer"
  | resultRange => "(34, 'Numerical result out of range')"
  | complexPower => "complex exponentiation"
  | complexAbs => "absolute value too large"
  | repeatSize => "cannot fit 'int' into an index-sized integer"
  | longRepeat => "repeated string is too long"
  | sizeRange => "Python int too large to convert to C ssize_t"
  | roundedTooLarge => "rounded value too large to represent"
  | mathRange => "math range error"
  | noMemory => ""
  | noLibrary name => s!"No module named {Text.quoted name}"
  | noPackage name parent =>
    s!"No module named {Text.quoted name}; {Text.quoted parent} is not a package"

def kind : Fault → FaultKind
  | intText _ | longText _ | longInteger | floatText _ | nanToInt | rangeStep | emptyModule
  | unpackFew _ _ | unpackMany _ | dictItemLength _ _ | mathDomain | mathText _ | circular
  | notOpcode _ | formatLetter _ _ | formatIncomplete | formatKey | formatWidth
  | formatPrecision => .value
  | jsonText (.malformed _ _ _ _) => .json
  | jsonText (.tooLong _) => .value
  | missingKey _ => .key
  | outOfRange _ | assignmentOutOfRange | popEmpty | indexSize => .index
  | tableSize => .runtime
  | noAttribute _ _ | noMember _ _ | noTypeMember _ _ | noLibraryItem _ _ | notWritable _ _ | readOnly _ _
  | readOnlyMember | wrappedAttribute _ => .attribute
  | divisionByZero | floatDivision | intModulo | floatModulo | zeroPower | complexZeroPower | complexDivision =>
    .zeroDivision
  | intTooLarge | quotientTooLarge | infinityToInt | resultRange | complexPower | complexAbs
  | repeatSize | longRepeat | sizeRange | roundedTooLarge | mathRange | formatCharRange =>
    .overflow
  | noMemory => .memory
  | noLibrary _ | noPackage _ _ => .missingLibrary
  | _ => .type

end Fault

end StackScript
