/-!
# Tokens

A token is a kind with the text it stands for and its place in the source. The tables here fix
the spelling of the language: which words are keywords, and which marks are operators.
-/

namespace StackScript

/-- The kinds of token. -/
inductive TokenKind where
  | number | string | formatted | name | kwFunc | kwVar | kwIf | kwElse | kwElif | kwFor | kwWhile
  | kwRepeat | kwIn | kwReturn | kwBreak | kwContinue | kwAnd | kwOr | kwNot | kwTrue | kwFalse
  | kwNone | kwClass | kwSelf | kwImport | kwFrom | kwSwitch | kwCase | kwDefault | kwTry
  | kwCatch | kwFinally | kwThrow | kwAs | kwInt | kwFloat | kwStr | kwBool | kwList | plus
  | minus | times | divide | modulo | power | equal | notEqual | less | greater | lessEqual
  | greaterEqual | arrow | assign | lparen | rparen | lbracket | rbracket | lbrace | rbrace
  | comma | colon | dot | newline | indent | dedent | eof | comment | at | kwLambda | kwYield
  | kwAsync | kwAwait | kwWith | kwGlobal | kwNonlocal | kwAssert | kwDel | kwPass | plusAssign
  | minusAssign | timesAssign | divideAssign | moduloAssign | powerAssign | bitAnd | bitOr
  | bitXor | bitNot | shiftLeft | shiftRight | kwIs | isNot
  deriving DecidableEq, Repr, Inhabited

namespace TokenKind

def labelled : List (TokenKind × String) := [
  (.number, "NUMBER"), (.string, "STRING"), (.formatted, "F_STRING"), (.name, "IDENTIFIER"),
  (.kwFunc, "FUNC"), (.kwVar, "VAR"), (.kwIf, "IF"), (.kwElse, "ELSE"), (.kwElif, "ELIF"),
  (.kwFor, "FOR"), (.kwWhile, "WHILE"), (.kwRepeat, "REPEAT"), (.kwIn, "IN"),
  (.kwReturn, "RETURN"), (.kwBreak, "BREAK"), (.kwContinue, "CONTINUE"), (.kwAnd, "AND"),
  (.kwOr, "OR"), (.kwNot, "NOT"), (.kwTrue, "TRUE"), (.kwFalse, "FALSE"), (.kwNone, "NONE"),
  (.kwClass, "CLASS"), (.kwSelf, "SELF"), (.kwImport, "IMPORT"), (.kwFrom, "FROM"),
  (.kwSwitch, "SWITCH"), (.kwCase, "CASE"), (.kwDefault, "DEFAULT"), (.kwTry, "TRY"),
  (.kwCatch, "CATCH"), (.kwFinally, "FINALLY"), (.kwThrow, "THROW"), (.kwAs, "AS"),
  (.kwInt, "INT"), (.kwFloat, "FLOAT"), (.kwStr, "STR"), (.kwBool, "BOOL"), (.kwList, "LIST"),
  (.plus, "PLUS"), (.minus, "MINUS"), (.times, "MULTIPLY"), (.divide, "DIVIDE"),
  (.modulo, "MODULO"), (.power, "POWER"), (.equal, "EQUAL"), (.notEqual, "NOT_EQUAL"),
  (.less, "LESS"), (.greater, "GREATER"), (.lessEqual, "LESS_EQUAL"),
  (.greaterEqual, "GREATER_EQUAL"), (.arrow, "ARROW"), (.assign, "ASSIGN"), (.lparen, "LPAREN"),
  (.rparen, "RPAREN"), (.lbracket, "LBRACKET"), (.rbracket, "RBRACKET"), (.lbrace, "LBRACE"),
  (.rbrace, "RBRACE"), (.comma, "COMMA"), (.colon, "COLON"), (.dot, "DOT"),
  (.newline, "NEWLINE"), (.indent, "INDENT"), (.dedent, "DEDENT"), (.eof, "EOF"),
  (.comment, "COMMENT"), (.at, "AT"), (.kwLambda, "LAMBDA"), (.kwYield, "YIELD"),
  (.kwAsync, "ASYNC"), (.kwAwait, "AWAIT"), (.kwWith, "WITH"), (.kwGlobal, "GLOBAL"),
  (.kwNonlocal, "NONLOCAL"), (.kwAssert, "ASSERT"), (.kwDel, "DEL"), (.kwPass, "PASS"),
  (.plusAssign, "PLUS_ASSIGN"), (.minusAssign, "MINUS_ASSIGN"),
  (.timesAssign, "MULTIPLY_ASSIGN"), (.divideAssign, "DIVIDE_ASSIGN"),
  (.moduloAssign, "MODULO_ASSIGN"), (.powerAssign, "POWER_ASSIGN"), (.bitAnd, "BITWISE_AND"),
  (.bitOr, "BITWISE_OR"), (.bitXor, "BITWISE_XOR"), (.bitNot, "BITWISE_NOT"),
  (.shiftLeft, "LEFT_SHIFT"), (.shiftRight, "RIGHT_SHIFT"), (.kwIs, "IS"), (.isNot, "IS_NOT")]

def label (kind : TokenKind) : String :=
  ((labelled.find? fun entry => entry.1 == kind).map (·.2)).getD ""

def ofLabel? (label : String) : Option TokenKind :=
  (labelled.find? fun entry => entry.2 == label).map (·.1)

def keywords : List (String × TokenKind) := [
  ("func", .kwFunc), ("var", .kwVar), ("if", .kwIf), ("else", .kwElse), ("elif", .kwElif),
  ("for", .kwFor), ("while", .kwWhile), ("repeat", .kwRepeat), ("in", .kwIn),
  ("return", .kwReturn), ("break", .kwBreak), ("continue", .kwContinue), ("and", .kwAnd),
  ("or", .kwOr), ("not", .kwNot), ("True", .kwTrue), ("False", .kwFalse), ("true", .kwTrue),
  ("false", .kwFalse), ("None", .kwNone), ("class", .kwClass), ("self", .kwSelf),
  ("import", .kwImport), ("from", .kwFrom), ("switch", .kwSwitch), ("case", .kwCase),
  ("default", .kwDefault), ("try", .kwTry), ("catch", .kwCatch), ("finally", .kwFinally),
  ("throw", .kwThrow), ("as", .kwAs), ("lambda", .kwLambda), ("yield", .kwYield),
  ("async", .kwAsync), ("await", .kwAwait), ("with", .kwWith), ("global", .kwGlobal),
  ("nonlocal", .kwNonlocal), ("assert", .kwAssert), ("del", .kwDel), ("pass", .kwPass),
  ("is", .kwIs), ("int", .kwInt), ("float", .kwFloat), ("str", .kwStr), ("bool", .kwBool),
  ("list", .kwList)]

def ofWord (word : String) : TokenKind :=
  ((keywords.find? fun entry => entry.1 == word).map (·.2)).getD .name

/-- The operators and delimiters; a longer one stands before those it starts with. -/
def marks : List (String × TokenKind) := [
  ("**=", .powerAssign), ("**", .power), ("==", .equal), ("!=", .notEqual), ("<=", .lessEqual),
  ("<<", .shiftLeft), (">=", .greaterEqual), (">>", .shiftRight), ("->", .arrow),
  ("+=", .plusAssign), ("-=", .minusAssign), ("*=", .timesAssign), ("/=", .divideAssign),
  ("%=", .moduloAssign), ("+", .plus), ("-", .minus), ("*", .times), ("/", .divide),
  ("%", .modulo), ("=", .assign), ("<", .less), (">", .greater), ("(", .lparen), (")", .rparen),
  ("[", .lbracket), ("]", .rbracket), ("\x7b", .lbrace), ("\x7d", .rbrace), (",", .comma),
  (":", .colon), (".", .dot), ("&", .bitAnd), ("|", .bitOr), ("^", .bitXor), ("~", .bitNot),
  ("@", .at)]

end TokenKind

/-- A token: its kind, its text, the line where it ends and the column where it starts. -/
structure Token where
  kind : TokenKind
  text : String
  line : Nat
  column : Nat
  deriving DecidableEq, Repr, Inhabited

end StackScript
