import AnnotatedGrammar.Text.Quoted

/-!
# Names in generated files

Every name in a generated file is computed here: classes, fields, variants of unions, nonterminals
and token identifiers. Grammar texts may hold any characters; names consist of ASCII letters, digits
and underscores and avoid the words that the generated code or its tools reserve.
-/

namespace AnnotatedGrammar.Naming

/-- Words that the language of the generated classes reserves, and names the generated code uses
itself. -/
def reservedWords : List String :=
  ["alignas", "alignof", "and", "and_eq", "asm", "auto", "bitand", "bitor", "bool", "break",
    "case", "catch", "char", "char16_t", "char32_t", "class", "compl", "const", "const_cast",
    "constexpr", "continue", "decltype", "default", "delete", "do", "double", "dynamic_cast",
    "else", "enum", "explicit", "export", "extern", "false", "float", "for", "friend", "goto",
    "if", "inline", "int", "long", "mutable", "namespace", "new", "noexcept", "not", "not_eq",
    "nullptr", "operator", "or", "or_eq", "private", "protected", "public", "register",
    "reinterpret_cast", "return", "short", "signed", "sizeof", "static", "static_assert",
    "static_cast", "struct", "switch", "template", "this", "thread_local", "throw", "true",
    "try", "typedef", "typeid", "typename", "union", "unsigned", "using", "virtual", "void",
    "volatile", "wchar_t", "while", "xor", "xor_eq", "std", "detail", "Tag", "parser",
    "scanner"]

/-- Members that every generated class declares. -/
def memberWords : List String := ["class_name", "merge_from", "key", "tag", "tag_name"]

/-- Symbols that the parser generator claims. -/
def parserWords : List String := ["error", "YYEOF", "YYerror", "YYUNDEF", "accept_"]

/-- Whether a name is reserved in generated files. -/
def isReserved (name : String) : Bool := reservedWords.contains name

/-- Letters that a name can begin with. -/
def isLetter (c : Char) : Bool := c.isAlpha || c == '_'

/-- Characters that can continue a name. -/
def isLetterOrDigit (c : Char) : Bool := c.isAlphanum || c == '_'

/-- Whether a text is a name as it stands. -/
def isIdentifier (text : String) : Bool :=
  match text.toList with
  | [] => false
  | c :: rest => isLetter c && rest.all isLetterOrDigit

/-- The name of a punctuation character. -/
def spellPunctuation? (c : Char) : Option String :=
  List.lookup c
    [('(', "LPAREN"), (')', "RPAREN"), ('[', "LBRACKET"), (']', "RBRACKET"),
      ('\x7b', "LBRACE"), ('\x7d', "RBRACE"), ('<', "LT"), ('>', "GT"), (',', "COMMA"),
      (';', "SEMICOLON"), (':', "COLON"), ('.', "DOT"), ('=', "EQUALS"), ('+', "PLUS"),
      ('-', "MINUS"), ('*', "STAR"), ('/', "SLASH"), ('\\', "BACKSLASH"), ('#', "HASH"),
      ('$', "DOLLAR"), ('%', "PERCENT"), ('&', "AMP"), ('|', "PIPE"), ('!', "BANG"),
      ('?', "QUESTION"), ('@', "AT"), ('^', "CARET"), ('~', "TILDE"), ('\x60', "BACKTICK"),
      ('\'', "QUOTE"), ('"', "DQUOTE"), ('_', "UNDERSCORE"), (' ', "SPACE"), ('\t', "TAB"),
      ('\n', "NEWLINE")]

/-- The longest runs of letters and digits in a text; `run` holds the current run, latest character
first. -/
def wordsFrom (run : List Char) : List Char → List (List Char)
  | [] => if run.isEmpty then [] else [run.reverse]
  | c :: rest =>
    if c.isAlphanum then wordsFrom (c :: run) rest
    else if run.isEmpty then wordsFrom [] rest
    else run.reverse :: wordsFrom [] rest

/-- The longest runs of letters and digits in a text. -/
def words (text : List Char) : List (List Char) := wordsFrom [] text

/-- A word with its first letter in upper case. -/
def capitalize : List Char → List Char
  | [] => []
  | c :: rest => c.toUpper :: rest

/-- The words of a text run together, each with a capital letter; a `T` goes in front of a digit.
There is no such name for a text without letters and digits. -/
def camelCase (text : List Char) : Option (List Char) :=
  match (words text).flatMap capitalize with
  | [] => none
  | c :: rest => if c.isDigit then some ('T' :: c :: rest) else some (c :: rest)

/-- A reserved name gets an underscore. -/
def avoidReserved (name : String) : String := if isReserved name then name ++ "_" else name

/-- The class name of a text, behind a chosen beginning. -/
def className (text beginning : String) : Option String :=
  (camelCase text.toList).map fun name => avoidReserved (beginning ++ String.ofList name)

/-- The name of a union variant; a text of punctuation alone is spelled out. -/
def tagName (text : String) : Option String :=
  if text.toList.any Char.isAlphanum then
    (camelCase text.toList).map fun name => avoidReserved (String.ofList name)
  else
    match text.toList.filterMap spellPunctuation? with
    | [] => none
    | spelled =>
      some (String.ofList (spelled.flatMap fun word => capitalize (word.toList.map Char.toLower)))

/-- Lower-case words separated by underscores, latest character first: an underscore stands where a
capital follows a small letter or digit, and for every run of other characters. `written` holds what
is written already and `previous` the character read last. -/
def snakeFrom (written : List Char) (previous : Option Char) : List Char → List Char
  | [] => written
  | c :: rest =>
    let boundary :=
      c.isUpper &&
        (match previous with
        | some p => p.isLower || p.isDigit
        | none => false)
    let written := if boundary then '_' :: written else written
    let small := c.toLower
    let written :=
      if small.isLower || small.isDigit then small :: written
      else if written.head? = some '_' then written
      else '_' :: written
    snakeFrom written (some c) rest

/-- A text in lower case with underscores between words, and none at the ends. -/
def snakeCase (text : List Char) : List Char :=
  ((snakeFrom [] none text).dropWhile (· == '_')).reverse.dropWhile (· == '_')

/-- The field name of a text; there is none for a text without letters and digits. -/
def fieldName (text : String) : Option String :=
  match snakeCase text.toList with
  | [] => none
  | c :: rest =>
    let name :=
      String.ofList (if c.isDigit then 'f' :: '_' :: c :: rest else c :: rest)
    some (if isReserved name || memberWords.contains name then name ++ "_" else name)

/-- Whether a rule name would be taken for a token. -/
def looksLikeToken (name : String) : Bool := "TOK_".toList.isPrefixOf name.toList

/-- The nonterminal of a rule name. Rule names are names already; only clashes with the parser
generator and with tokens are avoided. -/
def nonterminalSymbol (ruleName : String) : String :=
  if parserWords.contains ruleName || looksLikeToken ruleName then ruleName ++ "_" else ruleName

/-- A digit of a number in base sixteen, in upper case. -/
def upperHexDigit (d : Nat) : Char := (Text.hexDigit d).toUpper

/-- A code point in base sixteen with at least four digits. -/
def codePointDigits (c : Char) : List Char :=
  let digits := (Text.hexDigits c.toNat).map Char.toUpper
  List.replicate (4 - digits.length) '0' ++ digits

/-- The words of a literal's token name: runs of letters and digits in upper case, and a word for
every other character; `run` holds the current run, latest character first. -/
def tokenWords (run : List Char) : List Char → List String
  | [] => if run.isEmpty then [] else [String.ofList run.reverse]
  | c :: rest =>
    if c.isAlphanum then tokenWords (c.toUpper :: run) rest
    else
      let word :=
        match spellPunctuation? c with
        | some word => word
        | none => String.ofList ('U' :: codePointDigits c)
      if run.isEmpty then word :: tokenWords [] rest
      else String.ofList run.reverse :: word :: tokenWords [] rest

/-- The token name of a literal, before clashes are resolved. -/
def literalTokenId (lexeme : String) : String :=
  "TOK_" ++ "_".intercalate (tokenWords [] lexeme.toList)

/-- A name with a number behind it. -/
def numbered (base : String) (n : Nat) : String := base ++ "_" ++ toString n

/-- The first of `base`, `base_2`, `base_3` and so on that is not taken. At most `bound` names are
taken, so that many numbers are enough. -/
def uniqueName (base : String) (bound : Nat) (taken : String → Bool) : String :=
  if taken base then
    match (List.range' 2 bound).find? fun n => !taken (numbered base n) with
    | some n => numbered base n
    | none => base
  else base

/-- The first numbered form of a name that is not in a list. -/
def uniqueAmong (base : String) (taken : List String) : String :=
  uniqueName base taken.length fun name => taken.contains name

end AnnotatedGrammar.Naming
