import AnnotatedGrammar.Production.Check

/-!
# Token catalogs

A token catalog lists the different terminals of a production set with their token names, in the
order of the scanner's rules: literals before patterns, longer literals before shorter ones. Of two
rules that match equally much the first one counts, so a keyword wins over the pattern for
identifiers.
-/

namespace AnnotatedGrammar

/-- What kind of token a terminal is. -/
inductive TokenCategory
  | keyword
  | punctuation
  | pattern (p : Pattern)
deriving DecidableEq, Repr, Inhabited

namespace TokenCategory

/-- A literal with a letter or digit is a keyword. -/
def ofLiteral (text : String) : TokenCategory :=
  if text.toList.any Char.isAlphanum then keyword else punctuation

/-- The category of a terminal. -/
def ofTerminal : Terminal → TokenCategory
  | .literal text => ofLiteral text
  | .pattern p => pattern p

/-- Whether tokens of the category differ in their texts. -/
def isPattern : TokenCategory → Bool
  | pattern _ => true
  | keyword | punctuation => false

/-- The category as reports name it. -/
def word : TokenCategory → String
  | keyword => "keyword"
  | punctuation => "punctuation"
  | pattern .identifier => "identifier"
  | pattern .number => "number"
  | pattern .quotedString => "quoted-string"
  | pattern .instanceReference => "instance-reference"

end TokenCategory

/-- A terminal with its token name. -/
structure TokenEntry where
  name : String
  terminal : Terminal
deriving DecidableEq, Repr, Inhabited

namespace TokenEntry

/-- The kind of token. -/
def category (e : TokenEntry) : TokenCategory := .ofTerminal e.terminal

/-- The value that tokens come with; literals have none. -/
def value? (e : TokenEntry) : Option Primitive :=
  match e.terminal with
  | .literal _ => none
  | .pattern p => some (Primitive.ofPattern p)

/-- The text of a literal. -/
def lexeme? (e : TokenEntry) : Option String :=
  match e.terminal with
  | .literal text => some text
  | .pattern _ => none

/-- How a terminal reads in a grammar. -/
def describeTerminal : Terminal → String
  | .literal text => "'" ++ text ++ "'"
  | .pattern p => p.display

/-- How the entry reads in a grammar. -/
def describe (e : TokenEntry) : String := describeTerminal e.terminal

end TokenEntry

/-- The terminals of a production set in the order of the scanner's rules. -/
structure TokenCatalog where
  entries : List TokenEntry
deriving DecidableEq, Repr, Inhabited

namespace TokenCatalog

/-- The literals of a production set, longest first; equally long ones in the order in which they
first occur. -/
def literals (terminals : List Terminal) : List String :=
  (terminals.filterMap fun
    | .literal text => some text
    | .pattern _ => none).mergeSort fun a b => b.length ≤ a.length

/-- The patterns among terminals, in their fixed order. -/
def patterns (terminals : List Terminal) : List Pattern :=
  Pattern.all.filter fun p => terminals.contains (.pattern p)

/-- The token name of a pattern. -/
def patternTokenName (p : Pattern) : String :=
  "TOK_" ++ String.ofList (p.name.toList.map Char.toUpper)

/-- Entries for literals, named apart from each other and from the names taken already. -/
def literalEntries (taken : List String) : List String → List TokenEntry
  | [] => []
  | text :: rest =>
    let name := Naming.uniqueAmong (Naming.literalTokenId text) taken
    ⟨name, .literal text⟩ :: literalEntries (name :: taken) rest

/-- The catalog of a list of different terminals. -/
def ofTerminals (terminals : List Terminal) : TokenCatalog :=
  let patternEntries := (patterns terminals).map fun p =>
    (⟨patternTokenName p, .pattern p⟩ : TokenEntry)
  ⟨literalEntries (patternEntries.map (·.name)) (literals terminals) ++ patternEntries⟩

/-- The catalog of a production set. -/
def ofProductions (set : ProductionSet) : TokenCatalog := ofTerminals set.terminals

/-- How many entries there are. -/
def size (catalog : TokenCatalog) : Nat := catalog.entries.length

/-- The entry of a terminal. -/
def find? (catalog : TokenCatalog) (t : Terminal) : Option TokenEntry :=
  catalog.entries.find? fun e => e.terminal == t

/-- The entry of a term, or a fault. -/
def lookup (catalog : TokenCatalog) : Term → Checked TokenEntry
  | .nonterminal _ => .error (.invariant .tokenCatalog .nonterminalAsToken none)
  | .terminal t =>
    match catalog.find? t with
    | some e => .ok e
    | none => .error (.unknownToken (TokenEntry.describeTerminal t))

/-- What the log is told about a catalog. -/
def logEntry (catalog : TokenCatalog) : Log.Entry :=
  Log.Entry.success Code.catalogBuilt "Token catalog built"
    [("tokens", toString catalog.size),
      ("patterns", toString (catalog.entries.countP fun e => e.category.isPattern))]

end TokenCatalog
end AnnotatedGrammar
