import AnnotatedGrammar.Toml.Scalar

/-!
# Reading TOML documents

A reader takes the characters of a document and gives what it read together with the characters
behind it, or nothing. Containers nest less deep than `depthLimit`, and a key has fewer parts than
that.
-/

namespace AnnotatedGrammar.Toml

/-- Reads something from the beginning of a text. -/
abbrev Reader (α : Type) := List Char → Option (α × List Char)

/-- Nesting of arrays and tables, and parts of a key, stay below this number. -/
def depthLimit : Nat := 80

/-- Blanks within a line. -/
def isBlank (c : Char) : Bool := c == ' ' || c == '\t'

/-- Characters that may stand in comments and quoted texts. -/
def isPlain (c : Char) : Bool := c == '\t' || (0x20 ≤ c.toNat && c.toNat != 0x7f)

/-- What follows the blanks. -/
def skipBlanks (cs : List Char) : List Char := cs.dropWhile isBlank

/-- What follows a line break. -/
def afterBreak? : List Char → Option (List Char)
  | '\n' :: rest => some rest
  | '\r' :: '\n' :: rest => some rest
  | _ => none

/-- What follows the end of a line, before which blanks and a comment may stand. -/
def afterLine? (cs : List Char) : Option (List Char) :=
  let cs := skipBlanks cs
  let cs :=
    match cs with
    | '#' :: rest => rest.dropWhile isPlain
    | cs => cs
  if cs.isEmpty then some [] else afterBreak? cs

/-- What follows blanks, line breaks and comments; the flag tells that a comment has begun. -/
def skipFiller : Bool → List Char → List Char
  | _, [] => []
  | inComment, c :: rest =>
    if c = '\n' then skipFiller false rest
    else if c = '\r' then
      match rest with
      | '\n' :: more => skipFiller false more
      | _ => c :: rest
    else if inComment then if isPlain c then skipFiller true rest else c :: rest
    else if isBlank c then skipFiller false rest
    else if c = '#' then skipFiller true rest
    else c :: rest

/-- The character that a letter behind a backslash stands for. -/
def escaped? (c : Char) : Option Char :=
  List.lookup c
    [('b', '\x08'), ('t', '\t'), ('n', '\n'), ('f', '\x0c'), ('r', '\r'), ('"', '"'), ('\\', '\\')]

/-- The character of a code in base sixteen. -/
def codePoint? (digits : List Char) : Option Char :=
  let n := digitsValue 16 digits
  if digits.all isHexDigit && n.isValidChar then some (Char.ofNat n) else none

/-- Puts a character in front of what a reader gives. -/
def prepend (c : Char) (read : Option (List Char × List Char)) :
    Option (List Char × List Char) :=
  read.map fun (text, rest) => (c :: text, rest)

/-- A text on one line up to its closing double quote. -/
def basicText : Reader (List Char)
  | [] => none
  | c :: rest =>
    if c = '"' then some ([], rest)
    else if c = '\\' then
      match rest with
      | 'u' :: d₁ :: d₂ :: d₃ :: d₄ :: more =>
        (codePoint? [d₁, d₂, d₃, d₄]).bind fun c => prepend c (basicText more)
      | 'U' :: d₁ :: d₂ :: d₃ :: d₄ :: d₅ :: d₆ :: d₇ :: d₈ :: more =>
        (codePoint? [d₁, d₂, d₃, d₄, d₅, d₆, d₇, d₈]).bind fun c => prepend c (basicText more)
      | e :: more => (escaped? e).bind fun c => prepend c (basicText more)
      | [] => none
    else if isPlain c then prepend c (basicText rest)
    else none

/-- A text on one line up to its closing single quote. -/
def literalText : Reader (List Char)
  | [] => none
  | c :: rest =>
    if c = '\'' then some ([], rest)
    else if isPlain c then prepend c (literalText rest)
    else none

/-- Where in a text over several lines reading stands. -/
inductive LongMode
  | text
  /-- Behind a backslash at the end of a line, before the line break. -/
  | beforeBreak
  /-- Behind that line break; blanks and line breaks are passed over. -/
  | afterBreak
deriving DecidableEq, Repr, Inhabited

/-- A text over several lines up to three closing quotes. One or two quotes are part of the text,
also directly in front of the closing ones. Backslashes count only between double quotes. -/
def longText (quote : Char) : LongMode → Reader (List Char)
  | _, [] => none
  | mode, c :: rest =>
    if mode = .beforeBreak then
      if isBlank c then longText quote .beforeBreak rest
      else if c = '\n' then longText quote .afterBreak rest
      else if c = '\r' then
        match rest with
        | '\n' :: more => longText quote .afterBreak more
        | _ => none
      else none
    else if mode = .afterBreak ∧ (isBlank c ∨ c = '\n') then longText quote .afterBreak rest
    else if c = '\n' then prepend '\n' (longText quote .text rest)
    else if c = '\r' then
      match rest with
      | '\n' :: more =>
        if mode = .afterBreak then longText quote .afterBreak more
        else prepend '\n' (longText quote .text more)
      | _ => none
    else if c = quote then
      match rest with
      | a :: b :: more =>
        if a = quote ∧ b = quote then
          let further := (more.takeWhile (· == quote)).take 2
          some (further, more.drop further.length)
        else prepend c (longText quote .text rest)
      | _ => none
    else if c = '\\' ∧ quote = '"' then
      match rest with
      | 'u' :: d₁ :: d₂ :: d₃ :: d₄ :: more =>
        (codePoint? [d₁, d₂, d₃, d₄]).bind fun c => prepend c (longText quote .text more)
      | 'U' :: d₁ :: d₂ :: d₃ :: d₄ :: d₅ :: d₆ :: d₇ :: d₈ :: more =>
        (codePoint? [d₁, d₂, d₃, d₄, d₅, d₆, d₇, d₈]).bind fun c =>
          prepend c (longText quote .text more)
      | e :: more =>
        match escaped? e with
        | some c => prepend c (longText quote .text more)
        | none => longText quote .beforeBreak (e :: more)
      | [] => none
    else if isPlain c then prepend c (longText quote .text rest)
    else none

/-- A quoted text, given the characters behind its first quote. -/
def quotedText (quote : Char) (cs : List Char) : Option (List Char × List Char) :=
  match cs with
  | a :: b :: rest =>
    if a = quote ∧ b = quote then longText quote .text ((afterBreak? rest).getD rest)
    else if quote = '"' then basicText cs
    else literalText cs
  | _ => if quote = '"' then basicText cs else literalText cs

/-- Characters of a key without quotes. -/
def isBareKey (c : Char) : Bool := c.isAlphanum || c == '_' || c == '-'

/-- One part of a key. -/
def keyPart : Reader String
  | '"' :: rest => (basicText rest).map fun (text, rest) => (String.ofList text, rest)
  | '\'' :: rest => (literalText rest).map fun (text, rest) => (String.ofList text, rest)
  | cs =>
    match cs.takeWhile isBareKey with
    | [] => none
    | part => some (String.ofList part, cs.dropWhile isBareKey)

/-- A key with the blanks around its parts; it has at most `room` parts. -/
def key : Nat → Reader (List String)
  | 0, _ => none
  | room + 1, cs => do
    let (part, cs) ← keyPart (skipBlanks cs)
    match skipBlanks cs with
    | '.' :: cs =>
      let (parts, cs) ← key room cs
      return (part :: parts, cs)
    | cs => return ([part], cs)

/-- A key, an equals sign and an item. -/
def keyedItem (item : Reader Item) : Reader (List String × Item) := fun cs => do
  let (path, cs) ← key (depthLimit - 1) cs
  match cs with
  | '=' :: cs =>
    let (value, cs) ← item (skipBlanks cs)
    return ((path, value), cs)
  | _ => none

/-- The items of an array up to its closing bracket. There are at most `room` of them. -/
def arrayItems (item : Reader Item) : Nat → Reader (List Item)
  | 0, _ => none
  | room + 1, cs => do
    match skipFiller false cs with
    | ']' :: cs => return ([], cs)
    | cs =>
      let (first, cs) ← item cs
      match skipFiller false cs with
      | ']' :: cs => return ([first], cs)
      | ',' :: cs =>
        let (items, cs) ← arrayItems item room cs
        return (first :: items, cs)
      | _ => none

/-- The entries of a table between braces, behind those read already. There are at most `room` of
them. -/
def braceEntries (item : Reader Item) (read : Entries) : Nat → Reader Entries
  | 0, _ => none
  | room + 1, cs => do
    let ((path, value), cs) ← keyedItem item cs
    let entries ← read.insertKey path value .explicit
    match skipBlanks cs with
    | '\x7d' :: cs => return (entries, cs)
    | ',' :: cs => braceEntries item entries room cs
    | _ => none

/-- Characters of a word. -/
def isWordCharacter (c : Char) : Bool :=
  c.isAlphanum || c == '_' || c == '+' || c == '-' || c == '.' || c == ':'

/-- A boolean, a number or a date. Between a date and a time there may be a blank. -/
def word : Reader Item := fun cs =>
  let first := cs.takeWhile isWordCharacter
  match cs.dropWhile isWordCharacter with
  | ' ' :: rest =>
    if isDay first && isTimeOfDate (rest.takeWhile isWordCharacter) then
      some (.date, rest.dropWhile isWordCharacter)
    else (wordItem? first).map fun i => (i, ' ' :: rest)
  | rest => (wordItem? first).map fun i => (i, rest)

/-- An item with containers nested at most `depth` deep. -/
def item (depth : Nat) : Reader Item := fun cs =>
  match cs with
  | '"' :: rest => (quotedText '"' rest).map fun (t, rest) => (.text (String.ofList t), rest)
  | '\'' :: rest => (quotedText '\'' rest).map fun (t, rest) => (.text (String.ofList t), rest)
  | '[' :: rest =>
    match depth with
    | 0 => none
    | depth + 1 =>
      (arrayItems (item depth) (rest.length + 1) rest).map fun (items, rest) =>
        (.array items, rest)
  | '\x7b' :: rest =>
    match depth with
    | 0 => none
    | depth + 1 =>
      match skipBlanks rest with
      | '\x7d' :: rest => some (.inlineTable [], rest)
      | rest =>
        (braceEntries (item depth) [] (rest.length + 1) rest).map fun (entries, rest) =>
          (.inlineTable entries, rest)
  | cs => word cs
termination_by depth

/-- A header behind its opening brackets: the path, and what follows the line. -/
def headerLine (isElement : Bool) : Reader (List String) := fun cs => do
  let (path, cs) ← key (depthLimit - 1) cs
  match isElement, cs with
  | false, ']' :: cs => return (path, ← afterLine? cs)
  | true, ']' :: ']' :: cs => return (path, ← afterLine? cs)
  | _, _ => none

/-- Reads the lines of a document into `root`; `header` is the last header. There are at most `room`
of them. -/
def documentLines : Nat → (root : Entries) → (header : List String) → List Char → Option Entries
  | 0, _, _, _ => none
  | room + 1, root, header, cs =>
    match skipBlanks cs with
    | [] => some root
    | '[' :: '[' :: cs => do
      let (path, cs) ← headerLine true cs
      documentLines room (← root.openHeader true path) path cs
    | '[' :: cs => do
      let (path, cs) ← headerLine false cs
      documentLines room (← root.openHeader false path) path cs
    | cs =>
      match afterLine? cs with
      | some rest => documentLines room root header rest
      | none => do
        let ((path, value), cs) ← keyedItem (item (depthLimit - 1)) cs
        documentLines room (← root.insertUnder header path value) header (← afterLine? cs)

/-- The entries of a document; a mark of the byte order in front does not count. -/
def parse? (text : List Char) : Option Entries :=
  let text :=
    match text with
    | '\ufeff' :: rest => rest
    | text => text
  documentLines (text.length + 1) [] [] text

end AnnotatedGrammar.Toml
