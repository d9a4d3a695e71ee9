import AnnotatedGrammar.Artifact.Definitions
import AnnotatedGrammar.Proofs.Artifact.Lines
import AnnotatedGrammar.Proofs.Artifact.Quoting
import AnnotatedGrammar.Proofs.Artifact.Reading

/-!
# What the source file defines

Constructors, merging and the names of tags are read off the lines of the source file. Each belongs
to a class, and speaks of the fields and the tags of that class.
-/

namespace AnnotatedGrammar

open Layout ArtifactText

/-! ## Reading -/

namespace ArtifactText

/-- The class whose constructor a line defines, and what stands behind the parentheses. -/
def constructor? (line : List Char) : Option (List Char × List Char) :=
  (("::".toList ++ word line ++ "()".toList).isPrefixOf? (line.drop (word line).length)).map
    (word line, ·)

/-- The members that a constructor initializes. -/
def initialized (rest : List Char) : List (List Char) :=
  match " : ".toList.isPrefixOf? rest with
  | some items => (items.splitOn ',').map fun item => word (unindented item)
  | none => []

/-- The tag that a constructor sets. -/
def initialTag? (rest : List Char) : Option (List Char) := wordBehind? " : tag(Tag::" rest

/-- The class whose merging a line begins to define. -/
def mergedClass? (line : List Char) : Option (List Char) :=
  if line.getLast? = some '\x7b' then wordBehind? "void " line else none

/-- The classes for which merging does something, with the lines that say what. -/
def merges (source : List (List Char)) : List (List Char × List (List Char)) :=
  blocks mergedClass? (· == ['\x7d']) source

/-- What a line does about a member where instances are merged. -/
def MergesMember (member line : List Char) : Prop :=
  line = "    detail::append(".toList ++ member ++ ", other.".toList ++ member ++ ");".toList ∨
    line = "    if (other.".toList ++ member ++ ") \x7b".toList ∨
    line = "        ".toList ++ member ++ " = other.".toList ++ member ++ [';']

/-- The class whose tags a line begins to name. -/
def tagNameClass? (line : List Char) : Option (List Char) :=
  ("::tag_name(Tag tag) \x7b".toList.isSuffixOf? line).map fun front => (word front.reverse).reverse

/-- The classes whose tags have names, with the lines that say which. -/
def tagNames (source : List (List Char)) : List (List Char × List (List Char)) :=
  blocks tagNameClass? (· == ['\x7d']) source

/-- The tag that a line names. -/
def caseTag? (line : List Char) : Option (List Char) := wordBehind? "    case Tag::" line

/-! ### Lines that define none of these -/

/-- Behind a name, or where there is none, two colons are missing. -/
theorem constructor?_eq_none {w rest : List Char} {c : Char}
    (hname : w.all Naming.isLetterOrDigit = true) (hc : Naming.isLetterOrDigit c = false)
    (hne : c ≠ ':') : constructor? (w ++ c :: rest) = none := by
  have hword : word (w ++ c :: rest) = w := by
    rw [word, List.takeWhile_append_of_pos (List.all_eq_true.mp hname),
      List.takeWhile_cons_of_neg (by simp [hc]), List.append_nil]
  have hcolon : "::".toList = ':' :: ":".toList := by decide
  rw [constructor?, hword, List.drop_left, hcolon, List.cons_append, List.cons_append,
    List.isPrefixOf?, beq_eq_false_iff_ne.mpr hne.symm]
  rfl

theorem constructor?_cons {c : Char} (hc : Naming.isLetterOrDigit c = false) (hne : c ≠ ':')
    (rest : List Char) : constructor? (c :: rest) = none :=
  constructor?_eq_none (w := []) rfl hc hne

theorem mergedClass?_of_getLast? {line : List Char} (h : line.getLast? ≠ some '\x7b') :
    mergedClass? line = none := if_neg h

theorem mergedClass?_of_head? {line : List Char} (h : line.head? ≠ some 'v') :
    mergedClass? line = none := by
  have hvoid : "void ".toList = 'v' :: "oid ".toList := by decide
  rw [mergedClass?, wordBehind?, hvoid, isPrefixOf?_of_head? h]
  split <;> rfl

theorem tagNameClass?_eq_none {line : List Char}
    (h : ¬"::tag_name(Tag tag) \x7b".toList <:+ line) : tagNameClass? line = none := by
  rw [tagNameClass?, Option.map_eq_none_iff, Option.eq_none_iff_forall_ne_some]
  intro front hfront
  exact h ⟨front, List.isSuffixOf?_eq_some_iff_append_eq.mp hfront⟩

theorem tagNameClass?_of_not_mem {line : List Char} {c : Char}
    (hc : c ∈ "::tag_name(Tag tag) \x7b".toList) (h : c ∉ line) : tagNameClass? line = none :=
  tagNameClass?_eq_none fun hsuffix => h (hsuffix.subset hc)

/-- It is enough that the last four characters differ. -/
theorem tagNameClass?_append {front last : List Char} (hlength : last.length = 4)
    (hne : last ≠ "g) \x7b".toList) : tagNameClass? (front ++ last) = none := by
  have hend : "g) \x7b".toList <:+ "::tag_name(Tag tag) \x7b".toList := by decide
  refine tagNameClass?_eq_none fun hsuffix => hne ?_
  have hlast : last <:+ front ++ last := List.suffix_append _ _
  have hboth := List.suffix_of_suffix_length_le hlast (hend.trans hsuffix) (by rw [hlength]; decide)
  exact hboth.eq_of_length (by rw [hlength]; decide)

theorem tagNameClass?_of_getLast? {line : List Char} (h : line.getLast? ≠ some '\x7b') :
    tagNameClass? line = none := by
  have hlast : "::tag_name(Tag tag) \x7b".toList.getLast? = some '\x7b' := by decide
  refine tagNameClass?_eq_none fun ⟨front, hfront⟩ => h ?_
  rw [← hfront, List.getLast?_append, hlast]
  rfl

end ArtifactText

/-! ## One class -/

namespace ClassDefinition

/-- What stands in the definition of a class can be told apart. -/
structure IsNamed (d : ClassDefinition) : Prop where
  name : IsWord d.name.toList
  tags : ∀ tag ∈ d.tags, IsWord tag.toList
  fields : ∀ f ∈ d.fields, IsWord f.name.toList
  key : ∀ key ∈ d.key, IsType key.1.toList ∧ IsWord key.2.toList

/-- What stands behind the parentheses of the constructor. -/
def constructorRest (d : ClassDefinition) : String :=
  if d.initializers.isEmpty then " = default;"
  else " : " ++ ", ".intercalate d.initializers ++ " \x7b\x7d"

/-- The line that defines the constructor. -/
def constructorLine (d : ClassDefinition) : String :=
  d.name ++ "::" ++ d.name ++ "()" ++ d.constructorRest

variable {d : ClassDefinition}

theorem constructorLayout_eq (d : ClassDefinition) :
    d.constructorLayout = [.line d.constructorLine, .blank] := by
  unfold constructorLayout constructorLine constructorRest
  split <;> simp only [String.append_assoc]

/-- The lines of a function. -/
theorem linesFrom_function {items : List Item} (h : Balanced items) (header : String) :
    Balanced (Item.opening header :: items ++ [Item.closing "", Item.blank]) ∧
      linesFrom 0 (Item.opening header :: items ++ [Item.closing "", Item.blank]) =
        (openingLine header).toList :: (linesFrom 1 items ++ [['\x7d']]) := by
  have hsplit : Item.opening header :: items ++ [Item.closing "", Item.blank] =
      (Item.opening header :: items ++ [Item.closing ""]) ++ [Item.blank] := by simp
  have hblock := Balanced.block (fun _ => h _) header ""
  have hclosing : Page.margin 0 ++ ("\x7d" ++ "").toList = ['\x7d'] := by decide
  have hblank : linesFrom 0 [.blank] = [] := rfl
  rw [hsplit]
  refine ⟨hblock.append (.of_shift (by simp [Item.shift])), ?_⟩
  rw [hblock.linesFrom_append, linesFrom_block (h _), hclosing, hblank, List.append_nil]
  rfl

/-- The lines that merge one field. -/
def mergeLines (f : FieldModel) : List (List Char) :=
  if f.cardinality = .list then
    ["    detail::append(".toList ++ f.name.toList ++ ", other.".toList ++ f.name.toList ++
      ");".toList]
  else
    ["    if (other.".toList ++ f.name.toList ++ ") \x7b".toList,
      "        ".toList ++ f.name.toList ++ " = other.".toList ++ f.name.toList ++ [';'],
      "    \x7d".toList]

theorem balanced_mergeLayout (f : FieldModel) : Balanced (mergeLayout f) := by
  have hline : Balanced [.line (f.name ++ " = other." ++ f.name ++ ";")] :=
    .of_shift (by simp [Item.shift])
  unfold mergeLayout
  split
  · exact .of_shift (by simp [Item.shift])
  · exact .block (fun _ => hline _) _ _

theorem linesFrom_mergeLayout (f : FieldModel) : linesFrom 1 (mergeLayout f) = mergeLines f := by
  have hline : Balanced [.line (f.name ++ " = other." ++ f.name ++ ";")] :=
    .of_shift (by simp [Item.shift])
  have hclosing : Page.margin 1 ++ ("\x7d" ++ "").toList = "    \x7d".toList := by decide
  have hmargins : Page.margin 1 = "    ".toList ∧
      Page.margin (1 + 1) = "        ".toList := by decide
  unfold mergeLayout mergeLines
  split
  · rw [linesFrom_line, hmargins.1]
    simp
  · have hblock := linesFrom_block (hline 2) ("if (other." ++ f.name ++ ")") ""
    rw [List.cons_append, List.singleton_append] at hblock
    rw [hblock, linesFrom_line, hclosing, hmargins.1, hmargins.2, toList_openingLine (by simp)]
    simp

/-- The fields that merging does something about. -/
def mergedFields (d : ClassDefinition) : List FieldModel := d.fields.filter isMerged

/-- What stands between the braces of the function that names the tags. -/
def tagNameItems (d : ClassDefinition) : List Item :=
  Item.line "switch (tag) \x7b" :: (d.tags.flatMap (fun tag =>
    [Item.line ("case Tag::" ++ tag ++ ":"), Item.indent,
      Item.line ("return " ++ cppString tag ++ ";"), Item.dedent]) ++
    [Item.line "\x7d", Item.line "return \"\";"])

/-- The lines between the braces of the function that names the tags. -/
def tagNameLines (d : ClassDefinition) : List (List Char) :=
  "    switch (tag) \x7b".toList :: (d.tags.flatMap (fun tag =>
    ["    case Tag::".toList ++ (tag.toList ++ [':']),
      "        return ".toList ++ (cppString tag).toList ++ [';']]) ++
    ["    \x7d".toList, "    return \"\";".toList])

theorem linesFrom_tagNameItems (d : ClassDefinition) :
    Balanced d.tagNameItems ∧ linesFrom 1 d.tagNameItems = d.tagNameLines := by
  have hmargins : Page.margin 1 = "    ".toList ∧ Page.margin 2 = "        ".toList := by decide
  have hcase (first second : String) :
      Balanced [.line first, .indent, .line second, .dedent] ∧
        linesFrom 1 [.line first, .indent, .line second, .dedent] =
          [Page.margin 1 ++ first.toList, Page.margin 2 ++ second.toList] := by
    refine ⟨fun level => ?_, rfl⟩
    simp [Item.levelAfter, Item.shift]
  have hfirst : Balanced [.line "switch (tag) \x7b"] := .of_shift (by simp [Item.shift])
  have hlast : Balanced [.line "\x7d", .line "return \"\";"] := .of_shift (by simp [Item.shift])
  have hcases := Balanced.flatMap (fun tag => (hcase ("case Tag::" ++ tag ++ ":")
    ("return " ++ cppString tag ++ ";")).1) d.tags
  have hlastLines : linesFrom 1 [.line "\x7d", .line "return \"\";"] =
      ["    \x7d".toList, "    return \"\";".toList] := by
    decide
  refine ⟨hfirst.append (hcases.append hlast), ?_⟩
  rw [tagNameItems, ← List.singleton_append, hfirst.linesFrom_append, hcases.linesFrom_append,
    Balanced.linesFrom_flatMap fun tag => (hcase _ _).1, hlastLines, linesFrom_line]
  simp only [hcase, hmargins, tagNameLines, String.toList_append]
  simp

/-- The lines that define the function for the name of the class. -/
def nameLines (d : ClassDefinition) : List (List Char) :=
  if d.kind = .abstract then []
  else
    ["const ".toList ++ ("char* ".toList ++ d.name.toList ++ "::class_name() con".toList) ++
        "st \x7b".toList,
      "    return ".toList ++ (cppString d.name).toList ++ [';'], ['\x7d']]

/-- The lines that define the function for the key. -/
def keyLines (d : ClassDefinition) : List (List Char) :=
  match d.key with
  | none => []
  | some (type, field) =>
    ["const ".toList ++ (type.toList ++ "& ".toList ++ d.name.toList ++ "::key() con".toList) ++
        "st \x7b".toList,
      "    return ".toList ++ field.toList ++ [';'], ['\x7d']]

/-- The lines that define the function for the names of the tags. -/
def tagNameFunction (d : ClassDefinition) : List (List Char) :=
  if d.kind = .tagged then
    ("const char* ".toList ++ (d.name.toList ++ "::tag_name(Tag tag) \x7b".toList)) ::
      (d.tagNameLines ++ [['\x7d']])
  else []

/-- The lines that define the function for merging. -/
def mergeFunction (d : ClassDefinition) : List (List Char) :=
  if d.mergedFields = [] then
    ["void ".toList ++ (d.name.toList ++ "::merge_from(const ".toList ++ d.name.toList ++
      "&) \x7b\x7d".toList)]
  else
    ("void ".toList ++ (d.name.toList ++ ':' :: (":merge_from(const ".toList ++ d.name.toList ++
        "& othe".toList) ++ "r) \x7b".toList)) ::
      (d.mergedFields.flatMap mergeLines ++ [['\x7d']])

theorem linesFrom_nameLayout (d : ClassDefinition) :
    Balanced d.nameLayout ∧ linesFrom 0 d.nameLayout = d.nameLines := by
  have hreturn : Balanced [.line ("return " ++ cppString d.name ++ ";")] :=
    .of_shift (by simp [Item.shift])
  have hmargin : Page.margin 1 = "    ".toList := by decide
  unfold nameLayout nameLines
  split
  · exact ⟨fun _ => rfl, rfl⟩
  · obtain ⟨hbalanced, hlines⟩ :=
      linesFrom_function hreturn ("const char* " ++ d.name ++ "::class_name() const")
    refine ⟨hbalanced, hlines.trans ?_⟩
    rw [linesFrom_line, toList_openingLine (by simp), hmargin]
    simp

theorem linesFrom_keyLayout (d : ClassDefinition) :
    Balanced d.keyLayout ∧ linesFrom 0 d.keyLayout = d.keyLines := by
  have hmargin : Page.margin 1 = "    ".toList := by decide
  unfold keyLayout keyLines
  cases d.key with
  | none => exact ⟨fun _ => rfl, rfl⟩
  | some key =>
    obtain ⟨type, field⟩ := key
    have hreturn : Balanced [.line ("return " ++ field ++ ";")] := .of_shift (by simp [Item.shift])
    obtain ⟨hbalanced, hlines⟩ :=
      linesFrom_function hreturn ("const " ++ type ++ "& " ++ d.name ++ "::key() const")
    refine ⟨hbalanced, hlines.trans ?_⟩
    rw [linesFrom_line, toList_openingLine (by simp), hmargin]
    simp

theorem linesFrom_tagNameLayout (d : ClassDefinition) :
    Balanced d.tagNameLayout ∧ linesFrom 0 d.tagNameLayout = d.tagNameFunction := by
  unfold tagNameFunction
  split
  · next hkind =>
    have hlayout : d.tagNameLayout =
        Item.opening ("const char* " ++ d.name ++ "::tag_name(Tag tag)") :: d.tagNameItems ++
          [Item.closing "", Item.blank] := by
      simp [tagNameLayout, hkind, tagNameItems]
    obtain ⟨hbalanced, hlines⟩ := linesFrom_function d.linesFrom_tagNameItems.1
      ("const char* " ++ d.name ++ "::tag_name(Tag tag)")
    rw [hlayout]
    refine ⟨hbalanced, hlines.trans ?_⟩
    rw [d.linesFrom_tagNameItems.2, toList_openingLine (by simp)]
    simp
  · next hkind => exact ⟨by rw [tagNameLayout, if_neg hkind]; exact fun _ => rfl, by
      rw [tagNameLayout, if_neg hkind]; rfl⟩

theorem linesFrom_mergeFromLayout (d : ClassDefinition) :
    Balanced d.mergeFromLayout ∧ linesFrom 0 d.mergeFromLayout = d.mergeFunction := by
  unfold mergeFromLayout mergeFunction mergedFields
  cases d.fields.filter isMerged with
  | nil =>
    have hsplit (text : String) : linesFrom 0 [.line text, .blank] = [text.toList] := rfl
    refine ⟨.of_shift (by simp [Item.shift]), ?_⟩
    rw [if_pos rfl, hsplit]
    simp
  | cons first more =>
    have hmerged := Balanced.flatMap balanced_mergeLayout (first :: more)
    obtain ⟨hbalanced, hlines⟩ := linesFrom_function hmerged
      ("void " ++ d.name ++ "::merge_from(const " ++ d.name ++ "&" ++ " other)")
    refine ⟨hbalanced, hlines.trans ?_⟩
    rw [if_neg (List.cons_ne_nil _ _), Balanced.linesFrom_flatMap balanced_mergeLayout,
      toList_openingLine (by simp)]
    simp only [linesFrom_mergeLayout]
    simp

/-- The lines of a class, behind the one that defines its constructor. -/
def furtherLines (d : ClassDefinition) : List (List Char) :=
  d.nameLines ++ (d.tagNameFunction ++ (d.mergeFunction ++ d.keyLines))

theorem linesFrom_layout (d : ClassDefinition) : Balanced d.layout ∧
    linesFrom 0 d.layout = d.constructorLine.toList :: d.furtherLines := by
  have hconstructor : Balanced d.constructorLayout :=
    d.constructorLayout_eq ▸ .of_shift (by simp [Item.shift])
  have hline (text : String) : linesFrom 0 [.line text, .blank] = [text.toList] := rfl
  obtain ⟨hname, hnameLines⟩ := d.linesFrom_nameLayout
  obtain ⟨htag, htagLines⟩ := d.linesFrom_tagNameLayout
  obtain ⟨hmerge, hmergeLines⟩ := d.linesFrom_mergeFromLayout
  obtain ⟨hkey, hkeyLines⟩ := d.linesFrom_keyLayout
  refine ⟨(((hconstructor.append hname).append htag).append hmerge).append hkey, ?_⟩
  rw [layout, List.append_assoc, List.append_assoc, List.append_assoc,
    hconstructor.linesFrom_append, hname.linesFrom_append, htag.linesFrom_append,
    hmerge.linesFrom_append, hnameLines, htagLines, hmergeLines, hkeyLines,
    constructorLayout_eq, hline]
  rfl

/-! ### What lines begin with -/

theorem head?_mergeLines {f : FieldModel} {line : List Char} (h : line ∈ mergeLines f) :
    line.head? = some ' ' := by
  unfold mergeLines at h
  split at h
  · obtain rfl := List.mem_singleton.mp h
    simp
  · simp only [List.mem_cons, List.not_mem_nil, or_false] at h
    rcases h with rfl | rfl | rfl <;> simp

theorem head?_tagNameLines {line : List Char} (h : line ∈ d.tagNameLines) :
    line.head? = some ' ' := by
  rcases List.mem_cons.mp h with rfl | h
  · simp
  rcases List.mem_append.mp h with hcase | hlast
  · obtain ⟨tag, -, htag⟩ := List.mem_flatMap.mp hcase
    simp only [List.mem_cons, List.not_mem_nil, or_false] at htag
    rcases htag with rfl | rfl <;> simp
  · simp only [List.mem_cons, List.not_mem_nil, or_false] at hlast
    rcases hlast with rfl | rfl <;> simp

/-- A line that is indented, or a brace, or begins with a certain word. -/
def StartsWith (start : String) (line : List Char) : Prop :=
  line.head? = some ' ' ∨ line = ['\x7d'] ∨ ∃ rest, line = start.toList ++ rest

/-- The lines of a function that only returns a value. -/
def returningLines (signature value : List Char) : List (List Char) :=
  ["const ".toList ++ signature ++ "st \x7b".toList, "    return ".toList ++ value ++ [';'],
    ['\x7d']]

theorem startsWith_returningLines {signature value line : List Char}
    (h : line ∈ returningLines signature value) : StartsWith "const " line := by
  simp only [returningLines, List.mem_cons, List.not_mem_nil, or_false] at h
  rcases h with rfl | rfl | rfl
  · exact .inr (.inr ⟨_, List.append_assoc _ _ _⟩)
  · exact .inl (by simp)
  · exact .inr (.inl rfl)

theorem startsWith_nameLines {line : List Char} (h : line ∈ d.nameLines) :
    StartsWith "const " line := by
  unfold nameLines at h
  split at h
  · cases h
  · exact startsWith_returningLines h

theorem startsWith_keyLines {line : List Char} (h : line ∈ d.keyLines) :
    StartsWith "const " line := by
  unfold keyLines at h
  split at h
  · cases h
  · exact startsWith_returningLines h

theorem startsWith_tagNameFunction {line : List Char} (h : line ∈ d.tagNameFunction) :
    StartsWith "const " line := by
  have hconst : "const char* ".toList = "const ".toList ++ "char* ".toList := by decide
  unfold tagNameFunction at h
  split at h
  · rcases List.mem_cons.mp h with rfl | h
    · rw [hconst, List.append_assoc]
      exact .inr (.inr ⟨_, rfl⟩)
    rcases List.mem_append.mp h with htag | hlast
    · exact .inl (head?_tagNameLines htag)
    · exact .inr (.inl (List.mem_singleton.mp hlast))
  · cases h

theorem startsWith_mergeFunction {line : List Char} (h : line ∈ d.mergeFunction) :
    StartsWith "void " line := by
  unfold mergeFunction at h
  split at h
  · exact .inr (.inr ⟨_, List.mem_singleton.mp h⟩)
  · rcases List.mem_cons.mp h with rfl | h
    · exact .inr (.inr ⟨_, rfl⟩)
    rcases List.mem_append.mp h with hmerged | hlast
    · obtain ⟨f, -, hline⟩ := List.mem_flatMap.mp hmerged
      exact .inl (head?_mergeLines hline)
    · exact .inr (.inl (List.mem_singleton.mp hlast))

theorem StartsWith.constructor? {start : String} {name line : List Char}
    (h : StartsWith start line) (hstart : start.toList = name ++ [' '])
    (hname : name.all Naming.isLetterOrDigit = true) : constructor? line = none := by
  have hbrace : ArtifactText.constructor? ['\x7d'] = none := by decide
  rcases h with hindented | rfl | ⟨rest, rfl⟩
  · obtain ⟨rest, rfl⟩ := List.head?_eq_some_iff.mp hindented
    exact constructor?_cons (by decide) (by decide) rest
  · exact hbrace
  · rw [hstart, List.append_assoc]
    exact constructor?_eq_none hname (by decide) (by decide)

/-- Only the constructor is read as one. -/
theorem constructor?_furtherLines {line : List Char} (h : line ∈ d.furtherLines) :
    constructor? line = none := by
  have hconst {line : List Char} (hline : StartsWith "const " line) : constructor? line = none :=
    hline.constructor? (by decide) (by decide : "const".toList.all Naming.isLetterOrDigit = true)
  have hvoid {line : List Char} (hline : StartsWith "void " line) : constructor? line = none :=
    hline.constructor? (by decide) (by decide : "void".toList.all Naming.isLetterOrDigit = true)
  rcases List.mem_append.mp h with hname | h
  · exact hconst (startsWith_nameLines hname)
  rcases List.mem_append.mp h with htag | h
  · exact hconst (startsWith_tagNameFunction htag)
  rcases List.mem_append.mp h with hmerge | hkey
  · exact hvoid (startsWith_mergeFunction hmerge)
  · exact hconst (startsWith_keyLines hkey)

theorem constructor?_constructorLine (h : d.IsNamed) :
    constructor? d.constructorLine.toList = some (d.name.toList, d.constructorRest.toList) := by
  have hline : d.constructorLine.toList = d.name.toList ++
      ("::".toList ++ d.name.toList ++ "()".toList ++ d.constructorRest.toList) := by
    simp [constructorLine]
  have hcolons : "::".toList = ':' :: ":".toList := by decide
  have hword : word d.constructorLine.toList = d.name.toList := by
    rw [hline, hcolons]
    exact h.name.word_append (by decide) _
  rw [constructor?, hword, hline, List.drop_left,
    List.isPrefixOf?_eq_some_iff_append_eq.mpr rfl, Option.map_some]

/-- The constructor is read off the definition of a class. -/
theorem filterMap_constructor?_layout (h : d.IsNamed) :
    (linesFrom 0 d.layout).filterMap constructor? =
      [(d.name.toList, d.constructorRest.toList)] := by
  have hfurther : d.furtherLines.filterMap constructor? = [] :=
    List.filterMap_eq_nil_iff.mpr fun _ => constructor?_furtherLines
  rw [d.linesFrom_layout.2, List.filterMap_cons_some (constructor?_constructorLine h), hfurther]

theorem getLast?_constructorLine (d : ClassDefinition) :
    d.constructorLine.toList.getLast? ≠ some '\x7b' := by
  rw [constructorLine, String.toList_append, constructorRest]
  split <;> simp [List.getLast?_cons]

theorem StartsWith.mergedClass? {line : List Char} (h : StartsWith "const " line) :
    mergedClass? line = none := by
  apply mergedClass?_of_head?
  rcases h with hindented | rfl | ⟨rest, rfl⟩
  · rw [hindented]
    decide
  · decide
  · simp

theorem mergedClass?_mergeLine (h : d.IsNamed) : mergedClass? ("void ".toList ++
    (d.name.toList ++ ':' :: (":merge_from(const ".toList ++ d.name.toList ++ "& othe".toList) ++
      "r) \x7b".toList)) = some d.name.toList := by
  rw [mergedClass?, if_pos (by simp [List.getLast?_cons]), wordBehind?_append, List.append_assoc,
    List.cons_append, h.name.word_append (by decide)]

/-- An indented line begins no function and ends none. -/
theorem mergedClass?_of_indented {line : List Char} (h : line.head? = some ' ') :
    mergedClass? line = none ∧ (line == ['\x7d']) = false := by
  refine ⟨mergedClass?_of_head? (by rw [h]; decide), beq_eq_false_iff_ne.mpr ?_⟩
  rintro rfl
  cases h

/-- What is merged is read off the definition of a class. -/
theorem merges_layout (h : d.IsNamed) (rest : List (List Char)) :
    merges (linesFrom 0 d.layout ++ rest) =
      (if d.mergedFields = [] then [] else [(d.name.toList, d.mergedFields.flatMap mergeLines)]) ++
        merges rest := by
  have hconstructor : ∀ line ∈ [d.constructorLine.toList], mergedClass? line = none :=
    List.forall_mem_singleton.mpr (mergedClass?_of_getLast? d.getLast?_constructorLine)
  have hname : ∀ line ∈ d.nameLines, mergedClass? line = none :=
    fun _ hline => (startsWith_nameLines hline).mergedClass?
  have htag : ∀ line ∈ d.tagNameFunction, mergedClass? line = none :=
    fun _ hline => (startsWith_tagNameFunction hline).mergedClass?
  have hkey : ∀ line ∈ d.keyLines, mergedClass? line = none :=
    fun _ hline => (startsWith_keyLines hline).mergedClass?
  have hbrace : mergedClass? ['\x7d'] = none ∧ (['\x7d'] == ['\x7d']) = true := by decide
  have hbody : ∀ line ∈ d.mergedFields.flatMap mergeLines,
      mergedClass? line = none ∧ (line == ['\x7d']) = false := by
    intro line hline
    obtain ⟨f, -, hline⟩ := List.mem_flatMap.mp hline
    exact mergedClass?_of_indented (head?_mergeLines hline)
  have hmerge : merges (d.mergeFunction ++ (d.keyLines ++ rest)) =
      (if d.mergedFields = [] then [] else [(d.name.toList, d.mergedFields.flatMap mergeLines)]) ++
        merges rest := by
    unfold mergeFunction
    split
    · have hnone : ∀ line ∈ ["void ".toList ++ (d.name.toList ++ "::merge_from(const ".toList ++
          d.name.toList ++ "&) \x7b\x7d".toList)], mergedClass? line = none :=
        List.forall_mem_singleton.mpr (mergedClass?_of_getLast? (by simp [List.getLast?_cons]))
      rw [merges, blocks_append hnone, blocks_append hkey]
      rfl
    · rw [merges, blocks_block (mergedClass?_mergeLine h) hbody hbrace, blocks_append hkey]
      rfl
  rw [d.linesFrom_layout.2, furtherLines, ← List.singleton_append, List.append_assoc,
    List.append_assoc, List.append_assoc, List.append_assoc, ← hmerge, merges, merges,
    blocks_append hconstructor, blocks_append hname, blocks_append htag]

theorem tagNameClass?_returningLines {signature value line : List Char}
    (h : line ∈ returningLines signature value) : tagNameClass? line = none := by
  simp only [returningLines, List.mem_cons, List.not_mem_nil, or_false] at h
  rcases h with rfl | rfl | rfl
  · exact tagNameClass?_append (by decide) (by decide)
  · exact tagNameClass?_of_getLast? (by simp [List.getLast?_cons])
  · decide

theorem tagNameClass?_nameLines {line : List Char} (h : line ∈ d.nameLines) :
    tagNameClass? line = none := by
  unfold nameLines at h
  split at h
  · cases h
  · exact tagNameClass?_returningLines h

theorem tagNameClass?_keyLines {line : List Char} (h : line ∈ d.keyLines) :
    tagNameClass? line = none := by
  unfold keyLines at h
  split at h
  · cases h
  · exact tagNameClass?_returningLines h

theorem tagNameClass?_mergeFunction (h : d.IsNamed) {line : List Char}
    (hline : line ∈ d.mergeFunction) : tagNameClass? line = none := by
  have hbrace : tagNameClass? "    \x7d".toList = none ∧ tagNameClass? ['\x7d'] = none := by decide
  unfold mergeFunction at hline
  split at hline
  · rw [List.mem_singleton.mp hline]
    exact tagNameClass?_of_getLast? (by simp [List.getLast?_cons])
  rcases List.mem_cons.mp hline with rfl | hline
  · rw [← List.append_assoc]
    exact tagNameClass?_append (by decide) (by decide)
  rcases List.mem_append.mp hline with hmerged | hlast
  · obtain ⟨f, hf, hline⟩ := List.mem_flatMap.mp hmerged
    have hcolon : ':' ∉ f.name.toList :=
      (h.fields f (List.mem_filter.mp hf).1).not_mem (by decide)
    unfold mergeLines at hline
    split at hline
    · rw [List.mem_singleton.mp hline]
      exact tagNameClass?_of_getLast? (by simp [List.getLast?_cons])
    · simp only [List.mem_cons, List.not_mem_nil, or_false] at hline
      rcases hline with rfl | rfl | rfl
      · exact tagNameClass?_of_not_mem (c := ':') (by decide) (by simp [hcolon])
      · exact tagNameClass?_of_getLast? (by simp [List.getLast?_cons])
      · exact hbrace.1
  · rw [List.mem_singleton.mp hlast]
    exact hbrace.2

theorem tagNameClass?_tagNameLines {line : List Char} (h : line ∈ d.tagNameLines) :
    tagNameClass? line = none := by
  have hfirst : tagNameClass? "    switch (tag) \x7b".toList = none := by decide
  rcases List.mem_cons.mp h with rfl | h
  · exact hfirst
  apply tagNameClass?_of_getLast?
  rcases List.mem_append.mp h with hcase | hlast
  · obtain ⟨tag, -, htag⟩ := List.mem_flatMap.mp hcase
    simp only [List.mem_cons, List.not_mem_nil, or_false] at htag
    rcases htag with rfl | rfl <;> simp [List.getLast?_cons]
  · simp only [List.mem_cons, List.not_mem_nil, or_false] at hlast
    rcases hlast with rfl | rfl <;> simp

theorem tagNameClass?_nameLine (h : d.IsNamed) : tagNameClass? ("const char* ".toList ++
    (d.name.toList ++ "::tag_name(Tag tag) \x7b".toList)) = some d.name.toList := by
  have hblank : "const char* ".toList.reverse = ' ' :: "const char*".toList.reverse := by decide
  rw [tagNameClass?, ← List.append_assoc, List.isSuffixOf?_eq_some_iff_append_eq.mpr rfl,
    Option.map_some, List.reverse_append, hblank, h.name.reverse.word_append (by decide),
    List.reverse_reverse]

/-- The names of tags are read off the definition of a class. -/
theorem tagNames_layout (h : d.IsNamed) (rest : List (List Char)) :
    tagNames (linesFrom 0 d.layout ++ rest) =
      (if d.kind = .tagged then [(d.name.toList, d.tagNameLines)] else []) ++ tagNames rest := by
  have hconstructor : ∀ line ∈ [d.constructorLine.toList], tagNameClass? line = none :=
    List.forall_mem_singleton.mpr (tagNameClass?_of_getLast? d.getLast?_constructorLine)
  have hname : ∀ line ∈ d.nameLines, tagNameClass? line = none :=
    fun _ => tagNameClass?_nameLines
  have hbrace : tagNameClass? ['\x7d'] = none ∧ (['\x7d'] == ['\x7d']) = true := by decide
  have hbody : ∀ line ∈ d.tagNameLines,
      tagNameClass? line = none ∧ (line == ['\x7d']) = false := by
    intro line hline
    refine ⟨tagNameClass?_tagNameLines hline, beq_eq_false_iff_ne.mpr ?_⟩
    rintro rfl
    cases head?_tagNameLines hline
  have hafter : ∀ line ∈ d.mergeFunction ++ d.keyLines, tagNameClass? line = none :=
    List.forall_mem_append.mpr
      ⟨fun _ => tagNameClass?_mergeFunction h, fun _ => tagNameClass?_keyLines⟩
  rw [d.linesFrom_layout.2, furtherLines, ← List.singleton_append, List.append_assoc,
    List.append_assoc, List.append_assoc, tagNames, tagNames, blocks_append hconstructor,
    blocks_append hname]
  unfold tagNameFunction
  split
  · rw [blocks_block (tagNameClass?_nameLine h) hbody hbrace, blocks_append hafter]
    rfl
  · rw [List.nil_append, blocks_append hafter]
    rfl

/-! ### What the lines speak of -/

/-- Every line but the closing brace merges the field. -/
theorem mergesMember_of_mem_mergeLines {f : FieldModel} {line : List Char}
    (h : line ∈ mergeLines f) : line = "    \x7d".toList ∨ MergesMember f.name.toList line := by
  unfold mergeLines at h
  split at h
  · exact .inr (.inl (List.mem_singleton.mp h))
  · simp only [List.mem_cons, List.not_mem_nil, or_false] at h
    rcases h with hcondition | hassignment | hbrace
    · exact .inr (.inr (.inl hcondition))
    · exact .inr (.inr (.inr hassignment))
    · exact .inl hbrace

/-- The tags that have names are those of the class. -/
theorem caseTags_tagNameLines (h : d.IsNamed) :
    d.tagNameLines.filterMap caseTag? = d.tags.map String.toList := by
  have hswitch : caseTag? "    switch (tag) \x7b".toList = none := by decide
  have hlast : ["    \x7d".toList, "    return \"\";".toList].filterMap caseTag? = [] := by decide
  have hcase (tag : String) (htag : tag ∈ d.tags) :
      ["    case Tag::".toList ++ (tag.toList ++ [':']),
        "        return ".toList ++ (cppString tag).toList ++ [';']].filterMap caseTag? =
          [tag.toList] := by
    have hnamed : caseTag? ("    case Tag::".toList ++ (tag.toList ++ [':'])) =
        some tag.toList := by
      rw [caseTag?, wordBehind?_append, (h.tags tag htag).word_append (by decide)]
    have hreturn : caseTag?
        ("        return ".toList ++ (cppString tag).toList ++ [';']) = none := by
      simp [caseTag?, wordBehind?, List.isPrefixOf?]
    rw [List.filterMap_cons_some hnamed, List.filterMap_cons_none hreturn, List.filterMap_nil]
  rw [tagNameLines, List.filterMap_cons_none hswitch, List.filterMap_append, hlast,
    List.append_nil, List.filterMap_flatMap, List.flatMap_congr hcase, List.map_eq_flatMap]

/-- A member that is initialized, with what stands behind the opening parenthesis. -/
def initializerText (item : List Char × List Char) : List Char := item.1 ++ '(' :: item.2

/-- Initializers in a row are told apart by the commas between them. -/
theorem map_splitOn_initializers {items : List (List Char × List Char)} {rest : List Char}
    (hne : items ≠ []) (hname : ∀ item ∈ items, IsWord item.1 ∧ ',' ∉ item.2) (hrest : ',' ∉ rest)
    (n : Nat) :
    ((List.replicate n ' ' ++ ([',', ' '].intercalate (items.map initializerText) ++ rest)).splitOn
      ',').map (fun item => word (unindented item)) = items.map (·.1) := by
  induction items generalizing n with
  | nil => exact absurd rfl hne
  | cons item more ih =>
    obtain ⟨⟨hword, hcomma⟩, hmore⟩ := List.forall_mem_cons.mp hname
    have hread (tail : List Char) :
        word (unindented (List.replicate n ' ' ++ (initializerText item ++ tail))) = item.1 := by
      rw [unindented_replicate, initializerText, List.append_assoc, hword.unindented_append,
        List.cons_append, hword.word_append (by decide)]
    have hclear : ',' ∉ List.replicate n ' ' ++ initializerText item := by
      have hblanks : ',' ∉ List.replicate n ' ' := fun hmem =>
        absurd (List.eq_of_mem_replicate hmem) (by decide)
      have hitem : ',' ∉ item.1 := hword.not_mem (by decide)
      simp [initializerText, hitem, hcomma]
    cases more with
    | nil =>
      have hall : ∀ c ∈ List.replicate n ' ' ++ (initializerText item ++ rest),
          (c == ',') = false :=
        fun c hc => beq_eq_false_iff_ne.mpr fun heq => by
          rw [heq, ← List.append_assoc, List.mem_append] at hc
          exact hc.elim hclear hrest
      rw [List.map_singleton, List.intercalate_singleton, List.splitOn,
        List.splitOnP_eq_singleton hall, List.map_singleton, hread, List.map_singleton]
    | cons next others =>
      have hsplit : List.replicate n ' ' ++
          ([',', ' '].intercalate ((item :: next :: others).map initializerText) ++ rest) =
            (List.replicate n ' ' ++ initializerText item) ++ ',' :: (List.replicate 1 ' ' ++
              ([',', ' '].intercalate ((next :: others).map initializerText) ++ rest)) := by
        rw [List.map_cons, List.map_cons, List.intercalate_cons_cons]
        simp only [List.append_assoc, List.cons_append, List.nil_append, List.replicate_one]
      have hfirst := hread []
      rw [List.append_nil] at hfirst
      rw [hsplit, List.splitOn_append_cons_self_of_not_mem hclear, List.map_cons, hfirst,
        ih (List.cons_ne_nil _ _) hmore]
      rfl

/-- The members that a constructor initializes, with what stands behind the opening parenthesis. -/
def initializerItems (d : ClassDefinition) : List (List Char × List Char) :=
  (d.tags.head?.map fun tag => ("tag".toList, "Tag::".toList ++ tag.toList ++ [')'])).toList ++
    d.fields.map fun f => (f.name.toList, [')'])

theorem map_initializers (d : ClassDefinition) :
    d.initializers.map String.toList = d.initializerItems.map initializerText := by
  rw [initializers, initializerItems]
  cases d.tags.head? <;> simp [initializerText, Function.comp_def]

theorem isWord_initializerItems (h : d.IsNamed) :
    ∀ item ∈ d.initializerItems, IsWord item.1 ∧ ',' ∉ item.2 := by
  have htag : IsWord "tag".toList := ⟨by decide, by decide⟩
  have hparenthesis : ',' ∉ [')'] := by decide
  refine List.forall_mem_append.mpr ⟨fun item hitem => ?_, List.forall_mem_map.mpr fun f hf => ?_⟩
  · obtain ⟨tag, hmem, rfl⟩ := Option.map_eq_some_iff.mp (Option.mem_toList.mp hitem)
    have hcomma : ',' ∉ tag.toList := (h.tags tag (List.mem_of_head? hmem)).not_mem (by decide)
    exact ⟨htag, by simp [hcomma]⟩
  · exact ⟨h.fields f hf, hparenthesis⟩

/-- A constructor that initializes something. -/
theorem constructorRest_eq (hne : d.initializerItems ≠ []) : d.constructorRest.toList =
    " : ".toList ++ ([',', ' '].intercalate (d.initializerItems.map initializerText) ++
      " \x7b\x7d".toList) := by
  have hinitializers : ¬d.initializers.isEmpty = true := by
    rw [List.isEmpty_iff]
    rintro hnil
    have hmap := d.map_initializers
    rw [hnil, List.map_nil, eq_comm, List.map_eq_nil_iff] at hmap
    exact hne hmap
  have hcomma : ", ".toList = [',', ' '] := by decide
  rw [constructorRest, if_neg hinitializers, String.toList_append, String.toList_append,
    String.toList_intercalate, hcomma, map_initializers, List.append_assoc]

theorem constructorRest_of_nil (hnil : d.initializerItems = []) :
    d.constructorRest = " = default;" := by
  have hmap := d.map_initializers
  rw [hnil, List.map_nil, List.map_eq_nil_iff] at hmap
  rw [constructorRest, if_pos (List.isEmpty_iff.mpr hmap)]

/-- The constructor initializes all fields of the class, and the tag in front of them. -/
theorem initialized_constructorRest (h : d.IsNamed) :
    initialized d.constructorRest.toList =
      (if d.tags = [] then [] else ["tag".toList]) ++ d.fields.map (·.name.toList) := by
  have hitems : d.initializerItems.map (·.1) =
      (if d.tags = [] then [] else ["tag".toList]) ++ d.fields.map (·.name.toList) := by
    rw [initializerItems]
    cases d.tags <;> simp [Function.comp_def]
  rw [← hitems]
  by_cases hnil : d.initializerItems = []
  · have hdefault : initialized " = default;".toList = [] := by decide
    rw [constructorRest_of_nil hnil, hdefault, hnil, List.map_nil]
  · have hcomma : ',' ∉ " \x7b\x7d".toList := by decide
    have hread := map_splitOn_initializers hnil (isWord_initializerItems h) hcomma 0
    rw [List.replicate_zero, List.nil_append] at hread
    rw [constructorRest_eq hnil, initialized, List.isPrefixOf?_eq_some_iff_append_eq.mpr rfl]
    exact hread

/-- A member whose initializer is empty is not taken for a tag. -/
theorem wordBehind?_tag_eq_none {name rest : List Char} (h : IsWord name) :
    wordBehind? " : tag(Tag::" (" : ".toList ++ (name ++ '(' :: ')' :: rest)) = none := by
  have hstart : " : tag(Tag::".toList = " : ".toList ++
      ("tag".toList ++ '(' :: "Tag::".toList) := by
    decide
  have htag : IsWord "tag".toList := ⟨by decide, by decide⟩
  rw [wordBehind?, Option.map_eq_none_iff, Option.eq_none_iff_forall_ne_some]
  intro tail htail
  have heq := List.isPrefixOf?_eq_some_iff_append_eq.mp htail
  rw [hstart, List.append_assoc, List.append_cancel_left_eq, List.append_assoc,
    List.cons_append] at heq
  have hname := congrArg word heq
  rw [htag.word_append (by decide), h.word_append (by decide)] at hname
  rw [hname, List.append_cancel_left_eq, List.cons.injEq] at heq
  exact absurd (congrArg List.head? heq.2) (by simp)

theorem exists_intercalate_cons (separator first : List Char) (more : List (List Char)) :
    ∃ rest, separator.intercalate (first :: more) = first ++ rest := by
  cases more with
  | nil => exact ⟨[], by rw [List.intercalate_singleton, List.append_nil]⟩
  | cons next others =>
    exact ⟨_, by rw [List.intercalate_cons_cons, List.append_assoc]⟩

/-- The constructor sets the first tag. -/
theorem initialTag?_constructorRest (h : d.IsNamed) :
    initialTag? d.constructorRest.toList = d.tags.head?.map String.toList := by
  by_cases hnil : d.initializerItems = []
  · have hdefault : initialTag? " = default;".toList = none := by decide
    have hnone : d.tags.head? = none := by
      have hmap := (List.append_eq_nil_iff.mp hnil).1
      rwa [Option.toList_eq_nil_iff, Option.map_eq_none_iff] at hmap
    rw [constructorRest_of_nil hnil, hdefault, hnone, Option.map_none]
  · rw [constructorRest_eq hnil, initialTag?]
    cases htags : d.tags with
    | nil =>
      cases hfields : d.fields with
      | nil => exact absurd (by rw [initializerItems, htags, hfields]; rfl) hnil
      | cons f more =>
        have hitems : d.initializerItems =
            (f.name.toList, [')']) :: more.map fun f => (f.name.toList, [')']) := by
          rw [initializerItems, htags, hfields]
          rfl
        obtain ⟨rest, hrest⟩ := exists_intercalate_cons [',', ' ']
          (initializerText (f.name.toList, [')']))
          ((more.map fun f => (f.name.toList, [')'])).map initializerText)
        have hword := h.fields f (hfields ▸ List.mem_cons_self)
        rw [hitems, List.map_cons, hrest, initializerText, List.append_assoc, List.append_assoc]
        exact wordBehind?_tag_eq_none hword
    | cons tag more =>
      have hitems : d.initializerItems = ("tag".toList, "Tag::".toList ++ tag.toList ++ [')']) ::
          d.fields.map fun f => (f.name.toList, [')']) := by
        rw [initializerItems, htags]
        rfl
      obtain ⟨rest, hrest⟩ := exists_intercalate_cons [',', ' ']
        (initializerText ("tag".toList, "Tag::".toList ++ tag.toList ++ [')']))
        ((d.fields.map fun f => (f.name.toList, [')'])).map initializerText)
      have hstart : " : tag(Tag::".toList =
          " : ".toList ++ ("tag".toList ++ '(' :: "Tag::".toList) := by
        decide
      have hword := h.tags tag (htags ▸ List.mem_cons_self)
      have hsplit (tail : List Char) : " : ".toList ++
          (initializerText ("tag".toList, "Tag::".toList ++ tag.toList ++ [')']) ++ tail) =
            " : tag(Tag::".toList ++ (tag.toList ++ ')' :: tail) := by
        rw [hstart, initializerText]
        simp only [List.append_assoc, List.cons_append, List.nil_append]
      rw [hitems, List.map_cons, hrest, List.append_assoc, hsplit, wordBehind?_append,
        hword.word_append (by decide)]
      rfl

/-! ### What is written on one line -/

theorem isPlain_mergeLayout {f : FieldModel} (h : IsWord f.name.toList) :
    ∀ item ∈ mergeLayout f, item.IsPlain := by
  unfold mergeLayout
  split <;> simp [Item.IsPlain, h.unbroken]

theorem isPlain_tagNameItems (h : d.IsNamed) : ∀ item ∈ d.tagNameItems, item.IsPlain := by
  have hcase (tag : String) (htag : tag ∈ d.tags) :
      ∀ item ∈ [Item.line ("case Tag::" ++ tag ++ ":"),
      .indent, .line ("return " ++ cppString tag ++ ";"), .dedent], item.IsPlain := by
    simp [Item.IsPlain, (h.tags tag htag).unbroken, unbroken_cppString]
  rw [tagNameItems, List.forall_mem_cons, List.forall_mem_append, List.forall_mem_flatMap]
  exact ⟨by simp [Item.IsPlain], hcase, by simp [Item.IsPlain]⟩

theorem unbroken_initializers (h : d.IsNamed) :
    ∀ part ∈ d.initializers.map String.toList, '\n' ∉ part := by
  refine List.forall_mem_map.mpr (List.forall_mem_append.mpr ⟨fun text htext => ?_, ?_⟩)
  · obtain ⟨tag, htag, rfl⟩ := Option.map_eq_some_iff.mp (Option.mem_toList.mp htext)
    simp [(h.tags tag (List.mem_of_head? htag)).unbroken]
  · refine List.forall_mem_map.mpr fun f hf => ?_
    simp [(h.fields f hf).unbroken]

theorem isPlain_constructorLayout (h : d.IsNamed) : ∀ item ∈ d.constructorLayout, item.IsPlain := by
  have hcomma : '\n' ∉ [',', ' '] := by decide
  have hlist := not_mem_intercalate hcomma (unbroken_initializers h)
  have hrest : '\n' ∉ d.constructorRest.toList := by
    unfold constructorRest
    split
    · decide
    · simp [hlist]
  rw [constructorLayout_eq]
  simp [Item.IsPlain, constructorLine, h.name.unbroken, hrest]

/-- No item of a definition writes more than one line. -/
theorem isPlain_layout (h : d.IsNamed) : ∀ item ∈ d.layout, item.IsPlain := by
  have hname : ∀ item ∈ d.nameLayout, item.IsPlain := by
    unfold nameLayout
    split <;> simp [Item.IsPlain, h.name.unbroken, unbroken_cppString]
  have htag : ∀ item ∈ d.tagNameLayout, item.IsPlain := by
    by_cases hkind : d.kind = .tagged
    · have hlayout : d.tagNameLayout = [Item.opening ("const char* " ++ d.name ++
          "::tag_name(Tag tag)")] ++ d.tagNameItems ++ [Item.closing "", Item.blank] := by
        simp [tagNameLayout, hkind, tagNameItems]
      rw [hlayout, List.forall_mem_append, List.forall_mem_append]
      refine ⟨⟨?_, isPlain_tagNameItems h⟩, ?_⟩ <;> simp [Item.IsPlain, h.name.unbroken]
    · rw [tagNameLayout, if_neg hkind]
      exact List.forall_mem_nil _
  have hmerge : ∀ item ∈ d.mergeFromLayout, item.IsPlain := by
    unfold mergeFromLayout
    split
    · simp [Item.IsPlain, h.name.unbroken]
    · next merged hmerged =>
      have hfields : ∀ f ∈ d.fields.filter isMerged, ∀ item ∈ mergeLayout f, item.IsPlain :=
        fun f hf => isPlain_mergeLayout (h.fields f (List.mem_filter.mp hf).1)
      rw [List.forall_mem_append, List.forall_mem_append, List.forall_mem_flatMap]
      refine ⟨⟨?_, hfields⟩, ?_⟩ <;> simp [Item.IsPlain, h.name.unbroken]
  have hkey : ∀ item ∈ d.keyLayout, item.IsPlain := by
    unfold keyLayout
    split
    · simp
    · next type field hkey =>
      obtain ⟨htype, hfield⟩ := h.key _ hkey
      simp [Item.IsPlain, h.name.unbroken, htype.unbroken, hfield.unbroken]
  simp only [layout, List.forall_mem_append]
  exact ⟨⟨⟨⟨isPlain_constructorLayout h, hname⟩, htag⟩, hmerge⟩, hkey⟩

end ClassDefinition

/-! ## The source file -/

namespace ArtifactSource

variable {s : ArtifactSource} {classes : List ClassDefinition}

/-- What stands in the source file in front of the definitions. -/
def sourcePreamble (s : ArtifactSource) : List Item :=
  [includeLine (s.fileName .classDeclarations), .blank, namespaceOpening s.model.namespaceName,
    .blank]

/-- The source file without its notice. -/
def sourceItems (s : ArtifactSource) (classes : List ClassDefinition) : List Item :=
  s.sourcePreamble ++
    (classes.flatMap ClassDefinition.layout ++ [namespaceClosing s.model.namespaceName])

theorem definitionLayout_eq (h : s.definitions = .ok classes) :
    s.definitionLayout = .ok (s.opening .line ++ s.sourceItems classes) := by
  rw [definitionLayout, h]
  simp [sourceItems, sourcePreamble]

/-- The line that includes the header. -/
def includedLine (s : ArtifactSource) : String :=
  "#include " ++ cppString (s.fileName .classDeclarations)

/-- The line that opens the namespace. -/
def namespaceLine (s : ArtifactSource) : String :=
  "namespace " ++ s.model.namespaceName ++ " \x7b"

/-- The line that closes the namespace. -/
def namespaceEnd (s : ArtifactSource) : String := "\x7d  // namespace " ++ s.model.namespaceName

theorem toList_namespaceEnd (s : ArtifactSource) :
    s.namespaceEnd.toList = "\x7d  // namespace ".toList ++ s.model.namespaceName.toList :=
  String.toList_append

theorem linesFrom_sourceItems (s : ArtifactSource) (classes : List ClassDefinition) :
    linesFrom 0 (s.sourceItems classes) = [s.includedLine.toList, s.namespaceLine.toList] ++
      (classes.flatMap (fun d => linesFrom 0 d.layout) ++ [s.namespaceEnd.toList]) := by
  have hpreamble : Balanced s.sourcePreamble :=
    .of_shift (by simp [sourcePreamble, includeLine, namespaceOpening, Item.shift])
  have hclasses := Balanced.flatMap (fun d : ClassDefinition => d.linesFrom_layout.1) classes
  have hlines (first second : String) : linesFrom 0 [.line first, .blank, .line second, .blank] =
      [first.toList, second.toList] := rfl
  have hlast (text : String) : linesFrom 0 [.line text] = [text.toList] := rfl
  rw [sourceItems, hpreamble.linesFrom_append, hclasses.linesFrom_append,
    Balanced.linesFrom_flatMap fun d : ClassDefinition => d.linesFrom_layout.1, sourcePreamble,
    includeLine, namespaceOpening, namespaceClosing, hlines, hlast, includedLine, namespaceLine,
    toList_namespaceEnd, ← String.toList_append]

/-- What stands around the definitions constructs nothing. -/
theorem constructor?_around (s : ArtifactSource) : constructor? s.includedLine.toList = none ∧
    constructor? s.namespaceLine.toList = none ∧ constructor? s.namespaceEnd.toList = none := by
  have hinclude : "#include ".toList = '#' :: "include ".toList := by decide
  have hopening : "namespace ".toList = "namespace".toList ++ ' ' :: [] := by decide
  have hclosing : "\x7d  // namespace ".toList = '\x7d' :: "  // namespace ".toList := by decide
  refine ⟨?_, ?_, ?_⟩
  · rw [includedLine, String.toList_append, hinclude]
    exact constructor?_cons (by decide) (by decide) _
  · rw [namespaceLine, String.toList_append, String.toList_append, hopening, List.append_assoc,
      List.append_assoc]
    exact constructor?_eq_none (by decide) (by decide) (by decide)
  · rw [toList_namespaceEnd, hclosing]
    exact constructor?_cons (by decide) (by decide) _

/-- What stands around the definitions merges nothing. -/
theorem mergedClass?_around (s : ArtifactSource) : mergedClass? s.includedLine.toList = none ∧
    mergedClass? s.namespaceLine.toList = none ∧ mergedClass? s.namespaceEnd.toList = none := by
  refine ⟨?_, ?_, ?_⟩
  · exact mergedClass?_of_head? (by simp [includedLine])
  · exact mergedClass?_of_head? (by simp [namespaceLine])
  · exact mergedClass?_of_head? (by simp [toList_namespaceEnd])

/-- What stands around the definitions names no tags. -/
theorem tagNameClass?_around (hspace : IsType s.model.namespaceName.toList) :
    tagNameClass? s.includedLine.toList = none ∧ tagNameClass? s.namespaceLine.toList = none ∧
      tagNameClass? s.namespaceEnd.toList = none := by
  have hparenthesis : '(' ∉ s.model.namespaceName.toList := hspace.not_mem (by decide)
  refine ⟨?_, ?_, ?_⟩
  · apply tagNameClass?_of_getLast?
    simp [includedLine, cppString, List.getLast?_cons]
  · exact tagNameClass?_of_not_mem (c := '(') (by decide) (by simp [namespaceLine, hparenthesis])
  · exact tagNameClass?_of_not_mem (c := '(') (by decide)
      (by simp [toList_namespaceEnd, hparenthesis])

/-- The source file has the constructors of the defined classes, in their order. -/
theorem filterMap_constructor?_sourceItems (h : ∀ d ∈ classes, d.IsNamed) :
    (linesFrom 0 (s.sourceItems classes)).filterMap constructor? =
      classes.map fun d => (d.name.toList, d.constructorRest.toList) := by
  obtain ⟨hinclude, hopening, hclosing⟩ := s.constructor?_around
  rw [linesFrom_sourceItems, List.cons_append, List.singleton_append,
    List.filterMap_cons_none hinclude, List.filterMap_cons_none hopening, List.filterMap_append,
    List.filterMap_cons_none hclosing, List.filterMap_nil, List.append_nil,
    List.filterMap_flatMap, List.map_eq_flatMap]
  exact List.flatMap_congr fun d hd => ClassDefinition.filterMap_constructor?_layout (h d hd)

/-- What is read off the definitions of several classes, one after the other. -/
theorem read_flatMap {α : Type} {read : List (List Char) → List α}
    {parts : ClassDefinition → List α}
    (hread : ∀ d ∈ classes, ∀ rest, read (linesFrom 0 d.layout ++ rest) = parts d ++ read rest)
    (rest : List (List Char)) :
    read (classes.flatMap (fun d => linesFrom 0 d.layout) ++ rest) =
      classes.flatMap parts ++ read rest := by
  induction classes with
  | nil => rfl
  | cons d more ih =>
    obtain ⟨hd, hmore⟩ := List.forall_mem_cons.mp hread
    rw [List.flatMap_cons, List.append_assoc, hd, ih hmore, List.flatMap_cons, List.append_assoc]

/-- The source file merges fields of the defined classes. -/
theorem merges_sourceItems (h : ∀ d ∈ classes, d.IsNamed) :
    merges (linesFrom 0 (s.sourceItems classes)) = classes.flatMap fun d =>
      if d.mergedFields = [] then []
      else [(d.name.toList, d.mergedFields.flatMap ClassDefinition.mergeLines)] := by
  obtain ⟨hinclude, hopening, hclosing⟩ := s.mergedClass?_around
  have hfront : ∀ line ∈ [s.includedLine.toList, s.namespaceLine.toList],
      mergedClass? line = none := by
    simp [hinclude, hopening]
  have hlast : merges [s.namespaceEnd.toList] = [] :=
    blocks_eq_nil (List.forall_mem_singleton.mpr hclosing)
  rw [linesFrom_sourceItems, merges, blocks_append hfront]
  exact (read_flatMap (fun d hd => ClassDefinition.merges_layout (h d hd)) _).trans
    (by rw [hlast, List.append_nil])

/-- The source file names the tags of the defined classes. -/
theorem tagNames_sourceItems (h : ∀ d ∈ classes, d.IsNamed)
    (hspace : IsType s.model.namespaceName.toList) :
    tagNames (linesFrom 0 (s.sourceItems classes)) = classes.flatMap fun d =>
      if d.kind = .tagged then [(d.name.toList, d.tagNameLines)] else [] := by
  obtain ⟨hinclude, hopening, hclosing⟩ := tagNameClass?_around hspace
  have hfront : ∀ line ∈ [s.includedLine.toList, s.namespaceLine.toList],
      tagNameClass? line = none := by
    simp [hinclude, hopening]
  have hlast : tagNames [s.namespaceEnd.toList] = [] :=
    blocks_eq_nil (List.forall_mem_singleton.mpr hclosing)
  rw [linesFrom_sourceItems, tagNames, blocks_append hfront]
  exact (read_flatMap (fun d hd => ClassDefinition.tagNames_layout (h d hd)) _).trans
    (by rw [hlast, List.append_nil])

/-- No item of the source file writes more than one line. -/
theorem isPlain_sourceItems (h : ∀ d ∈ classes, d.IsNamed)
    (hspace : IsType s.model.namespaceName.toList) :
    ∀ item ∈ s.sourceItems classes, item.IsPlain := by
  have hinclude : (includeLine (s.fileName .classDeclarations)).IsPlain := by
    simp [includeLine, Item.IsPlain, unbroken_cppString]
  have hopening : (namespaceOpening s.model.namespaceName).IsPlain := by
    simp [namespaceOpening, Item.IsPlain, hspace.unbroken]
  have hclosing : (namespaceClosing s.model.namespaceName).IsPlain := by
    simp [namespaceClosing, Item.IsPlain, hspace.unbroken]
  simp only [sourceItems, sourcePreamble, List.forall_mem_append, List.forall_mem_cons,
    List.forall_mem_flatMap]
  exact ⟨⟨hinclude, trivial, hopening, trivial, List.forall_mem_nil _⟩,
    fun d hd => ClassDefinition.isPlain_layout (h d hd), hclosing, List.forall_mem_nil _⟩

end ArtifactSource

end AnnotatedGrammar
