import AnnotatedGrammar.Artifact.Declarations
import AnnotatedGrammar.Proofs.Artifact.Lines
import AnnotatedGrammar.Proofs.Artifact.Reading

/-!
# What the header defines

The classes that the header defines are read off its lines, each with the members and the tags it
declares. They are the declared classes, with their members and tags.
-/

namespace AnnotatedGrammar

open Layout ArtifactText

/-! ## Reading -/

namespace ArtifactText

/-- The class whose definition a line begins. -/
def openedClass? (line : List Char) : Option (List Char) :=
  if line.getLast? = some '\x7b' then wordBehind? "class " line else none

/-- The classes that the header defines, with the lines of their definitions. -/
def definedClasses (header : List (List Char)) : List (List Char × List (List Char)) :=
  blocks openedClass? (· == "\x7d;".toList) header

/-- The data member that a line of a class declares: no brackets, and a name at the end. -/
def declaredMember? (line : List Char) : Option (List Char) :=
  if line.getLast? = some ';' ∧ '(' ∉ line ∧ '\x7d' ∉ line then
    some (word line.dropLast.reverse).reverse
  else none

/-- The data members of a class. -/
def declaredMembers (body : List (List Char)) : List (List Char) := body.filterMap declaredMember?

/-- The line that opens the enumeration of tags. -/
def tagOpening : List Char := "    enum class Tag \x7b".toList

/-- Whether a line opens the enumeration of tags. -/
def opensTags? (line : List Char) : Option Unit := if line = tagOpening then some () else none

/-- The tags of a class. -/
def declaredTags (body : List (List Char)) : List (List Char) :=
  (blocks opensTags? (· == "    \x7d;".toList) body).flatMap fun tags =>
    tags.2.map fun line => word (unindented line)

/-- Whether a class says what it is called, and leaves no function to others. -/
def isConcrete (body : List (List Char)) : Bool :=
  (body.any fun line => (words line).contains "class_name".toList) &&
    body.all fun line => !"= 0;".toList.isSuffixOf line

/-- A class is defined once, and in a certain way. -/
def IsDefinedAs (header : List (List Char)) (name : List Char)
    (p : List (List Char) → Prop) : Prop :=
  ∃ body, (definedClasses header).filter (·.1 = name) = [(name, body)] ∧ p body

theorem openedClass?_of_head? {line : List Char} (h : line.head? ≠ some 'c') :
    openedClass? line = none := by
  have hclass : "class ".toList = 'c' :: "lass ".toList := by decide
  rw [openedClass?, wordBehind?, hclass, isPrefixOf?_of_head? h]
  split <;> rfl

theorem openedClass?_of_getLast? {line : List Char} (h : line.getLast? ≠ some '\x7b') :
    openedClass? line = none := if_neg h

theorem opensTags?_of_getLast? {line : List Char} (h : line.getLast? ≠ some '\x7b') :
    opensTags? line = none := by
  have hopening : tagOpening.getLast? = some '\x7b' := by decide
  rw [opensTags?, if_neg]
  rintro rfl
  exact h hopening

theorem declaredMember?_of_mem {line : List Char} (h : '(' ∈ line ∨ '\x7d' ∈ line) :
    declaredMember? line = none := by
  rw [declaredMember?, if_neg]
  rintro ⟨-, hparenthesis, hbrace⟩
  exact h.elim hparenthesis hbrace

theorem declaredMember?_of_getLast? {line : List Char} (h : line.getLast? ≠ some ';') :
    declaredMember? line = none := by
  rw [declaredMember?, if_neg]
  exact fun hline => h hline.1

theorem declaredMember?_append {front name : List Char} (hfront : '(' ∉ front ∧ '\x7d' ∉ front)
    (hname : IsWord name) : declaredMember? (front ++ ' ' :: name ++ [';']) = some name := by
  have hbracket : '(' ∉ name ∧ '\x7d' ∉ name :=
    ⟨hname.not_mem (by decide), hname.not_mem (by decide)⟩
  rw [declaredMember?, if_pos (by simp [hfront, hbracket, List.getLast?_cons]),
    List.dropLast_concat,
    List.reverse_append, List.reverse_cons, List.append_assoc, List.singleton_append,
    hname.reverse.word_append (by decide), List.reverse_reverse]

end ArtifactText

/-! ## One class -/

namespace ClassDeclaration

/-- What stands in the declaration of a class can be told apart. -/
structure IsNamed (d : ClassDeclaration) : Prop where
  name : IsWord d.name.toList
  base : ∀ base ∈ d.base, IsType base.toList
  tags : ∀ tag ∈ d.tags, IsWord tag.toList
  key : ∀ type ∈ d.keyType, IsType type.toList
  members : ∀ member ∈ d.members, IsType member.1.toList ∧ IsWord member.2.toList

/-- What stands between the braces of a class. -/
def bodyItems (d : ClassDeclaration) : List Item :=
  [Item.dedent, Item.line "public:", Item.indent] ++ (if d.isTagged then d.tagLayout else []) ++
    d.functionLayout ++ d.memberLayout

/-- The lines between the braces of a class. -/
def body (d : ClassDeclaration) : List (List Char) := linesFrom 1 d.bodyItems

variable {d : ClassDeclaration}

theorem layout_eq (d : ClassDeclaration) :
    d.layout = .opening d.header :: d.bodyItems ++ [.closing ";"] := by
  simp [layout, bodyItems]

theorem shift_functionLayout (d : ClassDeclaration) :
    ∀ item ∈ d.functionLayout, item.shift = 0 := by
  unfold functionLayout
  cases d.keyType <;> split <;> split <;> simp [Item.shift]

theorem shift_memberLayout (d : ClassDeclaration) : ∀ item ∈ d.memberLayout, item.shift = 0 := by
  refine List.forall_mem_append.mpr ⟨List.forall_mem_append.mpr ⟨?_, ?_⟩,
    List.forall_mem_map.mpr fun _ _ => rfl⟩ <;> split <;> simp [Item.shift]

/-- The lines of the enumeration of tags. -/
def tagLines (d : ClassDeclaration) : List (List Char) :=
  tagOpening :: (d.tags.map (fun tag => Page.margin 2 ++ (tag ++ ",").toList) ++
    ["    \x7d;".toList])

theorem balanced_tags (d : ClassDeclaration) :
    Balanced (d.tags.map fun tag => Item.line (tag ++ ",")) :=
  .of_shift (by simp [Item.shift])

theorem tagLayout_eq (d : ClassDeclaration) : d.tagLayout =
    (Item.opening "enum class Tag" :: d.tags.map (fun tag => Item.line (tag ++ ",")) ++
      [Item.closing ";"]) ++ [Item.blank] := by
  simp [tagLayout]

theorem balanced_tagLayout (d : ClassDeclaration) : Balanced d.tagLayout := by
  rw [tagLayout_eq]
  exact (Balanced.block (fun _ => d.balanced_tags _) _ _).append (.of_shift (by simp [Item.shift]))

theorem linesFrom_tagLayout (d : ClassDeclaration) : linesFrom 1 d.tagLayout = d.tagLines := by
  have hblock := Balanced.block (fun _ => d.balanced_tags _) "enum class Tag" ";"
  have hopening : Page.margin 1 ++ (openingLine "enum class Tag").toList = tagOpening := by decide
  have hclosing : Page.margin 1 ++ ("\x7d" ++ ";").toList = "    \x7d;".toList := by decide
  have hblank : linesFrom 1 [.blank] = [] := rfl
  rw [tagLayout_eq, hblock.linesFrom_append, linesFrom_block (d.balanced_tags _),
    linesFrom_map_line, hopening, hclosing, hblank, List.append_nil, tagLines]

/-- The lines that declare the data members. -/
def memberLines (d : ClassDeclaration) : List (List Char) :=
  (if d.isTagged then ["    Tag tag;".toList] else []) ++
    d.members.map fun member => "    ".toList ++ member.1.toList ++ ' ' :: member.2.toList ++ [';']

theorem linesFrom_memberLayout (d : ClassDeclaration) :
    linesFrom 1 d.memberLayout = d.memberLines := by
  have hmargin : Page.margin 1 = "    ".toList := by decide
  rw [linesFrom_of_shift d.shift_memberLayout, memberLayout, memberLines, hmargin]
  split <;> split <;>
    simp [List.filterMap_cons, List.filterMap_map, Function.comp_def, Item.text?]

/-- The lines that declare functions. -/
def functionLines (d : ClassDeclaration) : List (List Char) :=
  (d.functionLayout.filterMap Item.text?).map (Page.margin 1 ++ ·)

theorem nameMember_spec (d : ClassDeclaration) :
    ('(' ∈ d.nameMember.toList ∧ d.nameMember.toList.getLast? = some ';') ∧
      d.nameMember ≠ "" ∧ '\n' ∉ d.nameMember.toList := by
  unfold nameMember
  split_ifs <;> decide

/-- A function is declared with parentheses. -/
theorem text_of_functionLayout (d : ClassDeclaration) : ∀ item ∈ d.functionLayout,
    ∀ text ∈ item.text?, '(' ∈ text ∧ text.getLast? = some ';' := by
  unfold functionLayout
  simp only [List.forall_mem_append, List.forall_mem_cons]
  refine ⟨⟨⟨⟨⟨?_, ?_⟩, ?_⟩, ?_⟩, ?_⟩, ?_⟩
  · simp [Item.text?]
  · split <;> simp [Item.text?, List.getLast?_cons]
  · simpa [Item.text?] using d.nameMember_spec.1
  · split <;> simp [Item.text?]
  · simp [Item.text?, List.getLast?_cons]
  · split <;> simp [Item.text?, List.getLast?_cons]

theorem mem_functionLines {line : List Char} (h : line ∈ d.functionLines) :
    (∃ rest, line = ' ' :: rest) ∧ '(' ∈ line ∧ line.getLast? = some ';' := by
  obtain ⟨text, htext, rfl⟩ := List.mem_map.mp h
  obtain ⟨item, hitem, htext⟩ := List.mem_filterMap.mp htext
  obtain ⟨hparenthesis, hlast⟩ := d.text_of_functionLayout item hitem text htext
  refine ⟨⟨_, rfl⟩, List.mem_append_right _ hparenthesis, ?_⟩
  rw [List.getLast?_append, hlast]
  rfl

theorem body_eq (d : ClassDeclaration) : d.body = "public:".toList ::
    ((if d.isTagged then d.tagLines else []) ++ (d.functionLines ++ d.memberLines)) := by
  have hfirst (rest : List Item) :
      linesFrom 1 ([Item.dedent, Item.line "public:", Item.indent] ++ rest) =
        "public:".toList :: linesFrom 1 rest := rfl
  have htags : linesFrom 1 (if d.isTagged then d.tagLayout else []) =
      if d.isTagged then d.tagLines else [] := by
    split
    · exact d.linesFrom_tagLayout
    · rfl
  have hbalanced : Balanced (if d.isTagged then d.tagLayout else []) := by
    split
    · exact d.balanced_tagLayout
    · exact fun _ => rfl
  rw [body, bodyItems, List.append_assoc, List.append_assoc, hfirst, hbalanced.linesFrom_append,
    htags, (Balanced.of_shift d.shift_functionLayout).linesFrom_append,
    linesFrom_of_shift d.shift_functionLayout, linesFrom_memberLayout, functionLines]

theorem mem_tagLines {line : List Char} (h : line ∈ d.tagLines) :
    ∃ rest, line = ' ' :: rest := by
  have hopening : tagOpening = ' ' :: "   enum class Tag \x7b".toList := by decide
  have hclosing : "    \x7d;".toList = ' ' :: "   \x7d;".toList := by decide
  rcases List.mem_cons.mp h with rfl | h
  · exact ⟨_, hopening⟩
  rcases List.mem_append.mp h with htag | hlast
  · obtain ⟨tag, -, rfl⟩ := List.mem_map.mp htag
    exact ⟨_, rfl⟩
  · exact ⟨_, (List.mem_singleton.mp hlast).trans hclosing⟩

theorem mem_memberLines {line : List Char} (h : line ∈ d.memberLines) :
    ∃ rest, line = ' ' :: rest := by
  have htagged : "    Tag tag;".toList = ' ' :: "   Tag tag;".toList := by decide
  have hmargin : "    ".toList = ' ' :: "   ".toList := by decide
  rcases List.mem_append.mp h with htag | hmember
  · split at htag
    · exact ⟨_, (List.mem_singleton.mp htag).trans htagged⟩
    · cases htag
  · obtain ⟨member, -, rfl⟩ := List.mem_map.mp hmember
    rw [hmargin]
    exact ⟨_, rfl⟩

/-- The lines between the braces are indented, except for one. -/
theorem mem_body {line : List Char} (h : line ∈ d.body) :
    line = "public:".toList ∨ ∃ rest, line = ' ' :: rest := by
  rw [body_eq] at h
  rcases List.mem_cons.mp h with hfirst | h
  · exact .inl hfirst
  rcases List.mem_append.mp h with htag | h
  · split at htag
    · exact .inr (mem_tagLines htag)
    · cases htag
  rcases List.mem_append.mp h with hfunction | hmember
  · exact .inr (mem_functionLines hfunction).1
  · exact .inr (mem_memberLines hmember)

theorem declaredMember?_tagLines {line : List Char} (h : line ∈ d.tagLines) :
    declaredMember? line = none := by
  have hopening : tagOpening.getLast? ≠ some ';' := by decide
  have hclosing : '\x7d' ∈ "    \x7d;".toList := by decide
  rcases List.mem_cons.mp h with rfl | h
  · exact declaredMember?_of_getLast? hopening
  rcases List.mem_append.mp h with htag | hlast
  · obtain ⟨tag, -, rfl⟩ := List.mem_map.mp htag
    exact declaredMember?_of_getLast? (by simp)
  · rw [List.mem_singleton.mp hlast]
    exact declaredMember?_of_mem (.inr hclosing)

/-- The members of a class are read off its declaration, the tag among them. -/
theorem declaredMembers_body (h : d.IsNamed) :
    declaredMembers d.body = (if d.isTagged then ["tag".toList] else []) ++
      d.members.map (·.2.toList) := by
  have hpublic : declaredMember? "public:".toList = none := by decide
  have htag : declaredMember? "    Tag tag;".toList = some "tag".toList := by decide
  have htags : (if d.isTagged then d.tagLines else []).filterMap declaredMember? = [] := by
    split
    · exact List.filterMap_eq_nil_iff.mpr fun line hline => declaredMember?_tagLines hline
    · rfl
  have hfunctions : d.functionLines.filterMap declaredMember? = [] :=
    List.filterMap_eq_nil_iff.mpr fun line hline =>
      declaredMember?_of_mem (.inl (mem_functionLines hline).2.1)
  have hmember (member : String × String) (hmember : member ∈ d.members) :
      declaredMember? ("    ".toList ++ member.1.toList ++ ' ' :: member.2.toList ++ [';']) =
        some member.2.toList := by
    obtain ⟨htype, hname⟩ := h.members member hmember
    have hblanks : '(' ∉ "    ".toList ∧ '\x7d' ∉ "    ".toList := by decide
    refine declaredMember?_append ⟨?_, ?_⟩ hname
    · exact List.not_mem_append hblanks.1 (htype.not_mem (by decide))
    · exact List.not_mem_append hblanks.2 (htype.not_mem (by decide))
  have hmembers : d.memberLines.filterMap declaredMember? =
      (if d.isTagged then ["tag".toList] else []) ++ d.members.map (·.2.toList) := by
    have hnames := List.filterMap_congr hmember
    rw [List.filterMap_eq_map'] at hnames
    rw [memberLines, List.filterMap_append, List.filterMap_map, ← hnames]
    congr 1
    split
    · rw [List.filterMap_cons_some htag, List.filterMap_nil]
    · rfl
  rw [declaredMembers, body_eq, List.filterMap_cons_none hpublic, List.filterMap_append, htags,
    List.nil_append, List.filterMap_append, hfunctions, List.nil_append, hmembers]

theorem getLast?_memberLines {line : List Char} (h : line ∈ d.memberLines) :
    line.getLast? = some ';' := by
  have htagged : "    Tag tag;".toList.getLast? = some ';' := by decide
  rcases List.mem_append.mp h with htag | hmember
  · split at htag
    · rw [List.mem_singleton.mp htag, htagged]
    · cases htag
  · obtain ⟨member, -, rfl⟩ := List.mem_map.mp hmember
    exact List.getLast?_concat

/-- The tags of a class are read off its declaration. -/
theorem declaredTags_body (h : d.IsNamed) :
    declaredTags d.body = if d.isTagged then d.tags.map String.toList else [] := by
  have hpublic : opensTags? "public:".toList = none := by decide
  have hflat : ∀ line ∈ d.functionLines ++ d.memberLines, opensTags? line = none := by
    intro line hline
    apply opensTags?_of_getLast?
    rcases List.mem_append.mp hline with hfunction | hmember
    · rw [(mem_functionLines hfunction).2.2]
      decide
    · rw [getLast?_memberLines hmember]
      decide
  rw [declaredTags, body_eq, ← List.singleton_append,
    blocks_append (List.forall_mem_singleton.mpr hpublic)]
  by_cases htagged : d.isTagged = true
  · have hopening : opensTags? tagOpening = some () := if_pos rfl
    have hlast : opensTags? "    \x7d;".toList = none ∧
        ("    \x7d;".toList == "    \x7d;".toList) = true := by decide
    have hclosing : "    \x7d;".toList.getLast? = some ';' := by decide
    have htags : ∀ line ∈ d.tags.map (fun tag => Page.margin 2 ++ (tag ++ ",").toList),
        opensTags? line = none ∧ (line == "    \x7d;".toList) = false := by
      intro line hline
      obtain ⟨tag, -, rfl⟩ := List.mem_map.mp hline
      have hcomma : (Page.margin 2 ++ (tag ++ ",").toList).getLast? = some ',' := by simp
      refine ⟨opensTags?_of_getLast? (by rw [hcomma]; decide), beq_eq_false_iff_ne.mpr ?_⟩
      intro heq
      rw [heq, hclosing] at hcomma
      exact absurd hcomma (by decide)
    rw [if_pos htagged, if_pos htagged, tagLines, blocks_block hopening htags hlast,
      blocks_eq_nil hflat, List.flatMap_singleton, List.map_map]
    refine List.map_congr_left fun tag htag => ?_
    have hword := h.tags tag htag
    rw [Function.comp_apply, Page.margin, unindented_replicate, String.toList_append,
      hword.unindented_append]
    exact hword.word_append (by decide) []
  · rw [if_neg htagged, if_neg htagged, List.nil_append, blocks_eq_nil hflat]
    rfl

theorem not_isSuffixOf_of_not_mem {line : List Char} (h : '=' ∉ line) :
    "= 0;".toList.isSuffixOf line = false := by
  have hmem : '=' ∈ "= 0;".toList := by decide
  rw [Bool.eq_false_iff]
  intro hsuffix
  exact h ((List.isSuffixOf_iff_suffix.mp hsuffix).subset hmem)

/-- Only an abstract class leaves a function to others. -/
theorem not_isSuffixOf_functionLines (hkind : d.kind ≠ .abstract) {line : List Char}
    (h : line ∈ d.functionLines) : "= 0;".toList.isSuffixOf line = false := by
  have hname : "= 0;".toList.isSuffixOf (Page.margin 1 ++ d.nameMember.toList) = false := by
    rw [nameMember, if_neg hkind]
    split <;> decide
  have hitems : ∀ item ∈ d.functionLayout, ∀ text ∈ item.text?,
      "= 0;".toList.isSuffixOf (Page.margin 1 ++ text) = false := by
    unfold functionLayout
    simp only [List.forall_mem_append, List.forall_mem_cons]
    refine ⟨⟨⟨⟨⟨?_, ?_⟩, ?_⟩, ?_⟩, ?_⟩, ?_⟩
    · simp [Item.text?, List.isSuffixOf, List.isPrefixOf]
    · split <;> simp [Item.text?, List.isSuffixOf, List.isPrefixOf]
    · simpa [Item.text?] using hname
    · split <;> simp [Item.text?, List.isSuffixOf, List.isPrefixOf]
    · simp [Item.text?, List.isSuffixOf, List.isPrefixOf]
    · split <;> simp [Item.text?, List.isSuffixOf, List.isPrefixOf]
  obtain ⟨text, htext, rfl⟩ := List.mem_map.mp h
  obtain ⟨item, hitem, htext⟩ := List.mem_filterMap.mp htext
  exact hitems item hitem text htext

theorem not_mem_tagLines (h : d.IsNamed) {line : List Char} (hline : line ∈ d.tagLines) :
    '=' ∉ line := by
  have hfixed : '=' ∉ tagOpening ∧ '=' ∉ "    \x7d;".toList := by decide
  rcases List.mem_cons.mp hline with rfl | hline
  · exact hfixed.1
  rcases List.mem_append.mp hline with htag | hlast
  · obtain ⟨tag, hmem, rfl⟩ := List.mem_map.mp htag
    have hmargin : '=' ∉ Page.margin 2 := by decide
    have hname := (h.tags tag hmem).not_mem (c := '=') (by decide)
    simp [hmargin, hname]
  · exact List.mem_singleton.mp hlast ▸ hfixed.2

theorem not_mem_memberLines (h : d.IsNamed) {line : List Char} (hline : line ∈ d.memberLines) :
    '=' ∉ line := by
  have hfixed : '=' ∉ "    Tag tag;".toList := by decide
  rcases List.mem_append.mp hline with htag | hmember
  · split at htag
    · exact List.mem_singleton.mp htag ▸ hfixed
    · cases htag
  · obtain ⟨member, hmem, rfl⟩ := List.mem_map.mp hmember
    obtain ⟨htype, hname⟩ := h.members member hmem
    have htype' := htype.not_mem (c := '=') (by decide)
    have hname' := hname.not_mem (c := '=') (by decide)
    simp [htype', hname']

theorem not_isSuffixOf_body (h : d.IsNamed) (hkind : d.kind ≠ .abstract) {line : List Char}
    (hline : line ∈ d.body) : "= 0;".toList.isSuffixOf line = false := by
  have hpublic : "= 0;".toList.isSuffixOf "public:".toList = false := by decide
  rw [body_eq] at hline
  rcases List.mem_cons.mp hline with rfl | hline
  · exact hpublic
  rcases List.mem_append.mp hline with htag | hline
  · split at htag
    · exact not_isSuffixOf_of_not_mem (not_mem_tagLines h htag)
    · cases htag
  rcases List.mem_append.mp hline with hfunction | hmember
  · exact not_isSuffixOf_functionLines hkind hfunction
  · exact not_isSuffixOf_of_not_mem (not_mem_memberLines h hmember)

/-- Instances of a class can be made unless it is abstract. -/
theorem isConcrete_body (h : d.IsNamed) :
    isConcrete d.body = decide (d.kind ≠ .abstract) := by
  have hname : Page.margin 1 ++ d.nameMember.toList ∈ d.functionLines := by
    refine List.mem_map_of_mem (List.mem_filterMap.mpr ⟨.line d.nameMember, ?_, rfl⟩)
    simp [functionLayout]
  have hnamed : (words (Page.margin 1 ++ d.nameMember.toList)).contains "class_name".toList =
      true := by
    unfold nameMember
    split_ifs <;> decide
  have hmem {line : List Char} (hline : line ∈ d.functionLines) : line ∈ d.body := by
    rw [body_eq]
    exact List.mem_cons_of_mem _ (List.mem_append_right _ (List.mem_append_left _ hline))
  have hany : (d.body.any fun line => (words line).contains "class_name".toList) = true :=
    List.any_eq_true.mpr ⟨_, hmem hname, hnamed⟩
  rw [isConcrete, hany, Bool.true_and]
  by_cases hkind : d.kind = .abstract
  · have hpure : "= 0;".toList.isSuffixOf (Page.margin 1 ++ d.nameMember.toList) = true := by
      rw [nameMember, if_pos hkind]
      decide
    rw [List.all_eq_false.mpr ⟨_, hmem hname, by rw [hpure]; decide⟩, decide_eq_false (by simpa)]
  · rw [decide_eq_true hkind, List.all_eq_true]
    intro line hline
    rw [not_isSuffixOf_body h hkind hline]
    rfl

theorem levels_bodyItems (d : ClassDeclaration) (level : Nat) :
    d.bodyItems.foldl Item.levelAfter (level + 1) = level + 1 := by
  have hfirst : [Item.dedent, .line "public:", .indent].foldl Item.levelAfter (level + 1) =
      level + 1 := by
    simp [Item.levelAfter, Item.shift]
  have htags : Balanced (if d.isTagged then d.tagLayout else []) := by
    split
    · exact d.balanced_tagLayout
    · exact fun _ => rfl
  rw [bodyItems, List.foldl_append, List.foldl_append, List.foldl_append, hfirst, htags,
    Balanced.of_shift d.shift_functionLayout, Balanced.of_shift d.shift_memberLayout]

theorem linesFrom_layout (d : ClassDeclaration) :
    linesFrom 0 d.layout = (openingLine d.header).toList :: (d.body ++ ["\x7d;".toList]) := by
  rw [layout_eq, linesFrom_block (d.levels_bodyItems 0)]
  rfl

theorem balanced_layout (d : ClassDeclaration) : Balanced d.layout :=
  d.layout_eq ▸ .block d.levels_bodyItems _ _

/-- The class that the first line of a declaration names. -/
theorem openedClass?_header (h : d.IsNamed) :
    openedClass? (openingLine d.header).toList = some d.name.toList := by
  have hheader : ∃ rest, (openingLine d.header).toList =
      "class ".toList ++ (d.name.toList ++ ' ' :: (rest ++ ['\x7b'])) := by
    unfold header
    cases d.base with
    | none =>
      refine ⟨[], ?_⟩
      rw [toList_openingLine (by simp)]
      simp
    | some base =>
      refine ⟨": public ".toList ++ base.toList ++ [' '], ?_⟩
      rw [toList_openingLine (by simp)]
      simp
  obtain ⟨rest, hrest⟩ := hheader
  rw [openedClass?, hrest, if_pos, wordBehind?_append, h.name.word_append (by decide)]
  simp [List.getLast?_cons]

/-- The definition of a class is read off its declaration. -/
theorem definedClasses_layout (h : d.IsNamed) (rest : List (List Char)) :
    definedClasses (linesFrom 0 d.layout ++ rest) =
      (d.name.toList, d.body) :: definedClasses rest := by
  have hlast : openedClass? "\x7d;".toList = none ∧ ("\x7d;".toList == "\x7d;".toList) = true := by
    decide
  have hpublic : openedClass? "public:".toList = none ∧
      ("public:".toList == "\x7d;".toList) = false := by
    decide
  have hindented (text : List Char) : openedClass? (' ' :: text) = none ∧
      (' ' :: text == "\x7d;".toList) = false := by
    refine ⟨?_, rfl⟩
    rw [openedClass?]
    split <;> rfl
  have hbody : ∀ line ∈ d.body, openedClass? line = none ∧ (line == "\x7d;".toList) = false := by
    intro line hline
    rcases mem_body hline with rfl | ⟨text, rfl⟩
    · exact hpublic
    · exact hindented text
  rw [linesFrom_layout, definedClasses]
  exact blocks_block (openedClass?_header h) hbody hlast rest

theorem isPlain_functionLayout (h : d.IsNamed) : ∀ item ∈ d.functionLayout, item.IsPlain := by
  have hname := h.name.unbroken
  unfold functionLayout
  simp only [List.forall_mem_append, List.forall_mem_cons]
  refine ⟨⟨⟨⟨⟨?_, ?_⟩, ?_⟩, ?_⟩, ?_⟩, ?_⟩
  · simp [Item.IsPlain, hname]
  · split <;> simp [Item.IsPlain, hname]
  · simpa [Item.IsPlain] using d.nameMember_spec.2
  · split <;> simp [Item.IsPlain]
  · simp [Item.IsPlain, hname]
  · split
    · next type hkey => simp [Item.IsPlain, (h.key type hkey).unbroken]
    · simp

theorem isPlain_memberLayout (h : d.IsNamed) : ∀ item ∈ d.memberLayout, item.IsPlain := by
  unfold memberLayout
  simp only [List.forall_mem_append, List.forall_mem_map]
  refine ⟨⟨?_, ?_⟩, fun member hmember => ?_⟩
  · split <;> simp [Item.IsPlain]
  · split <;> simp [Item.IsPlain]
  · obtain ⟨htype, hname⟩ := h.members member hmember
    simp [Item.IsPlain, htype.unbroken, hname.unbroken]

/-- No item of a declaration writes more than one line. -/
theorem isPlain_layout (h : d.IsNamed) : ∀ item ∈ d.layout, item.IsPlain := by
  have hheader : (Item.opening d.header).IsPlain := by
    unfold header
    cases hbase : d.base with
    | none => simp [Item.IsPlain, h.name.unbroken]
    | some base => simp [Item.IsPlain, h.name.unbroken, (h.base base hbase).unbroken]
  have htags : ∀ item ∈ (if d.isTagged then d.tagLayout else []), item.IsPlain := by
    split
    · simp only [tagLayout, List.forall_mem_append, List.forall_mem_map]
      simpa [Item.IsPlain] using fun tag htag => (h.tags tag htag).unbroken
    · simp
  simp only [layout, List.forall_mem_append, List.forall_mem_cons]
  refine ⟨⟨⟨⟨⟨hheader, ?_⟩, htags⟩, isPlain_functionLayout h⟩, isPlain_memberLayout h⟩, ?_⟩
  · simp [Item.IsPlain]
  · simp [Item.IsPlain]

/-- The definitions of several classes are read off their declarations, one after the other. -/
theorem definedClasses_flatMap {classes : List ClassDeclaration} (h : ∀ d ∈ classes, d.IsNamed)
    (rest : List (List Char)) :
    definedClasses (classes.flatMap (linesFrom 0 ·.layout) ++ rest) =
      classes.map (fun d => (d.name.toList, d.body)) ++ definedClasses rest := by
  induction classes with
  | nil => rfl
  | cons d more ih =>
    obtain ⟨hd, hmore⟩ := List.forall_mem_cons.mp h
    rw [List.flatMap_cons, List.append_assoc, definedClasses_layout hd, ih hmore, List.map_cons,
      List.cons_append]

end ClassDeclaration

/-! ## The header -/

namespace ArtifactSource

variable {s : ArtifactSource}

/-- What stands in the header in front of the list helpers. -/
def settingItems (s : ArtifactSource) : List Item :=
  [Item.line "#pragma once", Item.blank] ++
    standardHeaders.map (fun header => Item.line ("#include " ++ header)) ++
    [Item.blank, namespaceOpening s.model.namespaceName, Item.blank]

/-- What stands between the list helpers and the classes. -/
def forwardItems (s : ArtifactSource) : List Item :=
  [Item.blank] ++ s.declarations.1.map (fun name => Item.line ("class " ++ name ++ ";")) ++
    [Item.blank]

/-- The header without its notice. -/
def headerItems (s : ArtifactSource) : List Item :=
  s.settingItems ++ (listHelpers ++ (s.forwardItems ++
    (s.declarations.2.flatMap (fun d => d.layout ++ [Item.blank]) ++
      [namespaceClosing s.model.namespaceName])))

theorem declarationLayout_eq (s : ArtifactSource) :
    s.declarationLayout = s.opening .line ++ s.headerItems := by
  simp [declarationLayout, headerItems, settingItems, forwardItems]

theorem shift_settingItems (s : ArtifactSource) : ∀ item ∈ s.settingItems, item.shift = 0 := by
  simp only [settingItems, List.forall_mem_append, List.forall_mem_map]
  simp [namespaceOpening, Item.shift]

theorem shift_forwardItems (s : ArtifactSource) : ∀ item ∈ s.forwardItems, item.shift = 0 := by
  simp only [forwardItems, List.forall_mem_append, List.forall_mem_map]
  simp [Item.shift]

/-- Nothing in front of the classes opens one. -/
theorem openedClass?_eq_none {items : List Item} {level : Nat}
    (hitems : ∀ item ∈ items, ∀ text ∈ item.text?,
      text.head? ≠ some 'c' ∨ text.getLast? = some ';')
    {line : List Char} (h : line ∈ linesFrom level items) : openedClass? line = none := by
  obtain ⟨item, hitem, text, htext, n, rfl⟩ := mem_linesFrom h
  rcases hitems item hitem text htext with hhead | hlast
  · apply openedClass?_of_head?
    cases n with
    | zero => exact hhead
    | succ n => simp [List.replicate_succ]
  · apply openedClass?_of_getLast?
    rw [List.getLast?_append, hlast]
    simp

theorem openedClass?_settingItems :
    ∀ line ∈ linesFrom 0 s.settingItems, openedClass? line = none := by
  refine fun line => openedClass?_eq_none ?_
  simp only [settingItems, List.forall_mem_append, List.forall_mem_map]
  simp [namespaceOpening, Item.text?]

theorem text_of_listHelpers : ∀ item ∈ listHelpers, item.IsPlain ∧
    item.text?.all (fun text => text.head? != some 'c') = true := by
  decide +kernel

theorem openedClass?_listHelpers : ∀ line ∈ linesFrom 0 listHelpers, openedClass? line = none := by
  refine fun line => openedClass?_eq_none fun item hitem text htext => .inl ?_
  have hhead := (text_of_listHelpers item hitem).2
  rw [Option.mem_def.mp htext] at hhead
  exact bne_iff_ne.mp hhead

theorem openedClass?_forwardItems :
    ∀ line ∈ linesFrom 0 s.forwardItems, openedClass? line = none := by
  refine fun line => openedClass?_eq_none ?_
  simp only [forwardItems, List.forall_mem_append, List.forall_mem_map]
  simp [Item.text?, List.getLast?_cons]

/-- The header defines the declared classes, in their order. -/
theorem definedClasses_headerItems (h : ∀ d ∈ s.declarations.2, d.IsNamed) :
    definedClasses (linesFrom 0 s.headerItems) =
      s.declarations.2.map fun d => (d.name.toList, d.body) := by
  have hlevels : listHelpers.foldl Item.levelAfter 0 = 0 := rfl
  have hlayout (d : ClassDeclaration) : Balanced (d.layout ++ [Item.blank]) :=
    d.balanced_layout.append (.of_shift (by simp [Item.shift]))
  have hblank (d : ClassDeclaration) :
      linesFrom 0 (d.layout ++ [Item.blank]) = linesFrom 0 d.layout := by
    rw [d.balanced_layout.linesFrom_append]
    exact List.append_nil _
  have hlast : ∀ line ∈ linesFrom 0 [namespaceClosing s.model.namespaceName],
      openedClass? line = none := by
    rw [namespaceClosing, linesFrom_line, List.forall_mem_singleton]
    exact openedClass?_of_head? (by simp [Page.margin])
  rw [headerItems, (Balanced.of_shift s.shift_settingItems).linesFrom_append, linesFrom_append,
    hlevels, (Balanced.of_shift s.shift_forwardItems).linesFrom_append,
    (Balanced.flatMap hlayout _).linesFrom_append, Balanced.linesFrom_flatMap hlayout]
  simp only [hblank]
  rw [definedClasses, blocks_append openedClass?_settingItems,
    blocks_append openedClass?_listHelpers, blocks_append openedClass?_forwardItems]
  have hclasses := ClassDeclaration.definedClasses_flatMap h
    (linesFrom 0 [namespaceClosing s.model.namespaceName])
  rw [definedClasses, definedClasses, blocks_eq_nil hlast, List.append_nil] at hclasses
  exact hclasses

/-- No item of the header writes more than one line. -/
theorem isPlain_headerItems (h : ∀ d ∈ s.declarations.2, d.IsNamed)
    (hannounced : ∀ name ∈ s.declarations.1, IsType name.toList)
    (hspace : IsType s.model.namespaceName.toList) : ∀ item ∈ s.headerItems, item.IsPlain := by
  have hsetting : ∀ item ∈ s.settingItems, item.IsPlain := by
    simp only [settingItems, List.forall_mem_append, List.forall_mem_map]
    simp [namespaceOpening, Item.IsPlain, standardHeaders, hspace.unbroken]
  have hhelpers : ∀ item ∈ listHelpers, item.IsPlain := fun item hitem =>
    (text_of_listHelpers item hitem).1
  have hforward : ∀ item ∈ s.forwardItems, item.IsPlain := by
    simp only [forwardItems, List.forall_mem_append, List.forall_mem_map]
    simpa [Item.IsPlain] using fun name hname => (hannounced name hname).unbroken
  have hlast : (namespaceClosing s.model.namespaceName).IsPlain := by
    simp [namespaceClosing, Item.IsPlain, hspace.unbroken]
  simp only [headerItems, List.forall_mem_append, List.forall_mem_singleton,
    List.forall_mem_flatMap]
  exact ⟨hsetting, hhelpers, hforward,
    fun d hd => ⟨ClassDeclaration.isPlain_layout (h d hd), trivial⟩, hlast⟩

end ArtifactSource

end AnnotatedGrammar
