import AnnotatedGrammar.Artifact.ParserGrammar
import AnnotatedGrammar.Proofs.Artifact.Lines
import AnnotatedGrammar.Proofs.Artifact.Quoting
import AnnotatedGrammar.Proofs.Artifact.Reading

/-!
# What the parser grammar says

The rules are read off the lines of the parser grammar, each with the symbols and the action of its
alternatives, and so are the tokens it declares. A rule begins with a line that is one name, and an
alternative with a line that begins with a colon or a bar.
-/

namespace AnnotatedGrammar

open Layout ArtifactText

/-! ## Reading -/

namespace ArtifactText

/-- The nonterminal whose rule begins with a line. -/
def ruleHead? (line : List Char) : Option (List Char) := if IsWord line then some line else none

/-- The nonterminals that have rules, with the lines of these rules. -/
def rules (grammar : List (List Char)) : List (List Char × List (List Char)) :=
  blocks ruleHead? (· == "    ;".toList) grammar

/-- The symbols of the alternative that begins with a line. -/
def bodySymbols? (line : List Char) : Option (List (List Char)) :=
  ("    : ".toList.isPrefixOf? line <|> "    | ".toList.isPrefixOf? line).map fun symbols =>
    if symbols = "%empty".toList then [] else symbols.splitOn ' '

/-- The alternatives of a rule, with the lines of their actions. -/
def alternatives (rule : List (List Char)) : List (List (List Char) × List (List Char)) :=
  blocks bodySymbols? (fun line => (bodySymbols? line).isSome) rule

/-- The class of which a line makes an instance. -/
def madeClass? (line : List Char) : Option (List Char) :=
  wordBehind? "auto node = std::make_shared<" (unindented line)

/-- The member of the new instance to which a line assigns something. -/
def storedMember? (line : List Char) : Option (List Char) :=
  wordBehind? "node->" (unindented line) <|>
    wordBehind? "detail::append(node->" (unindented line)

/-- The class and the tag that a line assigns to the new instance. -/
def chosenTag? (line : List Char) : Option (List Char × List Char) :=
  ("node->tag = ".toList.isPrefixOf? (unindented line)).bind fun value =>
    (wordBehind? "::Tag::" (value.drop (word value).length)).map (word value, ·)

/-- The token that a line declares. -/
def declaredToken? (line : List Char) : Option (List Char) :=
  ("%token ".toList.isPrefixOf? line).map fun rest =>
    word (if rest.head? = some '<' then (rest.dropWhile (· ≠ '>')).drop 2 else rest)

/-! ### Lines that say none of this -/

theorem ruleHead?_of_mem {line : List Char} {c : Char} (hc : Naming.isLetterOrDigit c = false)
    (h : c ∈ line) : ruleHead? line = none := by
  rw [ruleHead?, if_neg]
  exact fun hword => hword.not_mem hc h

theorem ruleHead?_indented (rest : List Char) : ruleHead? (' ' :: rest) = none :=
  ruleHead?_of_mem (c := ' ') (by decide) List.mem_cons_self

theorem declaredToken?_of_head? {line : List Char} (h : line.head? ≠ some '%') :
    declaredToken? line = none := by
  have htoken : "%token ".toList = '%' :: "token ".toList := by decide
  rw [declaredToken?, htoken, isPrefixOf?_of_head? h]
  rfl

theorem declaredToken?_of_not_mem {line : List Char} (h : '%' ∉ line) :
    declaredToken? line = none :=
  declaredToken?_of_head? fun hhead => h (List.mem_of_head? hhead)

theorem declaredToken?_indented (rest : List Char) : declaredToken? (' ' :: rest) = none :=
  declaredToken?_of_head? (by simp)

end ArtifactText

/-! ## Statements -/

namespace Statement

/-- The names in a statement can be told apart from what stands around them. -/
def IsNamed : Statement → Prop
  | makeNode c => IsWord c.toList
  | setTag c tag => IsWord c.toList ∧ IsWord tag.toList
  | setMember member _ | appendMember member _ => IsWord member.toList
  | _ => True

/-- The class of which a statement makes an instance. -/
def made? : Statement → Option String
  | makeNode c => some c
  | _ => none

/-- The member of the new instance to which a statement assigns something. -/
def stored? : Statement → Option String
  | setTag .. => some "tag"
  | setMember member _ | appendMember member _ => some member
  | _ => none

/-- The class and the tag that a statement assigns to the new instance. -/
def chosen? : Statement → Option (String × String)
  | setTag c tag => some (c, tag)
  | _ => none

/-- What a statement begins with. -/
def start : Statement → String
  | makeNode _ => "auto node = std::make_shared<"
  | setTag .. => "node->tag = "
  | setMember .. => "node->"
  | appendMember .. => "detail::append(node->"
  | mergeFragment _ => "if ("
  | yieldNode | yieldSlot _ | yieldNothing => "$$ = "
  | appendSlot _ => "detail::append($$, "
  | prependSlot _ => "detail::prepend($$, "
  | finish _ => "result = "

/-- The line of a statement in an action. -/
def line (st : Statement) : List Char := Page.margin 3 ++ st.display.toList

variable {st : Statement}

theorem toList_display_makeNode (c : String) : (makeNode c).display.toList =
    "auto node = std::make_shared<".toList ++ (c.toList ++ '>' :: "();".toList) := by
  have hdisplay : (makeNode c).display = "auto node = std::make_shared<" ++ c ++ ">();" := rfl
  have hclosing : ">();".toList = '>' :: "();".toList := by decide
  rw [hdisplay, String.toList_append, String.toList_append, List.append_assoc, hclosing]

theorem toList_display_setTag (c tag : String) : (setTag c tag).display.toList =
    "node->tag = ".toList ++ (c.toList ++ ("::Tag::".toList ++ (tag.toList ++ [';']))) := by
  have hdisplay : (setTag c tag).display = "node->tag = " ++ c ++ "::Tag::" ++ tag ++ ";" := rfl
  have hclosing : ";".toList = [';'] := by decide
  rw [hdisplay, String.toList_append, String.toList_append, String.toList_append,
    String.toList_append, List.append_assoc, List.append_assoc, List.append_assoc, hclosing]

theorem toList_display_setMember (member : String) (value : Operand) :
    (setMember member value).display.toList = "node->".toList ++ (member.toList ++
      ' ' :: ("= ".toList ++ (value.display.toList ++ [';']))) := by
  have hdisplay : (setMember member value).display =
      "node->" ++ member ++ " = " ++ value.display ++ ";" := rfl
  have hequals : " = ".toList = ' ' :: "= ".toList := by decide
  have hclosing : ";".toList = [';'] := by decide
  rw [hdisplay, String.toList_append, String.toList_append, String.toList_append,
    String.toList_append, List.append_assoc, List.append_assoc, List.append_assoc, hequals,
    hclosing, List.cons_append]

theorem toList_display_appendMember (member : String) (value : Operand) :
    (appendMember member value).display.toList = "detail::append(node->".toList ++
      (member.toList ++ ',' :: (' ' :: (value.display.toList ++ ");".toList))) := by
  have hdisplay : (appendMember member value).display =
      "detail::append(node->" ++ member ++ ", " ++ value.display ++ ");" := rfl
  have hcomma : ", ".toList = [',', ' '] := by decide
  rw [hdisplay, String.toList_append, String.toList_append, String.toList_append,
    String.toList_append, List.append_assoc, List.append_assoc, List.append_assoc, hcomma,
    List.cons_append, List.singleton_append]

theorem start_prefix_of_eq (rest : String) (h : st.display = st.start ++ rest) :
    st.start.toList <+: st.display.toList := by
  rw [h, String.toList_append]
  exact List.prefix_append _ _

theorem start_prefix_display (st : Statement) : st.start.toList <+: st.display.toList := by
  have hnode : "$$ = ".toList <+: "$$ = node;".toList := by decide
  have hnothing : "$$ = ".toList <+: "$$ = \x7b\x7d;".toList := by decide
  cases st with
  | makeNode c => exact ⟨_, (toList_display_makeNode c).symm⟩
  | setTag c tag => exact ⟨_, (toList_display_setTag c tag).symm⟩
  | setMember member value => exact ⟨_, (toList_display_setMember member value).symm⟩
  | appendMember member value => exact ⟨_, (toList_display_appendMember member value).symm⟩
  | mergeFragment position =>
    have hdisplay : (mergeFragment position).display = "if (" ++ slotName position ++
        ") node->merge_from(*" ++ slotName position ++ ");" := rfl
    refine start_prefix_of_eq (slotName position ++ (") node->merge_from(*" ++
      (slotName position ++ ");"))) ?_
    rw [hdisplay, String.append_assoc, String.append_assoc, String.append_assoc]
    rfl
  | yieldNode => exact hnode
  | yieldNothing => exact hnothing
  | yieldSlot position | finish position =>
    exact start_prefix_of_eq (movedSlot position ++ ";") (String.append_assoc ..)
  | appendSlot position | prependSlot position =>
    exact start_prefix_of_eq (movedSlot position ++ ");") (String.append_assoc ..)

/-- What does not begin like a statement is not read off it. -/
theorem isPrefixOf?_display {other : List Char}
    (h : ¬other <+: st.start.toList ∧ ¬st.start.toList <+: other) :
    other.isPrefixOf? st.display.toList = none := by
  obtain ⟨rest, hrest⟩ := st.start_prefix_display
  rw [← hrest, isPrefixOf?_append_eq_none h.1 h.2]

theorem wordBehind?_display {other : String}
    (h : ¬other.toList <+: st.start.toList ∧ ¬st.start.toList <+: other.toList) :
    wordBehind? other st.display.toList = none := by
  rw [wordBehind?, isPrefixOf?_display h, Option.map_none]

theorem unindented_line (st : Statement) : unindented st.line = st.display.toList := by
  have hstart : st.start.toList ≠ [] ∧ st.start.toList.head? ≠ some ' ' := by
    cases st <;> dsimp only [start] <;> decide
  obtain ⟨c, more, hc⟩ := List.exists_cons_of_ne_nil hstart.1
  have hne : c ≠ ' ' := by
    rintro rfl
    exact hstart.2 (by rw [hc, List.head?_cons])
  obtain ⟨rest, hrest⟩ := st.start_prefix_display
  rw [line, Page.margin, unindented_replicate, ← hrest, hc, List.cons_append, unindented,
    List.dropWhile_cons_of_neg (by simpa using hne)]

theorem madeClass?_line (h : st.IsNamed) : madeClass? st.line = st.made?.map String.toList := by
  rw [madeClass?, unindented_line]
  cases st with
  | makeNode c =>
    have hc : IsWord c.toList := h
    rw [toList_display_makeNode, wordBehind?_append, hc.word_append (by decide)]
    rfl
  | _ => exact wordBehind?_display (by dsimp only [start]; decide)

theorem storedMember?_line (h : st.IsNamed) :
    storedMember? st.line = st.stored?.map String.toList := by
  rw [storedMember?, unindented_line]
  cases st with
  | setTag c tag =>
    have htag : "node->tag = ".toList = "node->".toList ++
        ("tag".toList ++ ' ' :: "= ".toList) := by
      decide
    have hword : IsWord "tag".toList := ⟨by decide, by decide⟩
    rw [toList_display_setTag, htag, List.append_assoc, List.append_assoc, List.cons_append,
      wordBehind?_append, hword.word_append (by decide)]
    rfl
  | setMember member value =>
    have hmember : IsWord member.toList := h
    rw [toList_display_setMember, wordBehind?_append, hmember.word_append (by decide)]
    rfl
  | appendMember member value =>
    have hmember : IsWord member.toList := h
    have hnone : wordBehind? "node->" (appendMember member value).display.toList = none :=
      wordBehind?_display (by dsimp only [start]; decide)
    rw [hnone, toList_display_appendMember, wordBehind?_append, hmember.word_append (by decide)]
    rfl
  | _ =>
    rw [wordBehind?_display (by dsimp only [start]; decide),
      wordBehind?_display (by dsimp only [start]; decide)]
    rfl

theorem exists_display_operand (value : Operand) : ∃ kind ∈ ["move(", "string("], ∃ rest,
    value.display.toList = "std".toList ++ ("::".toList ++ (kind.toList ++ rest)) := by
  have hmove : "std::move(".toList = "std".toList ++ ("::".toList ++ "move(".toList) := by decide
  have hstring : "std::string(".toList = "std".toList ++ ("::".toList ++ "string(".toList) := by
    decide
  cases value with
  | slot position =>
    have hdisplay : (Operand.slot position).display =
        "std::move(" ++ slotName position ++ ")" := rfl
    refine ⟨"move(", List.mem_cons_self, (slotName position).toList ++ ")".toList, ?_⟩
    rw [hdisplay, String.toList_append, String.toList_append, hmove]
    simp only [List.append_assoc]
  | text lexeme =>
    have hdisplay : (Operand.text lexeme).display =
        "std::string(" ++ cppString lexeme ++ ")" := rfl
    refine ⟨"string(", List.mem_cons_of_mem _ List.mem_cons_self,
      (cppString lexeme).toList ++ ")".toList, ?_⟩
    rw [hdisplay, String.toList_append, String.toList_append, hstring]
    simp only [List.append_assoc]

/-- What is stored is not taken for a tag. -/
theorem wordBehind?_operand (value : Operand) (rest : List Char) :
    wordBehind? "::Tag::" ((value.display.toList ++ rest).drop
      (word (value.display.toList ++ rest)).length) = none := by
  have hstd : IsWord "std".toList := ⟨by decide, by decide⟩
  have hcolon : "::".toList = ':' :: ":".toList := by decide
  have htag : "::Tag::".toList = "::".toList ++ "Tag::".toList := by decide
  have hkinds : ∀ kind ∈ ["move(", "string("], ¬"Tag::".toList <+: kind.toList ∧
      ¬kind.toList <+: "Tag::".toList := by
    decide
  obtain ⟨kind, hkind, tail, hvalue⟩ := exists_display_operand value
  have hword : word (value.display.toList ++ rest) = "std".toList := by
    rw [hvalue, hcolon, List.append_assoc, List.cons_append, List.cons_append,
      hstd.word_append (by decide)]
  rw [hword, hvalue, List.append_assoc, List.drop_left, wordBehind?, htag, Option.map_eq_none_iff,
    Option.eq_none_iff_forall_ne_some]
  intro text htext
  have heq := List.isPrefixOf?_eq_some_iff_append_eq.mp htext
  rw [List.append_assoc, List.append_assoc, List.append_cancel_left_eq, List.append_assoc] at heq
  have hprefix := List.isPrefixOf?_eq_some_iff_append_eq.mpr heq
  rw [isPrefixOf?_append_eq_none (hkinds kind hkind).1 (hkinds kind hkind).2] at hprefix
  cases hprefix

theorem chosenTag?_line (h : st.IsNamed) :
    chosenTag? st.line = st.chosen?.map fun choice => (choice.1.toList, choice.2.toList) := by
  rw [chosenTag?, unindented_line]
  cases st with
  | setTag c tag =>
    obtain ⟨hc, htag⟩ := h
    have hcolon : "::Tag::".toList = ':' :: ":Tag::".toList := by decide
    have hword (rest : List Char) : word (c.toList ++ ("::Tag::".toList ++ rest)) = c.toList := by
      rw [hcolon, List.cons_append, hc.word_append (by decide)]
    rw [toList_display_setTag, List.isPrefixOf?_eq_some_iff_append_eq.mpr rfl, Option.bind_some,
      hword, List.drop_left, wordBehind?_append, htag.word_append (by decide)]
    rfl
  | setMember member value =>
    have hmember : IsWord member.toList := h
    have htag : "node->tag = ".toList = "node->".toList ++
        ("tag".toList ++ ' ' :: "= ".toList) := by
      decide
    have hword : IsWord "tag".toList := ⟨by decide, by decide⟩
    refine Option.bind_eq_none_iff.mpr fun text htext => ?_
    have heq := List.isPrefixOf?_eq_some_iff_append_eq.mp htext
    rw [toList_display_setMember, htag, List.append_assoc, List.append_cancel_left_eq,
      List.append_assoc, List.cons_append] at heq
    have hname := congrArg word heq
    rw [hword.word_append (by decide), hmember.word_append (by decide)] at hname
    rw [hname, List.append_cancel_left_eq, List.cons.injEq, List.append_cancel_left_eq] at heq
    rw [heq.2, wordBehind?_operand, Option.map_none]
  | _ =>
    rw [isPrefixOf?_display (by dsimp only [start]; decide)]
    rfl

theorem unbroken_slotName (position : Nat) : '\n' ∉ (slotName position).toList := by
  have hdollar : '\n' ∉ "$".toList := by decide
  have hdigits : '\n' ∉ (toString (position + 1)).toList := by
    rw [Nat.toString_eq_ofList_toDigits, String.toList_ofList]
    intro hmem
    exact absurd (Nat.isDigit_of_mem_toDigits (by decide) (by decide) hmem) (by decide)
  rw [slotName, String.toList_append, List.mem_append, not_or]
  exact ⟨hdollar, hdigits⟩

theorem unbroken_movedSlot (position : Nat) : '\n' ∉ (movedSlot position).toList := by
  have hmoved : movedSlot position = "std::move(" ++ slotName position ++ ")" := rfl
  rw [hmoved]
  simp [unbroken_slotName]

theorem unbroken_operand (value : Operand) : '\n' ∉ value.display.toList := by
  cases value with
  | slot position => exact unbroken_movedSlot position
  | text lexeme =>
    have hdisplay : (Operand.text lexeme).display = "std::string(" ++ cppString lexeme ++ ")" := rfl
    rw [hdisplay]
    simp [unbroken_cppString]

/-- A statement takes one line. -/
theorem isPlain_line (h : st.IsNamed) : (Item.line st.display).IsPlain := by
  have hne : st.display ≠ "" := by
    have hstart : st.start.toList ≠ [] := by cases st <;> dsimp only [start] <;> decide
    obtain ⟨rest, hrest⟩ := st.start_prefix_display
    intro hempty
    rw [hempty] at hrest
    exact hstart (List.append_eq_nil_iff.mp hrest).1
  refine ⟨hne, ?_⟩
  cases st with
  | makeNode c =>
    have hc : IsWord c.toList := h
    rw [toList_display_makeNode]
    simp [hc.unbroken]
  | setTag c tag =>
    rw [toList_display_setTag]
    simp [h.1.unbroken, h.2.unbroken]
  | setMember member value =>
    have hmember : IsWord member.toList := h
    rw [toList_display_setMember]
    simp [hmember.unbroken, unbroken_operand]
  | appendMember member value =>
    have hmember : IsWord member.toList := h
    rw [toList_display_appendMember]
    simp [hmember.unbroken, unbroken_operand]
  | mergeFragment position =>
    have hdisplay : (mergeFragment position).display = "if (" ++ slotName position ++
        ") node->merge_from(*" ++ slotName position ++ ");" := rfl
    rw [hdisplay]
    simp [unbroken_slotName]
  | yieldNode | yieldNothing =>
    dsimp only [display]
    decide
  | yieldSlot position | finish position | appendSlot position | prependSlot position =>
    dsimp only [display]
    simp [unbroken_movedSlot]

end Statement

/-! ## Alternatives -/

namespace BlockAlternative

/-- The names in an alternative can be told apart. -/
structure IsNamed (a : BlockAlternative) : Prop where
  symbols : ∀ symbol ∈ a.symbols, IsWord symbol.toList
  statements : ∀ st ∈ a.statements, st.IsNamed

/-- The symbols behind the mark. -/
def symbolText (a : BlockAlternative) : String :=
  if a.symbols.isEmpty then "%empty" else " ".intercalate a.symbols

/-- The lines of the action. -/
def actionLines (a : BlockAlternative) : List (List Char) :=
  if a.statements = [] then []
  else "        \x7b".toList :: (a.statements.map Statement.line ++ ["        \x7d".toList])

/-- The lines of an alternative. -/
def lines (mark : String) (a : BlockAlternative) : List (List Char) :=
  ("    ".toList ++ (mark ++ " ").toList ++ a.symbolText.toList) :: a.actionLines

variable {a : BlockAlternative} {mark : String}

theorem layout_eq (mark : String) (a : BlockAlternative) :
    a.layout mark = [Item.line (mark ++ " " ++ a.symbolText)] ++
      if a.statements = [] then []
      else Item.indent :: ((Item.opening "" :: a.statements.map (fun st => Item.line st.display) ++
        [Item.closing ""]) ++ [Item.dedent]) := by
  by_cases hempty : a.statements = [] <;> simp [layout, hempty, symbolText]

theorem linesFrom_layout (mark : String) (a : BlockAlternative) :
    Balanced (a.layout mark) ∧ linesFrom 1 (a.layout mark) = a.lines mark := by
  have hmargins : Page.margin 1 = "    ".toList ∧ Page.margin 2 ++ (openingLine "").toList =
      "        \x7b".toList ∧ Page.margin 2 ++ ("\x7d" ++ "").toList = "        \x7d".toList := by
    decide
  have hsymbols : Balanced [.line (mark ++ " " ++ a.symbolText)] :=
    .of_shift (by simp [Item.shift])
  have hstatements : Balanced (a.statements.map fun st => .line st.display) :=
    .of_shift (by simp [Item.shift])
  have hblock := Balanced.block (fun _ => hstatements _) "" ""
  have hfirst : Page.margin 1 ++ (mark ++ " " ++ a.symbolText).toList =
      "    ".toList ++ (mark ++ " ").toList ++ a.symbolText.toList := by
    rw [hmargins.1, String.toList_append, List.append_assoc]
  rw [layout_eq, lines, actionLines]
  split
  · rw [List.append_nil, linesFrom_line, hfirst]
    exact ⟨hsymbols, rfl⟩
  · have hblockLines := linesFrom_block (hstatements (2 + 1)) "" ""
    have hindent (items : List Item) : linesFrom 1 (.indent :: items) = linesFrom 2 items := rfl
    have hdedent : linesFrom 2 [.dedent] = [] := rfl
    rw [linesFrom_map_line, hmargins.2.1, hmargins.2.2] at hblockLines
    refine ⟨hsymbols.append fun level => ?_, ?_⟩
    · rw [List.foldl_cons, List.foldl_append, hblock]
      simp [Item.levelAfter, Item.shift]
    · rw [hsymbols.linesFrom_append, linesFrom_line, hindent, hblock.linesFrom_append, hblockLines,
        hdedent, hfirst, List.append_nil]
      rfl

/-- An action is indented twice as far as a body. -/
theorem exists_of_mem_actionLines {line : List Char} (h : line ∈ a.actionLines) :
    ∃ rest, line = "        ".toList ++ rest := by
  have hbraces : "        \x7b".toList = "        ".toList ++ ['\x7b'] ∧
      "        \x7d".toList = "        ".toList ++ ['\x7d'] := by
    decide
  have hmargin : Page.margin 3 = "        ".toList ++ "    ".toList := by decide
  unfold actionLines at h
  split at h
  · cases h
  · rcases List.mem_cons.mp h with rfl | h
    · exact ⟨_, hbraces.1⟩
    rcases List.mem_append.mp h with hstatement | hlast
    · obtain ⟨st, -, rfl⟩ := List.mem_map.mp hstatement
      exact ⟨_, by rw [Statement.line, hmargin, List.append_assoc]⟩
    · exact ⟨_, (List.mem_singleton.mp hlast).trans hbraces.2⟩

theorem bodySymbols?_actionLines {line : List Char} (h : line ∈ a.actionLines) :
    bodySymbols? line = none := by
  have hcolon : ¬"    : ".toList <+: "        ".toList ∧
      ¬"        ".toList <+: "    : ".toList := by
    decide
  have hbar : ¬"    | ".toList <+: "        ".toList ∧ ¬"        ".toList <+: "    | ".toList := by
    decide
  obtain ⟨rest, rfl⟩ := exists_of_mem_actionLines h
  rw [bodySymbols?, isPrefixOf?_append_eq_none hcolon.1 hcolon.2,
    isPrefixOf?_append_eq_none hbar.1 hbar.2]
  rfl

/-- The symbols of a body are read off their line. -/
theorem bodySymbols?_symbolText (h : a.IsNamed) :
    (if a.symbolText.toList = "%empty".toList then []
      else a.symbolText.toList.splitOn ' ') = a.symbols.map String.toList := by
  have hpercent : '%' ∈ "%empty".toList := by decide
  have hblank : " ".toList = [' '] := by decide
  by_cases hempty : a.symbols = []
  · rw [symbolText, if_pos (List.isEmpty_iff.mpr hempty), if_pos rfl, hempty, List.map_nil]
  · have hne : a.symbols.map String.toList ≠ [] := by simpa using hempty
    have hclear {c : Char} (hc : Naming.isLetterOrDigit c = false) :
        ∀ symbol ∈ a.symbols.map String.toList, c ∉ symbol :=
      List.forall_mem_map.mpr fun symbol hsymbol => (h.symbols symbol hsymbol).not_mem hc
    have htext : a.symbolText.toList = [' '].intercalate (a.symbols.map String.toList) := by
      rw [symbolText, if_neg (by simpa using hempty), String.toList_intercalate, hblank]
    rw [htext, if_neg, List.splitOn_intercalate _ (hclear (by decide)) hne]
    intro heq
    rw [← heq] at hpercent
    exact not_mem_intercalate (by decide) (hclear (by decide)) hpercent

theorem bodySymbols?_line (h : a.IsNamed) (hmark : mark = ":" ∨ mark = "|") :
    bodySymbols? ("    ".toList ++ (mark ++ " ").toList ++ a.symbolText.toList) =
      some (a.symbols.map String.toList) := by
  have hcolon : "    ".toList ++ (":" ++ " ").toList = "    : ".toList := by decide
  have hbar : "    ".toList ++ ("|" ++ " ").toList = "    | ".toList := by decide
  have hmarks : ¬"    : ".toList <+: "    | ".toList ∧ ¬"    | ".toList <+: "    : ".toList := by
    decide
  rw [bodySymbols?, ← bodySymbols?_symbolText h]
  rcases hmark with rfl | rfl
  · rw [hcolon, List.isPrefixOf?_eq_some_iff_append_eq.mpr rfl]
    rfl
  · rw [hbar, isPrefixOf?_append_eq_none hmarks.1 hmarks.2,
      List.isPrefixOf?_eq_some_iff_append_eq.mpr rfl]
    rfl

/-- An alternative is read off its lines. -/
theorem alternatives_lines (h : a.IsNamed) (hmark : mark = ":" ∨ mark = "|")
    {rest : List (List Char)} (hrest : ∀ line ∈ rest.head?, (bodySymbols? line).isSome = true) :
    alternatives (a.lines mark ++ rest) =
      (a.symbols.map String.toList, a.actionLines) :: alternatives rest := by
  refine blocks_cons (bodySymbols?_line h hmark) (fun line hline => ?_) hrest
  rw [bodySymbols?_actionLines hline]
  exact ⟨rfl, rfl⟩

theorem exists_of_mem_lines (hmark : mark = ":" ∨ mark = "|") {line : List Char}
    (h : line ∈ a.lines mark) : ∃ c rest, line = "    ".toList ++ c :: rest ∧ c ≠ ';' := by
  have hcolon : "    ".toList ++ (":" ++ " ").toList = "    ".toList ++ [':', ' '] := by decide
  have hbar : "    ".toList ++ ("|" ++ " ").toList = "    ".toList ++ ['|', ' '] := by decide
  have hindented : "        ".toList = "    ".toList ++ [' ', ' ', ' ', ' '] := by decide
  rcases List.mem_cons.mp h with rfl | haction
  · rcases hmark with rfl | rfl
    · exact ⟨':', _, by rw [hcolon, List.append_assoc]; rfl, by decide⟩
    · exact ⟨'|', _, by rw [hbar, List.append_assoc]; rfl, by decide⟩
  · obtain ⟨rest, rfl⟩ := exists_of_mem_actionLines haction
    exact ⟨' ', _, by rw [hindented, List.append_assoc]; rfl, by decide⟩

theorem isPlain_layout (h : a.IsNamed) (hmark : mark = ":" ∨ mark = "|") :
    ∀ item ∈ a.layout mark, item.IsPlain := by
  have hmarks : '\n' ∉ mark.toList ∧ mark ≠ "" := by rcases hmark with rfl | rfl <;> decide
  have hsymbols : '\n' ∉ a.symbolText.toList := by
    rw [symbolText]
    split
    · decide
    · rw [String.toList_intercalate]
      exact not_mem_intercalate (by decide) (List.forall_mem_map.mpr fun symbol hsymbol =>
        (h.symbols symbol hsymbol).unbroken)
  have hfirst : (Item.line (mark ++ " " ++ a.symbolText)).IsPlain := by
    simp [Item.IsPlain, hmarks, hsymbols]
  have hstatements : ∀ item ∈ a.statements.map fun st => Item.line st.display, item.IsPlain :=
    List.forall_mem_map.mpr fun st hst => Statement.isPlain_line (h.statements st hst)
  rw [layout_eq, List.forall_mem_append, List.forall_mem_singleton]
  refine ⟨hfirst, ?_⟩
  split
  · exact List.forall_mem_nil _
  · simp only [List.forall_mem_append, List.forall_mem_cons]
    exact ⟨trivial, ⟨⟨List.not_mem_nil, hstatements⟩, List.not_mem_nil, List.forall_mem_nil _⟩,
      trivial, List.forall_mem_nil _⟩

end BlockAlternative

/-! ## Rules -/

namespace RuleBlock

/-- The names in a rule can be told apart. -/
structure IsNamed (b : RuleBlock) : Prop where
  name : IsWord b.name.toList
  alternatives : ∀ a ∈ b.alternatives, a.IsNamed

/-- The lines of the alternatives. -/
def bodyLines (b : RuleBlock) : List (List Char) :=
  match b.alternatives with
  | [] => []
  | first :: rest => first.lines ":" ++ rest.flatMap (BlockAlternative.lines "|")

variable {b : RuleBlock}

/-- The items of the alternatives. -/
def bodyItems (b : RuleBlock) : List Item :=
  match b.alternatives with
  | [] => []
  | first :: rest => first.layout ":" ++ rest.flatMap (BlockAlternative.layout "|")

theorem layout_eq (b : RuleBlock) :
    b.layout = [Item.line b.name] ++
      (Item.indent :: (b.bodyItems ++ [Item.line ";", Item.dedent, Item.blank])) := by
  unfold layout bodyItems
  cases b.alternatives <;> simp

theorem linesFrom_bodyItems (b : RuleBlock) :
    Balanced b.bodyItems ∧ linesFrom 1 b.bodyItems = b.bodyLines := by
  unfold bodyItems bodyLines
  split
  · exact ⟨fun _ => rfl, rfl⟩
  · next first rest halternatives =>
    obtain ⟨hfirst, hfirstLines⟩ := BlockAlternative.linesFrom_layout ":" first
    have hrest := Balanced.flatMap (fun a => (BlockAlternative.linesFrom_layout "|" a).1) rest
    refine ⟨hfirst.append hrest, ?_⟩
    rw [hfirst.linesFrom_append, hfirstLines,
      Balanced.linesFrom_flatMap fun a => (BlockAlternative.linesFrom_layout "|" a).1]
    simp only [fun a => (BlockAlternative.linesFrom_layout "|" a).2]

theorem linesFrom_layout (b : RuleBlock) : Balanced b.layout ∧
    linesFrom 0 b.layout = b.name.toList :: (b.bodyLines ++ ["    ;".toList]) := by
  have hname : Balanced [.line b.name] := .of_shift (by simp [Item.shift])
  have hindent (items : List Item) : linesFrom 0 (.indent :: items) = linesFrom 1 items := rfl
  have hclosing : linesFrom 1 [.line ";", .dedent, .blank] = ["    ;".toList] := by decide
  obtain ⟨hbody, hlines⟩ := b.linesFrom_bodyItems
  rw [layout_eq]
  refine ⟨hname.append fun level => ?_, ?_⟩
  · rw [List.foldl_cons, List.foldl_append, hbody]
    simp [Item.levelAfter, Item.shift]
  · rw [hname.linesFrom_append, linesFrom_line, hindent, hbody.linesFrom_append, hlines, hclosing]
    rfl

/-- The alternatives behind the first one are read off their lines. -/
theorem alternatives_flatMap {rest : List BlockAlternative} (h : ∀ a ∈ rest, a.IsNamed) :
    ArtifactText.alternatives (rest.flatMap (BlockAlternative.lines "|")) =
      rest.map (fun a => (a.symbols.map String.toList, a.actionLines)) ∧
    ∀ line ∈ (rest.flatMap (BlockAlternative.lines "|")).head?,
      (bodySymbols? line).isSome = true := by
  induction rest with
  | nil => exact ⟨rfl, by simp⟩
  | cons a more ih =>
    obtain ⟨ha, hmore⟩ := List.forall_mem_cons.mp h
    obtain ⟨hread, hhead⟩ := ih hmore
    rw [List.flatMap_cons]
    refine ⟨?_, ?_⟩
    · rw [BlockAlternative.alternatives_lines ha (.inr rfl) hhead, hread, List.map_cons]
    · rw [BlockAlternative.lines, List.cons_append, List.head?_cons]
      intro line hline
      obtain rfl := Option.some.inj hline
      rw [BlockAlternative.bodySymbols?_line ha (.inr rfl)]
      rfl

/-- The alternatives of a rule are read off its lines. -/
theorem alternatives_bodyLines (h : b.IsNamed) : ArtifactText.alternatives b.bodyLines =
    b.alternatives.map fun a => (a.symbols.map String.toList, a.actionLines) := by
  unfold bodyLines
  split
  · next halternatives =>
    rw [halternatives]
    rfl
  · next first rest halternatives =>
    obtain ⟨hfirst, hrest⟩ := List.forall_mem_cons.mp (halternatives ▸ h.alternatives)
    obtain ⟨hread, hhead⟩ := alternatives_flatMap hrest
    rw [BlockAlternative.alternatives_lines hfirst (.inl rfl) hhead, hread, halternatives,
      List.map_cons]

theorem exists_of_mem_bodyLines {line : List Char} (h : line ∈ b.bodyLines) :
    ∃ c rest, line = "    ".toList ++ c :: rest ∧ c ≠ ';' := by
  unfold bodyLines at h
  split at h
  · cases h
  rcases List.mem_append.mp h with hfirst | hrest
  · exact BlockAlternative.exists_of_mem_lines (.inl rfl) hfirst
  · obtain ⟨a, -, hline⟩ := List.mem_flatMap.mp hrest
    exact BlockAlternative.exists_of_mem_lines (.inr rfl) hline

/-- A line of an alternative neither begins a rule nor ends one. -/
theorem ruleHead?_bodyLines {line : List Char} (h : line ∈ b.bodyLines) :
    ruleHead? line = none ∧ (line == "    ;".toList) = false := by
  have hblank : ' ' ∈ "    ".toList := by decide
  have hclosing : "    ;".toList = "    ".toList ++ [';'] := by decide
  obtain ⟨c, rest, rfl, hc⟩ := exists_of_mem_bodyLines h
  refine ⟨ruleHead?_of_mem (c := ' ') (by decide) (List.mem_append_left _ hblank), ?_⟩
  rw [beq_eq_false_iff_ne, hclosing, ne_eq, List.append_cancel_left_eq, List.cons.injEq]
  exact fun heq => hc heq.1

/-- A rule is read off its lines. -/
theorem rules_layout (h : b.IsNamed) (rest : List (List Char)) :
    rules (linesFrom 0 b.layout ++ rest) = (b.name.toList, b.bodyLines) :: rules rest := by
  have hclosing : ruleHead? "    ;".toList = none ∧ ("    ;".toList == "    ;".toList) = true := by
    decide
  rw [b.linesFrom_layout.2]
  exact blocks_block (if_pos h.name) (fun _ => ruleHead?_bodyLines) hclosing rest

/-- No line of a rule declares a token. -/
theorem declaredToken?_layout (h : b.IsNamed) {line : List Char}
    (hline : line ∈ linesFrom 0 b.layout) : declaredToken? line = none := by
  have hblank : "    ".toList = ' ' :: "   ".toList := by decide
  have hclosing : declaredToken? "    ;".toList = none := by decide
  rw [b.linesFrom_layout.2] at hline
  rcases List.mem_cons.mp hline with rfl | hline
  · exact declaredToken?_of_not_mem (h.name.not_mem (by decide))
  rcases List.mem_append.mp hline with hbody | hlast
  · obtain ⟨c, rest, rfl, -⟩ := exists_of_mem_bodyLines hbody
    rw [hblank]
    exact declaredToken?_indented _
  · rw [List.mem_singleton.mp hlast]
    exact hclosing

theorem isPlain_layout (h : b.IsNamed) : ∀ item ∈ b.layout, item.IsPlain := by
  have hname : (Item.line b.name).IsPlain := ⟨by simpa using h.name.1, h.name.unbroken⟩
  have hclosing : (Item.line ";").IsPlain := by decide
  have hbody : ∀ item ∈ b.bodyItems, item.IsPlain := by
    unfold bodyItems
    split
    · exact List.forall_mem_nil _
    · next first rest halternatives =>
      obtain ⟨hfirst, hrest⟩ := List.forall_mem_cons.mp (halternatives ▸ h.alternatives)
      rw [List.forall_mem_append, List.forall_mem_flatMap]
      exact ⟨BlockAlternative.isPlain_layout hfirst (.inl rfl),
        fun a ha => BlockAlternative.isPlain_layout (hrest a ha) (.inr rfl)⟩
  rw [layout_eq]
  simp only [List.forall_mem_append, List.forall_mem_cons]
  exact ⟨⟨hname, List.forall_mem_nil _⟩, trivial, hbody, hclosing, trivial, trivial,
    List.forall_mem_nil _⟩

end RuleBlock

/-! ## The parser grammar -/

theorem TokenEntry.ruleHead?_declaration (e : TokenEntry) :
    ruleHead? e.declaration.toList = none := by
  unfold declaration
  split <;> exact ruleHead?_of_mem (c := '%') (by decide) (by simp)

theorem TokenEntry.declaredToken?_declaration {e : TokenEntry} (h : IsWord e.name.toList) :
    declaredToken? e.declaration.toList = some e.name.toList := by
  have hopening : "%token <".toList = "%token ".toList ++ ['<'] := by decide
  have hclosing : "> ".toList = ['>', ' '] := by decide
  have hblank : " ".toList = [' '] := by decide
  have hname (rest : List Char) : word (e.name.toList ++ ' ' :: rest) = e.name.toList :=
    h.word_append (by decide) rest
  unfold declaration
  cases e.value? with
  | none =>
    have hhead (rest : List Char) : (e.name.toList ++ rest).head? ≠ some '<' := by
      obtain ⟨c, more, hc⟩ := List.exists_cons_of_ne_nil h.1
      have hne : c ≠ '<' := by
        rintro rfl
        exact h.not_mem (c := '<') (by decide) (hc ▸ List.mem_cons_self)
      rw [hc, List.cons_append, List.head?_cons]
      simpa using hne
    simp only [String.toList_append, List.append_assoc]
    rw [declaredToken?, List.isPrefixOf?_eq_some_iff_append_eq.mpr rfl, Option.map_some,
      if_neg (hhead _), hblank, List.singleton_append, hname]
  | some p =>
    have htype : ('<' :: p.cppType.toList).all (fun c => decide (c ≠ '>')) = true := by
      cases p <;> decide
    have hrest : "%token ".toList.isPrefixOf? ("%token <" ++ p.cppType ++ "> " ++ e.name ++ " " ++
        cppString e.describe).toList = some (('<' :: p.cppType.toList) ++
          ('>' :: ' ' :: (e.name.toList ++ ' ' :: (cppString e.describe).toList))) := by
      apply List.isPrefixOf?_eq_some_iff_append_eq.mpr
      simp only [String.toList_append, List.append_assoc, hopening, hclosing, hblank,
        List.cons_append, List.nil_append]
    rw [declaredToken?, hrest, Option.map_some, if_pos (by simp),
      List.dropWhile_append_of_pos (List.all_eq_true.mp htype),
      List.dropWhile_cons_of_neg (by simp)]
    exact congrArg some (hname _)

namespace ArtifactSource

variable {s : ArtifactSource} {blocks : List RuleBlock}

/-- What stands in the parser grammar in front of the tokens. -/
def prologueItems (s : ArtifactSource) : List Item :=
  s.settingsLayout ++ (s.codeLayout ++ s.resultLayout)

/-- What stands between the tokens and the rules. -/
def typeItems (s : ArtifactSource) : List Item :=
  [Item.blank] ++ s.nonterminalTypes.map
    (fun entry => Item.line ("%type <" ++ entry.1 ++ "> " ++ entry.2)) ++
    [Item.blank, Item.line ("%start " ++ (s.productions.nonterminal s.productions.start).name),
      Item.blank, Item.line "%%", Item.blank]

/-- The parser grammar without its notice. -/
def grammarItems (s : ArtifactSource) (blocks : List RuleBlock) : List Item :=
  s.prologueItems ++ (s.catalog.entries.map (fun e => Item.line e.declaration) ++ (s.typeItems ++
    (blocks.flatMap RuleBlock.layout ++ s.reportLayout)))

theorem grammarLayout_eq (h : s.ruleBlocks = .ok blocks) :
    s.grammarLayout = .ok (s.opening .line ++ s.grammarItems blocks) := by
  rw [grammarLayout, h]
  simp [grammarItems, prologueItems, symbolLayout, typeItems]

theorem shift_prologueItems (s : ArtifactSource) : ∀ item ∈ s.prologueItems, item.shift = 0 := by
  have hresult : ∀ item ∈ s.resultLayout, item.shift = 0 := by
    unfold resultLayout
    dsimp only
    split <;> simp [Item.shift]
  simp only [prologueItems, List.forall_mem_append]
  exact ⟨by simp [settingsLayout, Item.shift], by simp [codeLayout, includeLine, Item.shift],
    hresult⟩

theorem shift_typeItems (s : ArtifactSource) : ∀ item ∈ s.typeItems, item.shift = 0 := by
  simp only [typeItems, List.forall_mem_append, List.forall_mem_map]
  simp [Item.shift]

theorem linesFrom_grammarItems (s : ArtifactSource) (blocks : List RuleBlock) :
    linesFrom 0 (s.grammarItems blocks) = linesFrom 0 s.prologueItems ++
      (s.catalog.entries.map (·.declaration.toList) ++ (linesFrom 0 s.typeItems ++
        (blocks.flatMap (fun b => linesFrom 0 b.layout) ++ linesFrom 0 s.reportLayout))) := by
  have htokens : Balanced (s.catalog.entries.map fun e => .line e.declaration) :=
    .of_shift (by simp [Item.shift])
  have hblocks := Balanced.flatMap (fun b : RuleBlock => b.linesFrom_layout.1) blocks
  rw [grammarItems, (Balanced.of_shift s.shift_prologueItems).linesFrom_append,
    htokens.linesFrom_append, (Balanced.of_shift s.shift_typeItems).linesFrom_append,
    hblocks.linesFrom_append, linesFrom_map_line,
    Balanced.linesFrom_flatMap fun b : RuleBlock => b.linesFrom_layout.1]
  rfl

/-- What lines in front of the rules and behind them begin with. -/
def settingStarts : List String :=
  ["%require ", "%language ", "%defines ", "%define ", "%code ", "%parse-param ", "#include ",
    "\x7d", "%type ", "%start ", "%%"]

/-- The line that announces the scanner. -/
def scannerLine (s : ArtifactSource) : String :=
  s.model.namespaceName ++ "::parser::symbol_type yylex();"

theorem starts_settings : ∀ item ∈ s.prologueItems ++ s.typeItems, ∀ text ∈ item.text?,
    (settingStarts.any fun start => start.toList.isPrefixOf text) = true ∨
      text = s.scannerLine.toList := by
  have hresult : ∀ item ∈ s.resultLayout, ∀ text ∈ item.text?,
      (settingStarts.any fun start => start.toList.isPrefixOf text) = true := by
    unfold resultLayout
    dsimp only
    split <;> simp [Item.text?, settingStarts]
  simp only [prologueItems, typeItems, List.forall_mem_append, List.forall_mem_map]
  refine ⟨⟨?_, ?_, ?_⟩, ⟨?_, ?_⟩, ?_⟩
  · simp [settingsLayout, Item.text?, settingStarts]
  · simp [codeLayout, includeLine, Item.text?, settingStarts, scannerLine]
  · exact fun item hitem text htext => .inl (hresult item hitem text htext)
  · simp [Item.text?]
  · simp [Item.text?, settingStarts]
  · simp [Item.text?, settingStarts]

/-- A line that begins like a setting says nothing of rules and tokens. -/
theorem read_setting {line : List Char}
    (h : (settingStarts.any fun start => start.toList.isPrefixOf line) = true) :
    ruleHead? line = none ∧ declaredToken? line = none := by
  have hstarts : ∀ start ∈ settingStarts,
      (start.toList.any fun c => !Naming.isLetterOrDigit c) = true ∧
        ¬"%token ".toList <+: start.toList ∧ ¬start.toList <+: "%token ".toList := by
    decide
  obtain ⟨start, hmem, hprefix⟩ := List.any_eq_true.mp h
  obtain ⟨hother, htoken, htoken'⟩ := hstarts start hmem
  obtain ⟨c, hc, hcharacter⟩ := List.any_eq_true.mp hother
  obtain ⟨rest, rfl⟩ := List.isPrefixOf_iff_prefix.mp hprefix
  refine ⟨ruleHead?_of_mem (by simpa using hcharacter) (List.mem_append_left _ hc), ?_⟩
  rw [declaredToken?, isPrefixOf?_append_eq_none htoken htoken', Option.map_none]

theorem read_settings (hspace : IsType s.model.namespaceName.toList) :
    ∀ item ∈ s.prologueItems ++ s.typeItems, ∀ text ∈ item.text?,
      ruleHead? text = none ∧ declaredToken? text = none := by
  have hpercent : '%' ∉ s.model.namespaceName.toList := hspace.not_mem (by decide)
  intro item hitem text htext
  rcases starts_settings item hitem text htext with hstart | rfl
  · exact read_setting hstart
  · exact ⟨ruleHead?_of_mem (c := ';') (by decide) (by simp [scannerLine]),
      declaredToken?_of_not_mem (by simp [scannerLine, hpercent])⟩

theorem read_report (hspace : IsType s.model.namespaceName.toList) :
    ∀ item ∈ s.reportLayout, ∀ text ∈ item.text?,
      ruleHead? text = none ∧ declaredToken? text = none := by
  have hpercent : '%' ∉ s.model.namespaceName.toList := hspace.not_mem (by decide)
  have hmarker : ruleHead? "%%".toList = none ∧ declaredToken? "%%".toList = none := by decide
  have hmessage : ruleHead? "std::cerr << message << '\\n';".toList = none ∧
      declaredToken? "std::cerr << message << '\\n';".toList = none := by
    decide
  have hbrace : ruleHead? ("\x7d" ++ "").toList = none ∧
      declaredToken? ("\x7d" ++ "").toList = none := by
    decide
  have hheader : ruleHead? (openingLine ("void " ++ s.model.namespaceName ++
      "::parser::error(const std::string& message)")).toList = none ∧
        declaredToken? (openingLine ("void " ++ s.model.namespaceName ++
          "::parser::error(const std::string& message)")).toList = none := by
    rw [toList_openingLine (by simp)]
    exact ⟨ruleHead?_of_mem (c := '(') (by decide) (by simp),
      declaredToken?_of_not_mem (by simp [hpercent])⟩
  simp only [reportLayout, List.forall_mem_cons, Item.text?, Option.mem_def, Option.some.injEq,
    forall_eq']
  exact ⟨hmarker, by simp, hheader, hmessage, hbrace, List.forall_mem_nil _⟩

/-- The rules are read off the parser grammar. -/
theorem rules_grammarItems (h : ∀ b ∈ blocks, b.IsNamed)
    (hspace : IsType s.model.namespaceName.toList) :
    rules (linesFrom 0 (s.grammarItems blocks)) =
      blocks.map fun b => (b.name.toList, b.bodyLines) := by
  have hsettings := List.forall_mem_append.mp (read_settings hspace)
  have hprologue : ∀ line ∈ linesFrom 0 s.prologueItems, ruleHead? line = none :=
    read_linesFrom_eq_none ruleHead?_indented fun item hitem text htext =>
      (hsettings.1 item hitem text htext).1
  have htypes : ∀ line ∈ linesFrom 0 s.typeItems, ruleHead? line = none :=
    read_linesFrom_eq_none ruleHead?_indented fun item hitem text htext =>
      (hsettings.2 item hitem text htext).1
  have hreport : ∀ line ∈ linesFrom 0 s.reportLayout, ruleHead? line = none :=
    read_linesFrom_eq_none ruleHead?_indented fun item hitem text htext =>
      (read_report hspace item hitem text htext).1
  have htokens : ∀ line ∈ s.catalog.entries.map (·.declaration.toList), ruleHead? line = none :=
    List.forall_mem_map.mpr fun e _ => e.ruleHead?_declaration
  have hblocks (rest : List (List Char)) :
      rules (blocks.flatMap (fun b => linesFrom 0 b.layout) ++ rest) =
        blocks.map (fun b => (b.name.toList, b.bodyLines)) ++ rules rest := by
    induction blocks with
    | nil => rfl
    | cons b more ih =>
      obtain ⟨hb, hmore⟩ := List.forall_mem_cons.mp h
      rw [List.flatMap_cons, List.append_assoc, RuleBlock.rules_layout hb, ih hmore, List.map_cons,
        List.cons_append]
  rw [linesFrom_grammarItems, rules, blocks_append hprologue, blocks_append htokens,
    blocks_append htypes]
  refine (hblocks _).trans ?_
  rw [rules, blocks_eq_nil hreport, List.append_nil]

/-- The tokens are read off the parser grammar. -/
theorem filterMap_declaredToken?_grammarItems (h : ∀ b ∈ blocks, b.IsNamed)
    (htokens : ∀ e ∈ s.catalog.entries, IsWord e.name.toList)
    (hspace : IsType s.model.namespaceName.toList) :
    (linesFrom 0 (s.grammarItems blocks)).filterMap declaredToken? =
      s.catalog.entries.map (·.name.toList) := by
  have hsettings := List.forall_mem_append.mp (read_settings hspace)
  have hprologue : (linesFrom 0 s.prologueItems).filterMap declaredToken? = [] :=
    List.filterMap_eq_nil_iff.mpr <| read_linesFrom_eq_none declaredToken?_indented
      fun item hitem text htext => (hsettings.1 item hitem text htext).2
  have htypes : (linesFrom 0 s.typeItems).filterMap declaredToken? = [] :=
    List.filterMap_eq_nil_iff.mpr <| read_linesFrom_eq_none declaredToken?_indented
      fun item hitem text htext => (hsettings.2 item hitem text htext).2
  have hreport : (linesFrom 0 s.reportLayout).filterMap declaredToken? = [] :=
    List.filterMap_eq_nil_iff.mpr <| read_linesFrom_eq_none declaredToken?_indented
      fun item hitem text htext => (read_report hspace item hitem text htext).2
  have hblocks : (blocks.flatMap fun b => linesFrom 0 b.layout).filterMap declaredToken? = [] := by
    refine List.filterMap_eq_nil_iff.mpr fun line hline => ?_
    obtain ⟨b, hb, hline⟩ := List.mem_flatMap.mp hline
    exact RuleBlock.declaredToken?_layout (h b hb) hline
  have hnames : (s.catalog.entries.map (·.declaration.toList)).filterMap declaredToken? =
      s.catalog.entries.map (·.name.toList) := by
    rw [List.filterMap_map, ← List.filterMap_eq_map]
    exact List.filterMap_congr fun e he => TokenEntry.declaredToken?_declaration (htokens e he)
  rw [linesFrom_grammarItems]
  simp only [List.filterMap_append, hprologue, htypes, hreport, hblocks, hnames, List.nil_append,
    List.append_nil]

theorem isPlain_prologueItems
    (htypes : ∀ content, ∀ type ∈ s.model.contentType? content, IsType type.toList)
    (hspace : IsType s.model.namespaceName.toList) : ∀ item ∈ s.prologueItems, item.IsPlain := by
  have hresult : ∀ item ∈ s.resultLayout, item.IsPlain := by
    unfold resultLayout
    dsimp only
    split
    · next type htype => simp [Item.IsPlain, (htypes _ type htype).unbroken]
    · simp
  simp only [prologueItems, List.forall_mem_append]
  refine ⟨?_, ?_, hresult⟩
  · simp [settingsLayout, Item.IsPlain, unbroken_cppString, hspace.unbroken]
  · simp [codeLayout, includeLine, Item.IsPlain, unbroken_cppString, hspace.unbroken]

theorem isPlain_typeItems
    (htypes : ∀ content, ∀ type ∈ s.model.contentType? content, IsType type.toList)
    (hnames : ∀ n ∈ s.productions.nonterminals, IsWord n.name.toList)
    (hstart : IsType (s.productions.nonterminal s.productions.start).name.toList) :
    ∀ item ∈ s.typeItems, item.IsPlain := by
  have hentries : ∀ entry ∈ s.nonterminalTypes,
      (Item.line ("%type <" ++ entry.1 ++ "> " ++ entry.2)).IsPlain := by
    intro entry hentry
    obtain ⟨n, hn, hentry⟩ := List.mem_filterMap.mp hentry
    split at hentry
    · cases hentry
    · obtain ⟨type, htype, rfl⟩ := Option.map_eq_some_iff.mp hentry
      have hname := (hnames n (Array.mem_toList_iff.mp hn)).unbroken
      simp [Item.IsPlain, (htypes _ type htype).unbroken, hname]
  simp only [typeItems, List.forall_mem_append, List.forall_mem_map]
  exact ⟨⟨by simp [Item.IsPlain], hentries⟩, by simp [Item.IsPlain, hstart.unbroken]⟩

/-- No item of the parser grammar writes more than one line. -/
theorem isPlain_grammarItems (h : ∀ b ∈ blocks, b.IsNamed)
    (htokens : ∀ e ∈ s.catalog.entries, IsWord e.name.toList)
    (htypes : ∀ content, ∀ type ∈ s.model.contentType? content, IsType type.toList)
    (hnames : ∀ n ∈ s.productions.nonterminals, IsWord n.name.toList)
    (hstart : IsType (s.productions.nonterminal s.productions.start).name.toList)
    (hspace : IsType s.model.namespaceName.toList) :
    ∀ item ∈ s.grammarItems blocks, item.IsPlain := by
  have hdeclarations : ∀ item ∈ s.catalog.entries.map fun e => Item.line e.declaration,
      item.IsPlain := by
    refine List.forall_mem_map.mpr fun e he => ?_
    have htype (p : Primitive) : '\n' ∉ p.cppType.toList := by cases p <;> decide
    unfold TokenEntry.declaration
    split <;> simp [Item.IsPlain, (htokens e he).unbroken, unbroken_cppString, htype]
  have hreport : ∀ item ∈ s.reportLayout, item.IsPlain := by
    simp [reportLayout, Item.IsPlain, hspace.unbroken]
  simp only [grammarItems, List.forall_mem_append, List.forall_mem_flatMap]
  exact ⟨isPlain_prologueItems htypes hspace, hdeclarations,
    isPlain_typeItems htypes hnames hstart, fun b hb => RuleBlock.isPlain_layout (h b hb), hreport⟩

end ArtifactSource

end AnnotatedGrammar
