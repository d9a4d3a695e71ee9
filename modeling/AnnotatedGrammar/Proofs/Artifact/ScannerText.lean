import AnnotatedGrammar.Artifact.Scanner
import AnnotatedGrammar.Proofs.Artifact.Lines
import AnnotatedGrammar.Proofs.Artifact.Quoting
import AnnotatedGrammar.Proofs.Artifact.Reading

/-!
# What the scanner returns

The tokens that the rules of the scanner return are read off its lines. The action of a rule stands
behind the last opening brace of its line, since a pattern may have braces in it but the code of an
action has none.
-/

namespace AnnotatedGrammar

open Layout ArtifactText

/-! ## Reading -/

namespace ArtifactText

/-- The rules of a scanner: the lines between two marks. -/
def scannerRules (scanner : List (List Char)) : List (List Char) :=
  ((scanner.dropWhile (· ≠ "%%".toList)).drop 1).takeWhile (· ≠ "%%".toList)

/-- What the line of a rule calls to return a token to a parser in the given namespace. -/
def tokenCall (namespaceName : String) : String := " return " ++ namespaceName ++ "::parser::make_"

/-- The token that the line of a rule returns. -/
def returnedToken? (namespaceName : String) (line : List Char) : Option (List Char) :=
  wordBehind? (tokenCall namespaceName) (line.reverse.takeWhile (· ≠ '\x7b')).reverse

/-- The action stands behind the last brace. -/
theorem returnedToken?_append {namespaceName : String} {front action : List Char}
    (h : '\x7b' ∉ action) : returnedToken? namespaceName (front ++ '\x7b' :: action) =
      wordBehind? (tokenCall namespaceName) action := by
  have haction : ∀ c ∈ action.reverse, decide (c ≠ '\x7b') = true := fun c hc =>
    decide_eq_true fun heq => h (heq ▸ List.mem_reverse.mp hc)
  rw [returnedToken?, List.reverse_append, List.reverse_cons, List.append_assoc,
    List.takeWhile_append_of_pos haction, List.singleton_append,
    List.takeWhile_cons_of_neg (by simp), List.append_nil, List.reverse_reverse]

theorem scannerRules_append {front lines : List (List Char)} (hfront : "%%".toList ∉ front)
    (hlines : "%%".toList ∉ lines) :
    scannerRules (front ++ "%%".toList :: (lines ++ ["%%".toList])) = lines := by
  have hne {lines : List (List Char)} (h : "%%".toList ∉ lines) :
      ∀ line ∈ lines, decide (line ≠ "%%".toList) = true := fun line hline =>
    decide_eq_true fun heq => h (heq ▸ hline)
  rw [scannerRules, List.dropWhile_append_of_pos (hne hfront),
    List.dropWhile_cons_of_neg (by simp), List.drop_succ_cons, List.drop_zero,
    List.takeWhile_append_of_pos (hne hlines), List.takeWhile_cons_of_neg (by simp),
    List.append_nil]

end ArtifactText

/-! ## One rule -/

namespace ScannerRule

/-- The function that a rule of the scanner calls to make a token, without its prefix. -/
def made? (r : ScannerRule) : Option String :=
  match r.action with
  | .token name _ => some name
  | .finish => some "YYEOF"
  | .skip | .refuse => none

/-- The token and its value can be told apart. -/
def IsNamed (r : ScannerRule) : Prop :=
  ∀ name value, r.action = .token name value →
    IsWord name.toList ∧ '\x7b' ∉ (value.getD "").toList ∧ '\n' ∉ (value.getD "").toList

variable {r : ScannerRule} {namespaceName : String}

theorem toList_tokenCall (namespaceName : String) : (tokenCall namespaceName).toList =
    " return ".toList ++ (namespaceName.toList ++ "::parser::make_".toList) := by
  have htokenCall : tokenCall namespaceName = " return " ++ namespaceName ++
      "::parser::make_" := rfl
  rw [htokenCall, String.toList_append, String.toList_append, List.append_assoc]

/-- What stands behind the brace that opens an action. -/
def actionText (namespaceName : String) : ScannerAction → List Char
  | .skip => [' ', '\x7d']
  | .token name value => (tokenCall namespaceName).toList ++
      (name.toList ++ '(' :: ((value.getD "").toList ++ "); \x7d".toList))
  | .refuse => ' ' :: 't' :: ("hrow ".toList ++ (namespaceName.toList ++
      "::parser::syntax_error(\"unexpected character: \" + std::string(yytext)); \x7d".toList))
  | .finish => (tokenCall namespaceName).toList ++ ("YYEOF".toList ++ '(' :: "); \x7d".toList)

theorem toList_display (namespaceName : String) (r : ScannerRule) :
    (r.display namespaceName).toList =
      r.pattern.display.toList ++ "    ".toList ++ '\x7b' :: actionText namespaceName r.action := by
  have hreturn : "\x7b return ".toList = '\x7b' :: " return ".toList := by decide
  have hthrow : "\x7b throw ".toList = '\x7b' :: ' ' :: 't' :: "hrow ".toList := by decide
  have hskip : "\x7b \x7d".toList = '\x7b' :: [' ', '\x7d'] := by decide
  have hopening : "(".toList = ['('] := by decide
  have hfinish : "::parser::make_YYEOF(); \x7d".toList =
      "::parser::make_".toList ++ ("YYEOF".toList ++ '(' :: "); \x7d".toList) := by
    decide
  have haction : (r.action.display namespaceName).toList =
      '\x7b' :: actionText namespaceName r.action := by
    cases r.action with
    | skip => exact hskip
    | token name value =>
      have hdisplay : (ScannerAction.token name value).display namespaceName =
          "\x7b return " ++ namespaceName ++ "::parser::make_" ++ name ++ "(" ++ value.getD "" ++
            "); \x7d" := rfl
      rw [hdisplay, actionText, toList_tokenCall]
      simp only [String.toList_append, List.append_assoc, hreturn, hopening, List.cons_append,
        List.nil_append]
    | refuse =>
      have hdisplay : ScannerAction.refuse.display namespaceName = "\x7b throw " ++ namespaceName ++
          "::parser::syntax_error(\"unexpected character: \" + std::string(yytext)); \x7d" := rfl
      rw [hdisplay, actionText]
      simp only [String.toList_append, List.append_assoc, hthrow, List.cons_append]
    | finish =>
      have hdisplay : ScannerAction.finish.display namespaceName =
          "\x7b return " ++ namespaceName ++ "::parser::make_YYEOF(); \x7d" := rfl
      rw [hdisplay, actionText, toList_tokenCall]
      simp only [String.toList_append, List.append_assoc, hreturn, hfinish, List.cons_append]
  have hdisplay : r.display namespaceName =
      r.pattern.display ++ "    " ++ r.action.display namespaceName := rfl
  rw [hdisplay, String.toList_append, String.toList_append, haction]

/-- No action has another brace in it. -/
theorem not_mem_actionText (h : r.IsNamed) (hspace : IsType namespaceName.toList) :
    '\x7b' ∉ actionText namespaceName r.action := by
  have hnamespace : '\x7b' ∉ namespaceName.toList := hspace.not_mem (by decide)
  cases haction : r.action with
  | skip => simp [actionText]
  | token name value =>
    obtain ⟨hname, hvalue, -⟩ := h name value haction
    have hname' : '\x7b' ∉ name.toList := hname.not_mem (by decide)
    rw [actionText, toList_tokenCall]
    simp [hnamespace, hname', hvalue]
  | refuse =>
    rw [actionText]
    simp [hnamespace]
  | finish =>
    rw [actionText, toList_tokenCall]
    simp [hnamespace]

/-- The token is read off the line of the rule. -/
theorem returnedToken?_display (h : r.IsNamed) (hspace : IsType namespaceName.toList) :
    returnedToken? namespaceName (r.display namespaceName).toList =
      r.made?.map String.toList := by
  have hend : IsWord "YYEOF".toList := ⟨by decide, by decide⟩
  have hreturn : " return ".toList = ' ' :: 'r' :: "eturn ".toList := by decide
  rw [toList_display, returnedToken?_append (not_mem_actionText h hspace), made?]
  cases haction : r.action with
  | skip =>
    rw [actionText, wordBehind?, toList_tokenCall, hreturn]
    rfl
  | token name value =>
    rw [actionText, wordBehind?_append, (h name value haction).1.word_append (by decide)]
    rfl
  | refuse =>
    rw [actionText, wordBehind?, toList_tokenCall, hreturn]
    rfl
  | finish =>
    rw [actionText, wordBehind?_append, hend.word_append (by decide)]
    rfl

/-- A rule takes one line, which is not the mark between the parts of the scanner. -/
theorem isPlain_display (h : r.IsNamed) (hspace : IsType namespaceName.toList) :
    (Item.line (r.display namespaceName)).IsPlain ∧
      (r.display namespaceName).toList ≠ "%%".toList := by
  have hblanks : ' ' ∈ "    ".toList ∧ '\n' ∉ "    ".toList ∧ ' ' ∉ "%%".toList := by decide
  have hblank : ' ' ∈ (r.display namespaceName).toList := by
    rw [toList_display]
    exact List.mem_append_left _ (List.mem_append_right _ hblanks.1)
  have hpattern : '\n' ∉ r.pattern.display.toList := by
    cases r.pattern with
    | literal text => exact unbroken_cppString text
    | number signed => cases signed <;> decide
    | _ => decide
  have haction : '\n' ∉ actionText namespaceName r.action := by
    cases haction : r.action with
    | skip => simp [actionText]
    | token name value =>
      obtain ⟨hname, -, hvalue⟩ := h name value haction
      rw [actionText, toList_tokenCall]
      simp [hspace.unbroken, hname.unbroken, hvalue]
    | refuse | finish =>
      rw [actionText]
      simp [hspace.unbroken, toList_tokenCall]
  refine ⟨⟨fun hempty => ?_, ?_⟩, fun hmark => hblanks.2.2 (hmark ▸ hblank)⟩
  · rw [hempty] at hblank
    cases hblank
  · rw [toList_display]
    simp [hpattern, haction]

theorem made?_ofEntry (signed : Bool) (e : TokenEntry) :
    (ofEntry signed e).made? = some e.name := by
  unfold ofEntry
  cases e.terminal <;> rfl

theorem isNamed_ofEntry {signed : Bool} {e : TokenEntry} (h : IsWord e.name.toList) :
    (ofEntry signed e).IsNamed := by
  have hvalue (p : Pattern) :
      '\x7b' ∉ (valueExpression p).toList ∧ '\n' ∉ (valueExpression p).toList := by
    cases p <;> decide
  intro name value haction
  unfold ofEntry at haction
  cases hterminal : e.terminal with
  | literal text =>
    rw [hterminal] at haction
    cases haction
    exact ⟨h, List.not_mem_nil, List.not_mem_nil⟩
  | pattern p =>
    rw [hterminal] at haction
    cases haction
    exact ⟨h, hvalue p⟩

/-- The rules of a scanner can be told apart. -/
theorem isNamed_ofCatalog {catalog : TokenCatalog}
    (h : ∀ e ∈ catalog.entries, IsWord e.name.toList) : ∀ r ∈ ofCatalog catalog, r.IsNamed := by
  unfold ofCatalog
  simp only [List.forall_mem_append, List.forall_mem_map, List.forall_mem_cons]
  exact ⟨⟨⟨nofun, List.forall_mem_nil _⟩, fun e he => isNamed_ofEntry (h e he)⟩, nofun, nofun,
    List.forall_mem_nil _⟩

/-- The scanner makes the tokens of its catalog in their order, and the end of the input. -/
theorem filterMap_made?_ofCatalog (catalog : TokenCatalog) :
    (ofCatalog catalog).filterMap made? = catalog.entries.map (·.name) ++ ["YYEOF"] := by
  unfold ofCatalog
  generalize (!(catalog.entries.filterMap TokenEntry.lexeme?).any beginsWithSign) = signed
  have hnames : catalog.entries.filterMap (made? ∘ ofEntry signed) =
      catalog.entries.map (·.name) := by
    rw [← List.filterMap_eq_map]
    exact List.filterMap_congr fun e _ => made?_ofEntry signed e
  simp only [List.filterMap_append, List.filterMap_map, hnames]
  rfl

end ScannerRule

/-! ## The scanner -/

namespace ArtifactSource

variable {s : ArtifactSource}

/-- What stands in the scanner in front of the rules. -/
def definitionItems (s : ArtifactSource) : List Item :=
  [.line "%\x7b", .line "#include <cstdlib>", .line "#include <string>", includeLine s.parserHeader,
    .blank, .line ("#define YY_DECL " ++ s.model.namespaceName ++ "::parser::symbol_type yylex()"),
    .line "%\x7d", .blank, .line "%option noyywrap nounput noinput batch never-interactive", .blank]

/-- The scanner without its notice. -/
def scannerItems (s : ArtifactSource) : List Item :=
  s.definitionItems ++ ([Item.line "%%", Item.blank] ++
    ((ScannerRule.ofCatalog s.catalog).map
      (fun r => Item.line (r.display s.model.namespaceName)) ++ [Item.blank, Item.line "%%"]))

theorem scannerLayout_eq (s : ArtifactSource) :
    s.scannerLayout = s.opening .block ++ s.scannerItems := by
  simp [scannerLayout, scannerItems, definitionItems]

theorem linesFrom_scannerItems (s : ArtifactSource) :
    linesFrom 0 s.scannerItems = linesFrom 0 s.definitionItems ++ "%%".toList ::
      ((ScannerRule.ofCatalog s.catalog).map (fun r => (r.display s.model.namespaceName).toList) ++
        ["%%".toList]) := by
  have hdefinitions : Balanced s.definitionItems :=
    .of_shift (by simp [definitionItems, includeLine, Item.shift])
  have hmark : Balanced [.line "%%", .blank] := .of_shift (by simp [Item.shift])
  have hrules : Balanced ((ScannerRule.ofCatalog s.catalog).map fun r =>
      .line (r.display s.model.namespaceName)) :=
    .of_shift (by simp [Item.shift])
  rw [scannerItems, hdefinitions.linesFrom_append, hmark.linesFrom_append, hrules.linesFrom_append,
    linesFrom_map_line]
  rfl

theorem mark_not_mem_definitions (s : ArtifactSource) :
    "%%".toList ∉ linesFrom 0 s.definitionItems := by
  rw [linesFrom_of_shift (by simp [definitionItems, includeLine, Item.shift])]
  simp [definitionItems, includeLine, Item.text?, Page.margin]

/-- The tokens are read off the scanner. -/
theorem filterMap_returnedToken?_scannerItems
    (htokens : ∀ e ∈ s.catalog.entries, IsWord e.name.toList)
    (hspace : IsType s.model.namespaceName.toList) :
    (scannerRules (linesFrom 0 s.scannerItems)).filterMap (returnedToken? s.model.namespaceName) =
      s.catalog.entries.map (·.name.toList) ++ ["YYEOF".toList] := by
  have hnamed := ScannerRule.isNamed_ofCatalog htokens
  have hmark : "%%".toList ∉ (ScannerRule.ofCatalog s.catalog).map fun r =>
      (r.display s.model.namespaceName).toList := by
    intro hmem
    obtain ⟨r, hr, heq⟩ := List.mem_map.mp hmem
    exact (ScannerRule.isPlain_display (hnamed r hr) hspace).2 heq
  have hread : (ScannerRule.ofCatalog s.catalog).filterMap
      (returnedToken? s.model.namespaceName ∘ fun r => (r.display s.model.namespaceName).toList) =
        ((ScannerRule.ofCatalog s.catalog).filterMap ScannerRule.made?).map String.toList := by
    rw [List.map_filterMap]
    exact List.filterMap_congr fun r hr =>
      ScannerRule.returnedToken?_display (hnamed r hr) hspace
  rw [linesFrom_scannerItems, scannerRules_append s.mark_not_mem_definitions hmark,
    List.filterMap_map, hread, ScannerRule.filterMap_made?_ofCatalog, List.map_append, List.map_map]
  rfl

/-- No item of the scanner writes more than one line. -/
theorem isPlain_scannerItems (htokens : ∀ e ∈ s.catalog.entries, IsWord e.name.toList)
    (hspace : IsType s.model.namespaceName.toList) : ∀ item ∈ s.scannerItems, item.IsPlain := by
  have hdefinitions : ∀ item ∈ s.definitionItems, item.IsPlain := by
    simp [definitionItems, includeLine, Item.IsPlain, unbroken_cppString, hspace.unbroken]
  simp only [scannerItems, List.forall_mem_append, List.forall_mem_map]
  exact ⟨hdefinitions, by simp [Item.IsPlain], fun r hr => (ScannerRule.isPlain_display
    (ScannerRule.isNamed_ofCatalog htokens r hr) hspace).1, by simp [Item.IsPlain]⟩

end ArtifactSource

end AnnotatedGrammar
