import Mathlib
import AnnotatedGrammar.Artifact.Layout

/-!
# Lines of generated text

Every finished text ends in exactly one line break. As long as no text is written as it is, no text
holds a line break and no line is without text, the page is a list of lines: no two of them are
empty side by side, the first one is not empty, and the others are the texts of the items, each
behind its margin. An empty line is written only behind a line with text, which the last two
characters of the page show.
-/

namespace AnnotatedGrammar.Layout

/-! ## What is to be written -/

namespace Item

/-- By how much an item changes the level of indentation. -/
def shift : Item → Int
  | .indent | .opening _ => 1
  | .dedent | .closing _ => -1
  | .line _ | .blank | .raw _ | .banner _ _ => 0

/-- The level behind an item, cut off at zero. -/
def levelAfter (level : Nat) (item : Item) : Nat := (level + item.shift).toNat

/-- The text that an item puts on a line of its own. -/
def text? : Item → Option (List Char)
  | .line text => some text.toList
  | .opening header => some (openingLine header).toList
  | .closing suffix => some ("\x7d" ++ suffix).toList
  | .banner style baseName => some (notice style baseName).toList
  | .blank | .raw _ | .indent | .dedent => none

/-- The line that an item writes. The line of an item that changes the level stands at the outer one
of both levels. -/
def line? (level : Nat) (item : Item) : Option (List Char) :=
  item.text?.map fun text =>
    List.replicate (4 * min level (item.levelAfter level)) ' ' ++ text

/-- An item whose text is part of one line: nothing is written as it is, there is no line break
inside, and no line without text. -/
def IsPlain : Item → Prop
  | .line text => text ≠ "" ∧ '\n' ∉ text.toList
  | .opening text | .closing text | .banner _ text => '\n' ∉ text.toList
  | .raw _ => False
  | .blank | .indent | .dedent => True

end Item

/-- The lines that items write from a level on, empty ones left out. -/
def linesFrom (level : Nat) : List Item → List (List Char)
  | [] => []
  | item :: rest => (item.line? level).toList ++ linesFrom (item.levelAfter level) rest

/-- The lines of the finished text, which ends with a line break. -/
def finishedLines (items : List Item) : List (List Char) :=
  ((render items).toList.splitOn '\n').dropLast

/-- A finished text in which empty lines stand alone and behind others, and the other lines are
those of the items. -/
structure KeepsLayout (items : List Item) : Prop where
  apart : (finishedLines items).IsChain fun a b => a = [] → b ≠ []
  /-- Only a text to which nothing was written begins with an empty line. -/
  first : (finishedLines items).head? = some [] → linesFrom 0 items = []
  written : (finishedLines items).filter (· ≠ []) = linesFrom 0 items

/-! ## The end of a text -/

theorem withFinalBreak_eq (text : List Char) :
    withFinalBreak text = '\n' :: text.dropWhile (· == '\n') := by
  fun_induction withFinalBreak text with
  | case1 rest ih => exact ih
  | case2 rest hrest =>
    rw [List.dropWhile_cons_of_pos rfl, eq_comm]
    cases rest with
    | nil => rfl
    | cons c rest =>
      refine congrArg _ (List.dropWhile_cons_of_neg fun hc => ?_)
      exact hrest rest (congrArg (· :: rest) (beq_iff_eq.mp hc))
  | case3 text _ htext =>
    cases text with
    | nil => rfl
    | cons c rest =>
      refine congrArg _ (List.dropWhile_cons_of_neg fun hc => ?_).symm
      exact htext rest (congrArg (· :: rest) (beq_iff_eq.mp hc))

theorem toList_render (items : List Item) :
    (render items).toList = (pageOf items).written.reverse.rdropWhile (· == '\n') ++ ['\n'] := by
  rw [render, String.toList_ofList, withFinalBreak_eq, List.reverse_cons, List.rdropWhile_reverse]

/-! ## Pages made of lines -/

/-- The text of a list of lines, each with a line break behind it. -/
def joined (lines : List (List Char)) : List Char := lines.flatMap (· ++ ['\n'])

theorem joined_concat (lines : List (List Char)) (line : List Char) :
    joined (lines ++ [line]) = joined lines ++ line ++ ['\n'] := by
  rw [joined, List.flatMap_append, List.flatMap_singleton, List.append_assoc]
  rfl

theorem splitOn_joined {lines : List (List Char)} (h : ∀ line ∈ lines, '\n' ∉ line) :
    (joined lines).splitOn '\n' = lines ++ [[]] := by
  induction lines with
  | nil => rfl
  | cons line rest ih =>
    obtain ⟨hline, hrest⟩ := List.forall_mem_cons.mp h
    have hjoined : joined (line :: rest) = line ++ '\n' :: joined rest := by
      rw [joined, List.flatMap_cons, List.append_assoc]
      rfl
    rw [hjoined, List.splitOn_append_cons_self_of_not_mem hline, ih hrest]
    rfl

/-- Cutting off the line breaks at the end of a text cuts off the empty lines at its end. -/
theorem rdropWhile_joined {lines : List (List Char)} (h : ∀ line ∈ lines, '\n' ∉ line)
    (hne : lines.rdropWhile List.isEmpty ≠ []) :
    (joined lines).rdropWhile (· == '\n') ++ ['\n'] = joined (lines.rdropWhile List.isEmpty) := by
  induction lines using List.reverseRecOn with
  | nil => exact absurd rfl hne
  | append_singleton front last ih =>
    obtain ⟨hfront, hlast⟩ := List.forall_mem_append.mp h
    rw [joined_concat, List.rdropWhile_concat_pos _ _ _ rfl]
    rcases List.eq_nil_or_concat last with rfl | ⟨start, c, rfl⟩
    · rw [List.rdropWhile_concat_pos _ _ _ rfl] at hne ⊢
      rw [List.append_nil]
      exact ih hfront hne
    · have hc : ¬(c == '\n') = true := by
        rintro hc
        exact hlast _ List.mem_cons_self (by simp [beq_iff_eq.mp hc])
      rw [List.concat_eq_append, ← List.append_assoc, List.rdropWhile_concat_neg (· == '\n') _ _ hc,
        List.rdropWhile_concat_neg _ _ _ (by simp), joined_concat, List.append_assoc (joined front)]

/-- A page on which lines were written, empty ones alone and behind others. -/
structure Page.Holds (page : Page) (lines : List (List Char)) : Prop where
  written : page.written.reverse = joined lines
  unbroken : ∀ line ∈ lines, '\n' ∉ line
  apart : lines.IsChain fun a b => a = [] → b ≠ []
  first : lines.head? ≠ some []

namespace Page

variable {page : Page} {lines : List (List Char)}

theorem holds_empty : empty.Holds [] := ⟨rfl, by simp, .nil, by simp⟩

theorem Holds.concat (h : page.Holds lines) {line : List Char} (hline : '\n' ∉ line)
    (hempty : line = [] → lines ≠ [] ∧ lines.getLast? ≠ some []) :
    (page.raw (line ++ ['\n'])).Holds (lines ++ [line]) := by
  refine ⟨?_, fun other hother => ?_, ?_, fun hfirst => ?_⟩
  · rw [joined_concat, ← h.written]
    simp [raw]
  · rcases List.mem_append.mp hother with hother | hother
    · exact h.unbroken other hother
    · exact List.mem_singleton.mp hother ▸ hline
  · refine List.isChain_append.mpr ⟨h.apart, .singleton _, fun a ha b hb hnil hnil' => ?_⟩
    obtain rfl := Option.some.inj hb
    exact (hempty hnil').2 (hnil ▸ ha)
  · cases lines with
    | nil => exact (hempty (Option.some.inj hfirst)).1 rfl
    | cons first rest => exact h.first hfirst

/-- A line with text goes behind the others. -/
theorem Holds.line (h : page.Holds lines) {text : List Char} (hne : text ≠ [])
    (hbreak : '\n' ∉ text) :
    (page.line text).Holds (lines ++ [margin page.level ++ text]) := by
  obtain ⟨c, rest, rfl⟩ := List.exists_cons_of_ne_nil hne
  refine h.concat ?_ fun hnil => absurd hnil (by simp)
  rw [List.mem_append, not_or]
  exact ⟨fun hmem => absurd (List.eq_of_mem_replicate hmem) (by decide), hbreak⟩

theorem blank_of_break {rest : List Char} (h : page.written = '\n' :: '\n' :: rest) :
    page.blank = page := by
  unfold blank
  rw [h]
  rfl

theorem blank_of_line {c : Char} {rest : List Char} (h : page.written = '\n' :: c :: rest)
    (hc : c ≠ '\n') : page.blank = page.raw ['\n'] := by
  unfold blank
  split
  next hnil => rw [hnil] at h; cases h
  next hbreak =>
    rw [hbreak] at h
    injection h with _ h
    injection h with h
    exact absurd h.symm hc
  next => rfl

/-- An empty line is written behind a line with text and nowhere else. -/
theorem Holds.blank (h : page.Holds lines) :
    page.blank.Holds lines ∨ page.blank.Holds (lines ++ [[]]) := by
  have hwritten : page.written = (joined lines).reverse := by
    rw [← h.written, List.reverse_reverse]
  rcases List.eq_nil_or_concat lines with rfl | ⟨front, last, rfl⟩
  · have hkept : page.blank = page := by
      unfold Page.blank
      rw [hwritten]
      rfl
    rw [hkept]
    exact .inl h
  rw [List.concat_eq_append] at h hwritten ⊢
  rw [joined_concat, List.reverse_append, List.reverse_append] at hwritten
  rcases List.eq_nil_or_concat last with rfl | ⟨start, c, rfl⟩
  · -- an empty line is never the first, so another line break stands in front of it
    rcases List.eq_nil_or_concat front with rfl | ⟨before, other, rfl⟩
    · exact absurd rfl h.first
    · rw [List.concat_eq_append, joined_concat, List.reverse_append] at hwritten
      rw [blank_of_break hwritten]
      exact .inl h
  · have hc : c ≠ '\n' := by
      rintro rfl
      exact h.unbroken (start.concat '\n') (by simp) (by simp)
    rw [List.concat_eq_append, List.reverse_append] at hwritten
    rw [blank_of_line hwritten hc]
    exact .inr (h.concat (List.not_mem_nil) fun _ => ⟨by simp, by simp⟩)

end Page

/-! ## Writing items -/

theorem openingLine_ne_nil (header : String) : (openingLine header).toList ≠ [] := by
  unfold openingLine
  split
  · simp
  · rw [String.toList_append]
    simp

theorem notice_ne_nil (style : CommentStyle) (baseName : String) :
    (notice style baseName).toList ≠ [] := by
  cases style <;> simp [notice]

/-- The text of an item is not empty and stands on one line. -/
theorem Item.IsPlain.text {item : Item} (h : item.IsPlain) {text : List Char}
    (htext : item.text? = some text) : text ≠ [] ∧ '\n' ∉ text := by
  cases item with
  | blank | raw | indent | dedent => cases htext
  | line text =>
    obtain rfl := Option.some.inj htext
    exact ⟨by simpa using h.1, h.2⟩
  | opening header =>
    obtain rfl := Option.some.inj htext
    refine ⟨openingLine_ne_nil header, ?_⟩
    unfold openingLine
    split
    · decide
    · rw [String.toList_append, List.mem_append, not_or]
      exact ⟨h, by decide⟩
  | closing suffix =>
    obtain rfl := Option.some.inj htext
    rw [String.toList_append]
    refine ⟨by simp, ?_⟩
    rw [List.mem_append, not_or]
    exact ⟨by decide, h⟩
  | banner style baseName =>
    obtain rfl := Option.some.inj htext
    refine ⟨notice_ne_nil style baseName, ?_⟩
    have hbase : '\n' ∉ baseName.toList := h
    cases style <;> simpa [notice, toolVersion] using hbase

theorem Item.line?_eq {item : Item} {text : List Char} (htext : item.text? = some text)
    (level : Nat) :
    item.line? level = some (Page.margin (min level (item.levelAfter level)) ++ text) := by
  rw [line?, htext]
  rfl

namespace Page

variable {page : Page} {lines : List (List Char)}

theorem level_line (page : Page) (text : List Char) : (page.line text).level = page.level := by
  cases text <;> rfl

theorem level_blank (page : Page) : page.blank.level = page.level := by
  unfold blank
  split <;> rfl

theorem level_write (page : Page) (item : Item) :
    (page.write item).level = item.levelAfter page.level := by
  unfold Item.levelAfter
  cases item with
  | line text => exact level_line page _
  | blank => exact level_blank page
  | raw text => rfl
  | indent => rfl
  | dedent => exact (Int.toNat_sub page.level 1).symm
  | opening header => exact congrArg (· + 1) (level_line page _)
  | closing suffix => exact (level_line page.dedent _).trans (Int.toNat_sub page.level 1).symm
  | banner style baseName => exact (level_blank _).trans (level_line page _)

/-- Whether a page holds lines depends on its text only, not on the level. -/
theorem Holds.of_written (h : page.Holds lines) {other : Page}
    (heq : other.written = page.written) : other.Holds lines :=
  ⟨heq ▸ h.written, h.unbroken, h.apart, h.first⟩

/-- The lines behind which at most an empty one was written. -/
theorem Holds.blank_filter (h : page.Holds lines) :
    ∃ lines', page.blank.Holds lines' ∧ lines'.filter (· ≠ []) = lines.filter (· ≠ []) := by
  rcases h.blank with h | h
  · exact ⟨lines, h, rfl⟩
  · exact ⟨lines ++ [[]], h, by simp⟩

/-- One item writes its line, if it has one, and at most an empty line besides. -/
theorem Holds.write (h : page.Holds lines) {item : Item} (hplain : item.IsPlain) :
    ∃ lines', (page.write item).Holds lines' ∧
      lines'.filter (· ≠ []) = lines.filter (· ≠ []) ++ (item.line? page.level).toList := by
  have hline {other : Page} (hother : other.Holds lines) {text : List Char}
      (htext : item.text? = some text)
      (hlevel : other.level = min page.level (item.levelAfter page.level)) :
      ∃ lines', (other.line text).Holds lines' ∧
        lines'.filter (· ≠ []) = lines.filter (· ≠ []) ++ (item.line? page.level).toList := by
    obtain ⟨hne, hbreak⟩ := hplain.text htext
    refine ⟨_, hother.line hne hbreak, ?_⟩
    rw [Item.line?_eq htext, ← hlevel, List.filter_append]
    simp [hne]
  have hkept : ∃ lines', page.Holds lines' ∧ lines'.filter (· ≠ []) = lines.filter (· ≠ []) ++ [] :=
    ⟨lines, h, (List.append_nil _).symm⟩
  cases item with
  | raw text => exact absurd hplain id
  | blank =>
    obtain ⟨lines', hlines, hfilter⟩ := h.blank_filter
    exact ⟨lines', hlines, hfilter.trans (List.append_nil _).symm⟩
  | indent | dedent =>
    obtain ⟨lines', hlines, hfilter⟩ := hkept
    exact ⟨lines', hlines.of_written rfl, hfilter⟩
  | line text => exact hline h rfl (by simp [Item.levelAfter, Item.shift])
  | opening header =>
    obtain ⟨lines', hlines, hfilter⟩ := hline h rfl (by simp [Item.levelAfter, Item.shift])
    exact ⟨lines', hlines.of_written rfl, hfilter⟩
  | closing suffix =>
    have hdedent : page.dedent.Holds lines := h.of_written rfl
    refine hline hdedent rfl ?_
    change page.level - 1 = min page.level (Int.toNat (page.level - 1))
    omega
  | banner style baseName =>
    obtain ⟨lines', hlines, hfilter⟩ := hline h rfl (by simp [Item.levelAfter, Item.shift])
    obtain ⟨lines'', hlines', hfilter'⟩ := hlines.blank_filter
    exact ⟨lines'', hlines', hfilter'.trans hfilter⟩

/-- Items write their lines one behind the other. -/
theorem Holds.foldl_write (h : page.Holds lines) {items : List Item}
    (hplain : ∀ item ∈ items, item.IsPlain) :
    ∃ lines', (items.foldl Page.write page).Holds lines' ∧
      lines'.filter (· ≠ []) = lines.filter (· ≠ []) ++ linesFrom page.level items := by
  induction items generalizing page lines with
  | nil => exact ⟨lines, h, (List.append_nil _).symm⟩
  | cons item rest ih =>
    obtain ⟨hitem, hrest⟩ := List.forall_mem_cons.mp hplain
    obtain ⟨lines', hlines, hfilter⟩ := h.write hitem
    obtain ⟨lines'', hlines', hfilter'⟩ := ih hlines hrest
    refine ⟨lines'', hlines', ?_⟩
    rw [hfilter', hfilter, level_write, List.append_assoc]
    rfl

end Page

/-! ## Finished texts -/

/-- The lines of a page, with the empty ones at its end cut off, are those of the finished text;
when there are none this text is a single line break. -/
theorem keepsLayout_of_holds {items : List Item} {lines : List (List Char)}
    (h : (pageOf items).Holds lines) (hfilter : lines.filter (· ≠ []) = linesFrom 0 items) :
    KeepsLayout items := by
  have htext : (render items).toList = (joined lines).rdropWhile (· == '\n') ++ ['\n'] := by
    rw [toList_render, h.written]
  by_cases hkept : lines.rdropWhile List.isEmpty = []
  · obtain rfl : lines = [] := by
      rw [List.rdropWhile_eq_nil_iff] at hkept
      cases lines with
      | nil => rfl
      | cons first rest =>
        obtain rfl := List.isEmpty_iff.mp (hkept first List.mem_cons_self)
        exact absurd rfl h.first
    have hlines : finishedLines items = [[]] := by
      rw [finishedLines, htext]
      rfl
    refine ⟨?_, fun _ => hfilter.symm, ?_⟩
    · rw [hlines]
      exact .singleton _
    · rw [hlines, ← hfilter]
      rfl
  · have hstart := List.rdropWhile_prefix List.isEmpty lines
    have hlines : finishedLines items = lines.rdropWhile List.isEmpty := by
      rw [finishedLines, htext, rdropWhile_joined h.unbroken hkept,
        splitOn_joined fun line hline => h.unbroken line (hstart.subset hline),
        List.dropLast_concat]
    obtain ⟨rest, hrest⟩ := hstart
    refine ⟨?_, fun hfirst => absurd ?_ h.first, ?_⟩
    · have hapart := h.apart
      rw [← hrest] at hapart
      rw [hlines]
      exact hapart.left_of_append
    · rw [hlines] at hfirst
      rw [← hrest, List.head?_append_of_ne_nil _ hkept, hfirst]
    · have hcut : (lines.rtakeWhile List.isEmpty).filter (· ≠ []) = [] := by
        refine List.filter_eq_nil_iff.mpr fun line hline => ?_
        simpa using List.mem_rtakeWhile_imp hline
      rw [hlines, ← hfilter, ← List.append_nil (List.filter _ (List.rdropWhile _ _)), ← hcut,
        ← List.filter_append, List.rdropWhile_append_rtakeWhile]

/-- Every finished text ends in exactly one line break. If nothing is written as it is, no text
holds a line break and no line is without text, then no two empty lines follow each other, the text
begins with an empty line only if nothing was written, and its other lines are those of the items,
each behind four blanks for every level. -/
theorem render_keepsLayout (items : List Item) :
    (∃ text, (render items).toList = text ++ ['\n'] ∧ text.getLast? ≠ some '\n') ∧
      ((∀ item ∈ items, item.IsPlain) → KeepsLayout items) := by
  refine ⟨⟨_, toList_render items, fun hlast => ?_⟩, fun hplain => ?_⟩
  · have hne := List.ne_nil_of_mem (List.mem_of_getLast? hlast)
    have hnot := List.rdropWhile_last_not (· == '\n') _ hne
    rw [List.getLast?_eq_some_getLast hne, Option.some_inj] at hlast
    exact hnot (beq_iff_eq.mpr hlast)
  · obtain ⟨lines, hlines, hfilter⟩ := Page.holds_empty.foldl_write hplain
    exact keepsLayout_of_holds hlines hfilter

/-- A notice, two blocks one inside the other, more empty lines than are kept, and more levels back
than there are. -/
theorem render_keepsLayout_blocks :
    ∃ items : List Item, (∀ item ∈ items, item.IsPlain) ∧
      render items =
        "// Generated by exgram 0.1.0 from grammar `g`. Do not edit.\n\nnamespace g \x7b\n" ++
          "    class P \x7b\n        double x;\n\n    \x7d;\n\x7d\nend\n" ∧
      KeepsLayout items := by
  let items : List Item :=
    [.blank, .banner .line "g", .blank, .opening "namespace g", .opening "class P",
      .line "double x;", .blank, .blank, .closing ";", .closing "", .dedent, .dedent, .line "end",
      .blank]
  have hplain : ∀ item ∈ items, item.IsPlain := by simp [items, Item.IsPlain]
  exact ⟨items, hplain, by cbv, (render_keepsLayout items).2 hplain⟩

end AnnotatedGrammar.Layout
