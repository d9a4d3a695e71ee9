import AnnotatedGrammar.Artifact.Basic
import AnnotatedGrammar.Proofs.Artifact.Layout

/-!
# Lines of generated files

The lines of a file behind the notice at its top are those of the items it is made of. Items that
leave the level of indentation as it was can be read on their own, whatever stands around them.
-/

namespace AnnotatedGrammar

namespace Layout

instance : DecidablePred Item.IsPlain
  | .line text => inferInstanceAs (Decidable (text ≠ "" ∧ '\n' ∉ text.toList))
  | .opening text | .closing text | .banner _ text =>
    inferInstanceAs (Decidable ('\n' ∉ text.toList))
  | .raw _ => inferInstanceAs (Decidable False)
  | .blank | .indent | .dedent => inferInstanceAs (Decidable True)

/-! ## Items side by side -/

theorem levelAfter_of_shift {item : Item} (h : item.shift = 0) (level : Nat) :
    item.levelAfter level = level := by
  rw [Item.levelAfter, h]
  simp

theorem linesFrom_append (level : Nat) (items rest : List Item) :
    linesFrom level (items ++ rest) =
      linesFrom level items ++ linesFrom (items.foldl Item.levelAfter level) rest := by
  induction items generalizing level with
  | nil => rfl
  | cons item more ih =>
    rw [List.cons_append, linesFrom, linesFrom, ih, List.append_assoc, List.foldl_cons]

/-- Items behind which the level is what it was. -/
def Balanced (items : List Item) : Prop := ∀ level, items.foldl Item.levelAfter level = level

namespace Balanced

variable {α : Type} {items rest : List Item} {level : Nat}

theorem linesFrom_append (h : Balanced items) (level : Nat) (rest : List Item) :
    linesFrom level (items ++ rest) = linesFrom level items ++ linesFrom level rest := by
  rw [Layout.linesFrom_append, h level]

theorem append (h : Balanced items) (hrest : Balanced rest) : Balanced (items ++ rest) := by
  intro level
  rw [List.foldl_append, h level, hrest level]

/-- Items that do not change the level. -/
theorem of_shift (h : ∀ item ∈ items, item.shift = 0) : Balanced items := by
  intro level
  induction items with
  | nil => rfl
  | cons item more ih =>
    obtain ⟨hitem, hmore⟩ := List.forall_mem_cons.mp h
    rw [List.foldl_cons, levelAfter_of_shift hitem, ih hmore]

/-- A block in braces, with what stands inside one level deeper. -/
theorem block (h : ∀ level, items.foldl Item.levelAfter (level + 1) = level + 1)
    (header suffix : String) : Balanced (.opening header :: items ++ [.closing suffix]) := by
  intro level
  have hopening : (Item.opening header).levelAfter level = level + 1 := rfl
  rw [List.cons_append, List.foldl_cons, List.foldl_append, hopening, h]
  simp [Item.levelAfter, Item.shift]

theorem flatMap {f : α → List Item} (h : ∀ x, Balanced (f x)) (xs : List α) :
    Balanced (xs.flatMap f) := by
  induction xs with
  | nil => exact fun _ => rfl
  | cons x more ih =>
    rw [List.flatMap_cons]
    exact (h x).append ih

theorem linesFrom_flatMap {f : α → List Item} (h : ∀ x, Balanced (f x)) (xs : List α)
    (level : Nat) :
    linesFrom level (xs.flatMap f) = xs.flatMap fun x => linesFrom level (f x) := by
  induction xs with
  | nil => rfl
  | cons x more ih => rw [List.flatMap_cons, (h x).linesFrom_append, ih, List.flatMap_cons]

end Balanced

/-- The lines of a block in braces. -/
theorem linesFrom_block {items : List Item} {level : Nat}
    (h : items.foldl Item.levelAfter (level + 1) = level + 1) (header suffix : String) :
    linesFrom level (.opening header :: items ++ [.closing suffix]) =
      (Page.margin level ++ (openingLine header).toList) ::
        (linesFrom (level + 1) items ++ [Page.margin level ++ ("\x7d" ++ suffix).toList]) := by
  have hopening : (Item.opening header).levelAfter level = level + 1 := rfl
  have hclosing : (Item.closing suffix).levelAfter (level + 1) = level := by
    simp [Item.levelAfter, Item.shift]
  rw [List.cons_append, linesFrom, hopening, linesFrom_append, h]
  simp [linesFrom, Item.line?, Item.text?, hopening, hclosing, Page.margin]

theorem toList_openingLine {header : String} (h : header ≠ "") :
    (openingLine header).toList = header.toList ++ [' ', '\x7b'] := by
  rw [openingLine, if_neg (by simpa [String.isEmpty_iff] using h), String.toList_append]
  rfl

/-- The lines of items that do not change the level. -/
theorem linesFrom_of_shift {items : List Item} (h : ∀ item ∈ items, item.shift = 0)
    (level : Nat) :
    linesFrom level items = (items.filterMap Item.text?).map (Page.margin level ++ ·) := by
  induction items with
  | nil => rfl
  | cons item more ih =>
    obtain ⟨hitem, hmore⟩ := List.forall_mem_cons.mp h
    have hlevel := levelAfter_of_shift hitem level
    rw [linesFrom, hlevel, ih hmore, Item.line?, hlevel, Nat.min_self, List.filterMap_cons]
    cases item.text? <;> rfl

/-- A line is the text of an item behind blanks. -/
theorem mem_linesFrom {items : List Item} {level : Nat} {line : List Char}
    (h : line ∈ linesFrom level items) :
    ∃ item ∈ items, ∃ text ∈ item.text?, ∃ n, line = List.replicate n ' ' ++ text := by
  induction items generalizing level with
  | nil => cases h
  | cons item more ih =>
    rcases List.mem_append.mp h with hline | hmore
    · obtain ⟨text, htext, rfl⟩ := Option.map_eq_some_iff.mp (Option.mem_toList.mp hline)
      exact ⟨item, List.mem_cons_self, text, htext, _, rfl⟩
    · obtain ⟨other, hother, htext⟩ := ih hmore
      exact ⟨other, List.mem_cons_of_mem _ hother, htext⟩

/-- Nothing is read off lines that are indented, nor off what the items write. -/
theorem read_linesFrom_eq_none {α : Type} {read : List Char → Option α}
    (hindented : ∀ rest, read (' ' :: rest) = none) {items : List Item} {level : Nat}
    (hitems : ∀ item ∈ items, ∀ text ∈ item.text?, read text = none) :
    ∀ line ∈ linesFrom level items, read line = none := by
  intro line hline
  obtain ⟨item, hitem, text, htext, n, rfl⟩ := mem_linesFrom hline
  cases n with
  | zero => exact hitems item hitem text htext
  | succ n => exact hindented _

theorem linesFrom_map_line {α : Type} (f : α → String) (xs : List α) (level : Nat) :
    linesFrom level (xs.map fun x => .line (f x)) =
      xs.map fun x => Page.margin level ++ (f x).toList := by
  rw [linesFrom_of_shift (by simp [Item.shift])]
  simp [List.filterMap_map, Function.comp_def, Item.text?]

theorem linesFrom_line_ne_nil (text : String) (rest : List Item) (level : Nat) :
    linesFrom level (.line text :: rest) ≠ [] := List.cons_ne_nil _ _

theorem linesFrom_line (text : String) (level : Nat) :
    linesFrom level [.line text] = [Page.margin level ++ text.toList] :=
  linesFrom_map_line id [text] level

/-! ## Behind the notice -/

namespace Page

variable {page : Page} {lines : List (List Char)} {front : List Char}

/-- A page with an empty line in front, and more text before it. -/
def behind (page : Page) (front : List Char) : Page :=
  { page with written := page.written ++ '\n' :: '\n' :: front }

theorem raw_behind (page : Page) (front text : List Char) :
    (page.behind front).raw text = (page.raw text).behind front := by
  simp [raw, behind]

theorem line_behind (page : Page) (front text : List Char) :
    (page.behind front).line text = (page.line text).behind front := by
  cases text <;> exact raw_behind page front _

/-- Whether an empty line is written depends on the last two characters of the page. -/
theorem blank_of_ne {c d : Char} {rest : List Char} (h : page.written = c :: d :: rest)
    (hne : ¬(c = '\n' ∧ d = '\n')) : page.blank = page.raw ['\n'] := by
  unfold blank
  split
  next hnil => rw [hnil] at h; cases h
  next hbreaks =>
    rw [hbreaks] at h
    injection h with hc h
    injection h with hd h
    exact absurd ⟨hc.symm, hd.symm⟩ hne
  next => rfl

/-- Behind an empty line another one is written where it would be written on an empty page. -/
theorem Holds.blank_behind (h : page.Holds lines) (front : List Char) :
    (page.behind front).blank = page.blank.behind front := by
  obtain ⟨written, level⟩ := page
  match written, h with
  | [], _ => rfl
  | [c], h =>
    have hc : c ≠ '\n' := by
      rintro rfl
      have hjoined : ['\n'] = joined lines := h.written
      have hlines := splitOn_joined h.unbroken
      rw [← hjoined] at hlines
      obtain rfl : [[]] = lines := List.append_cancel_right hlines
      exact h.first rfl
    have hblank : Page.blank ⟨[c], level⟩ = Page.raw ⟨[c], level⟩ ['\n'] := by
      unfold Page.blank
      split <;> simp_all
    rw [hblank, ← raw_behind]
    exact blank_of_ne rfl fun hbreaks => hc hbreaks.1
  | c :: d :: rest, _ =>
    by_cases hbreaks : c = '\n' ∧ d = '\n'
    · obtain ⟨rfl, rfl⟩ := hbreaks
      rfl
    · have hblank : Page.blank ⟨c :: d :: rest, level⟩ =
          Page.raw ⟨c :: d :: rest, level⟩ ['\n'] := blank_of_ne rfl hbreaks
      rw [hblank, ← raw_behind]
      exact blank_of_ne rfl hbreaks

/-- Behind an empty line items are written as on an empty page. -/
theorem Holds.write_behind (h : page.Holds lines) (front : List Char) {item : Item}
    (hplain : item.IsPlain) :
    (page.behind front).write item = (page.write item).behind front := by
  cases item with
  | blank => exact h.blank_behind front
  | raw text => exact raw_behind page front _
  | line text => exact line_behind page front _
  | indent | dedent => rfl
  | opening header => exact congrArg indent (line_behind page front _)
  | closing suffix => exact line_behind page.dedent front _
  | banner style baseName =>
    obtain ⟨hne, hbreak⟩ := hplain.text rfl
    have hblank := (h.line hne hbreak).blank_behind front
    rw [← line_behind] at hblank
    exact hblank

/-- Behind an empty line a list of items is written as on an empty page. -/
theorem Holds.foldl_behind (h : page.Holds lines) (front : List Char) {items : List Item}
    (hplain : ∀ item ∈ items, item.IsPlain) :
    items.foldl Page.write (page.behind front) =
      (items.foldl Page.write page).behind front := by
  induction items generalizing page lines with
  | nil => rfl
  | cons item rest ih =>
    obtain ⟨hitem, hrest⟩ := List.forall_mem_cons.mp hplain
    obtain ⟨lines', hlines, -⟩ := h.write hitem
    rw [List.foldl_cons, h.write_behind front hitem, ih hlines hrest, List.foldl_cons]

end Page

/-- A page with lines has more on it than line breaks. -/
theorem dropWhile_written_ne_nil {items : List Item} (hplain : ∀ item ∈ items, item.IsPlain)
    (hlines : linesFrom 0 items ≠ []) :
    (pageOf items).written.dropWhile (· == '\n') ≠ [] := by
  obtain ⟨lines, hholds, hfilter⟩ := Page.holds_empty.foldl_write hplain
  obtain ⟨line, hline⟩ := List.exists_mem_of_ne_nil _ hlines
  have hmem : line ∈ lines.filter (· ≠ []) := by rw [hfilter]; exact hline
  obtain ⟨hline, hne⟩ := List.mem_filter.mp hmem
  obtain ⟨c, rest, rfl⟩ := List.exists_cons_of_ne_nil (of_decide_eq_true hne)
  have hc : c ∈ (pageOf items).written := by
    rw [← List.mem_reverse, pageOf, hholds.written]
    exact List.mem_flatMap.mpr ⟨_, hline, by simp⟩
  intro hall
  have hbreak := List.dropWhile_eq_nil_iff.mp hall c hc
  exact hholds.unbroken _ hline (by simp [beq_iff_eq.mp hbreak])

theorem exists_notice_eq_concat (style : CommentStyle) (baseName : String) :
    ∃ text c, (notice style baseName).toList = text ++ [c] ∧ c ≠ '\n' := by
  cases style with
  | line =>
    refine ⟨("// Generated by " ++ toolVersion ++ " from grammar \x60" ++ baseName ++
      "\x60. Do not edit").toList, '.', ?_, by decide⟩
    simp [notice]
  | block =>
    refine ⟨("/* Generated by " ++ toolVersion ++ " from grammar \x60" ++ baseName ++
      "\x60. Do not edit. *").toList, '/', ?_, by decide⟩
    simp [notice]

/-- A notice on an empty page. -/
theorem Page.write_banner (style : CommentStyle) (baseName : String) :
    empty.write (.banner style baseName) =
      empty.behind (notice style baseName).toList.reverse := by
  obtain ⟨text, c, hnotice, hc⟩ := exists_notice_eq_concat style baseName
  have hline : empty.line (notice style baseName).toList =
      ⟨'\n' :: c :: text.reverse, 0⟩ := by
    rw [hnotice]
    cases text <;> simp [line, raw, margin, empty]
  rw [write, hline, blank_of_line rfl hc, hnotice]
  simp [raw, behind, empty]

/-- A notice stands in front of the file with an empty line in between. -/
theorem toList_render_banner (style : CommentStyle) (baseName : String) {items : List Item}
    (hplain : ∀ item ∈ items, item.IsPlain) (hlines : linesFrom 0 items ≠ []) :
    (render (.banner style baseName :: items)).toList =
      (notice style baseName).toList ++ '\n' :: '\n' :: (render items).toList := by
  have hpage : (pageOf (.banner style baseName :: items)).written =
      (pageOf items).written ++ '\n' :: '\n' :: (notice style baseName).toList.reverse := by
    rw [pageOf, List.foldl_cons, Page.write_banner, Page.holds_empty.foldl_behind _ hplain]
    rfl
  obtain ⟨c, rest, hkept⟩ :=
    List.exists_cons_of_ne_nil (dropWhile_written_ne_nil hplain hlines)
  rw [render, render, hpage, withFinalBreak_eq, withFinalBreak_eq, List.dropWhile_append, hkept]
  simp

/-- The lines of a file behind its notice, empty ones left out. -/
def codeLines (front : List Char) (text : String) : List (List Char) :=
  ((text.toList.drop front.length).splitOn '\n').filter (· ≠ [])

theorem codeLines_render {items : List Item} (hplain : ∀ item ∈ items, item.IsPlain) :
    codeLines [] (render items) = linesFrom 0 items := by
  obtain ⟨⟨text, htext, -⟩, hlayout⟩ := render_keepsLayout items
  have hwritten := (hlayout hplain).written
  rw [finishedLines, htext, List.splitOn_append_cons_self, List.splitOn_nil,
    List.dropLast_concat] at hwritten
  rw [codeLines, htext, ← hwritten, List.length_nil, List.drop_zero,
    List.splitOn_append_cons_self, List.filter_append]
  simp

end Layout

namespace ArtifactSource

variable {s : ArtifactSource} {items : List Layout.Item}

/-- The notice at the top of a file and the empty line behind it, if there is a notice. -/
def front (s : ArtifactSource) (style : CommentStyle) : List Char :=
  if s.banner then (Layout.notice style s.baseName).toList ++ ['\n', '\n'] else []

theorem toList_render_opening (style : CommentStyle) (hplain : ∀ item ∈ items, item.IsPlain)
    (hlines : Layout.linesFrom 0 items ≠ []) :
    (Layout.render (s.opening style ++ items)).toList =
      s.front style ++ (Layout.render items).toList := by
  unfold opening front
  split
  · rw [List.singleton_append, Layout.toList_render_banner style _ hplain hlines]
    simp
  · rfl

/-- A file begins with its notice, and its other lines are those of its items. -/
theorem codeLines_render_opening (style : CommentStyle)
    (hplain : ∀ item ∈ items, item.IsPlain) (hlines : Layout.linesFrom 0 items ≠ []) :
    s.front style <+: (Layout.render (s.opening style ++ items)).toList ∧
      Layout.codeLines (s.front style) (Layout.render (s.opening style ++ items)) =
        Layout.linesFrom 0 items := by
  have htext := toList_render_opening (s := s) style hplain hlines
  refine ⟨⟨_, htext.symm⟩, ?_⟩
  rw [← Layout.codeLines_render hplain, Layout.codeLines, htext, List.drop_left]
  rfl

end ArtifactSource

end AnnotatedGrammar
