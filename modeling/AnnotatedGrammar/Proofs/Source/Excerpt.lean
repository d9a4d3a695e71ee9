import AnnotatedGrammar.Proofs.Source.Positions
import Mathlib.Data.List.DropRight

/-!
# What an excerpt underlines

A span is found in its text by byte offsets, while an excerpt finds its line by a number and its
carets by columns. Both lead to the same stretch of one line: the carets stand below the characters
that the span covers. Of these only carriage returns at the end of the line are not shown.
-/

namespace AnnotatedGrammar

/-! ## Cutting a text at offsets -/

theorem splitAtByte_eq_some {n : Nat} {text before after : List Char}
    (h : splitAtByte n text = some (before, after)) :
    text = before ++ after ∧ byteLength before = n := by
  fun_induction splitAtByte n text generalizing before after with
  | case1 text =>
    obtain ⟨rfl, rfl⟩ := Prod.mk.inj (Option.some.inj h)
    exact ⟨rfl, rfl⟩
  | case2 => cases h
  | case3 n c text hle ih =>
    obtain ⟨⟨front, back⟩, hsplit, heq⟩ := Option.map_eq_some_iff.mp h
    obtain ⟨rfl, rfl⟩ := Prod.mk.inj heq
    obtain ⟨rfl, hlength⟩ := ih hsplit
    refine ⟨rfl, ?_⟩
    rw [byteLength_cons, hlength]
    omega
  | case4 => cases h

/-- A span that covers some text stands in it where its byte offsets say. -/
theorem Span.exists_of_slice_ne_nil {span : Span} {text : List Char} (h : span.slice text ≠ []) :
    ∃ before after, text = before ++ (span.slice text ++ after) ∧
      byteLength before = span.start.offset ∧
      byteLength (before ++ span.slice text) = span.stop.offset := by
  unfold Span.slice at h ⊢
  split at h
  · exact (h rfl).elim
  next hle =>
    rw [if_neg hle]
    split at h
    · exact (h rfl).elim
    next before rest hstart =>
      split at h
      · exact (h rfl).elim
      next inside after hstop =>
        obtain ⟨rfl, hbefore⟩ := splitAtByte_eq_some hstart
        obtain ⟨rfl, hinside⟩ := splitAtByte_eq_some hstop
        refine ⟨before, after, rfl, hbefore, ?_⟩
        rw [byteLength_append, hbefore, hinside]
        omega

/-- Going over a text counts its bytes, its line breaks, and the characters behind the last one. -/
theorem Position.start_advanceOver (before : List Char) :
    Position.start.advanceOver before =
      ⟨byteLength before, before.count '\n' + 1, (before.rtakeWhile (· != '\n')).length + 1⟩ := by
  induction before using List.reverseRecOn with
  | nil => rfl
  | append_singleton before c ih =>
    rw [advanceOver_append, ih, advanceOver_cons, advanceOver_nil, byteLength_append,
      byteLength_cons, List.count_append, List.rtakeWhile_concat]
    by_cases hbreak : c = '\n'
    · subst hbreak
      rfl
    · simp [advance, hbreak, byteLength]

/-- Going over characters of one line moves on by as many columns. -/
theorem Position.advanceOver_of_not_mem {inside : List Char} (h : '\n' ∉ inside) (p : Position) :
    p.advanceOver inside = ⟨p.offset + byteLength inside, p.line, p.column + inside.length⟩ := by
  induction inside generalizing p with
  | nil => rfl
  | cons c inside ih =>
    rw [List.mem_cons, not_or] at h
    rw [advanceOver_cons, ih h.2, advance, if_neg (Ne.symm h.1), byteLength_cons, List.length_cons]
    simp only [mk.injEq, true_and]
    omega

namespace Source

/-! ## The lines of a text -/

theorem map_text_splitLines (start offset : Nat) (read text : List Char) :
    (splitLines start offset read text).map Line.text =
      text.splitOnPPrepend (· == '\n') read := by
  fun_induction splitLines start offset read text with
  | case1 => rfl
  | case2 start offset read rest ih =>
    rw [List.map_cons, ih, List.splitOnPPrepend_cons_pos (by rfl), List.splitOnPPrepend_nil_right]
  | case3 start offset read c rest hbreak ih =>
    rw [ih, List.splitOnPPrepend_cons_neg (by simpa using hbreak)]

namespace Lines

theorem map_text_lines (text : List Char) :
    (ofText text).lines.toList.map Line.text = text.splitOn '\n' := by
  rw [ofText, List.toList_toArray, map_text_splitLines, List.splitOnPPrepend_nil_right,
    List.splitOn_eq_splitOnP]

theorem count_ofText (text : List Char) : (ofText text).count = (text.splitOn '\n').length := by
  rw [← map_text_lines, List.length_map, Array.length_toList, count]

/-- The text of a line is the stretch between two line breaks, without its last carriage returns. -/
theorem lineText_ofText (text : List Char) (index : Nat) :
    (ofText text).lineText (index + 1) =
      ((text.splitOn '\n')[index]?).map (List.rdropWhile (· == '\r')) := by
  rw [← map_text_lines, List.getElem?_map, Array.getElem?_toList, Option.map_map]
  rfl

end Lines

theorem length_splitOn (a : Char) (text : List Char) :
    (text.splitOn a).length = text.count a + 1 := by
  induction text with
  | nil => rfl
  | cons c text ih =>
    rw [List.splitOn_cons_eq_if_modifyHead, List.count_cons]
    split
    · rw [List.length_cons, ih]
    · rw [List.length_modifyHead, ih, Nat.add_zero]

theorem not_mem_takeWhile_break (after : List Char) : '\n' ∉ after.takeWhile (· != '\n') := by
  intro h
  simpa using List.mem_takeWhile_imp h

theorem not_mem_rtakeWhile_break (before : List Char) :
    '\n' ∉ before.rtakeWhile (· != '\n') := by
  intro h
  simpa using List.mem_rtakeWhile_imp h

/-- A text without a line break in front goes on to the first one behind. -/
theorem head?_splitOn {line : List Char} (hline : '\n' ∉ line) (after : List Char) :
    ((line ++ after).splitOn '\n')[0]? = some (line ++ after.takeWhile (· != '\n')) := by
  have hinside : '\n' ∉ line ++ after.takeWhile (· != '\n') := by
    rw [List.mem_append, not_or]
    exact ⟨hline, not_mem_takeWhile_break after⟩
  have hsplit := List.takeWhile_append_dropWhile (p := (· != '\n')) (l := after)
  have hbehind := List.head?_dropWhile_not (· != '\n') after
  generalize after.takeWhile (· != '\n') = inside at hinside hsplit ⊢
  generalize after.dropWhile (· != '\n') = behind at hsplit hbehind
  subst hsplit
  rw [← List.append_assoc]
  cases behind with
  | nil =>
    rw [List.append_nil, List.splitOn_eq_singleton hinside]
    rfl
  | cons c behind =>
    obtain rfl : c = '\n' := by simpa using hbehind
    rw [List.splitOn_append_cons_self_of_not_mem hinside]
    rfl

/-- The line on which a place lies reaches from the line break before it to the one behind it. -/
theorem getElem?_splitOn_count (before after : List Char) :
    ((before ++ after).splitOn '\n')[before.count '\n']? =
      some (before.rtakeWhile (· != '\n') ++ after.takeWhile (· != '\n')) := by
  have hleft := not_mem_rtakeWhile_break before
  have hsplit := List.rdropWhile_append_rtakeWhile (p := (· != '\n')) (l := before)
  have hlast := List.rdropWhile_last_not (· != '\n') before
  generalize before.rtakeWhile (· != '\n') = left at hleft hsplit ⊢
  generalize before.rdropWhile (· != '\n') = front at hsplit hlast
  subst hsplit
  -- In front of the line stands nothing, or a text that ends with a line break.
  rcases List.eq_nil_or_concat front with rfl | ⟨front, c, rfl⟩
  · rw [List.nil_append, List.count_eq_zero.mpr hleft]
    exact head?_splitOn hleft after
  · obtain rfl : c = '\n' := by simpa using hlast (by simp)
    have hcount : (front.concat '\n' ++ left).count '\n' = (front.splitOn '\n').length := by
      rw [length_splitOn, List.count_append, List.count_eq_zero.mpr hleft, List.concat_eq_append,
        List.count_append]
      rfl
    rw [hcount, List.concat_eq_append, List.append_assoc, List.append_assoc,
      List.singleton_append, List.splitOn_append_cons_self,
      List.getElem?_append_right (Nat.le_refl _), Nat.sub_self]
    exact head?_splitOn hleft after

/-- A stretch without line breaks lies on the line on which it begins. -/
theorem getElem?_splitOn_inside {inside : List Char} (before after : List Char)
    (h : '\n' ∉ inside) :
    ((before ++ (inside ++ after)).splitOn '\n')[before.count '\n']? =
      some (before.rtakeWhile (· != '\n') ++ (inside ++ after.takeWhile (· != '\n'))) := by
  rw [getElem?_splitOn_count, List.takeWhile_append_of_pos]
  intro c hc
  have hbreak : c ≠ '\n' := fun heq => h (heq ▸ hc)
  simpa using hbreak

/-! ## Carets below a line -/

/-- The characters of a line that stand above the carets of another line. -/
def underlined (line marks : List Char) : List Char :=
  ((line.zip marks).filter fun pair => pair.2 = '^').map Prod.fst

theorem underlined_append {line marks : List Char} (h : line.length = marks.length)
    (line' marks' : List Char) :
    underlined (line ++ line') (marks ++ marks') = underlined line marks ++
        underlined line' marks' := by
  rw [underlined, List.zip_append h, List.filter_append, List.map_append]
  rfl

theorem underlined_eq_nil {marks : List Char} (h : '^' ∉ marks) (line : List Char) :
    underlined line marks = [] := by
  rw [underlined, List.map_eq_nil_iff, List.filter_eq_nil_iff]
  intro pair hpair hcaret
  apply h
  rw [← of_decide_eq_true hcaret]
  exact (List.of_mem_zip hpair).2

theorem underlined_carets (line : List Char) (n : Nat) :
    underlined line (List.replicate n '^') = line.take n := by
  induction n generalizing line with
  | zero => cases line <;> rfl
  | succ n ih =>
    cases line with
    | nil => rfl
    | cons c line =>
      rw [List.take_succ_cons, ← ih]
      rfl

theorem underlined_indented (line : List Char) (indent n : Nat) :
    underlined line (List.replicate indent ' ' ++ List.replicate n '^') =
      (line.drop indent).take n := by
  induction indent generalizing line with
  | zero => exact underlined_carets line n
  | succ indent ih =>
    cases line with
    | nil => simp [underlined]
    | cons c line =>
      rw [List.drop_succ_cons, ← ih]
      rfl

/-- Of a stretch of a line that loses its end, that much is left that lies in front of the end. -/
theorem exists_cut {left inside right line lost : List Char}
    (h : left ++ (inside ++ right) = line ++ lost) :
    ∃ cut, (line.drop left.length).take inside.length ++ cut = inside ∧ cut ⊆ lost ∧
      (cut ≠ [] → right ⊆ lost) := by
  rcases List.append_eq_append_iff.mp h with ⟨kept, rfl, hkept⟩ | ⟨gone, rfl, rfl⟩
  · rcases List.append_eq_append_iff.mp hkept with ⟨more, rfl, -⟩ | ⟨cut, rfl, rfl⟩
    · refine ⟨[], ?_, List.nil_subset _, (absurd rfl ·)⟩
      rw [List.drop_left, List.take_left, List.append_nil]
    · refine ⟨cut, ?_, List.subset_append_left _ _, fun _ => List.subset_append_right _ _⟩
      rw [List.drop_left, List.take_of_length_le (by simp)]
  · refine ⟨inside, ?_, ?_, fun _ => ?_⟩
    · rw [List.drop_of_length_le (by simp), List.take_nil, List.nil_append]
    · exact List.Subset.trans (List.subset_append_left _ _) (List.subset_append_right _ _)
    · exact List.Subset.trans (List.subset_append_right _ _) (List.subset_append_right _ _)

/-- An excerpt of the stretch `inside` of the source line `left ++ inside ++ right`, in three
lines. -/
structure Underlines (number : Nat) (left inside right top shown marks : List Char) : Prop where
  top_eq : top = List.replicate (toString number).length ' ' ++ " |".toList
  /-- The source line stands behind its number, without its last carriage returns. -/
  shown_eq : shown = (toString number).toList ++ " | ".toList ++
    (left ++ (inside ++ right)).rdropWhile (· == '\r')
  /-- There are as many carets as the stretch has characters. -/
  marks_eq : marks = List.replicate (toString number).length ' ' ++ " | ".toList ++
    (List.replicate left.length ' ' ++ List.replicate inside.length '^')
  /-- They stand below these characters, unless the line ends in front of them. -/
  covers : ∃ cut, underlined shown marks ++ cut = inside ∧ (∀ c ∈ cut, c = '\r') ∧
    (cut ≠ [] → ∀ c ∈ right, c = '\r')

/-- What an excerpt draws, line by line, is what it should show. -/
theorem underlines_drawn (number : Nat) (left inside right : List Char) :
    Underlines number left inside right
      (List.replicate (toString number).length ' ' ++ " |".toList)
      ((toString number).toList ++ " | ".toList ++
        (left ++ (inside ++ right)).rdropWhile (· == '\r'))
      (List.replicate (toString number).length ' ' ++ " | ".toList ++
        (List.replicate left.length ' ' ++ List.replicate inside.length '^')) := by
  refine ⟨rfl, rfl, rfl, ?_⟩
  have hmargin : '^' ∉ List.replicate (toString number).length ' ' ++ " | ".toList := by simp
  have hlength : ((toString number).toList ++ " | ".toList).length =
      (List.replicate (toString number).length ' ' ++ " | ".toList).length := by
    rw [List.length_append, List.length_append, String.length_toList, List.length_replicate]
  obtain ⟨cut, hcut, hinside, hright⟩ :=
    exists_cut (List.rdropWhile_append_rtakeWhile (p := (· == '\r'))
      (l := left ++ (inside ++ right))).symm
  refine ⟨cut, ?_, fun c hc => ?_, fun hne c hc => ?_⟩
  · rw [underlined_append hlength, underlined_eq_nil hmargin, List.nil_append,
      underlined_indented, hcut]
  · simpa using List.mem_rtakeWhile_imp (hinside hc)
  · simpa using List.mem_rtakeWhile_imp (hright hne hc)

theorem not_mem_toString (number : Nat) : '\n' ∉ (toString number).toList := by
  intro h
  rw [Nat.toString_eq_ofList_toDigits, String.toList_ofList] at h
  have := Nat.isDigit_of_mem_toDigits (by decide) (by decide) h
  simp at this

namespace Lines

/-- An excerpt puts the line, behind its number, between an empty gutter and the carets. -/
theorem exists_excerpt {m : Lines} {span : Span} {line : List Char}
    (h : m.lineText span.start.line = some line) :
    ∃ drawn, m.excerpt span = some drawn ∧
      drawn.toList =
        List.replicate (toString span.start.line).length ' ' ++ " |".toList ++ '\n' ::
          ((toString span.start.line).toList ++ " | ".toList ++ line ++ '\n' ::
            (List.replicate (toString span.start.line).length ' ' ++ " | ".toList ++
              (List.replicate (span.start.column - 1) ' ' ++
                List.replicate (caretCount span) '^'))) := by
  refine ⟨_, by rw [excerpt, h, Option.map_some], ?_⟩
  simp only [gutter, String.toList_append, String.toList_ofList, List.append_assoc]
  rfl

/-- The excerpt of a stretch without line breaks underlines it. -/
theorem excerpt_advanceOver (before inside after : List Char) (hne : inside ≠ [])
    (hinside : '\n' ∉ inside) :
    ∃ drawn top shown marks,
      (ofText (before ++ (inside ++ after))).excerpt
        ⟨Position.start.advanceOver before, Position.start.advanceOver (before ++ inside)⟩ =
          some drawn ∧
      drawn.toList.splitOn '\n' = [top, shown, marks] ∧
      Underlines (before.count '\n' + 1) (before.rtakeWhile (· != '\n')) inside
        (after.takeWhile (· != '\n')) top shown marks := by
  have hline := lineText_ofText (before ++ (inside ++ after)) (before.count '\n')
  rw [getElem?_splitOn_inside before after hinside, Option.map_some] at hline
  have hcarets : caretCount
      ⟨Position.start.advanceOver before, Position.start.advanceOver (before ++ inside)⟩ =
        inside.length := by
    have hpos := List.length_pos_of_ne_nil hne
    rw [Position.advanceOver_append, Position.advanceOver_of_not_mem hinside, caretCount]
    simp [hpos]
  rw [Position.start_advanceOver before] at hcarets ⊢
  obtain ⟨drawn, hdrawn, hlines⟩ := @exists_excerpt _ ⟨⟨_, _, _⟩, _⟩ _ hline
  rw [hcarets, Nat.add_sub_cancel] at hlines
  refine ⟨drawn, _, _, _, hdrawn, ?_, underlines_drawn _ _ _ _⟩
  have hclear : '\n' ∉ before.rtakeWhile (· != '\n') ++
      (inside ++ after.takeWhile (· != '\n')) := by
    simp only [List.mem_append, not_or]
    exact ⟨not_mem_rtakeWhile_break before, hinside, not_mem_takeWhile_break after⟩
  have hshown : '\n' ∉ (toString (before.count '\n' + 1)).toList ++ " | ".toList ++
      (before.rtakeWhile (· != '\n') ++
        (inside ++ after.takeWhile (· != '\n'))).rdropWhile (· == '\r') := by
    rw [List.mem_append, List.mem_append, not_or, not_or]
    refine ⟨⟨not_mem_toString _, by decide⟩, fun h => ?_⟩
    exact hclear ((List.rdropWhile_prefix _ _).subset h)
  rw [hlines, List.splitOn_append_cons_self_of_not_mem (by simp),
    List.splitOn_append_cons_self_of_not_mem hshown, List.splitOn_eq_singleton (by simp)]

/-- Excerpts underline what their span covers. The lines of a text are its stretches between line
breaks, without the carriage returns at their ends. For a span that covers some text without line
breaks and whose two positions are those of its offsets, the excerpt has three lines, and its carets
stand, character for character, below the stretch that the span covers. -/
theorem excerpt_underlines (text : List Char) :
    (ofText text).lineText 0 = none ∧
    (∀ index, (ofText text).lineText (index + 1) =
      ((text.splitOn '\n')[index]?).map (List.rdropWhile (· == '\r'))) ∧
    (∀ number, ((ofText text).lineText number).isSome ↔
      1 ≤ number ∧ number ≤ (ofText text).count) ∧
    ∀ span : Span, (ofText text).positionAt span.start.offset = span.start →
      (ofText text).positionAt span.stop.offset = span.stop →
      span.slice text ≠ [] → '\n' ∉ span.slice text →
      ∃ before after drawn top shown marks,
        text = before ++ (span.slice text ++ after) ∧
        byteLength before = span.start.offset ∧
        (text.splitOn '\n')[span.start.line - 1]? =
          some (before.rtakeWhile (· != '\n') ++
            (span.slice text ++ after.takeWhile (· != '\n'))) ∧
        (ofText text).excerpt span = some drawn ∧
        drawn.toList.splitOn '\n' = [top, shown, marks] ∧
        Underlines span.start.line (before.rtakeWhile (· != '\n')) (span.slice text)
          (after.takeWhile (· != '\n')) top shown marks := by
  refine ⟨rfl, lineText_ofText text, fun number => ?_, fun span hstart hstop hne hinside => ?_⟩
  · cases number with
    | zero => simp [lineText]
    | succ index =>
      rw [lineText_ofText, count_ofText, Option.isSome_map, isSome_getElem?]
      simp
  · obtain ⟨before, after, htext, hbefore, hbehind⟩ := Span.exists_of_slice_ne_nil hne
    generalize span.slice text = inside at htext hne hinside hbehind ⊢
    subst htext
    obtain ⟨start, stop⟩ := span
    dsimp only at hstart hstop hbefore hbehind
    obtain rfl : Position.start.advanceOver before = start := by
      rw [← hstart, ← hbefore, positionAt_byteLength]
    obtain rfl : Position.start.advanceOver (before ++ inside) = stop := by
      rw [← hstop, ← hbehind, ← List.append_assoc, positionAt_byteLength]
    obtain ⟨drawn, top, shown, marks, hdrawn, hlines, hunderlines⟩ :=
      excerpt_advanceOver before inside after hne hinside
    have hnumber : (Position.start.advanceOver before).line = before.count '\n' + 1 := by
      rw [Position.start_advanceOver]
    refine ⟨before, after, drawn, top, shown, marks, rfl, hbefore, ?_, hdrawn, hlines, ?_⟩
    · rw [hnumber, Nat.add_sub_cancel, getElem?_splitOn_inside before after hinside]
    · rw [hnumber]
      exact hunderlines

/-- A stretch that begins with a character of three bytes and takes in the first of two carriage
returns at the end of its line. -/
theorem excerpt_underlines_up_to_carriageReturn :
    (ofText "é\r\na→b\r\r\nz".toList).positionAt 5 = ⟨5, 2, 2⟩ ∧
    (ofText "é\r\na→b\r\r\nz".toList).positionAt 10 = ⟨10, 2, 5⟩ ∧
    Span.slice ⟨⟨5, 2, 2⟩, ⟨10, 2, 5⟩⟩ "é\r\na→b\r\r\nz".toList = "→b\r".toList ∧
    (ofText "é\r\na→b\r\r\nz".toList).excerpt ⟨⟨5, 2, 2⟩, ⟨10, 2, 5⟩⟩ =
      some "  |\n2 | a→b\n  |  ^^^" ∧
    ∃ left right top shown marks,
      ("é\r\na→b\r\r\nz".toList.splitOn '\n')[1]? = some (left ++ ("→b\r".toList ++ right)) ∧
      "  |\n2 | a→b\n  |  ^^^".toList.splitOn '\n' = [top, shown, marks] ∧
      Underlines 2 left "→b\r".toList right top shown marks := by
  have hstart : (ofText "é\r\na→b\r\r\nz".toList).positionAt 5 = ⟨5, 2, 2⟩ := by decide +kernel
  have hstop : (ofText "é\r\na→b\r\r\nz".toList).positionAt 10 = ⟨10, 2, 5⟩ := by decide +kernel
  have hslice : Span.slice ⟨⟨5, 2, 2⟩, ⟨10, 2, 5⟩⟩ "é\r\na→b\r\r\nz".toList = "→b\r".toList := by
    decide +kernel
  have hexcerpt : (ofText "é\r\na→b\r\r\nz".toList).excerpt ⟨⟨5, 2, 2⟩, ⟨10, 2, 5⟩⟩ =
      some "  |\n2 | a→b\n  |  ^^^" := by
    decide +kernel
  obtain ⟨before, after, drawn, top, shown, marks, -, -, hsource, hdrawn, hlines, hunderlines⟩ :=
    (excerpt_underlines "é\r\na→b\r\r\nz".toList).2.2.2 ⟨⟨5, 2, 2⟩, ⟨10, 2, 5⟩⟩ hstart hstop
      (by rw [hslice]; decide) (by rw [hslice]; decide)
  rw [hexcerpt, Option.some_inj] at hdrawn
  rw [hslice] at hsource hunderlines
  rw [← hdrawn] at hlines
  exact ⟨hstart, hstop, hslice, hexcerpt, _, _, top, shown, marks, hsource, hlines, hunderlines⟩

end Lines
end Source
end AnnotatedGrammar
