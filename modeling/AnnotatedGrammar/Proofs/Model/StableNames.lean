import AnnotatedGrammar.Proofs.Model.Names

/-!
# Names that stay as they are

A name made of a text is its own name: making it again changes nothing, whatever characters the text
holds. A field name is a word in small letters, digits and single underscores with none at the ends,
behind which one underscore may stand. Reading such a word writes it down as it is, and trimming it
loses only what stands behind it. A class name is one run of letters and digits that begins with a
capital letter.
-/

namespace AnnotatedGrammar.Naming

/-! ## Small letters and single underscores -/

/-- Characters that are not both underscores. -/
def Apart (c d : Char) : Prop := ¬(c = '_' ∧ d = '_')

theorem Apart.symm {c d : Char} (h : Apart c d) : Apart d c := fun h' => h h'.symm

theorem Apart.of_left {c : Char} (h : c ≠ '_') (d : Char) : Apart c d := fun h' => h h'.1

theorem Apart.of_right {c d : Char} (h : d ≠ '_') : Apart c d := fun h' => h h'.2

theorem ne_underscore_of_small {c : Char} (h : (c.isLower || c.isDigit) = true) : c ≠ '_' := by
  rintro rfl
  exact Bool.false_ne_true h

theorem IsSnake.toLower {c : Char} (h : IsSnake c) : c.toLower = c :=
  Char.toLower_eq_of_not_isUpper (by rw [h.small]; decide)

theorem IsSnake.small_of_ne {c : Char} (h : IsSnake c) (hne : c ≠ '_') :
    (c.isLower || c.isDigit) = true := by
  rw [Bool.or_eq_true]
  exact h.resolve_left hne

theorem toLower_of_small {c : Char} (h : (c.isLower || c.isDigit) = true) : c.toLower = c :=
  IsSnake.toLower (.inr (by rwa [Bool.or_eq_true] at h))

/-- The characters written for one character read: its small letter, or an underscore for whatever
has none. The flag tells whether an underscore marks the beginning of a word in front. -/
def stepOf (written : List Char) (mark : Bool) (c : Char) : List Char :=
  let marked := if mark then '_' :: written else written
  if (c.toLower.isLower || c.toLower.isDigit) = true then c.toLower :: marked
  else if marked.head? = some '_' then marked else '_' :: marked

/-- The beginning of a word is marked only behind a small letter or a digit. -/
theorem snakeFrom_cons (written : List Char) (previous : Option Char) (c : Char)
    (rest : List Char) :
    ∃ mark, snakeFrom written previous (c :: rest) =
        snakeFrom (stepOf written mark c) (some c) rest ∧
      (mark = true → c.isUpper = true ∧
        ∃ p, previous = some p ∧ (p.isLower || p.isDigit) = true) := by
  refine ⟨c.isUpper && previous.any fun p => p.isLower || p.isDigit, ?_, fun hmark => ?_⟩
  · cases previous <;> rfl
  · rw [Bool.and_eq_true, Option.any_eq_true] at hmark
    exact hmark

/-- What is written while a text is read has no underscore behind another, and a small letter or a
digit read last was written last. -/
structure Writes (written : List Char) (previous : Option Char) : Prop where
  apart : written.IsChain Apart
  last : ∀ p, previous = some p → (p.isLower || p.isDigit) = true → written.head? = some p

theorem isChain_cons_of_head? {c : Char} {written : List Char} (h : written.IsChain Apart)
    (hhead : c = '_' → written.head? ≠ some '_') : (c :: written).IsChain Apart := by
  refine List.isChain_cons.mpr ⟨fun d hd hboth => ?_, h⟩
  rw [hboth.2] at hd
  exact hhead hboth.1 hd

theorem Writes.step {written : List Char} {previous : Option Char} (h : Writes written previous)
    {mark : Bool} {c : Char} (hmark : mark = true →
      c.isUpper = true ∧ ∃ p, previous = some p ∧ (p.isLower || p.isDigit) = true) :
    Writes (stepOf written mark c) (some c) := by
  have hmarked : (if mark then '_' :: written else written).IsChain Apart := by
    by_cases hset : mark = true
    · obtain ⟨-, p, hprevious, hsmall⟩ := hmark hset
      rw [if_pos hset]
      refine isChain_cons_of_head? h.apart fun _ hhead => ?_
      rw [h.last p hprevious hsmall, Option.some_inj] at hhead
      exact ne_underscore_of_small hsmall hhead
    · rw [if_neg hset]
      exact h.apart
  unfold stepOf
  generalize (if mark then '_' :: written else written) = marked at hmarked
  by_cases hsmall : (c.toLower.isLower || c.toLower.isDigit) = true
  · simp only [if_pos hsmall]
    refine ⟨isChain_cons_of_head? hmarked fun heq => ?_, fun p hp hpsmall => ?_⟩
    · exact absurd heq (ne_underscore_of_small hsmall)
    · obtain rfl := Option.some.inj hp
      rw [List.head?_cons, toLower_of_small hpsmall]
  · simp only [if_neg hsmall]
    -- a small letter or a digit is read as itself, so this is neither
    have hlast : ∀ p, some c = some p → ¬(p.isLower || p.isDigit) = true := by
      intro p hp hpsmall
      obtain rfl := Option.some.inj hp
      rw [toLower_of_small hpsmall] at hsmall
      exact hsmall hpsmall
    by_cases hhead : marked.head? = some '_'
    · rw [if_pos hhead]
      exact ⟨hmarked, fun p hp hpsmall => absurd hpsmall (hlast p hp)⟩
    · rw [if_neg hhead]
      exact ⟨isChain_cons_of_head? hmarked fun _ => hhead,
        fun p hp hpsmall => absurd hpsmall (hlast p hp)⟩

theorem Writes.snakeFrom {written : List Char} {previous : Option Char}
    (h : Writes written previous) (text : List Char) :
    (snakeFrom written previous text).IsChain Apart := by
  induction text generalizing written previous with
  | nil => exact h.apart
  | cons c rest ih =>
    obtain ⟨mark, hstep, hmark⟩ := snakeFrom_cons written previous c rest
    rw [hstep]
    exact ih (h.step hmark)

/-! ## Words that read as they are -/

/-- A word in small letters, digits and single underscores, with none at the ends. -/
structure IsSnakeWord (word : List Char) : Prop where
  chars : ∀ c ∈ word, IsSnake c
  apart : word.IsChain Apart
  first : word.head? ≠ some '_'
  last : word.getLast? ≠ some '_'

theorem head?_dropWhile_ne (text : List Char) :
    (text.dropWhile (· == '_')).head? ≠ some '_' := by
  intro h
  have hnot := List.head?_dropWhile_not (· == '_') text
  rw [h] at hnot
  exact Bool.false_ne_true (hnot.symm.trans (by decide))

theorem isSnakeWord_snakeCase (text : List Char) : IsSnakeWord (snakeCase text) := by
  have hwrites : Writes [] none := ⟨.nil, fun p hp => by cases hp⟩
  have hchain := hwrites.snakeFrom text
  have hsnake : ∀ c ∈ snakeFrom [] none text, IsSnake c := snakeFrom_spec (by simp)
  have hfront := List.dropWhile_suffix (· == '_') (l := snakeFrom [] none text)
  have hback := List.dropWhile_suffix (· == '_')
    (l := ((snakeFrom [] none text).dropWhile (· == '_')).reverse)
  refine ⟨fun c hc => ?_, ?_, head?_dropWhile_ne _, fun hlast => ?_⟩
  · exact hsnake c (hfront.subset (List.mem_reverse.mp (hback.subset hc)))
  · refine List.IsChain.suffix (List.isChain_reverse.mpr ?_) hback
    exact (hchain.suffix hfront).imp fun _ _ => Apart.symm
  · -- the end of the word is the beginning of what was written last, which is trimmed first
    obtain ⟨before, hbefore⟩ := hback
    refine head?_dropWhile_ne (snakeFrom [] none text) ?_
    rw [← List.getLast?_reverse, ← hbefore, List.getLast?_append]
    exact congrArg (Option.or · before.getLast?) hlast

/-- A word in small letters and single underscores is written down as it stands. -/
theorem snakeFrom_eq {word : List Char} (hchars : ∀ c ∈ word, IsSnake c) (ending : List Char)
    {written : List Char} (happart : (word.reverse ++ written).IsChain Apart)
    (previous : Option Char) :
    ∃ previous', snakeFrom written previous (word ++ ending) =
      snakeFrom (word.reverse ++ written) previous' ending := by
  induction word generalizing written previous with
  | nil => exact ⟨previous, rfl⟩
  | cons c rest ih =>
    obtain ⟨hc, hrest⟩ := List.forall_mem_cons.mp hchars
    obtain ⟨mark, hstep, hmark⟩ := snakeFrom_cons written previous c (rest ++ ending)
    obtain rfl : mark = false := by
      by_contra hset
      rw [Bool.not_eq_false] at hset
      exact Bool.false_ne_true (hc.small.symm.trans (hmark hset).1)
    rw [List.reverse_cons, List.append_assoc, List.singleton_append] at happart
    have hwritten : stepOf written false c = c :: written := by
      unfold stepOf
      rw [hc.toLower]
      by_cases hne : c = '_'
      · subst hne
        have hhead : written.head? ≠ some '_' := fun hhead =>
          (List.isChain_cons.mp happart.right_of_append).1 '_' hhead ⟨rfl, rfl⟩
        exact if_neg hhead
      · exact if_pos (hc.small_of_ne hne)
    obtain ⟨previous', hread⟩ := ih hrest happart (some c)
    refine ⟨previous', ?_⟩
    rw [List.cons_append, hstep, hwritten, hread, List.reverse_cons, List.append_assoc,
      List.singleton_append]

/-- Underscores at the end are trimmed again. -/
theorem dropWhile_snakeFrom {ending : List Char} (hending : ∀ c ∈ ending, c = '_')
    (written : List Char) (previous : Option Char) :
    (snakeFrom written previous ending).dropWhile (· == '_') = written.dropWhile (· == '_') := by
  induction ending generalizing written previous with
  | nil => rfl
  | cons c rest ih =>
    obtain ⟨rfl, hrest⟩ := List.forall_mem_cons.mp hending
    obtain ⟨mark, hstep, hmark⟩ := snakeFrom_cons written previous '_' rest
    obtain rfl : mark = false := by
      by_contra hset
      rw [Bool.not_eq_false] at hset
      exact Bool.false_ne_true (hmark hset).1
    rw [hstep, ih hrest]
    by_cases hhead : written.head? = some '_'
    · exact congrArg _ (if_pos hhead)
    · exact (congrArg _ (if_neg hhead)).trans (List.dropWhile_cons_of_pos rfl)

theorem dropWhile_eq_of_head? {text : List Char} (h : text.head? ≠ some '_') :
    text.dropWhile (· == '_') = text := by
  cases text with
  | nil => rfl
  | cons c rest =>
    refine List.dropWhile_cons_of_neg fun heq => h ?_
    rw [beq_iff_eq.mp heq]
    rfl

/-- Such a word is its own reading, with any underscores behind it. -/
theorem IsSnakeWord.snakeCase_append {word : List Char} (h : IsSnakeWord word)
    {ending : List Char} (hending : ∀ c ∈ ending, c = '_') : snakeCase (word ++ ending) = word := by
  have hreverse : (word.reverse ++ []).IsChain Apart := by
    rw [List.append_nil]
    exact List.isChain_reverse.mpr (h.apart.imp fun _ _ => Apart.symm)
  obtain ⟨previous, hread⟩ := snakeFrom_eq h.chars ending hreverse none
  have hlast : word.reverse.head? ≠ some '_' := by
    rw [List.head?_reverse]
    exact h.last
  unfold snakeCase
  rw [hread, dropWhile_snakeFrom hending, List.append_nil, dropWhile_eq_of_head? hlast,
    List.reverse_reverse, dropWhile_eq_of_head? h.first]

/-! ## Field names -/

/-- A word that begins with a letter: a digit at the beginning is put behind one. -/
def lettered : List Char → List Char
  | [] => []
  | c :: rest => if c.isDigit then 'f' :: '_' :: c :: rest else c :: rest

theorem lettered_lettered (word : List Char) : lettered (lettered word) = lettered word := by
  cases word with
  | nil => rfl
  | cons c rest =>
    by_cases hdigit : c.isDigit = true
    · rw [lettered, if_pos hdigit]
      rfl
    · rw [lettered, if_neg hdigit, lettered, if_neg hdigit]

theorem isSnakeWord_lettered {word : List Char} (h : IsSnakeWord word) :
    IsSnakeWord (lettered word) := by
  cases word with
  | nil => exact h
  | cons c rest =>
    by_cases hdigit : c.isDigit = true
    · rw [lettered, if_pos hdigit]
      have hc : c ≠ '_' := fun heq => h.first (congrArg some heq)
      refine ⟨?_, ?_, by simp, ?_⟩
      · exact List.forall_mem_cons.mpr
          ⟨.inr (.inl (by decide)), List.forall_mem_cons.mpr ⟨.inl rfl, h.chars⟩⟩
      · exact .cons_cons (Apart.of_left (by decide) '_') (.cons_cons (Apart.of_right hc) h.apart)
      · rw [List.getLast?_cons_cons, List.getLast?_cons_cons]
        exact h.last
    · rw [lettered, if_neg hdigit]
      exact h

theorem lettered_ne_nil {word : List Char} (h : word ≠ []) : lettered word ≠ [] := by
  cases word with
  | nil => exact h
  | cons c rest =>
    rw [lettered]
    split <;> exact List.cons_ne_nil _ _

/-- A word as a field name, with an underscore behind it if it is taken. -/
def freed (word : List Char) : String :=
  if isReserved (String.ofList word) || memberWords.contains (String.ofList word)
  then String.ofList word ++ "_" else String.ofList word

theorem freed_cases (word : List Char) :
    ∃ ending, (freed word).toList = word ++ ending ∧ (ending = [] ∨ ending = ['_']) := by
  unfold freed
  split
  · exact ⟨['_'], by rw [String.toList_append, String.toList_ofList]; rfl, .inr rfl⟩
  · exact ⟨[], by rw [String.toList_ofList, List.append_nil], .inl rfl⟩

theorem fieldName_eq_some_iff {text name : String} : fieldName text = some name ↔
    snakeCase text.toList ≠ [] ∧ name = freed (lettered (snakeCase text.toList)) := by
  unfold fieldName
  cases snakeCase text.toList with
  | nil => simp
  | cons c rest => exact ⟨fun h => ⟨List.cons_ne_nil c rest, (Option.some.inj h).symm⟩,
      fun h => congrArg some h.2.symm⟩

/-- The name of a word is its own name. -/
theorem IsSnakeWord.fieldName_freed {word : List Char} (h : IsSnakeWord word) (hne : word ≠ []) :
    fieldName (freed word) = some (freed (lettered word)) := by
  obtain ⟨ending, htext, hending⟩ := freed_cases word
  have hword : snakeCase (freed word).toList = word := by
    rw [htext]
    refine h.snakeCase_append ?_
    rcases hending with rfl | rfl <;> simp
  rw [fieldName_eq_some_iff, hword]
  exact ⟨hne, rfl⟩

/-- No two underscores of a name stand side by side, the one at its end included. -/
theorem IsSnakeWord.isChain_freed {word : List Char} (h : IsSnakeWord word) :
    (freed word).toList.IsChain Apart := by
  obtain ⟨ending, htext, rfl | rfl⟩ := freed_cases word
  · rw [htext, List.append_nil]
    exact h.apart
  · rw [htext, List.isChain_append]
    refine ⟨h.apart, .singleton _, fun c hc d _ hboth => h.last ?_⟩
    rw [← hboth.1]
    exact hc

theorem not_infix_of_isChain {text : List Char} (h : text.IsChain Apart) :
    ¬['_', '_'] <:+: text := by
  rintro ⟨before, behind, rfl⟩
  have hpair : ['_', '_'].IsChain Apart := h.left_of_append.right_of_append
  exact (List.isChain_cons_cons.mp hpair).1 ⟨rfl, rfl⟩

/-! ## Class names -/

theorem wordsFrom_underscores {run ending : List Char} (hending : ∀ c ∈ ending, c = '_') :
    wordsFrom run ending = if run.isEmpty then [] else [run.reverse] := by
  induction ending generalizing run with
  | nil => rfl
  | cons c rest ih =>
    obtain ⟨rfl, hrest⟩ := List.forall_mem_cons.mp hending
    have hnone : wordsFrom [] rest = [] := ih hrest
    rw [wordsFrom, if_neg (by decide), hnone]

/-- A run of letters and digits is one word, with any underscores behind it. -/
theorem wordsFrom_append {run text ending : List Char} (htext : ∀ c ∈ text, c.isAlphanum = true)
    (hending : ∀ c ∈ ending, c = '_') (hne : run.reverse ++ text ≠ []) :
    wordsFrom run (text ++ ending) = [run.reverse ++ text] := by
  induction text generalizing run with
  | nil =>
    rw [List.append_nil] at hne ⊢
    rw [List.nil_append, wordsFrom_underscores hending, if_neg]
    rwa [List.isEmpty_iff, ← List.reverse_eq_nil_iff]
  | cons c rest ih =>
    obtain ⟨hc, hrest⟩ := List.forall_mem_cons.mp htext
    rw [List.cons_append, wordsFrom, if_pos hc, ih hrest (by simp), List.reverse_cons,
      List.append_assoc, List.singleton_append]

/-- A run of letters and digits behind a capital letter is its own name. -/
theorem camelCase_append {c : Char} {rest ending : List Char} (hc : c.isUpper = true)
    (hchars : ∀ x ∈ c :: rest, x.isAlphanum = true) (hending : ∀ x ∈ ending, x = '_') :
    camelCase (c :: rest ++ ending) = some (c :: rest) := by
  have hwords : words (c :: rest ++ ending) = [c :: rest] :=
    wordsFrom_append hchars hending (by simp)
  have hcapital : capitalize (c :: rest) = c :: rest :=
    congrArg (· :: rest) (Char.toUpper_eq_of_not_isLower (Char.not_isLower_of_isUpper hc))
  have hdigit : ¬c.isDigit = true := fun hdigit =>
    Bool.false_ne_true ((isUpper_eq_false_of_isDigit hdigit).symm.trans hc)
  unfold camelCase
  rw [hwords, List.flatMap_singleton, hcapital]
  exact if_neg hdigit

theorem className_stable {text name : String} (h : className text "" = some name) :
    className name "" = some name := by
  obtain ⟨chars, hchars, rfl⟩ := Option.map_eq_some_iff.mp h
  obtain ⟨c, rest, rfl, hc, hall⟩ := camelCase_spec hchars
  have hagain : ∀ ending, (∀ x ∈ ending, x = '_') →
      className (String.ofList (c :: rest ++ ending)) "" =
        some (avoidReserved ("" ++ String.ofList (c :: rest))) := by
    intro ending hending
    unfold className
    rw [String.toList_ofList, camelCase_append hc hall hending]
    rfl
  rcases avoidReserved_cases ("" ++ String.ofList (c :: rest)) with ⟨heq, -⟩ | heq
  · have hkept := hagain [] (by simp)
    rw [heq] at hkept ⊢
    rwa [List.append_nil, ← String.empty_append (s := String.ofList (c :: rest))] at hkept
  · have hkept := hagain ['_'] (by simp)
    rw [heq] at hkept ⊢
    rwa [String.ofList_append, ← String.empty_append (s := String.ofList (c :: rest))] at hkept

/-! ## Both kinds of names -/

/-- Names are made once: the field name of a field name is that name, and the class name of a class
name is that name. In a field name no underscore stands at the beginning or behind another. -/
theorem names_stable (text : String) :
    (∀ name, fieldName text = some name →
      fieldName name = some name ∧ ¬['_', '_'] <:+: name.toList ∧ ¬['_'] <+: name.toList) ∧
    ∀ name, className text "" = some name → className name "" = some name := by
  refine ⟨fun name hname => ?_, fun name => className_stable⟩
  obtain ⟨hne, rfl⟩ := fieldName_eq_some_iff.mp hname
  have hword := isSnakeWord_lettered (isSnakeWord_snakeCase text.toList)
  have hne' := lettered_ne_nil hne
  refine ⟨?_, not_infix_of_isChain hword.isChain_freed, fun hfirst => hword.first ?_⟩
  · rw [hword.fieldName_freed hne', lettered_lettered]
  · obtain ⟨ending, htext, -⟩ := freed_cases (lettered (snakeCase text.toList))
    obtain ⟨rest, hrest⟩ := hfirst
    rw [htext] at hrest
    rw [← List.head?_append_of_ne_nil _ hne', ← hrest]
    rfl

/-- A reserved name gets its underscore once. -/
theorem names_stable_reserved :
    (fieldName "Class-Name" = some "class_name_" ∧
      fieldName "class_name_" = some "class_name_" ∧
      ¬['_', '_'] <:+: "class_name_".toList ∧ ¬['_'] <+: "class_name_".toList) ∧
    className "tag" "" = some "Tag_" ∧ className "Tag_" "" = some "Tag_" := by
  have hfield : fieldName "Class-Name" = some "class_name_" := by cbv
  have hclass : className "tag" "" = some "Tag_" := by cbv
  exact ⟨⟨hfield, (names_stable "Class-Name").1 _ hfield⟩, hclass, (names_stable "tag").2 _ hclass⟩

end AnnotatedGrammar.Naming
