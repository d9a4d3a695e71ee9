import AnnotatedGrammar.Artifact.ParserGrammar
import AnnotatedGrammar.Artifact.Scanner
import AnnotatedGrammar.Proofs.Token.Index

/-!
# String literals denote their texts

A text written as a string literal reads back as itself, whatever stands behind the literal: every
quote inside has an odd number of backslashes in front of it, and no control character that ends a
line is left. So different texts have different literals, and the scanner and the parser tell the
tokens of a grammar apart.
-/

namespace AnnotatedGrammar

/-- What a backslash and the character behind it stand for. -/
def cppMeaning? (c : Char) : Option Char :=
  if c = '"' ∨ c = '\\' then some c
  else if c = 'n' then some '\n'
  else if c = 't' then some '\t'
  else if c = 'r' then some '\r'
  else none

/-- Reads a string literal behind its opening quote: the text that it denotes, and what stands
behind its closing quote. A character without a meaning of its own stands for itself. -/
def readCppBody : List Char → Option (List Char × List Char)
  | [] => none
  | '"' :: rest => some ([], rest)
  | '\\' :: c :: rest =>
    match cppMeaning? c with
    | some meant => (readCppBody rest).map (Prod.map (meant :: ·) id)
    | none => (readCppBody (c :: rest)).map (Prod.map ('\\' :: ·) id)
  | c :: rest => (readCppBody rest).map (Prod.map (c :: ·) id)

/-- Reads a string literal. -/
def readCppString : List Char → Option (List Char × List Char)
  | '"' :: rest => readCppBody rest
  | _ => none

variable {c : Char} {text before after : List Char}

/-! ## Reading back -/

/-- A character stands for itself, or another one stands for it behind a backslash. -/
theorem cppEscape_cases (c : Char) :
    (cppEscape c = [c] ∧ c ∉ ['"', '\\', '\n', '\t', '\r']) ∨
      ∃ d, cppEscape c = ['\\', d] ∧ cppMeaning? d = some c := by
  unfold cppEscape
  split_ifs with hquote hslash hline htab hreturn
  · exact .inr ⟨'"', rfl, by rw [hquote]; rfl⟩
  · exact .inr ⟨'\\', rfl, by rw [hslash]; rfl⟩
  · exact .inr ⟨'n', rfl, by rw [hline]; rfl⟩
  · exact .inr ⟨'t', rfl, by rw [htab]; rfl⟩
  · exact .inr ⟨'r', rfl, by rw [hreturn]; rfl⟩
  · exact .inl ⟨rfl, by simp [hquote, hslash, hline, htab, hreturn]⟩

theorem not_mem_of_cppMeaning? {d : Char} (h : cppMeaning? d = some c) :
    d ∉ ['\n', '\t', '\r'] := by
  intro hd
  simp only [List.mem_cons, List.not_mem_nil, or_false] at hd
  rcases hd with rfl | rfl | rfl <;> cases h

theorem readCppBody_escape (c : Char) (rest : List Char) :
    readCppBody (cppEscape c ++ rest) = (readCppBody rest).map (Prod.map (c :: ·) id) := by
  rcases cppEscape_cases c with ⟨hplain, hc⟩ | ⟨d, hescape, hmeaning⟩
  · simp only [List.mem_cons, not_or] at hc
    rw [hplain, List.singleton_append, readCppBody.eq_4]
    · exact hc.1
    · intro d more hslash _
      exact hc.2.1 hslash
  · rw [hescape, List.cons_append, List.singleton_append, readCppBody, hmeaning]

theorem readCppBody_flatMap (text rest : List Char) :
    readCppBody (text.flatMap cppEscape ++ '"' :: rest) = some (text, rest) := by
  induction text with
  | nil => rw [List.flatMap_nil, List.nil_append, readCppBody]
  | cons c text ih =>
    rw [List.flatMap_cons, List.append_assoc, readCppBody_escape, ih]
    rfl

theorem readCppString_cppString (text : String) (rest : List Char) :
    readCppString ((cppString text).toList ++ rest) = some (text.toList, rest) := by
  rw [cppString, String.toList_ofList, List.cons_append, List.append_assoc, readCppString,
    List.singleton_append, readCppBody_flatMap]

theorem cppString_injective : Function.Injective cppString := by
  intro a b h
  have ha := readCppString_cppString a []
  rw [h, readCppString_cppString, Option.some_inj, Prod.mk.injEq] at ha
  exact (String.toList_injective ha.1).symm

/-! ## Quotes and control characters -/

/-- The number of backslashes at the end of a text. -/
def slashRun (text : List Char) : Nat := (text.rtakeWhile (· == '\\')).length

theorem even_slashRun_cppEscape (c : Char) : Even (slashRun (cppEscape c)) := by
  rcases cppEscape_cases c with ⟨hplain, hc⟩ | ⟨d, hescape, -⟩
  · have hslash : c ≠ '\\' := fun h => hc (by simp [h])
    simp [slashRun, hplain, List.rtakeWhile, hslash]
  · by_cases hd : d = '\\'
    · rw [hescape, hd]
      decide
    · simp [slashRun, hescape, List.rtakeWhile, hd]

/-- An even run of backslashes in front does not change whether a run is odd. -/
theorem odd_slashRun_append (hbefore : Even (slashRun before)) (h : Odd (slashRun text)) :
    Odd (slashRun (before ++ text)) := by
  unfold slashRun at *
  simp only [List.rtakeWhile, List.length_reverse, List.reverse_append, List.takeWhile_append] at *
  split
  next hall =>
    rw [List.length_append, List.length_reverse, ← hall]
    exact h.add_even hbefore
  next => exact h

/-- In the spelling of a character only a backslash stands in front of a quote. -/
theorem eq_of_cppEscape_eq (h : cppEscape c = before ++ '"' :: after) : before = ['\\'] := by
  rcases cppEscape_cases c with ⟨hplain, hc⟩ | ⟨d, hescape, -⟩
  · have hquote : '"' ∈ [c] := by
      rw [← hplain, h]
      exact List.mem_append_right _ List.mem_cons_self
    exact absurd (List.mem_singleton.mp hquote ▸ List.mem_cons_self) hc
  · rw [hescape] at h
    cases before with
    | nil => simp at h
    | cons slash before =>
      obtain ⟨rfl, hrest⟩ := List.cons.inj h
      cases before with
      | nil => rfl
      | cons => simp at hrest

theorem odd_slashRun (h : text.flatMap cppEscape = before ++ '"' :: after) :
    Odd (slashRun before) := by
  induction text generalizing before with
  | nil => simp at h
  | cons c text ih =>
    rw [List.flatMap_cons] at h
    -- The quote stands behind the spelling of the first character, or in it.
    rcases List.append_eq_append_iff.mp h with ⟨inside, rfl, hinside⟩ | ⟨inside, hc, hinside⟩
    · exact odd_slashRun_append (even_slashRun_cppEscape c) (ih hinside)
    · cases inside with
      | nil =>
        have hodd := @ih [] hinside.symm
        exact absurd hodd (by decide)
      | cons d inside =>
        obtain ⟨rfl, -⟩ := List.cons.inj hinside
        rw [eq_of_cppEscape_eq hc]
        decide

theorem not_mem_flatMap_cppEscape (text : List Char) :
    ∀ c ∈ text.flatMap cppEscape, c ∉ ['\n', '\t', '\r'] := by
  intro d hd
  obtain ⟨c, -, hc⟩ := List.mem_flatMap.mp hd
  rcases cppEscape_cases c with ⟨hplain, hplain'⟩ | ⟨e, hescape, hmeaning⟩
  · rw [hplain, List.mem_singleton] at hc
    subst hc
    exact fun h => hplain' (List.mem_cons_of_mem _ (List.mem_cons_of_mem _ h))
  · rw [hescape] at hc
    rcases List.mem_pair.mp hc with rfl | rfl
    · decide
    · exact not_mem_of_cppMeaning? hmeaning

/-! ## Tokens -/

theorem head?_cppString (text : String) : (cppString text).toList.head? = some '"' := by
  rw [cppString, String.toList_ofList, List.head?_cons]

theorem ScannerRule.head?_display_patternOf (signed : Bool) (p : Pattern) :
    (patternOf signed p).display.toList.head? ≠ some '"' := by
  cases signed <;> cases p <;> decide

theorem ScannerRule.display_patternOf_injective (signed : Bool) :
    Function.Injective fun p => (patternOf signed p).display := by
  intro p p' h
  revert h
  cases signed <;> cases p <;> cases p' <;> decide

/-- Different terminals have different patterns in the scanner. -/
theorem ScannerRule.display_ofEntry_ne (signed : Bool) {e e' : TokenEntry}
    (h : e.terminal ≠ e'.terminal) :
    (ofEntry signed e).pattern.display ≠ (ofEntry signed e').pattern.display := by
  intro heq
  obtain ⟨name, terminal⟩ := e
  obtain ⟨name', terminal'⟩ := e'
  cases terminal with
  | literal text =>
    cases terminal' with
    | literal text' => exact h (congrArg Terminal.literal (cppString_injective heq))
    | pattern p' =>
      have hhead := head?_cppString text
      rw [show cppString text = (patternOf signed p').display from heq] at hhead
      exact head?_display_patternOf signed p' hhead
  | pattern p =>
    cases terminal' with
    | literal text' =>
      have hhead := head?_cppString text'
      rw [show cppString text' = (patternOf signed p).display from heq.symm] at hhead
      exact head?_display_patternOf signed p hhead
    | pattern p' => exact h (congrArg Terminal.pattern (display_patternOf_injective signed heq))

/-- A literal takes one line. -/
theorem unbroken_cppString (text : String) : '\n' ∉ (cppString text).toList := by
  rw [cppString, String.toList_ofList]
  intro hmem
  simp only [List.mem_cons, List.mem_append, List.not_mem_nil, or_false] at hmem
  rcases hmem with hquote | hinside | hquote
  · exact absurd hquote (by decide)
  · exact not_mem_flatMap_cppEscape _ _ hinside List.mem_cons_self
  · exact absurd hquote (by decide)

/-- String literals denote their texts. Read with the usual escapes, a text written as a string
literal is this text again, whatever stands behind it. Between its outer quotes stand no line
breaks, tabs or carriage returns, and no quote without an odd run of backslashes in front of it. So
different terminals have different patterns in the scanner and different aliases in the parser
grammar. -/
theorem cppString_denotes :
    (∀ text rest, readCppString ((cppString text).toList ++ rest) = some (text.toList, rest)) ∧
    (∀ text, ∃ inside, (cppString text).toList = '"' :: (inside ++ ['"']) ∧
      (∀ c ∈ inside, c ∉ ['\n', '\t', '\r']) ∧
      ∀ before after, inside = before ++ '"' :: after → Odd (slashRun before)) ∧
    ∀ (signed : Bool) (e e' : TokenEntry), e.terminal ≠ e'.terminal →
      (ScannerRule.ofEntry signed e).pattern.display ≠
        (ScannerRule.ofEntry signed e').pattern.display ∧
      cppString e.describe ≠ cppString e'.describe := by
  refine ⟨readCppString_cppString, fun text => ?_, fun signed e e' h => ⟨?_, fun heq => ?_⟩⟩
  · refine ⟨text.toList.flatMap cppEscape, ?_, not_mem_flatMap_cppEscape _, ?_⟩
    · rw [cppString, String.toList_ofList]
    · exact fun before after h => odd_slashRun h
  · exact ScannerRule.display_ofEntry_ne signed h
  · exact h (TokenEntry.describeTerminal_injective (cppString_injective heq))

/-- A backslash in front of a quote makes a run of three; and a literal that is spelled like a
pattern is not taken for it. -/
theorem cppString_denotes_slash_before_quote :
    (cppString "\\\"").toList = '"' :: ("\\\\\\\"".toList ++ ['"']) ∧
    readCppString ((cppString "\\\"").toList ++ ['"']) = some ("\\\"".toList, ['"']) ∧
    Odd (slashRun "\\\\\\".toList) ∧
    cppString "'<number>'" ≠ cppString "<number>" := by
  obtain ⟨hread, hinside, htokens⟩ := cppString_denotes
  have hwritten : (cppString "\\\"").toList = '"' :: ("\\\\\\\"".toList ++ ['"']) := by decide
  obtain ⟨inside, heq, -, hodd⟩ := hinside "\\\""
  rw [hwritten, List.cons.injEq, List.append_cancel_right_eq] at heq
  refine ⟨hwritten, hread _ _, hodd _ [] heq.2.symm, ?_⟩
  exact (htokens true ⟨"TOK_1", .literal "<number>"⟩ ⟨"TOK_NUMBER", .pattern .number⟩ (by decide)).2

end AnnotatedGrammar
