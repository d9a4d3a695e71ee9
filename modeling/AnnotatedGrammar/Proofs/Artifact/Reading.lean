import Mathlib.Data.List.TakeWhile
import Mathlib.Data.List.Infix
import AnnotatedGrammar.Naming

/-!
# Reading generated files

What a generated file declares and uses is read off its lines, without knowing what it was written
from: a name is a run of letters and digits behind a fixed text, and a block is what stands between
a line that opens it and the next line that closes it.
-/

namespace AnnotatedGrammar

/-! ## Names -/

namespace ArtifactText

/-- The name that a text begins with. -/
def word (text : List Char) : List Char := text.takeWhile Naming.isLetterOrDigit

/-- The name behind the fixed text at the start of a line. -/
def wordBehind? (start : String) (line : List Char) : Option (List Char) :=
  (start.toList.isPrefixOf? line).map word

/-- All names in a line. -/
def words (line : List Char) : List (List Char) :=
  (line.splitOnP fun c => !Naming.isLetterOrDigit c).filter (· ≠ [])

/-- A line without the blanks in front of it. -/
def unindented (line : List Char) : List Char := line.dropWhile (· == ' ')

theorem unindented_replicate (n : Nat) (text : List Char) :
    unindented (List.replicate n ' ' ++ text) = unindented text :=
  List.dropWhile_append_of_pos fun _ hc => beq_iff_eq.mpr (List.eq_of_mem_replicate hc)

/-- A text that is all one name. -/
def IsWord (text : List Char) : Prop := text ≠ [] ∧ text.all Naming.isLetterOrDigit = true

instance {text : List Char} : Decidable (IsWord text) :=
  inferInstanceAs (Decidable (text ≠ [] ∧ text.all Naming.isLetterOrDigit = true))

variable {name text : List Char} {c : Char}

theorem isWord_toList {text : String} (h : Naming.isIdentifier text = true) :
    IsWord text.toList := by
  unfold Naming.isIdentifier at h
  split at h
  next => cases h
  next c rest htext =>
    rw [Bool.and_eq_true] at h
    have hletter : Naming.isLetterOrDigit c = true := by
      simp only [Naming.isLetter, Naming.isLetterOrDigit, Char.isAlphanum, Bool.or_eq_true] at h ⊢
      exact h.1.imp_left .inl
    refine ⟨by simp [htext], ?_⟩
    rw [htext, List.all_cons, hletter, h.2, Bool.and_self]

theorem IsWord.not_mem (h : IsWord name) (hc : Naming.isLetterOrDigit c = false) : c ∉ name := by
  intro hmem
  rw [List.all_eq_true.mp h.2 c hmem] at hc
  cases hc

/-- A name ends where a character that is in no name stands. -/
theorem IsWord.word_append (h : IsWord name) (hc : Naming.isLetterOrDigit c = false)
    (rest : List Char) : word (name ++ c :: rest) = name := by
  rw [word, List.takeWhile_append_of_pos (List.all_eq_true.mp h.2),
    List.takeWhile_cons_of_neg (by simp [hc]), List.append_nil]

theorem IsWord.reverse (h : IsWord name) : IsWord name.reverse :=
  ⟨by simpa using h.1, by rw [List.all_reverse]; exact h.2⟩

/-- A name begins with no blank. -/
theorem IsWord.unindented_append (h : IsWord name) (rest : List Char) :
    unindented (name ++ rest) = name ++ rest := by
  obtain ⟨c, more, rfl⟩ := List.exists_cons_of_ne_nil h.1
  have hc : c ≠ ' ' := by
    rintro rfl
    exact h.not_mem (c := ' ') (by decide) List.mem_cons_self
  rw [List.cons_append, unindented, List.dropWhile_cons_of_neg (by simpa using hc)]

/-- The characters of the name of a type, which may be qualified and have arguments. -/
def isTypeChar (c : Char) : Bool := Naming.isLetterOrDigit c || [':', '<', '>'].contains c

/-- A text that has only characters of types in it. -/
def IsType (text : List Char) : Prop := text.all isTypeChar = true

instance {text : List Char} : Decidable (IsType text) :=
  inferInstanceAs (Decidable (text.all isTypeChar = true))

theorem IsWord.isType (h : IsWord name) : IsType name :=
  List.all_eq_true.mpr fun c hc => by
    rw [isTypeChar, List.all_eq_true.mp h.2 c hc, Bool.true_or]

theorem IsType.not_mem (h : IsType text) (hc : isTypeChar c = false) : c ∉ text := by
  intro hmem
  rw [List.all_eq_true.mp h c hmem] at hc
  cases hc

theorem IsType.unbroken (h : IsType text) : '\n' ∉ text := h.not_mem (by decide)

theorem IsWord.unbroken (h : IsWord name) : '\n' ∉ name := h.isType.unbroken

theorem IsType.append {more : List Char} (h : IsType text) (hmore : IsType more) :
    IsType (text ++ more) := by
  rw [IsType, List.all_append, h, hmore, Bool.and_self]

/-- A text that begins with another character does not begin with a fixed text. -/
theorem isPrefixOf?_of_head? {start : List Char} (h : text.head? ≠ some c) :
    (c :: start).isPrefixOf? text = none := by
  cases text with
  | nil => rfl
  | cons first rest =>
    have hfirst : (c == first) = false := by
      rw [beq_eq_false_iff_ne]
      rintro rfl
      exact h rfl
    rw [List.isPrefixOf?, hfirst]
    rfl

/-- Nor does a text whose fixed beginning differs from it somewhere. -/
theorem isPrefixOf?_append_eq_none {start other : List Char} (h : ¬start <+: other)
    (h' : ¬other <+: start) (rest : List Char) : start.isPrefixOf? (other ++ rest) = none := by
  rw [Option.eq_none_iff_forall_ne_some]
  intro tail htail
  have hstart : start <+: other ++ rest :=
    ⟨tail, List.isPrefixOf?_eq_some_iff_append_eq.mp htail⟩
  exact (List.prefix_or_prefix_of_prefix hstart (List.prefix_append _ _)).elim h h'

theorem wordBehind?_append (start : String) (text : List Char) :
    wordBehind? start (start.toList ++ text) = some (word text) := by
  rw [wordBehind?, List.isPrefixOf?_eq_some_iff_append_eq.mpr rfl, Option.map_some]

theorem not_mem_intercalate {separator : List Char} {parts : List (List Char)}
    (hseparator : c ∉ separator) (hparts : ∀ part ∈ parts, c ∉ part) :
    c ∉ separator.intercalate parts := by
  induction parts with
  | nil => exact List.not_mem_nil
  | cons first more ih =>
    obtain ⟨hfirst, hmore⟩ := List.forall_mem_cons.mp hparts
    cases more with
    | nil => rwa [List.intercalate_singleton]
    | cons next others =>
      rw [List.intercalate_cons_cons]
      exact List.not_mem_append (List.not_mem_append hfirst hseparator) (ih hmore)

/-! ## Blocks -/

variable {α β : Type} {opens : List Char → Option α} {closes : List Char → Bool}

/-- Every line that opens a block, with the lines behind it up to the next one that closes it. -/
def blocks (opens : List Char → Option α) (closes : List Char → Bool) :
    List (List Char) → List (α × List (List Char))
  | [] => []
  | line :: rest =>
    match opens line with
    | some a => (a, rest.takeWhile (!closes ·)) :: blocks opens closes rest
    | none => blocks opens closes rest

/-- Lines that open nothing are passed over. -/
theorem blocks_append {lines : List (List Char)} (h : ∀ line ∈ lines, opens line = none)
    (rest : List (List Char)) : blocks opens closes (lines ++ rest) = blocks opens closes rest := by
  induction lines with
  | nil => rfl
  | cons line more ih =>
    obtain ⟨hline, hmore⟩ := List.forall_mem_cons.mp h
    rw [List.cons_append, blocks, hline, ih hmore]

theorem blocks_eq_nil {lines : List (List Char)} (h : ∀ line ∈ lines, opens line = none) :
    blocks opens closes lines = [] := by
  rw [← List.append_nil lines, blocks_append h]
  rfl

/-- A block up to the end of the text or to a line that closes it. -/
theorem blocks_cons {head : List Char} {body rest : List (List Char)} {a : α}
    (hhead : opens head = some a) (hbody : ∀ line ∈ body, opens line = none ∧ closes line = false)
    (hrest : ∀ line ∈ rest.head?, closes line = true) :
    blocks opens closes (head :: (body ++ rest)) = (a, body) :: blocks opens closes rest := by
  have hkept : (body ++ rest).takeWhile (!closes ·) = body := by
    rw [List.takeWhile_append_of_pos fun line hline => by simp [(hbody line hline).2]]
    cases rest with
    | nil => exact List.append_nil _
    | cons line more =>
      rw [List.takeWhile_cons_of_neg (by simp [hrest line rfl]), List.append_nil]
  rw [blocks, hhead]
  dsimp only
  rw [hkept, blocks_append fun line hline => (hbody line hline).1]

/-- A block from the line that opens it to the line that closes it. -/
theorem blocks_block {head last : List Char} {body : List (List Char)} {a : α}
    (hhead : opens head = some a) (hbody : ∀ line ∈ body, opens line = none ∧ closes line = false)
    (hlast : opens last = none ∧ closes last = true) (rest : List (List Char)) :
    blocks opens closes (head :: (body ++ [last]) ++ rest) =
      (a, body) :: blocks opens closes rest := by
  have hskip : blocks opens closes (last :: rest) = blocks opens closes rest := by
    rw [blocks, hlast.1]
  rw [List.cons_append, List.append_assoc, List.singleton_append,
    blocks_cons hhead hbody (by simp [hlast.2]), hskip]

end ArtifactText

end AnnotatedGrammar
