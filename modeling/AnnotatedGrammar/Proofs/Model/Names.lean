import Mathlib
import AnnotatedGrammar.Naming

/-!
# Names that may stand in generated files

A class name has a capital letter and a field name has none, so that they are never the same. No
reserved word ends with an underscore or a digit: a name with an underscore or a number behind it is
free to use, if it is a name at all.
-/

namespace AnnotatedGrammar.Naming

/-! ## Identifiers -/

theorem isIdentifier_iff {name : String} : isIdentifier name = true ↔
    ∃ c rest, name.toList = c :: rest ∧ isLetter c = true ∧
      ∀ x ∈ rest, isLetterOrDigit x = true := by
  unfold isIdentifier
  cases name.toList with
  | nil => simp
  | cons c rest => simp [and_assoc]

theorem isIdentifier_append {name suffix : String} (h : isIdentifier name = true)
    (hsuffix : ∀ x ∈ suffix.toList, isLetterOrDigit x = true) :
    isIdentifier (name ++ suffix) = true := by
  obtain ⟨c, rest, heq, hc, hrest⟩ := isIdentifier_iff.mp h
  refine isIdentifier_iff.mpr ⟨c, rest ++ suffix.toList, ?_, hc, fun x hx => ?_⟩
  · rw [String.toList_append, heq, List.cons_append]
  · rcases List.mem_append.mp hx with hx | hx
    · exact hrest x hx
    · exact hsuffix x hx

theorem isLetterOrDigit_of_isAlphanum {c : Char} (h : c.isAlphanum = true) :
    isLetterOrDigit c = true := by
  rw [isLetterOrDigit, h, Bool.true_or]

theorem isLetterOrDigit_of_isLetter {c : Char} (h : isLetter c = true) :
    isLetterOrDigit c = true := by
  unfold isLetter at h
  unfold isLetterOrDigit Char.isAlphanum
  cases hc : c.isAlpha <;> simp_all

/-! ## Reserved words -/

/-- Whether a character is one that no reserved word ends with. -/
def isFreeEnd (c : Char) : Bool := c == '_' || c.isDigit

theorem reserved_end : ∀ word ∈ reservedWords ++ memberWords,
    word.toList.getLast?.any isFreeEnd = false := by
  decide

/-- A name with such an end is no reserved word. -/
theorem not_mem_of_isFreeEnd {name : String} (h : name.toList.getLast?.any isFreeEnd = true) :
    isReserved name = false ∧ memberWords.contains name = false := by
  have hnot : name ∉ reservedWords ++ memberWords := fun hmem =>
    Bool.false_ne_true ((reserved_end name hmem).symm.trans h)
  rw [List.mem_append, not_or] at hnot
  unfold isReserved
  exact ⟨by simpa using hnot.1, by simpa using hnot.2⟩

theorem toList_numbered (base : String) (n : Nat) :
    (numbered base n).toList = base.toList ++ '_' :: Nat.toDigits 10 n := by
  unfold numbered
  rw [String.toList_append, String.toList_append, Nat.toString_eq_ofList_toDigits,
    String.toList_ofList]
  simp

theorem numbered_free (base : String) (n : Nat) :
    isReserved (numbered base n) = false ∧ memberWords.contains (numbered base n) = false := by
  have hne : Nat.toDigits 10 n ≠ [] := Nat.toDigits_ne_nil
  refine not_mem_of_isFreeEnd ?_
  rw [toList_numbered, List.getLast?_append, List.getLast?_cons_of_ne_nil hne,
    List.getLast?_eq_some_getLast hne]
  have hdigit := Nat.isDigit_of_mem_toDigits (by decide) (by decide) (List.getLast_mem hne)
  simp [isFreeEnd, hdigit]

theorem underscored_free (name : String) :
    isReserved (name ++ "_") = false ∧ memberWords.contains (name ++ "_") = false := by
  refine not_mem_of_isFreeEnd ?_
  rw [String.toList_append]
  simp [isFreeEnd]

theorem isLetterOrDigit_numbered (n : Nat) {c : Char} (h : c ∈ '_' :: Nat.toDigits 10 n) :
    isLetterOrDigit c = true := by
  rcases List.mem_cons.mp h with rfl | h
  · rfl
  · have hdigit := Nat.isDigit_of_mem_toDigits (by decide) (by decide) h
    exact isLetterOrDigit_of_isAlphanum (by rw [Char.isAlphanum, hdigit, Bool.or_true])

/-! ## Names that are not taken -/

theorem numbered_injective (base : String) : Function.Injective (numbered base) := by
  intro m n h
  have hlist := congrArg String.toList h
  rw [toList_numbered, toList_numbered] at hlist
  have hdigits : Nat.toDigits 10 m = Nat.toDigits 10 n := by simpa using hlist
  rw [← Nat.ofDigitChars_ten_toDigits (n := m), hdigits, Nat.ofDigitChars_ten_toDigits]

theorem numbered_ne (base : String) (n : Nat) : numbered base n ≠ base := by
  intro h
  have hlength := congrArg (List.length ∘ String.toList) h
  simp only [Function.comp_apply, toList_numbered, List.length_append, List.length_cons] at hlength
  omega

theorem uniqueName_cases (base : String) (bound : Nat) (taken : String → Bool) :
    uniqueName base bound taken = base ∨ ∃ n, uniqueName base bound taken = numbered base n := by
  unfold uniqueName
  split
  · cases (List.range' 2 bound).find? _ with
    | none => exact .inl rfl
    | some n => exact .inr ⟨n, rfl⟩
  · exact .inl rfl

/-- What holds of a name and of its numbered forms holds of the name that is not taken. -/
theorem uniqueName_induction {P : String → Prop} {base : String} (bound : Nat)
    (taken : String → Bool) (hbase : P base) (hnumbered : ∀ n, P (numbered base n)) :
    P (uniqueName base bound taken) := by
  rcases uniqueName_cases base bound taken with h | ⟨n, h⟩
  · rw [h]
    exact hbase
  · rw [h]
    exact hnumbered n

/-- The name is not taken, as there are more numbered forms than names taken. -/
theorem uniqueName_fresh (base : String) {bound : Nat} {taken : String → Bool} {names : List String}
    (hnames : ∀ name, taken name = true → name ∈ names) (hbound : names.length ≤ bound) :
    taken (uniqueName base bound taken) = false := by
  unfold uniqueName
  by_cases hbase : taken base = true
  · rw [if_pos hbase]
    cases hfound : (List.range' 2 bound).find? fun n => !taken (numbered base n) with
    | some n => simpa using List.find?_some hfound
    | none =>
      exfalso
      have hall : ∀ n ∈ List.range' 2 bound, taken (numbered base n) = true := by
        simpa using hfound
      let candidates := base :: (List.range' 2 bound).map (numbered base)
      have hnodup : candidates.Nodup := by
        refine List.nodup_cons.mpr
          ⟨?_, List.Nodup.map (numbered_injective base) (List.nodup_range' ..)⟩
        rw [List.mem_map]
        rintro ⟨n, -, hn⟩
        exact numbered_ne base n hn
      have hsub : candidates ⊆ names := by
        intro name hname
        rcases List.mem_cons.mp hname with rfl | hname
        · exact hnames _ hbase
        · obtain ⟨n, hn, rfl⟩ := List.mem_map.mp hname
          exact hnames _ (hall n hn)
      have hle := (List.subperm_of_subset hnodup hsub).length_le
      simp only [candidates, List.length_cons, List.length_map, List.length_range'] at hle
      omega
  · rw [if_neg hbase]
    simpa using hbase

theorem uniqueAmong_fresh (base : String) (names : List String) :
    uniqueAmong base names ∉ names := by
  have hfresh := @uniqueName_fresh base names.length names.contains names
    (fun name h => List.contains_iff_mem.mp h) (Nat.le_refl names.length)
  intro hmem
  rw [← List.contains_iff_mem] at hmem
  exact Bool.false_ne_true (hfresh.symm.trans hmem)

/-! ## Kinds of names -/

/-- A name that a class may have. -/
structure IsClassName (name : String) : Prop where
  identifier : isIdentifier name = true
  free : isReserved name = false
  capital : ∃ c ∈ name.toList, c.isUpper = true

/-- A name that a field may have. -/
structure IsFieldName (name : String) : Prop where
  identifier : isIdentifier name = true
  free : isReserved name = false
  noMember : memberWords.contains name = false
  small : ∀ c ∈ name.toList, c.isUpper = false

/-- A name that a variant may have. -/
structure IsTag (name : String) : Prop where
  identifier : isIdentifier name = true
  free : isReserved name = false

theorem isUpper_eq_false_of_isDigit {c : Char} (h : c.isDigit = true) : c.isUpper = false := by
  rw [Char.isDigit_iff_toNat] at h
  simp only [Char.isUpper, decide_eq_false_iff_not, ge_iff_le, UInt32.le_iff_toNat_le]
  intro hupper
  exact absurd (Nat.le_trans hupper.1 h.2) (by decide)

theorem isUpper_numbering (n : Nat) {c : Char} (h : c ∈ '_' :: Nat.toDigits 10 n) :
    c.isUpper = false := by
  rcases List.mem_cons.mp h with rfl | h
  · rfl
  · exact isUpper_eq_false_of_isDigit (Nat.isDigit_of_mem_toDigits (by decide) (by decide) h)

theorem isIdentifier_numbered {base : String} (h : isIdentifier base = true) (n : Nat) :
    isIdentifier (numbered base n) = true := by
  have heq : numbered base n = base ++ String.ofList ('_' :: Nat.toDigits 10 n) := by
    rw [← String.toList_inj, toList_numbered, String.toList_append, String.toList_ofList]
  rw [heq]
  refine isIdentifier_append h fun x hx => ?_
  rw [String.toList_ofList] at hx
  exact isLetterOrDigit_numbered n hx

theorem IsClassName.numbered {base : String} (h : IsClassName base) (n : Nat) :
    IsClassName (numbered base n) := by
  obtain ⟨c, hc, hupper⟩ := h.capital
  refine ⟨isIdentifier_numbered h.identifier n, (numbered_free base n).1, c, ?_, hupper⟩
  rw [toList_numbered]
  exact List.mem_append_left _ hc

theorem IsFieldName.numbered {base : String} (h : IsFieldName base) (n : Nat) :
    IsFieldName (numbered base n) := by
  refine ⟨isIdentifier_numbered h.identifier n, (numbered_free base n).1, (numbered_free base n).2,
    fun c hc => ?_⟩
  rw [toList_numbered] at hc
  rcases List.mem_append.mp hc with hc | hc
  · exact h.small c hc
  · exact isUpper_numbering n hc

theorem IsTag.numbered {base : String} (h : IsTag base) (n : Nat) : IsTag (numbered base n) :=
  ⟨isIdentifier_numbered h.identifier n, (numbered_free base n).1⟩

/-- No field is called as a class is. -/
theorem IsFieldName.ne {name other : String} (h : IsFieldName name) (h' : IsClassName other) :
    name ≠ other := by
  rintro rfl
  obtain ⟨c, hc, hupper⟩ := h'.capital
  exact Bool.false_ne_true ((h.small c hc).symm.trans hupper)

/-! ## Names made of texts -/

theorem isAlphanum_toUpper {c : Char} (h : c.isAlphanum = true) : c.toUpper.isAlphanum = true := by
  rw [Char.isAlphanum, Bool.or_eq_true] at h ⊢
  rcases h with h | h
  · exact .inl (by rw [Char.isAlpha_toUpper_eq_isAlpha, h])
  · by_cases hlower : c.isLower = true
    · refine .inl ?_
      rw [Char.isAlpha_toUpper_eq_isAlpha, Char.isAlpha, hlower, Bool.or_true]
    · exact .inr (by rw [Char.toUpper_eq_of_not_isLower hlower, h])

theorem wordsFrom_spec {run text : List Char} (hrun : ∀ c ∈ run, c.isAlphanum = true) :
    ∀ word ∈ wordsFrom run text, word ≠ [] ∧ ∀ c ∈ word, c.isAlphanum = true := by
  have hword {run : List Char} (hempty : ¬run.isEmpty = true)
      (hrun : ∀ c ∈ run, c.isAlphanum = true) :
      run.reverse ≠ [] ∧ ∀ c ∈ run.reverse, c.isAlphanum = true := by
    refine ⟨fun h => hempty ?_, fun c hc => hrun c (List.mem_reverse.mp hc)⟩
    rw [List.reverse_eq_nil_iff.mp h]
    rfl
  fun_induction wordsFrom run text with
  | case1 run hempty => simp
  | case2 run hempty => simpa using hword hempty hrun
  | case3 run c rest hc ih =>
    refine ih fun x hx => ?_
    rcases List.mem_cons.mp hx with rfl | hx
    · exact hc
    · exact hrun x hx
  | case4 run c rest hc hempty ih => exact ih (by simp)
  | case5 run c rest hc hempty ih =>
    intro word hmem
    rcases List.mem_cons.mp hmem with rfl | hmem
    · exact hword hempty hrun
    · exact ih (by simp) word hmem

theorem capitalize_spec {word : List Char} (hne : word ≠ [])
    (hword : ∀ c ∈ word, c.isAlphanum = true) :
    ∃ c rest, capitalize word = c :: rest ∧ (c.isUpper = true ∨ c.isDigit = true) ∧
      ∀ x ∈ capitalize word, x.isAlphanum = true := by
  cases word with
  | nil => exact absurd rfl hne
  | cons c rest =>
    obtain ⟨hc, hrest⟩ := List.forall_mem_cons.mp hword
    refine ⟨c.toUpper, rest, rfl, ?_, List.forall_mem_cons.mpr ⟨isAlphanum_toUpper hc, hrest⟩⟩
    rw [Char.isUpper_toUpper_eq_isAlpha]
    by_cases halpha : c.isAlpha = true
    · exact .inl halpha
    · refine .inr ?_
      rw [Char.isAlphanum, Bool.or_eq_true] at hc
      have hlower : ¬c.isLower = true := fun h => halpha (by rw [Char.isAlpha, h, Bool.or_true])
      rw [Char.toUpper_eq_of_not_isLower hlower]
      exact hc.resolve_left halpha

/-- Words run together begin with a capital letter. -/
theorem camelCase_spec {text name : List Char} (h : camelCase text = some name) :
    ∃ c rest, name = c :: rest ∧ c.isUpper = true ∧ ∀ x ∈ name, x.isAlphanum = true := by
  have hwords : ∀ word ∈ words text, word ≠ [] ∧ ∀ c ∈ word, c.isAlphanum = true :=
    wordsFrom_spec (by simp)
  have hall : ∀ x ∈ (words text).flatMap capitalize, x.isAlphanum = true := by
    intro x hx
    obtain ⟨word, hword, hx⟩ := List.mem_flatMap.mp hx
    obtain ⟨hne, hchars⟩ := hwords word hword
    obtain ⟨_, _, -, -, hcapital⟩ := capitalize_spec hne hchars
    exact hcapital x hx
  have hfirst : ∀ c rest, (words text).flatMap capitalize = c :: rest →
      c.isUpper = true ∨ c.isDigit = true := by
    intro c rest heq
    cases hlist : words text with
    | nil =>
      rw [hlist] at heq
      cases heq
    | cons word others =>
      obtain ⟨hne, hchars⟩ := hwords word (by rw [hlist]; exact List.mem_cons_self)
      obtain ⟨c', rest', hcapital, hc', -⟩ := capitalize_spec hne hchars
      rw [hlist, List.flatMap_cons, hcapital, List.cons_append] at heq
      obtain ⟨rfl, -⟩ := List.cons.inj heq
      exact hc'
  unfold camelCase at h
  cases hname : (words text).flatMap capitalize with
  | nil =>
    rw [hname] at h
    cases h
  | cons c rest =>
    rw [hname] at h hall
    dsimp only at h
    split at h
    · obtain rfl := Option.some.inj h
      exact ⟨'T', c :: rest, rfl, by decide, List.forall_mem_cons.mpr ⟨by decide, hall⟩⟩
    · rename_i hdigit
      obtain rfl := Option.some.inj h
      exact ⟨c, rest, rfl, (hfirst c rest hname).resolve_right hdigit, hall⟩

theorem avoidReserved_cases (name : String) : avoidReserved name = name ∧ isReserved name = false ∨
    avoidReserved name = name ++ "_" := by
  unfold avoidReserved
  cases isReserved name <;> simp

/-- What comes before every class name is a name itself, or nothing. -/
def IsBeginning (beginning : String) : Prop := beginning = "" ∨ isIdentifier beginning = true

theorem IsBeginning.append {beginning : String} (h : IsBeginning beginning) {c : Char}
    {rest : List Char} (hc : c.isUpper = true) (hchars : ∀ x ∈ c :: rest, x.isAlphanum = true) :
    isIdentifier (beginning ++ String.ofList (c :: rest)) = true ∧
      ∃ x ∈ (beginning ++ String.ofList (c :: rest)).toList, x.isUpper = true := by
  refine ⟨?_, c, ?_, hc⟩
  · rcases h with rfl | h
    · rw [String.empty_append]
      refine isIdentifier_iff.mpr ⟨c, rest, String.toList_ofList, ?_, fun x hx =>
        isLetterOrDigit_of_isAlphanum (hchars x (List.mem_cons_of_mem c hx))⟩
      rw [isLetter, Char.isAlpha, hc, Bool.true_or, Bool.true_or]
    · refine isIdentifier_append h fun x hx => ?_
      rw [String.toList_ofList] at hx
      exact isLetterOrDigit_of_isAlphanum (hchars x hx)
  · rw [String.toList_append, String.toList_ofList]
    exact List.mem_append_right _ List.mem_cons_self

/-- A name that is reserved if at all as it stands gets an end that sets it free. -/
theorem avoidReserved_spec {name : String} (h : isIdentifier name = true) :
    isIdentifier (avoidReserved name) = true ∧ isReserved (avoidReserved name) = false ∧
      ∀ c ∈ name.toList, c ∈ (avoidReserved name).toList := by
  rcases avoidReserved_cases name with ⟨heq, hfree⟩ | heq
  · rw [heq]
    exact ⟨h, hfree, fun _ hc => hc⟩
  · rw [heq]
    refine ⟨isIdentifier_append h (by simp [isLetterOrDigit]), (underscored_free name).1,
      fun c hc => ?_⟩
    rw [String.toList_append]
    exact List.mem_append_left _ hc

theorem className_isClassName {text beginning name : String} (hbeginning : IsBeginning beginning)
    (h : className text beginning = some name) : IsClassName name := by
  obtain ⟨chars, hchars, rfl⟩ := Option.map_eq_some_iff.mp h
  obtain ⟨c, rest, rfl, hc, hall⟩ := camelCase_spec hchars
  obtain ⟨hidentifier, x, hx, hupper⟩ := hbeginning.append hc hall
  obtain ⟨hidentifier', hfree, hkept⟩ := avoidReserved_spec hidentifier
  exact ⟨hidentifier', hfree, x, hkept x hx, hupper⟩

/-- The name of a class whose text yields none. -/
theorem isClassName_default {beginning : String} (hbeginning : IsBeginning beginning) :
    IsClassName (beginning ++ "Class") := by
  obtain ⟨hidentifier, hupper⟩ := @IsBeginning.append beginning hbeginning 'C' ['l', 'a', 's', 's']
    (by decide) (by simp [Char.isAlphanum, Char.isAlpha])
  refine ⟨hidentifier, ?_, hupper⟩
  have hnot : beginning ++ "Class" ∉ reservedWords := by
    intro hmem
    have hsuffix : "Class".toList <:+ (beginning ++ "Class").toList := by
      rw [String.toList_append]
      exact List.suffix_append _ _
    have hnone : ∀ word ∈ reservedWords, ¬"Class".toList <:+ word.toList := by decide
    exact hnone _ hmem hsuffix
  simpa [isReserved] using hnot

/-! ## Field names -/

/-- A small letter, a digit or an underscore. -/
def IsSnake (c : Char) : Prop := c = '_' ∨ c.isLower = true ∨ c.isDigit = true

theorem snakeFrom_spec {written text : List Char} {previous : Option Char}
    (hwritten : ∀ c ∈ written, IsSnake c) : ∀ c ∈ snakeFrom written previous text, IsSnake c := by
  induction text generalizing written previous with
  | nil => exact hwritten
  | cons c rest ih =>
    obtain ⟨mark, hstep⟩ : ∃ mark : Bool, snakeFrom written previous (c :: rest) =
        let marked := if mark then '_' :: written else written
        snakeFrom (if c.toLower.isLower || c.toLower.isDigit then c.toLower :: marked
          else if marked.head? = some '_' then marked else '_' :: marked) (some c) rest :=
      ⟨_, rfl⟩
    have hmarked : ∀ x ∈ if mark then '_' :: written else written, IsSnake x := by
      split
      · exact List.forall_mem_cons.mpr ⟨.inl rfl, hwritten⟩
      · exact hwritten
    rw [hstep]
    refine ih ?_
    generalize (if mark then '_' :: written else written) = marked at hmarked
    split
    · rename_i hsmall
      exact List.forall_mem_cons.mpr ⟨.inr (Bool.or_eq_true_iff.mp hsmall), hmarked⟩
    · split
      · exact hmarked
      · exact List.forall_mem_cons.mpr ⟨.inl rfl, hmarked⟩

theorem snakeCase_spec {text : List Char} {c : Char} {rest : List Char}
    (h : snakeCase text = c :: rest) :
    c ≠ '_' ∧ ∀ x ∈ c :: rest, IsSnake x := by
  unfold snakeCase at h
  have hall : ∀ x ∈ c :: rest, IsSnake x := by
    intro x hx
    rw [← h] at hx
    have hmem := (List.dropWhile_sublist _).subset hx
    rw [List.mem_reverse] at hmem
    exact snakeFrom_spec (by simp) x ((List.dropWhile_sublist _).subset hmem)
  refine ⟨?_, hall⟩
  rintro rfl
  have hne : ((snakeFrom [] none text).dropWhile (· == '_')).reverse.dropWhile (· == '_') ≠ [] := by
    rw [h]
    simp
  have hhead := List.head_dropWhile_not (· == '_') hne
  simp [h] at hhead

theorem IsSnake.letterOrDigit {c : Char} (h : IsSnake c) : isLetterOrDigit c = true := by
  rcases h with rfl | h | h
  · rfl
  · exact isLetterOrDigit_of_isAlphanum (by rw [Char.isAlphanum, Char.isAlpha, h]; simp)
  · exact isLetterOrDigit_of_isAlphanum (by rw [Char.isAlphanum, h]; simp)

theorem IsSnake.small {c : Char} (h : IsSnake c) : c.isUpper = false := by
  rcases h with rfl | h | h
  · rfl
  · exact Bool.not_eq_true _ ▸ Char.not_isUpper_of_isLower h
  · exact isUpper_eq_false_of_isDigit h

/-- A name in small letters gets an end that sets it free, if it needs one. -/
theorem isFieldName_of_snake {c : Char} {rest : List Char} (hc : isLetter c = true)
    (hall : ∀ x ∈ c :: rest, IsSnake x) :
    IsFieldName (if isReserved (String.ofList (c :: rest)) ||
        memberWords.contains (String.ofList (c :: rest))
      then String.ofList (c :: rest) ++ "_" else String.ofList (c :: rest)) := by
  have hidentifier : isIdentifier (String.ofList (c :: rest)) = true :=
    isIdentifier_iff.mpr ⟨c, rest, String.toList_ofList, hc, fun x hx =>
      (hall x (List.mem_cons_of_mem c hx)).letterOrDigit⟩
  split
  · have hfree := underscored_free (String.ofList (c :: rest))
    refine ⟨isIdentifier_append hidentifier (by simp [isLetterOrDigit]), hfree.1, hfree.2,
      fun x hx => ?_⟩
    rw [String.toList_append, String.toList_ofList] at hx
    rcases List.mem_append.mp hx with hx | hx
    · exact (hall x hx).small
    · obtain rfl : x = '_' := by simpa using hx
      rfl
  · rename_i hfree
    rw [Bool.or_eq_true, not_or, Bool.not_eq_true, Bool.not_eq_true] at hfree
    refine ⟨hidentifier, hfree.1, hfree.2, fun x hx => ?_⟩
    rw [String.toList_ofList] at hx
    exact (hall x hx).small

theorem fieldName_isFieldName {text name : String} (h : fieldName text = some name) :
    IsFieldName name := by
  unfold fieldName at h
  cases hsnake : snakeCase text.toList with
  | nil =>
    rw [hsnake] at h
    cases h
  | cons c rest =>
    obtain ⟨hc, hall⟩ := snakeCase_spec hsnake
    rw [hsnake] at h
    obtain rfl := Option.some.inj h
    split
    · exact isFieldName_of_snake (by decide) (List.forall_mem_cons.mpr
        ⟨.inr (.inl (by decide)), List.forall_mem_cons.mpr ⟨.inl rfl, hall⟩⟩)
    · rename_i hdigit
      refine isFieldName_of_snake ?_ hall
      rcases hall c List.mem_cons_self with h | h | h
      · exact absurd h hc
      · rw [isLetter, Char.isAlpha, h]
        simp
      · exact absurd h hdigit

/-- The name of a field whose text yields none. -/
theorem isFieldName_default : IsFieldName "value" :=
  ⟨by decide, by decide, by decide, by simp [Char.isUpper]⟩

/-! ## Tags -/

theorem reserved_capital : ∀ word ∈ reservedWords, word.toList.head?.any Char.isUpper = true →
    word = "Tag" := by
  decide

/-- A name that begins as the one reserved name with a capital letter does not is free. -/
theorem isReserved_eq_false_of_prefix {start : List Char} {name : String}
    (h : start <+: name.toList)
    (hcapital : start.head?.any Char.isUpper = true) (htag : ¬start <+: "Tag".toList) :
    isReserved name = false := by
  have hnot : name ∉ reservedWords := by
    intro hmem
    obtain ⟨rest, hrest⟩ := h
    obtain rfl := reserved_capital name hmem (by
      rw [← hrest]
      cases start with
      | nil => cases hcapital
      | cons c start => exact hcapital)
    exact htag ⟨rest, hrest⟩
  simpa [isReserved] using hnot

/-- A spelled punctuation character as a part of a tag. -/
def spelledPart (word : String) : List Char := capitalize (word.toList.map Char.toLower)

theorem spelledPart_spec {c : Char} {word : String} (h : spellPunctuation? c = some word) :
    isIdentifier (String.ofList (spelledPart word)) = true ∧
      (spelledPart word).head?.any Char.isUpper = true ∧ ¬spelledPart word <+: "Tag".toList := by
  have hall {table : List (Char × String)} (h : table.lookup c = some word)
      (htable : ∀ entry ∈ table, isIdentifier (String.ofList (spelledPart entry.2)) = true ∧
        (spelledPart entry.2).head?.any Char.isUpper = true ∧
          ¬spelledPart entry.2 <+: "Tag".toList) :
      isIdentifier (String.ofList (spelledPart word)) = true ∧
        (spelledPart word).head?.any Char.isUpper = true ∧
          ¬spelledPart word <+: "Tag".toList := by
    obtain ⟨before, after, rfl, -⟩ := List.lookup_eq_some_iff.mp h
    exact htable (c, word) (by simp)
  exact hall h (by decide +kernel)

theorem tagName_isTag {text name : String} (h : tagName text = some name) : IsTag name := by
  unfold tagName at h
  split at h
  · obtain ⟨chars, hchars, rfl⟩ := Option.map_eq_some_iff.mp h
    obtain ⟨c, rest, rfl, hc, hall⟩ := camelCase_spec hchars
    have hidentifier := (IsBeginning.append (.inl rfl) hc hall).1
    rw [String.empty_append] at hidentifier
    have hspec := avoidReserved_spec hidentifier
    exact ⟨hspec.1, hspec.2.1⟩
  · cases hspelled : text.toList.filterMap spellPunctuation? with
    | nil =>
      rw [hspelled] at h
      cases h
    | cons first others =>
      have hspec : ∀ word ∈ first :: others,
          isIdentifier (String.ofList (spelledPart word)) = true ∧
            (spelledPart word).head?.any Char.isUpper = true ∧
              ¬spelledPart word <+: "Tag".toList := by
        intro word hword
        rw [← hspelled] at hword
        obtain ⟨c, -, hc⟩ := List.mem_filterMap.mp hword
        exact spelledPart_spec hc
      obtain ⟨⟨hfirst, hcapital, htag⟩, hothers⟩ := List.forall_mem_cons.mp hspec
      rw [hspelled] at h
      obtain rfl : String.ofList ((first :: others).flatMap spelledPart) = name := Option.some.inj h
      rw [List.flatMap_cons, String.ofList_append]
      refine ⟨isIdentifier_append hfirst fun x hx => ?_, ?_⟩
      · rw [String.toList_ofList] at hx
        obtain ⟨word, hword, hx⟩ := List.mem_flatMap.mp hx
        obtain ⟨c, rest, heq, hc, hrest⟩ := isIdentifier_iff.mp (hothers word hword).1
        rw [String.toList_ofList] at heq
        rw [heq] at hx
        rcases List.mem_cons.mp hx with rfl | hx
        · exact isLetterOrDigit_of_isLetter hc
        · exact hrest x hx
      · refine isReserved_eq_false_of_prefix ?_ hcapital htag
        rw [String.toList_append, String.toList_ofList]
        exact List.prefix_append _ _

/-- The tag of a branch whose text yields none. -/
theorem isTag_default (n : Nat) : IsTag ("Alt" ++ toString n) := by
  have hdigits : ∀ c ∈ (toString n).toList, c.isDigit = true := by
    intro c hc
    rw [Nat.toString_eq_ofList_toDigits, String.toList_ofList] at hc
    exact Nat.isDigit_of_mem_toDigits (by decide) (by decide) hc
  refine ⟨isIdentifier_append (by decide) fun c hc => isLetterOrDigit_of_isAlphanum ?_, ?_⟩
  · rw [Char.isAlphanum, hdigits c hc, Bool.or_true]
  · have hbegins : "Alt".toList <+: ("Alt" ++ toString n).toList := by
      rw [String.toList_append]
      exact List.prefix_append _ _
    exact isReserved_eq_false_of_prefix hbegins (by decide) (by decide)

end AnnotatedGrammar.Naming
