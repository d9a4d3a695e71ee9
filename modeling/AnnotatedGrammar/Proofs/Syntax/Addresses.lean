import AnnotatedGrammar.Model.Placement
import AnnotatedGrammar.Proofs.Syntax.Inside

/-!
# Addresses of expressions

An address is the list of steps that lead from an expression to one inside it. The place that is
recorded for an expression of a rule is its address, written without separators: a letter for each
step, and behind the letter of an item or a branch its number. As no number begins with a letter, a
place can be read in one way only, and so it leads to one expression.
-/

namespace AnnotatedGrammar

/-- A step from an expression to one directly inside it; items and branches count from one. -/
inductive ExprStep
  | item (number : Nat)
  | branch (number : Nat)
  | optional
  | repeated
  | group
deriving DecidableEq, Repr

namespace ExprStep

/-- The letter of a step. -/
def letter : ExprStep → Char
  | item _ => 's'
  | branch _ => 'a'
  | optional => 'o'
  | repeated => 'r'
  | group => 'g'

/-- The number of an item or a branch, in decimal digits. -/
def digits : ExprStep → List Char
  | item number | branch number => Nat.toDigits 10 number
  | optional | repeated | group => []

/-- A step as places write it. -/
def text (step : ExprStep) : List Char := step.letter :: step.digits

theorem isDigit_digits (step : ExprStep) : ∀ c ∈ step.digits, c.isDigit = true := by
  cases step with
  | item number | branch number =>
    exact fun c hc => Nat.isDigit_of_mem_toDigits (by decide) (by decide) hc
  | optional | repeated | group => exact fun c hc => absurd hc List.not_mem_nil

theorem isDigit_letter (step : ExprStep) : step.letter.isDigit = false := by
  cases step <;> rfl

theorem toDigits_injective : Function.Injective (Nat.toDigits 10) := by
  intro m n h
  rw [← Nat.ofDigitChars_ten_toDigits (n := m), h, Nat.ofDigitChars_ten_toDigits]

/-- A step is known from its letter and its digits. -/
theorem eq_of_letter_of_digits {step other : ExprStep} (hletter : step.letter = other.letter)
    (hdigits : step.digits = other.digits) : step = other := by
  cases step with
  | item m =>
    cases other with
    | item n => exact congrArg item (toDigits_injective hdigits)
    | _ => simp [letter] at hletter
  | branch m =>
    cases other with
    | branch n => exact congrArg branch (toDigits_injective hdigits)
    | _ => simp [letter] at hletter
  | optional | repeated | group => cases other <;> simp [letter] at hletter ⊢

end ExprStep

namespace ExprAddress

open ExprStep

/-- The characters of an address, step behind step. -/
def chars (address : List ExprStep) : List Char := address.flatMap text

/-- An address as the places of a grammar write it. -/
def written (address : List ExprStep) : String := String.ofList (chars address)

theorem chars_cons (step : ExprStep) (rest : List ExprStep) :
    chars (step :: rest) = step.letter :: (step.digits ++ chars rest) := rfl

/-- An address begins with a letter, so the digits of a number end in front of it. -/
theorem takeWhile_isDigit_chars (address : List ExprStep) :
    (chars address).takeWhile Char.isDigit = [] := by
  cases address with
  | nil => rfl
  | cons step rest => rw [chars_cons, List.takeWhile_cons_of_neg (by simp [isDigit_letter])]

theorem takeWhile_isDigit_digits (step : ExprStep) (rest : List ExprStep) :
    (step.digits ++ chars rest).takeWhile Char.isDigit = step.digits := by
  rw [List.takeWhile_append_of_pos step.isDigit_digits, takeWhile_isDigit_chars, List.append_nil]

theorem chars_injective : Function.Injective chars := by
  intro address other h
  induction address generalizing other with
  | nil =>
    cases other with
    | nil => rfl
    | cons step rest => cases h
  | cons step rest ih =>
    cases other with
    | nil => cases h
    | cons step' rest' =>
      rw [chars_cons, chars_cons] at h
      obtain ⟨hletter, htail⟩ := List.cons.inj h
      have hdigits : step.digits = step'.digits := by
        rw [← takeWhile_isDigit_digits step rest, htail, takeWhile_isDigit_digits]
      rw [hdigits] at htail
      rw [eq_of_letter_of_digits hletter hdigits, ih (List.append_cancel_left htail)]

/-- The text of an address can be read in one way only. -/
theorem written_injective : Function.Injective written :=
  fun _ _ h => chars_injective (String.ofList_injective h)

theorem written_nil : written [] = "" := rfl

/-- An address is written with small letters and digits. -/
theorem isAlphanum_written {address : List ExprStep} : ∀ c ∈ (written address).toList,
    c.isAlphanum = true := by
  intro c hc
  rw [written, String.toList_ofList, chars, List.mem_flatMap] at hc
  obtain ⟨step, -, hc⟩ := hc
  rcases List.mem_cons.mp hc with rfl | hc
  · cases step <;> rfl
  · rw [Char.isAlphanum, step.isDigit_digits c hc, Bool.or_true]

end ExprAddress

namespace Expr

open ExprAddress

/-- The expression behind a step. -/
def behind? : Expr → ExprStep → Option Expr
  | sequence _ items, .item (n + 1) => items[n]?
  | alternation _ branches, .branch (n + 1) => branches[n]?
  | optional _ body, .optional | repeated _ body _, .repeated | group _ body, .group => some body
  | _, _ => none

/-- The expression at an address. -/
def at? : Expr → List ExprStep → Option Expr
  | e, [] => some e
  | e, step :: rest => (e.behind? step).bind fun inner => inner.at? rest

theorem at?_cons {e inner : Expr} {step : ExprStep} {rest : List ExprStep}
    (h : e.behind? step = some inner) : e.at? (step :: rest) = inner.at? rest := by
  rw [at?, h]
  rfl

theorem written_cons (step : ExprStep) (rest : List ExprStep) :
    written (step :: rest) = String.ofList step.text ++ written rest := by
  rw [written, written, chars, List.flatMap_cons, String.ofList_append]
  rfl

theorem ofList_text (step : ExprStep) :
    String.ofList step.text = String.ofList [step.letter] ++ String.ofList step.digits := by
  rw [← String.ofList_append]
  rfl

/-- Every expression inside another one has an address there, and the place recorded for it is that
address, written behind the place of the whole. -/
theorem paths_addressed :
    (∀ (path : String) (e : Expr), ∀ x ∈ e.preorder, ∃ address, e.at? address = some x ∧
      (x.id, path ++ written address) ∈ e.paths path) ∧
    ∀ (step : String) (number : Nat) (es : List Expr), ∀ x ∈ preorderAll es,
      ∃ i e address, es[i]? = some e ∧ e.at? address = some x ∧
        (x.id, step ++ toString (number + i) ++ written address) ∈ pathsOfAll step number es := by
  have hself {path : String} {e : Expr} {entries : List (NodeId × String)} :
      ∃ address, e.at? address = some e ∧
        (e.id, path ++ written address) ∈ (e.id, path) :: entries :=
    ⟨[], rfl, by simp [written_nil]⟩
  -- what lies behind one step, with the place of the inner expression as the path
  have hbehind {path : String} {e inner x : Expr} (step : ExprStep) {address : List ExprStep}
      {entries : List (NodeId × String)} (hstep : e.behind? step = some inner)
      (hat : inner.at? address = some x)
      (hmem : (x.id, path ++ String.ofList step.text ++ written address) ∈ entries) :
      ∃ address, e.at? address = some x ∧
        (x.id, path ++ written address) ∈ (e.id, path) :: entries := by
    refine ⟨step :: address, (at?_cons hstep).trans hat, List.mem_cons_of_mem _ ?_⟩
    rwa [written_cons, ← String.append_assoc]
  apply paths.mutual_induct
  case case1 | case2 =>
    intro path info _ x hx
    rw [List.mem_singleton.mp hx]
    exact hself
  case case3 =>
    intro path info items ih x hx
    rcases List.mem_cons.mp hx with rfl | hx
    · exact hself
    · obtain ⟨i, e, address, hi, hat, hmem⟩ := ih x hx
      refine hbehind (.item (i + 1)) hi hat ?_
      rw [ofList_text, ← String.append_assoc, Nat.add_comm i]
      rwa [Nat.toString_eq_ofList_toDigits] at hmem
  case case4 =>
    intro path info branches ih x hx
    rcases List.mem_cons.mp hx with rfl | hx
    · exact hself
    · obtain ⟨i, e, address, hi, hat, hmem⟩ := ih x hx
      refine hbehind (.branch (i + 1)) hi hat ?_
      rw [ofList_text, ← String.append_assoc, Nat.add_comm i]
      rwa [Nat.toString_eq_ofList_toDigits] at hmem
  case case5 =>
    intro path info body ih x hx
    rcases List.mem_cons.mp hx with rfl | hx
    · exact hself
    · obtain ⟨address, hat, hmem⟩ := ih x hx
      exact hbehind .optional rfl hat hmem
  case case6 =>
    intro path info body kind ih x hx
    rcases List.mem_cons.mp hx with rfl | hx
    · exact hself
    · obtain ⟨address, hat, hmem⟩ := ih x hx
      exact hbehind .repeated rfl hat hmem
  case case7 =>
    intro path info body ih x hx
    rcases List.mem_cons.mp hx with rfl | hx
    · exact hself
    · obtain ⟨address, hat, hmem⟩ := ih x hx
      exact hbehind .group rfl hat hmem
  case case8 =>
    intro step number x hx
    cases hx
  case case9 =>
    intro step number e rest ih ihrest x hx
    rw [preorderAll, List.mem_append] at hx
    rcases hx with hx | hx
    · obtain ⟨address, hat, hmem⟩ := ih x hx
      exact ⟨0, e, address, rfl, hat, List.mem_append_left _ hmem⟩
    · obtain ⟨i, e', address, hi, hat, hmem⟩ := ihrest x hx
      refine ⟨i + 1, e', address, hi, hat, List.mem_append_right _ ?_⟩
      rwa [Nat.add_right_comm, Nat.add_assoc] at hmem

end Expr
end AnnotatedGrammar
