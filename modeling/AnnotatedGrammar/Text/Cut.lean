/-!
# Cutting texts

A text can be cut where a character begins. Of a text that takes too many bytes as much is kept as
its limit allows, and three dots mark the cut.
-/

namespace AnnotatedGrammar.Text

/-- Whether a text can be cut at a byte offset: a character begins there, or the text ends. -/
def isBoundary (text : String) (offset : Nat) : Bool := String.Pos.Raw.isValid text ⟨offset⟩

theorem isBoundary_zero (text : String) : isBoundary text 0 = true :=
  String.Pos.Raw.isValid_eq_true_iff.mpr String.Pos.Raw.isValid_zero

/-- A text can be cut where two texts meet that it consists of, and nowhere else. -/
theorem isBoundary_iff {text : String} {offset : Nat} :
    isBoundary text offset = true ↔
      ∃ front back, text = front ++ back ∧ front.utf8ByteSize = offset := by
  rw [isBoundary, String.Pos.Raw.isValid_eq_true_iff, String.Pos.Raw.isValid_iff_exists_append]
  simp only [String.Pos.Raw.ext_iff, String.byteIdx_rawEndPos, eq_comm]

/-- Goes back from a byte offset, one byte at a time, to where a text can be cut. The search fails
if it has to go behind the beginning. -/
def boundaryFrom? (text : String) : Nat → Option Nat
  | 0 => if isBoundary text 0 then some 0 else none
  | offset + 1 =>
    if isBoundary text (offset + 1) then some (offset + 1) else boundaryFrom? text offset

/-- The search ends, and passes over no boundary. -/
theorem exists_boundaryFrom? (text : String) (offset : Nat) :
    ∃ found ≤ offset, boundaryFrom? text offset = some found ∧ isBoundary text found = true ∧
      ∀ other ≤ offset, isBoundary text other = true → other ≤ found := by
  induction offset with
  | zero =>
    refine ⟨0, Nat.le_refl 0, ?_, isBoundary_zero text, fun other hle _ => hle⟩
    rw [boundaryFrom?, if_pos (isBoundary_zero text)]
  | succ offset ih =>
    by_cases h : isBoundary text (offset + 1) = true
    · refine ⟨offset + 1, Nat.le_refl _, ?_, h, fun other hle _ => hle⟩
      rw [boundaryFrom?, if_pos h]
    · obtain ⟨found, hle, hsearch, hfound, hlast⟩ := ih
      refine ⟨found, Nat.le_succ_of_le hle, ?_, hfound, fun other hother hboundary => ?_⟩
      · rw [boundaryFrom?, if_neg h, hsearch]
      · refine hlast other (Nat.le_of_lt_succ (Nat.lt_of_le_of_ne hother ?_)) hboundary
        rintro rfl
        exact h hboundary

/-- What a text says before a byte offset. There is no answer where the text cannot be cut. -/
def before? (text : String) (offset : Nat) : Option String :=
  if h : isBoundary text offset = true then
    some (text.sliceTo (text.pos ⟨offset⟩ (String.Pos.Raw.isValid_eq_true_iff.mp h))).copy
  else none

theorem before?_append (front back : String) :
    before? (front ++ back) front.utf8ByteSize = some front := by
  have h : isBoundary (front ++ back) front.utf8ByteSize = true :=
    isBoundary_iff.mpr ⟨front, back, rfl, rfl⟩
  rw [before?, dif_pos h, String.Pos.Splits.copy_sliceTo_eq ⟨rfl, ?_⟩]
  simp [String.Pos.Raw.ext_iff]

/-- A text that takes no more than `limit` bytes is kept. A longer one is cut at the last place
within the limit, and the cut is marked. -/
def shorten? (limit : Nat) (text : String) : Option String :=
  if text.utf8ByteSize ≤ limit then some text
  else do
    let offset ← boundaryFrom? text limit
    let front ← before? text offset
    return front ++ "..."

theorem shorten?_append {limit : Nat} {front back : String}
    (hlimit : limit < (front ++ back).utf8ByteSize)
    (hsearch : boundaryFrom? (front ++ back) limit = some front.utf8ByteSize) :
    shorten? limit (front ++ back) = some (front ++ "...") := by
  rw [shorten?, if_neg (Nat.not_le_of_lt hlimit), hsearch, Option.bind_eq_bind, Option.bind_some,
    before?_append]
  rfl

/-- The place found is one where the text can be cut, so that cutting never fails. -/
theorem isSome_shorten? (limit : Nat) (text : String) : (shorten? limit text).isSome := by
  by_cases hlimit : text.utf8ByteSize ≤ limit
  · rw [shorten?, if_pos hlimit, Option.isSome_some]
  · obtain ⟨found, -, hsearch, hfound, -⟩ := exists_boundaryFrom? text limit
    obtain ⟨front, back, rfl, rfl⟩ := isBoundary_iff.mp hfound
    rw [shorten?_append (Nat.lt_of_not_le hlimit) hsearch, Option.isSome_some]

end AnnotatedGrammar.Text
