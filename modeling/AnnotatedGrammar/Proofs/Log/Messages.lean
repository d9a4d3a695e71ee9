import AnnotatedGrammar.Log.Event

/-!
# What is kept of a long message

A long message is cut at a byte offset, yet never inside a character. The search for the place of
the cut, back from the limit, ends at the last byte offset where a character begins; what stands
before it is the longest beginning of the message that fits.
-/

namespace AnnotatedGrammar

namespace Text

/-- The longest beginning of a text, in whole characters, that takes at most `limit` bytes. -/
structure IsLongestFront (limit : Nat) (text front : String) : Prop where
  begins : front.toList <+: text.toList
  fits : front.utf8ByteSize ≤ limit
  longest : ∀ other : String, other.toList <+: text.toList → other.utf8ByteSize ≤ limit →
    other.toList <+: front.toList

theorem begins_append (front back : String) : front.toList <+: (front ++ back).toList := by
  rw [String.toList_append]
  exact List.prefix_append _ _

theorem exists_eq_append_of_begins {front text : String} (h : front.toList <+: text.toList) :
    ∃ back, text = front ++ back := by
  obtain ⟨behind, hbehind⟩ := h
  refine ⟨String.ofList behind, String.toList_inj.mp ?_⟩
  rw [String.toList_append, String.toList_ofList, hbehind]

/-- Of two beginnings of a text, the one that takes no more bytes is a beginning of the other. -/
theorem begins_of_utf8ByteSize_le {front other text : String}
    (hfront : front.toList <+: text.toList) (hother : other.toList <+: text.toList)
    (hle : other.utf8ByteSize ≤ front.utf8ByteSize) : other.toList <+: front.toList := by
  obtain ⟨back, hback⟩ := exists_eq_append_of_begins hfront
  obtain ⟨rest, hrest⟩ := exists_eq_append_of_begins hother
  have hplaces : String.Pos.ofEqAppend hrest ≤ String.Pos.ofEqAppend hback := by
    simpa [String.Pos.le_iff, String.Pos.Raw.le_iff, String.Pos.ofEqAppend] using hle
  obtain ⟨more, rfl, -⟩ :=
    ((String.Pos.splits_ofEqAppend hrest).le_iff_exists_eq_append
      (String.Pos.splits_ofEqAppend hback)).mp hplaces
  exact begins_append other more

/-- The search ends behind the longest beginning that fits. -/
theorem exists_isLongestFront (limit : Nat) (text : String) :
    ∃ front back, text = front ++ back ∧ IsLongestFront limit text front ∧
      boundaryFrom? text limit = some front.utf8ByteSize := by
  obtain ⟨found, hfits, hsearch, hfound, hlast⟩ := exists_boundaryFrom? text limit
  obtain ⟨front, back, rfl, rfl⟩ := isBoundary_iff.mp hfound
  refine ⟨front, back, rfl, ⟨begins_append front back, hfits, fun other hother hle => ?_⟩, hsearch⟩
  -- Every other beginning ends at a boundary as well, and the search passed over none.
  obtain ⟨rest, hrest⟩ := exists_eq_append_of_begins hother
  have hboundary : isBoundary (front ++ back) other.utf8ByteSize = true :=
    isBoundary_iff.mpr ⟨other, rest, hrest, rfl⟩
  exact begins_of_utf8ByteSize_le (begins_append front back) hother (hlast _ hle hboundary)

end Text

namespace Log

open Text

/-- Whatever the limit, a message within it is kept. Of a longer one the longest beginning that fits
is kept: the search for the place of the cut ends behind it. With the three dots the result exceeds
the limit by at most three bytes. The messages of the log are cut in this way at their limit. -/
theorem cutMessage_longest (limit : Nat) (message : String) :
    (message.utf8ByteSize ≤ limit → shorten? limit message = some message) ∧
    (limit < message.utf8ByteSize →
      ∃ front, IsLongestFront limit message front ∧
        boundaryFrom? message limit = some front.utf8ByteSize ∧
        shorten? limit message = some (front ++ "...")) ∧
    (∃ cut, shorten? limit message = some cut ∧ cut.utf8ByteSize ≤ limit + 3) ∧
    shorten? Limits.messageBytes message = some (cutMessage message) := by
  obtain ⟨front, back, rfl, hfront, hsearch⟩ := exists_isLongestFront limit message
  have hkept (hle : (front ++ back).utf8ByteSize ≤ limit) :
      shorten? limit (front ++ back) = some (front ++ back) := if_pos hle
  have hcut (hlt : limit < (front ++ back).utf8ByteSize) :
      shorten? limit (front ++ back) = some (front ++ "...") := shorten?_append hlt hsearch
  refine ⟨hkept, fun hlt => ⟨front, hfront, hsearch, hcut hlt⟩, ?_, (Option.some_get _).symm⟩
  obtain hlt | hle := Nat.lt_or_ge limit (front ++ back).utf8ByteSize
  · refine ⟨_, hcut hlt, ?_⟩
    rw [String.utf8ByteSize_append]
    exact Nat.add_le_add_right hfront.fits 3
  · exact ⟨_, hkept hle, Nat.le_add_right_of_le hle⟩

/-- The limit falls between the two bytes of the last character. -/
theorem cutMessage_longest_insideCharacter :
    2 < "aé".utf8ByteSize ∧
      ∃ front, IsLongestFront 2 "aé" front ∧
        boundaryFrom? "aé" 2 = some front.utf8ByteSize ∧
        shorten? 2 "aé" = some (front ++ "...") := by
  have hlong : 2 < "aé".utf8ByteSize := by decide
  exact ⟨hlong, (cutMessage_longest 2 "aé").2.1 hlong⟩

example : shorten? 2 "aé" = some "a..." := by decide

end Log
end AnnotatedGrammar
