import AnnotatedGrammar.Proofs.Syntax.Phrases

/-!
# Reading stays in front of the semicolon

Two streams that hold the same tokens up to a semicolon are read alike: every construct gives the
same value or the same fault, and reading stops at the same place, in front of the semicolon or, for
a whole directive or rule, right behind it. What comes behind the semicolon, and what came before
the first of the common tokens, makes no difference.
-/

namespace AnnotatedGrammar

/-- The tokens `a` up to the `n`-th, a semicolon, are those of `b` from the place `k` on. No
semicolon and no end of the input comes before. -/
structure SharedSegment (a b : Array (Located Token)) (k n : Nat) : Prop where
  shared : ∀ i < n, b[i + k]? = a[i]?
  inner : ∀ i, i + 1 < n → ∀ token, a[i]? = some token →
    token.value ≠ .semicolon ∧ token.value ≠ .endOfInput
  closed : 0 < n → ∃ span, a[n - 1]? = some ⟨.semicolon, span⟩

theorem SharedSegment.le_size {a b : Array (Located Token)} {k n : Nat}
    (g : SharedSegment a b k n) : 0 < n → n ≤ a.size ∧ n + k ≤ b.size := by
  intro hn
  obtain ⟨span, hspan⟩ := g.closed hn
  have ha := (Array.getElem?_eq_some_iff.mp hspan).1
  have hb := (Array.getElem?_eq_some_iff.mp ((g.shared (n - 1) (by omega)).trans hspan)).1
  omega

/-- Stretches between places of a shared segment are the same stretches of the text. -/
theorem SharedSegment.spanFrom {a b : Array (Located Token)} {k n low : Nat} {s t : TokenStream}
    (g : SharedSegment a b k n) (hs : s.significant = a) (ht : t.significant = b)
    (hposition : t.position = s.position + k) (hlow : low < n) (hle : s.position ≤ n) :
    t.spanFrom (low + k) = s.spanFrom low := by
  have hshared (i : Nat) (hi : i < n) : t.spanAt? (i + k) = s.spanAt? i := by
    rw [TokenStream.spanAt?, TokenStream.spanAt?, hs, ht, g.shared i hi]
  have hsome (i : Nat) (hi : i < n) : ∃ span, s.spanAt? i = some span := by
    have hsize := (g.le_size (by omega)).1
    exact ⟨_, by rw [TokenStream.spanAt?, hs, Array.getElem?_eq_getElem (by omega)]; rfl⟩
  obtain ⟨start, hstart⟩ := hsome low hlow
  rw [TokenStream.spanFrom, TokenStream.spanFrom, hshared low hlow, hstart, hposition]
  by_cases hlt : low < s.position
  · obtain ⟨before, hbefore⟩ : ∃ before, s.position = before + 1 :=
      Nat.exists_eq_succ_of_ne_zero (by omega)
    obtain ⟨last, hlast⟩ := hsome before (by omega)
    have hprevious : t.previousSpan = s.previousSpan := by
      rw [TokenStream.previousSpan, TokenStream.previousSpan, hposition, hbefore,
        show before + 1 + k = before + k + 1 by omega]
      simp only [hshared before (by omega), hlast, Option.getD_some]
    simp only [hlt, Nat.add_lt_add_iff_right, if_true, hprevious]
  · simp only [hlt, Nat.add_lt_add_iff_right, if_false]

/-- The streams `s` and `t` stand at the same token of a shared segment, not before its token
`low`. -/
structure TokenStream.Alike (a b : Array (Located Token)) (k n low : Nat) (s t : TokenStream) :
    Prop where
  left : s.significant = a
  right : t.significant = b
  position : t.position = s.position + k
  low_le : low ≤ s.position
  lt : s.position < n

namespace TokenStream

variable {a b : Array (Located Token)} {k n low : Nat} {s t : TokenStream}

namespace Alike

theorem weaken {low' : Nat} (h : Alike a b k n low s t) (hle : low' ≤ low) :
    Alike a b k n low' s t :=
  { h with low_le := Nat.le_trans hle h.low_le }

theorem here (h : Alike a b k n low s t) : Alike a b k n s.position s t :=
  { h with low_le := Nat.le_refl _ }

variable (g : SharedSegment a b k n)
include g

theorem ahead? (h : Alike a b k n low s t) {j : Nat} (hj : s.position + j < n) :
    t.ahead? j = s.ahead? j := by
  have := g.shared (s.position + j) hj
  rw [TokenStream.ahead?, TokenStream.ahead?, h.left, h.right, h.position, ← this]
  congr 1
  omega

theorem peek? (h : Alike a b k n low s t) {j : Nat} (hj : s.position + j < n) :
    t.peek? j = s.peek? j := by
  rw [TokenStream.peek?, TokenStream.peek?, h.ahead? g hj]

theorem current? (h : Alike a b k n low s t) : t.current? = s.current? := h.ahead? g h.lt

theorem token? (h : Alike a b k n low s t) : t.token? = s.token? := by
  rw [TokenStream.token?, TokenStream.token?, h.current? g]

theorem check (h : Alike a b k n low s t) (expected : Token) :
    t.check expected = s.check expected := by
  rw [TokenStream.check, TokenStream.check, h.token? g]

/-- There is a next token in a segment, and it is not the end of the input. -/
theorem exists_token? (h : Alike a b k n low s t) :
    ∃ token, s.token? = some token ∧ token ≠ .endOfInput := by
  by_cases hlast : s.position + 1 < n
  · have hsize : n ≤ a.size := by
      obtain ⟨span, hspan⟩ := g.closed (by omega)
      have := (Array.getElem?_eq_some_iff.mp hspan).1
      omega
    have hlt : s.position < a.size := by omega
    have hget : a[s.position]? = some a[s.position] := Array.getElem?_eq_getElem hlt
    refine ⟨_, ?_, (g.inner _ hlast _ hget).2⟩
    rw [TokenStream.token?, TokenStream.current?, TokenStream.ahead?, h.left, Nat.add_zero, hget]
    rfl
  · obtain ⟨span, hspan⟩ := g.closed (Nat.zero_lt_of_lt h.lt)
    have hposition : s.position = n - 1 := by have := h.lt; omega
    refine ⟨.semicolon, ?_, by simp⟩
    rw [TokenStream.token?, TokenStream.current?, TokenStream.ahead?, h.left, Nat.add_zero,
      hposition, hspan]
    rfl

/-- A token that is not the semicolon has another one behind it in the segment. -/
theorem succ_lt (h : Alike a b k n low s t) {j : Nat} {token : Token} (hj : s.position + j < n)
    (hpeek : s.peek? j = some token) (htoken : token ≠ .semicolon) : s.position + (j + 1) < n := by
  by_contra hlast
  obtain ⟨span, hspan⟩ := g.closed (Nat.zero_lt_of_lt hj)
  have hposition : s.position + j = n - 1 := by omega
  rw [TokenStream.peek?, TokenStream.ahead?, h.left, hposition, hspan] at hpeek
  exact htoken (Option.some.inj hpeek).symm

theorem advance (h : Alike a b k n low s t) {token : Token} (ht : s.token? = some token)
    (htoken : token ≠ .semicolon) : Alike a b k n (low + 1) s.advance t.advance := by
  have hlt := h.succ_lt g h.lt ht htoken
  have hsize (u : TokenStream) (hu : u.token? = some token) :
      u.advance = { u with position := u.position + 1 } := by
    obtain ⟨span, hspan⟩ := exists_current?_of_token? hu
    exact (passes_advance hspan).eq
  rw [hsize s ht, hsize t (h.token? g ▸ ht)]
  exact ⟨h.left, h.right, by have := h.position; simp only; omega, Nat.succ_le_succ h.low_le, hlt⟩

theorem takeIf? (h : Alike a b k n low s t) (expected : Token)
    (hexpected : Token.semicolon.sameKind expected = false) :
    (s.takeIf? expected = none ∧ t.takeIf? expected = none) ∨
      (s.takeIf? expected = some s.advance ∧ t.takeIf? expected = some t.advance ∧
        Alike a b k n (low + 1) s.advance t.advance) := by
  rw [TokenStream.takeIf?, TokenStream.takeIf?, h.check g]
  cases hcheck : s.check expected with
  | false => exact .inl ⟨rfl, rfl⟩
  | true =>
    obtain ⟨token, ht, -⟩ := h.exists_token? g
    refine .inr ⟨rfl, rfl, h.advance g ht ?_⟩
    rintro rfl
    simp [TokenStream.check, ht, hexpected] at hcheck

theorem of_takeIf?_eq_some (h : Alike a b k n low s t) {expected : Token} {behind : TokenStream}
    (hexpected : Token.semicolon.sameKind expected = false)
    (htaken : s.takeIf? expected = some behind) :
    t.takeIf? expected = some t.advance ∧ Alike a b k n (low + 1) behind t.advance := by
  obtain ⟨hs, -⟩ | ⟨hs, ht, hbehind⟩ := h.takeIf? g expected hexpected
  · cases hs.symm.trans htaken
  · obtain rfl := Option.some.inj (hs.symm.trans htaken)
    exact ⟨ht, hbehind⟩

theorem spanFrom (h : Alike a b k n low s t) : t.spanFrom (low + k) = s.spanFrom low :=
  g.spanFrom h.left h.right h.position (Nat.lt_of_le_of_lt h.low_le h.lt) (Nat.le_of_lt h.lt)

theorem remaining_lt_iff {low' : Nat} {s' t' : TokenStream} (h : Alike a b k n low s t)
    (h' : Alike a b k n low' s' t') :
    t'.remaining < t.remaining ↔ s'.remaining < s.remaining := by
  have hsize := g.le_size
  have hlt := h.lt
  have hlt' := h'.lt
  simp only [remaining, h.left, h.right, h'.left, h'.right, h.position, h'.position]
  omega

end Alike

end TokenStream

/-- The streams `s` and `t` stand right behind a shared segment. -/
structure TokenStream.Behind (a b : Array (Located Token)) (k n : Nat) (s t : TokenStream) :
    Prop where
  left : s.significant = a
  right : t.significant = b
  here : s.position = n
  there : t.position = n + k

namespace TokenStream

variable {a b : Array (Located Token)} {k n low : Nat} {s t : TokenStream}
  (g : SharedSegment a b k n)
include g

theorem Behind.spanFrom (h : Behind a b k n s t) (hlow : low < n) :
    t.spanFrom (low + k) = s.spanFrom low :=
  g.spanFrom h.left h.right (by rw [h.there, h.here]) hlow (Nat.le_of_eq h.here)

/-- Behind the semicolon the segment ends. -/
theorem Alike.behind (h : Alike a b k n low s t) (ht : s.token? = some .semicolon) :
    Behind a b k n s.advance t.advance := by
  have hlast : s.position + 1 = n := by
    by_contra hlast
    have hlt := h.lt
    obtain ⟨span, hcurrent⟩ := exists_current?_of_token? ht
    rw [TokenStream.current?, TokenStream.ahead?, h.left, Nat.add_zero] at hcurrent
    exact (g.inner s.position (by omega) _ hcurrent).1 rfl
  have hmoved (u : TokenStream) (hu : u.token? = some .semicolon) :
      u.advance = { u with position := u.position + 1 } := by
    obtain ⟨span, hspan⟩ := exists_current?_of_token? hu
    exact (passes_advance hspan).eq
  have hposition := h.position
  rw [hmoved s ht, hmoved t ((h.token? g).trans ht)]
  exact ⟨h.left, h.right, hlast, by simp only; omega⟩

end TokenStream

/-- Faults after which parsing goes on behind the next semicolon. -/
def SyntaxFault.isOrdinary : SyntaxFault → Bool
  | missingTerminator _ | tooManyErrors | emptyGrammar => false
  | _ => true

/-- Two outcomes of the same reading: the same value or the same fault, with streams that stand at
the same token. -/
def Parsed.Alike {α : Type} (a b : Array (Located Token)) (k n low : Nat) :
    Parsed α → Parsed α → Prop
  | .done v s, .done w t => w = v ∧ s.Alike a b k n low t
  | .failed e s, .failed f t =>
    f.value = e.value ∧ e.value.isOrdinary = true ∧ s.Alike a b k n low t
  | _, _ => False

namespace Parsed.Alike

variable {α β : Type} {a b : Array (Located Token)} {k n low : Nat} {s t : TokenStream}
  {r r' : Parsed α}

theorem done (v : α) (h : s.Alike a b k n low t) :
    Parsed.Alike a b k n low (.done v s) (.done v t) := ⟨rfl, h⟩

theorem failAt {fault : SyntaxFault} (span span' : Span) (hfault : fault.isOrdinary = true)
    (h : s.Alike a b k n low t) :
    Parsed.Alike (α := α) a b k n low (.failAt fault span s) (.failAt fault span' t) :=
  ⟨rfl, hfault, h⟩

theorem failHere {fault : SyntaxFault} (hfault : fault.isOrdinary = true)
    (h : s.Alike a b k n low t) :
    Parsed.Alike (α := α) a b k n low (.failHere fault s) (.failHere fault t) :=
  ⟨rfl, hfault, h⟩

theorem weaken {low' : Nat} (h : Parsed.Alike a b k n low r r') (hle : low' ≤ low) :
    Parsed.Alike a b k n low' r r' := by
  cases r <;> cases r' <;> first | exact h.elim | exact ⟨h.1, h.2.weaken hle⟩ |
    exact ⟨h.1, h.2.1, h.2.2.weaken hle⟩

theorem of_done {v : α} (h : Parsed.Alike a b k n low (.done v s) r') :
    ∃ t, r' = .done v t ∧ s.Alike a b k n low t := by
  cases r' with
  | done w t =>
    obtain ⟨rfl, h⟩ := h
    exact ⟨t, rfl, h⟩
  | failed => exact h.elim

theorem of_failed {e : SyntaxError} (h : Parsed.Alike a b k n low (.failed e s) r') :
    ∃ f t, r' = .failed f t ∧ f.value = e.value ∧ e.value.isOrdinary = true ∧
      s.Alike a b k n low t := by
  cases r' with
  | done => exact h.elim
  | failed f t => exact ⟨f, t, rfl, h⟩

theorem failed {e f : SyntaxError} (hvalue : f.value = e.value)
    (he : e.value.isOrdinary = true) (h : s.Alike a b k n low t) :
    Parsed.Alike (α := α) a b k n low (.failed e s) (.failed f t) :=
  ⟨hvalue, he, h⟩

theorem bind {next next' : α → Parser β} (h : Parsed.Alike a b k n low r r')
    (hnext : ∀ v s t, s.Alike a b k n low t → Parsed.Alike a b k n low (next v s) (next' v t)) :
    Parsed.Alike a b k n low (r.bind next) (r'.bind next') := by
  cases r <;> cases r'
  case done.done v s w t =>
    obtain ⟨rfl, h⟩ := h
    exact hnext w s t h
  case failed.failed => exact h
  all_goals exact h.elim

end Parsed.Alike

/-- Two outcomes of reading the same directive or rule: it has been read up to the end of the
segment, or both readings stop at a fault in the segment. A missing terminator is only missed behind
the token `low`. -/
def Parsed.Concludes {α : Type} (a b : Array (Located Token)) (k n low : Nat) :
    Parsed α → Parsed α → Prop
  | .done v s, .done w t => w = v ∧ s.Behind a b k n t
  | .failed e s, .failed f t =>
    f.value = e.value ∧
      (e.value.isOrdinary = true ∨ (∃ name, e.value = .missingTerminator name) ∧ low < s.position) ∧
      s.Alike a b k n low t
  | _, _ => False

namespace Parsed.Concludes

variable {α β : Type} {a b : Array (Located Token)} {k n low : Nat} {s t : TokenStream}
  {r r' : Parsed α}

theorem done (v : α) (h : s.Behind a b k n t) :
    Parsed.Concludes a b k n low (.done v s) (.done v t) := ⟨rfl, h⟩

theorem failAt {fault : SyntaxFault} (span span' : Span) (hfault : fault.isOrdinary = true)
    (h : s.Alike a b k n low t) :
    Parsed.Concludes (α := α) a b k n low (.failAt fault span s) (.failAt fault span' t) :=
  ⟨rfl, .inl hfault, h⟩

theorem failHere {fault : SyntaxFault} (hfault : fault.isOrdinary = true)
    (h : s.Alike a b k n low t) :
    Parsed.Concludes (α := α) a b k n low (.failHere fault s) (.failHere fault t) :=
  ⟨rfl, .inl hfault, h⟩

theorem bind {next next' : α → Parser β} (h : Parsed.Concludes a b k n low r r')
    (hnext : ∀ v s t, s.Behind a b k n t → Parsed.Concludes a b k n low (next v s) (next' v t)) :
    Parsed.Concludes a b k n low (r.bind next) (r'.bind next') := by
  cases r <;> cases r'
  case done.done v s w t =>
    obtain ⟨rfl, h⟩ := h
    exact hnext w s t h
  case failed.failed => exact h
  all_goals exact h.elim

end Parsed.Concludes

/-- A part of a directive or rule is read alike, and then the rest. -/
theorem Parsed.Alike.concludes {α β : Type} {a b : Array (Located Token)} {k n low low' : Nat}
    {r r' : Parsed α} {next next' : α → Parser β} (h : Parsed.Alike a b k n low' r r')
    (hle : low ≤ low') (hnext : ∀ v s t, s.Alike a b k n low' t →
      Parsed.Concludes a b k n low (next v s) (next' v t)) :
    Parsed.Concludes a b k n low (r.bind next) (r'.bind next') := by
  cases r <;> cases r'
  case done.done v s w t =>
    obtain ⟨rfl, h⟩ := h
    exact hnext w s t h
  case failed.failed => exact ⟨h.1, .inl h.2.1, h.2.2.weaken hle⟩
  all_goals exact h.elim

namespace Parser

variable {a b : Array (Located Token)} {k n low : Nat} {s t : TokenStream}

/-! ## Looking ahead -/

theorem behindMarkers_of_value {u : TokenStream} {j : Nat} {name : String}
    (hsign : u.peek? j = some .atSign) (hkey : u.peek? (j + 1) = some (.identifier name))
    (hopening : u.peek? (j + 2) = some .leftParen)
    (hword : ∃ text, u.peek? (j + 3) = some (.identifier text) ∨
      u.peek? (j + 3) = some (.literal text))
    (hclosing : u.peek? (j + 4) = some .rightParen) :
    behindMarkers u j = behindMarkers u (j + 5) := by
  rw [behindMarkers.eq_def]
  split
  · obtain ⟨text, hword | hword⟩ := hword <;> simp only [hopening, hword, hclosing]
  · next hother => exact (hother _ hsign hkey).elim

theorem behindMarkers_of_unclosed {u : TokenStream} {j : Nat} {name : String}
    (hsign : u.peek? j = some .atSign) (hkey : u.peek? (j + 1) = some (.identifier name))
    (hopening : u.peek? (j + 2) = some .leftParen)
    (hvalue : ¬∃ text, (u.peek? (j + 3) = some (.identifier text) ∨
      u.peek? (j + 3) = some (.literal text)) ∧ u.peek? (j + 4) = some .rightParen) :
    behindMarkers u j = j + 2 := by
  rw [behindMarkers.eq_def]
  split
  · simp only [hopening]
    split
    · next text hword hclosing => exact (hvalue ⟨text, .inl hword, hclosing⟩).elim
    · next text hword hclosing => exact (hvalue ⟨text, .inr hword, hclosing⟩).elim
    · rfl
  · next hother => exact (hother _ hsign hkey).elim

theorem behindMarkers_of_name {u : TokenStream} {j : Nat} {name : String}
    (hsign : u.peek? j = some .atSign) (hkey : u.peek? (j + 1) = some (.identifier name))
    (hopening : u.peek? (j + 2) ≠ some .leftParen) :
    behindMarkers u j = behindMarkers u (j + 2) := by
  rw [behindMarkers.eq_def]
  split
  · split
    · next hparen => exact (hopening hparen).elim
    · rfl
  · next hother => exact (hother _ hsign hkey).elim

theorem behindMarkers_of_other {u : TokenStream} {j : Nat}
    (h : ¬(u.peek? j = some .atSign ∧ ∃ name, u.peek? (j + 1) = some (.identifier name))) :
    behindMarkers u j = j := by
  rw [behindMarkers.eq_def]
  split
  · next name hsign hkey => exact (h ⟨hsign, name, hkey⟩).elim
  · rfl

theorem exists_of_valueToken? {u : TokenStream} {value : String} (h : valueToken? u = some value) :
    ∃ token, u.token? = some token ∧ token ≠ .semicolon := by
  unfold valueToken? at h
  split at h
  · next ht => exact ⟨_, ht, by simp⟩
  · next ht => exact ⟨_, ht, by simp⟩
  · cases h

section

variable (g : SharedSegment a b k n)
include g

theorem behindMarkers_alike (h : s.Alike a b k n low t) {j : Nat} (hj : s.position + j < n) :
    behindMarkers t j = behindMarkers s j ∧ s.position + behindMarkers s j < n := by
  fun_induction behindMarkers s j with
  | case1 j name hkey hsign hopening text hclosing hword ih
  | case2 j name hkey hsign hopening text hclosing hword ih =>
    have h1 := h.succ_lt g hj hsign (by simp)
    have h2 := h.succ_lt g h1 hkey (by simp)
    have h3 := h.succ_lt g h2 hopening (by simp)
    have h4 := h.succ_lt g h3 hword (by simp)
    have h5 := h.succ_lt g h4 hclosing (by simp)
    rw [behindMarkers_of_value (by rw [h.peek? g hj, hsign]) (by rw [h.peek? g h1, hkey])
      (by rw [h.peek? g h2, hopening]) (by rw [h.peek? g h3, hword]; simp)
      (by rw [h.peek? g h4, hclosing])]
    exact ih h5
  | case3 j name hkey hsign hopening hidentifier hliteral =>
    have h1 := h.succ_lt g hj hsign (by simp)
    have h2 := h.succ_lt g h1 hkey (by simp)
    have h3 := h.succ_lt g h2 hopening (by simp)
    refine ⟨behindMarkers_of_unclosed (by rw [h.peek? g hj, hsign]) (by rw [h.peek? g h1, hkey])
      (by rw [h.peek? g h2, hopening]) ?_, h2⟩
    rintro ⟨word, hword | hword, hclosing⟩ <;> rw [h.peek? g h3] at hword
    · rw [h.peek? g (h.succ_lt g h3 hword (by simp))] at hclosing
      exact hidentifier _ hword hclosing
    · rw [h.peek? g (h.succ_lt g h3 hword (by simp))] at hclosing
      exact hliteral _ hword hclosing
  | case4 j name hkey hsign hopening ih =>
    have h1 := h.succ_lt g hj hsign (by simp)
    have h2 := h.succ_lt g h1 hkey (by simp)
    rw [behindMarkers_of_name (by rw [h.peek? g hj, hsign]) (by rw [h.peek? g h1, hkey])
      (by rw [h.peek? g h2]; exact hopening)]
    exact ih h2
  | case5 j hother =>
    refine ⟨behindMarkers_of_other ?_, hj⟩
    rintro ⟨hsign, name, hkey⟩
    rw [h.peek? g hj] at hsign
    rw [h.peek? g (h.succ_lt g hj hsign (by simp))] at hkey
    exact hother _ hsign hkey

theorem ruleStartsHere_alike (h : s.Alike a b k n low t) :
    ruleStartsHere t = ruleStartsHere s := by
  obtain ⟨hfirst, hlt⟩ := behindMarkers_alike g h (j := 0) h.lt
  unfold ruleStartsHere
  dsimp only
  rw [hfirst, h.peek? g hlt]
  split
  next name hname =>
    obtain ⟨hsecond, hlt'⟩ := behindMarkers_alike g h (h.succ_lt g hlt hname (by simp))
    rw [hsecond, h.peek? g hlt']
  next => rfl

theorem valueToken?_alike (h : s.Alike a b k n low t) : valueToken? t = valueToken? s := by
  rw [valueToken?, valueToken?, h.token? g]

/-! ## Markers -/

theorem markerValue_alike (h : s.Alike a b k n low t) (key : String) :
    Parsed.Alike a b k n low (markerValue key s) (markerValue key t) := by
  unfold markerValue
  obtain ⟨hs, ht⟩ | ⟨hs, ht, hbehind⟩ := h.takeIf? g .leftParen rfl
  · rw [hs, ht]
    exact .done none h
  · simp only [hs, ht, valueToken?_alike g hbehind]
    cases hvalue : valueToken? s.advance with
    | none => exact .failHere rfl (hbehind.weaken (by omega))
    | some value =>
      obtain ⟨token, htoken, hne⟩ := exists_of_valueToken? hvalue
      have hword := hbehind.advance g htoken hne
      obtain ⟨hs', ht'⟩ | ⟨hs', ht', hclosed⟩ := hword.takeIf? g .rightParen rfl
      · simp only [hs', ht']
        exact .failHere rfl (hword.weaken (by omega))
      · simp only [hs', ht']
        exact .done _ (hclosed.weaken (by omega))

theorem marker_alike (h : s.Alike a b k n low t) (hsign : s.check .atSign = true) :
    Parsed.Alike a b k n (low + 1) (marker s) (marker t) := by
  have htoken := (TokenStream.check_eq (by decide) s).mp hsign
  have hbehind := h.here.advance g htoken (by simp)
  have hlow : low + 1 ≤ s.position + 1 := Nat.succ_le_succ h.low_le
  refine Parsed.Alike.weaken ?_ hlow
  unfold marker
  rw [hbehind.token? g]
  split
  next key hkey =>
    have hvalue := hbehind.advance g hkey (by simp)
    refine ((markerValue_alike g hvalue key).weaken
      (Nat.le_succ _)).bind fun value after after' hafter => ?_
    rw [h.position, (hafter.weaken (Nat.le_succ _)).spanFrom g]
    exact .done _ hafter
  next => exact .failHere rfl hbehind

theorem markersFrom_alike (h : s.Alike a b k n low t) (read : List Marker) :
    Parsed.Alike a b k n low (markersFrom read s) (markersFrom read t) := by
  fun_induction markersFrom read s generalizing low t with
  | case1 read s hsign error after hmarker =>
    have halike := marker_alike g h hsign
    rw [hmarker] at halike
    obtain ⟨error', after', hmarker', hvalue, hordinary, hafter⟩ := halike.of_failed
    rw [markersFrom.eq_def read t, if_pos ((h.check g _).trans hsign), hmarker']
    exact .failed hvalue hordinary (hafter.weaken (Nat.le_succ _))
  | case2 read s hsign m after hmarker hlt ih =>
    have halike := marker_alike g h hsign
    rw [hmarker] at halike
    obtain ⟨after', hmarker', hafter⟩ := halike.of_done
    rw [markersFrom.eq_def read t, if_pos ((h.check g _).trans hsign), hmarker']
    dsimp only
    rw [if_pos ((h.remaining_lt_iff g hafter).mpr hlt)]
    exact ih (hafter.weaken (Nat.le_succ _))
  | case3 read s hsign m after hmarker hlt =>
    have halike := marker_alike g h hsign
    rw [hmarker] at halike
    obtain ⟨after', hmarker', hafter⟩ := halike.of_done
    rw [markersFrom.eq_def read t, if_pos ((h.check g _).trans hsign), hmarker']
    dsimp only
    rw [if_neg ((h.remaining_lt_iff g hafter).not.mpr hlt)]
    exact .done _ (hafter.weaken (Nat.le_succ _))
  | case4 read s hsign =>
    rw [markersFrom.eq_def read t, if_neg (by rwa [h.check g])]
    exact .done _ h

theorem markers_alike (h : s.Alike a b k n low t) :
    Parsed.Alike a b k n low (markers s) (markers t) :=
  markersFrom_alike g h []

/-! ## Expressions -/

/-- A parser reads alike wherever two streams stand at the same token of the segment. -/
def ReadsAlike {α : Type} (a b : Array (Located Token)) (k n : Nat) (read : Parser α) : Prop :=
  ∀ ⦃low : Nat⦄ ⦃s t : TokenStream⦄, s.Alike a b k n low t →
    Parsed.Alike a b k n low (read s) (read t)

/-- A parser reads alike wherever two streams stand at the same opening parenthesis. -/
def ReadsGroupsAlike (a b : Array (Located Token)) (k n : Nat) (read : Parser Expr) : Prop :=
  ∀ ⦃low : Nat⦄ ⦃s t : TokenStream⦄, s.Alike a b k n low t → s.token? = some .leftParen →
    Parsed.Alike a b k n low (read s) (read t)

variable {inner : Parser Expr}

theorem primary_alike (hgroup : ReadsGroupsAlike a b k n inner) :
    ReadsAlike a b k n (primary inner) := by
  intro low s t h
  obtain ⟨value, hvalue, hend⟩ := h.exists_token? g
  obtain ⟨span, hcurrent⟩ := TokenStream.exists_current?_of_token? hvalue
  have hcurrent' : t.current? = some ⟨value, span⟩ := (h.current? g).trans hcurrent
  unfold primary
  rw [hcurrent, hcurrent']
  cases value with
  | identifier | literal | pattern =>
    exact .done _ ((h.advance g hvalue (by simp)).weaken (Nat.le_succ _))
  | leftParen => exact hgroup h hvalue
  | rightParen => exact .failAt _ _ rfl h
  | endOfInput => exact (hend rfl).elim
  | _ => exact .failAt _ _ rfl h

theorem quantifiers_alike (h : s.Alike a b k n low t) (e : Expr) :
    (quantifiers (low + k) e t).1 = (quantifiers low e s).1 ∧
      (quantifiers low e s).2.Alike a b k n low (quantifiers (low + k) e t).2 := by
  induction hremaining : s.remaining using Nat.strong_induction_on generalizing s t e with
  | _ remaining ih =>
    subst hremaining
    by_cases hop : ∃ op : Written.Operator, s.token? = some op.token
    · obtain ⟨op, hop⟩ := hop
      have hne : op.token ≠ .semicolon := by
        rcases op with _ | (_ | _) <;> simp [Written.Operator.token]
      have hnext := (h.advance g hop hne).weaken (Nat.le_succ low)
      rw [quantifiers_operator hop, quantifiers_operator ((h.token? g).trans hop),
        hnext.spanFrom g]
      exact ih _ (TokenStream.remaining_advance_lt_of_token? hop) hnext _ rfl
    · rw [not_exists] at hop
      rw [quantifiers_other hop, quantifiers_other (by rwa [h.token? g])]
      exact ⟨rfl, h⟩

theorem element_alike (hgroup : ReadsGroupsAlike a b k n inner) :
    ReadsAlike a b k n (element inner) := by
  intro low s t h
  refine Parsed.Alike.weaken ?_ h.low_le
  refine (markers_alike g h.here).bind fun before s₁ t₁ h₁ => ?_
  refine (primary_alike g hgroup h₁).bind fun core s₂ t₂ h₂ => ?_
  rw [h.position]
  have hquantified := quantifiers_alike g h₂ core
  generalize quantifiers s.position core s₂ = left at hquantified
  generalize quantifiers (s.position + k) core t₂ = right at hquantified
  obtain ⟨hexpr, h₃⟩ := hquantified
  dsimp only
  rw [hexpr]
  exact (markers_alike g h₃).bind fun behind s₄ t₄ h₄ => .done _ h₄

theorem elementStartsHere_alike (h : s.Alike a b k n low t) :
    elementStartsHere t = elementStartsHere s := by
  rw [elementStartsHere, elementStartsHere, h.token? g, ruleStartsHere_alike g h]

theorem elementsFrom_alike (hgroup : ReadsGroupsAlike a b k n inner)
    (read : List (Expr × List Marker)) : ReadsAlike a b k n (elementsFrom inner read) := by
  intro low s t h
  fun_induction elementsFrom inner read s generalizing low t with
  | case1 read s hstarts error after helement =>
    have halike := element_alike g hgroup h
    rw [helement] at halike
    obtain ⟨error', after', helement', hvalue, hordinary, hafter⟩ := halike.of_failed
    rw [elementsFrom.eq_def inner read t, if_pos ((elementStartsHere_alike g h).trans hstarts),
      helement']
    exact .failed hvalue hordinary hafter
  | case2 read s hstarts m after helement hlt ih =>
    have halike := element_alike g hgroup h
    rw [helement] at halike
    obtain ⟨after', helement', hafter⟩ := halike.of_done
    rw [elementsFrom.eq_def inner read t, if_pos ((elementStartsHere_alike g h).trans hstarts),
      helement']
    dsimp only
    rw [if_pos ((h.remaining_lt_iff g hafter).mpr hlt)]
    exact ih hafter
  | case3 read s hstarts m after helement hlt =>
    have halike := element_alike g hgroup h
    rw [helement] at halike
    obtain ⟨after', helement', hafter⟩ := halike.of_done
    rw [elementsFrom.eq_def inner read t, if_pos ((elementStartsHere_alike g h).trans hstarts),
      helement']
    dsimp only
    rw [if_neg ((h.remaining_lt_iff g hafter).not.mpr hlt)]
    exact .done _ hafter
  | case4 read s hstarts =>
    rw [elementsFrom.eq_def inner read t, if_neg (by rwa [elementStartsHere_alike g h])]
    exact .done _ h

theorem sequence_alike (hgroup : ReadsGroupsAlike a b k n inner) (context : ParseContext) :
    ReadsAlike a b k n (sequence inner context) := by
  intro low s t h
  refine Parsed.Alike.weaken ?_ h.low_le
  refine (elementsFrom_alike g hgroup [] h.here).bind fun items s₁ t₁ h₁ => ?_
  rcases items with - | ⟨first, - | ⟨second, others⟩⟩
  · dsimp only
    rw [h₁.token? g]
    split
    · exact .failHere rfl h₁
    · exact .failHere rfl h₁
    · exact .failHere rfl h₁
  · exact .done _ h₁
  · dsimp only
    rw [h.position, h₁.spanFrom g]
    exact .done _ h₁

theorem branchesFrom_alike (hgroup : ReadsGroupsAlike a b k n inner) (context : ParseContext)
    (read : List Expr) : ReadsAlike a b k n (branchesFrom inner context read) := by
  intro low s t h
  fun_induction branchesFrom inner context read s generalizing low t with
  | case1 read s hbar =>
    obtain ⟨-, ht⟩ | ⟨hs, -, -⟩ := h.takeIf? g .pipe rfl
    · rw [branchesFrom.eq_def inner context read t, ht]
      exact .done _ h
    · simp [hs] at hbar
  | case2 read s behindBar hbar error after hsequence =>
    obtain ⟨ht, hbehind⟩ := h.of_takeIf?_eq_some g rfl hbar
    have halike := sequence_alike g hgroup context hbehind
    rw [hsequence] at halike
    obtain ⟨error', after', hsequence', hvalue, hordinary, hafter⟩ := halike.of_failed
    rw [branchesFrom.eq_def inner context read t, ht]
    simp only [hsequence']
    exact .failed hvalue hordinary (hafter.weaken (Nat.le_succ _))
  | case3 read s behindBar hbar branch after hsequence hlt ih =>
    obtain ⟨ht, hbehind⟩ := h.of_takeIf?_eq_some g rfl hbar
    have halike := sequence_alike g hgroup context hbehind
    rw [hsequence] at halike
    obtain ⟨after', hsequence', hafter⟩ := halike.of_done
    rw [branchesFrom.eq_def inner context read t, ht]
    simp only [hsequence']
    rw [if_pos ((h.remaining_lt_iff g hafter).mpr hlt)]
    exact ih (hafter.weaken (Nat.le_succ _))
  | case4 read s behindBar hbar branch after hsequence hlt =>
    obtain ⟨ht, hbehind⟩ := h.of_takeIf?_eq_some g rfl hbar
    have halike := sequence_alike g hgroup context hbehind
    rw [hsequence] at halike
    obtain ⟨after', hsequence', hafter⟩ := halike.of_done
    rw [branchesFrom.eq_def inner context read t, ht]
    simp only [hsequence']
    rw [if_neg ((h.remaining_lt_iff g hafter).not.mpr hlt)]
    exact .done _ (hafter.weaken (Nat.le_succ _))

theorem alternation_alike (hgroup : ReadsGroupsAlike a b k n inner) (context : ParseContext) :
    ReadsAlike a b k n (alternation inner context) := by
  intro low s t h
  refine Parsed.Alike.weaken ?_ h.low_le
  refine (sequence_alike g hgroup context h.here).bind fun first s₁ t₁ h₁ => ?_
  refine (branchesFrom_alike g hgroup context [first] h₁).bind fun branches s₂ t₂ h₂ => ?_
  split
  · exact .done _ h₂
  · rw [h.position, h₂.spanFrom g]
    exact .done _ h₂

theorem group_alike (hinner : ReadsAlike a b k n inner) :
    ReadsGroupsAlike a b k n (group inner) := by
  intro low s t h hopening
  refine Parsed.Alike.weaken ?_ h.low_le
  refine (hinner ((h.here.advance g hopening (by simp)).weaken
    (Nat.le_succ _))).bind fun body s₁ t₁ h₁ => ?_
  obtain ⟨hs, ht⟩ | ⟨hs, ht, hclosed⟩ := h₁.takeIf? g .rightParen rfl
  · simp only [hs, ht, h₁.token? g, ruleStartsHere_alike g h₁]
    split
    · exact .failAt _ _ rfl h₁
    · exact .failAt _ _ rfl h₁
    · exact .failAt _ _ rfl h₁
    · split
      · exact .failAt _ _ rfl h₁
      · exact .failHere rfl h₁
  · have hafter := hclosed.weaken (Nat.le_succ _)
    simp only [hs, ht]
    rw [h.position, hafter.spanFrom g]
    exact .done _ hafter

theorem expression_alike (depth : Nat) (context : ParseContext) :
    ReadsAlike a b k n (expression depth context) := by
  induction depth generalizing context with
  | zero => exact fun low s t h => .failHere rfl h
  | succ depth ih => exact alternation_alike g (group_alike g (ih .group)) context

/-! ## Directives and rules -/

theorem equalsSign_alike : ReadsAlike a b k n equalsSign := by
  intro low s t h
  unfold equalsSign
  obtain ⟨hs, ht⟩ | ⟨hs, ht, hbehind⟩ := h.takeIf? g .equals rfl
  · simp only [hs, ht, h.token? g]
    split
    · exact .failHere rfl h
    · exact .failHere rfl h
    · exact .failHere rfl h
  · simp only [hs, ht]
    exact .done _ (hbehind.weaken (Nat.le_succ _))

/-- Behind the name of a rule, parsing is one token further. -/
theorem ruleName_bind {β : Type} {next next' : Located String → Parser β}
    (h : s.Alike a b k n low t)
    (hnext : ∀ v s t, s.Alike a b k n (low + 1) t →
      Parsed.Concludes a b k n low (next v s) (next' v t)) :
    Parsed.Concludes a b k n low ((ruleName s).bind next) ((ruleName t).bind next') := by
  obtain ⟨value, hvalue, hend⟩ := h.exists_token? g
  obtain ⟨span, hcurrent⟩ := TokenStream.exists_current?_of_token? hvalue
  have hcurrent' : t.current? = some ⟨value, span⟩ := (h.current? g).trans hcurrent
  unfold ruleName
  rw [hcurrent, hcurrent']
  cases value with
  | identifier name => exact hnext _ _ _ (h.advance g hvalue (by simp))
  | _ => exact .failAt _ _ rfl h

theorem terminator_concludes (h : s.Alike a b k n (low + 1) t) (name : String) :
    Parsed.Concludes a b k n low (terminator name s) (terminator name t) := by
  obtain ⟨value, hvalue, hend⟩ := h.exists_token? g
  have hmissing : Parsed.Concludes a b k n low
      (Parsed.failAt (α := Unit) (.missingTerminator name) (.point s.previousSpan.stop) s)
      (Parsed.failAt (α := Unit) (.missingTerminator name) (.point t.previousSpan.stop) t) :=
    ⟨rfl, .inr ⟨⟨name, rfl⟩, h.low_le⟩, h.weaken (Nat.le_succ _)⟩
  unfold terminator
  rw [h.token? g, hvalue]
  cases value with
  | semicolon => exact .done _ (h.behind g hvalue)
  | rightParen => exact .failHere rfl (h.weaken (Nat.le_succ _))
  | endOfInput => exact (hend rfl).elim
  | _ =>
    dsimp only
    rw [ruleStartsHere_alike g h]
    split
    · exact hmissing
    · exact .failHere rfl (h.weaken (Nat.le_succ _))

theorem rule_concludes (h : s.Alike a b k n s.position t) :
    Parsed.Concludes a b k n s.position (rule s) (rule t) := by
  refine (markers_alike g h).concludes (Nat.le_refl _) fun before s₁ t₁ h₁ => ?_
  refine ruleName_bind g h₁ fun name s₂ t₂ h₂ => ?_
  refine (markers_alike g h₂).concludes (Nat.le_succ _) fun behind s₃ t₃ h₃ => ?_
  refine (equalsSign_alike g h₃).concludes (Nat.le_succ _) fun _ s₄ t₄ h₄ => ?_
  refine (expression_alike g _ _ h₄).concludes (Nat.le_succ _) fun body s₅ t₅ h₅ => ?_
  refine (terminator_concludes g h₅ name.value).bind fun _ s₆ t₆ h₆ => ?_
  rw [h.position, h₆.spanFrom g h.lt]
  exact .done _ h₆

theorem directive_concludes (h : s.Alike a b k n s.position t) (hsign : s.token? = some .percent) :
    Parsed.Concludes a b k n s.position (directive s) (directive t) := by
  have hname := h.advance g hsign (by simp)
  have hstart := Nat.le_succ s.position
  unfold directive
  rw [hname.token? g]
  split
  next name hidentifier =>
    have hat := hname.advance g hidentifier (by simp)
    dsimp only
    rw [valueToken?_alike g hat]
    cases hvalue : valueToken? s.advance.advance with
    | none => exact .failHere rfl (hat.weaken (by omega))
    | some value =>
      obtain ⟨token, htoken, hne⟩ := exists_of_valueToken? hvalue
      have hclosing := hat.advance g htoken hne
      obtain ⟨last, hlast, -⟩ := hclosing.exists_token? g
      by_cases hsemicolon : last = .semicolon
      · subst hsemicolon
        have hbehind := hclosing.behind g hlast
        have htaken (u : TokenStream) (hu : u.token? = some .semicolon) :
            u.takeIf? .semicolon = some u.advance := by
          rw [TokenStream.takeIf?, (TokenStream.check_eq rfl u).mpr hu, if_pos rfl]
        simp only [htaken _ hlast, htaken _ ((hclosing.token? g).trans hlast)]
        rw [h.position, hbehind.spanFrom g h.lt]
        exact .done _ hbehind
      · have htaken (u : TokenStream) (hu : u.token? = some last) :
            u.takeIf? .semicolon = none := by
          rw [TokenStream.takeIf?_eq_none rfl, hu]
          simpa using hsemicolon
        simp only [htaken _ hlast, htaken _ ((hclosing.token? g).trans hlast)]
        exact .failHere rfl (hclosing.weaken (by omega))
  next => exact .failHere rfl (hname.weaken hstart)

theorem item_concludes (h : s.Alike a b k n s.position t) :
    Parsed.Concludes a b k n s.position (item s) (item t) := by
  obtain ⟨value, hvalue, hend⟩ := h.exists_token? g
  unfold item
  rw [h.token? g, hvalue]
  cases value with
  | percent => exact (directive_concludes g h hvalue).bind fun d s t h' => .done _ h'
  | identifier | atSign => exact (rule_concludes g h).bind fun r s t h' => .done _ h'
  | endOfInput => exact (hend rfl).elim
  | _ => exact .failHere rfl h

omit g in
theorem skipPastSemicolon_of_semicolon (h : s.token? = some .semicolon) :
    skipPastSemicolon s = s.advance := by
  rw [skipPastSemicolon.eq_def]
  split <;> simp_all

omit g in
theorem skipPastSemicolon_of_other {value : Token} (h : s.token? = some value)
    (hsemicolon : value ≠ .semicolon) (hend : value ≠ .endOfInput) :
    skipPastSemicolon s = skipPastSemicolon s.advance := by
  rw [skipPastSemicolon.eq_def]
  split <;> simp_all

theorem skipPastSemicolon_behind (h : s.Alike a b k n low t) :
    (skipPastSemicolon s).Behind a b k n (skipPastSemicolon t) := by
  induction hremaining : s.remaining using Nat.strong_induction_on generalizing low s t with
  | _ remaining ih =>
    subst hremaining
    obtain ⟨value, hvalue, hend⟩ := h.exists_token? g
    have hvalue' := (h.token? g).trans hvalue
    by_cases hsemicolon : value = .semicolon
    · subst hsemicolon
      rw [skipPastSemicolon_of_semicolon hvalue, skipPastSemicolon_of_semicolon hvalue']
      exact h.behind g hvalue
    · rw [skipPastSemicolon_of_other hvalue hsemicolon hend,
        skipPastSemicolon_of_other hvalue' hsemicolon hend]
      exact ih _ (TokenStream.remaining_advance_lt_of_token? hvalue)
        (h.advance g hvalue hsemicolon) rfl

end

end Parser
end AnnotatedGrammar
