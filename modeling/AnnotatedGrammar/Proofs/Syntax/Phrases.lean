import AnnotatedGrammar.Proofs.Syntax.Passing
import AnnotatedGrammar.Proofs.Syntax.Shaped

/-!
# What the parser reads

Every construct is read by one function of the parser. Two things are shown of each: whatever it
reads is written down in the tokens that it passes, and whatever is written down in the next tokens
is read, if what comes behind does not go on with the construct.
-/

namespace AnnotatedGrammar

open Written

variable {s t u : TokenStream}

namespace Parser

/-! ## Markers -/

theorem valueToken?_eq_some {text : String} :
    valueToken? s = some text ↔
      ∃ word : Located Word, s.current? = some ⟨word.value.token, word.span⟩ ∧
        word.value.text = text := by
  unfold valueToken?
  constructor
  · intro h
    split at h
    · rename_i name hname
      obtain ⟨span, hcurrent⟩ := TokenStream.exists_current?_of_token? hname
      exact ⟨⟨.name name, span⟩, hcurrent, by simpa [Word.text] using h⟩
    · rename_i name hname
      obtain ⟨span, hcurrent⟩ := TokenStream.exists_current?_of_token? hname
      exact ⟨⟨.literal name, span⟩, hcurrent, by simpa [Word.text] using h⟩
    · cases h
  · rintro ⟨⟨word, span⟩, hcurrent, rfl⟩
    cases word <;> simp [TokenStream.token?, hcurrent, Word.token, Word.text]

theorem markerValue_eq_done {key : String} {value : Option String} :
    markerValue key s = .done value t ↔
      (value = none ∧ t = s ∧ s.token? ≠ some .leftParen) ∨
        ∃ a : Argument, s.Passes a.tokens t ∧ value = some a.word.value.text := by
  unfold markerValue
  constructor
  · intro h
    split at h
    · rename_i hnone
      cases h
      exact .inl ⟨rfl, rfl, (TokenStream.takeIf?_eq_none rfl).mp hnone⟩
    · rename_i u hu
      obtain ⟨opening, hopening⟩ := (TokenStream.takeIf?_eq_some rfl).mp hu
      split at h
      · cases h
      · rename_i text hword
        obtain ⟨word, hcurrent, rfl⟩ := valueToken?_eq_some.mp hword
        split at h
        · rename_i hclosed
          cases h
          obtain ⟨closing, hclosing⟩ := (TokenStream.takeIf?_eq_some rfl).mp hclosed
          have hpasses := (hopening.append (TokenStream.passes_advance hcurrent)).append hclosing
          exact .inr ⟨⟨opening, word, closing⟩, hpasses, rfl⟩
        · cases h
  · rintro (⟨rfl, rfl, hnot⟩ | ⟨a, hpasses, rfl⟩)
    · rw [(TokenStream.takeIf?_eq_none rfl).mpr hnot]
    · obtain ⟨hopening, hpasses⟩ := TokenStream.passes_cons.mp hpasses
      obtain ⟨hword, hclosing⟩ := TokenStream.passes_cons.mp hpasses
      have htake : s.takeIf? .leftParen = some s.advance :=
        (TokenStream.takeIf?_eq_some rfl).mpr ⟨_, TokenStream.passes_advance hopening⟩
      have hvalue : valueToken? s.advance = some a.word.value.text :=
        valueToken?_eq_some.mpr ⟨a.word, hword, rfl⟩
      have hclose : s.advance.advance.takeIf? .rightParen = some t :=
        (TokenStream.takeIf?_eq_some rfl).mpr ⟨_, hclosing⟩
      simp only [htake, hvalue, hclose]

/-- A marker is read as it is written; without a value, no parenthesis may follow. -/
theorem marker_eq_done {m : Marker} (hsign : s.token? = some .atSign) :
    marker s = .done m t ↔
      ∃ w : Mark, s.Passes w.tokens t ∧ w.marker = m ∧
        (w.argument = none → t.token? ≠ some .leftParen) := by
  obtain ⟨sign, hsign⟩ := TokenStream.exists_current?_of_token? hsign
  have hpassed (w : Mark) (h : s.Passes w.tokens t) : t.spanFrom s.position = stretch w.tokens :=
    h.spanFrom (List.cons_ne_nil _ _)
  unfold marker
  constructor
  · intro h
    split at h
    · rename_i key hkey
      obtain ⟨keySpan, hkey⟩ := TokenStream.exists_current?_of_token? hkey
      have hfront : s.Passes [⟨.atSign, sign⟩, ⟨.identifier key, keySpan⟩] s.advance.advance :=
        (TokenStream.passes_advance hsign).append (TokenStream.passes_advance hkey)
      obtain ⟨value, after, hvalue, h⟩ := Parsed.bind_eq_done.mp h
      cases h
      rcases markerValue_eq_done.mp hvalue with ⟨rfl, rfl, hnot⟩ | ⟨a, hpasses, rfl⟩
      · refine ⟨⟨sign, ⟨key, keySpan⟩, none⟩, hfront, ?_, fun _ => hnot⟩
        simp only [Mark.marker, hpassed ⟨sign, ⟨key, keySpan⟩, none⟩ hfront, Option.map_none]
      · have hall := hfront.append hpasses
        refine ⟨⟨sign, ⟨key, keySpan⟩, some a⟩, hall, ?_, nofun⟩
        simp only [Mark.marker, hpassed ⟨sign, ⟨key, keySpan⟩, some a⟩ hall, Option.map_some]
    · cases h
  · rintro ⟨w, hpasses, rfl, hnot⟩
    obtain ⟨-, hrest⟩ := TokenStream.passes_cons.mp hpasses
    obtain ⟨hkey, hrest⟩ := TokenStream.passes_cons.mp hrest
    have hvalue : markerValue w.key.value s.advance.advance =
        .done (w.argument.map fun a => a.word.value.text) t := by
      refine markerValue_eq_done.mpr ?_
      cases hargument : w.argument with
      | none =>
        simp only [hargument, TokenStream.Passes.nil_iff] at hrest
        subst hrest
        exact .inl ⟨rfl, rfl, hnot hargument⟩
      | some a =>
        rw [hargument] at hrest
        exact .inr ⟨a, hrest, rfl⟩
    simp only [TokenStream.token?, hkey, Option.map_some, hvalue, Parsed.bind, Mark.marker,
      hpassed w hpasses]

/-- What may come behind some markers: no further marker, and no parenthesis if the last one has no
value. -/
structure IsBehindMarks (marks : List Mark) (s : TokenStream) : Prop where
  noMark : s.token? ≠ some .atSign
  noArgument : Mark.EndBare marks → s.token? ≠ some .leftParen

theorem isBehindMarks_nil : IsBehindMarks [] s ↔ s.token? ≠ some .atSign :=
  ⟨fun h => h.noMark, fun h => ⟨h, fun ⟨_, hlast, _⟩ => nomatch hlast⟩⟩

theorem isBehindMarks_singleton {m : Mark} :
    IsBehindMarks [m] s ↔
      s.token? ≠ some .atSign ∧ (m.argument = none → s.token? ≠ some .leftParen) :=
  ⟨fun h => ⟨h.noMark, fun hbare => h.noArgument ⟨m, rfl, hbare⟩⟩,
    fun h => ⟨h.1, fun ⟨_, hlast, hbare⟩ => h.2 (by cases hlast; exact hbare)⟩⟩

theorem isBehindMarks_cons_cons {m next : Mark} {marks : List Mark} :
    IsBehindMarks (m :: next :: marks) s ↔ IsBehindMarks (next :: marks) s := by
  have hlast : (m :: next :: marks).getLast? = (next :: marks).getLast? := by simp
  constructor <;> rintro ⟨hmark, hargument⟩ <;> refine ⟨hmark, fun ⟨last, h, hbare⟩ => ?_⟩
  · exact hargument ⟨last, hlast.trans h, hbare⟩
  · exact hargument ⟨last, hlast.symm.trans h, hbare⟩

theorem IsBehindMarks.of_cons {m : Mark} {marks : List Mark} (h : IsBehindMarks (m :: marks) s) :
    IsBehindMarks marks s := by
  cases marks with
  | nil => exact isBehindMarks_nil.mpr h.noMark
  | cons next marks => exact isBehindMarks_cons_cons.mp h

theorem isBehindMarks_of_token? {marks : List Mark} {token : Token} (h : s.token? = some token)
    (hmark : token ≠ .atSign) (hparen : token ≠ .leftParen) : IsBehindMarks marks s := by
  refine ⟨?_, fun _ => ?_⟩ <;> simpa [h]

/-- Whoever passes markers begins at a sign, or passes none. -/
theorem eq_nil_or_token?_of_allTokens {marks : List Mark} (h : s.Passes (Mark.allTokens marks) t) :
    marks = [] ∧ t = s ∨ marks ≠ [] ∧ s.token? = some .atSign := by
  cases marks with
  | nil => exact .inl ⟨rfl, TokenStream.Passes.nil_iff.mp h⟩
  | cons m marks => exact .inr ⟨List.cons_ne_nil _ _, h.token?⟩

/-- No parenthesis stands behind the first of some markers if it has no value. -/
theorem token?_ne_leftParen_of_bare {m : Mark} {marks : List Mark} (hbare : m.argument = none)
    (h : s.Passes (Mark.allTokens marks) t) (hbehind : IsBehindMarks (m :: marks) t) :
    s.token? ≠ some .leftParen := by
  rcases eq_nil_or_token?_of_allTokens h with ⟨rfl, rfl⟩ | ⟨-, hnext⟩
  · exact (isBehindMarks_singleton.mp hbehind).2 hbare
  · rw [hnext]
    decide

theorem markersFrom_sound {read ms : List Marker} (h : markersFrom read s = .done ms t) :
    ∃ marks, s.Passes (Mark.allTokens marks) t ∧ ms = read.reverse ++ marks.map Mark.marker ∧
      IsBehindMarks marks t := by
  fun_induction markersFrom read s with
  | case1 => cases h
  | case2 read s hsign m after hmarker _ ih =>
    obtain ⟨w, hpasses, rfl, hbare⟩ :=
      (marker_eq_done ((TokenStream.check_eq rfl s).mp hsign)).mp hmarker
    obtain ⟨marks, hmarks, rfl, hbehind⟩ := ih h
    refine ⟨w :: marks, hpasses.append hmarks, by simp, ?_⟩
    cases marks with
    | nil =>
      cases TokenStream.Passes.nil_iff.mp hmarks
      exact isBehindMarks_singleton.mpr ⟨hbehind.noMark, hbare⟩
    | cons next marks => exact isBehindMarks_cons_cons.mpr hbehind
  | case3 read s hsign m after hmarker hshort =>
    obtain ⟨w, hpasses, -, -⟩ :=
      (marker_eq_done ((TokenStream.check_eq rfl s).mp hsign)).mp hmarker
    have hremaining := hpasses.remaining
    have hlength : 0 < w.tokens.length := Nat.succ_pos _
    omega
  | case4 read s hsign =>
    cases h
    refine ⟨[], .nil _, by simp, isBehindMarks_nil.mpr ?_⟩
    rwa [Ne, ← TokenStream.check_eq rfl]

theorem markersFrom_complete {read : List Marker} {marks : List Mark}
    (h : s.Passes (Mark.allTokens marks) t) (hbehind : IsBehindMarks marks t) :
    markersFrom read s = .done (read.reverse ++ marks.map Mark.marker) t := by
  induction marks generalizing read s with
  | nil =>
    obtain rfl := TokenStream.Passes.nil_iff.mp h
    have hsign : ¬t.check .atSign = true := by
      rw [TokenStream.check_eq rfl]
      exact hbehind.noMark
    rw [markersFrom, if_neg hsign]
    simp
  | cons m marks ih =>
    obtain ⟨u, hm, hmarks⟩ := TokenStream.passes_append.mp (Mark.allTokens_cons m marks ▸ h)
    have hsign : s.token? = some .atSign := hm.token?
    have hmarker : marker s = .done m.marker u := by
      refine (marker_eq_done hsign).mpr ⟨m, hm, rfl, fun hbare => ?_⟩
      exact token?_ne_leftParen_of_bare hbare hmarks hbehind
    have hshorter : u.remaining < s.remaining := by
      have hremaining := hm.remaining
      have hlength : 0 < m.tokens.length := Nat.succ_pos _
      omega
    rw [markersFrom, if_pos ((TokenStream.check_eq rfl s).mpr hsign)]
    simp only [hmarker, if_pos hshorter, ih hmarks hbehind.of_cons]
    simp

/-- Markers are read as they are written. -/
theorem markers_eq_done {ms : List Marker} :
    markers s = .done ms t ↔
      ∃ marks, s.Passes (Mark.allTokens marks) t ∧ marks.map Mark.marker = ms ∧
        IsBehindMarks marks t := by
  constructor
  · intro h
    obtain ⟨marks, hpasses, rfl, hbehind⟩ := markersFrom_sound h
    exact ⟨marks, hpasses, rfl, hbehind⟩
  · rintro ⟨marks, hpasses, rfl, hbehind⟩
    exact markersFrom_complete hpasses hbehind

/-! ## Looking ahead -/

theorem behindMarkers_of_ne {n : Nat} (h : s.peek? n ≠ some .atSign) : behindMarkers s n = n := by
  fun_cases behindMarkers s n with
  | case5 => rfl
  | _ => exact absurd ‹_› h

theorem behindMarkers_bare {n : Nat} {key : String} (hsign : s.peek? n = some .atSign)
    (hkey : s.peek? (n + 1) = some (.identifier key)) (hnot : s.peek? (n + 2) ≠ some .leftParen) :
    behindMarkers s n = behindMarkers s (n + 2) := by
  fun_cases behindMarkers s n with
  | case4 => rfl
  | case5 hother => exact absurd hkey (hother key hsign)
  | _ => exact absurd ‹_› hnot

theorem behindMarkers_valued {n : Nat} {key : String} (word : Word)
    (hsign : s.peek? n = some .atSign) (hkey : s.peek? (n + 1) = some (.identifier key))
    (hopening : s.peek? (n + 2) = some .leftParen) (hword : s.peek? (n + 3) = some word.token)
    (hclosing : s.peek? (n + 4) = some .rightParen) :
    behindMarkers s n = behindMarkers s (n + 5) := by
  fun_cases behindMarkers s n with
  | case1 | case2 => rfl
  | case3 => cases word <;> simp_all [Word.token]
  | case4 => contradiction
  | case5 hother => exact absurd hkey (hother key hsign)

/-- Looking ahead passes over markers just as reading does. -/
theorem behindMarkers_eq {ts : List (Located Token)} {marks : List Mark} (hts : s.Passes ts u)
    (h : u.Passes (Mark.allTokens marks) t) (hbehind : IsBehindMarks marks t) :
    behindMarkers s ts.length = (ts ++ Mark.allTokens marks).length := by
  induction marks generalizing ts u with
  | nil =>
    obtain rfl := TokenStream.Passes.nil_iff.mp h
    have hpeek := hts.peek?_add 0
    rw [TokenStream.peek?_zero, Nat.add_zero] at hpeek
    rw [behindMarkers_of_ne (hpeek ▸ hbehind.noMark)]
    simp [Mark.allTokens]
  | cons m marks ih =>
    obtain ⟨v, hm, hmarks⟩ := TokenStream.passes_append.mp (Mark.allTokens_cons m marks ▸ h)
    have hpeek (n : Nat) : s.peek? (ts.length + n) = (m.tokens ++ v.rest)[n]?.map (·.value) := by
      rw [hts.peek?_add, TokenStream.peek?_eq, hm.rest_eq]
    have hlength : (ts ++ m.tokens).length = ts.length + m.tokens.length := List.length_append
    have hstep : behindMarkers s ts.length = behindMarkers s (ts ++ m.tokens).length := by
      rw [hlength]
      obtain ⟨sign, key, _ | ⟨opening, word, closing⟩⟩ := m
      · have hafter := token?_ne_leftParen_of_bare rfl hmarks hbehind
        rw [← TokenStream.peek?_zero, ← (hts.append hm).peek?_add, hlength] at hafter
        exact behindMarkers_bare (hpeek 0) (hpeek 1) hafter
      · exact behindMarkers_valued word.value (hpeek 0) (hpeek 1) (hpeek 2) (hpeek 3) (hpeek 4)
    rw [hstep, ih (hts.append hm) hmarks hbehind.of_cons, Mark.allTokens_cons, List.append_assoc]

/-- A rule is taken to begin at a name between markers just if an equals sign is next. -/
theorem ruleStartsHere_of_name {opening behind : List Mark} {name : Located String}
    (hopening : s.Passes (Mark.allTokens opening) u)
    (hname : u.current? = some ⟨.identifier name.value, name.span⟩)
    (h : u.advance.Passes (Mark.allTokens behind) t) (hbehind : IsBehindMarks behind t) :
    ruleStartsHere s = (t.token? == some .equals) := by
  have hnamed := TokenStream.passes_advance hname
  have hfront := behindMarkers_eq (.nil s) hopening
    (isBehindMarks_of_token? hnamed.token? (by simp) (by simp))
  have hback := behindMarkers_eq (hopening.append hnamed) h hbehind
  have hpeek := hopening.peek?_add 0
  have hpeek' := ((hopening.append hnamed).append h).peek?_add 0
  rw [TokenStream.peek?_zero, Nat.add_zero] at hpeek hpeek'
  rw [List.length_append, List.length_singleton] at hback
  simp only [ruleStartsHere, List.length_nil, List.nil_append] at hfront ⊢
  rw [hfront, hpeek, hnamed.token?]
  dsimp only
  rw [hback, hpeek']

/-- No rule is taken to begin where something else than a name stands behind the markers. -/
theorem ruleStartsHere_of_not_name {opening : List Mark}
    (hopening : s.Passes (Mark.allTokens opening) u) (hbehind : IsBehindMarks opening u)
    (h : ∀ name, u.token? ≠ some (.identifier name)) : ruleStartsHere s = false := by
  have hfront := behindMarkers_eq (.nil s) hopening hbehind
  have hpeek := hopening.peek?_add 0
  rw [TokenStream.peek?_zero, Nat.add_zero] at hpeek
  simp only [ruleStartsHere, List.length_nil, List.nil_append] at hfront ⊢
  rw [hfront, hpeek]
  split
  · exact absurd ‹_› (h _)
  · rfl

/-! ## Elements -/

theorem quantifiers_operator {op : Operator} (h : s.token? = some op.token)
    (start : Nat) (e : Expr) :
    quantifiers start e s =
      quantifiers start (op.apply ⟨0, [], s.advance.spanFrom start⟩ e) s.advance := by
  rw [quantifiers]
  rcases op with _ | (_ | _) <;> split <;> simp_all [Operator.token, Operator.apply]

theorem quantifiers_other (h : ∀ op : Operator, s.token? ≠ some op.token) (start : Nat) (e : Expr) :
    quantifiers start e s = (e, s) := by
  rw [quantifiers]
  split
  · exact absurd ‹_› (h .optional)
  · exact absurd ‹_› (h (.repeated .zeroOrMore))
  · exact absurd ‹_› (h (.repeated .oneOrMore))
  · rfl

/-- Operators wrap the element whose text they follow. -/
theorem quantifiers_eq {ops : List (Located Operator)} {ts : List (Located Token)} {e : Expr}
    (hbefore : s.Passes ts u) (hne : ts ≠ []) (h : u.Passes (Operator.allTokens ops) t)
    (hstop : ∀ op : Operator, t.token? ≠ some op.token) :
    quantifiers s.position e u = (Operator.applyAll (startOf ts) e ops, t) := by
  induction ops generalizing ts u e with
  | nil =>
    obtain rfl := TokenStream.Passes.nil_iff.mp h
    exact quantifiers_other hstop _ _
  | cons op ops ih =>
    obtain ⟨hcurrent, hrest⟩ := TokenStream.passes_cons.mp h
    have hpassed := hbefore.append (TokenStream.passes_advance hcurrent)
    have hspan : u.advance.spanFrom s.position = (startOf ts).merge op.span :=
      (hpassed.spanFrom (by simp)).trans (stretch_concat hne _)
    rw [quantifiers_operator h.token?, hspan, ih hpassed (by simp) hrest, startOf_append hne]
    rfl

theorem exists_operators (s : TokenStream) :
    ∃ ops t, s.Passes (Operator.allTokens ops) t ∧ ∀ op : Operator, t.token? ≠ some op.token := by
  by_cases h : ∃ op : Operator, s.token? = some op.token
  · obtain ⟨op, htoken⟩ := h
    obtain ⟨span, hcurrent⟩ := TokenStream.exists_current?_of_token? htoken
    have hlt := TokenStream.remaining_advance_lt hcurrent
    obtain ⟨ops, t, hpasses, hstop⟩ := exists_operators s.advance
    exact ⟨⟨op, span⟩ :: ops, t, (TokenStream.passes_advance hcurrent).append hpasses, hstop⟩
  · exact ⟨[], s, .nil s, not_exists.mp h⟩
termination_by s.remaining

variable {α : Type} [Phrase α]

/-- What a sequence ends with: no element begins here, and nothing goes on with the one before. -/
structure EndsSequence (s : TokenStream) : Prop where
  noElement : elementStartsHere s = false
  noMark : s.token? ≠ some .atSign
  noGroup : s.token? ≠ some .leftParen
  noOperator : ∀ op : Operator, s.token? ≠ some op.token
  noEquals : s.token? ≠ some .equals

/-- What a body ends with: no further branch either. -/
structure EndsBody (s : TokenStream) : Prop extends EndsSequence s where
  noBar : s.token? ≠ some .pipe

theorem endsSequence_of_token? {token : Token} (h : s.token? = some token)
    (htoken : token ∈ [.pipe, .rightParen, .semicolon, .endOfInput]) : EndsSequence s := by
  have hnot {other : Token} (hother : other ∉ [.pipe, .rightParen, .semicolon, .endOfInput]) :
      s.token? ≠ some other := by
    rw [h, Ne, Option.some_inj]
    rintro rfl
    exact hother htoken
  refine ⟨?_, hnot (by simp), hnot (by simp), fun op => hnot ?_, hnot (by simp)⟩
  · have hstarts : token.startsElement = false := by
      simp only [List.mem_cons, List.not_mem_nil, or_false] at htoken
      rcases htoken with rfl | rfl | rfl | rfl <;> rfl
    simp [elementStartsHere, h, hstarts]
  · rcases op with _ | _ | _ <;> simp [Operator.token]

theorem endsBody_of_token? {token : Token} (h : s.token? = some token)
    (htoken : token ∈ [.rightParen, .semicolon, .endOfInput]) : EndsBody s := by
  refine ⟨endsSequence_of_token? h (List.mem_cons_of_mem _ htoken), ?_⟩
  rw [h, Ne, Option.some_inj]
  rintro rfl
  simp at htoken

/-- A body ends where the next rule is taken to begin, behind the markers in front of its name. -/
theorem endsBody_of_ruleStartsHere {name : String} (h : s.token? = some (.identifier name))
    (hrule : ruleStartsHere s = true) : EndsBody s where
  noElement := by simp [elementStartsHere, hrule]
  noMark := by simp [h]
  noGroup := by simp [h]
  noOperator := by rintro (_ | _ | _) <;> simp [h, Operator.token]
  noEquals := by simp [h]
  noBar := by simp [h]

/-- A parser reads what is written down in a kind of phrase, and nothing else. -/
structure Reads (α : Type) [Phrase α] (p : Parser Expr) : Prop where
  sound : ∀ {s t e}, p s = .done e t →
    ∃ x : α, s.Passes (Phrase.tokens x) t ∧ Phrase.IsClear x ∧ Phrase.expr x = e
  complete : ∀ {s t} {x : α}, s.Passes (Phrase.tokens x) t → Phrase.IsClear x → EndsBody t →
    p s = .done (Phrase.expr x) t

variable {inner : Parser Expr}

theorem group_sound (hinner : Reads α inner) {opening : Span} {e : Expr}
    (hopening : s.current? = some ⟨.leftParen, opening⟩) (h : group inner s = .done e t) :
    ∃ c : Primary α, s.Passes c.tokens t ∧ c.IsClear ∧ c.expr = e := by
  unfold group at h
  obtain ⟨body, u, hbody, h⟩ := Parsed.bind_eq_done.mp h
  obtain ⟨x, hx, hclear, rfl⟩ := hinner.sound hbody
  split at h
  · rename_i hclosed
    obtain ⟨closing, hclosing⟩ := (TokenStream.takeIf?_eq_some rfl).mp hclosed
    cases h
    have hpasses : s.Passes (Primary.group opening x closing).tokens t :=
      (TokenStream.passes_advance hopening).append (hx.append hclosing)
    refine ⟨.group opening x closing, hpasses, hclear, ?_⟩
    rw [hpasses.spanFrom (List.cons_ne_nil _ _), Primary.stretch_tokens]
    rfl
  · split at h
    · cases h
    · cases h
    · cases h
    · split at h <;> cases h

theorem group_complete (hinner : Reads α inner) {opening closing : Span} {x : α}
    (h : s.Passes (Primary.group opening x closing).tokens t) (hclear : Phrase.IsClear x) :
    group inner s = .done (Primary.group opening x closing).expr t := by
  have hspan := (h.spanFrom (List.cons_ne_nil _ _)).trans (Primary.stretch_tokens opening closing x)
  obtain ⟨-, hrest⟩ := TokenStream.passes_cons.mp h
  obtain ⟨u, hx, hclosing⟩ := TokenStream.passes_append.mp hrest
  have hends : EndsBody u := endsBody_of_token? hclosing.token? (by simp)
  have htake : u.takeIf? .rightParen = some t := (TokenStream.takeIf?_eq_some rfl).mpr ⟨_, hclosing⟩
  simp only [group, hinner.complete hx hclear hends, Parsed.bind, htake, hspan]
  rfl

theorem primary_sound (hinner : Reads α inner) {e : Expr}
    (h : primary (group inner) s = .done e t) :
    ∃ c : Primary α, s.Passes c.tokens t ∧ c.IsClear ∧ c.expr = e := by
  unfold primary at h
  split at h
  · cases h
  · rename_i token hcurrent
    obtain ⟨value, span⟩ := token
    dsimp only at h
    split at h
    · cases h
      exact ⟨.reference ⟨_, span⟩, TokenStream.passes_advance hcurrent, trivial, rfl⟩
    · cases h
      exact ⟨.terminal ⟨.literal _, span⟩, TokenStream.passes_advance hcurrent, trivial, rfl⟩
    · cases h
      exact ⟨.terminal ⟨.pattern _, span⟩, TokenStream.passes_advance hcurrent, trivial, rfl⟩
    · exact group_sound hinner hcurrent h
    all_goals cases h

theorem primary_complete (hinner : Reads α inner) {c : Primary α} (h : s.Passes c.tokens t)
    (hclear : c.IsClear) : primary (group inner) s = .done c.expr t := by
  cases c with
  | reference name =>
    obtain ⟨hcurrent, rfl⟩ := TokenStream.passes_singleton.mp h
    simp only [primary, hcurrent]
    rfl
  | terminal terminal =>
    obtain ⟨hcurrent, rfl⟩ := TokenStream.passes_singleton.mp h
    obtain ⟨_ | _, span⟩ := terminal <;> simp only [primary, hcurrent, terminalToken] <;> rfl
  | group opening x closing =>
    have hgroup := group_complete hinner h hclear
    simp only [primary, h.current?]
    exact hgroup

/-! ## Elements and sequences -/

theorem startOf_element (opening : List Mark) (e : Element α) :
    startOf (Mark.allTokens opening ++ e.tokens) =
      startOf (Mark.allTokens opening ++ e.core.tokens) := by
  obtain ⟨token, more, htokens, -⟩ := e.core.exists_tokens_eq
  rw [Element.tokens, ← List.append_assoc, startOf_append]
  simp [htokens]

theorem remaining_lt_of_element {opening : List Mark} {e : Element α}
    (h : s.Passes (Mark.allTokens opening ++ e.tokens) t) : t.remaining < s.remaining := by
  obtain ⟨token, more, htokens, -⟩ := e.core.exists_tokens_eq
  have hremaining := h.remaining
  simp only [Element.tokens, htokens, List.length_append, List.length_cons] at hremaining
  omega

theorem element_sound (hinner : Reads α inner) {item : Expr × List Marker}
    (h : element (group inner) s = .done item t) :
    ∃ (opening : List Mark) (e : Element α),
      s.Passes (Mark.allTokens opening ++ e.tokens) t ∧
        item = (e.expr (startOf (Mark.allTokens opening ++ e.tokens)),
          opening.map Mark.marker) ∧
        ¬Clashes opening e ∧ e.core.IsClear ∧ IsBehindMarks e.behind t := by
  unfold element at h
  obtain ⟨before, u, hbefore, h⟩ := Parsed.bind_eq_done.mp h
  obtain ⟨core, v, hcore, h⟩ := Parsed.bind_eq_done.mp h
  obtain ⟨behind, w, hbehind, h⟩ := Parsed.bind_eq_done.mp h
  cases h
  obtain ⟨opening, hopening, rfl, hclash⟩ := markers_eq_done.mp hbefore
  obtain ⟨c, hc, hclear, rfl⟩ := primary_sound hinner hcore
  obtain ⟨ops, x, hops, hstop⟩ := exists_operators v
  obtain ⟨token, more, htokens, -, -, hparen⟩ := c.exists_tokens_eq
  have hhead : u.token? = some token.value := (htokens ▸ hc).token?
  have hfront := hopening.append hc
  rw [quantifiers_eq hfront (by simp [htokens]) hops hstop] at hbehind ⊢
  obtain ⟨marks, hmarks, rfl, hafter⟩ := markers_eq_done.mp hbehind
  refine ⟨opening, ⟨c, ops, marks⟩,
    hopening.append (hc.append (hops.append hmarks)), ?_, ?_, hclear,
    hafter⟩
  · rw [startOf_element]
    rfl
  · rintro ⟨hbare, hgroup⟩
    refine hclash.noArgument hbare ?_
    rw [hhead, hparen.mpr hgroup]

/-- The core of an element is not read as a part of the markers in front of it. -/
theorem isBehindMarks_of_core {opening : List Mark} {e : Element α} (h : s.Passes e.core.tokens t)
    (hclash : ¬Clashes opening e) : IsBehindMarks opening s := by
  obtain ⟨token, more, htokens, -, hsign, hparen⟩ := e.core.exists_tokens_eq
  have hhead : s.token? = some token.value := (htokens ▸ h).token?
  refine ⟨?_, fun hbare hnext => hclash ⟨hbare, ?_⟩⟩
  · rw [hhead, Ne, Option.some_inj]
    exact hsign
  · exact hparen.mp (by rwa [hhead, Option.some_inj] at hnext)

theorem element_complete (hinner : Reads α inner) {opening : List Mark} {e : Element α}
    (h : s.Passes (Mark.allTokens opening ++ e.tokens) t) (hclash : ¬Clashes opening e)
    (hclear : e.core.IsClear) (hmarks : IsBehindMarks e.behind t)
    (hstop : ∀ op : Operator, t.token? ≠ some op.token) :
    element (group inner) s =
      .done (e.expr (startOf (Mark.allTokens opening ++ e.tokens)), opening.map Mark.marker) t := by
  obtain ⟨u, hopening, hrest⟩ := TokenStream.passes_append.mp h
  obtain ⟨v, hcore, hrest⟩ := TokenStream.passes_append.mp hrest
  obtain ⟨w, hops, hbehind⟩ := TokenStream.passes_append.mp hrest
  obtain ⟨token, more, htokens, -⟩ := e.core.exists_tokens_eq
  have hopened : markers s = .done (opening.map Mark.marker) u :=
    markers_eq_done.mpr ⟨opening, hopening, rfl, isBehindMarks_of_core hcore hclash⟩
  have hread := primary_complete hinner hcore hclear
  have hend : ∀ op : Operator, w.token? ≠ some op.token := by
    rcases eq_nil_or_token?_of_allTokens hbehind with ⟨-, rfl⟩ | ⟨-, hnext⟩
    · exact hstop
    · intro op
      rw [hnext]
      rcases op with _ | _ | _ <;> simp [Operator.token]
  have hquantified := quantifiers_eq (e := e.core.expr) (hopening.append hcore) (by simp [htokens])
    hops hend
  have hclosed : markers w = .done (e.behind.map Mark.marker) t :=
    markers_eq_done.mpr ⟨e.behind, hbehind, rfl, hmarks⟩
  rw [startOf_element]
  simp only [element, hopened, hread, hquantified, hclosed, Parsed.bind, Element.expr]

/-- What stands where the elements of a sequence begin that no markers open. -/
structure BeginsElements (es : List (Element α)) (s : TokenStream) : Prop where
  noMark : s.token? ≠ some .atSign
  noOperator : ∀ op : Operator, s.token? ≠ some op.token
  noEquals : s.token? ≠ some .equals
  isGroup : s.token? = some .leftParen → ∃ e ∈ es.head?, e.core.IsGroup

theorem beginsElements_of_passes {es : List (Element α)}
    (h : s.Passes (es.flatMap Element.tokens) t) (hend : EndsSequence t) : BeginsElements es s := by
  cases es with
  | nil =>
    obtain rfl := TokenStream.Passes.nil_iff.mp h
    exact ⟨hend.noMark, hend.noOperator, hend.noEquals, fun hgroup => absurd hgroup hend.noGroup⟩
  | cons e es =>
    obtain ⟨token, more, htokens, hstarts, hsign, hparen⟩ := e.core.exists_tokens_eq
    rw [List.flatMap_cons, Element.tokens, htokens] at h
    refine ⟨?_, ?_, ?_, ?_⟩
    · rw [h.token?, Ne, Option.some_inj]
      exact hsign
    · intro op hop
      rw [h.token?, Option.some_inj] at hop
      rw [hop] at hstarts
      rcases op with _ | _ | _ <;> cases hstarts
    · intro hequals
      rw [h.token?, Option.some_inj] at hequals
      rw [hequals] at hstarts
      cases hstarts
    · intro hnext
      rw [h.token?, Option.some_inj] at hnext
      exact ⟨e, rfl, hparen.mp hnext⟩

theorem token?_of_isGroup {c : Primary α} {ts : List (Located Token)}
    (h : s.Passes (c.tokens ++ ts) t) (hgroup : c.IsGroup) : s.token? = some .leftParen := by
  obtain ⟨token, more, htokens, -, -, hparen⟩ := c.exists_tokens_eq
  rw [htokens] at h
  rw [h.token?, hparen.mpr hgroup]

theorem not_clashes_of_passes {e : Element α} {es : List (Element α)}
    (hmarks : IsBehindMarks e.behind s) (h : s.Passes (es.flatMap Element.tokens) t) :
    ∀ next ∈ es.head?, ¬Clashes e.behind next := by
  rintro next hnext ⟨hbare, hgroup⟩
  cases es with
  | nil => cases hnext
  | cons first es =>
    cases hnext
    rw [List.flatMap_cons, Element.tokens, List.append_assoc] at h
    exact hmarks.noArgument hbare (token?_of_isGroup h hgroup)

/-- An element that no markers open. -/
def plainItem (e : Element α) : Expr × List Marker := (e.expr (startOf e.tokens), [])

theorem elementsFrom_sound (hinner : Reads α inner) {read items : List (Expr × List Marker)}
    (hstart : s.token? ≠ some .atSign) (h : elementsFrom (group inner) read s = .done items t) :
    ∃ es : List (Element α), s.Passes (es.flatMap Element.tokens) t ∧
      items = read.reverse ++ es.map plainItem ∧
        es.IsChain (fun e next => ¬Clashes e.behind next) ∧ ∀ e ∈ es, e.core.IsClear := by
  fun_induction elementsFrom (group inner) read s with
  | case1 => cases h
  | case2 read s _ item u hitem _ ih =>
    obtain ⟨opening, e, hpasses, rfl, -, hclear, hmarks⟩ := element_sound hinner hitem
    obtain ⟨es, hes, rfl, hchain, hall⟩ := ih hmarks.noMark h
    obtain ⟨v, hopening, he⟩ := TokenStream.passes_append.mp hpasses
    rcases eq_nil_or_token?_of_allTokens hopening with ⟨rfl, rfl⟩ | ⟨-, hsign⟩
    · refine ⟨e :: es, he.append hes, by simp [plainItem, Mark.allTokens], ?_,
        List.forall_mem_cons.mpr ⟨hclear, hall⟩⟩
      exact List.isChain_cons.mpr ⟨not_clashes_of_passes hmarks hes, hchain⟩
    · exact absurd hsign hstart
  | case3 read s _ item u hitem hshort =>
    obtain ⟨opening, e, hpasses, -⟩ := element_sound hinner hitem
    exact absurd (remaining_lt_of_element hpasses) hshort
  | case4 =>
    cases h
    exact ⟨[], .nil _, by simp, .nil, by simp⟩

/-- No rule is taken to begin at an element, unless an equals sign follows it. -/
theorem ruleStartsHere_of_element {opening : List Mark} {e : Element α}
    (h : s.Passes (Mark.allTokens opening ++ e.tokens) t) (hclash : ¬Clashes opening e)
    (hmarks : IsBehindMarks e.behind t) (hequals : t.token? ≠ some .equals) :
    ruleStartsHere s = false := by
  obtain ⟨u, hopening, hrest⟩ := TokenStream.passes_append.mp h
  obtain ⟨v, hcore, hrest⟩ := TokenStream.passes_append.mp hrest
  have hbehind := isBehindMarks_of_core hcore hclash
  obtain ⟨core, ops, behind⟩ := e
  rcases core with name | ⟨⟨_ | _, span⟩⟩ | ⟨opening, x, closing⟩
  · obtain ⟨hname, rfl⟩ := TokenStream.passes_singleton.mp hcore
    cases ops with
    | nil =>
      rw [ruleStartsHere_of_name hopening hname hrest hmarks]
      simpa using hequals
    | cons op ops =>
      have hop : u.advance.token? = some op.value.token := hrest.token?
      have hnone : u.advance.Passes (Mark.allTokens []) u.advance := .nil _
      have hother : op.value.token ≠ .atSign ∧ op.value.token ≠ .equals := by
        rcases op.value with _ | _ | _ <;> simp [Operator.token]
      have hstop : IsBehindMarks [] u.advance := isBehindMarks_nil.mpr (by simp [hop, hother.1])
      rw [ruleStartsHere_of_name hopening hname hnone hstop, hop]
      simpa using hother.2
  all_goals
    exact ruleStartsHere_of_not_name hopening hbehind (by simp [hcore.token?, terminalToken])

theorem elementStartsHere_of_passes {opening : List Mark} {e : Element α}
    (h : s.Passes (Mark.allTokens opening ++ e.tokens) t) (hclash : ¬Clashes opening e)
    (hmarks : IsBehindMarks e.behind t) (hequals : t.token? ≠ some .equals) :
    elementStartsHere s = true := by
  have hrule := ruleStartsHere_of_element h hclash hmarks hequals
  have hstarts : ∃ token, s.token? = some token ∧ token.startsElement = true := by
    obtain ⟨u, hopening, he⟩ := TokenStream.passes_append.mp h
    rcases eq_nil_or_token?_of_allTokens hopening with ⟨-, rfl⟩ | ⟨-, hsign⟩
    · obtain ⟨token, more, htokens, hstarts, -⟩ := e.core.exists_tokens_eq
      rw [Element.tokens, htokens] at he
      exact ⟨_, he.token?, hstarts⟩
    · exact ⟨_, hsign, rfl⟩
  obtain ⟨token, htoken, hstarts⟩ := hstarts
  simp [elementStartsHere, htoken, hstarts, hrule]

theorem isBehindMarks_of_passes {e : Element α} {es : List (Element α)}
    (h : s.Passes (es.flatMap Element.tokens) t) (hend : EndsSequence t)
    (hchain : ∀ next ∈ es.head?, ¬Clashes e.behind next) : IsBehindMarks e.behind s := by
  have hbegins := beginsElements_of_passes h hend
  refine ⟨hbegins.noMark, fun hbare hparen => ?_⟩
  obtain ⟨next, hnext, hgroup⟩ := hbegins.isGroup hparen
  exact hchain next hnext ⟨hbare, hgroup⟩

theorem elementsFrom_complete (hinner : Reads α inner)
    {read : List (Expr × List Marker)} {es : List (Element α)}
    (h : s.Passes (es.flatMap Element.tokens) t)
    (hchain : es.IsChain fun e next => ¬Clashes e.behind next)
    (hclear : ∀ e ∈ es, e.core.IsClear) (hend : EndsSequence t) :
    elementsFrom (group inner) read s = .done (read.reverse ++ es.map plainItem) t := by
  induction es generalizing read s with
  | nil =>
    obtain rfl := TokenStream.Passes.nil_iff.mp h
    have hstop : ¬elementStartsHere t = true := by simp [hend.noElement]
    rw [elementsFrom, if_neg hstop]
    simp
  | cons e es ih =>
    obtain ⟨u, he, hes⟩ := TokenStream.passes_append.mp (List.flatMap_cons ▸ h)
    obtain ⟨hhead, htail⟩ := List.isChain_cons.mp hchain
    obtain ⟨hfirst, hothers⟩ := List.forall_mem_cons.mp hclear
    have hopened : s.Passes (Mark.allTokens [] ++ e.tokens) u := he
    have hclash : ¬Clashes [] e := fun hclash => nomatch hclash.1
    have hbehind := isBehindMarks_of_passes hes hend hhead
    have hbegins := beginsElements_of_passes hes hend
    have hread : element (group inner) s = .done (plainItem e) u :=
      element_complete hinner hopened hclash hfirst hbehind hbegins.noOperator
    have hstarts := elementStartsHere_of_passes hopened hclash hbehind hbegins.noEquals
    rw [elementsFrom, if_pos hstarts]
    simp only [hread, if_pos (remaining_lt_of_element hopened), ih hes htail hothers]
    simp

/-- The first element of a sequence, with the markers that open it. -/
def firstItem (q : Written.Sequence α) : Expr × List Marker :=
  (q.first.expr (startOf q.tokens), q.opening.map Mark.marker)

theorem sequence_tokens (q : Written.Sequence α) :
    q.tokens = (Mark.allTokens q.opening ++ q.first.tokens) ++ q.others.flatMap Element.tokens := by
  rw [Sequence.tokens, Sequence.elements, List.flatMap_cons, List.append_assoc]

theorem first_tokens_ne_nil (opening : List Mark) (e : Element α) :
    Mark.allTokens opening ++ e.tokens ≠ [] := by
  obtain ⟨token, more, htokens, -⟩ := e.core.exists_tokens_eq
  simp [Element.tokens, htokens]

theorem firstItem_eq (q : Written.Sequence α) :
    firstItem q = (q.first.expr (startOf (Mark.allTokens q.opening ++ q.first.tokens)),
      q.opening.map Mark.marker) := by
  rw [firstItem, sequence_tokens, startOf_append (first_tokens_ne_nil _ _)]

theorem sequence_tokens_ne_nil (q : Written.Sequence α) : q.tokens ≠ [] := by
  rw [sequence_tokens]
  exact List.append_ne_nil_of_left_ne_nil (first_tokens_ne_nil _ _) _

theorem describesSequence_eq (m : Marker) : describesSequence m = decide (DescribesSequence m) := by
  rw [Bool.eq_iff_iff, decide_eq_true_iff]
  simp [describesSequence, DescribesSequence]

theorem ownMarkers_plainItem (e : Element α) :
    ownMarkers (plainItem e) = e.expr (startOf e.tokens) := by
  simp only [ownMarkers, plainItem, Expr.withMarkersBefore, List.nil_append]
  cases e.expr (startOf e.tokens) <;> rfl

/-- What a sequence makes of its elements. -/
theorem sequence_eq {p : Parser Expr} {context : ParseContext} {q : Written.Sequence α}
    (hitems : elementsFrom p [] s = .done (firstItem q :: q.others.map plainItem) t)
    (h : s.Passes q.tokens t) : sequence p context s = .done q.expr t := by
  have hspan := h.spanFrom (sequence_tokens_ne_nil q)
  obtain ⟨opening, first, others⟩ := q
  cases others with
  | nil =>
    simp only [sequence, hitems, Parsed.bind, List.map_nil]
    rfl
  | cons second others =>
    have hhoisted : describesSequence = fun m => decide (DescribesSequence m) :=
      funext describesSequence_eq
    have hplain : ownMarkers ∘ plainItem = fun e : Element α => e.expr (startOf e.tokens) :=
      funext ownMarkers_plainItem
    have hown : not ∘ describesSequence = fun m => decide ¬DescribesSequence m := by
      funext m
      simp [describesSequence_eq]
    simp only [sequence, hitems, Parsed.bind, List.map_cons, List.partition_eq_filter_filter, hspan,
      firstItem, Sequence.expr, hown, ownMarkers_plainItem, List.map_map, hplain]
    rw [hhoisted]
    rfl

theorem sequence_sound (hinner : Reads α inner) {context : ParseContext} {e : Expr}
    (h : sequence (group inner) context s = .done e t) :
    ∃ q : Written.Sequence α, s.Passes q.tokens t ∧ q.IsClear ∧ q.expr = e := by
  obtain ⟨items, u, hitems, hdone⟩ := Parsed.bind_eq_done.mp h
  have hread := hitems
  rw [elementsFrom] at hitems
  split at hitems
  · split at hitems
    · cases hitems
    · rename_i item v hitem
      obtain ⟨opening, first, hfirst, rfl, hclash, hclear, hmarks⟩ := element_sound hinner hitem
      rw [if_pos (remaining_lt_of_element hfirst)] at hitems
      obtain ⟨others, hothers, rfl, hchain, hall⟩ := elementsFrom_sound hinner hmarks.noMark hitems
      let q : Written.Sequence α := ⟨opening, first, others⟩
      have hpasses : s.Passes q.tokens u := by
        rw [sequence_tokens]
        exact hfirst.append hothers
      have hexpr : sequence (group inner) context s = .done q.expr u := by
        refine sequence_eq ?_ hpasses
        rw [hread, firstItem_eq]
        rfl
      have heq := hexpr.symm.trans h
      cases heq
      refine ⟨q, hpasses, ⟨hclash, ?_, List.forall_mem_cons.mpr ⟨hclear, hall⟩⟩, rfl⟩
      exact List.isChain_cons.mpr ⟨not_clashes_of_passes hmarks hothers, hchain⟩
  · cases hitems
    dsimp only [List.reverse_nil] at hdone
    split at hdone <;> cases hdone

theorem sequence_complete (hinner : Reads α inner) {context : ParseContext}
    {q : Written.Sequence α} (h : s.Passes q.tokens t) (hclear : q.IsClear)
    (hend : EndsSequence t) : sequence (group inner) context s = .done q.expr t := by
  refine sequence_eq ?_ h
  rw [sequence_tokens] at h
  obtain ⟨u, hfirst, hothers⟩ := TokenStream.passes_append.mp h
  obtain ⟨hhead, htail⟩ := List.isChain_cons.mp hclear.between
  obtain ⟨hcore, hinside⟩ := List.forall_mem_cons.mp hclear.inside
  have hbehind := isBehindMarks_of_passes hothers hend hhead
  have hbegins := beginsElements_of_passes hothers hend
  have hread := element_complete hinner hfirst hclear.opening hcore hbehind hbegins.noOperator
  have hstarts := elementStartsHere_of_passes hfirst hclear.opening hbehind hbegins.noEquals
  have hrest : elementsFrom (group inner) [firstItem q] u = _ :=
    elementsFrom_complete hinner hothers htail hinside hend
  rw [elementsFrom, if_pos hstarts, hread]
  dsimp only
  rw [if_pos (remaining_lt_of_element hfirst), ← firstItem_eq, hrest]
  rfl

/-! ## Alternations and bodies -/

theorem branchTokens_cons (branch : Span × Written.Sequence α)
    (others : List (Span × Written.Sequence α)) :
    branchTokens (branch :: others) =
      ⟨.pipe, branch.1⟩ :: (branch.2.tokens ++ branchTokens others) := by
  simp [branchTokens]

theorem branchesFrom_sound (hinner : Reads α inner) {context : ParseContext} {read bs : List Expr}
    (h : branchesFrom (group inner) context read s = .done bs t) :
    ∃ others : List (Span × Written.Sequence α), s.Passes (branchTokens others) t ∧
      bs = read.reverse ++ others.map (fun branch => branch.2.expr) ∧
        ∀ branch ∈ others, branch.2.IsClear := by
  fun_induction branchesFrom (group inner) context read s with
  | case1 =>
    cases h
    exact ⟨[], .nil _, by simp, by simp⟩
  | case2 => cases h
  | case3 read s u hbar _ v hbranch _ ih =>
    obtain ⟨bar, hbar⟩ := (TokenStream.takeIf?_eq_some rfl).mp hbar
    obtain ⟨q, hq, hclear, rfl⟩ := sequence_sound hinner hbranch
    obtain ⟨others, hothers, rfl, hall⟩ := ih h
    refine ⟨(bar, q) :: others, ?_, by simp, List.forall_mem_cons.mpr ⟨hclear, hall⟩⟩
    rw [branchTokens_cons]
    exact hbar.append (hq.append hothers)
  | case4 read s u hbar _ v hbranch hshort =>
    obtain ⟨bar, hbar⟩ := (TokenStream.takeIf?_eq_some rfl).mp hbar
    obtain ⟨q, hq, -, -⟩ := sequence_sound hinner hbranch
    have hremaining := (hbar.append hq).remaining
    simp only [List.length_append, List.length_cons] at hremaining
    omega

theorem endsSequence_of_branches {others : List (Span × Written.Sequence α)}
    (h : s.Passes (branchTokens others) t) (hend : EndsBody t) : EndsSequence s := by
  cases others with
  | nil =>
    obtain rfl := TokenStream.Passes.nil_iff.mp h
    exact hend.toEndsSequence
  | cons branch others =>
    rw [branchTokens_cons] at h
    exact endsSequence_of_token? h.token? (by simp)

theorem branchesFrom_complete (hinner : Reads α inner) {context : ParseContext}
    {read : List Expr} {others : List (Span × Written.Sequence α)}
    (h : s.Passes (branchTokens others) t) (hclear : ∀ branch ∈ others, branch.2.IsClear)
    (hend : EndsBody t) :
    branchesFrom (group inner) context read s =
      .done (read.reverse ++ others.map fun branch => branch.2.expr) t := by
  induction others generalizing read s with
  | nil =>
    obtain rfl := TokenStream.Passes.nil_iff.mp h
    rw [branchesFrom, (TokenStream.takeIf?_eq_none rfl).mpr hend.noBar]
    simp
  | cons branch others ih =>
    obtain ⟨hfirst, hall⟩ := List.forall_mem_cons.mp hclear
    obtain ⟨hbar, hrest⟩ := TokenStream.passes_cons.mp (branchTokens_cons branch others ▸ h)
    obtain ⟨u, hbranch, hothers⟩ := TokenStream.passes_append.mp hrest
    have htake : s.takeIf? .pipe = some s.advance :=
      (TokenStream.takeIf?_eq_some rfl).mpr ⟨_, TokenStream.passes_advance hbar⟩
    have hread : sequence (group inner) context s.advance = .done branch.2.expr u :=
      sequence_complete hinner hbranch hfirst (endsSequence_of_branches hothers hend)
    have hshorter : u.remaining < s.remaining := by
      have hremaining := hbranch.remaining
      have hadvance := TokenStream.remaining_advance_lt hbar
      omega
    rw [branchesFrom, htake]
    dsimp only
    rw [hread]
    dsimp only
    rw [if_pos hshorter, ih hothers hall]
    simp

theorem alternation_tokens (a : Written.Alternation α) :
    Phrase.tokens a = a.first.tokens ++ branchTokens a.others := rfl

theorem alternation_isClear (a : Written.Alternation α) :
    Phrase.IsClear a ↔ a.first.IsClear ∧ ∀ branch ∈ a.others, branch.2.IsClear := by
  have hall : Phrase.IsClear a ↔ ∀ q ∈ a.branches, q.IsClear := Iff.rfl
  rw [hall, Alternation.branches, List.forall_mem_cons, List.forall_mem_map]

/-- What an alternation makes of its branches. -/
theorem alternation_eq {p : Parser Expr} {context : ParseContext} {a : Written.Alternation α}
    (hfirst : sequence p context s = .done a.first.expr u)
    (hothers : branchesFrom p context [a.first.expr] u =
      .done (a.first.expr :: a.others.map fun branch => branch.2.expr) t)
    (h : s.Passes (Phrase.tokens a) t) :
    alternation p context s = .done (Phrase.expr a) t := by
  have hspan := h.spanFrom (List.append_ne_nil_of_left_ne_nil (sequence_tokens_ne_nil _) _)
  obtain ⟨first, others⟩ := a
  simp only [alternation, hfirst, hothers, Parsed.bind, hspan]
  cases others with
  | nil => rfl
  | cons second others =>
    simp only [List.map_cons, Phrase.expr, Alternation.branches, List.map_map]
    rfl

/-- An alternation is read as it is written, if its groups are. -/
theorem reads_alternation (hinner : Reads α inner) (context : ParseContext) :
    Reads (Written.Alternation α) (alternation (group inner) context) where
  sound {s t e} h := by
    obtain ⟨first, u, hfirst, hrest⟩ := Parsed.bind_eq_done.mp h
    obtain ⟨branches, v, hbranches, hdone⟩ := Parsed.bind_eq_done.mp hrest
    obtain ⟨q, hq, hclear, rfl⟩ := sequence_sound hinner hfirst
    obtain ⟨others, hothers, rfl, hall⟩ := branchesFrom_sound hinner hbranches
    let a : Written.Alternation α := ⟨q, others⟩
    have hpasses : s.Passes (Phrase.tokens a) v := hq.append hothers
    have hexpr : alternation (group inner) context s = .done (Phrase.expr a) v :=
      alternation_eq hfirst hbranches hpasses
    cases hexpr.symm.trans h
    exact ⟨a, hpasses, (alternation_isClear a).mpr ⟨hclear, hall⟩, rfl⟩
  complete {s t a} h hclear hend := by
    obtain ⟨hfirst, hall⟩ := (alternation_isClear a).mp hclear
    obtain ⟨u, hq, hothers⟩ := TokenStream.passes_append.mp (alternation_tokens a ▸ h)
    have hends := endsSequence_of_branches hothers hend
    exact alternation_eq (sequence_complete hinner hq hfirst hends)
      (branchesFrom_complete hinner hothers hall hend) h

/-- Bodies are read as they are written, whatever the depth of their parentheses. -/
theorem reads_expression (depth : Nat) (context : ParseContext) :
    Reads (Body depth) (expression depth context) := by
  induction depth generalizing context with
  | zero =>
    constructor
    · intro s t e h
      cases h
    · intro s t x
      exact Empty.elim x
  | succ depth ih => exact reads_alternation (ih .group) context

end Parser

end AnnotatedGrammar
