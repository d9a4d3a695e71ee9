import AnnotatedGrammar.Proofs.Source.Positions
import AnnotatedGrammar.Proofs.Syntax.Recognition
import AnnotatedGrammar.Proofs.Token.Words

/-!
# Places of rules and expressions

The tokens of a text stand one behind the other. Every written phrase lies between the first and the
last of its own tokens, so what is inside a phrase lies within it, and what is written side by side
does not overlap.
-/

namespace AnnotatedGrammar

/-! ## Stretches of text -/

namespace Span

/-- A stretch lies between two offsets. -/
def Between (lo hi : Nat) (span : Span) : Prop :=
  lo ≤ span.start.offset ∧ span.stop.offset ≤ hi

/-- A stretch holds another one. -/
def Covers (outer inner : Span) : Prop := inner.Between outer.start.offset outer.stop.offset

/-- A stretch ends before another one begins. -/
def Precedes (a b : Span) : Prop := a.stop.offset ≤ b.start.offset

theorem Between.mono {lo lo' hi hi' : Nat} {span : Span} (h : span.Between lo hi) (hlo : lo' ≤ lo)
    (hhi : hi ≤ hi') : span.Between lo' hi' :=
  ⟨hlo.trans h.1, h.2.trans hhi⟩

/-- A stretch of at least one character of a text. -/
structure Cuts (text : List Char) (span : Span) : Prop where
  start_reached : Position.start.Reaches text span.start
  stop_reached : Position.start.Reaches text span.stop
  lt : span.start.offset < span.stop.offset

variable {text : List Char} {a b span : Span}

theorem Cuts.slice_ne_nil (h : span.Cuts text) : span.slice text ≠ [] := by
  obtain ⟨start, stop⟩ := span
  obtain ⟨⟨before, hbefore, rfl⟩, ⟨whole, hwhole, rfl⟩, hlt⟩ := h
  have hprefix : before <+: whole := by
    rcases List.prefix_or_prefix_of_prefix hbefore hwhole with h | ⟨rest, rfl⟩
    · exact h
    · rw [offset_advanceOver, offset_advanceOver, byteLength_append] at hlt
      omega
  obtain ⟨inside, rfl⟩ := hprefix
  obtain ⟨after, rfl⟩ := hwhole
  rw [List.append_assoc, slice_advanceOver]
  rintro rfl
  rw [List.append_nil] at hlt
  exact Nat.lt_irrefl _ hlt

/-- From the beginning of one stretch to the end of another one that ends no earlier. -/
theorem Cuts.merge (ha : a.Cuts text) (hb : b.Cuts text) (hstart : a.start.offset ≤ b.start.offset)
    (hstop : a.stop.offset ≤ b.stop.offset) :
    (a.merge b).Cuts text ∧ (a.merge b).start.offset = a.start.offset ∧
      (a.merge b).stop.offset = b.stop.offset := by
  have hfirst : (a.merge b).start = a.start := if_neg (Nat.not_lt.mpr hstart)
  have hlast : (a.merge b).stop.offset = b.stop.offset := by
    unfold Span.merge
    dsimp only
    split
    · rfl
    · omega
  refine ⟨⟨?_, ?_, ?_⟩, by rw [hfirst], hlast⟩
  · rw [hfirst]
    exact ha.start_reached
  · unfold Span.merge
    dsimp only
    split
    · exact hb.stop_reached
    · exact ha.stop_reached
  · rw [hfirst, hlast]
    exact Nat.lt_of_le_of_lt hstart hb.lt

end Span

/-- Tokens that stand one behind the other between two offsets of a text. -/
def InOrder (text : List Char) (lo hi : Nat) : List (Located Token) → Prop
  | [] => lo ≤ hi
  | t :: ts =>
    lo ≤ t.span.start.offset ∧ t.span.Cuts text ∧ InOrder text t.span.stop.offset hi ts

section InOrder

variable {text : List Char} {lo lo' mid hi : Nat} {t : Located Token}
  {ts us : List (Located Token)}

theorem InOrder.le (h : InOrder text lo hi ts) : lo ≤ hi := by
  induction ts generalizing lo with
  | nil => exact h
  | cons t ts ih =>
    obtain ⟨hlo, hcuts, hrest⟩ := h
    exact hlo.trans (hcuts.lt.le.trans (ih hrest))

theorem InOrder.mono (h : InOrder text lo hi ts) (hlo : lo' ≤ lo) : InOrder text lo' hi ts := by
  cases ts with
  | nil => exact hlo.trans h
  | cons t ts => exact ⟨hlo.trans h.1, h.2⟩

theorem inOrder_append :
    InOrder text lo hi (ts ++ us) ↔ ∃ mid, InOrder text lo mid ts ∧ InOrder text mid hi us := by
  induction ts generalizing lo with
  | nil =>
    constructor
    · intro h
      exact ⟨lo, Nat.le_refl lo, h⟩
    · rintro ⟨mid, hlo, h⟩
      exact h.mono hlo
  | cons t ts ih =>
    rw [List.cons_append, InOrder, ih]
    constructor
    · rintro ⟨hlo, hcuts, mid, hts, hus⟩
      exact ⟨mid, ⟨hlo, hcuts, hts⟩, hus⟩
    · rintro ⟨mid, ⟨hlo, hcuts, hts⟩, hus⟩
      exact ⟨hlo, hcuts, mid, hts, hus⟩

/-- Tokens that are made of two parts stand on both sides of some offset. -/
theorem InOrder.split {whole : List (Located Token)} (h : InOrder text lo hi whole)
    (hwhole : whole = ts ++ us) :
    ∃ mid, InOrder text lo mid ts ∧ InOrder text mid hi us := by
  subst hwhole
  exact inOrder_append.mp h

theorem InOrder.sublist (h : InOrder text lo hi us) (hsub : ts.Sublist us) :
    InOrder text lo hi ts := by
  induction hsub generalizing lo with
  | slnil => exact h
  | cons t _ ih => exact (ih h.2.2).mono (h.1.trans h.2.1.lt.le)
  | cons_cons t _ ih => exact ⟨h.1, h.2.1, ih h.2.2⟩

theorem InOrder.of_mem (h : InOrder text lo hi ts) (ht : t ∈ ts) :
    t.span.Cuts text ∧ t.span.Between lo hi := by
  obtain ⟨hlo, hcuts, hhi⟩ := h.sublist (List.singleton_sublist.mpr ht)
  exact ⟨hcuts, hlo, hhi⟩

open Written

/-- Tokens stand behind the beginning of the first of them. -/
theorem InOrder.from_first (h : InOrder text lo hi ts) (hne : ts ≠ []) :
    (startOf ts).Cuts text ∧ (startOf ts).Between lo hi ∧
      InOrder text (startOf ts).start.offset hi ts := by
  obtain ⟨t, ts, rfl⟩ := List.exists_cons_of_ne_nil hne
  exact ⟨h.2.1, ⟨h.1, h.2.2.le⟩, Nat.le_refl _, h.2⟩

/-- Tokens stand within the stretch from the first to the last of them. -/
theorem InOrder.within_stretch (h : InOrder text lo hi ts) (hne : ts ≠ []) :
    (stretch ts).Cuts text ∧ (stretch ts).Between lo hi ∧
      InOrder text (stretch ts).start.offset (stretch ts).stop.offset ts := by
  obtain ⟨hcuts, ⟨hlo, -⟩, hfirst⟩ := h.from_first hne
  obtain ⟨front, last, rfl⟩ := (List.eq_nil_or_concat' ts).resolve_left hne
  obtain ⟨mid, hfront, hmid, hlast, hhi⟩ := inOrder_append.mp hfirst
  -- a single token is merged with itself
  by_cases hempty : front = []
  · subst hempty
    have hself := hlast.merge hlast (Nat.le_refl _) (Nat.le_refl _)
    exact ⟨hself.1, ⟨hself.2.1 ▸ hlo, hself.2.2 ▸ hhi⟩, hself.2.1.le, hlast, hself.2.2.ge⟩
  · rw [startOf_append hempty] at hcuts hlo hfront
    obtain ⟨-, ⟨-, hstop⟩, -⟩ := hfront.from_first hempty
    have hle := hcuts.lt
    have hlt := hlast.lt
    obtain ⟨hmerge, hstart, hend⟩ := hcuts.merge hlast (by omega) (by omega)
    rw [stretch_concat hempty, Span.Between, hstart, hend]
    exact ⟨hmerge, ⟨hlo, hhi⟩, inOrder_append.mpr ⟨mid, hfront, hmid, hlast, Nat.le_refl _⟩⟩

end InOrder

/-! ## Nested expressions -/

namespace Expr

/-- An expression covers some text and holds its children, which stand one behind the other. -/
structure Nests (text : List Char) (e : Expr) : Prop where
  nonempty : e.span.slice text ≠ []
  covers : ∀ child ∈ e.children, e.span.Covers child.span
  ordered : e.children.Pairwise fun a b => a.span.Precedes b.span

/-- A nested expression lies between two offsets, its markers included. -/
structure Fits (text : List Char) (lo hi : Nat) (e : Expr) : Prop where
  nests : e.Nests text
  between : e.span.Between lo hi
  markers : ∀ m ∈ e.markers, m.span.Between lo hi

/-- Expressions that lie one behind the other between two offsets, with all that is inside them. -/
structure AllFit (text : List Char) (lo hi : Nat) (es : List Expr) : Prop where
  fits : ∀ e ∈ es, e.Throughout (Fits text lo hi)
  ordered : es.Pairwise fun a b => a.span.Precedes b.span

variable {text : List Char} {lo lo' mid hi hi' : Nat} {e : Expr} {es : List Expr}

theorem Fits.mono (h : e.Fits text lo hi) (hlo : lo' ≤ lo) (hhi : hi ≤ hi') :
    e.Fits text lo' hi' :=
  ⟨h.nests, h.between.mono hlo hhi, fun m hm => (h.markers m hm).mono hlo hhi⟩

theorem Throughout.fits_mono (h : e.Throughout (Fits text lo hi)) (hlo : lo' ≤ lo)
    (hhi : hi ≤ hi') : e.Throughout (Fits text lo' hi') :=
  h.imp fun _ hx => hx.mono hlo hhi

theorem AllFit.nil (text : List Char) (lo hi : Nat) : AllFit text lo hi [] := ⟨nofun, .nil⟩

theorem AllFit.cons (h : e.Throughout (Fits text lo mid)) (hes : AllFit text mid hi es)
    (hlo : lo ≤ mid) (hhi : mid ≤ hi) : AllFit text lo hi (e :: es) := by
  constructor
  · intro x hx
    rcases List.mem_cons.mp hx with rfl | hx
    · exact h.fits_mono (Nat.le_refl lo) hhi
    · exact (hes.fits x hx).fits_mono hlo (Nat.le_refl hi)
  · apply List.Pairwise.cons
    · intro x hx
      exact h.self.between.2.trans (hes.fits x hx).self.between.1
    · exact hes.ordered

/-- An expression whose children lie within it. -/
theorem throughout_fits (hcuts : e.span.Cuts text) (hbetween : e.span.Between lo hi)
    (hmarkers : ∀ m ∈ e.markers, m.span.Between lo hi)
    (hchildren : AllFit text e.span.start.offset e.span.stop.offset e.children) :
    e.Throughout (Fits text lo hi) := by
  rw [throughout_iff]
  constructor
  · refine ⟨⟨hcuts.slice_ne_nil, fun child hchild => ?_, hchildren.ordered⟩, hbetween, hmarkers⟩
    exact (hchildren.fits child hchild).self.between
  · intro child hchild
    exact (hchildren.fits child hchild).fits_mono hbetween.1 hbetween.2

theorem Throughout.fits_withMarkers (h : e.Throughout (Fits text lo hi)) {ms : List Marker}
    (hms : ∀ m ∈ ms, m.span.Between lo hi) :
    (e.withInfo { e.info with markers := ms }).Throughout (Fits text lo hi) := by
  have hspan : (e.withInfo { e.info with markers := ms }).span = e.span := by
    rw [span, info_withInfo]
    rfl
  obtain ⟨⟨⟨hnonempty, hcovers, hordered⟩, hbetween, -⟩, hchildren⟩ := throughout_iff.mp h
  rw [throughout_iff]
  constructor
  · constructor
    · constructor
      · rwa [hspan]
      · rwa [hspan, children_withInfo]
      · rwa [children_withInfo]
    · rwa [hspan]
    · rw [markers, info_withInfo]
      exact hms
  · rwa [children_withInfo]

theorem Throughout.fits_withMarkersBefore (h : e.Throughout (Fits text lo hi)) {ms : List Marker}
    (hms : ∀ m ∈ ms, m.span.Between lo hi) :
    (e.withMarkersBefore ms).Throughout (Fits text lo hi) :=
  h.fits_withMarkers (List.forall_mem_append.mpr ⟨hms, h.self.markers⟩)

theorem Throughout.fits_withMarkersAfter (h : e.Throughout (Fits text lo hi)) {ms : List Marker}
    (hms : ∀ m ∈ ms, m.span.Between lo hi) :
    (e.withMarkersAfter ms).Throughout (Fits text lo hi) :=
  h.fits_withMarkers (List.forall_mem_append.mpr ⟨h.self.markers, hms⟩)

end Expr

namespace Written

variable {text : List Char} {lo mid hi : Nat}

theorem Mark.marker_between {m : Mark} (h : InOrder text lo hi m.tokens) :
    m.marker.span.Between lo hi :=
  (h.within_stretch (List.cons_ne_nil _ _)).2.1

theorem Mark.markers_between {marks : List Mark} (h : InOrder text lo hi (Mark.allTokens marks)) :
    ∀ m ∈ marks.map Mark.marker, m.span.Between lo hi := by
  intro marker hmarker
  obtain ⟨m, hm, rfl⟩ := List.mem_map.mp hmarker
  have hsub := (List.singleton_sublist.mpr hm).flatMap Mark.tokens
  rw [List.flatMap_singleton] at hsub
  exact Mark.marker_between (h.sublist hsub)

/-- Phrases whose expressions lie between the offsets between which their tokens stand. -/
class FittingPhrase (α : Type) [Phrase α] : Prop where
  fits : ∀ (x : α) {text : List Char} {lo hi : Nat}, InOrder text lo hi (Phrase.tokens x) →
    (Phrase.expr x).Throughout (Expr.Fits text lo hi)

/-- Every operator stands behind what it applies to; `start` is where that begins. -/
theorem Operator.fits_applyAll {start : Span} {e : Expr} {ops : List (Located Operator)}
    (hstart : start.Cuts text) (he : e.Throughout (Expr.Fits text start.start.offset mid))
    (hmid : start.stop.offset ≤ mid) (hops : InOrder text mid hi (Operator.allTokens ops)) :
    (Operator.applyAll start e ops).Throughout (Expr.Fits text start.start.offset hi) := by
  induction ops generalizing e mid with
  | nil => exact he.fits_mono (Nat.le_refl _) hops
  | cons op ops ih =>
    obtain ⟨hop, hcuts, hrest⟩ : mid ≤ op.span.start.offset ∧ op.span.Cuts text ∧
      InOrder text op.span.stop.offset hi (Operator.allTokens ops) := hops
    have hstop : start.stop.offset ≤ op.span.stop.offset :=
      hmid.trans (hop.trans hcuts.lt.le)
    obtain ⟨hmerge, hfirst, hlast⟩ :=
      hstart.merge hcuts (hstart.lt.le.trans (hmid.trans hop)) hstop
    refine ih (e := op.value.apply ⟨0, [], start.merge op.span⟩ e) ?_ hstop hrest
    have hfits : Expr.AllFit text (start.merge op.span).start.offset
        (start.merge op.span).stop.offset [e] := by
      rw [hfirst, hlast]
      exact .cons (he.fits_mono (Nat.le_refl _) (hop.trans hcuts.lt.le)) (.nil _ _ _)
        (hstart.lt.le.trans hstop) (Nat.le_refl _)
    have hbetween : (start.merge op.span).Between start.start.offset op.span.stop.offset :=
      ⟨hfirst.ge, hlast.le⟩
    cases op.value with
    | optional => exact Expr.throughout_fits hmerge hbetween nofun hfits
    | repeated kind => exact Expr.throughout_fits hmerge hbetween nofun hfits

section Phrases

variable {α : Type} [Phrase α] [FittingPhrase α]

theorem Primary.fits (c : Primary α) (h : InOrder text lo hi c.tokens) :
    c.expr.Throughout (Expr.Fits text lo hi) := by
  cases c with
  | reference name | terminal t =>
    obtain ⟨hlo, hcuts, hhi⟩ := h
    exact Expr.throughout_fits hcuts ⟨hlo, hhi⟩ nofun (.nil _ _ _)
  | group opening x closing =>
    obtain ⟨hcuts, hbetween, hwithin⟩ := h.within_stretch (List.cons_ne_nil _ _)
    rw [Primary.stretch_tokens] at hcuts hbetween hwithin
    refine Expr.throughout_fits hcuts hbetween nofun ?_
    obtain ⟨hopening, hlt, hinner⟩ := hwithin
    obtain ⟨mid, hbody, hclosing⟩ := inOrder_append.mp hinner
    refine .cons ((FittingPhrase.fits x hbody).fits_mono ?_ (Nat.le_refl mid)) (.nil _ _ _) ?_ ?_
    · exact hopening.trans hlt.lt.le
    · exact hopening.trans (hlt.lt.le.trans hbody.le)
    · exact hclosing.le

/-- An element behind some tokens, all from the first token on. -/
theorem Element.fits (front : List (Located Token)) (e : Element α)
    (h : InOrder text lo hi (front ++ e.tokens)) :
    (e.expr (startOf (front ++ e.tokens))).Throughout (Expr.Fits text lo hi) := by
  have hcore : e.core.tokens ≠ [] := by
    obtain ⟨token, more, heq, -⟩ := e.core.exists_tokens_eq
    rw [heq]
    exact List.cons_ne_nil token more
  have hne : front ++ e.core.tokens ≠ [] := List.append_ne_nil_of_right_ne_nil front hcore
  -- operators reach back to the first token, a marker perhaps that the element itself leaves out
  rw [Element.tokens, ← List.append_assoc, startOf_append hne]
  rw [Element.tokens, ← List.append_assoc] at h
  obtain ⟨mid, hhead, hbehind⟩ := inOrder_append.mp h
  obtain ⟨last, hops, hmarks⟩ := inOrder_append.mp hbehind
  obtain ⟨hcuts, ⟨hlo, hstop⟩, hfirst⟩ := hhead.from_first hne
  obtain ⟨begin, hfront, hprimary⟩ := inOrder_append.mp hfirst
  have hexpr := Operator.fits_applyAll hcuts
    ((e.core.fits hprimary).fits_mono hfront.le (Nat.le_refl mid)) hstop hops
  refine (hexpr.fits_mono hlo hmarks.le).fits_withMarkersAfter fun m hm => ?_
  exact (Mark.markers_between hmarks m hm).mono (hhead.le.trans hops.le) (Nat.le_refl hi)

theorem Element.allFit (es : List (Element α))
    (h : InOrder text lo hi (es.flatMap Element.tokens)) :
    Expr.AllFit text lo hi (es.map fun e => e.expr (startOf e.tokens)) := by
  induction es generalizing lo with
  | nil => exact .nil _ _ _
  | cons e es ih =>
    obtain ⟨mid, hfirst, hrest⟩ := h.split List.flatMap_cons
    exact .cons (Element.fits [] e hfirst) (ih hrest) hfirst.le hrest.le

/-- The first element of a sequence, with markers of the sequence in front of its own. -/
theorem Sequence.fits_first (s : Sequence α) {ms : List Marker}
    (h : InOrder text lo hi (Mark.allTokens s.opening ++ s.first.tokens))
    (hms : ms ⊆ s.opening.map Mark.marker) :
    ((s.first.expr (startOf s.tokens)).withMarkersBefore ms).Throughout
      (Expr.Fits text lo hi) := by
  rw [Parser.sequence_tokens, startOf_append (Parser.first_tokens_ne_nil _ _)]
  refine (s.first.fits _ h).fits_withMarkersBefore fun m hm => ?_
  exact Mark.markers_between (h.sublist (List.sublist_append_left _ _)) m (hms hm)

theorem Sequence.fits (s : Sequence α) (h : InOrder text lo hi s.tokens) :
    s.expr.Throughout (Expr.Fits text lo hi) := by
  unfold Sequence.expr
  dsimp only
  split
  next hothers =>
    rw [Parser.sequence_tokens, hothers, List.flatMap_nil, List.append_nil] at h
    exact s.fits_first h (List.Subset.refl _)
  next =>
    obtain ⟨hcuts, hbetween, hwithin⟩ := h.within_stretch (Parser.sequence_tokens_ne_nil s)
    refine Expr.throughout_fits hcuts hbetween (fun m hm => ?_) ?_
    · exact Mark.markers_between (h.sublist (List.sublist_append_left _ _)) m
        (List.mem_of_mem_filter hm)
    · obtain ⟨mid, hfirst, hrest⟩ := hwithin.split (Parser.sequence_tokens s)
      exact .cons (s.fits_first hfirst (List.filter_subset_self _)) (Element.allFit _ hrest)
        hfirst.le hrest.le

theorem Sequence.allFit_branches (branches : List (Span × Sequence α))
    (h : InOrder text lo hi (branchTokens branches)) :
    Expr.AllFit text lo hi ((branches.map Prod.snd).map Sequence.expr) := by
  induction branches generalizing lo with
  | nil => exact .nil _ _ _
  | cons branch branches ih =>
    obtain ⟨hlo, hcuts, h⟩ := h
    obtain ⟨mid, hfirst, hrest⟩ := inOrder_append.mp h
    have hbar := hlo.trans hcuts.lt.le
    exact .cons ((branch.2.fits hfirst).fits_mono hbar (Nat.le_refl mid)) (ih hrest)
      (hbar.trans hfirst.le) hrest.le

instance Alternation.instFittingPhrase : FittingPhrase (Alternation α) where
  fits a text lo hi h := by
    obtain ⟨first, others⟩ := a
    cases others with
    | nil =>
      exact first.fits (h.sublist (List.sublist_append_left _ _))
    | cons branch branches =>
      obtain ⟨hcuts, hbetween, hwithin⟩ := h.within_stretch (List.append_ne_nil_of_right_ne_nil _
        (List.cons_ne_nil _ _))
      refine Expr.throughout_fits hcuts hbetween nofun ?_
      obtain ⟨mid, hfirst, hrest⟩ := inOrder_append.mp hwithin
      have hbranches := Sequence.allFit_branches _ hrest
      exact .cons (first.fits hfirst) hbranches hfirst.le hrest.le

end Phrases

instance Body.instFittingPhrase : (depth : Nat) → FittingPhrase (Body depth)
  | 0 => ⟨fun x => x.elim⟩
  | depth + 1 =>
    have := Body.instFittingPhrase depth
    inferInstanceAs (FittingPhrase (Alternation (Body depth)))

end Written

/-! ## Rules -/

/-- A rule holds its name, its markers and its body, and everything in its body is nested. -/
structure Rule.Nests (text : List Char) (r : Rule) : Prop where
  name : r.span.Covers r.nameSpan
  markers : ∀ m ∈ r.markers, r.span.Covers m.span
  body : ∀ e ∈ r.body.preorder, r.span.Covers e.span ∧ ∀ m ∈ e.markers, r.span.Covers m.span
  inside : r.body.Throughout (Expr.Nests text)

namespace Written

variable {text : List Char} {lo hi : Nat}

theorem Rule.nests (r : Rule) (h : InOrder text lo hi r.tokens) :
    r.rule.Nests text ∧ r.rule.span.Between lo hi := by
  obtain ⟨-, hbetween, hwithin⟩ :=
    h.within_stretch (List.append_ne_nil_of_right_ne_nil _ (List.cons_ne_nil _ _))
  refine ⟨?_, hbetween⟩
  have hbody : InOrder text (stretch r.tokens).start.offset (stretch r.tokens).stop.offset
      (Phrase.tokens r.body) := by
    apply hwithin.sublist
    apply List.Sublist.trans _ (List.sublist_append_right _ _)
    apply List.Sublist.cons
    apply List.Sublist.trans _ (List.sublist_append_right _ _)
    exact (List.sublist_append_left _ _).cons _
  have hfits := FittingPhrase.fits r.body hbody
  have hmarks : InOrder text (stretch r.tokens).start.offset (stretch r.tokens).stop.offset
      (Mark.allTokens (r.before ++ r.behind)) := by
    apply hwithin.sublist
    rw [Mark.allTokens, List.flatMap_append]
    exact (List.Sublist.refl _).append ((List.sublist_append_left _ _).cons _)
  constructor
  · have hname : (⟨.identifier r.name.value, r.name.span⟩ : Located Token) ∈ r.tokens := by
      simp [Rule.tokens]
    exact (hwithin.of_mem hname).2
  · exact Mark.markers_between hmarks
  · exact fun e he => ⟨(hfits e he).between, (hfits e he).markers⟩
  · exact hfits.imp fun _ he => he.nests

theorem Text.nests (items : Text) (h : InOrder text lo hi items.tokens) :
    (∀ r ∈ items.filterMap Item.rule?, r.Nests text ∧ r.span.Between lo hi) ∧
      (items.filterMap Item.rule?).Pairwise fun a b => a.span.Precedes b.span := by
  induction items generalizing lo with
  | nil => exact ⟨nofun, .nil⟩
  | cons i items ih =>
    obtain ⟨mid, hitem, hrest⟩ := h.split List.flatMap_cons
    obtain ⟨hrules, hordered⟩ := ih hrest
    have hlater : ∀ r ∈ items.filterMap Item.rule?, r.Nests text ∧ r.span.Between lo hi :=
      fun r hr => ⟨(hrules r hr).1, (hrules r hr).2.mono hitem.le (Nat.le_refl hi)⟩
    cases i with
    | directive d => exact ⟨hlater, hordered⟩
    | rule r =>
      obtain ⟨hnests, hbetween⟩ := r.nests hitem
      have hcons : (Item.rule r :: items).filterMap Item.rule? =
          r.rule :: items.filterMap Item.rule? := rfl
      rw [hcons]
      constructor
      · intro x hx
        rcases List.mem_cons.mp hx with rfl | hx
        · exact ⟨hnests, hbetween.mono (Nat.le_refl lo) hrest.le⟩
        · exact hlater x hx
      · exact .cons (fun x hx => hbetween.2.trans (hrules x hx).2.1) hordered

end Written

/-! ## Numbered rules -/

namespace Expr

variable {text : List Char} {e : Expr}

theorem span_numbered (next : NodeId) (e : Expr) : (numbered next e).1.span = e.span := by
  cases e <;> rfl

theorem markers_numbered (next : NodeId) (e : Expr) : (numbered next e).1.markers = e.markers := by
  cases e <;> rfl

theorem map_span_numberedAll (next : NodeId) (es : List Expr) :
    (numberedAll next es).1.map span = es.map span := by
  induction es generalizing next with
  | nil => rfl
  | cons e es ih =>
    rw [numberedAll]
    dsimp only
    rw [List.map_cons, span_numbered, ih, List.map_cons]

theorem map_span_children_numbered (next : NodeId) (e : Expr) :
    (numbered next e).1.children.map span = e.children.map span := by
  cases e with
  | terminal | reference => rfl
  | sequence info items | alternation info items => exact map_span_numberedAll _ items
  | optional info body | repeated info body | group info body =>
    exact congrArg (fun s => [s]) (span_numbered _ body)

theorem Nests.numbered (h : e.Nests text) (next : NodeId) : (numbered next e).1.Nests text := by
  have hchildren := map_span_children_numbered next e
  constructor
  · rw [span_numbered]
    exact h.nonempty
  · have hcovers : ∀ s ∈ e.children.map span, e.span.Covers s := List.forall_mem_map.mpr h.covers
    rw [← hchildren] at hcovers
    rw [span_numbered]
    exact List.forall_mem_map.mp hcovers
  · have hordered : (e.children.map span).Pairwise Span.Precedes :=
      List.pairwise_map.mpr h.ordered
    rw [← hchildren] at hordered
    exact List.pairwise_map.mp hordered

end Expr

namespace Rule

variable {text : List Char}

theorem Nests.numbered {r : Rule} (h : r.Nests text) (next : NodeId) :
    Rule.Nests text { r with body := (r.body.numbered next).1 } := by
  constructor
  · exact h.name
  · exact h.markers
  · intro e he
    obtain ⟨x, hx, id, rfl⟩ := Expr.mem_preorder_numbered.1 next r.body e he
    rw [Expr.span_numbered, Expr.markers_numbered]
    exact h.body x hx
  · intro e he
    obtain ⟨x, hx, id, rfl⟩ := Expr.mem_preorder_numbered.1 next r.body e he
    exact (h.inside x hx).numbered id

theorem nests_numberedAll {finished rules : List Rule} (next : NodeId)
    (hfinished : ∀ r ∈ finished, r.Nests text) (hrules : ∀ r ∈ rules, r.Nests text) :
    ∀ r ∈ (numberedAll finished next rules).1, r.Nests text := by
  induction rules generalizing finished next with
  | nil => exact fun r hr => hfinished r (List.mem_reverse.mp hr)
  | cons rule rest ih =>
    rw [List.forall_mem_cons] at hrules
    exact ih _ (List.forall_mem_cons.mpr ⟨hrules.1.numbered next, hfinished⟩) hrules.2

end Rule

/-! ## Texts -/

theorem inOrder_laidFrom (before : List Char) {pieces : List Piece}
    (h : ∀ piece ∈ pieces, piece.text ≠ []) :
    InOrder (before ++ pieces.flatMap Piece.text) (byteLength before)
      (byteLength (before ++ pieces.flatMap Piece.text))
      ((laidFrom (Position.start.advanceOver before) pieces).filterMap PlacedPiece.token?) := by
  induction pieces generalizing before with
  | nil =>
    rw [List.flatMap_nil, List.append_nil]
    exact Nat.le_refl _
  | cons piece rest ih =>
    obtain ⟨hpiece, hrest⟩ := List.forall_mem_cons.mp h
    have hlater := ih (before ++ piece.text) hrest
    rw [List.append_assoc, ← List.flatMap_cons] at hlater
    have hoffset (text : List Char) :
        (Position.start.advanceOver text).offset = byteLength text := by
      rw [offset_advanceOver, Position.start, Nat.zero_add]
    have hlt : byteLength before < byteLength (before ++ piece.text) := by
      obtain ⟨c, more, hc⟩ := List.exists_cons_of_ne_nil hpiece
      have hpos := c.utf8Size_pos
      rw [byteLength_append, hc, byteLength_cons]
      omega
    rw [laidFrom, ← Position.advanceOver_append]
    cases htoken : PlacedPiece.token? ⟨piece, ⟨Position.start.advanceOver before,
        Position.start.advanceOver (before ++ piece.text)⟩⟩ with
    | none =>
      rw [List.filterMap_cons_none htoken]
      exact hlater.mono hlt.le
    | some token =>
      rw [List.filterMap_cons_some htoken]
      obtain ⟨value, -, rfl⟩ := Option.map_eq_some_iff.mp htoken
      refine ⟨(hoffset before).ge, ⟨?_, ?_, ?_⟩, ?_⟩
      · exact ⟨before, List.prefix_append _ _, rfl⟩
      · refine ⟨before ++ piece.text, ?_, rfl⟩
        rw [List.flatMap_cons, ← List.append_assoc]
        exact List.prefix_append _ _
      · rwa [hoffset, hoffset]
      · rwa [hoffset]

/-- Places nest: in what is parsed of a text, every rule holds its name, its markers and its body,
every expression covers some text and holds its children, and what stands side by side does not
overlap. -/
theorem TokenStream.spans_nest (source : List Char) (preferences : ParsePreferences)
    (tokens : List (Located Token)) (g : Grammar)
    (hscan : (Scan.ofText source).result = .ok tokens)
    (hparse : (ofTokens tokens).grammar preferences = .ok g) :
    (∀ r ∈ g.rules.toList, r.Nests source) ∧
      g.rules.toList.Pairwise fun a b => a.span.Precedes b.span := by
  obtain ⟨read, stop, rfl, hread⟩ := Scan.exists_read_tokens hscan
  obtain ⟨-, htokens⟩ := Scan.result_eq_ok hscan
  obtain ⟨text, hspelled, rfl⟩ :=
    grammar_sound rfl (fun token htoken => (hread token htoken).ne_endOfInput) hparse
  have hpieces : ∀ piece ∈ Piece.cut source, piece.text ≠ [] := by
    intro piece hpiece
    obtain ⟨c, rest, rfl⟩ := Piece.exists_next_of_mem_cut hpiece
    exact Piece.next_text_ne_nil c rest
  have horder := inOrder_laidFrom [] hpieces
  rw [List.nil_append, Piece.flatMap_text_cut] at horder
  have hwords : InOrder source 0 (byteLength source) text.tokens := by
    rw [hspelled.tokens_eq, (List.append_inj' htokens rfl).1]
    exact horder.sublist List.filter_sublist
  obtain ⟨hrules, hordered⟩ := text.nests hwords
  have hparsed : text.grammar.rules.toList =
      (Rule.numberedAll [] 0 (text.filterMap Written.Item.rule?)).1 := rfl
  rw [hparsed]
  constructor
  · exact Rule.nests_numberedAll 0 nofun fun r hr => (hrules r hr).1
  · have hspans : ((text.filterMap Written.Item.rule?).map (·.span)).Pairwise Span.Precedes :=
      List.pairwise_map.mpr hordered
    have hsame := Rule.map_numberedAll (·.span) (fun _ _ => rfl) []
      (text.filterMap Written.Item.rule?) 0
    rw [List.reverse_nil, List.map_nil, List.nil_append] at hsame
    rw [← hsame] at hspans
    exact List.pairwise_map.mp hspans

/-- A rule with a marker in front of a repeated group, and one with a marker on a sequence. -/
theorem TokenStream.spans_nest_marked :
    ∃ tokens g,
      (Scan.ofText "A = @f(x) ('é' | B)? ;\nB=@class(C) A A;".toList).result = .ok tokens ∧
      (ofTokens tokens).grammar ⟨true, false⟩ = .ok g ∧ g.rules.size = 2 ∧
      (∀ r ∈ g.rules.toList, r.Nests "A = @f(x) ('é' | B)? ;\nB=@class(C) A A;".toList) ∧
      g.rules.toList.Pairwise fun a b => a.span.Precedes b.span := by
  have hsize : ((Scan.ofText "A = @f(x) ('é' | B)? ;\nB=@class(C) A A;".toList).result.toOption.bind
      fun tokens => ((ofTokens tokens).grammar ⟨true, false⟩).toOption.map (·.rules.size)) =
        some 2 := by
    cbv
  cases hscan : (Scan.ofText "A = @f(x) ('é' | B)? ;\nB=@class(C) A A;".toList).result with
  | error errors =>
    rw [hscan] at hsize
    cases hsize
  | ok tokens =>
    rw [hscan] at hsize
    cases hparse : (ofTokens tokens).grammar ⟨true, false⟩ with
    | error errors =>
      simp only [Except.toOption, Option.bind_some, hparse, Option.map_none] at hsize
      cases hsize
    | ok g =>
      simp only [Except.toOption, Option.bind_some, hparse, Option.map_some] at hsize
      exact ⟨tokens, g, rfl, hparse, Option.some.inj hsize,
        spans_nest _ _ tokens g hscan hparse⟩

end AnnotatedGrammar
