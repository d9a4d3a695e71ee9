import AnnotatedGrammar.Proofs.Analysis.Bodies
import AnnotatedGrammar.Proofs.Recursion.Walks

/-!
# The search for rules that need their own value

Finding the values of rules is a depth-first search: a rule is under way until the values that its
body asks for are known. A rule that is asked for while it is under way needs its own value, since
every rule under way needs what is asked for next. Conversely, what a rule with a known value needs
was known before, or was reported.
-/

namespace AnnotatedGrammar

open Build AnnotatedGrammar.Expr

/-- A rule without a class needs the value of another one, which its body asks for. -/
def Scope.Needs (sc : Scope) (roles : Array RuleRole) (r r' : RuleId) : Prop :=
  (∃ body, sc.lazyBody? roles r = some body ∧ r' ∈ body.reads sc false) ∧
    (sc.lazyBody? roles r').isSome

/-- A rule needs its own value. -/
def Scope.IsRecursive (sc : Scope) (roles : Array RuleRole) (r : RuleId) : Prop :=
  Relation.TransGen (sc.Needs roles) r r

/-- Without the values of the given rules, the value of a rule can be found: nothing that it needs
leads to a cycle. -/
def Scope.Founded (sc : Scope) (roles : Array RuleRole) (given : RuleId → Prop)
    (r : RuleId) : Prop :=
  Acc (fun r₂ r₁ => sc.Needs roles r₁ r₂ ∧ ¬given r₂) r

namespace Draft

/-- The value of the rule was asked for, and is not known yet. -/
def UnderWay (d : Draft) (r : RuleId) : Prop :=
  ∃ reported, d.progress[r]? = some (.inProgress reported)

/-- The value of the rule is known. -/
def IsDone (d : Draft) (r : RuleId) : Prop := ∃ v, d.progress[r]? = some (.done v)

/-- The rule was reported to need its own value. -/
def Reports (sc : Scope) (d : Draft) (r : RuleId) : Prop :=
  ∃ rule, sc.rules[r]? = some rule ∧ rule.recursion ∈ d.recursions

/-- The rules that are marked as reported were reported. -/
def Told (sc : Scope) (d : Draft) : Prop :=
  ∀ r, d.progress[r]? = some (.inProgress true) → d.Reports sc r

/-- What has to hold of a draft before the value of a rule is asked for; `bound` limits how many
rules may wait. -/
structure Searchable (sc : Scope) (roles : Array RuleRole) (bound : Nat) (d : Draft) : Prop where
  wellFormed : d.WellFormed
  untouched : d.Untouched (sc.lazyIds roles)
  progress_size : d.progress.size = sc.rules.size
  waiting_lt : (d.waiting sc roles).card < bound

end Draft

/-- What a run finds out about rules whose values it asks for. -/
structure Searched (sc : Scope) (roles : Array RuleRole) (rs : List RuleId) (d d' : Draft) :
    Prop where
  kept : d.recursions ⊆ d'.recursions
  done : ∀ r, d.IsDone r → d'.IsDone r
  underWay : ∀ r, d'.UnderWay r ↔ d.UnderWay r
  told : d.Told sc → d'.Told sc
  /-- Only rules that need their own value are reported, if every rule under way needs what is asked
  for. -/
  recursive : (∀ p, d.UnderWay p → ∀ r ∈ rs, (sc.lazyBody? roles r).isSome →
    Relation.TransGen (sc.Needs roles) p r) → ∀ e ∈ d'.recursions, e ∈ d.recursions ∨
      ∃ r rule, sc.rules[r]? = some rule ∧ e = rule.recursion ∧ sc.IsRecursive roles r
  /-- What is asked for becomes known or was reported, and no cycle among what is known is
  missed. -/
  founded : d.Told sc → ∀ given, (∀ r, d'.Reports sc r → given r) →
    (∀ r, d.IsDone r → sc.Founded roles given r) →
      (∀ r, d'.IsDone r → sc.Founded roles given r) ∧
        ∀ r ∈ rs, (sc.lazyBody? roles r).isSome → d'.IsDone r ∨ given r

variable {sc : Scope} {roles : Array RuleRole} {bound : Nat} {S : Cell → Prop}
  {d d₁ d₂ d' : Draft} {r : RuleId} {rs rs₁ rs₂ : List RuleId} {body : Expr} {v : Option Value}

namespace Draft

theorem Reports.mono (h : d.Reports sc r) (hkept : d.recursions ⊆ d'.recursions) :
    d'.Reports sc r := by
  obtain ⟨rule, hrule, hmem⟩ := h
  exact ⟨rule, hrule, hkept hmem⟩

theorem reported_recursions (d : Draft) (r : RuleId) (rule : Rule) :
    (d.reported r rule).recursions = d.recursions ++ [rule.recursion] := by
  simp [reported, recursions, SemanticError.recursions, Rule.recursion, SemanticFault.isRecursion]

theorem reported_get? {p : RuleProgress} (hmarked : d.progress[r]? = some p) (rule : Rule)
    (r' : RuleId) : (d.reported r rule).progress[r']? =
      if r = r' then some (.inProgress true) else d.progress[r']? := by
  rw [reported, Array.getElem?_setIfInBounds, if_pos (Array.getElem?_eq_some_iff.mp hmarked).1]

theorem Searchable.after (h : d.Searchable sc roles bound)
    (hframe : Frame (sc.lazyIds roles) S d d')
    (hfree : ∀ cell, S cell → cell.Old d → ¬cell.Reserved (sc.lazyIds roles) d) :
    d'.Searchable sc roles bound where
  wellFormed := hframe.wellFormed h.wellFormed
  untouched := h.untouched.after hframe hfree
  progress_size := hframe.progress_size.trans h.progress_size
  waiting_lt := Nat.lt_of_le_of_lt (Finset.card_le_card hframe.waiting_subset) h.waiting_lt

end Draft

namespace Searched

/-- A run that asks for nothing. -/
theorem of_same (hprogress : d'.progress = d.progress)
    (hrecursions : d'.recursions = d.recursions) :
    Searched sc roles [] d d' where
  kept e he := hrecursions ▸ he
  done r := by
    unfold Draft.IsDone
    rw [hprogress]
    exact fun h => h
  underWay r := by
    unfold Draft.UnderWay
    rw [hprogress]
  told h := by
    unfold Draft.Told Draft.Reports
    rw [hprogress, hrecursions]
    exact h
  recursive _ e he := .inl (hrecursions ▸ he)
  founded _ given _ hdone := by
    unfold Draft.IsDone
    rw [hprogress]
    exact ⟨hdone, by simp⟩

theorem append (h₁ : Searched sc roles rs₁ d d₁) (h₂ : Searched sc roles rs₂ d₁ d') :
    Searched sc roles (rs₁ ++ rs₂) d d' where
  kept := List.Subset.trans h₁.kept h₂.kept
  done r h := h₂.done r (h₁.done r h)
  underWay r := (h₂.underWay r).trans (h₁.underWay r)
  told h := h₂.told (h₁.told h)
  recursive hneeds e he := by
    have hfirst := h₁.recursive fun p hp r hr => hneeds p hp r (List.mem_append_left _ hr)
    have hsecond := h₂.recursive fun p hp r hr =>
      hneeds p ((h₁.underWay p).mp hp) r (List.mem_append_right _ hr)
    rcases hsecond e he with he | hnew
    · exact hfirst e he
    · exact .inr hnew
  founded htold given hgiven hdone := by
    obtain ⟨hdone₁, hasked₁⟩ :=
      h₁.founded htold given (fun r hr => hgiven r (hr.mono h₂.kept)) hdone
    obtain ⟨hdone₂, hasked₂⟩ := h₂.founded (h₁.told htold) given hgiven hdone₁
    refine ⟨hdone₂, fun r hr hlazy => ?_⟩
    rcases List.mem_append.mp hr with hr | hr
    · exact (hasked₁ r hr hlazy).imp_left (h₂.done r)
    · exact hasked₂ r hr hlazy

/-- The value of the rule is known, or the rule was reported before. -/
theorem of_known (h : (sc.lazyBody? roles r).isSome →
    d.IsDone r ∨ d.progress[r]? = some (.inProgress true)) : Searched sc roles [r] d d where
  kept := List.Subset.refl _
  done _ h := h
  underWay _ := Iff.rfl
  told h := h
  recursive _ _ he := .inl he
  founded htold given hgiven hdone := by
    refine ⟨hdone, fun r' hr' hlazy => ?_⟩
    obtain rfl := List.mem_singleton.mp hr'
    exact (h hlazy).imp_right fun hmarked => hgiven r' (htold r' hmarked)

/-- The rule is under way, and is reported now. -/
theorem of_report {rule : Rule} (hmarked : d.progress[r]? = some (.inProgress false))
    (hbody : sc.lazyBody? roles r = some rule.body) (hrule : sc.rules[r]? = some rule) :
    Searched sc roles [r] d (d.reported r rule) := by
  have hget := Draft.reported_get? hmarked rule
  have hreports : (d.reported r rule).Reports sc r :=
    ⟨rule, hrule, d.reported_recursions r rule ▸ List.mem_append_right _ List.mem_cons_self⟩
  have hkept : d.recursions ⊆ (d.reported r rule).recursions :=
    d.reported_recursions r rule ▸ List.subset_append_left _ _
  have hdone (r' : RuleId) : (d.reported r rule).IsDone r' ↔ d.IsDone r' := by
    unfold Draft.IsDone
    simp only [hget]
    split
    · rename_i heq
      simp [← heq, hmarked]
    · rfl
  refine ⟨hkept, fun r' => (hdone r').mpr, fun r' => ?_, fun htold r' hr' => ?_,
    fun hneeds e he => ?_, fun _ given hgiven hfounded => ?_⟩
  · unfold Draft.UnderWay
    simp only [hget]
    split
    · rename_i heq
      simp [← heq, hmarked]
    · rfl
  · rw [hget] at hr'
    split at hr'
    · rename_i heq
      exact heq ▸ hreports
    · exact (htold r' hr').mono hkept
  · rw [d.reported_recursions] at he
    rcases List.mem_append.mp he with he | he
    · exact .inl he
    · refine .inr ⟨r, rule, hrule, List.mem_singleton.mp he, ?_⟩
      exact hneeds r ⟨false, hmarked⟩ r List.mem_cons_self (hbody ▸ rfl)
  · refine ⟨fun r' hr' => hfounded r' ((hdone r').mp hr'), fun r' hr' _ => .inr ?_⟩
    obtain rfl := List.mem_singleton.mp hr'
    exact hgiven r' hreports

end Searched

namespace Visits

theorem start_recursions (h : Visits sc roles r body v d d₁ d₂ d') :
    d₁.recursions = d.recursions := by
  rw [h.start_eq]
  rfl

theorem end_recursions (h : Visits sc roles r body v d d₁ d₂ d') :
    d'.recursions = d₂.recursions := by
  rw [h.end_eq]
  rfl

theorem start_isDone_iff (h : Visits sc roles r body v d d₁ d₂ d') (r' : RuleId) :
    d₁.IsDone r' ↔ d.IsDone r' := by
  unfold Draft.IsDone
  simp only [h.start_get?]
  split
  · rename_i heq
    simp [← heq, h.pending]
  · rfl

theorem end_isDone_iff (h : Visits sc roles r body v d d₁ d₂ d')
    (hframe : Frame (sc.lazyIds roles) S d₁ d₂) (r' : RuleId) :
    d'.IsDone r' ↔ r' = r ∨ d₂.IsDone r' := by
  unfold Draft.IsDone
  simp only [h.end_get? hframe]
  split
  · rename_i heq
    simp [heq]
  · rename_i hne
    simp [Ne.symm hne]

/-- The rule itself is under way while its body is walked through. -/
theorem start_underWay_iff (h : Visits sc roles r body v d d₁ d₂ d') (p : RuleId) :
    d₁.UnderWay p ↔ p = r ∨ d.UnderWay p := by
  unfold Draft.UnderWay
  simp only [h.start_get?]
  split
  · rename_i heq
    simp [heq]
  · rename_i hne
    simp [Ne.symm hne]

theorem end_underWay_iff (h : Visits sc roles r body v d d₁ d₂ d')
    (hframe : Frame (sc.lazyIds roles) S d₁ d₂) (p : RuleId) :
    d'.UnderWay p ↔ p ≠ r ∧ d₂.UnderWay p := by
  unfold Draft.UnderWay
  simp only [h.end_get? hframe]
  split
  · rename_i heq
    simp [heq]
  · rename_i hne
    simp [Ne.symm hne]

theorem not_underWay (h : Visits sc roles r body v d d₁ d₂ d') : ¬d.UnderWay r := by
  rintro ⟨reported, hr⟩
  rw [h.pending] at hr
  cases hr

theorem start_told (h : Visits sc roles r body v d d₁ d₂ d') (htold : d.Told sc) : d₁.Told sc := by
  intro r' hr'
  rw [h.start_get?] at hr'
  split at hr'
  · cases hr'
  · exact (htold r' hr').mono (h.start_recursions ▸ List.Subset.refl _)

theorem end_told (h : Visits sc roles r body v d d₁ d₂ d')
    (hframe : Frame (sc.lazyIds roles) S d₁ d₂) (htold : d₂.Told sc) : d'.Told sc := by
  intro r' hr'
  rw [h.end_get? hframe] at hr'
  split at hr'
  · cases hr'
  · exact (htold r' hr').mono (h.end_recursions ▸ List.Subset.refl _)

theorem needs (h : Visits sc roles r body v d d₁ d₂ d') {r' : RuleId}
    (hr' : r' ∈ body.reads sc false) (hlazy : (sc.lazyBody? roles r').isSome) :
    sc.Needs roles r r' :=
  ⟨⟨body, h.body_eq, hr'⟩, hlazy⟩

/-- If all that a rule needs is known or given, its own value is founded. -/
theorem founded (h : Visits sc roles r body v d d₁ d₂ d') {given : RuleId → Prop}
    (hfounded : ∀ r', d₂.IsDone r' → sc.Founded roles given r')
    (hasked : ∀ r' ∈ body.reads sc false, (sc.lazyBody? roles r').isSome →
      d₂.IsDone r' ∨ given r') : sc.Founded roles given r := by
  refine .intro r fun r' hr' => ?_
  obtain ⟨⟨⟨body', hbody', hmem⟩, hlazy⟩, hnot⟩ := hr'
  obtain rfl : body = body' := Option.some.inj (h.body_eq.symm.trans hbody')
  exact hfounded r' ((hasked r' hmem hlazy).resolve_right hnot)

/-- The walk through the body of a rule asks for what the rule needs. -/
theorem searched (h : Visits sc roles r body v d d₁ d₂ d')
    (hframe : Frame (sc.lazyIds roles) S d₁ d₂)
    (hinner : Searched sc roles (body.reads sc false) d₁ d₂) : Searched sc roles [r] d d' where
  kept := by
    rw [h.end_recursions, ← h.start_recursions]
    exact hinner.kept
  done r' hr' :=
    (h.end_isDone_iff hframe r').mpr (.inr (hinner.done r' ((h.start_isDone_iff r').mpr hr')))
  underWay p := by
    rw [h.end_underWay_iff hframe, hinner.underWay, h.start_underWay_iff]
    constructor
    · rintro ⟨hne, hp⟩
      exact hp.resolve_left hne
    · intro hp
      refine ⟨?_, .inr hp⟩
      rintro rfl
      exact h.not_underWay hp
  told htold := h.end_told hframe (hinner.told (h.start_told htold))
  recursive hreaches e he := by
    rw [h.end_recursions] at he
    rw [← h.start_recursions]
    refine hinner.recursive (fun p hp r' hr' hlazy => ?_) e he
    rcases (h.start_underWay_iff p).mp hp with rfl | hp
    · exact .single (h.needs hr' hlazy)
    · exact (hreaches p hp r List.mem_cons_self (h.body_eq ▸ rfl)).tail (h.needs hr' hlazy)
  founded htold given hgiven hfounded := by
    obtain ⟨hfounded₂, hasked⟩ := hinner.founded (h.start_told htold) given
      (fun r' hr' => hgiven r' (hr'.mono (h.end_recursions ▸ List.Subset.refl _)))
      (fun r' hr' => hfounded r' ((h.start_isDone_iff r').mp hr'))
    refine ⟨fun r' hr' => ?_, fun r' hr' _ => .inl ?_⟩
    · rcases (h.end_isDone_iff hframe r').mp hr' with rfl | hr'
      · exact h.founded hfounded₂ hasked
      · exact hfounded₂ r' hr'
    · exact (h.end_isDone_iff hframe r').mpr (.inl (List.mem_singleton.mp hr'))

end Visits

/-! ## Values of rules -/

/-- A run that asks for the values of rules, if the search is right for each. -/
theorem Asks.searched {depth : Nat} (hseparate : sc.Separate)
    (hvisit : ∀ r d v d', ruleValue sc roles depth r d = (v, d') → d.Searchable sc roles bound →
      Searched sc roles [r] d d')
    (h : Asks (sc.lazyIds roles) (ruleValue sc roles depth) rs d d')
    (hd : d.Searchable sc roles bound) : Searched sc roles rs d d' := by
  have hsteady {d d' : Draft} (h : Steady (sc.lazyIds roles) d d')
      (hd : d.Searchable sc roles bound) :
      Searched sc roles [] d d' ∧ d'.Searchable sc roles bound :=
    ⟨.of_same h.progress_eq h.recursions_eq, hd.after h.frame fun _ h _ => h⟩
  induction h with
  | none h => exact (hsteady h hd).1
  | ask h hasked _ ih =>
    obtain ⟨hbefore, hd₁⟩ := hsteady h hd
    have hd₂ := hd₁.after (ruleValue_frame hseparate depth _ _ _ _ hasked hd₁.wellFormed)
      fun _ h => h.elim
    exact hbefore.append ((hvisit _ _ _ _ hasked hd₁).append (ih hd₂))

/-- Finding the value of a rule is a search, as long as one more rule may be under way than are
waiting. -/
theorem Build.ruleValue_searched (hseparate : sc.Separate) (depth : Nat) :
    ∀ r d v d', ruleValue sc roles depth r d = (v, d') → d.Searchable sc roles depth →
      Searched sc roles [r] d d' := by
  induction depth with
  | zero =>
    intro r d v d' _ hd
    exact absurd hd.waiting_lt (Nat.not_lt_zero _)
  | succ depth ih =>
    intro r d v d' h hd
    rcases ruleValue_cases hseparate h with ⟨c, hclass, -, rfl⟩ | ⟨hrule, -, rfl⟩ |
      ⟨-, hdone, rfl⟩ | ⟨-, hmarked, rfl⟩ | ⟨-, hmarked, rule, hbody, hrule, rfl⟩ |
      ⟨rule, d₁, d₂, hvisits, hvalue⟩
    · refine .of_known fun hlazy => ?_
      rw [(Scope.isSome_lazyBody?.mp hlazy).1] at hclass
      cases hclass
    · refine .of_known fun hlazy => ?_
      obtain ⟨-, rule, hrule'⟩ := Scope.isSome_lazyBody?.mp hlazy
      rw [hrule] at hrule'
      cases hrule'
    · refine .of_known fun hlazy => .inl ⟨v, ?_⟩
      obtain ⟨-, rule, hrule⟩ := Scope.isSome_lazyBody?.mp hlazy
      have hlt : r < d'.progress.size :=
        hd.progress_size ▸ (Array.getElem?_eq_some_iff.mp hrule).1
      rw [Array.getD_eq_getD_getElem?, Array.getElem?_eq_getElem hlt, Option.getD_some] at hdone
      rw [Array.getElem?_eq_getElem hlt, hdone]
    · exact .of_known fun _ => .inr hmarked
    · -- the rule is under way, so it needs what is asked for next, which is itself
      exact .of_report hmarked hbody hrule
    · have hwalks : WalkAsks (sc.lazyIds roles) (ruleValue sc roles depth)
        (scopeOf sc roles rule) :=
        walkAsks (ruleValue_frame hseparate depth)
      obtain ⟨-, rule', hrule, hbody⟩ := Scope.lazyBody?_eq_some.mp hvisits.body_eq
      have hproper : rule.body.Proper := hbody ▸ hseparate.proper r rule' hrule
      have hwf₁ : d₁.WellFormed := by
        rw [hvisits.start_eq]
        exact ⟨hd.wellFormed.field_id, hd.wellFormed.owner_lt, hd.wellFormed.owner_eq⟩
      obtain ⟨hasks, hframe⟩ := hwalks.elementValue rule.body false d₁ v d₂ hvalue hproper hwf₁
        (hvisits.cells_open hd.untouched)
      -- one rule fewer waits, which pays for the step
      have hd₁ : d₁.Searchable sc roles depth :=
        ⟨hwf₁, hvisits.untouched hd.untouched, hvisits.start_size.trans hd.progress_size,
          Nat.lt_of_lt_of_le hvisits.waiting_lt (Nat.le_of_lt_succ hd.waiting_lt)⟩
      exact hvisits.searched hframe (hasks.searched hseparate ih hd₁)

end AnnotatedGrammar
