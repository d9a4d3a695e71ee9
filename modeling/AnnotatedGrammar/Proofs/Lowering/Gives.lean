import AnnotatedGrammar.Proofs.Lowering.Succeeds

/-!
# What the lowering gives

What is said of the functions of the lowering: they succeed, every production they make fits, every
new nonterminal has one, and the terms they make carry what is described. The functions that need
no values are the first of which it is proved.
-/

namespace AnnotatedGrammar.Lowering

open ProductionDraft Settled

section

variable (strict : Prop) (m : GrammarModel)

/-- The work makes a term that carries what is described. -/
def GivesTerm (x : Lowering Term) (carries : Content → Prop) : Prop :=
  ∀ ⦃d⦄, m.Ready d → Succeeds x d fun t d' =>
    d.Completes strict m m.rules.size d' ∧ t.Below d'.nonterminals.size ∧
      carries (t.contentIn d'.nonterminals)

/-- The work makes terms. -/
def GivesTerms (x : Lowering (List Term)) : Prop :=
  ∀ ⦃d⦄, m.Ready d → Succeeds x d fun terms d' =>
    d.Completes strict m m.rules.size d' ∧ ∀ t ∈ terms, t.Below d'.nonterminals.size

/-- The work gives a nonterminal, of which the content is as described, productions; there is one
if `some`. -/
def GivesProductions (x : Lowering Unit) (lhs : NonterminalId) (target : Content → Prop)
    (some : Prop) : Prop :=
  ∀ ⦃d⦄, m.Ready d → lhs < d.nonterminals.size →
    target (d.nonterminals.getD lhs default).content → Succeeds x d fun _ d' =>
      d.Completes strict m m.rules.size d' ∧ (some → ∃ p ∈ d'.productions, p.lhs = lhs)

/-- The work gives the nonterminal `n` productions, and its result is the term of `n`. -/
def FillsNew (x : Lowering Term) (n : NonterminalId) (content : Content) : Prop :=
  ∀ ⦃d⦄, m.Ready d → n < d.nonterminals.size →
    (d.nonterminals.getD n default).content = content → Succeeds x d fun t d' =>
      t = .nonterminal n ∧ d.Completes strict m m.rules.size d' ∧ ∃ p ∈ d'.productions, p.lhs = n

/-- The work adds parts to an instance of a class. -/
def GivesParts (x : Lowering Assembly) (c : ClassId) (a : Assembly) : Prop :=
  ∀ ⦃d⦄, m.Ready d → a.Fits strict m d.nonterminals c → Succeeds x d fun a' d' =>
    d.Completes strict m m.rules.size d' ∧ a'.Fits strict m d'.nonterminals c

/-- The position of a value among terms. -/
def Locates (nonterminals : Array Nonterminal) (terms : Array Term) (position : Option Nat)
    (v : Option Value) : Prop :=
  Option.Rel (fun i u => ∃ content, Term.CarriesAt nonterminals terms.toList i content ∧
    content.Carries strict u) position v

/-- The terms exist, and one of them carries the value. -/
structure Row (nonterminals : Array Nonterminal) (row : Array Term × Option Nat)
    (v : Option Value) : Prop where
  below : ∀ t ∈ row.1.toList, t.Below nonterminals.size
  locates : Locates strict nonterminals row.1 row.2 v

/-- The work adds terms to others, and tells where the value lies. -/
def GivesRow (x : Lowering (Array Term × Option Nat)) (before : Array Term × Option Nat)
    (known v : Option Value) : Prop :=
  ∀ ⦃d⦄, m.Ready d → Row strict d.nonterminals before known → Succeeds x d fun row d' =>
    d.Completes strict m m.rules.size d' ∧ before.1.toList <+: row.1.toList ∧
      Row strict d'.nonterminals row v

end

variable {strict : Prop} {m : GrammarModel} {sc : LoweringScope}

/-- A production that fits can be added. -/
theorem produce_gives {d : ProductionDraft} {lhs : NonterminalId} {body : List Term}
    {action : Action} {node : Option NodeId} (hlhs : lhs < d.nonterminals.size)
    (hbody : ∀ t ∈ body, t.Below d.nonterminals.size)
    (hfits : (⟨lhs, body, action, node⟩ : Production).Fits strict m d.nonterminals) :
    Succeeds (produce lhs body action node) d fun _ d' =>
      d.Completes strict m m.rules.size d' ∧ ∃ p ∈ d'.productions, p.lhs = lhs :=
  (produce_succeeds lhs body action node d).imp fun _ _ h =>
    ⟨.ofProduces h (List.forall_mem_singleton.mpr hlhs) (List.forall_mem_singleton.mpr hbody)
      (List.forall_mem_singleton.mpr hfits),
      ⟨_, h.mem_iff.mpr (.inr (List.mem_singleton_self _)), rfl⟩⟩

variable (strict m) in
/-- Several productions of one nonterminal can be added if all of them fit. -/
theorem produce_forM_gives {d : ProductionDraft} {n : NonterminalId} (ps : List Production)
    (hlhs : ∀ p ∈ ps, p.lhs = n) (hn : n < d.nonterminals.size)
    (hbody : ∀ p ∈ ps, ∀ t ∈ p.body, t.Below d.nonterminals.size)
    (hfits : ∀ p ∈ ps, p.Fits strict m d.nonterminals) (hps : ps ≠ []) :
    Succeeds (ps.forM fun p => produce p.lhs p.body p.action p.node) d fun _ d' =>
      d.Completes strict m m.rules.size d' ∧ ∃ p ∈ d'.productions, p.lhs = n := by
  have hok (ps : List Production) (d : ProductionDraft) :
      ∃ d', (ps.forM fun p => produce p.lhs p.body p.action p.node) d = .ok () d' := by
    induction ps generalizing d with
    | nil => exact ⟨d, rfl⟩
    | cons p rest ih =>
      rw [List.forM_eq_forM, List.forM_cons]
      obtain ⟨u, d₁, hfirst, -⟩ := produce_succeeds p.lhs p.body p.action p.node d
      obtain ⟨d₂, hrest⟩ := ih d₁
      exact ⟨d₂, bind_eq_ok.mpr ⟨u, d₁, hfirst, hrest⟩⟩
  obtain ⟨d', h⟩ := hok ps d
  have hproduces := produce_forM_eq_ok h
  rw [List.map_id'] at hproduces
  refine ⟨(), d', h, .ofProduces hproduces (fun p hp => hlhs p hp ▸ hn) hbody hfits, ?_⟩
  obtain ⟨p, hp⟩ := List.exists_mem_of_ne_nil ps hps
  exact ⟨p, hproduces.mem_iff.mpr (.inr hp), hlhs p hp⟩

/-- A new nonterminal that gets productions is a term. -/
theorem GivesTerm.ofNew {e : Expr} {kind : SynthesizedKind} {content : Content}
    {fill : NonterminalId → Lowering Term} (hfill : ∀ n, FillsNew strict m (fill n) n content) :
    GivesTerm strict m (synthesize sc e kind content >>= fill) (· = content) := by
  intro d hready
  refine (synthesize_succeeds sc e kind content d).bind fun n d₁ hn => ?_
  have hcontent := hn.content_eq
  refine (hfill n (hready.declares hn) hn.lt_size hcontent).imp fun t d₂ h => ?_
  obtain ⟨rfl, hcompletes, hproduction⟩ := h
  refine ⟨.ofDeclares hn hcompletes hproduction,
    Nat.lt_of_lt_of_le hn.lt_size hcompletes.size_le, ?_⟩
  exact (hcompletes.content_eq hn.lt_size).trans hcontent

theorem GivesProductions.fillsNew {x : Lowering Unit} {n : NonterminalId} {content : Content}
    {some : Prop} (h : GivesProductions strict m x n (· = content) some) (hsome : some) :
    FillsNew strict m (x >>= fun _ => pure (.nonterminal n)) n content := by
  intro d hready hn hcontent
  exact (h hready hn hcontent).bind fun _ d₁ h₁ => .pure ⟨rfl, h₁.1, h₁.2 hsome⟩

/-- Work after a warning. -/
theorem GivesTerm.afterWarning {e : Expr} {absorbed : List Absorption} {x : Lowering Term}
    {carries : Content → Prop} (h : GivesTerm strict m x carries) :
    GivesTerm strict m (warnNested sc e absorbed >>= fun _ => x) carries := by
  intro d hready
  refine (warnNested_succeeds sc e absorbed d).bind fun _ d₁ hwarn => ?_
  have hcompletes : d.Completes strict m m.rules.size d₁ :=
    .ofProduces hwarn (by simp) (by simp) (by simp)
  exact (h (hready.completes hcompletes)).imp fun _ _ hpost =>
    ⟨hcompletes.trans hpost.1, hpost.2⟩

theorem leafTerm_gives (hnames : sc.model.symbols.NamesBelow sc.model.rules.size) {e : Expr}
    {name : String} (hname : (sc.model.symbols.resolve? name).isSome = true) :
    GivesTerm strict sc.model (leafTerm sc e name)
      (· = .ofValue? (sc.model.nameValue? name)) := by
  intro d hready
  unfold leafTerm GrammarModel.nameValue?
  cases hsymbol : sc.model.symbols.resolve? name with
  | none => simp [hsymbol] at hname
  | some symbol =>
    cases symbol with
    | builtin p => exact .pure ⟨.refl d, trivial, rfl⟩
    | rule id =>
      have hid := hnames name id hsymbol
      have hrule : sc.model.rule? id = some sc.model.rules[id] := Array.getElem?_eq_getElem hid
      refine .pure ⟨.refl d, Nat.lt_of_lt_of_le hid hready.inScope.count_le, ?_⟩
      show (d.nonterminals.getD id default).content = _
      rw [hready.content_eq id _ hrule]
      simp [hrule]

/-! ## Without values -/

/-- Terms may be any terms that exist. -/
theorem GivesTerm.weaken {x : Lowering Term} {carries carries' : Content → Prop}
    (h : GivesTerm strict m x carries) (himp : ∀ content, carries content → carries' content) :
    GivesTerm strict m x carries' :=
  fun _ hready => (h hready).imp fun _ _ hpost => ⟨hpost.1, hpost.2.1, himp _ hpost.2.2⟩

/-- A production without a value for some terms. -/
theorem GivesTerms.produceNothing {x : Lowering (List Term)} (h : GivesTerms strict m x)
    (lhs : NonterminalId) (node : Option NodeId) :
    GivesProductions strict m (x >>= fun terms => produce lhs terms .nothing node) lhs
      (· = .nothing) True := by
  intro d hready hlhs hcontent
  refine (h hready).bind fun terms d₁ h₁ => ?_
  have hlhs₁ := Nat.lt_of_lt_of_le hlhs h₁.1.size_le
  have hfits : (⟨lhs, terms, .nothing, node⟩ : Production).Fits strict m d₁.nonterminals :=
    (h₁.1.content_eq hlhs).trans hcontent
  exact (produce_gives hlhs₁ h₁.2 hfits).imp fun _ _ h₂ => ⟨h₁.1.trans h₂.1, fun _ => h₂.2⟩

/-- Productions of one nonterminal, one after another. -/
theorem GivesProductions.andThen {x y : Lowering Unit} {lhs : NonterminalId}
    {target : Content → Prop} {some : Prop} (hx : GivesProductions strict m x lhs target True)
    (hy : GivesProductions strict m y lhs target some) (some' : Prop) :
    GivesProductions strict m (x >>= fun _ => y) lhs target some' := by
  intro d hready hlhs htarget
  refine (hx hready hlhs htarget).bind fun _ d₁ h₁ => ?_
  rw [← h₁.1.content_eq hlhs] at htarget
  refine (hy (hready.completes h₁.1) (Nat.lt_of_lt_of_le hlhs h₁.1.size_le) htarget).imp
    fun _ d₂ h₂ => ⟨h₁.1.trans h₂.1, fun _ => ?_⟩
  obtain ⟨p, hp, hplhs⟩ := h₁.2 trivial
  exact ⟨p, h₂.1.keeps p hp, hplhs⟩

theorem GivesProductions.ofSome {x : Lowering Unit} {lhs : NonterminalId}
    {target : Content → Prop} {some some' : Prop} (h : GivesProductions strict m x lhs target some)
    (hsome : some) : GivesProductions strict m x lhs target some' :=
  fun _ hready hlhs htarget =>
    (h hready hlhs htarget).imp fun _ _ hpost => ⟨hpost.1, fun _ => hpost.2 hsome⟩

theorem GivesProductions.mono {x : Lowering Unit} {lhs : NonterminalId}
    {target target' : Content → Prop} {some : Prop}
    (h : GivesProductions strict m x lhs target' some)
    (himp : ∀ content, target content → target' content) :
    GivesProductions strict m x lhs target some :=
  fun _ hready hlhs htarget => h hready hlhs (himp _ htarget)

theorem GivesProductions.nil {lhs : NonterminalId} {target : Content → Prop} {some : Prop}
    (hsome : ¬some) : GivesProductions strict m (pure ()) lhs target some :=
  fun d _ _ _ => .pure ⟨.refl d, fun h => absurd h hsome⟩

variable (strict m) in
/-- The alternatives of a quantified operand without a value. -/
theorem plainAlternatives_give {d : ProductionDraft} {n : NonterminalId} {item : List Term}
    (e : Expr) (quantifier : Quantifier) (hn : n < d.nonterminals.size)
    (hcontent : (d.nonterminals.getD n default).content = .nothing)
    (hitem : ∀ t ∈ item, t.Below d.nonterminals.size) :
    Succeeds ((plainAlternatives quantifier item (.nonterminal n)).forM fun body =>
        produce n body .nothing e.id) d fun _ d' =>
      d.Completes strict m m.rules.size d' ∧ ∃ p ∈ d'.productions, p.lhs = n := by
  have hbody : ∀ body ∈ plainAlternatives quantifier item (.nonterminal n), ∀ t ∈ body,
      t.Below d.nonterminals.size := by
    intro body hbody t ht
    have hterm : t ∈ item ∨ t = .nonterminal n := by
      revert hbody
      cases quantifier <;> simp only [plainAlternatives, List.mem_cons, List.not_mem_nil,
        or_false] <;> rintro (rfl | rfl) <;> simp_all
    rcases hterm with hterm | rfl
    · exact hitem t hterm
    · exact hn
  have hproduce := produce_forM_gives strict m
    ((plainAlternatives quantifier item (.nonterminal n)).map fun body =>
      ⟨n, body, .nothing, e.id⟩)
    (List.forall_mem_map.mpr fun _ _ => rfl) hn (List.forall_mem_map.mpr hbody)
    (List.forall_mem_map.mpr fun _ _ => hcontent) (by cases quantifier <;> simp [plainAlternatives])
  simpa only [List.forM_eq_forM, List.forM_map] using hproduce

variable (strict) in
theorem plain_gives (hnames : sc.model.symbols.NamesBelow sc.model.rules.size) :
    (∀ e, e.Regular strict sc.model →
        GivesTerm strict sc.model (plainTerm sc e) fun _ => True) ∧
      (∀ e quantifier body, body.Regular strict sc.model →
        GivesTerm strict sc.model (plainQuantified sc e quantifier body) fun _ => True) ∧
      (∀ e, e.Regular strict sc.model → GivesTerms strict sc.model (plainTerms sc e)) ∧
      (∀ items, (∀ e ∈ items, e.Regular strict sc.model) →
        GivesTerms strict sc.model (plainTermsAll sc items)) ∧
      ∀ lhs branches, (∀ e ∈ branches, e.Regular strict sc.model) →
        GivesProductions strict sc.model (plainBranches sc lhs branches) lhs (· = .nothing)
          (branches ≠ []) := by
  apply plainTerm.mutual_induct
  case case1 =>
    intro info t hregular d hready
    rw [plainTerm]
    exact .pure ⟨.refl d, trivial, trivial⟩
  case case2 =>
    intro info name hregular
    rw [plainTerm]
    exact (leafTerm_gives hnames (hregular.self.resolves info name rfl)).weaken fun _ _ => trivial
  case case3 =>
    intro info body hbody hregular
    rw [plainTerm]
    exact hbody hregular.ofGroup
  case case4 =>
    intro info items hitems hregular
    rw [plainTerm]
    refine (GivesTerm.ofNew fun n => ?_).weaken fun _ _ => trivial
    have hproduce := (hitems hregular.ofSequence).produceNothing n info.id
    simpa only [bind_assoc] using hproduce.fillsNew trivial
  case case5 =>
    intro info branches hbranches hregular
    rw [plainTerm]
    refine (GivesTerm.ofNew fun n => ?_).weaken fun _ _ => trivial
    exact (hbranches n hregular.ofAlternation).fillsNew
      (hregular.self.hasBranches info branches rfl)
  case case6 =>
    intro info body hbody hregular
    rw [plainTerm]
    exact hbody hregular.ofOptional
  case case7 =>
    intro info body kind hbody hregular
    rw [plainTerm]
    exact hbody hregular.ofRepeated
  case case8 =>
    intro e quantifier body found hatom hregular
    rw [plainQuantified]
    refine GivesTerm.afterWarning ((GivesTerm.ofNew fun n d hready hn hcontent => ?_).weaken
      fun _ _ => trivial)
    refine (hatom (hregular.absorb quantifier none) hready).bind fun item d₁ h₁ => ?_
    have hn₁ := Nat.lt_of_lt_of_le hn h₁.1.size_le
    have hcontent₁ := (h₁.1.content_eq hn).trans hcontent
    have hproduce := plainAlternatives_give strict sc.model e found.quantifier hn₁ hcontent₁ h₁.2
    exact hproduce.bind fun _ d₂ h₂ => .pure ⟨rfl, h₁.1.trans h₂.1, h₂.2⟩
  case case9 =>
    intro info items hitems hregular
    rw [plainTerms]
    exact hitems hregular.ofSequence
  case case10 =>
    intro info body hbody hregular
    rw [plainTerms]
    exact hbody hregular.ofGroup
  case case11 =>
    intro e hsequence hgroup he hregular d hready
    rw [plainTerms.eq_def]
    split
    · exact absurd rfl (hsequence _ _)
    · exact absurd rfl (hgroup _ _)
    · exact (he hregular hready).bind fun t d₁ h =>
        .pure ⟨h.1, List.forall_mem_singleton.mpr h.2.1⟩
  case case12 =>
    intro hregular d hready
    rw [plainTermsAll]
    exact .pure ⟨.refl d, by simp⟩
  case case13 =>
    intro e rest he hrest hregular d hready
    rw [plainTermsAll]
    refine (he (hregular e List.mem_cons_self) hready).bind fun front d₁ h₁ => ?_
    refine (hrest (fun e' h => hregular e' (List.mem_cons_of_mem _ h))
      (hready.completes h₁.1)).bind fun back d₂ h₂ => .pure ⟨h₁.1.trans h₂.1, ?_⟩
    refine List.forall_mem_append.mpr ⟨fun t ht => ?_, h₂.2⟩
    exact (h₁.2 t ht).mono h₂.1.size_le
  case case14 =>
    intro lhs hregular
    rw [plainBranches]
    exact .nil (by simp)
  case case15 =>
    intro lhs branch rest hbranch hrest hregular
    rw [plainBranches]
    have hfirst := (hbranch (hregular branch List.mem_cons_self)).produceNothing lhs branch.id
    have hlater := hrest fun e h => hregular e (List.mem_cons_of_mem _ h)
    simpa only [bind_assoc] using hfirst.andThen hlater _

end AnnotatedGrammar.Lowering
