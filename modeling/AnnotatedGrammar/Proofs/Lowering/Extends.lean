import AnnotatedGrammar.Proofs.Lowering.Run
import AnnotatedGrammar.Proofs.Model.Names
import AnnotatedGrammar.Proofs.Syntax.Numbered

/-!
# What lowering an expression adds

Lowering an expression only adds to the draft: nonterminals named after the rule, and productions.
A term that stands for a new nonterminal is passed on until some production takes it up, and each
branch of an alternation is chosen by one production at most.
-/

namespace AnnotatedGrammar

namespace Production

/-- Whether a production chooses a variant for an expression. -/
def isChoiceOf (id : NodeId) (p : Production) : Bool :=
  match p.action with
  | .choose _ _ _ => p.node == some id
  | _ => false

/-- A production that chooses a variant chooses one of its class, for the branch that the variant
stands for, with a payload if the variant has one. -/
def ChoosesWell (m : GrammarModel) (p : Production) : Prop :=
  ∀ c index payload, p.action = .choose c index payload →
    ∃ cls variant, m.class? c = some cls ∧ cls.variants[index]? = some variant ∧
      p.node = some variant.node ∧ payload.isSome = variant.payload.isSome

theorem choosesWell_of_ne {m : GrammarModel} {p : Production}
    (h : ∀ c index payload, p.action ≠ .choose c index payload) : p.ChoosesWell m :=
  fun c index payload heq => absurd heq (h c index payload)

theorem isChoiceOf_of_ne {p : Production}
    (h : ∀ c index payload, p.action ≠ .choose c index payload)
    (id : NodeId) : p.isChoiceOf id = false := by
  unfold isChoiceOf
  split
  · exact absurd ‹_› (h _ _ _)
  · rfl

end Production

/-- What a nonterminal made for an expression may carry: the value of the expression or of its shape
alone, an instance of the class that it is marked with, or one of a class whose fields it fills. -/
inductive GrammarModel.MayCarry (m : GrammarModel) (e : Expr) : Content → Prop
  | nothing : MayCarry m e .nothing
  | value : MayCarry m e (.ofValue? (m.valueOf? e))
  | shape : MayCarry m e (.ofValue? (m.shapeValue? e))
  | built {c : ClassId} (hclass : m.nodeClasses.get? e.id = some c) :
    MayCarry m e (.value (Value.ofClass c))
  | filled {c : ClassId} (hfills : m.fillsFieldsOf e c = true) (many : Bool) :
    MayCarry m e (.fragment c many)

namespace LoweringScope

/-- What a nonterminal for an expression of the rule is called, before clashes are resolved. -/
def baseName (sc : LoweringScope) (node : NodeId) (kind : SynthesizedKind) : String :=
  let path := sc.model.nodePath node
  if path.isEmpty then sc.owner ++ "_" ++ kind.word
  else sc.owner ++ "_" ++ path ++ "_" ++ kind.word

/-- A nonterminal is made for an expression of the rule and called after it, and carries what it
may. -/
def Synthesizes (sc : LoweringScope) (n : Nonterminal) : Prop :=
  ∃ e kind, n.origin = .synthesized sc.rule.id e.id kind ∧ sc.model.MayCarry e n.content ∧
    (n.name = sc.baseName e.id kind ∨ ∃ k, n.name = Naming.numbered (sc.baseName e.id kind) k)

end LoweringScope

namespace ProductionDraft

/-- The names of the nonterminals, in order. -/
def names (d : ProductionDraft) : List String := d.nonterminals.toList.map (·.name)

/-- A nonterminal occurs in the body of a production. -/
def Uses (d : ProductionDraft) (n : NonterminalId) : Prop :=
  ∃ p ∈ d.productions, .nonterminal n ∈ p.body

/-- How many productions choose a variant for an expression. -/
def timesChosen (d : ProductionDraft) (id : NodeId) : Nat :=
  d.productions.toList.countP (·.isChoiceOf id)

/-- The draft `d'` holds what `d` holds, and new nonterminals all of which
are `made`. The terms
`before` are still to be taken up in `d`, the terms `after` in `d'`; `ids` are the numbers of
branches for which a variant may have been chosen. -/
structure Extends (made : Nonterminal → Prop) (m : GrammarModel) (ids : List NodeId)
    (before after : List Term) (d d' : ProductionDraft) : Prop extends Grows d d' where
  synthesized : ∀ n, d.nonterminals.size ≤ n → ∀ found, d'.nonterminals[n]? = some found →
    made found
  distinct : d.names.Nodup → d'.names.Nodup
  used : ∀ n, .nonterminal n ∈ before ∨ d.nonterminals.size ≤ n ∧ n < d'.nonterminals.size →
    .nonterminal n ∈ after ∨ d'.Uses n
  chooses : ∀ p ∈ d'.productions, p ∈ d.productions ∨ p.ChoosesWell m
  chosen_le : ∀ id, d'.timesChosen id ≤ d.timesChosen id + ids.count id

variable {made made' : Nonterminal → Prop} {m : GrammarModel} {ids ids' : List NodeId}
  {before between after : List Term} {d d₁ d' : ProductionDraft} {n : NonterminalId}

theorem Produces.names_eq {added : List Production} (h : d.Produces d' added) :
    d'.names = d.names := by
  unfold names
  rw [h.nonterminals_eq]

theorem Produces.not_lt_size {added : List Production} (h : d.Produces d' added)
    (hle : d.nonterminals.size ≤ n) : ¬n < d'.nonterminals.size :=
  Nat.not_lt.mpr (h.nonterminals_eq ▸ hle)

theorem Produces.getElem?_ne_some {added : List Production} (h : d.Produces d' added)
    (hle : d.nonterminals.size ≤ n) {found : Nonterminal} : d'.nonterminals[n]? ≠ some found :=
  fun hfound => h.not_lt_size hle (Array.getElem?_eq_some_iff.mp hfound).1

theorem Grows.uses (h : d.Grows d') (huses : d.Uses n) : d'.Uses n := by
  obtain ⟨p, hp, hmem⟩ := huses
  exact ⟨p, h.keeps p hp, hmem⟩

namespace Extends

theorem same (d : ProductionDraft) (hopen : before ⊆ after) :
    d.Extends made m [] before after d where
  toGrows := .refl d
  synthesized _ hle _ hfound :=
    absurd (Array.getElem?_eq_some_iff.mp hfound).1 (Nat.not_lt.mpr hle)
  distinct h := h
  used _ hn := .inl (hopen (hn.resolve_right fun h =>
    Nat.lt_irrefl _ (Nat.lt_of_le_of_lt h.1 h.2)))
  chooses _ hp := .inl hp
  chosen_le _ := Nat.le_add_right _ _

theorem trans (h : d.Extends made m ids before between d₁)
    (h' : d₁.Extends made m ids' between after d') :
    d.Extends made m (ids ++ ids') before after d' where
  toGrows := h.toGrows.trans h'.toGrows
  synthesized n hle found hfound := by
    by_cases hn : n < d₁.nonterminals.size
    · rw [h'.keeps_nonterminal n hn] at hfound
      exact h.synthesized n hle found hfound
    · exact h'.synthesized n (Nat.not_lt.mp hn) found hfound
  distinct hnodup := h'.distinct (h.distinct hnodup)
  used n hn := by
    by_cases hbetween : .nonterminal n ∈ before ∨
        d.nonterminals.size ≤ n ∧ n < d₁.nonterminals.size
    · rcases h.used n hbetween with hopen | huses
      · exact h'.used n (.inl hopen)
      · exact .inr (h'.toGrows.uses huses)
    · rw [not_or] at hbetween
      obtain ⟨hle, hlt⟩ := hn.resolve_left hbetween.1
      exact h'.used n (.inr ⟨Nat.not_lt.mp fun hlt' => hbetween.2 ⟨hle, hlt'⟩, hlt⟩)
  chooses p hp := by
    rcases h'.chooses p hp with hp | hwell
    · exact h.chooses p hp
    · exact .inr hwell
  chosen_le id := by
    have h₁ := h.chosen_le id
    have h₂ := h'.chosen_le id
    rw [List.count_append]
    omega

/-- More branches may be allowed. -/
theorem mono (h : d.Extends made m ids before after d') (hids : ids.Subperm ids') :
    d.Extends made m ids' before after d' where
  toGrows := h.toGrows
  synthesized := h.synthesized
  distinct := h.distinct
  used := h.used
  chooses := h.chooses
  chosen_le id := Nat.le_trans (h.chosen_le id) (Nat.add_le_add_left (hids.count_le id) _)

/-- What is made may be said to be more. -/
theorem imp (h : d.Extends made m ids before after d') (hmade : ∀ n, made n → made' n) :
    d.Extends made' m ids before after d' where
  toGrows := h.toGrows
  synthesized n hle found hfound := hmade found (h.synthesized n hle found hfound)
  distinct := h.distinct
  used := h.used
  chooses := h.chooses
  chosen_le := h.chosen_le

/-- Other terms stay open. -/
theorem frame (h : d.Extends made m ids before after d') (others : List Term) :
    d.Extends made m ids (others ++ before) (others ++ after) d' where
  toGrows := h.toGrows
  synthesized := h.synthesized
  distinct := h.distinct
  used n hn := by
    rw [List.mem_append] at hn ⊢
    rcases hn with (hother | hbefore) | hnew
    · exact .inl (.inl hother)
    · exact (h.used n (.inl hbefore)).imp_left .inr
    · exact (h.used n (.inr hnew)).imp_left .inr
  chooses := h.chooses
  chosen_le := h.chosen_le

/-- Productions that choose no variant take up the terms of their bodies. -/
theorem ofProduces {added : List Production} (h : d.Produces d' added)
    (hchoice : ∀ p ∈ added, ∀ c index payload, p.action ≠ .choose c index payload)
    (hopen : ∀ n, .nonterminal n ∈ before → .nonterminal n ∈ after ∨
      ∃ p ∈ added, .nonterminal n ∈ p.body) : d.Extends made m [] before after d' where
  toGrows := h.grows
  synthesized n hle found hfound := absurd hfound (h.getElem?_ne_some hle)
  distinct hnodup := h.names_eq ▸ hnodup
  used n hn := by
    have hbefore := hn.resolve_right fun hnew => h.not_lt_size hnew.1 hnew.2
    refine (hopen n hbefore).imp_right ?_
    rintro ⟨p, hp, hmem⟩
    exact ⟨p, h.mem_iff.mpr (.inr hp), hmem⟩
  chooses p hp := (h.mem_iff.mp hp).imp_right fun hadded =>
    Production.choosesWell_of_ne (hchoice p hadded)
  chosen_le id := by
    have hnone : added.countP (·.isChoiceOf id) = 0 :=
      List.countP_eq_zero.mpr fun p hp => by simp [Production.isChoiceOf_of_ne (hchoice p hp) id]
    simp [timesChosen, h.productions_eq, hnone]

/-- A production that chooses the variant of a branch. -/
theorem ofChoice {p : Production} {id : NodeId} (h : d.Produces d' [p])
    (hwell : p.ChoosesWell m) (hnode : p.node = some id) :
    d.Extends made m [id] p.body [] d' where
  toGrows := h.grows
  synthesized n hle found hfound := absurd hfound (h.getElem?_ne_some hle)
  distinct hnodup := h.names_eq ▸ hnodup
  used n hn := by
    have hbefore := hn.resolve_right fun hnew => h.not_lt_size hnew.1 hnew.2
    exact .inr ⟨p, h.mem_iff.mpr (.inr List.mem_cons_self), hbefore⟩
  chooses q hq := (h.mem_iff.mp hq).imp_right fun hadded => by
    rw [List.mem_singleton.mp hadded]
    exact hwell
  chosen_le other := by
    have hone : [p].countP (·.isChoiceOf other) ≤ [id].count other := by
      have himp : p.isChoiceOf other = true → id = other := by
        unfold Production.isChoiceOf
        rw [hnode]
        split <;> simp
      rw [List.countP_singleton, List.count_singleton]
      split
      · rw [himp ‹_›]
        simp
      · exact Nat.zero_le _
    have hcount : d'.timesChosen other = d.timesChosen other + [p].countP (·.isChoiceOf other) := by
      simp [timesChosen, h.productions_eq]
    omega

end Extends

end ProductionDraft

namespace Lowering

open ProductionDraft

variable {sc : LoweringScope} {ids ids' : List NodeId} {before between after : List Term}
  {d d' : ProductionDraft} {α β : Type}

/-! ## The operations on drafts -/

/-- Declaring a nonterminal keeps the names apart. -/
theorem declare_name {base : String} {content : Content} {origin : NonterminalOrigin}
    {n : NonterminalId} (h : declare base content origin d = .ok n d') :
    ∃ name, d'.nonterminals = d.nonterminals.push ⟨n, name, content, origin⟩ ∧
      (name = base ∨ (∃ k, name = Naming.numbered base k) ∧ base ∈ d.names) ∧ name ∉ d.names := by
  simp only [declare, bind_eq_ok, get_eq_ok, modify_eq_ok, pure_eq_ok] at h
  obtain ⟨_, _, ⟨rfl, rfl⟩, _, _, rfl, rfl, rfl⟩ := h
  let taken : String → Bool := fun name => d.nonterminals.any fun n => n.name == name
  have htaken (name : String) : taken name = true ↔ name ∈ d.names := by
    simp only [taken, names, ← Array.any_toList, List.any_eq_true, List.mem_map, beq_iff_eq]
  have hfresh : taken (Naming.uniqueName base d.nonterminals.size taken) = false :=
    @Naming.uniqueName_fresh base _ _ d.names (fun name => (htaken name).mp)
      (by simp [names])
  refine ⟨_, rfl, ?_, fun hmem => ?_⟩
  · change Naming.uniqueName base d.nonterminals.size taken = base ∨
      (∃ k, Naming.uniqueName base d.nonterminals.size taken = Naming.numbered base k) ∧ _
    by_cases hbase : taken base = true
    · exact (Naming.uniqueName_cases base d.nonterminals.size taken).imp_right
        fun h => ⟨h, (htaken base).mp hbase⟩
    · refine .inl ?_
      rw [Naming.uniqueName, if_neg hbase]
  · exact Bool.false_ne_true (hfresh.symm.trans ((htaken _).mpr hmem))

theorem synthesize_name {e : Expr} {kind : SynthesizedKind} {content : Content}
    {n : NonterminalId} (h : synthesize sc e kind content d = .ok n d') :
    ∃ name, d'.nonterminals =
        d.nonterminals.push ⟨n, name, content, .synthesized sc.rule.id e.id kind⟩ ∧
      (name = sc.baseName e.id kind ∨ ∃ k, name = Naming.numbered (sc.baseName e.id kind) k) ∧
      name ∉ d.names := by
  simp only [synthesize, bind_eq_ok] at h
  obtain ⟨n', d₁, hdeclare, h⟩ := h
  obtain ⟨name, hname, hbase, hfresh⟩ := declare_name hdeclare
  refine ⟨name, ?_, hbase.imp_right And.left, hfresh⟩
  split at h
  · simp only [bind_eq_ok, modify_eq_ok, pure_eq_ok] at h
    obtain ⟨_, _, rfl, rfl, rfl⟩ := h
    exact hname
  · simp only [pure_eq_ok] at h
    obtain ⟨rfl, rfl⟩ := h
    exact hname

/-- Every run that succeeds extends the draft. -/
def Extending (sc : LoweringScope) (ids : List NodeId) (before : List Term) (x : Lowering α)
    (after : α → List Term) : Prop :=
  ∀ ⦃d a d'⦄, x d = .ok a d' → d.Extends sc.Synthesizes sc.model ids before (after a) d'

namespace Extending

variable {x : Lowering α} {after : α → List Term}

theorem pure {a : α} (h : before ⊆ after a) : Extending sc [] before (pure a) after := by
  intro d b d' hx
  obtain ⟨rfl, rfl⟩ := pure_eq_ok.mp hx
  exact .same d h

theorem bind {f : α → Lowering β} {middle : α → List Term} {after : β → List Term}
    (hx : Extending sc ids before x middle)
    (hf : ∀ a, Extending sc ids' (middle a) (f a) after) :
    Extending sc (ids ++ ids') before (x >>= f) after := by
  intro d b d' h
  obtain ⟨a, d₁, ha, hb⟩ := bind_eq_ok.mp h
  exact (hx ha).trans (hf a hb)

theorem bind_nil_left {f : α → Lowering β} {middle : α → List Term} {after : β → List Term}
    (hx : Extending sc [] before x middle) (hf : ∀ a, Extending sc ids (middle a) (f a) after) :
    Extending sc ids before (x >>= f) after :=
  hx.bind hf

theorem bind_nil_right {f : α → Lowering β} {middle : α → List Term} {after : β → List Term}
    (hx : Extending sc ids before x middle) (hf : ∀ a, Extending sc [] (middle a) (f a) after) :
    Extending sc ids before (x >>= f) after := by
  have h := hx.bind hf
  rwa [List.append_nil] at h

theorem mono (h : Extending sc ids before x after) (hids : ids.Subperm ids') :
    Extending sc ids' before x after :=
  fun _ _ _ hx => (h hx).mono hids

theorem of_sublist (h : Extending sc ids before x after) (hids : ids.Sublist ids') :
    Extending sc ids' before x after :=
  h.mono hids.subperm

theorem of_nil (h : Extending sc [] before x after) : Extending sc ids before x after :=
  h.of_sublist (List.nil_sublist ids)

theorem frame (h : Extending sc ids before x after) (others : List Term) :
    Extending sc ids (others ++ before) x fun a => others ++ after a :=
  fun _ _ _ hx => (h hx).frame others

theorem fail {finding : Finding} {span : Option Span} :
    Extending sc ids before (Lowering.fail finding span : Lowering α) after :=
  fun _ _ _ hx => (fail_ne_ok.mp hx).elim

/-- An operation that leaves the draft as it is. -/
theorem ofSame (h : ∀ ⦃d a d'⦄, x d = .ok a d' → d' = d ∧ before ⊆ after a) :
    Extending sc [] before x after := by
  intro d a d' hx
  obtain ⟨rfl, hafter⟩ := h hx
  exact .same d' hafter

end Extending

theorem synthesize_extends (e : Expr) (kind : SynthesizedKind) {content : Content}
    (hcontent : sc.model.MayCarry e content) :
    Extending sc [] [] (synthesize sc e kind content) fun n => [.nonterminal n] := by
  intro d n d' h
  have hdeclares := synthesize_eq_ok h
  obtain ⟨name, hname, hbase, hfresh⟩ := synthesize_name h
  refine ⟨hdeclares.grows, fun k hle found hfound => ?_, fun hnodup => ?_, fun k hk => ?_,
    fun p hp => .inl (hdeclares.productions_eq ▸ hp), fun id => ?_⟩
  · rw [hname, Array.getElem?_push] at hfound
    split at hfound
    · obtain rfl := Option.some.inj hfound
      exact ⟨e, kind, rfl, hcontent, hbase⟩
    · exact absurd (Array.getElem?_eq_some_iff.mp hfound).1 (Nat.not_lt.mpr hle)
  · have hnames : d'.names = d.names ++ [name] := by simp [names, hname]
    rw [hnames]
    exact List.nodup_append.mpr ⟨hnodup, List.nodup_singleton _, by
      rintro other hother _ hmem rfl
      exact hfresh (List.mem_singleton.mp hmem ▸ hother)⟩
  · have hnew := hk.resolve_left List.not_mem_nil
    rw [hdeclares.size_eq] at hnew
    have hkn : k = n := by
      rw [hdeclares.index_eq]
      omega
    exact .inl (by rw [hkn]; exact List.mem_singleton.mpr rfl)
  · simp [timesChosen, hdeclares.productions_eq]

/-- A production that chooses no variant takes up the terms of its body. -/
theorem produce_extends (lhs : NonterminalId) {body : List Term} {action : Action}
    (node : Option NodeId) (others : List Term)
    (haction : ∀ c index payload, action ≠ .choose c index payload) :
    Extending sc [] (others ++ body) (produce lhs body action node) fun _ => others := by
  intro d u d' h
  refine .ofProduces (produce_eq_ok h) (List.forall_mem_singleton.mpr haction) fun n hn => ?_
  rcases List.mem_append.mp hn with hother | hbody
  · exact .inl hother
  · exact .inr ⟨_, List.mem_singleton.mpr rfl, hbody⟩

/-- Productions that choose no variant take up the terms that occur in one of their bodies. -/
theorem produce_forM_extends {lhs : α → NonterminalId} {body : α → List Term}
    {action : α → Action} {node : α → Option NodeId} {xs : List α} {others : List Term}
    (haction : ∀ a ∈ xs, ∀ c index payload, action a ≠ .choose c index payload)
    (hbody : ∀ t ∈ before, ∃ a ∈ xs, t ∈ body a) :
    Extending sc [] (others ++ before)
      (xs.forM fun a => produce (lhs a) (body a) (action a) (node a)) fun _ => others := by
  intro d u d' h
  refine .ofProduces (produce_forM_eq_ok h) (List.forall_mem_map.mpr haction) fun n hn => ?_
  rcases List.mem_append.mp hn with hother | hmem
  · exact .inl hother
  · obtain ⟨a, ha, hmem⟩ := hbody _ hmem
    exact .inr ⟨_, List.mem_map_of_mem ha, hmem⟩

theorem warnNested_extends (e : Expr) (absorbed : List Absorption) :
    Extending sc [] before (warnNested sc e absorbed) fun _ => before :=
  fun _ _ _ h => .ofProduces (warnNested_eq_ok h) (by simp) fun _ hn => .inl hn

theorem leafTerm_extends (e : Expr) (name : String) :
    Extending sc [] [] (leafTerm sc e name) fun t => [t] := by
  unfold leafTerm
  split
  · exact .pure (List.nil_subset _)
  · exact .pure (List.nil_subset _)
  · exact .fail

/-- What follows the look-up of a class may use the class that was found. -/
theorem Extending.bearerClass {e : Expr} {f : ClassId → Lowering β} {after : β → List Term}
    (hf : ∀ c, sc.model.nodeClasses.get? e.id = some c → Extending sc ids before (f c) after) :
    Extending sc ids before (Lowering.bearerClass sc e >>= f) after := by
  intro d b d' h
  obtain ⟨c, d₁, hc, hrest⟩ := bind_eq_ok.mp h
  obtain ⟨rfl, hclass⟩ := bearerClass_eq_ok hc
  exact hf c hclass hrest

theorem assign_extends (c : ClassId) (owner e : Expr) (t : Term) (a : Assembly) :
    Extending sc [] (a.terms ++ [t]) (assign sc c owner e t a) fun a' => a'.terms := by
  refine .ofSame fun _ a' _ h => ⟨(assign_eq_ok h).1, ?_⟩
  have hterms : a'.terms = a.terms ++ [t] := by
    rw [Assembly.terms, (assign_eq_ok h).2, Array.toList_push]
    rfl
  rw [hterms]
  exact List.Subset.refl _

/-- The action that passes a value on chooses no variant. -/
theorem Extending.forwarding {value : Option Value} {position : Option Nat} {e : Expr}
    {f : Action → Lowering β} {after : β → List Term}
    (hf : ∀ action, (∀ c index payload, action ≠ .choose c index payload) →
      Extending sc ids before (f action) after) :
    Extending sc ids before (Lowering.forwarding value position e >>= f) after := by
  unfold Lowering.forwarding
  split
  · exact hf .nothing (by simp)
  · exact hf (.forward _) (by simp)
  · intro d b d' h
    simp at h

theorem exists_mem_plainAlternatives (quantifier : Quantifier) {item : List Term} (this : Term)
    {t : Term} (h : t ∈ item) : ∃ body ∈ plainAlternatives quantifier item this, t ∈ body := by
  cases quantifier <;> exact ⟨_, List.mem_cons_self, by simp [h]⟩

theorem exists_mem_valuedAlternatives (quantifier : Quantifier) (v : Value) (item this : Term) :
    ∃ alternative ∈ valuedAlternatives quantifier v item this, item ∈ alternative.1 := by
  cases quantifier <;> exact ⟨_, List.mem_cons_self, by simp⟩

theorem valuedAlternatives_ne_choose (quantifier : Quantifier) (v : Value) (item this : Term) :
    ∀ alternative ∈ valuedAlternatives quantifier v item this, ∀ c index payload,
      alternative.2 ≠ .choose c index payload := by
  cases quantifier
  · simp only [valuedAlternatives]
    split <;> simp
  · simp [valuedAlternatives]
  · simp [valuedAlternatives]

end Lowering

end AnnotatedGrammar
