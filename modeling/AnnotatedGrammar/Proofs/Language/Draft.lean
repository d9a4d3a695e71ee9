import AnnotatedGrammar.Proofs.Language.Derivation
import AnnotatedGrammar.Proofs.Language.Expression
import AnnotatedGrammar.Proofs.Lowering.Run

/-!
# The language of work on a production set

Work on a draft that makes terms for an expression is judged by two inclusions. Every closed reading
of the draft afterwards gives the terms at least the language of the expression. Conversely every
closed reading of the draft before extends to one of the draft afterwards that gives the terms at
most that language, as long as the rules are read as given languages. Both carry over from the parts
of a work to the whole, so that each function of the lowering needs to be looked at only once.
-/

namespace AnnotatedGrammar

open scoped Computability

/-- The language of something in which rules may occur. -/
abbrev Meaning := RuleReading → Language Terminal

namespace ProductionDraft

/-- A closed reading of a draft that reads the rules as given languages. -/
structure Reads (d : ProductionDraft) (count : Nat) (σ : RuleReading) (ρ : TermReading) : Prop where
  closed : ρ.Closed d.productions
  rules : ∀ id < count, ρ id = σ id

/-- Work that makes terms with the language `L` when the `count` rules are read as `σ` says. -/
structure LowersTo (count : Nat) (σ : RuleReading) (d d' : ProductionDraft) (terms : List Term)
    (L : Meaning) : Prop extends Grows d d' where
  inScope : d.Scoped count → d'.Scoped count ∧ ∀ t ∈ terms, t.Below d'.nonterminals.size
  complete : ∀ ρ : TermReading, ρ.Closed d'.productions → L ρ ≤ Term.languageInRow ρ terms
  sound : d.Scoped count → ∀ ρ, d.Reads count σ ρ →
    ∃ ρ', (∀ n < d.nonterminals.size, ρ' n = ρ n) ∧ d'.Reads count σ ρ' ∧
      Term.languageInRow ρ' terms ≤ L σ

/-- Work that gives a nonterminal productions with the language `L`. -/
structure Fills (count : Nat) (σ : RuleReading) (d d' : ProductionDraft) (lhs : NonterminalId)
    (L : Meaning) : Prop extends Grows d d' where
  inScope : d.Scoped count → lhs < d.nonterminals.size → d'.Scoped count
  complete : ∀ ρ : TermReading, ρ.Closed d'.productions → L ρ ≤ ρ lhs
  sound : d.Scoped count → lhs < d.nonterminals.size → ∀ ρ, d.Reads count σ ρ → L σ ≤ ρ lhs →
    ∃ ρ', (∀ n < d.nonterminals.size, ρ' n = ρ n) ∧ d'.Reads count σ ρ'

/-- Work that adds terms with the language `L` to those made before. -/
def LowersOnto (count : Nat) (σ : RuleReading) (d d' : ProductionDraft) (before after : Array Term)
    (L : Meaning) : Prop :=
  ∃ terms, after.toList = before.toList ++ terms ∧ LowersTo count σ d d' terms L

variable {count : Nat} {σ : RuleReading} {d d₁ d₂ d₃ : ProductionDraft}

theorem Grows.closed (h : d.Grows d₁) {ρ : TermReading} (hclosed : ρ.Closed d₁.productions) :
    ρ.Closed d.productions :=
  fun p hp => hclosed p (h.keeps p hp)

theorem Produces.closed_iff {added : List Production} (h : d.Produces d₁ added)
    {ρ : TermReading} :
    ρ.Closed d₁.productions ↔
      ρ.Closed d.productions ∧ ∀ p ∈ added, Term.languageInRow ρ p.body ≤ ρ p.lhs := by
  simp only [TermReading.Closed, h.mem_iff, or_imp, forall_and]

/-- A new nonterminal can be read as any language. -/
theorem Reads.update {n : NonterminalId} (hscoped : d.Scoped count)
    (hn : n = d.nonterminals.size) {ρ : TermReading} (h : d.Reads count σ ρ)
    (L : Language Terminal) : d.Reads count σ (Function.update ρ n L) := by
  subst hn
  have hagree : ∀ n < d.nonterminals.size,
      Function.update ρ d.nonterminals.size L n = ρ n := by
    intro n hlt
    exact Function.update_of_ne (Nat.ne_of_lt hlt) _ _
  constructor
  · intro p hp
    rw [Term.languageInRow_congr (hscoped.below p hp) hagree, hagree _ (hscoped.lhs_lt p hp)]
    exact h.closed p hp
  · intro id hid
    rw [hagree id (Nat.lt_of_lt_of_le hid hscoped.count_le)]
    exact h.rules id hid

namespace LowersTo

variable {terms terms' : List Term} {L L' : Meaning}

/-- No work makes no terms. -/
theorem nil : LowersTo count σ d d [] (fun _ => 1) where
  toGrows := .refl d
  inScope h := ⟨h, by simp⟩
  complete _ _ := le_rfl
  sound _ ρ h := ⟨ρ, fun _ _ => rfl, h, le_rfl⟩

/-- Works one after another make the terms of both. -/
theorem append (h : LowersTo count σ d d₁ terms L) (h' : LowersTo count σ d₁ d₂ terms' L') :
    LowersTo count σ d d₂ (terms ++ terms') fun σ => L σ * L' σ where
  toGrows := h.toGrows.trans h'.toGrows
  inScope hscoped := by
    obtain ⟨hscoped₁, hbelow⟩ := h.inScope hscoped
    obtain ⟨hscoped₂, hbelow'⟩ := h'.inScope hscoped₁
    refine ⟨hscoped₂, fun t ht => ?_⟩
    rcases List.mem_append.mp ht with ht | ht
    · exact (hbelow t ht).mono h'.size_le
    · exact hbelow' t ht
  complete ρ hclosed := by
    rw [Term.languageInRow_append]
    exact mul_le_mul' (h.complete ρ (h'.toGrows.closed hclosed)) (h'.complete ρ hclosed)
  sound hscoped ρ hreads := by
    obtain ⟨hscoped₁, hbelow⟩ := h.inScope hscoped
    obtain ⟨ρ₁, hagree₁, hreads₁, hle₁⟩ := h.sound hscoped ρ hreads
    obtain ⟨ρ₂, hagree₂, hreads₂, hle₂⟩ := h'.sound hscoped₁ ρ₁ hreads₁
    refine ⟨ρ₂, fun n hn => ?_, hreads₂, ?_⟩
    · rw [hagree₂ n (Nat.lt_of_lt_of_le hn h.size_le), hagree₁ n hn]
    · rw [Term.languageInRow_append, Term.languageInRow_congr hbelow hagree₂]
      exact mul_le_mul' hle₁ hle₂

theorem congr (h : LowersTo count σ d d₁ terms L) (hL : ∀ σ, L σ = L' σ) :
    LowersTo count σ d d₁ terms L' := by
  obtain rfl : L = L' := funext hL
  exact h

/-- A warning changes nothing. -/
theorem after (h : LowersTo count σ d₁ d₂ terms L) (hd : d.Produces d₁ []) :
    LowersTo count σ d d₂ terms L := by
  have hscoped (hs : d.Scoped count) : d₁.Scoped count := hd.inScope hs (by simp) (by simp)
  have hreads {ρ : TermReading} (hr : d.Reads count σ ρ) : d₁.Reads count σ ρ :=
    ⟨hd.closed_iff.mpr ⟨hr.closed, by simp⟩, hr.rules⟩
  refine ⟨hd.grows.trans h.toGrows, fun hs => h.inScope (hscoped hs), h.complete, ?_⟩
  intro hs ρ hr
  rw [← hd.nonterminals_eq]
  exact h.sound (hscoped hs) ρ (hreads hr)

/-- A new nonterminal with productions of some language is a term of that language. -/
theorem ofFills {n : NonterminalId} {content : Content} {origin : NonterminalOrigin}
    (hd : d.Declares d₁ n content origin) (h : Fills count σ d₁ d₂ n L) :
    LowersTo count σ d d₂ [.nonterminal n] L where
  toGrows := hd.grows.trans h.toGrows
  inScope hscoped := by
    refine ⟨h.inScope (hd.inScope hscoped) hd.lt_size, ?_⟩
    simp only [List.mem_singleton, forall_eq]
    exact Nat.lt_of_lt_of_le hd.lt_size h.size_le
  complete ρ hclosed := by simpa [Term.language] using h.complete ρ hclosed
  sound hscoped ρ hreads := by
    have hreads₁ : d₁.Reads count σ (Function.update ρ n (L σ)) := by
      obtain ⟨hclosed, hrules⟩ := hreads.update hscoped hd.index_eq (L σ)
      exact ⟨hd.productions_eq ▸ hclosed, hrules⟩
    obtain ⟨ρ', hagree, hreads'⟩ :=
      h.sound (hd.inScope hscoped) hd.lt_size _ hreads₁ (by simp)
    refine ⟨ρ', fun k hk => ?_, hreads', ?_⟩
    · rw [hagree k (Nat.lt_of_lt_of_le hk hd.grows.size_le),
        Function.update_of_ne (by rw [hd.index_eq]; exact Nat.ne_of_lt hk)]
    · simp [Term.language, hagree n hd.lt_size]

end LowersTo

namespace LowersOnto

variable {before between after : Array Term} {L L' : Meaning}

theorem refl (terms : Array Term) : LowersOnto count σ d d terms terms fun _ => 1 :=
  ⟨[], by simp, .nil⟩

theorem trans (h : LowersOnto count σ d d₁ before between L)
    (h' : LowersOnto count σ d₁ d₂ between after L') :
    LowersOnto count σ d d₂ before after fun σ => L σ * L' σ := by
  obtain ⟨terms, hterms, h⟩ := h
  obtain ⟨terms', hterms', h'⟩ := h'
  exact ⟨terms ++ terms', by rw [hterms', hterms, List.append_assoc], h.append h'⟩

theorem congr (h : LowersOnto count σ d d₁ before after L) (hL : ∀ σ, L σ = L' σ) :
    LowersOnto count σ d d₁ before after L' := by
  obtain rfl : L = L' := funext hL
  exact h

/-- One more term. -/
theorem push {t : Term} (h : LowersTo count σ d d₁ [t] L) :
    LowersOnto count σ d d₁ before (before.push t) L :=
  ⟨[t], by simp, h⟩

/-- All the terms, if there were none before. -/
theorem lowersTo (h : LowersOnto count σ d d₁ #[] after L) :
    LowersTo count σ d d₁ after.toList L := by
  obtain ⟨terms, hterms, h⟩ := h
  rw [hterms]
  exact h

end LowersOnto

namespace Fills

variable {lhs : NonterminalId} {terms : List Term} {L L' : Meaning}

/-- No production derives nothing. -/
theorem nil : Fills count σ d d lhs (fun _ => 0) where
  toGrows := .refl d
  inScope h _ := h
  complete _ _ := by simp
  sound _ _ ρ h _ := ⟨ρ, fun _ _ => rfl, h⟩

/-- Works one after another give a nonterminal the productions of both. -/
theorem add (h : Fills count σ d d₁ lhs L) (h' : Fills count σ d₁ d₂ lhs L') :
    Fills count σ d d₂ lhs fun σ => L σ + L' σ where
  toGrows := h.toGrows.trans h'.toGrows
  inScope hscoped hlhs := h'.inScope (h.inScope hscoped hlhs) (Nat.lt_of_lt_of_le hlhs h.size_le)
  complete ρ hclosed :=
    add_le (h.complete ρ (h'.toGrows.closed hclosed)) (h'.complete ρ hclosed)
  sound hscoped hlhs ρ hreads hle := by
    obtain ⟨hle₁, hle₂⟩ := add_le_iff.mp hle
    obtain ⟨ρ₁, hagree₁, hreads₁⟩ := h.sound hscoped hlhs ρ hreads hle₁
    obtain ⟨ρ₂, hagree₂, hreads₂⟩ :=
      h'.sound (h.inScope hscoped hlhs) (Nat.lt_of_lt_of_le hlhs h.size_le) ρ₁ hreads₁
        (by rwa [hagree₁ lhs hlhs])
    refine ⟨ρ₂, fun n hn => ?_, hreads₂⟩
    rw [hagree₂ n (Nat.lt_of_lt_of_le hn h.size_le), hagree₁ n hn]

theorem congr (h : Fills count σ d d₁ lhs L) (hL : ∀ σ, L σ = L' σ) :
    Fills count σ d d₁ lhs L' := by
  obtain rfl : L = L' := funext hL
  exact h

/-- One production with a body of some language. -/
theorem ofLowersTo {action : Action} {node : Option NodeId}
    (h : LowersTo count σ d d₁ terms L) (hp : d₁.Produces d₂ [⟨lhs, terms, action, node⟩]) :
    Fills count σ d d₂ lhs L where
  toGrows := h.toGrows.trans hp.grows
  inScope hscoped hlhs := by
    obtain ⟨hscoped₁, hbelow⟩ := h.inScope hscoped
    refine hp.inScope hscoped₁ ?_ ?_
    · simpa using Nat.lt_of_lt_of_le hlhs h.size_le
    · simpa using hbelow
  complete ρ hclosed := by
    obtain ⟨hclosed₁, hbody⟩ := hp.closed_iff.mp hclosed
    exact (h.complete ρ hclosed₁).trans (hbody _ (List.mem_singleton_self _))
  sound hscoped hlhs ρ hreads hle := by
    obtain ⟨ρ₁, hagree, hreads₁, hle₁⟩ := h.sound hscoped ρ hreads
    refine ⟨ρ₁, hagree, hp.closed_iff.mpr ⟨hreads₁.closed, ?_⟩, hreads₁.rules⟩
    simpa [hagree lhs hlhs] using hle₁.trans hle

end Fills

/-- A nonterminal for a quantified operand: its productions are those of `plainAlternatives`, made
after the terms of the operand. -/
theorem LowersTo.quantified {n : NonterminalId} {content : Content} {origin : NonterminalOrigin}
    {item : List Term} {L : Meaning} {quantifier : Quantifier} {added : List Production}
    (hd : d.Declares d₁ n content origin) (h : LowersTo count σ d₁ d₂ item L)
    (hp : d₂.Produces d₃ added) (hlhs : ∀ p ∈ added, p.lhs = n)
    (hbodies : added.map (·.body) =
      Lowering.plainAlternatives quantifier item (.nonterminal n)) :
    LowersTo count σ d d₃ [.nonterminal n] fun σ => quantifier.apply (L σ) := by
  -- the productions are closed just if the bodies stay inside the language of the nonterminal
  have hclosed_iff (ρ : TermReading) :
      ρ.Closed d₃.productions ↔ ρ.Closed d₂.productions ∧
        ∀ body ∈ Lowering.plainAlternatives quantifier item (.nonterminal n),
          Term.languageInRow ρ body ≤ ρ n := by
    rw [hp.closed_iff, ← hbodies, List.forall_mem_map]
    refine and_congr_right fun _ => forall₂_congr fun p hmem => ?_
    rw [hlhs p hmem]
  have hbelow_bodies (hscoped : d.Scoped count) :
      ∀ p ∈ added, ∀ t ∈ p.body, t.Below d₂.nonterminals.size := by
    have hitem := (h.inScope (hd.inScope hscoped)).2
    have hn : (Term.nonterminal n).Below d₂.nonterminals.size :=
      Nat.lt_of_lt_of_le hd.lt_size h.size_le
    intro p hmem
    have hbody : p.body ∈ Lowering.plainAlternatives quantifier item (.nonterminal n) :=
      hbodies ▸ List.mem_map_of_mem hmem
    cases quantifier <;> simp only [Lowering.plainAlternatives, List.mem_cons, List.not_mem_nil,
      or_false] at hbody <;> rcases hbody with hbody | hbody <;> rw [hbody] <;> grind
  refine ⟨hd.grows.trans (h.toGrows.trans hp.grows), fun hscoped => ?_, fun ρ hclosed => ?_,
    fun hscoped ρ hreads => ?_⟩
  · have hscoped₂ := (h.inScope (hd.inScope hscoped)).1
    have hn := Nat.lt_of_lt_of_le hd.lt_size h.size_le
    refine ⟨hp.inScope hscoped₂ (fun p hmem => hlhs p hmem ▸ hn) (hbelow_bodies hscoped), ?_⟩
    simpa [hp.nonterminals_eq, Term.Below] using hn
  · obtain ⟨hclosed₂, hbody⟩ := (hclosed_iff ρ).mp hclosed
    have hL := h.complete ρ hclosed₂
    simp only [Term.languageInRow_cons, Term.languageInRow_nil, mul_one, Term.language]
    cases quantifier <;>
      simp only [Lowering.plainAlternatives, List.forall_mem_cons, Term.languageInRow_append,
        Term.languageInRow_cons, Term.languageInRow_nil, Term.language, mul_one] at hbody <;>
      obtain ⟨hfirst, hlast, -⟩ := hbody
    · exact add_le hlast (hL.trans hfirst)
    · exact kstar_le_of_mul_le_right hlast ((mul_le_mul' hL le_rfl).trans hfirst)
    · rw [Quantifier.apply, ← Language.mul_self_kstar_comm]
      exact kstar_mul_le (hL.trans hlast) ((mul_le_mul' hL le_rfl).trans hfirst)
  · have hreads₁ : d₁.Reads count σ (Function.update ρ n (quantifier.apply (L σ))) := by
      obtain ⟨hclosed, hrules⟩ := hreads.update hscoped hd.index_eq (quantifier.apply (L σ))
      exact ⟨hd.productions_eq ▸ hclosed, hrules⟩
    obtain ⟨ρ', hagree, hreads', hitem⟩ := h.sound (hd.inScope hscoped) _ hreads₁
    have hn : ρ' n = quantifier.apply (L σ) := by
      rw [hagree n hd.lt_size, Function.update_self]
    refine ⟨ρ', fun k hk => ?_, ⟨(hclosed_iff ρ').mpr ⟨hreads'.closed, ?_⟩, hreads'.rules⟩, ?_⟩
    · rw [hagree k (Nat.lt_of_lt_of_le hk hd.grows.size_le),
        Function.update_of_ne (by rw [hd.index_eq]; exact Nat.ne_of_lt hk)]
    · cases quantifier <;>
        simp only [Lowering.plainAlternatives, List.forall_mem_cons, Term.languageInRow_append,
          Term.languageInRow_cons, Term.languageInRow_nil, Term.language, mul_one, hn]
      · exact ⟨hitem.trans (by simp [Quantifier.apply]), by simp [Quantifier.apply], by simp⟩
      · refine ⟨(mul_le_mul' hitem le_rfl).trans mul_kstar_le_kstar, one_le_kstar, by simp⟩
      · refine ⟨mul_le_mul' hitem mul_kstar_le_kstar, hitem.trans ?_, by simp⟩
        exact le_mul_of_one_le_right' one_le_kstar
    · simp [Term.language, hn]

end ProductionDraft
end AnnotatedGrammar
