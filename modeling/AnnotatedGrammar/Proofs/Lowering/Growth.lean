import AnnotatedGrammar.Production.Draft

/-!
# Growing production sets

Nonterminals and productions are only ever added to a draft. What was made before stays where it
is, and productions mention only nonterminals that exist.
-/

namespace AnnotatedGrammar

namespace Term

/-- The nonterminals of a term lie below a bound. -/
def Below (bound : NonterminalId) : Term → Prop
  | terminal _ => True
  | nonterminal n => n < bound

theorem Below.mono {t : Term} {bound bound' : NonterminalId} (h : t.Below bound)
    (hle : bound ≤ bound') : t.Below bound' := by
  cases t with
  | terminal => trivial
  | nonterminal n => exact Nat.lt_of_lt_of_le h hle

end Term

namespace ProductionDraft

/-- The log was told nothing but details. -/
def OnlyDebug (d : ProductionDraft) : Prop := ∀ e ∈ d.entries, e.level = .debug

/-- A draft with one more nonterminal, and perhaps more details for the log. -/
structure Declares (d d' : ProductionDraft) (n : NonterminalId) (content : Content)
    (origin : NonterminalOrigin) : Prop where
  index_eq : n = d.nonterminals.size
  nonterminals_eq : ∃ name, d'.nonterminals = d.nonterminals.push ⟨n, name, content, origin⟩
  productions_eq : d'.productions = d.productions
  warnings_eq : d'.warnings = d.warnings
  onlyDebug : d.OnlyDebug → d'.OnlyDebug

/-- A draft with more productions. -/
structure Produces (d d' : ProductionDraft) (added : List Production) : Prop where
  nonterminals_eq : d'.nonterminals = d.nonterminals
  productions_eq : d'.productions = d.productions ++ added.toArray
  entries_eq : d'.entries = d.entries

theorem Produces.append {d d₁ d₂ : ProductionDraft} {added added' : List Production}
    (h : d.Produces d₁ added) (h' : d₁.Produces d₂ added') :
    d.Produces d₂ (added ++ added') where
  nonterminals_eq := h'.nonterminals_eq.trans h.nonterminals_eq
  productions_eq := by
    rw [h'.productions_eq, h.productions_eq, Array.append_assoc, ← List.append_toArray]
  entries_eq := h'.entries_eq.trans h.entries_eq

/-- There is a nonterminal for every rule, nonterminals know their index, and no production mentions
one that does not exist. -/
structure Scoped (d : ProductionDraft) (count : Nat) : Prop where
  count_le : count ≤ d.nonterminals.size
  id_eq : ∀ (n : Nat) (found : Nonterminal), d.nonterminals[n]? = some found → found.id = n
  lhs_lt : ∀ p ∈ d.productions, p.lhs < d.nonterminals.size
  below : ∀ p ∈ d.productions, ∀ t ∈ p.body, t.Below d.nonterminals.size

/-- Nonterminals and productions are only added. -/
structure Grows (d d' : ProductionDraft) : Prop where
  size_le : d.nonterminals.size ≤ d'.nonterminals.size
  keeps_nonterminal : ∀ n < d.nonterminals.size, d'.nonterminals[n]? = d.nonterminals[n]?
  keeps : ∀ p ∈ d.productions, p ∈ d'.productions
  onlyDebug : d.OnlyDebug → d'.OnlyDebug

variable {count : Nat} {d d₁ d₂ : ProductionDraft}

theorem Grows.refl (d : ProductionDraft) : d.Grows d :=
  ⟨Nat.le_refl _, fun _ _ => rfl, fun _ hp => hp, fun h => h⟩

theorem Grows.trans (h : d.Grows d₁) (h' : d₁.Grows d₂) : d.Grows d₂ :=
  ⟨Nat.le_trans h.size_le h'.size_le,
    fun n hn => (h'.keeps_nonterminal n (Nat.lt_of_lt_of_le hn h.size_le)).trans
      (h.keeps_nonterminal n hn),
    fun p hp => h'.keeps p (h.keeps p hp), fun hdebug => h'.onlyDebug (h.onlyDebug hdebug)⟩

theorem Produces.grows {added : List Production} (h : d.Produces d₁ added) : d.Grows d₁ := by
  refine ⟨Nat.le_of_eq (by rw [h.nonterminals_eq]), fun n _ => by rw [h.nonterminals_eq],
    fun p hp => ?_, fun hdebug => ?_⟩
  · rw [h.productions_eq]
    exact Array.mem_append_left _ hp
  · rwa [OnlyDebug, h.entries_eq]

theorem Produces.mem_iff {added : List Production} (h : d.Produces d₁ added) {p : Production} :
    p ∈ d₁.productions ↔ p ∈ d.productions ∨ p ∈ added := by
  rw [h.productions_eq]
  simp

theorem Produces.inScope {added : List Production} (h : d.Produces d₁ added)
    (hscoped : d.Scoped count) (hlhs : ∀ p ∈ added, p.lhs < d.nonterminals.size)
    (hbody : ∀ p ∈ added, ∀ t ∈ p.body, t.Below d.nonterminals.size) : d₁.Scoped count := by
  constructor
  · rw [h.nonterminals_eq]
    exact hscoped.count_le
  · rw [h.nonterminals_eq]
    exact hscoped.id_eq
  · intro p hp
    rw [h.nonterminals_eq]
    exact (h.mem_iff.mp hp).elim (hscoped.lhs_lt p) (hlhs p)
  · intro p hp
    rw [h.nonterminals_eq]
    exact (h.mem_iff.mp hp).elim (hscoped.below p) (hbody p)

namespace Declares

variable {n : NonterminalId} {content : Content} {origin : NonterminalOrigin}

theorem size_eq (h : d.Declares d₁ n content origin) :
    d₁.nonterminals.size = d.nonterminals.size + 1 := by
  obtain ⟨name, hname⟩ := h.nonterminals_eq
  rw [hname, Array.size_push]

theorem lt_size (h : d.Declares d₁ n content origin) : n < d₁.nonterminals.size := by
  rw [h.index_eq, h.size_eq]
  exact Nat.lt_succ_self _

theorem grows (h : d.Declares d₁ n content origin) : d.Grows d₁ := by
  refine ⟨Nat.le_of_lt (h.size_eq ▸ Nat.lt_succ_self _), fun k hk => ?_,
    fun _ hp => h.productions_eq ▸ hp, h.onlyDebug⟩
  obtain ⟨name, hname⟩ := h.nonterminals_eq
  rw [hname, Array.getElem?_push_lt hk, Array.getElem?_eq_getElem hk]

theorem getElem?_eq (h : d.Declares d₁ n content origin) :
    ∃ name, d₁.nonterminals[n]? = some ⟨n, name, content, origin⟩ := by
  obtain ⟨name, hname⟩ := h.nonterminals_eq
  refine ⟨name, ?_⟩
  rw [hname, h.index_eq, Array.getElem?_push_size]

theorem content_eq (h : d.Declares d₁ n content origin) :
    (d₁.nonterminals.getD n default).content = content := by
  obtain ⟨name, hget⟩ := h.getElem?_eq
  rw [Array.getD_eq_getD_getElem?, hget]
  rfl

theorem inScope (h : d.Declares d₁ n content origin) (hscoped : d.Scoped count) :
    d₁.Scoped count := by
  have hle := h.grows.size_le
  refine ⟨Nat.le_trans hscoped.count_le hle, fun k found hk => ?_, fun p hp => ?_,
    fun p hp t ht => ?_⟩
  · obtain ⟨name, hname⟩ := h.nonterminals_eq
    rw [hname, Array.getElem?_push] at hk
    split at hk
    · rename_i heq
      cases hk
      exact h.index_eq.trans heq.symm
    · exact hscoped.id_eq k found hk
  · rw [h.productions_eq] at hp
    exact Nat.lt_of_lt_of_le (hscoped.lhs_lt p hp) hle
  · rw [h.productions_eq] at hp
    exact (hscoped.below p hp t ht).mono hle

end Declares

end ProductionDraft
end AnnotatedGrammar
