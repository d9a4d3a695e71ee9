import Mathlib
import AnnotatedGrammar.Proofs.Appearance
import AnnotatedGrammar.Proofs.Token.Catalog

/-!
# What a token catalog lists

A catalog lists the terminals of a production set, each of them once, and looking up a terminal
finds its entry. The literals come first, the longer ones before the shorter ones and equally long
ones in the order in which they appear; the patterns come in their fixed order.
-/

namespace AnnotatedGrammar

namespace ProductionSet

/-- A terminal stands in the body of a production. -/
def Occurs (set : ProductionSet) (t : Terminal) : Prop :=
  ∃ p ∈ set.productions, Term.terminal t ∈ p.body

/-- The place of the first occurrence of a terminal among all terms, in the order of the
productions. -/
def firstPlace (set : ProductionSet) (t : Terminal) : Nat :=
  (set.productions.toList.flatMap (·.body)).idxOf (.terminal t)

theorem terminal?_eq_some {term : Term} {t : Terminal} :
    term.terminal? = some t ↔ term = .terminal t := by
  cases term <;> simp [Term.terminal?]

theorem mem_terminals {set : ProductionSet} {t : Terminal} : t ∈ set.terminals ↔ set.Occurs t := by
  simp [terminals, Occurs, List.mem_eraseDups, terminal?_eq_some]

/-- The terminals are listed in the order in which they appear. -/
theorem pairwise_terminals (set : ProductionSet) :
    set.terminals.Pairwise fun s t => set.firstPlace s < set.firstPlace t := by
  refine (pairwise_eraseDups _).imp fun h => ?_
  exact idxOf_lt_of_filterMap
    (fun hx hy => (terminal?_eq_some.mp hx).trans (terminal?_eq_some.mp hy).symm) rfl rfl h

end ProductionSet

namespace TokenEntry

/-- The pattern of an entry. -/
def pattern? (e : TokenEntry) : Option Pattern :=
  match e.terminal with
  | .literal _ => none
  | .pattern p => some p

theorem describeTerminal_injective : Function.Injective describeTerminal := by
  have hquote (text : String) : (describeTerminal (.literal text)).toList.head? = some '\'' := by
    simp [describeTerminal]
  have hbracket (p : Pattern) : (describeTerminal (.pattern p)).toList.head? = some '<' := by
    simp [describeTerminal, Pattern.display]
  intro s t h
  have hhead := congrArg (fun s : String => s.toList.head?) h
  cases s <;> cases t
  case literal.literal text other =>
    have hlist := congrArg String.toList h
    simp only [describeTerminal, String.toList_append, List.append_cancel_right_eq,
      List.append_cancel_left_eq] at hlist
    rw [String.toList_inj.mp hlist]
  case pattern.pattern p q =>
    revert h
    cases p <;> cases q <;> decide
  all_goals
    simp only [hquote, hbracket] at hhead
    cases hhead

end TokenEntry

namespace TokenCatalog

variable {terminals : List Terminal}

theorem map_terminal_literalEntries (taken texts : List String) :
    (literalEntries taken texts).map (·.terminal) = texts.map .literal := by
  induction texts generalizing taken with
  | nil => rfl
  | cons text rest ih => rw [literalEntries, List.map_cons, List.map_cons, ih]

/-- The entries stand for the literals and then for the patterns. -/
theorem map_terminal_ofTerminals (terminals : List Terminal) :
    (ofTerminals terminals).entries.map (·.terminal) =
      (literals terminals).map .literal ++ (patterns terminals).map .pattern := by
  rw [ofTerminals, List.map_append, map_terminal_literalEntries, List.map_map]
  rfl

theorem mem_literals {text : String} : text ∈ literals terminals ↔ .literal text ∈ terminals := by
  rw [literals, List.mem_mergeSort, List.mem_filterMap]
  constructor
  · rintro ⟨t | p, ht, htext⟩
    · cases htext
      exact ht
    · cases htext
  · exact fun h => ⟨_, h, rfl⟩

theorem mem_patterns {p : Pattern} : p ∈ patterns terminals ↔ .pattern p ∈ terminals := by
  rw [patterns, List.mem_filter, List.contains_iff_mem, and_iff_right]
  cases p <;> decide

/-- There is an entry for a terminal just if it is one of those given. -/
theorem mem_map_terminal_ofTerminals {t : Terminal} :
    t ∈ (ofTerminals terminals).entries.map (·.terminal) ↔ t ∈ terminals := by
  rw [map_terminal_ofTerminals, List.mem_append, List.mem_map, List.mem_map]
  cases t <;> simp [mem_literals, mem_patterns]

theorem literals_nodup (h : terminals.Nodup) : (literals terminals).Nodup := by
  refine (List.mergeSort_perm _ _).nodup_iff.mpr (h.filterMap fun s t text hs ht => ?_)
  cases s <;> cases t <;> simp_all

theorem patterns_nodup : (patterns terminals).Nodup :=
  List.Nodup.filter _ (by decide)

/-- No terminal has two entries. -/
theorem terminals_nodup (h : terminals.Nodup) :
    ((ofTerminals terminals).entries.map (·.terminal)).Nodup := by
  rw [map_terminal_ofTerminals, List.nodup_append]
  refine ⟨(literals_nodup h).map fun _ _ => Terminal.literal.inj,
    patterns_nodup.map fun _ _ => Terminal.pattern.inj, ?_⟩
  simp

theorem mem_of_find? {t : Terminal} {e : TokenEntry}
    (h : (ofTerminals terminals).find? t = some e) :
    e ∈ (ofTerminals terminals).entries ∧ e.terminal = t := by
  have hfound := List.find?_some (p := fun e : TokenEntry => e.terminal == t) h
  exact ⟨List.mem_of_find?_eq_some h, beq_iff_eq.mp hfound⟩

/-- A look-up finds the entry of a terminal, and only that. -/
theorem find?_eq_some_iff (h : terminals.Nodup) {t : Terminal} {e : TokenEntry} :
    (ofTerminals terminals).find? t = some e ↔
      e ∈ (ofTerminals terminals).entries ∧ e.terminal = t := by
  refine ⟨mem_of_find?, ?_⟩
  rintro ⟨he, rfl⟩
  cases hfind : (ofTerminals terminals).find? e.terminal with
  | none => exact absurd (beq_self_eq_true _) (List.find?_eq_none.mp hfind e he)
  | some found =>
    obtain ⟨hmem, hterminal⟩ := mem_of_find? hfind
    rw [List.inj_on_of_nodup_map (terminals_nodup h) hmem he hterminal]

theorem lookup_eq_ok_iff (h : terminals.Nodup) {term : Term} {e : TokenEntry} :
    (ofTerminals terminals).lookup term = .ok e ↔
      e ∈ (ofTerminals terminals).entries ∧ term = .terminal e.terminal := by
  cases term with
  | nonterminal n => simp [lookup]
  | terminal t =>
    rw [Term.terminal.injEq, eq_comm (a := t), ← find?_eq_some_iff h, lookup]
    cases (ofTerminals terminals).find? t <;> simp

/-! ## Literals and patterns apart -/

theorem lexeme?_isSome_literalEntries {taken texts : List String} :
    ∀ e ∈ literalEntries taken texts, e.lexeme?.isSome := by
  induction texts generalizing taken with
  | nil => exact fun e he => absurd he List.not_mem_nil
  | cons text rest ih => exact List.forall_mem_cons.mpr ⟨rfl, ih⟩

/-- No literal stands behind a pattern. -/
theorem pairwise_entries (terminals : List Terminal) :
    (ofTerminals terminals).entries.Pairwise fun a b => b.lexeme?.isSome → a.lexeme?.isSome := by
  refine List.pairwise_append.mpr ⟨?_, ?_, fun a ha _ _ _ => lexeme?_isSome_literalEntries a ha⟩
  · exact List.pairwise_of_forall_mem_list fun a ha _ _ _ => lexeme?_isSome_literalEntries a ha
  · exact List.pairwise_map.mpr (List.pairwise_of_forall fun _ _ h => by cases h)

theorem filterMap_lexeme?_ofTerminals (terminals : List Terminal) :
    (ofTerminals terminals).entries.filterMap TokenEntry.lexeme? = literals terminals := by
  have hliterals (taken texts : List String) :
      (literalEntries taken texts).filterMap TokenEntry.lexeme? = texts := by
    induction texts generalizing taken with
    | nil => rfl
    | cons text rest ih => exact congrArg (text :: ·) (ih _)
  rw [ofTerminals, List.filterMap_append, hliterals, List.filterMap_map,
    List.append_right_eq_self, List.filterMap_eq_nil_iff]
  exact fun p _ => rfl

theorem filterMap_pattern?_ofTerminals (terminals : List Terminal) :
    (ofTerminals terminals).entries.filterMap TokenEntry.pattern? = patterns terminals := by
  have hliterals (taken texts : List String) :
      (literalEntries taken texts).filterMap TokenEntry.pattern? = [] := by
    induction texts generalizing taken with
    | nil => rfl
    | cons text rest ih => exact ih _
  rw [ofTerminals, List.filterMap_append, hliterals, List.nil_append, List.filterMap_map]
  exact List.filterMap_some

/-- Literals are sorted by their lengths, and equally long ones by where they appear. -/
theorem pairwise_literals {place : Terminal → Nat}
    (h : terminals.Pairwise fun s t => place s < place t) :
    (literals terminals).Pairwise fun a b => b.length ≤ a.length ∧
      (a.length = b.length → place (.literal a) < place (.literal b)) := by
  have hplaces : (terminals.filterMap fun
      | .literal text => some text
      | .pattern _ => none).Pairwise fun a b => place (.literal a) < place (.literal b) := by
    refine List.pairwise_filterMap.mpr (h.imp fun {s t} hlt a ha b hb => ?_)
    cases s <;> cases ha
    cases t <;> cases hb
    exact hlt
  have hsorted := pairwise_mergeSort_of_pairwise (fun a b : String => b.length ≤ a.length)
    (fun a b c hab hbc => by simp only [decide_eq_true_eq] at *; omega)
    (fun a b => by simp only [Bool.or_eq_true, decide_eq_true_eq]; omega) hplaces
  refine hsorted.imp fun {a b} hab => ?_
  simp only [decide_eq_true_eq] at hab
  exact ⟨hab.1, fun heq => hab.2 (Nat.le_of_eq heq)⟩

/-- A catalog lists the terminals of a production set and finds them again. -/
structure Indexes (catalog : TokenCatalog) (set : ProductionSet) : Prop where
  /-- What occurs has an entry, and nothing else has. -/
  occurs_iff : ∀ t, set.Occurs t ↔ ∃ e ∈ catalog.entries, e.terminal = t
  /-- No terminal has two entries. -/
  terminals : (catalog.entries.map (·.terminal)).Nodup
  /-- Looking up a term gives its entry, if it is a terminal that has one. -/
  lookup : ∀ term e, catalog.lookup term = .ok e ↔
    e ∈ catalog.entries ∧ term = .terminal e.terminal
  /-- No two tokens have the same name. -/
  names : (catalog.entries.map (·.name)).Nodup
  /-- No two tokens read the same in a grammar. -/
  aliases : (catalog.entries.map TokenEntry.describe).Nodup
  /-- No literal comes behind a pattern. -/
  literals_first : catalog.entries.Pairwise fun a b => b.lexeme?.isSome → a.lexeme?.isSome
  /-- No literal comes behind a shorter one, nor behind an equally long one that appears later. -/
  literals_sorted : (catalog.entries.filterMap TokenEntry.lexeme?).Pairwise fun a b =>
    b.length ≤ a.length ∧
      (a.length = b.length → set.firstPlace (.literal a) < set.firstPlace (.literal b))
  /-- Patterns keep the order in which they are listed to users. -/
  patterns : (catalog.entries.filterMap TokenEntry.pattern?).Sublist Pattern.all

/-- The catalog of a production set lists its terminals, each of them once, and finds them. -/
theorem ofProductions_indexes (set : ProductionSet) : (ofProductions set).Indexes set := by
  have hplaces := set.pairwise_terminals
  have hnodup : set.terminals.Nodup := hplaces.imp fun h => by rintro rfl; exact Nat.lt_irrefl _ h
  have hterminals := terminals_nodup hnodup
  refine ⟨fun t => ?_, hterminals, fun _ _ => lookup_eq_ok_iff hnodup, names_nodup _, ?_,
    pairwise_entries _, ?_, ?_⟩
  · rw [← ProductionSet.mem_terminals, ← mem_map_terminal_ofTerminals, List.mem_map]
    rfl
  · have haliases := hterminals.map TokenEntry.describeTerminal_injective
    rwa [List.map_map] at haliases
  · rw [ofProductions, filterMap_lexeme?_ofTerminals]
    exact pairwise_literals hplaces
  · rw [ofProductions, filterMap_pattern?_ofTerminals]
    exact List.filter_sublist

end TokenCatalog
end AnnotatedGrammar
