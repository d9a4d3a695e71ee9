import Mathlib.Data.Finset.Card
import AnnotatedGrammar.Proofs.Analysis.Footprint
import AnnotatedGrammar.Proofs.Lowering.Succeeds

/-!
# What a model keeps of a draft

A walk settles something about the model that is built in the end, provided that the model agrees
with the draft at the end of the walk on the cells that the walk touched. Later walks have other
footprints, so that the model still agrees on these cells.
-/

namespace AnnotatedGrammar

/-- The body of a rule that is analyzed when its value is needed. -/
def Scope.lazyBody? (sc : Scope) (roles : Array RuleRole) (r : RuleId) : Option Expr :=
  if (roles.getD r .passthrough).class?.isSome then none else (sc.rules[r]?).map (·.body)

/-- The expressions of a rule that is analyzed when its value is needed. -/
def Scope.lazyIds (sc : Scope) (roles : Array RuleRole) (r : RuleId) : List NodeId :=
  match sc.lazyBody? roles r with
  | some body => body.ids
  | none => []

/-- What a model keeps of a draft wherever it was: what names stand for, the values of rules, the
kinds and bases of classes, and the types of fields. Fields may become more general. -/
structure Keeps (strict : Prop) (m : GrammarModel) (sc : Scope) (roles : Array RuleRole)
    (d : Draft) : Prop where
  symbols_eq : m.symbols = sc.symbols
  owned : m.FieldsOwned
  role_value : ∀ r c, (roles.getD r .passthrough).class? = some c →
    (m.rule? r).bind (·.value) = some (.ofClass c)
  done_value : ∀ (r : RuleId) v, (roles.getD r .passthrough).class? = none →
    d.progress.getD r (.done none) = .done v → (m.rule? r).bind (·.value) = v
  no_rule : ∀ r, sc.rules[r]? = none → m.rule? r = none
  class_kept : ∀ c < d.classes.size, ∃ model, m.class? c = some model ∧
    model.kind = (d.classAt c).kind ∧ ∀ b, (d.classAt c).base = some b → model.base = some b
  field_kept : ∀ f < d.fields.size, ∃ model, m.field? f = some model ∧
    (d.fieldAt f).cardinality.rank ≤ model.cardinality.rank ∧
      (strict → model.element = (d.fieldAt f).element)

namespace Cell

/-- A model agrees with a draft on a cell. -/
def Tracked (strict : Prop) (m : GrammarModel) (d : Draft) : Cell → Prop
  | value id => ∀ v, d.nodeValues.get? id = some v →
    ∃ w, m.nodeValues.get? id = some w ∧ Option.Rel (Value.Agrees strict) v w
  | nodeClass id => m.nodeClasses.get? id = d.nodeClasses.get? id
  | filling c id => ∀ f, m.fieldFor? c id = some f →
    f.id < d.fields.size ∧ (d.fieldAt f.id).owner = c ∧ id ∈ (d.fieldAt f.id).nodes
  | variants c => ∀ model, m.class? c = some model → model.variants = (d.classAt c).variants

/-- The cell was touched by a run with a footprint: it lies in the footprint, or it belongs to a
rule or a class of which the run was the first to know. -/
structure Touched (bodies : RuleId → List NodeId) (S : Cell → Prop) (d d' : Draft)
    (cell : Cell) : Prop where
  old : cell.Old d'
  free : ¬cell.Reserved bodies d'
  cause : S cell ∨ cell.Visited bodies d d' ∨ ¬cell.Old d

end Cell

/-- A model agrees with a draft on a set of cells. -/
structure Tracks (strict : Prop) (m : GrammarModel) (sc : Scope) (roles : Array RuleRole)
    (d : Draft) (T : Cell → Prop) : Prop where
  keeps : Keeps strict m sc roles d
  cells : ∀ cell, T cell → cell.Tracked strict m d

section

variable {strict : Prop} {m : GrammarModel} {sc : Scope} {roles : Array RuleRole}
  {bodies : RuleId → List NodeId} {S S₁ S₂ T : Cell → Prop} {d d₁ d' : Draft}

theorem Tracks.mono {T' : Cell → Prop} (h : Tracks strict m sc roles d T)
    (hT : ∀ cell, T' cell → T cell) : Tracks strict m sc roles d T' :=
  ⟨h.keeps, fun cell hcell => h.cells cell (hT cell hcell)⟩

theorem Keeps.before (h : Keeps strict m sc roles d') (hframe : Frame bodies S d d') :
    Keeps strict m sc roles d where
  symbols_eq := h.symbols_eq
  owned := h.owned
  role_value := h.role_value
  done_value r v hrole hdone := by
    refine h.done_value r v hrole ?_
    rw [Array.getD_eq_getD_getElem?] at hdone ⊢
    by_cases hlt : r < d.progress.size
    · have hbefore := Array.getElem?_eq_getElem hlt
      rw [← hframe.progress_size] at hlt
      have hafter := Array.getElem?_eq_getElem hlt
      have hbecomes := hframe.progress r _ _ hbefore hafter
      rw [hbefore, Option.getD_some] at hdone
      rw [hafter, Option.getD_some]
      rw [hdone] at hbecomes
      generalize d'.progress[r] = p at hbecomes
      cases hbecomes
      rfl
    · have hge : d'.progress.size ≤ r := hframe.progress_size ▸ Nat.not_lt.mp hlt
      rw [Array.getElem?_eq_none (Nat.not_lt.mp hlt)] at hdone
      rw [Array.getElem?_eq_none hge]
      exact hdone
  no_rule := h.no_rule
  class_kept c hc := by
    obtain ⟨model, hmodel, hkind, hbase⟩ := h.class_kept c (Nat.lt_of_lt_of_le hc hframe.classes_le)
    exact ⟨model, hmodel, hkind.trans (hframe.kind_eq c hc),
      fun b hb => hbase b (hframe.base_eq c hc b hb)⟩
  field_kept f hf := by
    obtain ⟨model, hmodel, hrank, helement⟩ :=
      h.field_kept f (Nat.lt_of_lt_of_le hf hframe.fields_le)
    exact ⟨model, hmodel, Nat.le_trans (hframe.rank_le f hf) hrank,
      fun hstrict => (helement hstrict).trans (hframe.element_eq f hf)⟩

/-- A model that agrees with the end of a run on a cell agrees with its beginning there, if the
cell is no concern of the run. -/
theorem Cell.Tracked.before {cell : Cell} (h : cell.Tracked strict m d')
    (hframe : Frame bodies S d d') (hold : cell.Old d) (hS : ¬S cell)
    (hfree : ¬cell.Reserved bodies d) : cell.Tracked strict m d := by
  have hsame := hframe.same cell hold hS fun hvisited => hfree hvisited.1
  cases cell with
  | value id =>
    intro v hv
    exact h v (hsame.trans hv)
  | nodeClass id => exact h.trans hsame
  | filling c id =>
    intro f hf
    obtain ⟨hlt, howner, hid⟩ := h f hf
    obtain ⟨hlt', hid'⟩ := hsame f.id hlt howner hid
    exact ⟨hlt', (hframe.owner_eq f.id hlt').symm.trans howner, hid'⟩
  | variants c =>
    intro model hmodel
    exact (h model hmodel).trans hsame

/-! ## Runs that settle something -/

/-- Every declared type comes with the value that was recorded. -/
def Draft.Claimed (d : Draft) : Prop :=
  ∀ claim ∈ d.typeClaims, d.nodeValues.get? claim.node = some (some claim.value)

/-- The rules that are yet to be analyzed when their value is needed. -/
def Draft.waiting (sc : Scope) (roles : Array RuleRole) (d : Draft) : Finset RuleId :=
  (Finset.range d.progress.size).filter fun r =>
    d.progress[r]? = some .pending ∧ (sc.lazyBody? roles r).isSome = true

/-- Nothing was recorded of the expressions of the rules that wait. -/
def Draft.Untouched (bodies : RuleId → List NodeId) (d : Draft) : Prop :=
  ∀ id, d.Reserved bodies id → (Cell.value id).Fresh d ∧ (Cell.nodeClass id).Fresh d

/-- What has to hold of a draft before any walk; `bound` limits how many rules may wait. -/
structure Draft.Sound (sc : Scope) (roles : Array RuleRole) (bound : Nat) (d : Draft) : Prop where
  wellFormed : d.WellFormed
  unreported : d.Unreported
  claimed : d.Claimed
  untouched : d.Untouched (sc.lazyIds roles)
  roles_lt : ∀ r c, (roles.getD r .passthrough).class? = some c → c < d.classes.size
  waiting_lt : (d.waiting sc roles).card < bound

/-- Nothing happened to the cells of a footprint yet, and no rule is to touch them on the way. -/
def Draft.Open (bodies : RuleId → List NodeId) (S : Cell → Prop) (d : Draft) : Prop :=
  ∀ cell, S cell → cell.Fresh d ∧ ¬cell.Reserved bodies d ∧ cell.Old d

theorem Draft.Open.mono {S' : Cell → Prop} (h : d.Open bodies S)
    (hS : ∀ cell, S' cell → S cell) : d.Open bodies S' :=
  fun cell hcell => h cell (hS cell hcell)

/-- A cell that a run does not touch stays as it was. -/
theorem Frame.fresh {cell : Cell} (h : Frame bodies S d d') (hfresh : cell.Fresh d)
    (hS : ¬S cell) (hold : cell.Old d) (hfree : ¬cell.Reserved bodies d) : cell.Fresh d' := by
  have hsame := h.same cell hold hS fun hvisited => hfree hvisited.1
  cases cell with
  | value id =>
    intro claim hclaim
    rcases h.claims claim hclaim with hclaim | hclaim | hclaim
    · exact hfresh claim hclaim
    · rintro rfl
      exact hS hclaim
    · rintro rfl
      exact hfree hclaim.1
  | nodeClass id => exact hsame.trans hfresh
  | filling c id =>
    intro f hf howner hid
    obtain ⟨hlt, hid'⟩ := hsame f hf howner hid
    exact hfresh f hlt ((h.owner_eq f hlt).symm.trans howner) hid'
  | variants c => exact hsame.trans hfresh

/-- Cells outside the footprint of a run are as open after it as before. -/
theorem Draft.Open.after (h : d.Open bodies S) (hframe : Frame bodies S₁ d d')
    (hS : ∀ cell, S cell → ¬S₁ cell) : d'.Open bodies S := by
  intro cell hcell
  obtain ⟨hfresh, hfree, hold⟩ := h cell hcell
  exact ⟨hframe.fresh hfresh (hS cell hcell) hold hfree,
    fun hreserved => hfree (hframe.cell_reserved hreserved), hframe.cell_old hold⟩

theorem Frame.waiting_subset (h : Frame bodies S d d') :
    d'.waiting sc roles ⊆ d.waiting sc roles := by
  intro r hr
  rw [Draft.waiting, Finset.mem_filter, Finset.mem_range] at hr ⊢
  obtain ⟨hlt, hpending, hbody⟩ := hr
  rw [h.progress_size] at hlt
  have hbefore := Array.getElem?_eq_getElem hlt
  have hbecomes := h.progress r _ _ hbefore hpending
  refine ⟨hlt, ?_, hbody⟩
  rw [hbefore]
  generalize d.progress[r] = p at hbecomes
  cases hbecomes
  rfl

/-- A run that keeps to expressions of other rules touches none that waits. -/
theorem Draft.Untouched.after (h : d.Untouched bodies) (hframe : Frame bodies S d d')
    (hopen : ∀ cell, S cell → cell.Old d → ¬cell.Reserved bodies d) : d'.Untouched bodies := by
  intro id hid
  have hbefore := hframe.reserved hid
  obtain ⟨hvalue, hclass⟩ := h id hbefore
  have hvalueS : ¬S (.value id) := fun hS => hopen _ hS trivial hbefore
  have hclassS : ¬S (.nodeClass id) := fun hS => hopen _ hS trivial hbefore
  refine ⟨fun claim hclaim => ?_, ?_⟩
  · rcases hframe.claims claim hclaim with hclaim | hclaim | hclaim
    · exact hvalue claim hclaim
    · rintro rfl
      exact hvalueS hclaim
    · rintro rfl
      exact hclaim.2 hid
  · exact (hframe.same (.nodeClass id) trivial hclassS fun hvisited => hvisited.2 hid).trans hclass

/-- A draft stays sound. -/
theorem Draft.Sound.after {bound : Nat} (h : d.Sound sc roles bound)
    (hframe : Frame (sc.lazyIds roles) S d d') (hopen : ∀ cell, S cell →
      cell.Old d → ¬cell.Reserved (sc.lazyIds roles) d)
    (herrors : d'.errors = #[]) (hclaimed : d'.Claimed) : d'.Sound sc roles bound where
  wellFormed := hframe.wellFormed h.wellFormed
  unreported := hframe.unreported (fun _ => h.unreported) herrors
  claimed := hclaimed
  untouched := h.untouched.after hframe hopen
  roles_lt r c hrole := Nat.lt_of_lt_of_le (h.roles_lt r c hrole) hframe.classes_le
  waiting_lt := Nat.lt_of_le_of_lt (Finset.card_le_card hframe.waiting_subset) h.waiting_lt

end

/-- The rules that were analyzed between two drafts are settled. -/
def RulesSettled (strict : Prop) (m : GrammarModel) (sc : Scope) (roles : Array RuleRole)
    (d d' : Draft) : Prop :=
  ∀ (r : RuleId) body, sc.lazyBody? roles r = some body → d.progress[r]? = some .pending →
    d'.progress[r]? ≠ some .pending →
      ∃ v, d'.progress[r]? = some (.done v) ∧ Settled.Element strict m false body v

/-- Of the classes that were made for expressions between two drafts, a model says that these
expressions build them. -/
def ClassesPlaced (m : GrammarModel) (d d' : Draft) : Prop :=
  ∀ c, d.classes.size ≤ c → c < d'.classes.size → ∀ b,
    ((d'.classAt c).origin = .node b ∨ (d'.classAt c).origin = .synthesized b) →
      m.nodeClasses.get? b = some c

theorem ClassesPlaced.of_size_le {m : GrammarModel} {d d' : Draft}
    (h : d'.classes.size ≤ d.classes.size) : ClassesPlaced m d d' :=
  fun _ hge hlt => absurd (Nat.lt_of_lt_of_le hlt h) (Nat.not_lt.mpr hge)

theorem ClassesPlaced.trans {m : GrammarModel} {bodies : RuleId → List NodeId} {S : Cell → Prop}
    {d d₁ d' : Draft} (h₁ : ClassesPlaced m d d₁) (h₂ : ClassesPlaced m d₁ d')
    (hframe : Frame bodies S d₁ d') : ClassesPlaced m d d' := by
  intro c hge hlt
  by_cases hbetween : c < d₁.classes.size
  · rw [hframe.origin_eq c hbetween]
    exact h₁ c hge hbetween
  · exact h₂ c (Nat.not_lt.mp hbetween) hlt

/-- A run that settles something about any model that agrees with its end on the cells it
touched. -/
structure Settles (strict : Prop) (m : GrammarModel) (sc : Scope) (roles : Array RuleRole)
    (S : Cell → Prop) (P : Prop) (d d' : Draft) : Prop where
  frame : Frame (sc.lazyIds roles) S d d'
  claimed : d'.Claimed
  tagged : ∀ c, d.classes.size ≤ c → c < d'.classes.size → (d'.classAt c).kind = .tagged →
    (d'.classAt c).variants ≠ []
  settled : Tracks strict m sc roles d' (Cell.Touched (sc.lazyIds roles) S d d') →
    P ∧ RulesSettled strict m sc roles d d' ∧ ClassesPlaced m d d'

namespace Settles

variable {strict : Prop} {m : GrammarModel} {sc : Scope} {roles : Array RuleRole}
  {S S₁ S₂ : Cell → Prop} {P P₁ P₂ : Prop} {d d₁ d' : Draft}

theorem imp (h : Settles strict m sc roles S P₁ d d')
    (himp : Tracks strict m sc roles d' (Cell.Touched (sc.lazyIds roles) S d d') → P₁ → P₂) :
    Settles strict m sc roles S P₂ d d' :=
  ⟨h.frame, h.claimed, h.tagged, fun htracks =>
    ⟨himp htracks (h.settled htracks).1, (h.settled htracks).2⟩⟩

theorem mono (h : Settles strict m sc roles S₁ P d d')
    (hS : ∀ cell : Cell, cell.Old d → S₁ cell → S cell) : Settles strict m sc roles S P d d' := by
  refine ⟨h.frame.mono hS, h.claimed, h.tagged, fun htracks => h.settled (htracks.mono ?_)⟩
  rintro cell ⟨hold, hfree, hcause⟩
  refine ⟨hold, hfree, ?_⟩
  rcases hcause with hcell | hcause
  · by_cases hbefore : cell.Old d
    · exact .inl (hS cell hbefore hcell)
    · exact .inr (.inr hbefore)
  · exact .inr hcause

/-- Two runs with disjoint footprints one after the other. -/
theorem seq (h₁ : Settles strict m sc roles S₁ P₁ d d₁) (h₂ : Settles strict m sc roles S₂ P₂ d₁ d')
    (hopen : d.Open (sc.lazyIds roles) S) (hS₁ : ∀ cell, S₁ cell → S cell)
    (hS₂ : ∀ cell, S₂ cell → S cell) (hdisjoint : ∀ cell, S₁ cell → ¬S₂ cell) :
    Settles strict m sc roles S (P₁ ∧ P₂) d d' where
  frame := h₁.frame.comp h₂.frame (fun cell _ => hS₁ cell) fun cell _ => hS₂ cell
  claimed := h₂.claimed
  tagged c hge hlt hkind := by
    by_cases hbetween : c < d₁.classes.size
    · rw [h₂.frame.kind_eq c hbetween] at hkind
      exact h₂.frame.variants_ne c hbetween (h₁.tagged c hge hbetween hkind)
    · exact h₂.tagged c (Nat.not_lt.mp hbetween) hlt hkind
  settled htracks := by
    have htracks₂ : Tracks strict m sc roles d' (Cell.Touched (sc.lazyIds roles) S₂ d₁ d') := by
      refine htracks.mono ?_
      rintro cell ⟨hold, hfree, hcause⟩
      refine ⟨hold, hfree, ?_⟩
      rcases hcause with hcell | hvisited | hnew
      · exact .inl (hS₂ cell hcell)
      · exact .inr (.inl ⟨h₁.frame.cell_reserved hvisited.1, hvisited.2⟩)
      · exact .inr (.inr fun hbefore => hnew (h₁.frame.cell_old hbefore))
    have htracks₁ : Tracks strict m sc roles d₁ (Cell.Touched (sc.lazyIds roles) S₁ d d₁) := by
      refine ⟨htracks.keeps.before h₂.frame, ?_⟩
      rintro cell ⟨hold, hfree, hcause⟩
      have hfree' : ¬cell.Reserved (sc.lazyIds roles) d' :=
        fun hreserved => hfree (h₂.frame.cell_reserved hreserved)
      have hnot : ¬S₂ cell := by
        rcases hcause with hcell | hvisited | hnew
        · exact hdisjoint cell hcell
        · exact fun hcell => (hopen cell (hS₂ cell hcell)).2.1 hvisited.1
        · exact fun hcell => hnew (hopen cell (hS₂ cell hcell)).2.2
      refine (htracks.cells cell ⟨h₂.frame.cell_old hold, hfree', ?_⟩).before
        h₂.frame hold hnot hfree
      rcases hcause with hcell | hvisited | hnew
      · exact .inl (hS₁ cell hcell)
      · exact .inr (.inl ⟨hvisited.1, hfree'⟩)
      · exact .inr (.inr hnew)
    obtain ⟨hP₁, hrules₁, hplaced₁⟩ := h₁.settled htracks₁
    obtain ⟨hP₂, hrules₂, hplaced₂⟩ := h₂.settled htracks₂
    refine ⟨⟨hP₁, hP₂⟩, fun r body hbody hpending hafter => ?_, hplaced₁.trans hplaced₂ h₂.frame⟩
    by_cases hbetween : d₁.progress[r]? = some .pending
    · exact hrules₂ r body hbody hbetween hafter
    · obtain ⟨v, hdone, helement⟩ := hrules₁ r body hbody hpending hbetween
      refine ⟨v, ?_, helement⟩
      obtain ⟨hlt, -⟩ := Array.getElem?_eq_some_iff.mp hdone
      rw [← h₂.frame.progress_size] at hlt
      have hget := Array.getElem?_eq_getElem hlt
      have hbecomes := h₂.frame.progress r _ _ hdone hget
      rw [hget]
      generalize d'.progress[r] = p at hbecomes
      cases hbecomes
      rfl

/-- A run that analyzes no rule and makes no class with variants. -/
theorem ofQuiet (h : Quiet S d d') (hclaimed : d'.Claimed)
    (htagged : ∀ c, d.classes.size ≤ c → c < d'.classes.size → (d'.classAt c).kind = .tagged →
      (d'.classAt c).variants ≠ [])
    (hplaced : Tracks strict m sc roles d' (Cell.Touched (sc.lazyIds roles) S d d') →
      ClassesPlaced m d d')
    (hsettled : Tracks strict m sc roles d' (Cell.Touched (sc.lazyIds roles) S d d') → P) :
    Settles strict m sc roles S P d d' where
  frame := h.frame _
  claimed := hclaimed
  tagged := htagged
  settled htracks := by
    refine ⟨hsettled htracks, fun r body _ hpending hafter => absurd ?_ hafter, hplaced htracks⟩
    rw [h.progress_eq]
    exact hpending

/-- A run in front of which classes are made. -/
theorem before (h₁ : Quiet S₁ d d₁) (h₂ : Settles strict m sc roles S₂ P d₁ d')
    (hS₁ : ∀ cell : Cell, cell.Old d → S₁ cell → S cell)
    (hS₂ : ∀ cell : Cell, cell.Old d → S₂ cell → S cell)
    (htagged : ∀ c, d.classes.size ≤ c → c < d₁.classes.size → (d₁.classAt c).kind ≠ .tagged)
    (hplaced : Tracks strict m sc roles d' (Cell.Touched (sc.lazyIds roles) S d d') →
      ClassesPlaced m d d₁) :
    Settles strict m sc roles S P d d' where
  frame := (h₁.frame _).comp h₂.frame hS₁ hS₂
  claimed := h₂.claimed
  tagged c hge hlt hkind := by
    by_cases hbetween : c < d₁.classes.size
    · rw [h₂.frame.kind_eq c hbetween] at hkind
      exact absurd hkind (htagged c hge hbetween)
    · exact h₂.tagged c (Nat.not_lt.mp hbetween) hlt hkind
  settled htracks := by
    have hframe := h₁.frame (sc.lazyIds roles)
    have htracks₂ : Tracks strict m sc roles d' (Cell.Touched (sc.lazyIds roles) S₂ d₁ d') := by
      refine htracks.mono ?_
      rintro cell ⟨hold, hfree, hcause⟩
      refine ⟨hold, hfree, ?_⟩
      rcases hcause with hcell | hvisited | hnew
      · by_cases hbefore : cell.Old d
        · exact .inl (hS₂ cell hbefore hcell)
        · exact .inr (.inr hbefore)
      · exact .inr (.inl ⟨hframe.cell_reserved hvisited.1, hvisited.2⟩)
      · exact .inr (.inr fun hbefore => hnew (hframe.cell_old hbefore))
    obtain ⟨hP, hrules, hlater⟩ := h₂.settled htracks₂
    refine ⟨hP, fun r body hbody hpending hafter => hrules r body hbody ?_ hafter,
      (hplaced htracks).trans hlater h₂.frame⟩
    rw [h₁.progress_eq]
    exact hpending

end Settles

/-- A quiet run that records no value declares no type. -/
theorem Quiet.claimed {S : Cell → Prop} {d d' : Draft} (h : Quiet S d d') (hclaimed : d.Claimed)
    (hS : ∀ id, ¬S (.value id)) : d'.Claimed := by
  intro claim hclaim
  have hsame : (Cell.value claim.node).Same d d' := h.same trivial (hS _)
  rcases h.plain.claims claim hclaim with hclaim | hclaim | hclaim
  · exact hsame.trans (hclaimed claim hclaim)
  · exact absurd hclaim (hS _)
  · obtain ⟨_, -, hid⟩ := hclaim.1
    cases hid

end AnnotatedGrammar
