import AnnotatedGrammar.Model.Analysis
import AnnotatedGrammar.Proofs.Syntax.Numbered

/-!
# What a run of the analysis leaves alone

Everything that the analysis knows about one expression, one class or one expression in one class is
a cell. A run from one draft to another has a footprint, the cells that it may change. Everything
else stays as it is, apart from the rules whose bodies are analyzed on the way and the classes made
on the way.
-/

namespace AnnotatedGrammar

namespace Build

variable {α β : Type} {d d' : Draft}

@[simp] theorem pure_eq {a b : α} : (pure a : Build α) d = (b, d') ↔ a = b ∧ d = d' := by
  change ((a, d) : α × Draft) = (b, d') ↔ _
  simp

@[simp] theorem bind_eq {x : Build α} {f : α → Build β} {b : β} :
    (x >>= f) d = (b, d') ↔ ∃ a d₁, x d = (a, d₁) ∧ f a d₁ = (b, d') := by
  change (f (x d).1 (x d).2 : β × Draft) = (b, d') ↔ _
  constructor
  · intro h
    exact ⟨_, _, rfl, h⟩
  · rintro ⟨a, d₁, hx, h⟩
    rw [hx]
    exact h

@[simp] theorem map_eq {x : Build α} {f : α → β} {b : β} :
    (f <$> x) d = (b, d') ↔ ∃ a, x d = (a, d') ∧ f a = b := by
  change ((f (x d).1, (x d).2) : β × Draft) = (b, d') ↔ _
  constructor
  · intro h
    cases h
    exact ⟨_, rfl, rfl⟩
  · rintro ⟨a, hx, rfl⟩
    rw [hx]

@[simp] theorem get_eq {a : Draft} : (get : Build Draft) d = (a, d') ↔ d = a ∧ d = d' := by
  change ((d, d) : Draft × Draft) = (a, d') ↔ _
  simp

@[simp] theorem modify_eq {f : Draft → Draft} {u : Unit} :
    (modify f : Build Unit) d = (u, d') ↔ f d = d' := by
  change (((), f d) : Unit × Draft) = (u, d') ↔ _
  simp

@[simp] theorem discard_eq {x : Build α} {u : PUnit} :
    (discard x : Build PUnit) d = (u, d') ↔ ∃ a, x d = (a, d') := by
  change (Function.const α PUnit.unit <$> x) d = (u, d') ↔ _
  simp

end Build

/-- How the progress of a rule may go on. -/
inductive RuleProgress.MayBecome : RuleProgress → RuleProgress → Prop
  | same (p : RuleProgress) : MayBecome p p
  | analyzed (value : Option Value) : MayBecome .pending (.done value)
  | reported : MayBecome (.inProgress false) (.inProgress true)

theorem RuleProgress.MayBecome.trans {p p' p'' : RuleProgress} (h : p.MayBecome p')
    (h' : p'.MayBecome p'') : p.MayBecome p'' := by
  cases h with
  | same => exact h'
  | analyzed value =>
    cases h'
    exact .analyzed value
  | reported =>
    cases h'
    exact .reported

theorem Cardinality.rank_le_max (a b : Cardinality) :
    a.rank ≤ (a.max b).rank ∧ b.rank ≤ (a.max b).rank := by
  unfold max
  split <;> omega

theorem Cardinality.rank_le_list (a : Cardinality) : a.rank ≤ Cardinality.list.rank := by
  cases a <;> decide

/-- A piece of what is known while rules are analyzed: the value of an expression, the class it
builds, whether it fills a field of a class, and the variants of a class. -/
inductive Cell
  | value (id : NodeId)
  | nodeClass (id : NodeId)
  | filling (c : ClassId) (id : NodeId)
  | variants (c : ClassId)

namespace Draft

/-- The fields of a draft have their index and belong to classes, and a class has fields of its
own. -/
structure WellFormed (d : Draft) : Prop where
  field_id : ∀ f < d.fields.size, (d.fieldAt f).id = f
  owner_lt : ∀ f < d.fields.size, (d.fieldAt f).owner < d.classes.size
  owner_eq : ∀ c < d.classes.size, ∀ f ∈ (d.classAt c).fields,
    f < d.fields.size ∧ (d.fieldAt f).owner = c

/-- The log was told nothing but details. -/
def OnlyDebug (d : Draft) : Prop := ∀ e ∈ d.entries, e.level = .debug

theorem OnlyDebug.report {d : Draft} (h : d.OnlyDebug) (reported : Bool) (message : String)
    (values : List (String × String)) :
    ∀ e ∈ (if reported then d.entries.push (Log.Entry.debug message values) else d.entries),
      e.level = .debug := by
  intro e he
  split at he
  · rcases Array.mem_push.mp he with he | rfl
    · exact h e he
    · rfl
  · exact h e he

/-- No rule was found to need its own value. -/
def Unreported (d : Draft) : Prop := ∀ r : RuleId, d.progress[r]? ≠ some (.inProgress true)

variable (bodies : RuleId → List NodeId)

/-- An expression belongs to a rule that is analyzed when it is needed, and was not needed yet. -/
def Reserved (d : Draft) (id : NodeId) : Prop :=
  ∃ r, d.progress[r]? = some .pending ∧ id ∈ bodies r

end Draft

namespace Cell

variable (bodies : RuleId → List NodeId)

/-- The cell is about an expression that is reserved. -/
def Reserved (d : Draft) : Cell → Prop
  | value id | nodeClass id | filling _ id => d.Reserved bodies id
  | variants _ => False

/-- The cell is not about a class that is yet to come. -/
def Old (d : Draft) : Cell → Prop
  | value _ | nodeClass _ => True
  | filling c _ | variants c => c < d.classes.size

/-- Nothing is in the cell; no type was declared for the value in it. -/
def Fresh (d : Draft) : Cell → Prop
  | value id => ∀ claim ∈ d.typeClaims, claim.node ≠ id
  | nodeClass id => d.nodeClasses.get? id = none
  | filling c id => ∀ f < d.fields.size, (d.fieldAt f).owner = c → id ∉ (d.fieldAt f).nodes
  | variants c => (d.classAt c).variants = []

/-- Nothing was put into the cell, apart from fields that expressions filled before. -/
def Same (d d' : Draft) : Cell → Prop
  | value id => d'.nodeValues.get? id = d.nodeValues.get? id
  | nodeClass id => d'.nodeClasses.get? id = d.nodeClasses.get? id
  | filling c id => ∀ f < d'.fields.size, (d'.fieldAt f).owner = c → id ∈ (d'.fieldAt f).nodes →
    f < d.fields.size ∧ id ∈ (d.fieldAt f).nodes
  | variants c => (d'.classAt c).variants = (d.classAt c).variants

/-- The cell belongs to a rule that was analyzed between two drafts. -/
def Visited (d d' : Draft) (cell : Cell) : Prop :=
  cell.Reserved bodies d ∧ ¬cell.Reserved bodies d'

end Cell

/-- What holds of every run from one draft to another that changes the cells of a footprint: what is
there stays, errors are not taken back, and cells outside the footprint keep their content. -/
structure Frame (bodies : RuleId → List NodeId) (S : Cell → Prop) (d d' : Draft) : Prop where
  errors_eq : d'.errors = #[] → d.errors = #[]
  wellFormed : d.WellFormed → d'.WellFormed
  unreported : (d.errors = #[] → d.Unreported) → d'.errors = #[] → d'.Unreported
  onlyDebug : d.OnlyDebug → d'.OnlyDebug
  progress_size : d'.progress.size = d.progress.size
  progress : ∀ (r : RuleId) p p', d.progress[r]? = some p → d'.progress[r]? = some p' →
    p.MayBecome p'
  classes_le : d.classes.size ≤ d'.classes.size
  fields_le : d.fields.size ≤ d'.fields.size
  kind_eq : ∀ c < d.classes.size, (d'.classAt c).kind = (d.classAt c).kind
  origin_eq : ∀ c < d.classes.size, (d'.classAt c).origin = (d.classAt c).origin
  base_eq : ∀ c < d.classes.size, ∀ b, (d.classAt c).base = some b → (d'.classAt c).base = some b
  variants_ne : ∀ c < d.classes.size, (d.classAt c).variants ≠ [] → (d'.classAt c).variants ≠ []
  owner_eq : ∀ f < d.fields.size, (d'.fieldAt f).owner = (d.fieldAt f).owner
  element_eq : ∀ f < d.fields.size, (d'.fieldAt f).element = (d.fieldAt f).element
  rank_le : ∀ f < d.fields.size, (d.fieldAt f).cardinality.rank ≤ (d'.fieldAt f).cardinality.rank
  same : ∀ cell : Cell, cell.Old d → ¬S cell → ¬cell.Visited bodies d d' → cell.Same d d'
  claims : ∀ claim ∈ d'.typeClaims, claim ∈ d.typeClaims ∨ S (.value claim.node) ∨
    (Cell.value claim.node).Visited bodies d d'

namespace Frame

variable {bodies : RuleId → List NodeId} {S S' : Cell → Prop} {d d' d'' : Draft}

theorem reserved (h : Frame bodies S d d') {id : NodeId} (hid : d'.Reserved bodies id) :
    d.Reserved bodies id := by
  obtain ⟨r, hr, hmem⟩ := hid
  obtain ⟨hlt, -⟩ := Array.getElem?_eq_some_iff.mp hr
  rw [h.progress_size] at hlt
  have hbefore := Array.getElem?_eq_getElem hlt
  have hbecomes := h.progress r _ _ hbefore hr
  refine ⟨r, ?_, hmem⟩
  rw [hbefore]
  generalize d.progress[r] = p at hbecomes
  cases hbecomes
  rfl

theorem cell_reserved (h : Frame bodies S d d') {cell : Cell} (hcell : cell.Reserved bodies d') :
    cell.Reserved bodies d := by
  cases cell with
  | value | nodeClass | filling => exact h.reserved hcell
  | variants => exact hcell

theorem cell_old (h : Frame bodies S d d') {cell : Cell} (hcell : cell.Old d) : cell.Old d' := by
  cases cell with
  | value | nodeClass => trivial
  | filling | variants => exact Nat.lt_of_lt_of_le hcell h.classes_le

theorem refl (bodies : RuleId → List NodeId) (S : Cell → Prop) (d : Draft) :
    Frame bodies S d d where
  errors_eq h := h
  wellFormed h := h
  unreported h := h
  onlyDebug h := h
  progress_size := rfl
  progress r p p' h h' := by
    obtain rfl := Option.some.inj (h.symm.trans h')
    exact .same p
  classes_le := Nat.le_refl _
  fields_le := Nat.le_refl _
  kind_eq _ _ := rfl
  origin_eq _ _ := rfl
  base_eq _ _ _ h := h
  variants_ne _ _ h := h
  owner_eq _ _ := rfl
  element_eq _ _ := rfl
  rank_le _ _ := Nat.le_refl _
  same cell _ _ _ := by
    cases cell with
    | value | nodeClass | variants => rfl
    | filling => exact fun f hf _ hid => ⟨hf, hid⟩
  claims _ h := .inl h

/-- Two runs one after the other. Classes that the first one makes are no concern of the whole. -/
theorem comp {S₁ S₂ : Cell → Prop} (h₁ : Frame bodies S₁ d d') (h₂ : Frame bodies S₂ d' d'')
    (hS₁ : ∀ cell : Cell, cell.Old d → S₁ cell → S cell)
    (hS₂ : ∀ cell : Cell, cell.Old d → S₂ cell → S cell) : Frame bodies S d d'' where
  errors_eq h := h₁.errors_eq (h₂.errors_eq h)
  wellFormed h := h₂.wellFormed (h₁.wellFormed h)
  unreported h := h₂.unreported (h₁.unreported h)
  onlyDebug h := h₂.onlyDebug (h₁.onlyDebug h)
  progress_size := h₂.progress_size.trans h₁.progress_size
  progress r p p'' h h'' := by
    obtain ⟨hlt, -⟩ := Array.getElem?_eq_some_iff.mp h
    rw [← h₁.progress_size] at hlt
    have hbetween := Array.getElem?_eq_getElem hlt
    exact (h₁.progress r _ _ h hbetween).trans (h₂.progress r _ _ hbetween h'')
  classes_le := Nat.le_trans h₁.classes_le h₂.classes_le
  fields_le := Nat.le_trans h₁.fields_le h₂.fields_le
  kind_eq c hc :=
    (h₂.kind_eq c (Nat.lt_of_lt_of_le hc h₁.classes_le)).trans (h₁.kind_eq c hc)
  origin_eq c hc :=
    (h₂.origin_eq c (Nat.lt_of_lt_of_le hc h₁.classes_le)).trans (h₁.origin_eq c hc)
  base_eq c hc b hb := h₂.base_eq c (Nat.lt_of_lt_of_le hc h₁.classes_le) b (h₁.base_eq c hc b hb)
  variants_ne c hc h :=
    h₂.variants_ne c (Nat.lt_of_lt_of_le hc h₁.classes_le) (h₁.variants_ne c hc h)
  owner_eq f hf :=
    (h₂.owner_eq f (Nat.lt_of_lt_of_le hf h₁.fields_le)).trans (h₁.owner_eq f hf)
  element_eq f hf :=
    (h₂.element_eq f (Nat.lt_of_lt_of_le hf h₁.fields_le)).trans (h₁.element_eq f hf)
  rank_le f hf :=
    Nat.le_trans (h₁.rank_le f hf) (h₂.rank_le f (Nat.lt_of_lt_of_le hf h₁.fields_le))
  same cell hold hS hvisited := by
    have hsame₁ : cell.Same d d' :=
      h₁.same cell hold (fun h => hS (hS₁ cell hold h)) fun h =>
        hvisited ⟨h.1, fun h'' => h.2 (h₂.cell_reserved h'')⟩
    have hsame₂ : cell.Same d' d'' :=
      h₂.same cell (h₁.cell_old hold) (fun h => hS (hS₂ cell hold h)) fun h =>
        hvisited ⟨h₁.cell_reserved h.1, h.2⟩
    cases cell with
    | value | nodeClass | variants => exact hsame₂.trans hsame₁
    | filling c id =>
      intro f hf howner hid
      obtain ⟨hf', hid'⟩ := hsame₂ f hf howner hid
      exact hsame₁ f hf' ((h₂.owner_eq f hf').symm.trans howner) hid'
  claims claim hclaim := by
    rcases h₂.claims claim hclaim with hclaim | hS | hvisited
    · rcases h₁.claims claim hclaim with hclaim | hS | hvisited
      · exact .inl hclaim
      · exact .inr (.inl (hS₁ _ trivial hS))
      · exact .inr (.inr ⟨hvisited.1, fun h => hvisited.2 (h₂.cell_reserved h)⟩)
    · exact .inr (.inl (hS₂ _ trivial hS))
    · exact .inr (.inr ⟨h₁.cell_reserved hvisited.1, hvisited.2⟩)

theorem mono (h : Frame bodies S d d') (hS : ∀ cell : Cell, cell.Old d → S cell → S' cell) :
    Frame bodies S' d d' :=
  h.comp (.refl bodies (fun _ => False) d') hS fun _ _ h => h.elim

theorem trans (h₁ : Frame bodies S d d') (h₂ : Frame bodies S d' d'') : Frame bodies S d d'' :=
  h₁.comp h₂ (fun _ _ h => h) fun _ _ h => h

end Frame

/-- What holds of a run that analyzes no rule. -/
structure Quiet (S : Cell → Prop) (d d' : Draft) : Prop where
  progress_eq : d'.progress = d.progress
  frame : ∀ bodies, Frame bodies S d d'

namespace Quiet

variable {S S₁ S₂ : Cell → Prop} {d d' d'' : Draft}

theorem refl (S : Cell → Prop) (d : Draft) : Quiet S d d :=
  ⟨rfl, fun bodies => .refl bodies S d⟩

theorem comp (h₁ : Quiet S₁ d d') (h₂ : Quiet S₂ d' d'')
    (hS₁ : ∀ cell : Cell, cell.Old d → S₁ cell → S cell)
    (hS₂ : ∀ cell : Cell, cell.Old d → S₂ cell → S cell) : Quiet S d d'' :=
  ⟨h₂.progress_eq.trans h₁.progress_eq, fun bodies =>
    (h₁.frame bodies).comp (h₂.frame bodies) hS₁ hS₂⟩

theorem trans (h₁ : Quiet S d d') (h₂ : Quiet S d' d'') : Quiet S d d'' :=
  h₁.comp h₂ (fun _ _ h => h) fun _ _ h => h

theorem mono (h : Quiet S₁ d d') (hS : ∀ cell : Cell, cell.Old d → S₁ cell → S cell) :
    Quiet S d d' :=
  ⟨h.progress_eq, fun bodies => (h.frame bodies).mono hS⟩

/-- The frame of a run without regard to rules. -/
theorem plain (h : Quiet S d d') : Frame (fun _ => []) S d d' := h.frame _

theorem same (h : Quiet S d d') {cell : Cell} (hold : cell.Old d) (hS : ¬S cell) :
    cell.Same d d' := by
  refine h.plain.same cell hold hS fun hvisited => ?_
  have hreserved := hvisited.1
  cases cell with
  | value | nodeClass | filling =>
    obtain ⟨_, -, hid⟩ := hreserved
    cases hid
  | variants => exact hreserved

end Quiet

end AnnotatedGrammar
