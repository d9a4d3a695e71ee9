import AnnotatedGrammar.Proofs.Model.Links

/-!
# Names in the tables

Classes have different names, and so have the fields of one class and the variants of one class;
each of them is a name that may stand in a generated file. A new entry takes a name that is not
taken, or the class that has it takes another one.
-/

namespace AnnotatedGrammar

namespace Tables

variable {sc : Scope} {t t' : Tables} {c : ClassId} {node : NodeId}

/-! ## Names of classes -/

/-- Classes have names of their own. -/
structure ClassesNamed (t : Tables) : Prop where
  name : ∀ (c : ClassId) cls, t.classes[c]? = some cls → Naming.IsClassName cls.name
  inj : ∀ (c c' : ClassId) cls cls', t.classes[c]? = some cls → t.classes[c']? = some cls' →
    cls.name = cls'.name → c = c'

namespace ClassesNamed

/-- A change of a class that leaves its name alone. -/
theorem modifyClass (h : t.ClassesNamed) {g : ClassModel → ClassModel}
    (hg : ∀ cls, (g cls).name = cls.name) :
    ClassesNamed { t with classes := t.classes.modify c g } := by
  have hname {c' : ClassId} {cls' : ClassModel} (hcls' : (t.classes.modify c g)[c']? = some cls') :
      ∃ cls, t.classes[c']? = some cls ∧ cls'.name = cls.name := by
    obtain ⟨cls, hcls, rfl⟩ := getElem?_modify_eq_some.mp hcls'
    refine ⟨cls, hcls, ?_⟩
    split
    · exact hg cls
    · rfl
  refine ⟨fun c' cls' hcls' => ?_, fun c₁ c₂ cls₁ cls₂ hcls₁ hcls₂ heq => ?_⟩
  · obtain ⟨cls, hcls, heq⟩ := hname hcls'
    rw [heq]
    exact h.name c' cls hcls
  · obtain ⟨old₁, hold₁, heq₁⟩ := hname hcls₁
    obtain ⟨old₂, hold₂, heq₂⟩ := hname hcls₂
    exact h.inj c₁ c₂ old₁ old₂ hold₁ hold₂ (heq₁.symm.trans (heq.trans heq₂))

theorem addClass (h : t.ClassesNamed) {cls : ClassModel} (hname : Naming.IsClassName cls.name)
    (hfresh : ∀ (c : ClassId) other, t.classes[c]? = some other → other.name ≠ cls.name) :
    (t.addClass cls).ClassesNamed := by
  refine ⟨forall_push h.name hname, fun c₁ c₂ cls₁ cls₂ hcls₁ hcls₂ heq => ?_⟩
  rcases getElem?_push_eq_some.mp hcls₁ with ⟨rfl, rfl⟩ | hold₁ <;>
    rcases getElem?_push_eq_some.mp hcls₂ with ⟨rfl, rfl⟩ | hold₂
  · rfl
  · exact absurd heq.symm (hfresh c₂ cls₂ hold₂)
  · exact absurd heq (hfresh c₁ cls₁ hold₁)
  · exact h.inj c₁ c₂ cls₁ cls₂ hold₁ hold₂ heq

theorem addField (h : t.ClassesNamed) (fld : FieldModel) : (t.addField fld).ClassesNamed :=
  have hclasses : ClassesNamed { t with
      classes := t.classes.modify fld.owner fun cls =>
        { cls with fields := cls.fields ++ [t.fields.size] } } :=
    h.modifyClass fun _ => rfl
  ⟨hclasses.name, hclasses.inj⟩

/-- A class takes a name that is not taken. -/
theorem rename (h : t.ClassesNamed) {name : String} (hname : Naming.IsClassName name)
    (hfresh : ∀ other ∈ t.classes, other.name ≠ name) : (t.rename c name).ClassesNamed := by
  refine ⟨forall_modify h.name fun _ _ => hname, fun c₁ c₂ cls₁ cls₂ hcls₁ hcls₂ heq => ?_⟩
  obtain ⟨old₁, hold₁, rfl⟩ := getElem?_modify_eq_some.mp hcls₁
  obtain ⟨old₂, hold₂, rfl⟩ := getElem?_modify_eq_some.mp hcls₂
  have hne {c' : ClassId} {old : ClassModel} (hold : t.classes[c']? = some old) : old.name ≠ name :=
    hfresh old (Array.mem_of_getElem? hold)
  split at heq <;> split at heq
  · rename_i heq₁ heq₂
    exact heq₁.symm.trans heq₂
  · exact absurd heq.symm (hne hold₂)
  · exact absurd heq (hne hold₁)
  · exact h.inj c₁ c₂ old₁ old₂ hold₁ hold₂ heq

/-- A new class takes the name of another one, which takes a name that is not taken. -/
theorem displace (h : t.ClassesNamed) {other cls : ClassModel} {free : String}
    (hnew : Naming.IsClassName cls.name) (hother : t.classes[c]? = some other)
    (hname : other.name = cls.name) (hfree : Naming.IsClassName free)
    (hfresh : ∀ other ∈ t.classes, other.name ≠ free) :
    ((t.rename c free).addClass cls).ClassesNamed := by
  refine (h.rename hfree hfresh).addClass hnew fun c' cls' hcls' => ?_
  obtain ⟨old, hold, rfl⟩ := getElem?_modify_eq_some.mp hcls'
  split
  · rw [← hname]
    exact (hfresh other (Array.mem_of_getElem? hother)).symm
  · rename_i hne
    intro heq
    exact hne (h.inj c c' other old hother hold (hname.trans heq.symm))

theorem variantSteps {nodes : List NodeId} (h : t.ClassesNamed)
    (hsteps : VariantSteps sc c nodes t t') : t'.ClassesNamed := by
  induction hsteps with
  | nil => exact h
  | cons hstep _ ih =>
    refine ih ?_
    cases hstep with
    | plain => exact h.modifyClass fun _ => by rfl
    | @payload tag fld => exact (h.addField fld).modifyClass fun _ => by rfl

theorem step (h : t.ClassesNamed) (hstep : Step sc t t') : t'.ClassesNamed := by
  cases hstep with
  | claims | value | nodeClass | progress | fill | widen => exact ⟨h.name, h.inj⟩
  | newClass hnew hfresh =>
    exact h.addClass hnew.name fun c other hother => hfresh other (Array.mem_of_getElem? hother)
  | displace hnew hother hname hfree hfresh => exact h.displace hnew.name hother hname hfree hfresh
  | base => exact h.modifyClass fun _ => by rfl
  | @newField fld => exact ⟨(h.addField fld).name, (h.addField fld).inj⟩
  | variants _ _ _ hsteps => exact h.variantSteps hsteps

end ClassesNamed

/-! ## Names of fields -/

/-- The fields of a class have names of their own. -/
structure FieldsNamed (t : Tables) : Prop where
  name : ∀ (f : FieldId) fld, t.fields[f]? = some fld → Naming.IsFieldName fld.name
  inj : ∀ (c : ClassId) cls, t.classes[c]? = some cls → ∀ f ∈ cls.fields, ∀ f' ∈ cls.fields,
    ∀ fld fld', t.fields[f]? = some fld → t.fields[f']? = some fld' → fld.name = fld'.name → f = f'

namespace FieldsNamed

/-- A change of a class that leaves its fields alone. -/
theorem modifyClass (h : t.FieldsNamed) {g : ClassModel → ClassModel}
    (hg : ∀ cls, (g cls).fields = cls.fields) :
    FieldsNamed { t with classes := t.classes.modify c g } :=
  ⟨h.name, forall_modify h.inj fun cls hcls => by
    rw [hg]
    exact h.inj c cls hcls⟩

/-- A change of a field that leaves its name alone. -/
theorem modifyField (h : t.FieldsNamed) {f : FieldId} {g : FieldModel → FieldModel}
    (hg : ∀ fld, (g fld).name = fld.name) :
    FieldsNamed { t with fields := t.fields.modify f g } := by
  refine ⟨forall_modify h.name fun fld hfld => ?_,
    fun c cls hcls f₁ hf₁ f₂ hf₂ fld₁ fld₂ hfld₁ hfld₂
    heq => ?_⟩
  · rw [hg]
    exact h.name f fld hfld
  · obtain ⟨old₁, hold₁, rfl⟩ := getElem?_modify_eq_some.mp hfld₁
    obtain ⟨old₂, hold₂, rfl⟩ := getElem?_modify_eq_some.mp hfld₂
    refine h.inj c cls hcls f₁ hf₁ f₂ hf₂ old₁ old₂ hold₁ hold₂ ?_
    have hname (i : FieldId) (old : FieldModel) :
        (if f = i then g old else old).name = old.name := by
      split
      · exact hg old
      · rfl
    rwa [hname, hname] at heq

theorem addClass (h : t.FieldsNamed) {cls : ClassModel} (hfields : cls.fields = []) :
    (t.addClass cls).FieldsNamed :=
  ⟨h.name, forall_push h.inj (by simp [hfields])⟩

theorem addField (h : t.FieldsNamed) (hlinked : t.FieldsLinked) {fld : FieldModel}
    (hnew : t.NewField sc fld node) : (t.addField fld).FieldsNamed := by
  have hold {c : ClassId} {cls : ClassModel} (hcls : t.classes[c]? = some cls) {f : FieldId}
      (hf : f ∈ cls.fields) {fld' : FieldModel} (hfld' : (t.fields.push fld)[f]? = some fld') :
      t.fields[f]? = some fld' := by
    obtain ⟨old, hold, -⟩ := hlinked.owned c cls hcls f hf
    rcases getElem?_push_eq_some.mp hfld' with ⟨rfl, -⟩ | hfld'
    · exact absurd (Array.getElem?_eq_some_iff.mp hold).1 (Nat.lt_irrefl _)
    · exact hfld'
  have hlast {fld' : FieldModel} (hfld' : (t.fields.push fld)[t.fields.size]? = some fld') :
      fld' = fld := by
    rw [Array.getElem?_push, if_pos rfl] at hfld'
    exact (Option.some.inj hfld').symm
  refine ⟨forall_push h.name hnew.name, forall_modify
    (fun c cls hcls f₁ hf₁ f₂ hf₂ fld₁ fld₂ hfld₁ hfld₂ => h.inj c cls hcls f₁ hf₁ f₂ hf₂ fld₁ fld₂
      (hold hcls hf₁ hfld₁) (hold hcls hf₂ hfld₂))
    fun cls hcls f₁ hf₁ f₂ hf₂ fld₁ fld₂ hfld₁ hfld₂ heq => ?_⟩
  rcases List.mem_append.mp hf₁ with hf₁ | hf₁ <;> rcases List.mem_append.mp hf₂ with hf₂ | hf₂
  · exact h.inj _ cls hcls f₁ hf₁ f₂ hf₂ fld₁ fld₂ (hold hcls hf₁ hfld₁) (hold hcls hf₂ hfld₂) heq
  · rw [List.mem_singleton] at hf₂
    subst hf₂
    obtain rfl := hlast hfld₂
    exact absurd heq (hnew.fresh cls hcls f₁ hf₁ fld₁ (hold hcls hf₁ hfld₁))
  · rw [List.mem_singleton] at hf₁
    subst hf₁
    obtain rfl := hlast hfld₁
    exact absurd heq.symm (hnew.fresh cls hcls f₂ hf₂ fld₂ (hold hcls hf₂ hfld₂))
  · rw [List.mem_singleton] at hf₁ hf₂
    rw [hf₁, hf₂]

theorem variantSteps {nodes : List NodeId} (h : t.FieldsNamed) (hlinked : t.FieldsLinked)
    (hc : c < t.classes.size) (hsteps : VariantSteps sc c nodes t t') : t'.FieldsNamed := by
  induction hsteps with
  | nil => exact h
  | cons hstep _ ih =>
    refine ih ?_ (hlinked.variantStep hc hstep) (hstep.grows.lt hc)
    cases hstep with
    | plain => exact h.modifyClass fun _ => by rfl
    | payload _ hnew => exact (h.addField hlinked hnew).modifyClass fun _ => by rfl

theorem step (h : t.FieldsNamed) (hlinked : t.FieldsLinked) (hstep : Step sc t t') :
    t'.FieldsNamed := by
  cases hstep with
  | claims | value | nodeClass | progress => exact ⟨h.name, h.inj⟩
  | newClass hnew => exact h.addClass hnew.fields_eq
  | displace hnew => exact FieldsNamed.addClass (h.modifyClass fun _ => by rfl) hnew.fields_eq
  | base => exact h.modifyClass fun _ => by rfl
  | newField _ hnew =>
    have hadded := h.addField hlinked hnew
    exact ⟨hadded.name, hadded.inj⟩
  | @fill f node =>
    have hfilled : FieldsNamed { t with
        fields := t.fields.modify f fun fld => { fld with nodes := fld.nodes ++ [node] } } :=
      h.modifyField fun _ => rfl
    exact ⟨hfilled.name, hfilled.inj⟩
  | widen => exact h.modifyField fun _ => by rfl
  | variants _ htagged _ hsteps => exact h.variantSteps hlinked htagged.lt hsteps

end FieldsNamed

/-! ## Tags -/

/-- The variants of a class have tags of their own. -/
structure TagsNamed (cls : ClassModel) : Prop where
  name : ∀ v ∈ cls.variants, Naming.IsTag v.tag
  nodup : (cls.variants.map (·.tag)).Nodup

/-- The variants of every class have tags of their own. -/
def VariantsNamed (t : Tables) : Prop := ∀ (c : ClassId) cls,
    t.classes[c]? = some cls → TagsNamed cls

namespace VariantsNamed

theorem addVariant (h : t.VariantsNamed) {v : Variant} (htag : t.NewTag c v.tag) :
    (t.addVariant c v).VariantsNamed := by
  refine forall_modify h fun cls hcls => ⟨fun v' hv' => ?_, ?_⟩
  · rcases List.mem_append.mp hv' with hv' | hv'
    · exact (h c cls hcls).name v' hv'
    · rw [List.mem_singleton.mp hv']
      exact htag.name
  · rw [List.map_append]
    refine List.nodup_append.mpr
      ⟨(h c cls hcls).nodup, List.nodup_singleton _, fun tag hmem tag' hmem' => ?_⟩
    obtain ⟨v', hv', rfl⟩ := List.mem_map.mp hmem
    rw [List.mem_singleton.mp hmem']
    exact htag.fresh cls hcls v' hv'

/-- A change of a class that leaves its variants alone. -/
theorem modifyClass (h : t.VariantsNamed) {g : ClassModel → ClassModel}
    (hg : ∀ cls, (g cls).variants = cls.variants) :
    VariantsNamed { t with classes := t.classes.modify c g } := by
  refine forall_modify h fun cls hcls => ?_
  have hold := h c cls hcls
  exact ⟨hg cls ▸ hold.name, hg cls ▸ hold.nodup⟩

theorem variantStep (h : t.VariantsNamed) (hstep : VariantStep sc c node t t') :
    t'.VariantsNamed := by
  cases hstep with
  | plain htag => exact h.addVariant htag
  | @payload tag fld htag =>
    have hadded : (t.addField fld).VariantsNamed := h.modifyClass fun _ => rfl
    refine hadded.addVariant ⟨htag.name, fun cls hcls => ?_⟩
    obtain ⟨old, hold, rfl⟩ := getElem?_modify_eq_some.mp hcls
    have hfresh := htag.fresh old hold
    split <;> exact hfresh

theorem variantSteps {nodes : List NodeId} (h : t.VariantsNamed)
    (hsteps : VariantSteps sc c nodes t t') : t'.VariantsNamed := by
  induction hsteps with
  | nil => exact h
  | cons hstep _ ih => exact ih (h.variantStep hstep)

theorem step (h : t.VariantsNamed) (hstep : Step sc t t') : t'.VariantsNamed := by
  have hnone {cls : ClassModel} (hvariants : cls.variants = []) : TagsNamed cls := by
    refine ⟨?_, ?_⟩ <;> simp [hvariants]
  cases hstep with
  | claims | value | nodeClass | progress | fill | widen => exact h
  | newClass hnew => exact forall_push h (hnone hnew.variants_eq)
  | displace hnew =>
    exact forall_push (h.modifyClass fun _ => by rfl) (hnone hnew.variants_eq)
  | base => exact h.modifyClass fun _ => by rfl
  | newField => exact h.modifyClass fun _ => by rfl
  | variants _ _ _ hsteps => exact h.variantSteps hsteps

end VariantsNamed

/-! ## Everything together -/

/-- Every name in the tables may stand in a generated file and is not taken twice. -/
structure Named (t : Tables) : Prop where
  classes : t.ClassesNamed
  fields : t.FieldsNamed
  variants : t.VariantsNamed

theorem Named.check (h : t.Named) (hcheck : Check sc t t') : t'.Named := by
  cases hcheck with
  | key =>
    exact ⟨h.classes.modifyClass fun _ => by rfl, h.fields.modifyClass fun _ => by rfl,
      h.variants.modifyClass fun _ => by rfl⟩
  | value => exact ⟨⟨h.classes.name, h.classes.inj⟩, ⟨h.fields.name, h.fields.inj⟩, h.variants⟩
  | retype =>
    exact ⟨⟨h.classes.name, h.classes.inj⟩, h.fields.modifyField fun _ => by rfl, h.variants⟩

/-- Names stay apart. -/
theorem Named.steps (h : t.Named) (hlinked : t.Linked sc) (hsteps : Steps sc t t') : t'.Named := by
  have hboth : t'.Linked sc ∧ t'.Named :=
    hsteps.preserves (P := fun t => t.Linked sc ∧ t.Named)
      (fun _ _ hstep ht => ⟨ht.1.step hstep, ht.2.classes.step hstep,
        ht.2.fields.step ht.1.fields hstep, ht.2.variants.step hstep⟩)
      ⟨hlinked, h⟩
  exact hboth.2

end Tables
end AnnotatedGrammar
