import AnnotatedGrammar.Model.Analysis
import AnnotatedGrammar.Production.Quantifier

/-!
# Grammars without places

Where something stands in the text is of no concern for what it means. `unplaced` puts the default
place for every place; what is asked about an expression without regard to its place has the same
answer for the expression without places.
-/

namespace AnnotatedGrammar

/-- The value without its place. -/
def Located.unplaced {α : Type} (a : Located α) : Located α := { a with span := default }

/-- The marker without its place. -/
def Marker.unplaced (marker : Marker) : Marker := { marker with span := default }

/-- The directive without its place. -/
def Directive.unplaced (d : Directive) : Directive := { d with span := default }

/-- Number and markers without places. -/
def NodeInfo.unplaced (info : NodeInfo) : NodeInfo :=
  ⟨info.id, info.markers.map Marker.unplaced, default⟩

namespace Expr

mutual

/-- The expression without places. -/
def unplaced : Expr → Expr
  | terminal info t => terminal info.unplaced t
  | reference info name => reference info.unplaced name
  | sequence info items => sequence info.unplaced (unplacedAll items)
  | alternation info branches => alternation info.unplaced (unplacedAll branches)
  | optional info body => optional info.unplaced (unplaced body)
  | repeated info body kind => repeated info.unplaced (unplaced body) kind
  | group info body => group info.unplaced (unplaced body)

/-- Several expressions without places. -/
def unplacedAll : List Expr → List Expr
  | [] => []
  | e :: rest => unplaced e :: unplacedAll rest

end

@[simp] theorem unplacedAll_eq_map (es : List Expr) : unplacedAll es = es.map unplaced := by
  induction es with
  | nil => rfl
  | cons e rest ih => rw [unplacedAll, ih, List.map_cons]

end Expr

/-- The rule without places. -/
def Rule.unplaced (rule : Rule) : Rule :=
  { name := rule.name
    nameSpan := default
    markers := rule.markers.map Marker.unplaced
    body := rule.body.unplaced
    span := default }

/-- The grammar without places. -/
def Grammar.unplaced (grammar : Grammar) : Grammar :=
  { directives := grammar.directives.map Directive.unplaced
    rules := grammar.rules.map Rule.unplaced
    nodeCount := grammar.nodeCount }

namespace Marker

@[simp] theorem key_unplaced (m : Marker) : m.unplaced.key = m.key := rfl

@[simp] theorem value_unplaced (m : Marker) : m.unplaced.value = m.value := rfl

@[simp] theorem span_unplaced (m : Marker) : m.unplaced.span = default := rfl

@[simp] theorem display_unplaced (m : Marker) : m.unplaced.display = m.display := rfl

/-- Looking for a marker by its key gives the same marker without its place. -/
theorem find?_map_unplaced (markers : List Marker) (key : String) :
    (markers.map unplaced).find? (fun m => m.key == key) =
      (markers.find? fun m => m.key == key).map unplaced := by
  rw [List.find?_map]
  rfl

end Marker

namespace Rule

@[simp] theorem name_unplaced (rule : Rule) : rule.unplaced.name = rule.name := rfl

@[simp] theorem nameSpan_unplaced (rule : Rule) : rule.unplaced.nameSpan = default := rfl

@[simp] theorem span_unplaced (rule : Rule) : rule.unplaced.span = default := rfl

@[simp] theorem body_unplaced (rule : Rule) : rule.unplaced.body = rule.body.unplaced := rfl

@[simp] theorem marker?_unplaced (rule : Rule) (key : MarkerKey) :
    rule.unplaced.marker? key = (rule.marker? key).map Marker.unplaced :=
  Marker.find?_map_unplaced rule.markers key.word

@[simp] theorem markerValue?_unplaced (rule : Rule) (key : MarkerKey) :
    rule.unplaced.markerValue? key = rule.markerValue? key := by
  rw [markerValue?, marker?_unplaced, Option.bind_map, markerValue?]
  rfl

end Rule

namespace Expr

@[simp] theorem info_unplaced (e : Expr) : e.unplaced.info = e.info.unplaced := by
  cases e <;> rfl

@[simp] theorem id_unplaced (e : Expr) : e.unplaced.id = e.id := by
  rw [id, info_unplaced]
  rfl

@[simp] theorem span_unplaced (e : Expr) : e.unplaced.span = default := by
  rw [span, info_unplaced]
  rfl

@[simp] theorem markers_unplaced (e : Expr) :
    e.unplaced.markers = e.markers.map Marker.unplaced := by
  rw [markers, info_unplaced]
  rfl

@[simp] theorem withInfo_unplaced (e : Expr) (info : NodeInfo) :
    (e.withInfo info).unplaced = e.unplaced.withInfo info.unplaced := by
  cases e <;> rfl

theorem withMarkersBefore_unplaced (e : Expr) (ms : List Marker) :
    (e.withMarkersBefore ms).unplaced = e.unplaced.withMarkersBefore (ms.map Marker.unplaced) := by
  simp [withMarkersBefore, NodeInfo.unplaced]

theorem withMarkersAfter_unplaced (e : Expr) (ms : List Marker) :
    (e.withMarkersAfter ms).unplaced = e.unplaced.withMarkersAfter (ms.map Marker.unplaced) := by
  simp [withMarkersAfter, NodeInfo.unplaced]

@[simp] theorem marker?_unplaced (e : Expr) (key : MarkerKey) :
    e.unplaced.marker? key = (e.marker? key).map Marker.unplaced := by
  rw [marker?, markers_unplaced, Marker.find?_map_unplaced, marker?]

@[simp] theorem markerValue?_unplaced (e : Expr) (key : MarkerKey) :
    e.unplaced.markerValue? key = e.markerValue? key := by
  rw [markerValue?, marker?_unplaced, Option.bind_map, markerValue?]
  rfl

@[simp] theorem hasMarker_unplaced (e : Expr) (key : MarkerKey) :
    e.unplaced.hasMarker key = e.hasMarker key := by
  rw [hasMarker, marker?_unplaced, Option.isSome_map, hasMarker]

@[simp] theorem isUnmarked_unplaced (e : Expr) : e.unplaced.isUnmarked = e.isUnmarked := by
  rw [isUnmarked, markers_unplaced, List.isEmpty_map, isUnmarked]

@[simp] theorem isEmpty_markers_unplaced (info : NodeInfo) :
    info.unplaced.markers.isEmpty = info.markers.isEmpty :=
  List.isEmpty_map

/-! ## Everything inside an expression -/

theorem preorder_unplaced (e : Expr) : e.unplaced.preorder = e.preorder.map unplaced := by
  induction e using Expr.preorder.induct
    (motive_2 := fun es => preorderAll (es.map unplaced) = (preorderAll es).map unplaced) with
  | case1 | case2 => rfl
  | case3 info items ih | case4 info items ih =>
    simp only [unplaced, unplacedAll_eq_map, preorder, ih, List.map_cons]
  | case5 info body ih | case6 info body kind ih | case7 info body ih =>
    simp only [unplaced, preorder, ih, List.map_cons]
  | case8 => rfl
  | case9 e rest ih ihRest => simp only [List.map_cons, preorderAll, ih, ihRest, List.map_append]

/-- Numbering does not look at places. -/
theorem numbered_unplaced :
    (∀ (next : NodeId) (e : Expr),
      e.unplaced.numbered next = ((e.numbered next).1.unplaced, (e.numbered next).2)) ∧
    ∀ (next : NodeId) (es : List Expr), numberedAll next (es.map unplaced) =
      ((numberedAll next es).1.map unplaced, (numberedAll next es).2) := by
  apply numbered.mutual_induct
  case case1 | case2 =>
    intros
    rfl
  case case3 | case4 =>
    intro next info items numberedItems after heq ih
    simp only [unplaced, unplacedAll_eq_map, numbered, ih, heq]
    rfl
  case case5 | case7 =>
    intro next info body numberedBody after heq ih
    simp only [unplaced, numbered, ih, heq]
    rfl
  case case6 =>
    intro next info body kind numberedBody after heq ih
    simp only [unplaced, numbered, ih, heq]
    rfl
  case case8 =>
    intros
    rfl
  case case9 =>
    intro next e rest numberedFirst between heq numberedRest after heq' ih ihRest
    simp only [List.map_cons, numberedAll, ih, ihRest, heq, heq']

theorem displayMarkers_unplaced (text : String) (ms : List Marker) :
    displayMarkers text (ms.map Marker.unplaced) = displayMarkers text ms := by
  rw [displayMarkers, List.foldl_map]
  rfl

@[simp] theorem display_unplaced (e : Expr) : e.unplaced.display = e.display := by
  induction e using Expr.display.induct
    (motive_2 := fun es => displayAll (es.map unplaced) = displayAll es) with
  | case1 | case2 => simp only [unplaced, display, NodeInfo.unplaced, displayMarkers_unplaced]
  | case3 info items ih | case4 info items ih =>
    simp only [unplaced, unplacedAll_eq_map, display, ih, NodeInfo.unplaced,
      displayMarkers_unplaced]
  | case5 info body ih | case6 info body kind ih | case7 info body ih =>
    simp only [unplaced, display, ih, NodeInfo.unplaced, displayMarkers_unplaced]
  | case8 => rfl
  | case9 e rest ih ihRest => simp only [List.map_cons, displayAll, ih, ihRest]

/-! ## Shapes -/

@[simp] theorem keepsGroup_unplaced (e : Expr) : e.unplaced.keepsGroup = e.keepsGroup := by
  simp [keepsGroup, fieldMarkers]

theorem stripGroups_unplaced (e : Expr) :
    e.unplaced.stripGroups = (e.stripGroups.1.unplaced, e.stripGroups.2) := by
  fun_induction stripGroups e with
  | case1 info body hkeeps =>
    have hkeeps' : (group info body).unplaced.keepsGroup = true := by simpa using hkeeps
    rw [unplaced] at hkeeps' ⊢
    rw [stripGroups, if_pos hkeeps']
  | case2 info body hkeeps inner ih =>
    have hkeeps' : ¬(group info body).unplaced.keepsGroup = true := by simpa using hkeeps
    have hvalue := markerValue?_unplaced (group info body) .typeOf
    rw [unplaced] at hkeeps' hvalue ⊢
    rw [stripGroups, if_neg hkeeps', hvalue, ih]
  | case3 e hgroup =>
    cases e with
    | group info body => exact (hgroup info body rfl).elim
    | _ => rfl

@[simp] theorem core_unplaced (e : Expr) : e.unplaced.core = e.core.unplaced := by
  rw [core, stripGroups_unplaced, core]

@[simp] theorem classContent_unplaced (e : Expr) :
    e.unplaced.classContent = (e.classContent.1.unplaced, e.classContent.2) := by
  cases e <;> rfl

@[simp] theorem classAlternatives?_unplaced (e : Expr) :
    e.unplaced.classAlternatives? = e.classAlternatives?.map (List.map unplaced) := by
  rw [classAlternatives?, classAlternatives?, core_unplaced]
  cases e.core <;> simp [unplaced]

@[simp] theorem operand_unplaced (e : Expr) : e.unplaced.operand = e.operand.unplaced := by
  induction e using operand.induct with
  | case1 info body hempty ih | case5 info body hempty ih =>
    simpa [unplaced, operand, hempty] using ih
  | case3 info body kind hempty ih => simpa [unplaced, operand, hempty] using ih
  | case2 info body hempty | case6 info body hempty => simp [unplaced, operand, hempty]
  | case4 info body kind hempty => simp [unplaced, operand, hempty]
  | case7 e hoptional hrepeated hgroup =>
    cases e with
    | optional info body => exact (hoptional info body rfl).elim
    | repeated info body kind => exact (hrepeated info body kind rfl).elim
    | group info body => exact (hgroup info body rfl).elim
    | _ => rfl

@[simp] theorem quantifiedAtom_unplaced (e : Expr) :
    e.unplaced.quantifiedAtom = e.quantifiedAtom.unplaced := by
  cases e <;> first | rfl | exact operand_unplaced _

@[simp] theorem isFieldElement_unplaced (e : Expr) :
    e.unplaced.isFieldElement = e.isFieldElement := by
  simp [isFieldElement, fieldMarkers]

@[simp] theorem isSimpleChain_unplaced (e : Expr) :
    e.unplaced.isSimpleChain = e.isSimpleChain := by
  have hany (atom : Expr) :
      fieldMarkers.any atom.unplaced.hasMarker = fieldMarkers.any atom.hasMarker := by
    simp [fieldMarkers]
  unfold isSimpleChain
  rw [quantifiedAtom_unplaced]
  cases e.quantifiedAtom <;> simp only [hany, hasMarker_unplaced] <;> rfl

@[simp] theorem carriesOnlyFieldMarkers_unplaced (e : Expr) :
    e.unplaced.carriesOnlyFieldMarkers = e.carriesOnlyFieldMarkers := by
  simp [carriesOnlyFieldMarkers, List.all_map, Function.comp_def]

@[simp] theorem namesAlternatives_unplaced (e : Expr) :
    e.unplaced.namesAlternatives = e.namesAlternatives := by
  cases e with
  | group info body =>
    simp only [unplaced, namesAlternatives, core_unplaced]
    cases body.core <;> rfl
  | _ => rfl

@[simp] theorem symbolName?_unplaced (e : Expr) : e.unplaced.symbolName? = e.symbolName? := by
  cases e with
  | terminal info t => cases t <;> rfl
  | _ => rfl

@[simp] theorem literalText?_unplaced (e : Expr) : e.unplaced.literalText? = e.literalText? := by
  cases e with
  | terminal info t => cases t <;> rfl
  | _ => rfl

@[simp] theorem tagSource?_unplaced (e : Expr) : e.unplaced.tagSource? = e.tagSource? := by
  simp [tagSource?, preorder_unplaced, List.findSome?_map, Function.comp_def]

@[simp] theorem fieldSubject?_unplaced (e : Expr) :
    e.unplaced.fieldSubject? = e.fieldSubject? := by
  induction e using fieldSubject?.induct with
  | case1 info _ hclass | case3 info _ hclass | case5 info body hclass | case7 info body hclass
  | case9 info body kind hclass =>
    have hclass' := hclass
    rw [← hasMarker_unplaced, unplaced] at hclass'
    rw [unplaced, fieldSubject?, fieldSubject?, if_pos hclass, if_pos hclass']
  | case2 info _ hclass | case4 info _ hclass =>
    have hclass' := hclass
    rw [← hasMarker_unplaced, unplaced] at hclass'
    rw [unplaced, fieldSubject?, fieldSubject?, if_neg hclass, if_neg hclass']
  | case6 info body hclass ih | case8 info body hclass ih | case10 info body kind hclass ih =>
    have hclass' := hclass
    rw [← hasMarker_unplaced, unplaced] at hclass'
    rw [unplaced, fieldSubject?, fieldSubject?, if_neg hclass, if_neg hclass', ih]
  | case11 e hreference hpattern hgroup hoptional hrepeated =>
    cases e with
    | terminal info t =>
      cases t with
      | literal text => rfl
      | pattern p => exact (hpattern info p rfl).elim
    | reference info name => exact (hreference info name rfl).elim
    | optional info body => exact (hoptional info body rfl).elim
    | repeated info body kind => exact (hrepeated info body kind rfl).elim
    | group info body => exact (hgroup info body rfl).elim
    | _ => rfl

/-! ## Quantifiers -/

@[simp] theorem quantified?_unplaced (e : Expr) :
    e.unplaced.quantified? = e.quantified?.map fun part => (part.1, part.2.unplaced) := by
  cases e <;> rfl

@[simp] theorem isTransparent_unplaced (e : Expr) (carrier : Bool) :
    e.unplaced.isTransparent carrier = e.isTransparent carrier := by
  simp [isTransparent]

end Expr

/-- The collapsed quantifiers without places. -/
def Collapsed.unplaced (found : Collapsed) : Collapsed :=
  { found with atom := found.atom.unplaced, carrier := found.carrier.map Expr.unplaced }

theorem Expr.absorb_unplaced (quantifier : Quantifier) (carrier : Option Expr) (e : Expr) :
    e.unplaced.absorb quantifier (carrier.map Expr.unplaced) =
      (e.absorb quantifier carrier).unplaced := by
  have hcarrier (before : Option Expr) (e : Expr) :
      (if e.isUnmarked then before else some e).map Expr.unplaced =
        if e.unplaced.isUnmarked then before.map Expr.unplaced else some e.unplaced := by
    rw [isUnmarked_unplaced, apply_ite (Option.map Expr.unplaced), Option.map_some]
  fun_induction absorb quantifier carrier e with
  | case1 quantifier carrier info body htransparent step found inner ih
  | case3 quantifier carrier info body kind htransparent step found inner ih =>
    rw [← isTransparent_unplaced, ← Option.isSome_map (f := Expr.unplaced),
      unplaced] at htransparent
    rw [hcarrier, unplaced] at ih
    rw [unplaced, absorb, if_pos htransparent]
    exact congrArg (fun inner : Collapsed => { inner with absorbed := step :: inner.absorbed }) ih
  | case2 quantifier carrier info body htransparent
  | case4 quantifier carrier info body kind htransparent =>
    rw [← isTransparent_unplaced, ← Option.isSome_map (f := Expr.unplaced),
      unplaced] at htransparent
    rw [unplaced, absorb, if_neg htransparent]
    rfl
  | case5 quantifier carrier info body hunmarked ih =>
    rw [← isUnmarked_unplaced, unplaced] at hunmarked
    rw [unplaced, absorb, if_pos hunmarked, ih]
  | case6 quantifier carrier info body hunmarked =>
    rw [← isUnmarked_unplaced, unplaced] at hunmarked
    rw [unplaced, absorb, if_neg hunmarked]
    rfl
  | case7 quantifier carrier e hoptional hrepeated hgroup =>
    cases e with
    | optional info body => exact (hoptional info body rfl).elim
    | repeated info body kind => exact (hrepeated info body kind rfl).elim
    | group info body => exact (hgroup info body rfl).elim
    | _ => rfl

/-! ## Grammars -/

theorem Rule.numberedAll_unplaced (done : List Rule) (next : NodeId) (rules : List Rule) :
    numberedAll (done.map unplaced) next (rules.map unplaced) =
      ((numberedAll done next rules).1.map unplaced, (numberedAll done next rules).2) := by
  induction rules generalizing done next with
  | nil => simp only [List.map_nil, numberedAll, List.map_reverse]
  | cons rule rest ih =>
    simp only [List.map_cons, numberedAll, body_unplaced, Expr.numbered_unplaced.1]
    exact ih ({ rule with body := (rule.body.numbered next).1 } :: done) _

/-- A grammar is numbered the same whatever the places are. -/
theorem Grammar.ofParts_unplaced (directives : List Directive) (rules : List Rule) :
    ofParts (directives.map Directive.unplaced) (rules.map Rule.unplaced) =
      (ofParts directives rules).unplaced := by
  have hrules := Rule.numberedAll_unplaced [] 0 rules
  rw [List.map_nil] at hrules
  simp only [ofParts, hrules, unplaced, List.map_toArray]

end AnnotatedGrammar
