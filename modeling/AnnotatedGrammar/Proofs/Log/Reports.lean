import AnnotatedGrammar.Log.Recorder
import AnnotatedGrammar.Proofs.Analysis.RuleSteps
import AnnotatedGrammar.Proofs.Generation
import AnnotatedGrammar.Proofs.Lowering.Additions

/-!
# The log tells what the diagnostics tell

A run logs an error for every diagnostic that it fails with, and a warning for every warning that it
returns. Each stage does so by itself; a run puts the logs of its stages behind one another.
-/

namespace AnnotatedGrammar

namespace Log

/-- An entry says what a diagnostic says. -/
structure Entry.Tells (entry : Entry) (d : Diagnostic) : Prop where
  code_eq : entry.code = d.code
  span_eq : entry.span = d.span
  message_eq : entry.message = d.message

/-- An event says what a diagnostic says; a long message is cut. -/
structure Event.Tells (event : Event) (d : Diagnostic) : Prop where
  code_eq : event.code = d.code
  span_eq : event.span = d.span
  message_eq : event.message = cutMessage d.message

/-- The entries of a level tell the diagnostics, one each and in their order. -/
def Announces (level : Level) (entries : List Entry) (ds : List Diagnostic) : Prop :=
  List.Forall₂ Entry.Tells (entries.filter fun entry => entry.level == level) ds

/-- The events of a level tell the diagnostics, one each and in their order. -/
def Reports (level : Level) (events : List Event) (ds : List Diagnostic) : Prop :=
  List.Forall₂ Event.Tells (events.filter fun event => event.level == level) ds

/-- Neither errors nor warnings. -/
def Calm (entries : List Entry) : Prop := ∀ e ∈ entries, e.level.reaches .warning = false

variable {level : Level} {entries entries' : List Entry} {ds ds' : List Diagnostic}

/-- What is announced is reported when every level is wanted. -/
theorem Announces.record (h : Announces level entries ds) (origin : Option String) :
    Reports level ((⟨.debug⟩ : Recorder).record origin entries) ds := by
  have hall : entries.filter (fun e => (⟨.debug⟩ : Recorder).wants e.level) = entries :=
    List.filter_eq_self.mpr fun e _ => by cases e.level <;> rfl
  have hlevel : ((fun event : Event => event.level == level) ∘ Event.ofEntry origin) =
      fun e => e.level == level := rfl
  rw [Reports, Recorder.record, hall, List.filter_map, hlevel, List.forall₂_map_left_iff]
  exact h.imp fun e d htells =>
    ⟨htells.code_eq, htells.span_eq, congrArg cutMessage htells.message_eq⟩

theorem Announces.append (h : Announces level entries ds) (h' : Announces level entries' ds') :
    Announces level (entries ++ entries') (ds ++ ds') := by
  rw [Announces, List.filter_append]
  exact List.rel_append h h'

@[simp] theorem calm_nil : Calm [] := fun _ he => absurd he List.not_mem_nil

@[simp] theorem calm_cons {e : Entry} :
    Calm (e :: entries) ↔ e.level.reaches .warning = false ∧ Calm entries :=
  List.forall_mem_cons

@[simp] theorem calm_append : Calm (entries ++ entries') ↔ Calm entries ∧ Calm entries' :=
  List.forall_mem_append

@[simp] theorem calm_reverse : Calm entries.reverse ↔ Calm entries := by
  simp only [Calm, List.mem_reverse]

@[simp] theorem calm_map {α : Type} {f : α → Entry} {xs : List α} :
    Calm (xs.map f) ↔ ∀ x ∈ xs, (f x).level.reaches .warning = false :=
  List.forall_mem_map

@[simp] theorem calm_ite {c : Prop} [Decidable c] :
    Calm (if c then entries else []) ↔ (c → Calm entries) := by
  split <;> simp_all

@[simp] theorem Entry.info_calm (message : String) (values : List (String × String)) :
    (Entry.info message values).level.reaches .warning = false := rfl

@[simp] theorem Entry.success_calm (code : Code) (message : String)
    (values : List (String × String)) :
    (Entry.success code message values).level.reaches .warning = false := rfl

@[simp] theorem Entry.debug_calm (message : String) (values : List (String × String)) :
    (Entry.debug message values).level.reaches .warning = false := rfl

/-- Entries about details are calm. -/
theorem Calm.of_debug (h : ∀ e ∈ entries, e.level = .debug) : Calm entries := fun e he => by
  rw [h e he]
  rfl

/-- Entries of other levels tell nothing. -/
theorem announces_nil (h : ∀ e ∈ entries, e.level ≠ level) : Announces level entries [] := by
  have hnone : entries.filter (fun entry => entry.level == level) = [] :=
    List.filter_eq_nil_iff.mpr fun e he hequal => h e he (beq_iff_eq.mp hequal)
  rw [Announces, hnone]
  exact .nil

theorem Calm.announces (h : Calm entries) (hlevel : level.reaches .warning = true) :
    Announces level entries [] := by
  refine announces_nil fun e he hequal => ?_
  have hcalm := h e he
  rw [hequal, hlevel] at hcalm
  cases hcalm

/-- Calm entries behind others tell nothing. -/
theorem Announces.append_calm {behind : List Entry} (h : Announces level entries ds)
    (hlevel : level.reaches .warning = true) (hbehind : Calm behind) :
    Announces level (entries ++ behind) ds := by
  have hall := h.append (hbehind.announces hlevel)
  rwa [List.append_nil] at hall

/-- Calm entries before others tell nothing. -/
theorem Announces.calm_append {before : List Entry} (h : Announces level entries ds)
    (hlevel : level.reaches .warning = true) (hbefore : Calm before) :
    Announces level (before ++ entries) ds :=
  (hbefore.announces hlevel).append h

/-- A warning and the error that it counts as say the same. -/
theorem Announces.promoted (h : Announces level entries ds) :
    Announces level entries (ds.map Diagnostic.promoted) := by
  rw [Announces, List.forall₂_map_right_iff]
  exact h.imp fun e d htells => ⟨htells.code_eq, htells.span_eq, htells.message_eq⟩

/-- One entry of the level for each diagnostic. -/
theorem announces_map (f : Diagnostic → Entry) (hlevel : ∀ d, (f d).level = level)
    (htells : ∀ d, (f d).Tells d) (ds : List Diagnostic) : Announces level (ds.map f) ds := by
  have hall : (ds.map f).filter (fun entry => entry.level == level) = ds.map f := by
    refine List.filter_eq_self.mpr fun e he => ?_
    obtain ⟨d, -, rfl⟩ := List.mem_map.mp he
    exact beq_iff_eq.mpr (hlevel d)
  rw [Announces, hall, List.forall₂_map_left_iff]
  exact List.forall₂_same.mpr fun d _ => htells d

end Log

namespace Diagnostic

open Log

/-- The error that the log is told for a diagnostic. -/
def errorEntry (d : Diagnostic) : Entry := Entry.error d.code d.message d.span []

/-- The warning that the log is told for a diagnostic. -/
def warningEntry (d : Diagnostic) : Entry := Entry.warning d.code d.message d.span

theorem announces_errorEntry (ds : List Diagnostic) :
    Announces .error (ds.map errorEntry) ds :=
  announces_map errorEntry (fun _ => rfl) (fun _ => ⟨rfl, rfl, rfl⟩) ds

theorem announces_warningEntry (ds : List Diagnostic) :
    Announces .warning (ds.map warningEntry) ds :=
  announces_map warningEntry (fun _ => rfl) (fun _ => ⟨rfl, rfl, rfl⟩) ds

theorem no_warning_errorEntry (ds : List Diagnostic) :
    Announces .warning (ds.map errorEntry) [] := by
  refine announces_nil fun e he hequal => ?_
  obtain ⟨d, -, rfl⟩ := List.mem_map.mp he
  cases hequal

theorem no_error_warningEntry (ds : List Diagnostic) :
    Announces .error (ds.map warningEntry) [] := by
  refine announces_nil fun e he hequal => ?_
  obtain ⟨d, -, rfl⟩ := List.mem_map.mp he
  cases hequal

end Diagnostic

namespace Outcome

open Log

variable {α β ε : Type}

/-- What an outcome failed with. -/
def failures (x : Outcome α) : List Diagnostic :=
  match x.result with
  | .ok _ => []
  | .error ds => ds

/-- The errors in the log are what the outcome failed with, and there are no warnings. -/
structure LogsFailures (x : Outcome α) : Prop where
  errors : Announces .error x.entries x.failures
  warnings : Announces .warning x.entries []

theorem LogsFailures.bind {x : Outcome α} {f : α → Outcome β} (hx : x.LogsFailures)
    (hf : ∀ a, x.result = .ok a → (f a).LogsFailures) : (x >>= f).LogsFailures := by
  obtain ⟨herrors, hwarnings⟩ := hx
  unfold failures at herrors
  cases hresult : x.result with
  | error ds =>
    rw [hresult] at herrors
    rw [bind_of_error hresult]
    exact ⟨herrors, hwarnings⟩
  | ok a =>
    rw [hresult] at herrors
    rw [bind_of_ok hresult]
    exact ⟨herrors.append (hf a hresult).errors, hwarnings.append (hf a hresult).warnings⟩

theorem calm_bind {x : Outcome α} {f : α → Outcome β} (hx : Calm x.entries)
    (hf : ∀ a, Calm (f a).entries) : Calm (x >>= f).entries := by
  cases hresult : x.result with
  | error ds => rwa [bind_of_error hresult]
  | ok a =>
    rw [bind_of_ok hresult]
    exact calm_append.mpr ⟨hx, hf a⟩

theorem logsFailures_of_calm {x : Outcome α} {a : α} (hresult : x.result = .ok a)
    (hcalm : Calm x.entries) : x.LogsFailures := by
  refine ⟨?_, hcalm.announces rfl⟩
  unfold failures
  rw [hresult]
  exact hcalm.announces rfl

theorem logsFailures_of_errors {x : Outcome α} {ds : List Diagnostic}
    (hresult : x.result = .error ds)
    (hentries : ∃ before, x.entries = before ++ ds.map Diagnostic.errorEntry ∧ Calm before) :
    x.LogsFailures := by
  obtain ⟨before, hentries, hbefore⟩ := hentries
  constructor
  · unfold failures
    rw [hresult, hentries]
    exact (Diagnostic.announces_errorEntry ds).calm_append rfl hbefore
  · rw [hentries]
    exact (Diagnostic.no_warning_errorEntry ds).calm_append rfl hbefore

@[simp] theorem ofStage_entries (diagnostics : ε → List Diagnostic) (result : Except ε α)
    (entries : List Entry) : (ofStage diagnostics result entries).entries = entries := by
  cases result <;> rfl

end Outcome

/-! ## The front end -/

namespace Grammar

open Log

variable {grammar : Grammar}

/-- A model in the making tells the log nothing but details. -/
theorem draft_onlyDebug (hparsed : grammar.IsParsed) (preferences : ModelPreferences)
    (overrides : Overrides) : (grammar.draft preferences overrides).draft.OnlyDebug := by
  obtain ⟨assigned, analyzed, keyed, claimed, hstages⟩ :=
    grammar.exists_stages preferences overrides
  have hseparate : (grammar.scope preferences overrides).Separate := hparsed.separate rfl
  have hrules := grammar.rulesFrom_scope preferences overrides
  have hfirst : (grammar.firstDraft preferences overrides).Blank := Draft.empty_blank _ _ _
  have hready := Build.assignRoles_ready hstages.assign hrules (.empty _ _ _)
  have hframe := Build.analyzeRules_frame hseparate hready.fits hrules hstages.analyze
    (hready.blank hfirst).wellFormed
  have hbefore : (grammar.firstDraft preferences overrides).OnlyDebug := by
    simp [Draft.OnlyDebug, firstDraft, Draft.empty]
  have hanalyzed := hframe.onlyDebug (hready.quiet.plain.onlyDebug hbefore)
  rwa [Draft.OnlyDebug, hstages.concludes.entries_eq]

end Grammar

namespace GenerationOptions

open Log Outcome

variable (o : GenerationOptions)

theorem scan_logsFailures (source : List Char) : (o.scan source).LogsFailures := by
  unfold scan
  dsimp only
  generalize Scan.ofText source = s
  have hcomments : Calm (s.placed.filterMap Scan.commentEntry?) := by
    refine .of_debug fun e he => ?_
    obtain ⟨p, -, hp⟩ := List.mem_filterMap.mp he
    obtain ⟨length, -, rfl⟩ := Option.map_eq_some_iff.mp hp
    rfl
  cases herrors : s.errors with
  | nil =>
    refine logsFailures_of_calm (a := s.tokens) ?_ ?_
    · simp [Scan.result, herrors]
    · simp [Scan.entries, herrors, hcomments]
  | cons e rest =>
    have hresult : s.result = .error (e :: rest) := by
      rw [Scan.result, herrors]
    rw [hresult]
    refine logsFailures_of_errors rfl ?_
    rw [ofStage_entries, Scan.entries, herrors, List.map_map]
    exact ⟨_ :: _, rfl, by simp [hcomments]⟩

theorem parse_logsFailures (tokens : List (Located Token)) : (o.parse tokens).LogsFailures := by
  unfold parse
  dsimp only
  generalize (TokenStream.ofTokens tokens).parse o.preferences.parsing = state
  cases hresult : state.result with
  | ok grammar =>
    refine logsFailures_of_calm rfl ?_
    simp [ParseState.entries, hresult]
  | error errors =>
    refine logsFailures_of_errors rfl ?_
    rw [ofStage_entries, ParseState.entries, hresult, List.map_map]
    exact ⟨_, rfl, by simp⟩

theorem model_logsFailures {grammar : Grammar} (hparsed : grammar.IsParsed) :
    (o.model grammar).LogsFailures := by
  have hdraft : Calm (grammar.draft o.preferences.model o.overrides).draft.entries.toList :=
    .of_debug fun e he =>
      Grammar.draft_onlyDebug hparsed _ _ e (Array.mem_toList_iff.mp he)
  unfold model Grammar.buildModel
  split
  · refine logsFailures_of_errors rfl ?_
    rw [List.map_map]
    exact ⟨[], rfl, calm_nil⟩
  · dsimp only
    split
    · refine logsFailures_of_calm rfl ?_
      simp [hdraft]
    · refine logsFailures_of_errors rfl ?_
      rw [List.map_map]
      exact ⟨_, rfl, hdraft⟩

theorem frontEnd_logsFailures (source : List Char) : (o.frontEnd source).LogsFailures := by
  refine (o.scan_logsFailures source).bind fun tokens _ => ?_
  refine (o.parse_logsFailures tokens).bind fun grammar hgrammar => ?_
  exact o.model_logsFailures (TokenStream.isParsed_of_parse (ofStage_result_eq_ok.mp hgrammar))

end GenerationOptions

/-! ## The back end -/

section

open Log

variable {m : GrammarModel} {preferences : LoweringPreferences} {set : ProductionSet}

theorem Lowering.lowerModel_onlyDebug {accept : NonterminalId} {d : ProductionDraft}
    (hm : m.Numbered) (h : lowerModel m preferences default = .ok accept d) : d.OnlyDebug := by
  obtain ⟨d₁, d₂, hdeclares, ⟨u, hrules⟩, haccept⟩ := lowerModel_eq_ok h
  obtain ⟨d₃, action, hdeclare, hproduces⟩ := declareAccept_eq_ok haccept
  have hsize : m.rules.size ≤ d₁.nonterminals.size := by
    rw [hdeclares.size_eq, Array.length_toList]
    exact Nat.le_add_left _ _
  have hbefore : (default : ProductionDraft).OnlyDebug := by
    intro e he
    exact absurd he (Array.not_mem_empty e)
  have hlowered := (lowerRules_extends hm hsize hrules).onlyDebug (hdeclares.onlyDebug hbefore)
  exact hproduces.grows.onlyDebug (hdeclare.onlyDebug hlowered)

theorem GrammarModel.lower_announces (hm : m.Numbered)
    (h : (m.lower preferences).result = .ok set) :
    Announces .error (m.lower preferences).entries [] ∧
      Announces .warning (m.lower preferences).entries
        (set.warnings.map Diagnostic.ofNestedQuantifiers) := by
  obtain ⟨accept, d, hlower, rfl, hcheck⟩ := lower_eq_ok h
  have hdebug : Calm d.entries.toList := .of_debug fun e he =>
    Lowering.lowerModel_onlyDebug hm hlower e (Array.mem_toList_iff.mp he)
  have hentries : (m.lower preferences).entries =
      d.entries.toList ++ loweringEntries (d.finish accept) := by
    unfold lower
    simp only [hlower, hcheck]
  have hwarnings : (d.finish accept).warnings.map (fun w =>
        Entry.warning Code.nestedOperatorCollapsed w.message (some w.span)) =
      ((d.finish accept).warnings.map Diagnostic.ofNestedQuantifiers).map
        Diagnostic.warningEntry := by
    rw [List.map_map]
    rfl
  rw [hentries, loweringEntries, hwarnings]
  have hsuccess (values : List (String × String)) :
      Calm [Entry.success Code.desugared "Desugaring complete" values] := by
    simp
  exact ⟨((Diagnostic.no_error_warningEntry _).append_calm rfl (hsuccess _)).calm_append rfl hdebug,
    ((Diagnostic.announces_warningEntry _).append_calm rfl (hsuccess _)).calm_append rfl hdebug⟩

/-- Artifacts without a fault are nothing but details. -/
theorem Artifact.entries_calm (preferences : ArtifactPreferences)
    (attempts : List (Checked Artifact)) : Calm (Artifact.entries preferences attempts) := by
  unfold Artifact.entries
  refine calm_append.mpr ⟨fun e he => ?_, ?_⟩
  · obtain ⟨attempt, -, hattempt⟩ := List.mem_flatMap.mp he
    cases attempt with
    | ok a =>
      obtain rfl := List.mem_singleton.mp hattempt
      rfl
    | error fault => cases hattempt
  · split <;> simp

end

namespace GenerationOptions

open Log Outcome

variable {o : GenerationOptions} {source : List Char} {m : GrammarModel} {set : ProductionSet}

theorem backEnd_announces (haccepted : (o.frontEnd source).result = .ok m)
    (hlowered : (o.lower m).result = .ok set) :
    Announces .error (o.backEnd source m).entries [] ∧
      Announces .warning (o.backEnd source m).entries
        (set.warnings.map Diagnostic.ofNestedQuantifiers) := by
  obtain ⟨herrors, hwarnings⟩ := GrammarModel.lower_announces (frontEnd_numbered haccepted)
    (ofStage_result_eq_ok.mp hlowered)
  have hentries : ∃ behind, (o.backEnd source m).entries =
      (m.lower o.preferences.lowering).entries ++ behind ∧ Calm behind := by
    unfold backEnd
    rw [bind_of_ok hlowered, lower, ofStage_entries]
    refine ⟨_, rfl, ?_⟩
    dsimp only
    -- behind the lowering a run either ends or logs the catalog and the artifacts
    split
    · exact calm_nil
    · refine calm_bind (calm_cons.mpr ⟨Entry.success_calm _ _ _, calm_nil⟩) fun _ =>
        calm_bind ?_ fun _ => calm_nil
      rw [write, ofStage_entries]
      exact Artifact.entries_calm _ _
  obtain ⟨behind, hentries, hbehind⟩ := hentries
  rw [hentries]
  exact ⟨herrors.append_calm rfl hbehind, hwarnings.append_calm rfl hbehind⟩

/-- The events of a run, with every level wanted; `elapsed` is the time that the run took. -/
def events (o : GenerationOptions) (source : List Char) (origin : Option String)
    (elapsed : String) : List Event :=
  let outcome := o.generate source
  let completion :=
    match outcome.result with
    | .ok g => [g.completion o.baseName elapsed]
    | .error _ => []
  (⟨.debug⟩ : Recorder).record origin (outcome.entries ++ completion)

variable {level : Level} {ds : List Diagnostic}

/-- What a run announces is among its events; the last entry is no error and no warning. -/
theorem events_report (hlevel : level.reaches .warning = true)
    (h : Announces level (o.generate source).entries ds) (origin : Option String)
    (elapsed : String) : Reports level (o.events source origin elapsed) ds := by
  unfold events
  dsimp only
  refine Announces.record ?_ origin
  split
  · exact h.append_calm hlevel (calm_cons.mpr ⟨Entry.success_calm _ _ _, calm_nil⟩)
  · exact h.append_calm hlevel calm_nil

theorem generate_announces (hlevel : level.reaches .warning = true)
    (h : Announces level (o.frontEnd source >>= o.backEnd source).entries ds) :
    Announces level (o.generate source).entries ds := by
  rw [generate_eq, bind_of_ok rfl]
  exact h.calm_append hlevel (calm_cons.mpr ⟨Entry.info_calm _ _, calm_nil⟩)

theorem announces_of_rejected (hrejected : (o.frontEnd source).result = .error ds) :
    Announces .error (o.generate source).entries ds ∧
      Announces .warning (o.generate source).entries [] := by
  obtain ⟨herrors, hwarnings⟩ := o.frontEnd_logsFailures source
  rw [failures, hrejected] at herrors
  constructor
  · refine generate_announces rfl ?_
    rwa [bind_of_error hrejected]
  · refine generate_announces rfl ?_
    rwa [bind_of_error hrejected]

theorem announces_of_accepted (haccepted : (o.frontEnd source).result = .ok m)
    (hlowered : (o.lower m).result = .ok set) :
    Announces .error (o.generate source).entries [] ∧
      Announces .warning (o.generate source).entries
        (set.warnings.map Diagnostic.ofNestedQuantifiers) := by
  obtain ⟨herrors, hwarnings⟩ := o.frontEnd_logsFailures source
  obtain ⟨herrors', hwarnings'⟩ := backEnd_announces haccepted hlowered
  rw [failures, haccepted] at herrors
  constructor
  · refine generate_announces rfl ?_
    rw [bind_of_ok haccepted]
    exact herrors.append herrors'
  · refine generate_announces rfl ?_
    rw [bind_of_ok haccepted]
    exact hwarnings.append hwarnings'

theorem backEnd_warnings {g : Generated} (hlowered : (o.lower m).result = .ok set)
    (h : (o.backEnd source m).result = .ok g) :
    g.warnings = set.warnings.map Diagnostic.ofNestedQuantifiers := by
  rw [backEnd, bind_result_eq_ok] at h
  obtain ⟨set', hset, h⟩ := h
  obtain rfl : set = set' := by
    rw [hlowered] at hset
    cases hset
    rfl
  dsimp only at h
  split at h
  · cases h
  · obtain ⟨_, -, h⟩ := bind_result_eq_ok.mp h
    obtain ⟨artifacts, -, h⟩ := bind_result_eq_ok.mp h
    cases h
    rfl

/-- What the front end rejects is reported as errors, diagnostic by diagnostic. Any other run
reports no error, and as warnings what it returns: its warnings, or the errors that they count
as. -/
theorem generate_reports (o : GenerationOptions) (source : List Char) (origin : Option String)
    (elapsed : String) :
    match (o.frontEnd source).result, (o.generate source).result with
    | .error ds, result =>
      result = .error ds ∧ Reports .error (o.events source origin elapsed) ds ∧
        Reports .warning (o.events source origin elapsed) []
    | .ok _, .ok g =>
      Reports .error (o.events source origin elapsed) [] ∧
        Reports .warning (o.events source origin elapsed) g.warnings
    | .ok m, .error ds =>
      (∃ set, (o.lower m).result = .ok set ∧ ds =
        set.warnings.map fun w => (Diagnostic.ofNestedQuantifiers w).promoted) ∧
        Reports .error (o.events source origin elapsed) [] ∧
          Reports .warning (o.events source origin elapsed) ds := by
  have hgenerated := o.generate_result source
  rw [Outcome.bind_result] at hgenerated
  cases haccepted : (o.frontEnd source).result with
  | error ds =>
    rw [haccepted] at hgenerated
    obtain ⟨herrors, hwarnings⟩ := announces_of_rejected haccepted
    exact ⟨hgenerated, events_report rfl herrors _ _, events_report rfl hwarnings _ _⟩
  | ok m =>
    rw [haccepted] at hgenerated
    dsimp only at hgenerated
    obtain ⟨set, hlowered, hwritten⟩ := exists_written haccepted
    obtain ⟨herrors, hwarnings⟩ := announces_of_accepted haccepted hlowered
    have hback := @backEnd_result o source m set hlowered hwritten
    cases hresult : (o.generate source).result with
    | ok g =>
      refine ⟨events_report rfl herrors _ _, events_report rfl ?_ _ _⟩
      rwa [backEnd_warnings hlowered (hgenerated.symm.trans hresult)]
    | error ds =>
      rw [← hgenerated, hresult] at hback
      split at hback
      · cases hback
        refine ⟨⟨set, hlowered, rfl⟩, events_report rfl herrors _ _, events_report rfl ?_ _ _⟩
        have hpromoted := hwarnings.promoted
        rwa [List.map_map] at hpromoted
      · obtain ⟨g, hg⟩ := hback
        cases hg

end GenerationOptions
end AnnotatedGrammar
