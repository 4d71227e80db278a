import Statechart.Proofs.Chart.WellFormed

/-! Checking a chart decides whether it is well formed, and otherwise reports what is wrong with it:
every violation once, in the order of their places, and nothing else. The problems that are told
carry no places, so the proof goes through a list of the same problems that does.
-/

namespace Statechart

namespace Chart

section Accepted

variable {chart : Chart} {outline : Outline}

-----------------------------------------------------------------------------------------
-- Problems with their places
-----------------------------------------------------------------------------------------

/-- Problems that are found at one place. -/
def located (place : Place) (problems : List Problem) : List (Place × Problem) :=
  problems.map (place, ·)

/-- What is found at each of some elements, which are told by their positions. -/
def numbered {α : Type} (found : Nat → α → List (Place × Problem)) (list : List α)
    : List (Place × Problem) :=
  list.zipIdx.flatMap (fun element => found element.2 element.1)

/-- The problems with one alternative, each at its place. -/
def alternativeReports (outline : Outline) (transition : Transition) (position choice : Nat)
    (alternative : Alternative)
    : List (Place × Problem) :=
  located (.alternative position choice .predicate)
      (nameProblems transition.source .predicate (alternative.predicate.map (·.name)))
    ++ located (.alternative position choice .action)
      (nameProblems transition.source .action (alternative.action.map (·.name)))
    ++ located (.alternative position choice .target)
      (targetProblems outline transition alternative.target)

def transitionReports (outline : Outline) (position : Nat) (transition : Transition)
    : List (Place × Problem) :=
  located (.source position)
      (Problem.unlessHolds (outline.has transition.source) (.unknownState transition.source))
    ++ numbered (alternativeReports outline transition position) transition.alternatives

def entryReports (chart : Chart) (outline : Outline) (position : Nat) (state : String)
    : List (Place × Problem) :=
  located (.entry position) (if outline.isCompound state then chart.entryProblems state else [])

/-- All problems of a chart, each at its place. -/
def reports (chart : Chart) (outline : Outline) : List (Place × Problem) :=
  located .states (Problem.unlessHolds (!outline.isEmpty) .emptyChart)
    ++ numbered (transitionReports outline) chart.transitions
    ++ numbered (chart.entryReports outline) outline.names

@[simp]
theorem map_snd_located (place : Place) (problems : List Problem)
    : (located place problems).map (·.2) = problems := by
  simp [located, Function.comp_def]

@[simp]
theorem mem_located {place place' : Place} {problems : List Problem} {problem : Problem}
    : (place, problem) ∈ located place' problems ↔ place = place' ∧ problem ∈ problems := by
  simp [located, eq_comm, and_comm]

theorem map_snd_numbered {α : Type} {found : Nat → α → List (Place × Problem)}
    {problems : α → List Problem}
    (each : ∀ position element, (found position element).map (·.2) = problems element)
    (list : List α)
    : (numbered found list).map (·.2) = list.flatMap problems := by
  simp only [numbered, List.map_flatMap, each]
  rw [← List.flatMap_map Prod.fst, List.zipIdx_map_fst]

@[simp]
theorem mem_numbered {α : Type} {found : Nat → α → List (Place × Problem)} {list : List α}
    {report : Place × Problem}
    : report ∈ numbered found list
      ↔ ∃ position element, list[position]? = some element ∧ report ∈ found position element := by
  simp only [numbered, List.mem_flatMap, Prod.exists, List.mem_zipIdx_iff_getElem?]
  exact exists_comm

/-- The reports without their places are the problems that are told. -/
theorem map_snd_reports (chart : Chart) (outline : Outline)
    : (chart.reports outline).map (·.2) = chart.problems outline := by
  have alternatives (position : Nat) (transition : Transition)
      : (transitionReports outline position transition).map (·.2)
        = transitionProblems outline transition := by
    rw [transitionReports, transitionProblems, List.map_append, map_snd_located]
    refine congrArg _ (map_snd_numbered (fun choice alternative => ?_) _)
    simp only [alternativeReports, alternativeProblems, List.map_append, map_snd_located]
  have compounds
      : outline.compounds.flatMap chart.entryProblems
        = outline.names.flatMap
            (fun state => if outline.isCompound state then chart.entryProblems state else []) := by
    rw [Outline.compounds]
    induction outline.names with
    | nil => rfl
    | cons state rest ih =>
        rw [List.filter_cons, List.flatMap_cons, ← ih]
        split <;> simp
  have entries (position : Nat) (state : String)
      : (chart.entryReports outline position state).map (·.2)
        = if outline.isCompound state then chart.entryProblems state else [] :=
    map_snd_located _ _
  rw [reports, problems, compounds, List.map_append, List.map_append, map_snd_located,
    map_snd_numbered alternatives, map_snd_numbered entries]

-----------------------------------------------------------------------------------------
-- They are the violations
-----------------------------------------------------------------------------------------

@[simp]
theorem mem_unlessHolds {holds : Bool} {problem told : Problem}
    : told ∈ Problem.unlessHolds holds problem ↔ holds = false ∧ told = problem := by
  cases holds <;> simp [Problem.unlessHolds]

/-- A function is told if it is used and its name is blank. -/
theorem mem_nameProblems {source : String} {kind : FunctionKind} {name : Option String}
    {problem : Problem}
    : problem ∈ nameProblems source kind name
      ↔ (∃ used, name = some used ∧ isBlankText used = true)
        ∧ problem = .anonymousFunction source kind := by
  cases name with
  | none => simp [nameProblems]
  | some used => simp [nameProblems]

/-- A target that cannot be found is a history target of no compound state, or else the name of no
known state.
-/
theorem flaw_targetProblem (built : Outline.ofForest chart.states = .ok outline)
    {transition : Transition} {alternative : Alternative} {target : String}
    (aims : alternative.target = some target) (lost : isTarget outline target = false)
    : chart.Flaw transition alternative .target (targetProblem target) := by
  have nowhere : ¬ ∃ state, chart.Leads target state := by
    rw [← isTarget_iff built, lost]
    exact Bool.false_ne_true
  unfold targetProblem isHistoryTarget
  cases back : historyOwner? target with
  | none =>
      refine .unknown aims ?_ fun known => nowhere ⟨target, .state known⟩
      rintro owner rfl
      simp [historyOwner?_historyOf] at back
  | some owner =>
      obtain rfl := eq_historyOf_of_historyOwner? back
      exact .simple aims fun compound => nowhere ⟨owner, .history compound⟩

/-- The problems with a target are its flaws. -/
theorem mem_targetProblems (built : Outline.ofForest chart.states = .ok outline)
    {transition : Transition} {alternative : Alternative} {problem : Problem}
    : problem ∈ targetProblems outline transition alternative.target
      ↔ chart.Flaw transition alternative .target problem := by
  cases aims : alternative.target with
  | none =>
      simp only [targetProblems, mem_unlessHolds, Bool.not_eq_false', isEntry_iff built]
      constructor
      · rintro ⟨enters, rfl⟩
        exact .untargeted enters aims
      · intro flaw
        cases flaw with
        | untargeted enters => exact ⟨enters, rfl⟩
        | unknown aims' | simple aims' | outside _ aims' => simp [aims] at aims'
  | some target =>
      simp only [targetProblems, List.mem_append, mem_unlessHolds]
      constructor
      · rintro (⟨lost, rfl⟩ | told)
        · exact flaw_targetProblem built aims lost
        · split at told
          · rename_i both
            simp only [Bool.and_eq_true, isEntry_iff built] at both
            obtain ⟨outside, rfl⟩ := mem_unlessHolds.mp told
            refine .outside both.2 aims ((leads_iff built).mpr ⟨both.1, rfl⟩) fun inside => ?_
            simp [(contains_iff built).mpr inside] at outside
          · cases told
      · intro flaw
        cases flaw with
        | unknown aims' plain unknown =>
            obtain rfl := Option.some.inj (aims.symm.trans aims')
            have back : historyOwner? target = none :=
              Option.eq_none_iff_forall_ne_some.mpr fun owner back =>
                plain owner (eq_historyOf_of_historyOwner? back)
            simp [isTarget, targetProblem, isHistoryTarget, back, mt (has_iff built).mp unknown]
        | @simple owner aims' simple =>
            obtain rfl := Option.some.inj (aims.symm.trans aims')
            simp [isTarget, targetProblem, isHistoryTarget, historyOwner?_historyOf,
              mt (isCompound_iff built).mp simple]
        | untargeted _ aims' => simp [aims] at aims'
        | outside enters aims' leads outside =>
            obtain rfl := Option.some.inj (aims.symm.trans aims')
            obtain ⟨found, rfl⟩ := (leads_iff built).mp leads
            simp [found, (isEntry_iff built).mpr enters, mt (contains_iff built).mp outside]

/-- What is told of an alternative is each of its flaws, at its aspect. -/
theorem mem_alternativeReports (built : Outline.ofForest chart.states = .ok outline)
    {transition : Transition} {position choice : Nat} {alternative : Alternative}
    {place : Place} {problem : Problem}
    : (place, problem) ∈ alternativeReports outline transition position choice alternative
      ↔ ∃ aspect,
          place = .alternative position choice aspect
          ∧ chart.Flaw transition alternative aspect problem := by
  simp only [alternativeReports, List.mem_append, mem_located, mem_targetProblems built]
  constructor
  · rintro ((⟨rfl, told⟩ | ⟨rfl, told⟩) | ⟨rfl, flaw⟩)
    · obtain ⟨⟨name, used, blank⟩, rfl⟩ := mem_nameProblems.mp told
      obtain ⟨predicate, uses, rfl⟩ := Option.map_eq_some_iff.mp used
      exact ⟨.predicate, rfl, .predicate uses blank⟩
    · obtain ⟨⟨name, used, blank⟩, rfl⟩ := mem_nameProblems.mp told
      obtain ⟨action, uses, rfl⟩ := Option.map_eq_some_iff.mp used
      exact ⟨.action, rfl, .action uses blank⟩
    · exact ⟨.target, rfl, flaw⟩
  · rintro ⟨aspect, rfl, flaw⟩
    cases aspect with
    | predicate =>
        cases flaw with
        | predicate uses blank =>
            exact Or.inl (Or.inl ⟨rfl, mem_nameProblems.mpr ⟨⟨_, by rw [uses]; rfl, blank⟩, rfl⟩⟩)
    | action =>
        cases flaw with
        | action uses blank =>
            exact Or.inl (Or.inr ⟨rfl, mem_nameProblems.mpr ⟨⟨_, by rw [uses]; rfl, blank⟩, rfl⟩⟩)
    | target => exact Or.inr ⟨rfl, flaw⟩

/-- A compound state is told if no automatic transition is declared on it. -/
theorem mem_entryReports (built : Outline.ofForest chart.states = .ok outline)
    {position : Nat} {state : String} {place : Place} {problem : Problem}
    : (place, problem) ∈ chart.entryReports outline position state
      ↔ place = .entry position
        ∧ problem = .missingEntry state
        ∧ chart.Compound state
        ∧ ∀ transition ∈ chart.transitions,
            transition.source = state → transition.isAutomatic = false := by
  simp only [entryReports, mem_located, ← isCompound_iff built]
  split
  · rename_i compound
    simp [compound, entryProblems, and_comm]
  · rename_i leaf
    simp [leaf]

/-- What is told of a chart whose tree is accepted is what is wrong with it. -/
theorem mem_reports (built : Outline.ofForest chart.states = .ok outline) (place : Place)
    (problem : Problem)
    : (place, problem) ∈ chart.reports outline ↔ chart.Violates place problem := by
  simp only [reports, transitionReports, List.mem_append, mem_located, mem_numbered,
    mem_unlessHolds, mem_alternativeReports built, mem_entryReports built, Bool.not_eq_false',
    Outline.isEmpty_iff_of_ofForest built, Outline.names_of_ofForest built]
  constructor
  · rintro ((⟨rfl, none, rfl⟩ | ⟨position, transition, declared, told⟩)
      | ⟨position, state, named, rfl, rfl, compound, unentered⟩)
    · exact .states none
    · rcases told with ⟨rfl, unknown, rfl⟩ | ⟨choice, alternative, offered, aspect, rfl, flaw⟩
      · refine .source declared fun known => ?_
        simp [(has_iff built).mpr known] at unknown
      · exact .alternative declared offered flaw
    · exact .entry named compound unentered
  · intro violates
    cases violates with
    | states none => exact Or.inl (Or.inl ⟨rfl, none, rfl⟩)
    | source declared unknown =>
        refine Or.inl (Or.inr ⟨_, _, declared, Or.inl ⟨rfl, ?_, rfl⟩⟩)
        simpa using mt (has_iff built).mp unknown
    | alternative declared offered flaw =>
        exact Or.inl (Or.inr ⟨_, _, declared, Or.inr ⟨_, _, offered, _, rfl, flaw⟩⟩)
    | entry named compound unentered =>
        exact Or.inr ⟨_, _, named, rfl, rfl, compound, unentered⟩

-----------------------------------------------------------------------------------------
-- They are told in order
-----------------------------------------------------------------------------------------

/-- A report of a place that comes before that of another. -/
def Earlier (report later : Place × Problem) : Prop :=
  report.1.rank < later.1.rank

theorem zipIdx_ascending {α : Type} (list : List α) (start : Nat)
    : (list.zipIdx start).Pairwise (fun element later => element.2 < later.2) := by
  induction list generalizing start with
  | nil => exact .nil
  | cons first rest ih =>
      exact List.pairwise_cons.mpr ⟨fun later member => List.le_snd_of_mem_zipIdx member, ih _⟩

/-- Reports of places that are ranked by some numbers first. -/
def Within (first : List Nat) (reports : List (Place × Problem)) : Prop :=
  ∀ report ∈ reports, first <+: report.1.rank

theorem within_located {first : List Nat} {place : Place} (ranked : first <+: place.rank)
    (problems : List Problem)
    : Within first (located place problems) := by
  intro report member
  obtain ⟨problem, _, rfl⟩ := List.mem_map.mp member
  exact ranked

theorem Within.append {first : List Nat} {reports others : List (Place × Problem)}
    (within : Within first reports) (within' : Within first others)
    : Within first (reports ++ others) := by
  intro report member
  exact (List.mem_append.mp member).elim (within report) (within' report)

theorem Within.shorter {first more : List Nat} {reports : List (Place × Problem)}
    (within : Within (first ++ more) reports)
    : Within first reports :=
  fun report member => (List.prefix_append first more).trans (within report member)

theorem Within.numbered {α : Type} {found : Nat → α → List (Place × Problem)} {first : List Nat}
    (each : ∀ position element, Within (first ++ [position]) (found position element))
    (list : List α)
    : Within first (numbered found list) := by
  intro report member
  obtain ⟨position, element, _, told⟩ := mem_numbered.mp member
  exact (each position element).shorter report told

/-- Reports whose places are ranked by a lower number come first; by induction on what is the same
before it.
-/
theorem Within.earlier {first : List Nat} {number next : Nat}
    {reports later : List (Place × Problem)} (within : Within (first ++ [number]) reports)
    (within' : Within (first ++ [next]) later) (less : number < next)
    : ∀ report ∈ reports, ∀ report' ∈ later, Earlier report report' := by
  have lower (rest others : List Nat) : first ++ number :: rest < first ++ next :: others := by
    clear within within'
    induction first with
    | nil => exact List.cons_lt_cons_iff.mpr (Or.inl less)
    | cons head tail ih => exact List.cons_lt_cons_iff.mpr (Or.inr ⟨rfl, ih⟩)
  intro report member report' member'
  obtain ⟨rest, rank⟩ := within report member
  obtain ⟨others, rank'⟩ := within' report' member'
  rw [Earlier, ← rank, ← rank', List.append_assoc, List.append_assoc]
  exact lower rest others

theorem located_ordered (place : Place) {problems : List Problem} (single : problems.length ≤ 1)
    : (located place problems).Pairwise Earlier := by
  match problems with
  | [] => exact .nil
  | [problem] => exact List.pairwise_singleton _ _
  | _ :: _ :: _ => simp at single

/-- What is found at elements is in order if it is at each of them and tells their positions. -/
theorem numbered_ordered {α : Type} {found : Nat → α → List (Place × Problem)} (first : List Nat)
    (each : ∀ position element, (found position element).Pairwise Earlier)
    (within : ∀ position element, Within (first ++ [position]) (found position element))
    (list : List α)
    : (numbered found list).Pairwise Earlier := by
  refine List.pairwise_flatMap.mpr ⟨fun element _ => each _ _, ?_⟩
  exact (zipIdx_ascending list 0).imp fun less => (within _ _).earlier (within _ _) less

theorem length_unlessHolds (holds : Bool) (problem : Problem)
    : (Problem.unlessHolds holds problem).length ≤ 1 := by
  cases holds <;> simp [Problem.unlessHolds]

theorem length_nameProblems (source : String) (kind : FunctionKind) (name : Option String)
    : (nameProblems source kind name).length ≤ 1 := by
  cases name with
  | none => simp [nameProblems]
  | some name => exact length_unlessHolds _ _

/-- One thing at most is wrong with a target: whether it leads inside is only asked if it can be
found.
-/
theorem length_targetProblems (outline : Outline) (transition : Transition)
    (target : Option String)
    : (targetProblems outline transition target).length ≤ 1 := by
  cases target with
  | none => exact length_unlessHolds _ _
  | some target =>
      rw [targetProblems]
      cases isTarget outline target with
      | false => simp [Problem.unlessHolds]
      | true =>
          simp only [Problem.unlessHolds, if_true, List.nil_append, Bool.true_and]
          split
          · exact length_unlessHolds _ _
          · exact Nat.zero_le 1

/-- The reports of an alternative are those of its aspects, one after the other. -/
theorem alternativeReports_ordered (outline : Outline) (transition : Transition)
    (position choice : Nat) (alternative : Alternative)
    : (alternativeReports outline transition position choice alternative).Pairwise Earlier
      ∧ Within [1, position, 1, choice]
          (alternativeReports outline transition position choice alternative) := by
  have ranked (aspect : Aspect) (problems : List Problem)
      : Within ([1, position, 1, choice] ++ [aspect.rank])
          (located (.alternative position choice aspect) problems) :=
    within_located List.prefix_rfl problems
  have ordered {aspect : Aspect} {problems : List Problem} (single : problems.length ≤ 1)
      : (located (.alternative position choice aspect) problems).Pairwise Earlier :=
    located_ordered _ single
  refine ⟨?_, ((ranked _ _).shorter.append (ranked _ _).shorter).append (ranked _ _).shorter⟩
  refine List.pairwise_append.mpr ⟨List.pairwise_append.mpr ⟨?_, ?_, ?_⟩, ?_, ?_⟩
  · exact ordered (length_nameProblems _ _ _)
  · exact ordered (length_nameProblems _ _ _)
  · exact (ranked .predicate _).earlier (ranked .action _) (by decide)
  · exact ordered (length_targetProblems _ _ _)
  · intro report member
    rcases List.mem_append.mp member with member | member
    · exact (ranked .predicate _).earlier (ranked .target _) (by decide) report member
    · exact (ranked .action _).earlier (ranked .target _) (by decide) report member

/-- Those of a transition are that of its source, and then those of its alternatives. -/
theorem transitionReports_ordered (outline : Outline) (position : Nat) (transition : Transition)
    : (transitionReports outline position transition).Pairwise Earlier
      ∧ Within [1, position] (transitionReports outline position transition) := by
  have source (problems : List Problem)
      : Within ([1, position] ++ [0]) (located (.source position) problems) :=
    within_located List.prefix_rfl problems
  have each (choice : Nat) (alternative : Alternative) :=
    alternativeReports_ordered outline transition position choice alternative
  have alternatives
      : Within ([1, position] ++ [1])
          (numbered (alternativeReports outline transition position) transition.alternatives) :=
    .numbered (fun choice alternative => (each choice alternative).2) _
  refine ⟨List.pairwise_append.mpr ⟨?_, ?_, ?_⟩, (source _).shorter.append alternatives.shorter⟩
  · exact located_ordered _ (length_unlessHolds _ _)
  · exact numbered_ordered [1, position, 1] (fun choice alternative => (each _ _).1)
      (fun choice alternative => (each choice alternative).2) _
  · exact (source _).earlier alternatives (by decide)

/-- Those of a chart are in the order of their places. -/
theorem reports_ordered (chart : Chart) (outline : Outline)
    : (chart.reports outline).Pairwise Earlier := by
  have states (problems : List Problem) : Within ([] ++ [0]) (located .states problems) :=
    within_located List.prefix_rfl problems
  have each (position : Nat) (transition : Transition) :=
    transitionReports_ordered outline position transition
  have transitions
      : Within ([] ++ [1]) (numbered (transitionReports outline) chart.transitions) :=
    .numbered (fun position transition => (each position transition).2) _
  have entry (position : Nat) (state : String)
      : Within ([2] ++ [position]) (chart.entryReports outline position state) :=
    within_located List.prefix_rfl _
  have entries : Within ([] ++ [2]) (numbered (chart.entryReports outline) outline.names) :=
    .numbered entry _
  refine List.pairwise_append.mpr ⟨List.pairwise_append.mpr ⟨?_, ?_, ?_⟩, ?_, ?_⟩
  · exact located_ordered _ (length_unlessHolds _ _)
  · exact numbered_ordered [1] (fun _ _ => (each _ _).1) (fun _ _ => (each _ _).2) _
  · exact (states _).earlier transitions (by decide)
  · refine numbered_ordered [2] (fun position state => located_ordered _ ?_) entry _
    split
    · exact length_unlessHolds _ _
    · exact Nat.zero_le 1
  · intro report member
    rcases List.mem_append.mp member with member | member
    · exact (states _).earlier entries (by decide) report member
    · exact transitions.earlier entries (by decide) report member

-----------------------------------------------------------------------------------------
-- Validation
-----------------------------------------------------------------------------------------

/-- A chart is accepted when its tree is and it is well formed. -/
theorem validate_eq_ok_iff
    : chart.validate = .ok outline
      ↔ Outline.ofForest chart.states = .ok outline ∧ chart.WellFormed := by
  have none_iff (built : Outline.ofForest chart.states = .ok outline)
      : chart.problems outline = [] ↔ chart.WellFormed := by
    rw [wellFormed_iff built, ← map_snd_reports, List.map_eq_nil_iff,
      List.eq_nil_iff_forall_not_mem, Prod.forall]
    simp only [mem_reports built]
  constructor
  · intro accepted
    obtain ⟨built, clean⟩ := validate_eq_ok accepted
    exact ⟨built, (none_iff built).mp clean⟩
  · rintro ⟨built, wf⟩
    simp only [validate, built, bind, Except.bind, (none_iff built).mpr wf, Problems.check]

end Accepted

/-- Checking a chart tells the problems with its tree, if there are any. Otherwise it accepts the
chart exactly if this is well formed, and tells what is wrong with it if not: each violation once,
in the order of their places, a lone one as itself and several together.
-/
theorem validate_reports (chart : Chart)
    : (∀ problems,
          Outline.ofForest chart.states = .error problems → chart.validate = .error problems)
      ∧ ∀ outline,
          Outline.ofForest chart.states = .ok outline
          → (chart.validate = .ok outline ↔ chart.WellFormed)
            ∧ ∃ reports : List (Place × Problem),
                reports.Pairwise (fun report later => report.1.rank < later.1.rank)
                ∧ (∀ place problem, (place, problem) ∈ reports ↔ chart.Violates place problem)
                ∧ (reports = [] → chart.validate = .ok outline)
                ∧ ∀ first others,
                    reports.map (·.2) = first :: others
                    → chart.validate = .error ⟨first, others⟩
                      ∧ (others = []
                        → (Problems.mk first others).message = first.message)
                      ∧ (others ≠ []
                        → (Problems.mk first others).message
                          = "Definition has " ++ toString reports.length ++ " problems: "
                            ++ String.intercalate "; " (reports.map (·.2.message))) := by
  refine ⟨?_, fun outline built => ⟨?_, chart.reports outline, ?_, ?_, ?_, ?_⟩⟩
  · intro problems rejected
    simp only [validate, rejected, bind, Except.bind]
  · simp [validate_eq_ok_iff, built]
  · exact reports_ordered chart outline
  · exact mem_reports built
  · intro none
    simp only [validate, built, bind, Except.bind, ← map_snd_reports, none, List.map_nil,
      Problems.check]
  · intro first others told
    have listed : first :: others = (Problems.mk first others).toList := rfl
    refine ⟨?_, ?_, ?_⟩
    · simp only [validate, built, bind, Except.bind, ← map_snd_reports, told, Problems.check]
    · rintro rfl
      rfl
    · intro several
      have counted : (chart.reports outline).length = (first :: others).length := by
        rw [← told, List.length_map]
      have spoken
          : (chart.reports outline).map (·.2.message) = (first :: others).map Problem.message := by
        rw [← told, List.map_map]
        rfl
      rw [counted, spoken]
      cases others with
      | nil => exact absurd rfl several
      | cons second rest => rfl

/-- A chart with an unknown source, a history of a leaf, a guard without a name, an entry without a
target, one that leads outside, and no way in from the root.
-/
def tangledChart : Chart where
  states := .compound "open" (.leaf "wide" .nil) (.leaf "shut" .nil)
  transitions :=
    [⟨"ghost", none, .always (some (historyOf "shut")) none⟩,
      ⟨"open", none,
        .guarded
          [⟨⟨" ", fun _ _ _ => true⟩, none, none⟩,
            ⟨⟨"windy", fun _ _ _ => true⟩, some "shut", none⟩]⟩]

/-- All six are told, in the order of their places. -/
theorem tangledChart_told
    : ¬ tangledChart.WellFormed
      ∧ ∃ reports : List (Place × Problem),
          reports.Pairwise (fun report later => report.1.rank < later.1.rank)
          ∧ (∀ place problem, (place, problem) ∈ reports ↔ tangledChart.Violates place problem)
          ∧ reports.map (·.2)
            = [.unknownState "ghost", .invalidHistoryTarget (historyOf "shut"),
                .anonymousFunction "open" .predicate, .entryWithoutTarget "open",
                .entryOutside "open" "shut", .missingEntry rootName] := by
  have built
      : Outline.ofForest tangledChart.states
        = .ok ⟨[⟨rootName, []⟩, ⟨"open", [rootName]⟩, ⟨"wide", ["open", rootName]⟩,
            ⟨"shut", [rootName]⟩]⟩ :=
    rfl
  have told
      : tangledChart.validate
        = .error ⟨.unknownState "ghost",
            [.invalidHistoryTarget (historyOf "shut"), .anonymousFunction "open" .predicate,
              .entryWithoutTarget "open", .entryOutside "open" "shut", .missingEntry rootName]⟩ :=
    rfl
  obtain ⟨accepts, reports, ordered, exact, clean, several⟩ :=
    (validate_reports tangledChart).2 _ built
  rw [told] at accepts clean
  refine ⟨fun wf => (nomatch accepts.mpr wf), reports, ordered, exact, ?_⟩
  cases listed : reports.map (·.2) with
  | nil => cases clean (List.map_eq_nil_iff.mp listed)
  | cons first others =>
      obtain ⟨failed, _⟩ := several first others listed
      rw [told] at failed
      cases failed
      rfl

end Chart

end Statechart
