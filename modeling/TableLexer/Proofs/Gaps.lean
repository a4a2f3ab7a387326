import TableLexer.Proofs.Revisions

/-!
# Which state a failed build names

A state is declared by a rule of its own, and by nothing else: to put the cursor on it,
to lead to it, or to give it an empty list of patterns is not enough (`Declared`).
Building succeeds exactly if the initial state and all targets are declared. Otherwise
it names the initial state, or else the first target that is not declared, going
through the states in the order of their first rules (`FirstGap`). That is neither the
order of the script nor that of the state numbers.
-/

namespace TableLexer

variable {α τ : Type}

/-! ## Declared states -/

/-- The state under the cursor after a script. -/
def cursorAfter (cursor : α) : List (Directive α) → α
  | [] => cursor
  | .focus state :: script => cursorAfter state script
  | _ :: script => cursorAfter cursor script

theorem cursorAfter_cons (cursor : α) (directive : Directive α) (script : List (Directive α)) :
    cursorAfter cursor (directive :: script) =
      cursorAfter (cursorAfter cursor [directive]) script := by
  cases directive <;> rfl

theorem authored_cons (cursor : α) (directive : Directive α) (script : List (Directive α)) :
    authored cursor (directive :: script) =
      directive.rules cursor ++ authored (cursorAfter cursor [directive]) script := by
  cases directive <;> rfl

section

variable [DecidableEq α]

/-- The patterns for which a directive adds a rule to `label`, while the cursor is on
`cursor`. -/
def Directive.patternsFor (cursor label : α) : Directive α → List Predicate
  | .focus _ | .limit _ => []
  | .addEach state patterns _ _ => if state = label then patterns else []
  | .onEach patterns _ _ | .stayEach patterns _ => if cursor = label then patterns else []

/-- Some directive of the script adds a rule to `label`. -/
def Declared (cursor : α) (script : List (Directive α)) (label : α) : Prop :=
  ∃ before directive after, script = before ++ directive :: after ∧
    directive.patternsFor (cursorAfter cursor before) label ≠ []

theorem declared_cons (cursor : α) (directive : Directive α) (script : List (Directive α))
    (label : α) : Declared cursor (directive :: script) label ↔
      directive.patternsFor cursor label ≠ [] ∨
        Declared (cursorAfter cursor [directive]) script label := by
  constructor
  · rintro ⟨before, other, after, split, adds⟩
    cases before with
    | nil =>
      cases split
      exact .inl adds
    | cons first before =>
      cases split
      rw [cursorAfter_cons] at adds
      exact .inr ⟨before, other, after, rfl, adds⟩
  · rintro (adds | ⟨before, other, after, rfl, adds⟩)
    · exact ⟨[], directive, script, rfl, adds⟩
    · rw [← cursorAfter_cons] at adds
      exact ⟨directive :: before, other, after, rfl, adds⟩

theorem Directive.exists_rule_iff (cursor label : α) (directive : Directive α) :
    (∃ rule, (label, rule) ∈ directive.rules cursor) ↔
      directive.patternsFor cursor label ≠ [] := by
  cases directive with
  | focus | limit => simp [rules, patternsFor]
  | addEach state patterns action next =>
    by_cases h : state = label
    · simp [rules, patternsFor, h, List.eq_nil_iff_forall_not_mem]
    · simp [rules, patternsFor, h]
  | onEach patterns action next | stayEach patterns action =>
    by_cases h : cursor = label
    · simp [rules, patternsFor, h, List.eq_nil_iff_forall_not_mem]
    · simp [rules, patternsFor, h]

/-- The states with rules are the declared ones. -/
theorem mem_ruled_iff_declared (cursor : α) (script : List (Directive α)) (label : α) :
    label ∈ ruled (authored cursor script) ↔ Declared cursor script label := by
  induction script generalizing cursor with
  | nil => simp [authored, Declared]
  | cons directive script ih =>
    rw [declared_cons, ← ih, authored_cons, ← Directive.exists_rule_iff]
    simp only [mem_ruled, List.mem_append, exists_or]

/-! ## The first gap -/

/-- Rules in the order in which targets are looked at: states in the order of their
first rules, and the rules of a state in order. -/
def byState (rules : List (α × DraftRule α)) : List (α × DraftRule α) :=
  (ruled rules).flatMap fun state => (rulesFor state rules).map fun rule => (state, rule)

theorem mem_byState {edge : α × DraftRule α} {rules : List (α × DraftRule α)} :
    edge ∈ byState rules ↔ edge ∈ rules := by
  obtain ⟨state, rule⟩ := edge
  simp only [byState, rulesFor, List.mem_flatMap, mem_ruled, List.mem_map, List.mem_filter,
    decide_eq_true_eq, Prod.mk.injEq]
  constructor
  · rintro ⟨_, -, _, ⟨⟨_, _⟩, ⟨hm, rfl⟩, rfl⟩, rfl, rfl⟩
    exact hm
  · intro hm
    exact ⟨state, ⟨rule, hm⟩, rule, ⟨(state, rule), ⟨hm, rfl⟩, rfl⟩, rfl, rfl⟩

/-- The target of `edge` is not declared, and it is the first such rule. -/
def FirstGap (init : α) (script : List (Directive α)) (edge : α × DraftRule α) : Prop :=
  ∃ before after, byState (authored init script) = before ++ edge :: after ∧
    (∀ earlier ∈ before, Declared init script earlier.2.next) ∧
    ¬ Declared init script edge.2.next

theorem firstGap_iff {init : α} {script : List (Directive α)} {edge : α × DraftRule α} :
    FirstGap init script edge ↔ (byState (authored init script)).find?
      (fun edge => decide (edge.2.next ∉ ruled (authored init script))) = some edge := by
  simp only [FirstGap, ← mem_ruled_iff_declared, List.find?_eq_some_iff_append,
    decide_eq_true_eq, Bool.not_eq_true', decide_eq_false_iff_not, not_not]
  constructor
  · rintro ⟨before, after, split, earlier, gap⟩
    exact ⟨gap, before, after, split, earlier⟩
  · rintro ⟨gap, before, after, split, earlier⟩
    exact ⟨before, after, split, earlier, gap⟩

/-- If there is a gap at all, there is a first one. -/
theorem exists_firstGap {init : α} {script : List (Directive α)}
    (h : ∃ edge ∈ authored init script, ¬ Declared init script edge.2.next) :
    ∃ edge, FirstGap init script edge := by
  obtain ⟨edge, hm, gap⟩ := h
  rw [← mem_ruled_iff_declared] at gap
  simp only [firstGap_iff, ← Option.isSome_iff_exists, List.find?_isSome]
  exact ⟨edge, mem_byState.mpr hm, by simpa using gap⟩

namespace Draft

theorem targets_grouped {d : Draft α} {rules : List (α × DraftRule α)}
    (hb : d.blocks = grouped rules) :
    d.targets = (byState rules).map fun edge => (edge.1, edge.2.next) := by
  simp [targets, hb, grouped, byState, List.flatMap_map, List.map_flatMap, Function.comp_def]

section

variable {d : Draft α} {script : List (Directive α)}
  (hb : d.blocks = grouped (authored d.init script))
include hb

theorem defines_iff_declared (label : α) :
    d.defines label = true ↔ Declared d.init script label := by
  rw [defines_iff hb, mem_ruled_iff_declared]

/-- The gap that a draft reports is the first one of its script. -/
theorem gap?_of_firstGap {edge : α × DraftRule α} (h : FirstGap d.init script edge) :
    d.gap? = some (edge.1, edge.2.next) := by
  have undefined (label : α) :
      (!d.defines label) = decide (label ∉ ruled (authored d.init script)) := by
    rw [Bool.eq_iff_iff]
    simp [← defines_iff hb]
  rw [gap?, targets_grouped hb, List.find?_map]
  simp only [Function.comp_def, undefined, firstGap_iff.mp h, Option.map_some]

variable [Described α]

theorem build_of_undeclared (h : ¬ Declared d.init script d.init) (factory : Factory α τ)
    (j : Journal α) : d.build factory j =
      (.error (.noTransitions (describe d.init)), j.log (.initUndefined d.init)) := by
  rw [← defines_iff_declared hb] at h
  simp [build, h]

theorem build_of_firstGap (h : Declared d.init script d.init) {edge : α × DraftRule α}
    (gap : FirstGap d.init script edge) (factory : Factory α τ) (j : Journal α) :
    d.build factory j = (.error (.noTransitions (describe edge.2.next)),
      j.log (.targetUndefined edge.1 edge.2.next)) := by
  rw [← defines_iff_declared hb] at h
  simp [build, h, gap?_of_firstGap hb gap]

theorem build_of_declared (h : Declared d.init script d.init)
    (closed : ∀ edge ∈ authored d.init script, Declared d.init script edge.2.next)
    (factory : Factory α τ) (j : Journal α) :
    ∃ (t : Table α τ) (states rules : Nat),
      d.build factory j = (.ok t, j.log (.tableBuilt t.init states rules)) := by
  have none : d.gap? = none := by
    rw [gap?_eq_none_iff hb]
    intro state rule hm
    rw [mem_ruled_iff_declared]
    exact closed (state, rule) (by simpa [rulesFor] using hm)
  rw [← defines_iff_declared hb] at h
  exact ⟨d.toTable factory, _, _, by simp [build, h, none]; rfl⟩

end

variable [Described α]

/-- What building a script comes to, started with the journal `j`. -/
structure Diagnosis (init : α) (script : List (Directive α)) (j : Journal α)
    (outcome : Except TableError (Table α τ) × Journal α) : Prop where
  /-- The initial state is named and logged as undefined exactly if it is not declared. -/
  init_iff : outcome = (.error (.noTransitions (describe init)), j.log (.initUndefined init)) ↔
    ¬ Declared init script init
  /-- Where no other label has the text of the initial one, the error alone tells. -/
  init_text_iff : (∀ label, describe label = describe init → label = init) →
    (outcome.1 = .error (.noTransitions (describe init)) ↔ ¬ Declared init script init)
  gap : Declared init script init →
    (∃ edge ∈ authored init script, ¬ Declared init script edge.2.next) →
    ∃ edge, FirstGap init script edge ∧
      outcome = (.error (.noTransitions (describe edge.2.next)),
        j.log (.targetUndefined edge.1 edge.2.next))
  ok_iff : (∃ t, outcome.1 = .ok t) ↔ Declared init script init ∧
    ∀ edge ∈ authored init script, Declared init script edge.2.next
  /-- The factory is not called. -/
  calls : outcome.2.calls = j.calls

theorem diagnosis_build {d : Draft α} {script : List (Directive α)}
    (hb : d.blocks = grouped (authored d.init script)) (factory : Factory α τ) (j : Journal α) :
    Diagnosis d.init script j (d.build factory j) := by
  by_cases init : Declared d.init script d.init
  · by_cases gaps : ∃ edge ∈ authored d.init script, ¬ Declared d.init script edge.2.next
    · obtain ⟨edge, first⟩ := exists_firstGap gaps
      obtain ⟨before, after, -, -, gap⟩ := id first
      rw [build_of_firstGap hb init first]
      constructor
      case init_iff => simp [init, Journal.log, Array.push_eq_push]
      case init_text_iff =>
        intro apart
        have other : describe edge.2.next ≠ describe d.init := fun same =>
          gap (apart _ same ▸ init)
        simp [init, other]
      case gap => exact fun _ _ => ⟨edge, first, rfl⟩
      case ok_iff => simpa [init] using gaps
      case calls => rfl
    · have closed : ∀ edge ∈ authored d.init script, Declared d.init script edge.2.next := by
        simpa using gaps
      obtain ⟨t, states, rules, succeeds⟩ := build_of_declared hb init closed factory j
      rw [succeeds]
      constructor
      case init_iff => simp [init]
      case init_text_iff => simp [init]
      case gap => exact fun _ exists_gap => absurd exists_gap gaps
      case ok_iff => simpa [init] using closed
      case calls => rfl
  · rw [build_of_undeclared hb init]
    constructor
    case init_iff => simp [init]
    case init_text_iff => simp [init]
    case gap => exact fun declared => absurd declared init
    case ok_iff => simp [init]
    case calls => rfl

/-- Building a script names the first state that lacks rules, or else succeeds. -/
theorem build_names_first_gap (init : α) (limits : Limits) (script : List (Directive α))
    (factory : Factory α τ) (j₀ j : Journal α) :
    Diagnosis init script j (((start init limits).run script j₀).1.build factory j) ∧
      ∀ label, rulesFor label (authored init script) = [] ↔ ¬ Declared init script label := by
  obtain ⟨hinit, hblocks, -⟩ := run_start init limits script j₀
  generalize ((start init limits).run script j₀).1 = d at hinit hblocks ⊢
  subst hinit
  refine ⟨diagnosis_build hblocks factory j, fun label => ?_⟩
  rw [← mem_ruled_iff_declared, ← rulesFor_ne_nil_iff, not_not]

end Draft

end

/-- The targets 3 and 4 have no rules. The one of 3 is written first, and leads from the
initial state, but the rules of 2 begin before it. -/
def gapScript : List (Directive Nat) :=
  [.focus 3, .onEach [] .shift 3, .add 2 .any .shift 0, .add 0 .any .shift 3,
    .add 2 (.only 'a') .reduce 4, .addEach 4 [] .skip 0]

/-- The error names 4, which has a directive of its own but no rule. -/
theorem Draft.build_names_first_gap_late :
    Declared 0 gapScript 0 ∧ ¬ Declared 0 gapScript 3 ∧ ¬ Declared 0 gapScript 4 ∧
      (((start 0 {}).run gapScript {}).1.build (Factory.text : Factory Nat String) {}).1 =
        .error (.noTransitions "4") := by
  obtain ⟨outcome, declared⟩ := build_names_first_gap 0 {} gapScript
    (Factory.text : Factory Nat String) {} {}
  have init : Declared 0 gapScript 0 := by
    rw [← mem_ruled_iff_declared]
    decide
  have three : ¬ Declared 0 gapScript 3 := (declared 3).mp rfl
  have four : ¬ Declared 0 gapScript 4 := (declared 4).mp rfl
  obtain ⟨edge, first, fails⟩ := outcome.gap init ⟨(0, ⟨.any, .shift, 3⟩), .tail _ (.head _), three⟩
  have found : (2, (⟨.only 'a', .reduce, 4⟩ : DraftRule Nat)) = edge :=
    Option.some.inj (firstGap_iff.mp first)
  subst found
  exact ⟨init, three, four, congrArg Prod.fst fails⟩

end TableLexer
