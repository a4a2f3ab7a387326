import Mathlib.Data.List.Nodup
import TableLexer.Draft

/-!
# What a script writes and what a table keeps of it

`authored` reads a script as the plain list of its rules, each with its state. A
draft groups them by state (`grouped`), and a table that is built from the draft has
for each state exactly the rules authored for it, in order (`Faithful`).
-/

namespace TableLexer

variable {α τ : Type}

/-! ## Reading a script -/

/-- The rules of a script, each with its state. Directives without a state are about
the one under the cursor. -/
def authored (cursor : α) : List (Directive α) → List (α × DraftRule α)
  | [] => []
  | .focus state :: script => authored state script
  | .limit _ :: script => authored cursor script
  | .addEach state patterns action next :: script =>
    patterns.map (fun p => (state, ⟨p, action, next⟩)) ++ authored cursor script
  | .onEach patterns action next :: script =>
    patterns.map (fun p => (cursor, ⟨p, action, next⟩)) ++ authored cursor script
  | .stayEach patterns action :: script =>
    patterns.map (fun p => (cursor, ⟨p, action, cursor⟩)) ++ authored cursor script

/-- The limits last set by a script, or else those it starts with. -/
def finalLimits (limits : Limits) : List (Directive α) → Limits
  | [] => limits
  | .limit later :: script => finalLimits later script
  | _ :: script => finalLimits limits script

section

variable [DecidableEq α]

/-- The rules for one state, in order. -/
def rulesFor (state : α) (rules : List (α × DraftRule α)) : List (DraftRule α) :=
  (rules.filter fun rule => rule.1 = state).map (·.2)

/-- The states that have rules, in the order of their first ones. -/
def ruled (rules : List (α × DraftRule α)) : List α := (rules.map (·.1)).eraseDups

/-- The rules gathered by state. -/
def grouped (rules : List (α × DraftRule α)) : List (Block α) :=
  (ruled rules).map fun state => ⟨state, rulesFor state rules⟩

@[simp] theorem mem_ruled {state : α} {rules : List (α × DraftRule α)} :
    state ∈ ruled rules ↔ ∃ rule, (state, rule) ∈ rules := by
  simp [ruled]

theorem rulesFor_ne_nil {state : α} {rules : List (α × DraftRule α)}
    (h : state ∈ ruled rules) : rulesFor state rules ≠ [] := by
  obtain ⟨rule, hm⟩ := mem_ruled.mp h
  apply List.ne_nil_of_mem (a := rule)
  simpa [rulesFor] using hm

theorem rulesFor_eq_nil {state : α} {rules : List (α × DraftRule α)}
    (h : state ∉ ruled rules) : rulesFor state rules = [] := by
  simp only [mem_ruled, not_exists] at h
  simp only [rulesFor, List.map_eq_nil_iff, List.filter_eq_nil_iff, decide_eq_true_eq]
  rintro ⟨other, rule⟩ hm rfl
  exact h rule hm

theorem nodup_eraseDups (states : List α) : states.eraseDups.Nodup := by
  induction hn : states.length using Nat.strongRecOn generalizing states with
  | _ n ih =>
    cases states with
    | nil => simp
    | cons state states =>
      rw [List.eraseDups_cons, List.nodup_cons]
      have shorter := List.length_filter_le (fun b => !b == state) states
      rw [List.length_cons] at hn
      exact ⟨by simp, ih _ (by omega) _ rfl⟩

theorem nodup_ruled (rules : List (α × DraftRule α)) : (ruled rules).Nodup := nodup_eraseDups _

theorem ruled_concat (rules : List (α × DraftRule α)) (state : α) (rule : DraftRule α) :
    ruled (rules ++ [(state, rule)]) =
      if state ∈ ruled rules then ruled rules else ruled rules ++ [state] := by
  simp only [ruled, List.map_append, List.eraseDups_append, List.mem_eraseDups]
  by_cases h : state ∈ rules.map (·.1)
  · rw [if_pos h]
    simp_all [List.removeAll]
  · rw [if_neg h]
    simp_all [List.removeAll, List.eraseDups_cons]

theorem rulesFor_concat (state other : α) (rules : List (α × DraftRule α)) (rule : DraftRule α) :
    rulesFor state (rules ++ [(other, rule)]) =
      rulesFor state rules ++ if other = state then [rule] else [] := by
  by_cases h : other = state <;> simp [rulesFor, h]

/-- Inserting into blocks that are listed by state. -/
theorem insert_map (state : α) (rule : DraftRule α) (rulesOf : α → List (DraftRule α))
    (states : List α) (h : states.Nodup) :
    Block.insert state rule (states.map fun s => ⟨s, rulesOf s⟩) =
      if state ∈ states then
        states.map fun s => ⟨s, rulesOf s ++ if state = s then [rule] else []⟩
      else states.map (fun s => ⟨s, rulesOf s⟩) ++ [⟨state, [rule]⟩] := by
  induction states with
  | nil => simp [Block.insert]
  | cons first states ih =>
    obtain ⟨fresh, nodup⟩ := List.nodup_cons.mp h
    by_cases he : first = state
    · subst he
      have others : ∀ s ∈ states, first ≠ s := by
        intro s hs heq
        exact fresh (heq ▸ hs)
      simp only [List.map_cons, Block.insert, if_true, List.mem_cons, true_or]
      congr 1
      apply List.map_congr_left
      intro s hs
      simp [others s hs]
    · have he' : state ≠ first := Ne.symm he
      simp only [List.map_cons, Block.insert, he, he', if_false, ih nodup, List.mem_cons, false_or]
      split <;> simp

/-- A draft keeps its rules grouped as they come in. -/
theorem insert_grouped (rules : List (α × DraftRule α)) (state : α) (rule : DraftRule α) :
    Block.insert state rule (grouped rules) = grouped (rules ++ [(state, rule)]) := by
  rw [grouped, insert_map state rule (fun s => rulesFor s rules) _ (nodup_ruled rules), grouped,
    ruled_concat]
  split
  · simp only [rulesFor_concat]
  · next fresh =>
    rw [List.map_append]
    congr 1
    · apply List.map_congr_left
      intro s hs
      have other : state ≠ s := fun he => fresh (he ▸ hs)
      simp [rulesFor_concat, other]
    · simp [rulesFor_concat, rulesFor_eq_nil fresh]

theorem foldl_insert_grouped (earlier rules : List (α × DraftRule α)) :
    rules.foldl (fun blocks rule => Block.insert rule.1 rule.2 blocks) (grouped earlier) =
      grouped (earlier ++ rules) := by
  induction rules generalizing earlier with
  | nil => simp
  | cons rule rules ih =>
    rw [List.foldl_cons, insert_grouped, ih, List.append_assoc]
    rfl

/-! ## Running a script -/

namespace Draft

/-- Rules that are added change nothing but the blocks. -/
theorem foldl_addRule (rules : List (α × DraftRule α)) (d : Draft α) (j : Journal α) :
    (rules.foldl (fun (d, j) (state, rule) =>
      (d.addRule state rule, j.log (.ruleAdded state rule.pattern rule.action rule.next)))
      (d, j)).1 =
    { d with blocks :=
        rules.foldl (fun blocks rule => Block.insert rule.1 rule.2 blocks) d.blocks } := by
  induction rules generalizing d j with
  | nil => rfl
  | cons rule rules ih =>
    rw [List.foldl_cons, ih]
    rfl

/-- The draft that a script leaves, from what it has authored before. -/
theorem run_grouped (script : List (Directive α)) (d : Draft α) (j : Journal α)
    (earlier : List (α × DraftRule α)) (h : d.blocks = grouped earlier) :
    (d.run script j).1.init = d.init ∧
      (d.run script j).1.blocks = grouped (earlier ++ authored d.cursor script) ∧
      (d.run script j).1.limits = finalLimits d.limits script := by
  induction script generalizing d j earlier with
  | nil => simpa [run, authored, finalLimits] using h
  | cons directive script ih =>
    have step : d.run (directive :: script) j =
        (d.apply directive j).1.run script (d.apply directive j).2 := rfl
    have adds (rules : List (α × DraftRule α)) (j' : Journal α) :=
      ih { d with blocks := grouped (earlier ++ rules) } j' (earlier ++ rules) rfl
    rw [step]
    cases directive with
    | focus state => exact ih { d with cursor := state } j earlier h
    | limit limits => exact ih { d with limits } j earlier h
    | addEach | onEach | stayEach =>
      rw [apply, foldl_addRule, h, foldl_insert_grouped]
      · simpa only [authored, finalLimits, Directive.rules, List.append_assoc] using adds _ _
      all_goals simp

theorem run_start (init : α) (limits : Limits) (script : List (Directive α)) (j : Journal α) :
    ((start init limits).run script j).1.init = init ∧
      ((start init limits).run script j).1.blocks = grouped (authored init script) ∧
      ((start init limits).run script j).1.limits = finalLimits limits script :=
  run_grouped script (start init limits) j [] rfl

/-! ## Building a table -/

section

variable {d : Draft α} {rules : List (α × DraftRule α)} (hb : d.blocks = grouped rules)
include hb

theorem states_grouped : d.states = ruled rules := by
  simp [states, hb, grouped, Function.comp_def]

theorem defines_iff (state : α) : d.defines state = true ↔ state ∈ ruled rules := by
  simp [defines, hb, grouped]

theorem rulesOf_grouped (state : α) : d.rulesOf state = rulesFor state rules := by
  unfold rulesOf
  rw [hb, grouped, List.find?_map]
  cases hf : (ruled rules).find? ((fun block : Block α => decide (block.state = state)) ∘
      fun s => ⟨s, rulesFor s rules⟩) with
  | none =>
    have fresh : state ∉ ruled rules := by
      intro hm
      simpa using List.find?_eq_none.mp hf state hm
    rw [rulesFor_eq_nil fresh]
    rfl
  | some s =>
    have same : s = state := by simpa using List.find?_some hf
    rw [same]
    rfl

/-- Without a gap, every authored rule leads to a state that has rules. -/
theorem next_ruled (hg : d.gap? = none) {state : α} {rule : DraftRule α}
    (hm : (state, rule) ∈ rules) : rule.next ∈ ruled rules := by
  have target : (state, rule.next) ∈ d.targets := by
    simp only [targets, hb, grouped, List.mem_flatMap, List.mem_map]
    refine ⟨_, ⟨state, mem_ruled.mpr ⟨rule, hm⟩, rfl⟩, rule, ?_, rfl⟩
    simpa [rulesFor] using hm
  have defined := List.find?_eq_none.mp hg _ target
  exact (defines_iff hb rule.next).mp (by simpa using defined)

theorem nodup_labels : d.labels.Nodup := by
  rw [labels, states_grouped hb, List.nodup_cons]
  exact ⟨by simp, (nodup_ruled rules).filter _⟩

theorem mem_labels (hi : d.init ∈ ruled rules) (state : α) :
    state ∈ d.labels ↔ state ∈ ruled rules := by
  rw [labels, states_grouped hb, List.mem_cons, List.mem_filter]
  by_cases h : state = d.init
  · simp [h, hi]
  · simp [h]

end

/-- A draft builds only if the initial state is defined and there is no gap. -/
theorem build_ok [Described α] {d : Draft α} {factory : Factory α τ} {j : Journal α}
    {t : Table α τ} (h : (d.build factory j).1 = .ok t) :
    d.defines d.init = true ∧ d.gap? = none ∧ t = d.toTable factory := by
  unfold build at h
  split at h
  · next defined =>
    split at h
    · cases h
    · next closed =>
      cases h
      exact ⟨defined, closed, rfl⟩
  · cases h

theorem labels_toTable (d : Draft α) (factory : Factory α τ) :
    (d.toTable factory).labels = d.labels := by
  simp [toTable, Table.labels, row, Function.comp_def]

theorem rows_toTable (d : Draft α) (factory : Factory α τ) (id : Nat) :
    (d.toTable factory).rows[id]? = d.labels[id]?.map d.row := by
  simp [toTable]

end Draft

namespace Table

omit [DecidableEq α] in
theorem label?_eq_labels (t : Table α τ) (id : Nat) : t.label? id = t.labels[id]? := by
  simp [label?, labels]

theorem stateId?_eq_labels (t : Table α τ) (label : α) :
    t.stateId? label = t.labels.findIdx? fun other => other = label := by
  obtain ⟨⟨rows⟩, nonempty, factory, limits⟩ := t
  simp [stateId?, labels, List.findIdx?_map, Function.comp_def]

theorem stateId?_eq_none {t : Table α τ} {label : α} (h : label ∉ t.labels) :
    t.stateId? label = none := by
  rw [stateId?_eq_labels, List.findIdx?_eq_none_iff]
  intro other hm
  simpa using fun he : other = label => h (he ▸ hm)

/-- Numbers and labels are inverse to each other where no label is repeated. -/
theorem stateId?_eq_some_iff {t : Table α τ} (hn : t.labels.Nodup) (label : α) (id : Nat) :
    t.stateId? label = some id ↔ t.label? id = some label := by
  rw [stateId?_eq_labels, label?_eq_labels, List.findIdx?_eq_some_iff_getElem,
    List.getElem?_eq_some_iff]
  constructor
  · rintro ⟨hlt, he, -⟩
    exact ⟨hlt, by simpa using he⟩
  · rintro ⟨hlt, he⟩
    refine ⟨hlt, by simpa using he, ?_⟩
    intro earlier hlt' he'
    have same : t.labels[earlier] = t.labels[id] := by simpa [he] using he'
    have := (List.Nodup.getElem_inj_iff hn).mp same
    omega

/-- A compiled rule says what the authored one says, with the number of its target. -/
structure Compiles (t : Table α τ) (rule : DraftRule α) (compiled : Rule) : Prop where
  pattern : compiled.pattern = rule.pattern
  action : compiled.action = rule.action
  next : t.stateId? rule.next = some compiled.next

/-- A table keeps the authored rules. -/
structure Faithful (t : Table α τ) (init : α) (rules : List (α × DraftRule α))
    (limits : Limits) : Prop where
  /-- The initial state comes first, the others in the order of their first rules. -/
  labels : t.labels = init :: (ruled rules).filter (· ≠ init)
  nodup : t.labels.Nodup
  labelled : ∀ id < t.stateCount, ∃ label, t.label? id = some label
  inverse : ∀ label id, t.stateId? label = some id ↔ t.label? id = some label
  others : ∀ label, label ∉ t.labels → t.stateId? label = none
  /-- Each state has the rules authored for it, and at least one. -/
  rows : ∀ label ∈ t.labels, ∃ id row, t.stateId? label = some id ∧ t.rows[id]? = some row ∧
    row.rules ≠ [] ∧ List.Forall₂ (Compiles t) (rulesFor label rules) row.rules
  ruleCount : t.ruleCount = rules.length
  limits : t.limits = limits

end Table

/-- Every rule is counted for the one state that it is authored for. -/
theorem length_flatMap_rulesFor {states : List α} (hn : states.Nodup)
    {rules : List (α × DraftRule α)} (hall : ∀ rule ∈ rules, rule.1 ∈ states) :
    (states.flatMap fun state => rulesFor state rules).length = rules.length := by
  induction rules with
  | nil => simp [rulesFor]
  | cons rule rules ih =>
    have counted (states : List α) :
        (states.flatMap fun state => rulesFor state (rule :: rules)).length =
          states.count rule.1 + (states.flatMap fun state => rulesFor state rules).length := by
      induction states with
      | nil => rfl
      | cons state states ih =>
        rw [List.flatMap_cons, List.flatMap_cons, List.length_append, List.length_append, ih,
          List.count_cons]
        by_cases h : rule.1 = state
        · simp [rulesFor, h]
          omega
        · have h' : ¬ state = rule.1 := fun he => h he.symm
          simp [rulesFor, h, h']
          omega
    have once : states.count rule.1 = 1 :=
      List.count_eq_one_of_mem hn (hall rule List.mem_cons_self)
    rw [counted, once, ih fun r hr => hall r (List.mem_cons_of_mem _ hr), List.length_cons]
    omega

namespace Draft

theorem ruleCount_toTable (d : Draft α) (factory : Factory α τ) :
    (d.toTable factory).ruleCount = (d.labels.flatMap d.rulesOf).length := by
  simp only [toTable, Table.ruleCount, List.flatMap_map]
  induction d.labels with
  | nil => rfl
  | cons label labels ih =>
    rw [List.flatMap_cons, List.flatMap_cons, List.length_append, List.length_append, ih]
    simp [row]

/-- A draft without gaps becomes a faithful table. -/
theorem faithful_toTable {d : Draft α} {rules : List (α × DraftRule α)}
    (hb : d.blocks = grouped rules) (hi : d.init ∈ ruled rules) (hg : d.gap? = none)
    (factory : Factory α τ) : (d.toTable factory).Faithful d.init rules d.limits := by
  have labels := labels_toTable d factory
  have nodup : (d.toTable factory).labels.Nodup := by
    rw [labels]
    exact nodup_labels hb
  have inverse := Table.stateId?_eq_some_iff nodup
  constructor
  · rw [labels, Draft.labels, states_grouped hb]
  · exact nodup
  · intro id hlt
    rw [Table.label?_eq_labels]
    have bound : id < (d.toTable factory).labels.length := by
      simpa [Table.stateCount, Table.labels] using hlt
    exact ⟨_, List.getElem?_eq_getElem bound⟩
  · exact inverse
  · intro label hm
    exact Table.stateId?_eq_none hm
  · intro label hm
    rw [labels] at hm
    obtain ⟨id, hid⟩ := List.mem_iff_getElem?.mp hm
    have number : (d.toTable factory).stateId? label = some id := by
      rw [inverse, Table.label?_eq_labels, labels, hid]
    have selected : (d.toTable factory).rows[id]? = some (d.row label) := by
      rw [rows_toTable, hid]
      rfl
    refine ⟨id, d.row label, number, selected, ?_, ?_⟩
    · simpa [row, rulesOf_grouped hb] using rulesFor_ne_nil ((mem_labels hb hi label).mp hm)
    · rw [row, rulesOf_grouped hb, List.forall₂_map_right_iff, List.forall₂_same]
      intro rule hr
      have authored : (label, rule) ∈ rules := by simpa [rulesFor] using hr
      have target : rule.next ∈ d.labels :=
        (mem_labels hb hi rule.next).mpr (next_ruled hb hg authored)
      refine ⟨rfl, rfl, ?_⟩
      rw [inverse, Table.label?_eq_labels, labels]
      exact List.getElem?_idxOf target
  · rw [ruleCount_toTable]
    have listed : ∀ rule ∈ rules, rule.1 ∈ d.labels := by
      intro rule hr
      exact (mem_labels hb hi rule.1).mpr (mem_ruled.mpr ⟨rule.2, hr⟩)
    have total := length_flatMap_rulesFor (nodup_labels hb) listed
    rwa [← funext (rulesOf_grouped hb)] at total
  · rfl

/-- Whatever builds is faithful. -/
theorem faithful_of_build [Described α] {d : Draft α} {rules : List (α × DraftRule α)}
    {factory : Factory α τ} {j : Journal α} {t : Table α τ} (hb : d.blocks = grouped rules)
    (h : (d.build factory j).1 = .ok t) : t.Faithful d.init rules d.limits := by
  obtain ⟨defined, closed, rfl⟩ := build_ok h
  exact faithful_toTable hb ((defines_iff hb d.init).mp defined) closed factory

/-- A table built from a script keeps its rules: those authored for each state, in
order, under the numbers of the states, with the limits that the script sets last. -/
theorem build_keeps_authored_rules [Described α] (init : α) (limits : Limits)
    (script : List (Directive α)) (factory : Factory α τ) (j j' : Journal α) (t : Table α τ)
    (h : (((start init limits).run script j).1.build factory j').1 = .ok t) :
    t.Faithful init (authored init script) (finalLimits limits script) := by
  obtain ⟨hinit, hblocks, hlimits⟩ := run_start init limits script j
  have faithful := faithful_of_build hblocks h
  rwa [hinit, hlimits] at faithful

/-- A script with its states in turns and the initial one last. -/
def wordScript : List (Directive Nat) :=
  [.add 1 (.range 'a' 'z') .shift 1, .on (.range 'a' 'z') .shift 1, .limit ⟨5⟩, .focus 1,
    .on .any .reduce 0, .add 0 .any .shiftReduce 0]

/-- The initial state comes first although its rules are the last to begin. -/
theorem build_keeps_authored_rules_words :
    ∃ t, (((start 0 {}).run wordScript {}).1.build (Factory.text : Factory Nat String) {}).1 =
        .ok t ∧
      t.Faithful 0 (authored 0 wordScript) ⟨5⟩ ∧ t.labels = [0, 1] ∧ t.ruleCount = 4 := by
  have built : (((start 0 {}).run wordScript {}).1.build
      (Factory.text : Factory Nat String) {}).1 = .ok _ := rfl
  have faithful := build_keeps_authored_rules 0 {} wordScript .text {} {} _ built
  exact ⟨_, built, faithful, faithful.labels, faithful.ruleCount⟩

end Draft

end

end TableLexer
