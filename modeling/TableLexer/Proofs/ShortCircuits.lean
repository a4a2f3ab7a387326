import TableLexer.Proofs.Authored

/-!
# Which tests are called

A place in a predicate is the way down to it from the root, with one `Side` for each
operator on the way. Evaluation comes to a place (`Reaches`) if it continues to the
next operand at every operator above: always to the first one, and to the second one
only if the first does not settle the value. The tests that are called are those at
the places it comes to, from left to right (`Evaluates`). A search among rules stops
at the first one that accepts the character, so the tests called for it are those of
the rules up to there (`Finds`).
-/

namespace TableLexer

/-! ## Places in a predicate -/

/-- The operand of an operator; a negation has the first one only. -/
inductive Side where
  | first | second
  deriving DecidableEq, Repr

def Side.Before : Side → Side → Prop
  | .first, .second => True
  | _, _ => False

/-- One place is to the left of another one. -/
def LeftOf : List Side → List Side → Prop := List.Lex Side.Before

namespace Predicate

/-- What stands at a place. -/
def at? : Predicate → List Side → Option Predicate
  | p, [] => some p
  | .and p _, .first :: place => p.at? place
  | .and _ q, .second :: place => q.at? place
  | .or p _, .first :: place => p.at? place
  | .or _ q, .second :: place => q.at? place
  | .not p, .first :: place => p.at? place
  | _, _ => none

/-- Evaluation goes on to the operand: to the second one of a conjunction if the first
is true, and to the second one of a disjunction if the first is false. -/
def Continues (c : Char) : Predicate → Side → Prop
  | .and p _, .second => p.accepts c = true
  | .or p _, .second => p.accepts c = false
  | _, _ => True

/-- Evaluation comes to a place: it goes on at each operator above. -/
def Reaches (p : Predicate) (c : Char) (place : List Side) : Prop :=
  ∀ above side below node, place = above ++ side :: below → p.at? above = some node →
    node.Continues c side

/-- The value of a predicate, and the tests called for it: those that evaluation comes
to, each once and from left to right. -/
structure Evaluates (p : Predicate) (c : Char) (outcome : Bool × List CharTest) : Prop where
  value : outcome.1 = p.accepts c
  calls : ∃ called : List (List Side × CharTest), outcome.2 = called.map (·.2) ∧
    called.Pairwise (fun one other => LeftOf one.1 other.1) ∧
    ∀ place test, (place, test) ∈ called ↔
      p.at? place = some (.test test) ∧ p.Reaches c place

theorem reaches_nil (p : Predicate) (c : Char) : p.Reaches c [] := by
  intro above side below node split
  simp at split

/-- To come to a place below an operand is to go on to the operand and come to the
place from there. -/
theorem reaches_cons {p : Predicate} (child : Predicate) {side : Side}
    (down : ∀ place, p.at? (side :: place) = child.at? place) (c : Char) (place : List Side) :
    p.Reaches c (side :: place) ↔ p.Continues c side ∧ child.Reaches c place := by
  constructor
  · intro reaches
    refine ⟨reaches [] side place p rfl (by cases p <;> rfl), ?_⟩
    intro above side' below node split here
    exact reaches (side :: above) side' below node (congrArg (side :: ·) split)
      ((down above).trans here)
  · rintro ⟨continues, reaches⟩ above side' below node split here
    cases above with
    | nil =>
      obtain ⟨rfl, rfl⟩ := List.cons.inj split
      obtain rfl : p = node := by cases p <;> exact Option.some.inj here
      exact continues
    | cons top above =>
      obtain ⟨rfl, split'⟩ := List.cons.inj split
      exact reaches above side' below node split' ((down above).symm.trans here)

/-! ## The tests called, with their places -/

/-- Put the places of an operand under the operator. -/
def under (side : Side) (called : List (List Side × CharTest)) : List (List Side × CharTest) :=
  called.map fun leaf => (side :: leaf.1, leaf.2)

@[simp] theorem nil_notMem_under (side : Side) (called : List (List Side × CharTest))
    (test : CharTest) : ([], test) ∉ under side called := by
  simp [under]

@[simp] theorem cons_mem_under {side side' : Side} {called : List (List Side × CharTest)}
    {place : List Side} {test : CharTest} :
    (side' :: place, test) ∈ under side called ↔ side' = side ∧ (place, test) ∈ called := by
  simp only [under, List.mem_map, Prod.mk.injEq, List.cons.injEq, Prod.exists]
  constructor
  · rintro ⟨_, _, hm, ⟨rfl, rfl⟩, rfl⟩
    exact ⟨rfl, hm⟩
  · rintro ⟨rfl, hm⟩
    exact ⟨place, test, hm, ⟨rfl, rfl⟩, rfl⟩

@[simp] theorem map_under (side : Side) (called : List (List Side × CharTest)) :
    (under side called).map (·.2) = called.map (·.2) := by
  simp [under, Function.comp_def]

/-- The tests that are called, each with its place. -/
def visited (c : Char) : Predicate → List (List Side × CharTest)
  | .any | .only _ | .range _ _ => []
  | .test t => [([], t)]
  | .and p q =>
    under .first (p.visited c) ++ under .second (if p.accepts c then q.visited c else [])
  | .or p q =>
    under .first (p.visited c) ++ under .second (if p.accepts c then [] else q.visited c)
  | .not p => under .first (p.visited c)

theorem probe_snd (c : Char) (p : Predicate) : (p.probe c).2 = (p.visited c).map (·.2) := by
  induction p with
  | any | only | range | test => rfl
  | and p q ihp ihq | or p q ihp ihq =>
    have value := p.probe_fst c
    rcases probed : p.probe c with ⟨_ | _, called⟩
    all_goals rw [probed] at ihp value
    all_goals simp [probe, visited, probed, ← value, ← ihp, ihq]
  | not p ih => simp [probe, visited, ih]

theorem pairwise_under {side : Side} {called : List (List Side × CharTest)}
    (h : called.Pairwise fun one other => LeftOf one.1 other.1) :
    (under side called).Pairwise fun one other => LeftOf one.1 other.1 := by
  rw [under, List.pairwise_map]
  exact h.imp fun left => .cons left

/-- All places under the first operand are to the left of those under the second. -/
theorem pairwise_operands {called called' : List (List Side × CharTest)}
    (h : called.Pairwise fun one other => LeftOf one.1 other.1)
    (h' : called'.Pairwise fun one other => LeftOf one.1 other.1) :
    (under .first called ++ under .second called').Pairwise
      fun one other => LeftOf one.1 other.1 := by
  rw [List.pairwise_append]
  refine ⟨pairwise_under h, pairwise_under h', ?_⟩
  intro one hone other hother
  obtain ⟨leaf, -, rfl⟩ := List.mem_map.mp hone
  obtain ⟨leaf', -, rfl⟩ := List.mem_map.mp hother
  exact .rel trivial

theorem pairwise_visited (c : Char) (p : Predicate) :
    (p.visited c).Pairwise fun one other => LeftOf one.1 other.1 := by
  induction p with
  | any | only | range => exact .nil
  | test t => exact List.pairwise_singleton _ _
  | and p q ihp ihq =>
    apply pairwise_operands ihp
    split
    · exact ihq
    · exact .nil
  | or p q ihp ihq =>
    apply pairwise_operands ihp
    split
    · exact .nil
    · exact ihq
  | not p ih => exact pairwise_under ih

/-- The visited tests are those that evaluation comes to. -/
theorem mem_visited {c : Char} {p : Predicate} {place : List Side} {test : CharTest} :
    (place, test) ∈ p.visited c ↔ p.at? place = some (.test test) ∧ p.Reaches c place := by
  induction p generalizing place with
  | any | only | range => cases place <;> simp [visited, at?]
  | test t =>
    cases place with
    | nil => simp [visited, at?, reaches_nil, eq_comm]
    | cons side below => simp [visited, at?]
  | and p q ihp ihq =>
    match place with
    | [] => simp [visited, at?]
    | .first :: below =>
      rw [reaches_cons p fun _ => rfl]
      simp [visited, at?, Continues, ihp]
    | .second :: below =>
      rw [reaches_cons q fun _ => rfl]
      by_cases value : p.accepts c
      · simp [visited, at?, Continues, ihq, value]
      · simp [visited, at?, Continues, value]
  | or p q ihp ihq =>
    match place with
    | [] => simp [visited, at?]
    | .first :: below =>
      rw [reaches_cons p fun _ => rfl]
      simp [visited, at?, Continues, ihp]
    | .second :: below =>
      rw [reaches_cons q fun _ => rfl]
      by_cases value : p.accepts c
      · simp [visited, at?, Continues, value]
      · simp [visited, at?, Continues, ihq, value]
  | not p ih =>
    match place with
    | [] => simp [visited, at?]
    | .first :: below =>
      rw [reaches_cons p fun _ => rfl]
      simp [visited, at?, Continues, ih]
    | .second :: below => simp [visited, at?]

theorem evaluates_probe (p : Predicate) (c : Char) : p.Evaluates c (p.probe c) :=
  ⟨p.probe_fst c, p.visited c, p.probe_snd c, pairwise_visited c p, fun _ _ => mem_visited⟩

end Predicate

/-! ## The search for a rule -/

variable {α τ : Type}

/-- The tests called to try a rule. -/
def DraftRule.called (c : Char) (rule : DraftRule α) : List CharTest := (rule.pattern.probe c).2

/-- One rule is tried, and the others only if it does not accept the character. -/
theorem Rule.first_cons (c : Char) (rule : Rule) (rules : List Rule) :
    first c (rule :: rules) =
      if rule.pattern.accepts c then (some rule, (rule.pattern.probe c).2)
      else ((first c rules).1, (rule.pattern.probe c).2 ++ (first c rules).2) := by
  have value := rule.pattern.probe_fst c
  rw [first]
  rcases probed : rule.pattern.probe c with ⟨_ | _, called⟩
  all_goals rw [probed] at value
  all_goals simp [← value]

namespace Table

variable [Described α]

/-- The rule that state `id` has for `c`, and all tests called to find it. -/
def search (t : Table α τ) (id : Nat) (c : Char) : Except ScanError Rule × List CharTest :=
  match t.rows[id]? with
  | none => (.error (.unknownState id), [])
  | some row =>
    match Rule.first c row.rules with
    | (some rule, called) => (.ok rule, called)
    | (none, called) => (.error (.unhandled c (t.stateText id)), called)

theorem search_fst (t : Table α τ) (id : Nat) (c : Char) : (t.search id c).1 = t.select id c := by
  unfold search select
  cases t.rows[id]? with
  | none => rfl
  | some row =>
    dsimp only
    rcases Rule.first c row.rules with ⟨_ | rule, called⟩ <;> rfl

variable [DecidableEq α]

/-- What the state `label` with the authored `rules` has for `c`: the first of them that
accepts it, or none. The tests of the rules up to that one are called, or of all. -/
inductive Finds (t : Table α τ) (label : α) (rules : List (DraftRule α)) (c : Char) :
    Except ScanError Rule × List CharTest → Prop where
  | found {before after : List (DraftRule α)} {rule : DraftRule α} {compiled : Rule}
      (split : rules = before ++ rule :: after)
      (earlier : ∀ other ∈ before, other.pattern.accepts c = false)
      (accepts : rule.pattern.accepts c = true) (compiles : t.Compiles rule compiled) :
    Finds t label rules c (.ok compiled, (before ++ [rule]).flatMap (·.called c))
  | missing (refused : ∀ rule ∈ rules, rule.pattern.accepts c = false) :
    Finds t label rules c
      (.error (.unhandled c (describe label)), rules.flatMap (·.called c))

/-- A rule that does not accept the character only adds its tests in front. -/
theorem Finds.cons {t : Table α τ} {label : α} {rules : List (DraftRule α)} {c : Char}
    {result : Except ScanError Rule} {called : List CharTest} {rule : DraftRule α}
    (h : t.Finds label rules c (result, called)) (refuses : rule.pattern.accepts c = false) :
    t.Finds label (rule :: rules) c (result, rule.called c ++ called) := by
  cases h with
  | @found before after other compiled split earlier accepts compiles =>
    have split' : rule :: rules = (rule :: before) ++ other :: after := by rw [split]; rfl
    refine .found split' ?_ accepts compiles
    intro other' hm
    obtain rfl | hm := List.mem_cons.mp hm
    · exact refuses
    · exact earlier other' hm
  | missing refused =>
    refine .missing ?_
    intro other hm
    obtain rfl | hm := List.mem_cons.mp hm
    · exact refuses
    · exact refused other hm

/-- Compiled rules are searched like the authored ones. -/
theorem finds_first {t : Table α τ} {rules : List (DraftRule α)} {compiled : List Rule}
    (h : List.Forall₂ t.Compiles rules compiled) (label : α) (c : Char) :
    t.Finds label rules c
      (match (Rule.first c compiled).1 with
        | some rule => .ok rule
        | none => .error (.unhandled c (describe label)),
      (Rule.first c compiled).2) := by
  induction h with
  | nil => exact .missing (by simp)
  | @cons rule compiled rules later head tail ih =>
    rw [Rule.first_cons, head.pattern]
    by_cases accepts : rule.pattern.accepts c
    · rw [if_pos accepts]
      have split : rule :: rules = [] ++ rule :: rules := rfl
      have alone : t.Finds label (rule :: rules) c _ := .found split (by simp) accepts head
      simpa [DraftRule.called] using alone
    · rw [if_neg accepts]
      exact ih.cons (by simpa using accepts)

theorem Faithful.finds {t : Table α τ} {init label : α} {rules : List (α × DraftRule α)}
    {limits : Limits} (h : t.Faithful init rules limits) {id : Nat}
    (labelled : t.label? id = some label) (c : Char) :
    t.Finds label (rulesFor label rules) c (t.search id c) := by
  have known : label ∈ t.labels := by
    rw [label?_eq_labels] at labelled
    exact List.mem_of_getElem? labelled
  obtain ⟨id', row, number, hrow, -, compiles⟩ := h.rows label known
  rw [(h.inverse label id).mpr labelled, Option.some.injEq] at number
  subst number
  have finds := finds_first compiles label c
  have text : t.stateText id = describe label := by simp [stateText, labelled]
  rw [search, hrow]
  rcases first : Rule.first c row.rules with ⟨_ | rule, called⟩
  all_goals simpa [first, text] using finds

end Table

/-- A predicate calls exactly the tests that its value may still depend on, from left to
right, and a state of a built table tries its rules in the order they were added, up to
the first one that accepts the character. -/
theorem tests_are_called_as_needed [DecidableEq α] [Described α] :
    (∀ (p : Predicate) (c : Char), p.Evaluates c (p.probe c)) ∧
    ∀ (init : α) (limits : Limits) (script : List (Directive α)) (factory : Factory α τ)
      (j j' : Journal α) (t : Table α τ),
      (((Draft.start init limits).run script j).1.build factory j').1 = .ok t →
      ∀ (id : Nat) (label : α), t.label? id = some label → ∀ c : Char,
        (t.search id c).1 = t.select id c ∧
        t.Finds label (rulesFor label (authored init script)) c (t.search id c) := by
  refine ⟨Predicate.evaluates_probe, ?_⟩
  intro init limits script factory j j' t built id label labelled c
  obtain ⟨-, blocks, -⟩ := Draft.run_start init limits script j
  exact ⟨t.search_fst id c, (Draft.faithful_of_build blocks built).finds labelled c⟩

/-- A letter that is a vowel or not in upper case, then a digit or a blank, then the
vowels once more. -/
def vowelScript : List (Directive Nat) :=
  let letter : CharTest := ⟨"letter", Char.isAlpha⟩
  let vowel : CharTest := ⟨"vowel", "aeiou".toList.contains⟩
  let upper : CharTest := ⟨"upper", Char.isUpper⟩
  let blank : CharTest := ⟨"blank", Char.isWhitespace⟩
  [.stay (.and (.test letter) (.or (.test vowel) (.not (.test upper)))) .shift,
    .stay (.or (.range '0' '9') (.test blank)) .skip, .stay (.test vowel) .reduce]

/-- A blank is no letter, so only two tests are called to find its rule. A vowel needs no
look at its case, and a character without a rule is tested by all rules. -/
theorem tests_are_called_as_needed_vowels :
    ∃ t : Table Nat String, (((Draft.start 0 {}).run vowelScript {}).1.build .text {}).1 = .ok t ∧
      t.label? 0 = some 0 ∧
      (∃ rule, t.select 0 ' ' = .ok rule ∧ rule.action = .skip ∧
        t.Finds 0 (rulesFor 0 (authored 0 vowelScript)) ' ' (t.search 0 ' ')) ∧
      (t.search 0 ' ').2.map (·.name) = ["letter", "blank"] ∧
      (t.search 0 'e').2.map (·.name) = ["letter", "vowel"] ∧
      (t.search 0 '5').2.map (·.name) = ["letter"] ∧
      (t.search 0 'X').2.map (·.name) = ["letter", "vowel", "upper", "blank", "vowel"] := by
  have built : (((Draft.start 0 {}).run vowelScript {}).1.build
      (Factory.text : Factory Nat String) {}).1 = .ok _ := rfl
  obtain ⟨-, states⟩ := tests_are_called_as_needed (α := Nat) (τ := String)
  obtain ⟨selects, finds⟩ := states 0 {} vowelScript .text {} {} _ built 0 0 rfl ' '
  exact ⟨_, built, rfl, ⟨_, selects.symm, rfl, finds⟩, by decide, by decide, by decide,
    by decide⟩

end TableLexer
