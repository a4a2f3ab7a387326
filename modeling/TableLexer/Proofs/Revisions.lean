import TableLexer.Proofs.Authored
import TableLexer.Proofs.Closure
import TableLexer.Proofs.Tracking

/-!
# What a change of the script does to scans

All that a scan needs to know of a script is, for each state and character, the first
rule authored for the state that accepts the character (`firstFor`). Three changes are
looked at here. To declare the states in another order changes none of these rules, so
nothing can be seen of it but the numbers of the states. To add rules later gives
characters a rule that had none, and changes no other. To raise the limit changes no
rule. In the last two cases a scan goes on as before, and possibly further.
-/

namespace TableLexer

variable {α τ : Type}

section

variable [DecidableEq α]

/-- The first rule authored for `state` that accepts `ch`. -/
def firstFor (state : α) (ch : Char) (rules : List (α × DraftRule α)) : Option (DraftRule α) :=
  (rulesFor state rules).find? fun rule => rule.pattern.accepts ch

/-- The initial state and every target have rules of their own. -/
def Complete (init : α) (rules : List (α × DraftRule α)) : Prop :=
  rulesFor init rules ≠ [] ∧
    ∀ state, ∀ rule ∈ rulesFor state rules, rulesFor rule.next rules ≠ []

theorem rulesFor_ne_nil_iff {state : α} {rules : List (α × DraftRule α)} :
    rulesFor state rules ≠ [] ↔ state ∈ ruled rules :=
  ⟨fun h => by_contra fun unruled => h (rulesFor_eq_nil unruled), rulesFor_ne_nil⟩

theorem rulesFor_append (state : α) (rules more : List (α × DraftRule α)) :
    rulesFor state (rules ++ more) = rulesFor state rules ++ rulesFor state more := by
  simp [rulesFor]

/-- A rule added later is not tried before those that were there. -/
theorem firstFor_append (state : α) (ch : Char) (rules more : List (α × DraftRule α)) :
    firstFor state ch (rules ++ more) = (firstFor state ch rules).or (firstFor state ch more) := by
  simp [firstFor, rulesFor_append]

/-! ## Building -/

namespace Draft

theorem run_append (script more : List (Directive α)) (d : Draft α) (j : Journal α) :
    d.run (script ++ more) j = (d.run script j).1.run more (d.run script j).2 := by
  simp [run]

theorem gap?_eq_none_iff {d : Draft α} {rules : List (α × DraftRule α)}
    (hb : d.blocks = grouped rules) :
    d.gap? = none ↔ ∀ state, ∀ rule ∈ rulesFor state rules, rule.next ∈ ruled rules := by
  constructor
  · intro closed state rule hm
    have authored : (state, rule) ∈ rules := by simpa [rulesFor] using hm
    exact next_ruled hb closed authored
  · intro closed
    refine List.find?_eq_none.mpr ?_
    rintro ⟨state, next⟩ hm
    simp only [targets, hb, grouped, List.mem_flatMap, List.mem_map] at hm
    obtain ⟨block, ⟨s, -, rfl⟩, rule, hr, he⟩ := hm
    obtain ⟨rfl, rfl⟩ := Prod.mk.inj he
    simpa using (defines_iff hb rule.next).mpr (closed s rule hr)

variable [Described α]

/-- A draft builds exactly if its rules are complete. -/
theorem build_ok_iff {d : Draft α} {rules : List (α × DraftRule α)} (hb : d.blocks = grouped rules)
    (factory : Factory α τ) (j : Journal α) :
    (∃ t, (d.build factory j).1 = .ok t) ↔ Complete d.init rules := by
  simp only [Complete, rulesFor_ne_nil_iff]
  constructor
  · rintro ⟨t, built⟩
    obtain ⟨defined, closed, -⟩ := build_ok built
    exact ⟨(defines_iff hb d.init).mp defined, (gap?_eq_none_iff hb).mp closed⟩
  · rintro ⟨defined, closed⟩
    have init := (defines_iff hb d.init).mpr defined
    have gap := (gap?_eq_none_iff hb).mpr closed
    exact ⟨d.toTable factory, by simp [build, init, gap]⟩

theorem factory_of_build {d : Draft α} {factory : Factory α τ} {j : Journal α} {t : Table α τ}
    (h : (d.build factory j).1 = .ok t) : t.factory = factory := by
  obtain ⟨-, -, rfl⟩ := build_ok h
  rfl

end Draft

end

/-! ## Faithful tables by their authored rules -/

/-- Lists related element by element are searched alike, where the tests agree. -/
theorem find?_of_forall₂ {β γ : Type} {R : β → γ → Prop} {p : β → Bool} {q : γ → Bool}
    (agree : ∀ b c, R b c → p b = q c) {bs : List β} {cs : List γ} (h : List.Forall₂ R bs cs) :
    (bs.find? p = none ∧ cs.find? q = none) ∨
      ∃ b c, bs.find? p = some b ∧ cs.find? q = some c ∧ R b c := by
  induction h with
  | nil => exact .inl ⟨rfl, rfl⟩
  | @cons b c bs cs head tail ih =>
    have same := agree b c head
    cases hp : p b with
    | true => exact .inr ⟨b, c, by simp [hp], by simp [← same, hp], head⟩
    | false => simpa [hp, ← same] using ih

namespace Table

variable [DecidableEq α]

theorem Faithful.label?_zero {t : Table α τ} {init : α} {rules : List (α × DraftRule α)}
    {limits : Limits} (h : t.Faithful init rules limits) : t.label? 0 = some init := by
  rw [label?_eq_labels, h.labels]
  rfl

/-- Compiled rules from one authored rule lead to states of one label. -/
theorem Faithful.sameLabel_next {t t' : Table α τ} {init init' : α}
    {rules rules' : List (α × DraftRule α)} {limits limits' : Limits}
    (h : t.Faithful init rules limits) (h' : t'.Faithful init' rules' limits')
    {rule : DraftRule α} {compiled compiled' : Rule} (hc : t.Compiles rule compiled)
    (hc' : t'.Compiles rule compiled') : SameLabel t t' compiled.next compiled'.next :=
  ⟨rule.next, (h.inverse _ _).mp hc.next, (h'.inverse _ _).mp hc'.next⟩

variable [Described α]

/-- A state of a faithful table selects what is authored first for its label. -/
theorem Faithful.select {t : Table α τ} {init label : α} {rules : List (α × DraftRule α)}
    {limits : Limits} (h : t.Faithful init rules limits) {id : Nat}
    (labelled : t.label? id = some label) (ch : Char) :
    (firstFor label ch rules = none ∧ t.select id ch = .error (.unhandled ch (describe label))) ∨
      ∃ rule compiled, firstFor label ch rules = some rule ∧ t.select id ch = .ok compiled ∧
        t.Compiles rule compiled := by
  obtain ⟨id', row, number, hrow, -, compiles⟩ := h.rows label (mem_labels_of_label? labelled)
  rw [(h.inverse label id).mpr labelled, Option.some.injEq] at number
  subst number
  have text : t.stateText id = describe label := by simp [stateText, labelled]
  have agree : ∀ rule compiled, t.Compiles rule compiled →
      rule.pattern.accepts ch = compiled.pattern.accepts ch := by
    intro rule compiled hc
    rw [hc.pattern]
  obtain ⟨none, none'⟩ | ⟨rule, compiled, found, found', hc⟩ := find?_of_forall₂ agree compiles
  · exact .inl ⟨none, by simp [Table.select, hrow, Rule.first_fst, none', text]⟩
  · exact .inr ⟨rule, compiled, found, by simp [Table.select, hrow, Rule.first_fst, found'], hc⟩

/-- A table tracks another one if for each state and character it has the same first
rule, or one where there was none and this is excused. -/
theorem Faithful.tracks {t t' : Table α τ} {init : α} {rules rules' : List (α × DraftRule α)}
    {limits limits' : Limits} {excused : ScanError → Prop} (h : t.Faithful init rules limits)
    (h' : t'.Faithful init rules' limits') (factory : t'.factory = t.factory)
    (hlimits : limits' = limits ∨ limits.maxHops ≤ limits'.maxHops ∧
      ∀ ch state limit, excused (.hopLimitExceeded ch state limit))
    (found : ∀ state ch rule, firstFor state ch rules = some rule →
      firstFor state ch rules' = some rule)
    (missing : ∀ state ch, firstFor state ch rules = none →
      excused (.unhandled ch (describe state)) ∨ firstFor state ch rules' = none) :
    t'.Tracks excused t := by
  refine ⟨factory, by rwa [h.limits, h'.limits], ⟨init, h.label?_zero, h'.label?_zero⟩, ?_, ?_⟩
  · rintro id id' ch compiled ⟨label, labelled, labelled'⟩ selected
    obtain ⟨-, stops⟩ | ⟨rule, _, first, selected', compiles⟩ := h.select labelled ch
    · cases stops.symm.trans selected
    · cases selected'.symm.trans selected
      obtain ⟨none, -⟩ | ⟨rule', compiled', first', selects, compiles'⟩ := h'.select labelled' ch
      · cases none.symm.trans (found label ch rule first)
      · cases first'.symm.trans (found label ch rule first)
        refine ⟨compiled', selects, ?_, h.sameLabel_next h' compiles compiles'⟩
        rw [compiles.action, compiles'.action]
  · rintro id id' ch e ⟨label, labelled, labelled'⟩ stops
    obtain ⟨first, stops'⟩ | ⟨rule, compiled, -, selected, -⟩ := h.select labelled ch
    · cases stops'.symm.trans stops
      obtain excuse | first' := missing label ch first
      · exact .inl excuse
      · obtain ⟨-, same⟩ | ⟨rule', _, some, -⟩ := h'.select labelled' ch
        · exact .inr same
        · cases first'.symm.trans some
    · cases selected.symm.trans stops

end Table

/-! ## Declaring states in another order -/

namespace Table

variable [DecidableEq α] [Described α]

/-- It does not matter in which order the states of a script get their rules: scripts
with the same rules for each state build or fail together, and their tables give the
same items, verdicts and errors after the same calls. -/
theorem declaration_order_is_immaterial (init : α) (limits limits' : Limits)
    (script script' : List (Directive α)) (factory : Factory α τ) (j₀ j₁ k₀ k₁ : Journal α)
    (sameRules : ∀ state,
      rulesFor state (authored init script) = rulesFor state (authored init script'))
    (sameLimit : finalLimits limits script = finalLimits limits' script')
    (hl : (finalLimits limits script).maxHops.toNat < hopCeiling) :
    ((∃ t, (((Draft.start init limits).run script j₀).1.build factory j₁).1 = .ok t) ↔
      ∃ t', (((Draft.start init limits').run script' k₀).1.build factory k₁).1 = .ok t') ∧
    ∀ t t', (((Draft.start init limits).run script j₀).1.build factory j₁).1 = .ok t →
      (((Draft.start init limits').run script' k₀).1.build factory k₁).1 = .ok t' →
      ∀ (text : String) (j : Journal α),
        (∀ k, (t'.nth text k j).item = (t.nth text k j).item ∧
          (t'.nth text k j).journal.calls = (t.nth text k j).journal.calls) ∧
        ∀ sink, (t'.stream text sink j).Alike (t.stream text sink j) := by
  obtain ⟨hinit, hblocks, hlimits⟩ := Draft.run_start init limits script j₀
  obtain ⟨hinit', hblocks', hlimits'⟩ := Draft.run_start init limits' script' k₀
  constructor
  · rw [Draft.build_ok_iff hblocks, Draft.build_ok_iff hblocks', hinit, hinit']
    simp only [Complete, sameRules]
  · intro t t' built built' text j
    have faithful := Draft.faithful_of_build hblocks built
    have faithful' := Draft.faithful_of_build hblocks' built'
    rw [hinit, hlimits] at faithful
    rw [hinit', hlimits'] at faithful'
    have factories : t'.factory = t.factory :=
      (Draft.factory_of_build built').trans (Draft.factory_of_build built).symm
    have tracks : t'.Tracks (fun _ => False) t := by
      refine faithful.tracks faithful' factories (.inl sameLimit.symm) ?_ ?_
      · intro state ch rule first
        rwa [firstFor, ← sameRules]
      · intro state ch first
        right
        rwa [firstFor, ← sameRules]
    refine ⟨?_, ?_⟩
    · intro k
      have pulls := matches_nth tracks text k j
      exact ⟨pulls.item, pulls.calls⟩
    · intro sink
      exact alike_stream tracks (by rwa [faithful.limits]) text sink j

/-- Words and numbers, state after state. -/
def wordsAndNumbers : List (Directive Nat) :=
  [.on (.range 'a' 'z') .shift 1, .on (.range '0' '9') .shift 2, .stay .any .skip,
    .focus 1, .stay (.range 'a' 'z') .shift, .on .any .reduce 0,
    .focus 2, .stay (.range '0' '9') .shift, .on .any .reduce 0]

/-- The same rules in turns, with the state of the numbers first. -/
def numbersAndWords : List (Directive Nat) :=
  [.focus 2, .stay (.range '0' '9') .shift, .add 0 (.range 'a' 'z') .shift 1,
    .on .any .reduce 0, .add 1 (.range 'a' 'z') .shift 1, .add 0 (.range '0' '9') .shift 2,
    .add 1 .any .reduce 0, .add 0 .any .skip 0]

theorem rulesFor_numbersAndWords (state : Nat) :
    rulesFor state (authored 0 wordsAndNumbers) = rulesFor state (authored 0 numbersAndWords) := by
  match state with
  | 0 | 1 | 2 => rfl
  | _ + 3 => rfl

/-- The state of the words has another number, and nothing else can be seen of it. -/
theorem declaration_order_is_immaterial_numbers :
    ∃ t t' : Table Nat String,
      (((Draft.start 0 {}).run wordsAndNumbers {}).1.build .text {}).1 = .ok t ∧
      (((Draft.start 0 {}).run numbersAndWords {}).1.build .text {}).1 = .ok t' ∧
      t.stateId? 1 = some 1 ∧ t'.stateId? 1 = some 2 ∧
      (t'.nth "ab 12" 1 {}).item = some (.ok "12") ∧
      (t'.stream "ab 12" (fun _ => false) {}).received = #["ab"] := by
  have built : (((Draft.start 0 {}).run wordsAndNumbers {}).1.build
      (Factory.text : Factory Nat String) {}).1 = .ok _ := rfl
  have built' : (((Draft.start 0 {}).run numbersAndWords {}).1.build
      (Factory.text : Factory Nat String) {}).1 = .ok _ := rfl
  obtain ⟨-, agree⟩ := declaration_order_is_immaterial 0 {} {} wordsAndNumbers numbersAndWords
    (Factory.text : Factory Nat String) {} {} {} {} rulesFor_numbersAndWords rfl (by decide)
  obtain ⟨pulls, streams⟩ := agree _ _ built built' "ab 12" {}
  refine ⟨_, _, built, built', by decide +kernel, by decide +kernel, ?_, ?_⟩
  · rw [(pulls 1).1]
    decide +kernel
  · rw [(streams _).received]
    decide +kernel

end Table

/-! ## Adding rules later -/

/-- No rule of the state accepts the character. -/
def ScanError.IsUnhandled : ScanError → Prop
  | .unhandled _ _ => True
  | _ => False

/-- The character has taken too many hops. -/
def ScanError.IsHopLimit : ScanError → Prop
  | .hopLimitExceeded _ _ _ => True
  | _ => False

theorem finalLimits_of_no_limit {script : List (Directive α)} (h : ∀ l, .limit l ∉ script)
    (limits : Limits) : finalLimits limits script = limits := by
  induction script with
  | nil => rfl
  | cons directive script ih =>
    have later : ∀ l, .limit l ∉ script := fun l hm => h l (List.mem_cons_of_mem _ hm)
    cases directive with
    | limit l => exact absurd List.mem_cons_self (h l)
    | _ => exact ih later

namespace Table

variable [DecidableEq α] [Described α]

/-- Rules that are added to a script only let a scan go on where it had no rule: every
other text gives the same items after the same calls, and one that has stopped there
gives the same items up to that point. -/
theorem adding_rules_is_conservative (init : α) (limits : Limits)
    (script more : List (Directive α)) (factory : Factory α τ) (j₀ j₁ k₀ k₁ : Journal α)
    (t t' : Table α τ)
    (built : (((Draft.start init limits).run script j₀).1.build factory j₁).1 = .ok t)
    (noLimit : ∀ l, .limit l ∉ more)
    (built' : (((Draft.start init limits).run (script ++ more) k₀).1.build factory k₁).1 = .ok t')
    (text : String) (j : Journal α) :
    (t'.transcript text j).Tracks ScanError.IsUnhandled (t.transcript text j) := by
  obtain ⟨hinit, hblocks, hlimits⟩ := Draft.run_start init limits script j₀
  have faithful := Draft.faithful_of_build hblocks built
  rw [hinit, hlimits] at faithful
  -- the draft of the longer script goes on from that of the shorter one
  rw [Draft.run_append] at built'
  obtain ⟨kinit, kblocks, klimits⟩ := Draft.run_start init limits script k₀
  obtain ⟨hinit', hblocks', hlimits'⟩ := Draft.run_grouped more
    ((Draft.start init limits).run script k₀).1 ((Draft.start init limits).run script k₀).2
    (authored init script) kblocks
  have faithful' := Draft.faithful_of_build hblocks' built'
  rw [hinit', kinit, hlimits', klimits, finalLimits_of_no_limit noLimit] at faithful'
  have factories : t'.factory = t.factory :=
    (Draft.factory_of_build built').trans (Draft.factory_of_build built).symm
  apply tracks_transcript
  refine faithful.tracks faithful' factories (.inl rfl) ?_ ?_
  · intro state ch rule first
    rw [firstFor_append, first]
    rfl
  · intro state ch first
    exact .inl trivial

/-- Words of the letter a, and whatever is between them is skipped. -/
theorem adding_rules_is_conservative_letters :
    ∃ t t' : Table Bool String,
      (((Draft.start false {}).run Draft.letterScript {}).1.build .text {}).1 = .ok t ∧
      (((Draft.start false {}).run (Draft.letterScript ++ [.add false .any .skip false]) {}).1.build
        .text {}).1 = .ok t' ∧
      (t.transcript "aa b" {}).items =
        [.ok "aa", .error (.error (.unhandled ' ' "false"))] ∧
      [.ok "aa"] <+: (t'.transcript "aa b" {}).items ∧
      (t'.transcript "aa" {}).items = [.ok "aa"] := by
  have built : (((Draft.start false {}).run Draft.letterScript {}).1.build
      (Factory.text : Factory Bool String) {}).1 = .ok letterWords := rfl
  have built' : (((Draft.start false {}).run
      (Draft.letterScript ++ [.add false .any .skip false]) {}).1.build
      (Factory.text : Factory Bool String) {}).1 = .ok _ := rfl
  have conservative := adding_rules_is_conservative false {} Draft.letterScript
    [.add false .any .skip false] .text {} {} {} {} _ _ built (by simp [Directive.add]) built'
  have stops : (letterWords.transcript "aa b" {}).items =
      [.ok "aa", .error (.error (.unhandled ' ' "false"))] := by
    rw [transcript, Scan.transcript_of_pulled (k := 2) (by decide +kernel)]
    decide +kernel
  have ends : (letterWords.transcript "aa" {}).items = [.ok "aa"] := by
    rw [transcript, Scan.transcript_of_pulled (k := 1) (by decide +kernel)]
    decide +kernel
  refine ⟨_, _, built, built', stops, ?_, ?_⟩
  · exact (conservative "aa b" {}).before (.unhandled ' ' "false") [.ok "aa"] trivial stops
  · rw [((conservative "aa" {}).same ?_).1, ends]
    intro e _
    rw [ends]
    simp

/-! ## Raising the limit -/

/-- A script that builds also does so with another limit, into a table of the same rules. -/
theorem faithful_with_limit {init : α} {limits : Limits} {script : List (Directive α)}
    {factory : Factory α τ} {j₀ j₁ : Journal α} {t : Table α τ}
    (built : (((Draft.start init limits).run script j₀).1.build factory j₁).1 = .ok t)
    (n : UInt64) : ∃ t' : Table α τ,
      (((Draft.start init limits).run (script ++ [.limit ⟨n⟩]) j₀).1.build factory j₁).1 = .ok t' ∧
      t'.factory = factory ∧ t'.Faithful init (authored init script) ⟨n⟩ := by
  obtain ⟨hinit, hblocks, -⟩ := Draft.run_start init limits script j₀
  have complete := (Draft.build_ok_iff hblocks factory j₁).mp ⟨t, built⟩
  have limited : ((Draft.start init limits).run (script ++ [.limit ⟨n⟩]) j₀).1 =
      { ((Draft.start init limits).run script j₀).1 with limits := ⟨n⟩ } := by
    rw [Draft.run_append]
    rfl
  rw [limited]
  generalize ((Draft.start init limits).run script j₀).1 = d at hinit hblocks complete ⊢
  subst hinit
  have same : ({ d with limits := ⟨n⟩ } : Draft α).blocks = grouped (authored d.init script) :=
    hblocks
  obtain ⟨t', built'⟩ := (Draft.build_ok_iff same factory j₁).mpr complete
  exact ⟨t', built', Draft.factory_of_build built', Draft.faithful_of_build same built'⟩

/-- A script that builds does so with any limit, and a higher limit only lets a scan go
on where it had run out of hops: every other text gives the same items after the same
calls, and one that has stopped there gives the same items up to that point. -/
theorem raising_limit_is_conservative (init : α) (limits : Limits)
    (script : List (Directive α)) (factory : Factory α τ) (j₀ j₁ : Journal α) (t₀ : Table α τ)
    (built : (((Draft.start init limits).run script j₀).1.build factory j₁).1 = .ok t₀)
    (low high : UInt64) (hle : low ≤ high) :
    ∃ t t' : Table α τ,
      (((Draft.start init limits).run (script ++ [.limit ⟨low⟩]) j₀).1.build factory j₁).1 =
        .ok t ∧
      (((Draft.start init limits).run (script ++ [.limit ⟨high⟩]) j₀).1.build factory j₁).1 =
        .ok t' ∧
      t.limits.maxHops = low ∧ t'.limits.maxHops = high ∧
      ∀ (text : String) (j : Journal α),
        (t'.transcript text j).Tracks ScanError.IsHopLimit (t.transcript text j) := by
  obtain ⟨t, low_built, hf, faithful⟩ := faithful_with_limit built low
  obtain ⟨t', high_built, hf', faithful'⟩ := faithful_with_limit built high
  refine ⟨t, t', low_built, high_built, by rw [faithful.limits], by rw [faithful'.limits],
    fun text j => tracks_transcript ?_ text j⟩
  refine faithful.tracks faithful' (hf'.trans hf.symm) (.inr ⟨hle, fun _ _ _ => trivial⟩) ?_ ?_
  · intro state ch rule first
    exact first
  · intro state ch first
    exact .inr first

/-- The hop at the end of a word is one too many for the limit 0, but not for 1. -/
theorem raising_limit_is_conservative_letters :
    ∃ t t' : Table Bool String,
      (((Draft.start false {}).run (Draft.letterScript ++ [.limit ⟨0⟩]) {}).1.build
        .text {}).1 = .ok t ∧
      (((Draft.start false {}).run (Draft.letterScript ++ [.limit ⟨1⟩]) {}).1.build
        .text {}).1 = .ok t' ∧
      (t.transcript "aa b" {}).items =
        [.ok "aa", .error (.error (.hopLimitExceeded ' ' "false" 0))] ∧
      [.ok "aa"] <+: (t'.transcript "aa b" {}).items ∧
      (t'.transcript "aa" {}).items = [.ok "aa"] := by
  have built : (((Draft.start false {}).run Draft.letterScript {}).1.build
      (Factory.text : Factory Bool String) {}).1 = .ok letterWords := rfl
  obtain ⟨t, t', low, high, -, -, conservative⟩ := raising_limit_is_conservative false {}
    Draft.letterScript .text {} {} _ built 0 1 (by decide)
  have stops : (t.transcript "aa b" {}).items =
      [.ok "aa", .error (.error (.hopLimitExceeded ' ' "false" 0))] := by
    cases low
    rw [transcript, Scan.transcript_of_pulled (k := 2) (by decide +kernel)]
    decide +kernel
  have ends : (t.transcript "aa" {}).items = [.ok "aa"] := by
    cases low
    rw [transcript, Scan.transcript_of_pulled (k := 1) (by decide +kernel)]
    decide +kernel
  refine ⟨t, t', low, high, stops, ?_, ?_⟩
  · exact (conservative "aa b" {}).before (.hopLimitExceeded ' ' "false" 0) [.ok "aa"] trivial stops
  · rw [((conservative "aa" {}).same ?_).1, ends]
    intro e _
    rw [ends]
    simp

end Table

end TableLexer
