import TableLexer.Proofs.Chains
import TableLexer.Proofs.Newlines
import TableLexer.Proofs.PushPull

/-!
# Which tables can fail

Collecting the tokens of a text fails exactly if feeding its normalized characters to
a machine does, and this fails at the first character that is blocked in the state
that the characters before it have led to. Since every text without a CR is the
normalized form of some text, a table can fail exactly if a state that can be reached
blocks some character.
-/

namespace TableLexer

variable {α τ : Type} [Described α]

/-! ## Feeding characters up to a failure -/

namespace Machine

theorem feedAll_append (t : Table α τ) (sink : Sink τ) (m : Machine) (received : Array τ)
    (j : Journal α) (chars more : List Char)
    (h : (feedAll t sink m received j chars).1.result = .ok true) :
    (feedAll t sink m received j (chars ++ more)).1 =
      (feedAll t sink (feedAll t sink m received j chars).1.machine
        (feedAll t sink m received j chars).1.received
        (feedAll t sink m received j chars).1.journal more).1 := by
  induction chars generalizing m received j with
  | nil => rfl
  | cons ch chars ih =>
    rw [List.cons_append, feedAll, feedAll]
    rw [feedAll] at h
    rcases fed : feed t sink m ch received j with ⟨m', j', received', stop | _ | _⟩
    · simp [fed] at h
    · simp [fed] at h
    · simp only [fed] at h ⊢
      exact ih m' received' j' h

theorem result_feedAll_singleton (t : Table α τ) (sink : Sink τ) (m : Machine)
    (received : Array τ) (j : Journal α) (ch : Char) :
    (feedAll t sink m received j [ch]).1.result = (feed t sink m ch received j).result := by
  rw [feedAll]
  rcases feed t sink m ch received j with ⟨m', j', received', stop | _ | _⟩ <;> rfl

/-- What fails is a character after others that do not. -/
theorem feedAll_error {t : Table α τ} {sink : Sink τ} {m : Machine} {received : Array τ}
    {j : Journal α} {chars : List Char} {stop : Stop}
    (h : (feedAll t sink m received j chars).1.result = .error stop) :
    ∃ before ch rest, chars = before ++ ch :: rest ∧
      (feedAll t sink m received j before).1.result = .ok true ∧
      (feed t sink (feedAll t sink m received j before).1.machine ch
        (feedAll t sink m received j before).1.received
        (feedAll t sink m received j before).1.journal).result = .error stop := by
  induction chars generalizing m received j with
  | nil => simp [feedAll] at h
  | cons ch chars ih =>
    rw [feedAll] at h
    rcases fed : feed t sink m ch received j with ⟨m', j', received', stop' | _ | _⟩
    · refine ⟨[], ch, chars, rfl, rfl, ?_⟩
      simpa [fed, feedAll] using h
    · simp [fed] at h
    · simp only [fed] at h
      obtain ⟨before, c, rest, rfl, good, bad⟩ := ih h
      refine ⟨ch :: before, c, rest, rfl, ?_, ?_⟩
      · simpa [feedAll, fed] using good
      · simpa [feedAll, fed] using bad

theorem within_feedAll {t : Table α τ} (closed : t.Closed) (sink : Sink τ) {m : Machine}
    (received : Array τ) (j : Journal α) (chars : List Char) (hm : m.state < t.stateCount) :
    (feedAll t sink m received j chars).1.machine.state < t.stateCount := by
  induction chars generalizing m received j with
  | nil => exact hm
  | cons ch chars ih =>
    have sound := (sound_feedFrom closed sink ch 0 received j hm).within
    rw [feedAll, feed]
    rcases fed : feedFrom t sink m ch 0 received j with ⟨m', j', received', stop | _ | _⟩
    all_goals rw [fed] at sound
    · exact sound
    · exact sound
    · exact ih received' j' sound

omit [Described α] in
/-- At the end of the input nothing fails in a state of the table. -/
theorem close_ok {t : Table α τ} (total : t.factory.Total) (sink : Sink τ) {m : Machine}
    (received : Array τ) (j : Journal α) (hm : m.state < t.stateCount) :
    ∃ verdict, (m.close t sink received j).result = .ok verdict := by
  have closes := closes_flushEnd t m j
  unfold close
  generalize m.flushEnd t j = o at closes ⊢
  cases closes with
  | unknown unlabelled => exact absurd unlabelled (Table.label?_ne_none hm)
  | failed labelled answer => exact absurd answer (total.ne_error _ _ _)
  | flushed labelled answer => exact ⟨_, rfl⟩

end Machine

/-! ## From tokens to characters -/

theorem Scan.collect_error_iff (t : Table α τ) (s : Scan) (j : Journal α) (earlier : Array τ)
    (stop : Stop) :
    (collect t s j earlier).1 = .error stop ↔
      (serve t (fun _ => true) s earlier j).result = .error stop := by
  rw [collect_eq_serve]
  cases (serve t (fun _ => true) s earlier j).result <;> simp [Except.map]

/-- Tokens before an error do not hide it. -/
theorem mapM_error (tokens : List τ) (stop : Stop) :
    (tokens.map Except.ok ++ [Except.error stop]).mapM id = .error stop := by
  induction tokens with
  | nil => rfl
  | cons token tokens ih =>
    rw [List.map_cons, List.cons_append, List.mapM_cons, ih]
    rfl

namespace Table

/-- A failure among the items of a text is what collecting its tokens fails with. -/
theorem tokens_of_error_mem {t : Table α τ} (hl : t.limits.maxHops.toNat < hopCeiling)
    (total : t.factory.Total) {text : String} {j : Journal α} {stop : Stop}
    (h : .error stop ∈ (t.transcript text j).items) : (t.tokens text j).1 = .error stop := by
  rw [tokens, Scan.collect_eq_items]
  obtain ⟨tokens, items | ⟨e, items⟩⟩ :=
    Scan.items_eq_tokens hl total (Scan.start text j).1 (Scan.start text j).2
  · rw [transcript, items] at h
    simp at h
  · rw [transcript, items] at h
    obtain rfl : stop = .error e := by simpa using h
    rw [items, mapM_error]
    rfl

theorem tokens_error_iff {t : Table α τ} (closed : t.Closed)
    (hl : t.limits.maxHops.toNat < hopCeiling) (total : t.factory.Total) (text : String)
    (j : Journal α) (stop : Stop) :
    (t.tokens text j).1 = .error stop ↔
      (Machine.feedAll t (fun _ => true) {} #[] j (normalize text.toList)).1.result =
        .error stop := by
  have alike := resume_alike t hl (fun _ => true) (Scan.start text j).1 #[] j
    (Scan.start text j).2 rfl rfl
  have within := Machine.within_feedAll closed (fun _ => true) (m := {}) #[] j
    (normalize text.toList) t.stateCount_pos
  have streamed : (t.tokens text j).1 = .error stop ↔
      (t.stream text (fun _ => true) j).result = .error stop := by
    rw [tokens, Scan.collect_error_iff, ← alike.result, stream_eq_resume]
    rfl
  rw [streamed, stream]
  rcases fed : (Machine.feedAll t (fun _ => true) {} #[] j (normalize text.toList)).1 with
    ⟨m, k, received, stop' | _ | _⟩
  · rfl
  · simp
  -- once all characters are through, the end of the input does not fail either
  · rw [fed] at within
    obtain ⟨verdict, closes⟩ := Machine.close_ok total (fun _ => true) received k within
    simp [closes]

/-- State `id` is reached by feeding characters other than CR to a fresh machine, with
nothing failing on the way. -/
def Reaches (t : Table α τ) (j : Journal α) (id : Nat) : Prop :=
  ∃ chars, '\r' ∉ chars ∧
    (Machine.feedAll t (fun _ => true) {} #[] j chars).1.result = .ok true ∧
    (Machine.feedAll t (fun _ => true) {} #[] j chars).1.machine.state = id

section

variable {t : Table α τ} (closed : t.Closed) (hl : t.limits.maxHops.toNat < hopCeiling)
  (total : t.factory.Total)
include closed hl total

/-- After any characters the next one comes to what its chain says, in a state of the
table. -/
theorem feeds_next (j : Journal α) (before : List Char) (ch : Char) :
    let fed := (Machine.feedAll t (fun _ => true) {} #[] j before).1
    let next := fed.machine.feed t (fun _ => true) ch fed.received fed.journal
    fed.machine.state < t.stateCount ∧
      Feeds t ch fed.machine.state 0 next.result next.machine.state := by
  have within := Machine.within_feedAll closed (fun _ => true) (m := {}) #[] j before
    t.stateCount_pos
  exact ⟨within, Machine.feeds_feedFrom closed hl total (fun _ => rfl) _ ch 0 _ _ within
    (Nat.zero_le _)⟩

/-- Collecting the tokens of a text fails at a character other than CR, in a state that
is reached, with what the chain of the character comes to. -/
theorem feeds_of_tokens_error {text : String} {j : Journal α} {stop : Stop}
    (h : (t.tokens text j).1 = .error stop) :
    ∃ id ch last, t.Reaches j id ∧ id < t.stateCount ∧ ch ≠ '\r' ∧
      Feeds t ch id 0 (.error stop) last := by
  rw [tokens_error_iff closed hl total] at h
  obtain ⟨before, ch, rest, text_eq, good, bad⟩ := Machine.feedAll_error h
  have clean : '\r' ∉ before ++ ch :: rest := text_eq ▸ cr_notMem_normalizeFrom false text.toList
  simp only [List.mem_append, List.mem_cons, not_or] at clean
  obtain ⟨within, feeds⟩ := feeds_next closed hl total j before ch
  rw [bad] at feeds
  exact ⟨_, ch, _, ⟨before, clean.1, good, rfl⟩, within, Ne.symm clean.2.1, feeds⟩

/-- A state that is reached and blocks a character makes a text fail: the characters
that lead to the state, and the blocked one. -/
theorem tokens_error_of_blocks {j : Journal α} {id : Nat} {ch : Char} (reached : t.Reaches j id)
    (hch : ch ≠ '\r') (blocks : t.Blocks ch id) :
    ∃ text e, (t.tokens text j).1 = .error (.error e) := by
  obtain ⟨chars, clean, good, rfl⟩ := reached
  obtain ⟨-, feeds⟩ := feeds_next closed hl total j chars ch
  obtain ⟨e, bad⟩ := feeds.error_iff_blocks.mpr blocks
  have normal : normalize (String.ofList (chars ++ [ch])).toList = chars ++ [ch] := by
    rw [String.toList_ofList]
    apply normalize_of_cr_notMem
    simp [clean, Ne.symm hch]
  refine ⟨String.ofList (chars ++ [ch]), e, ?_⟩
  rw [tokens_error_iff closed hl total, normal, Machine.feedAll_append _ _ _ _ _ _ _ good,
    Machine.result_feedAll_singleton]
  exact bad

end

/-- Some text fails exactly if a state that can be reached blocks a character. If every
state has a rule for every character, none is unhandled; and if no chain of hops is
too long either, no text fails. -/
theorem some_text_fails_iff [DecidableEq α] (t : Table α τ) (built : t.Built)
    (hl : t.limits.maxHops.toNat < hopCeiling) (total : t.factory.Total) (j : Journal α) :
    ((∃ text e, (t.tokens text j).1 = .error (.error e)) ↔
      ∃ id ch, t.Reaches j id ∧ ch ≠ '\r' ∧ t.Blocks ch id) ∧
    ((∀ id < t.stateCount, ∀ ch, ch ≠ '\r' → ∃ rule, t.choice id ch = some rule) →
      (∀ text ch state,
        .error (.error (.unhandled ch state)) ∉ (t.transcript text j).items) ∧
      ((∀ id < t.stateCount, ∀ ch, ch ≠ '\r' →
          t.hopped ch id (t.limits.maxHops.toNat + 1) = none) →
        ∀ text, ∃ tokens, (t.tokens text j).1 = .ok tokens)) := by
  have closed := built.closed
  refine ⟨⟨?_, ?_⟩, ?_⟩
  · rintro ⟨text, e, fails⟩
    obtain ⟨id, ch, last, reached, -, hch, feeds⟩ := feeds_of_tokens_error closed hl total fails
    exact ⟨id, ch, reached, hch, feeds.error_iff_blocks.mp ⟨e, rfl⟩⟩
  · rintro ⟨id, ch, reached, hch, blocks⟩
    exact tokens_error_of_blocks closed hl total reached hch blocks
  · intro complete
    have handled {id n id' : Nat} {ch : Char} (hid : id < t.stateCount) (hch : ch ≠ '\r')
        (chain : t.hopped ch id n = some id') : t.choice id' ch ≠ none := by
      obtain ⟨rule, chosen⟩ := complete id' (hopped_lt closed hid chain) ch hch
      simp [chosen]
    refine ⟨?_, ?_⟩
    · intro text ch state hm
      obtain ⟨id, c, last, -, hid, hch, feeds⟩ :=
        feeds_of_tokens_error closed hl total (tokens_of_error_mem hl total hm)
      cases feeds with
      | unhandled within chain missing => exact handled hid hch chain missing
    · intro short text
      cases fails : (t.tokens text j).1 with
      | ok tokens => exact ⟨tokens, rfl⟩
      | error stop =>
        obtain ⟨id, ch, last, -, hid, hch, feeds⟩ := feeds_of_tokens_error closed hl total fails
        cases feeds with
        | unhandled within chain missing => exact absurd missing (handled hid hch chain)
        | exceeded beyond chain =>
          have long := short id hid ch hch
          rw [← beyond, Nat.zero_add, chain] at long
          cases long

/-- The script of `wordTable`. -/
def wordDirectives : List (Directive Nat) :=
  [.on (.range 'a' 'z') .shift 1, .on .any .shiftReduce 0, .focus 1,
    .stay (.range 'a' 'z') .shift, .on .any .reduce 0]

/-- Only the end of a word takes a hop, and only one. -/
theorem hopped_wordTable {id : Nat} (hid : id < wordTable.stateCount) (ch : Char) {n : Nat}
    (hn : 1 < n) : wordTable.hopped ch id n = none := by
  have ended : wordTable.hop ch 0 = none := by
    rw [hop_of_choice (choice_of_two_rules rfl rfl ch)]
    split <;> rfl
  have chosen : wordTable.choice 1 ch = _ := choice_of_two_rules rfl rfl ch
  obtain rfl | rfl : id = 0 ∨ id = 1 := Nat.le_one_iff_eq_zero_or_eq_one.mp (Nat.le_of_lt_succ hid)
  · exact hopped_of_ended (n := 0) rfl ended (by omega)
  · split at chosen
    · exact hopped_of_ended (n := 0) rfl (hop_of_choice chosen) (by omega)
    · have chain := hopped_of_hop (hop_of_choice chosen) 0
      exact hopped_of_ended (n := 1) chain ended hn

/-- A table that takes only the letter a can fail, at once with any other one. A table
of words and single characters cannot. -/
theorem some_text_fails_iff_words :
    (letterWords.Built ∧ ∃ text e, (letterWords.tokens text {}).1 = .error (.error e)) ∧
      wordTable.Built ∧ ∀ text, ∃ tokens, (wordTable.tokens text {}).1 = .ok tokens := by
  have built : wordTable.Built := ⟨0, {}, wordDirectives, {}, {}, rfl⟩
  refine ⟨⟨built_letterWords, ?_⟩, built, ?_⟩
  · have fails := some_text_fails_iff letterWords built_letterWords (by decide)
      Factory.total_text {}
    refine fails.1.mpr ⟨0, 'b', ⟨[], by simp, rfl, rfl⟩, by decide, .inl ⟨0, by decide, 0, rfl, ?_⟩⟩
    decide
  · have safe := some_text_fails_iff wordTable built (by decide) Factory.total_text {}
    refine (safe.2 fun id hid ch _ => ?_).2 fun id hid ch _ => ?_
    · obtain rfl | rfl : id = 0 ∨ id = 1 :=
        Nat.le_one_iff_eq_zero_or_eq_one.mp (Nat.le_of_lt_succ hid)
      · exact ⟨_, choice_of_two_rules rfl rfl ch⟩
      · exact ⟨_, choice_of_two_rules rfl rfl ch⟩
    · exact hopped_wordTable hid ch (by decide)

end Table

end TableLexer
