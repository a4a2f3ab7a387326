import TableLexer.Proofs.Accounting
import TableLexer.Proofs.Newlines
import TableLexer.Proofs.Revisions

/-!
# Only the normalized text is seen

Texts with the same normalized form start scans that differ in nothing but the log, and
the log has no influence. So no item, no verdict and no call tells the texts apart. And
a character that does not occur in the normalized text, as CR never does, shows up
nowhere: a firing passes on no character but the one it looks at and those that are
held, hence no pull does, and hence no driver.
-/

namespace TableLexer

variable {α τ : Type}

/-! ## Where a character does not show -/

/-- The character that an error is about. -/
def ScanError.char? : ScanError → Option Char
  | .unhandled ch _ => some ch
  | .hopLimitExceeded ch _ _ => some ch
  | .unknownState _ => none

/-- Between the journals `j` and `k` the character `c` does not show: it is in no
flushed text, and it is not what the error is about, if there is one. -/
structure Spares (c : Char) (j k : Journal α) (error : Option ScanError) : Prop where
  calls : ∃ calls : List (Call α), k.calls = j.calls ++ calls.toArray ∧ c ∉ texts calls
  error : error.bind ScanError.char? ≠ some c

namespace Spares

variable {c : Char} {j k l : Journal α} {error : Option ScanError}

theorem of_calls_eq (same : k.calls = j.calls) (other : error.bind ScanError.char? ≠ some c) :
    Spares c j k error :=
  ⟨⟨[], by simpa using same, by simp⟩, other⟩

theorem of_call {call : Call α} (made : k.calls = j.calls.push call)
    (text : c ∉ call.text.toList) (other : error.bind ScanError.char? ≠ some c) :
    Spares c j k error :=
  ⟨⟨[call], by simpa using made, by simpa using text⟩, other⟩

theorem trans {earlier : Option ScanError} (h : Spares c j k earlier) (h' : Spares c k l error) :
    Spares c j l error := by
  obtain ⟨calls, made, text⟩ := h.calls
  obtain ⟨calls', made', text'⟩ := h'.calls
  refine ⟨⟨calls ++ calls', by simp [made', made], ?_⟩, h'.error⟩
  simp [text, text']

theorem of_alike {d d' : Delivery α τ} (alike : d.Alike d')
    (h : Spares c j d'.journal (failure? d'.result)) :
    Spares c j d.journal (failure? d.result) := by
  obtain ⟨calls, made, text⟩ := h.calls
  refine ⟨⟨calls, alike.calls.trans made, text⟩, ?_⟩
  rw [alike.result]
  exact h.error

end Spares

namespace Machine

variable {t : Table α τ} {m m' : Machine} {c ch : Char} {hops : Nat} {j k : Journal α}

theorem notMem_held_move (rule : Rule) (hch : c ≠ ch) (hm : c ∉ m.held.toList) :
    c ∉ (m.move rule ch).held.toList := by
  rw [Scan.toList_held_move]
  split <;> simp [hm, hch]

/-- A firing shows and holds no character but those it was given. -/
theorem spares_fire [Described α] {r : Except Stop (Reaction τ)}
    (fired : m.fire t ch hops j = ⟨m', k, r⟩) (hch : c ≠ ch) (hm : c ∉ m.held.toList) :
    Spares c j k (failure? r) ∧ c ∉ m'.held.toList := by
  have fires := fires_fire t m ch hops j
  rw [fired] at fires
  cases fires with
  | overLimit beyond =>
    exact ⟨.of_calls_eq rfl (by simp [failure?, Stop.error?, ScanError.char?, hch.symm]), hm⟩
  | noRule within missing =>
    refine ⟨.of_calls_eq rfl ?_, hm⟩
    obtain ⟨-, rfl⟩ | ⟨row, -, -, rfl⟩ := Table.select_error missing
    · simp [failure?, Stop.error?, ScanError.char?]
    · simp [failure?, Stop.error?, ScanError.char?, hch.symm]
  | kept within selected keeps =>
    exact ⟨.of_calls_eq rfl (by simp [failure?]), notMem_held_move _ hch hm⟩
  | @failed rule label fault within selected flushes labelled answer =>
    have held := notMem_held_move rule hch hm
    exact ⟨.of_call rfl held (by simp [failure?, Stop.error?]), held⟩
  | flushed within selected flushes labelled answer =>
    exact ⟨.of_call rfl (notMem_held_move _ hch hm) (by simp [failure?]), by simp⟩

end Machine

namespace Scan

/-- The character is neither to come nor held. -/
structure Avoids (s : Scan) (c : Char) : Prop where
  pending : c ∉ s.pending
  held : c ∉ s.machine.held.toList

theorem Avoids.start {text : String} {c : Char} (h : c ∉ normalize text.toList) (j : Journal α) :
    (start text j).1.Avoids c :=
  ⟨by simpa [Scan.start, Scan.pending] using h, by simp [Scan.start]⟩

theorem avoids_after {rest : List Char} {c ch : Char} {hops : Nat} {m : Machine}
    {reaction : Reaction τ} {s : Scan} (next : after rest ch hops m reaction = some s)
    (hrest : c ∉ ch :: rest) (hm : c ∉ m.held.toList) : s.Avoids c := by
  obtain ⟨token, -, rfl⟩ | ⟨token, -, -, rfl⟩ := after_eq_some next
  · exact ⟨List.not_mem_of_not_mem_cons hrest, hm⟩
  · exact ⟨hrest, hm⟩

variable {t : Table α τ} {s : Scan} {c : Char}

theorem spares_finish (j : Journal α) (hc : s.Avoids c) :
    Spares c j (finish t s.machine j).journal ((finish t s.machine j).item.bind failure?) ∧
      (finish t s.machine j).scan.Avoids c := by
  have closes := Machine.closes_flushEnd t s.machine j
  unfold finish
  generalize s.machine.flushEnd t j = o at closes ⊢
  cases closes with
  | unknown unlabelled =>
    exact ⟨.of_calls_eq rfl (by simp [failure?, Stop.error?, ScanError.char?]),
      by simp [pending], by simp⟩
  | failed labelled answer =>
    exact ⟨.of_call rfl hc.held (by simp [failure?, Stop.error?]), by simp [pending], hc.held⟩
  | @flushed label token labelled answer =>
    refine ⟨.of_call rfl hc.held ?_, by simp [pending], by simp⟩
    cases token <;> simp [failure?]

variable [Described α]

/-- Nothing new comes from the turn of a character either. -/
theorem spares_upcoming {ch : Char} {hops : Nat} {rest : List Char} {m : Machine}
    {j k : Journal α} {r : Except Stop (Reaction τ)} (hc : s.Avoids c)
    (up : s.upcoming = some (ch, hops, rest))
    (fired : s.machine.fire t ch hops j = ⟨m, k, r⟩) :
    Spares c j k (failure? r) ∧ c ∉ ch :: rest ∧ c ∉ m.held.toList := by
  have hrest : c ∉ ch :: rest := pending_of_upcoming up ▸ hc.pending
  obtain ⟨spares, held⟩ :=
    Machine.spares_fire fired (List.ne_of_not_mem_cons hrest) hc.held
  exact ⟨spares, hrest, held⟩

theorem spares_pull (t : Table α τ) (j : Journal α) (hc : s.Avoids c) :
    Spares c j (pull t s j).journal ((pull t s j).item.bind failure?) ∧
      (pull t s j).scan.Avoids c := by
  revert hc
  refine pull_induction (motive := fun s j p => s.Avoids c →
    Spares c j p.journal (p.item.bind failure?) ∧ p.scan.Avoids c) ?_ ?_ s j
  · intro s j p turns hc
    cases turns with
    | idle done => exact ⟨.of_calls_eq rfl (by simp), hc⟩
    | ended undone nothing => exact spares_finish j hc
    | failed undone up fired | overflowed undone up fired stuck =>
      obtain ⟨spares, hrest, held⟩ := spares_upcoming hc up fired
      exact ⟨spares, List.not_mem_of_not_mem_cons hrest, held⟩
    | gave undone up fired next given =>
      obtain ⟨spares, hrest, held⟩ := spares_upcoming hc up fired
      exact ⟨spares, avoids_after next hrest held⟩
  · intro s j s' j' p turns later hc
    cases turns with
    | quiet undone up fired next silent =>
      obtain ⟨spares, hrest, held⟩ := spares_upcoming hc up fired
      obtain ⟨spares', avoids⟩ := later (avoids_after next hrest held)
      exact ⟨spares.trans spares', avoids⟩

theorem spares_nth (t : Table α τ) (j : Journal α) (hc : s.Avoids c) (k : Nat) :
    Spares c j (nth t k s j).journal ((nth t k s j).item.bind failure?) := by
  induction k generalizing s j with
  | zero => exact (spares_pull t j hc).1
  | succ k ih =>
    obtain ⟨spares, avoids⟩ := spares_pull t j hc
    rw [nth_succ]
    exact spares.trans (ih _ avoids)

theorem spares_serve (t : Table α τ) (sink : Sink τ) (received : Array τ) (j : Journal α)
    (hc : s.Avoids c) :
    Spares c j (serve t sink s received j).journal
      (failure? (serve t sink s received j).result) := by
  induction s using wellFounded_less.induction generalizing received j with
  | _ s ih =>
    obtain ⟨spares, avoids⟩ := spares_pull t j hc
    rw [serve_eq]
    rcases hp : pull t s j with ⟨s', j', _ | stop | token⟩
    all_goals rw [hp] at spares avoids
    · exact spares
    · exact spares
    · cases verdict : sink (received.push token) with
      | false => simpa [verdict, failure?] using spares
      | true =>
        have later := ih s' (less_of_pull hp) (received.push token) j' avoids
        simpa [verdict] using spares.trans later

end Scan

/-! ## Whole texts -/

@[simp] theorem toList_normalizeString (text : String) :
    (normalizeString text).toList = normalize text.toList :=
  String.toList_ofList

theorem normalizeString_eq_self_iff {text : String} :
    normalizeString text = text ↔ '\r' ∉ text.toList := by
  rw [← normalize_eq_self_iff, ← toList_normalizeString, String.toList_inj]

/-- What kind of a text the normalized one is. -/
structure Normalizes (text : String) : Prop where
  two_passes : normalizeString text = String.ofList (crToLf (foldPairs text.toList))
  no_cr : '\r' ∉ (normalizeString text).toList
  eq_self_iff : normalizeString text = text ↔ '\r' ∉ text.toList
  idempotent : normalizeString (normalizeString text) = normalizeString text

theorem normalizes (text : String) : Normalizes text := by
  have clean : '\r' ∉ (normalizeString text).toList := by
    rw [toList_normalizeString]
    exact cr_notMem_normalizeFrom false text.toList
  constructor
  case two_passes => rw [normalizeString, normalize_eq_two_passes]
  case no_cr => exact clean
  case eq_self_iff => exact normalizeString_eq_self_iff
  case idempotent => exact normalizeString_eq_self_iff.mpr clean

theorem failure?_map {β γ : Type} (f : β → γ) (r : Except Stop β) :
    failure? (r.map f) = failure? r := by
  cases r <;> rfl

namespace Table

variable [Described α]

/-- No way to scan `text` shows the character `c`. -/
structure Hides (t : Table α τ) (c : Char) (text : String) (j : Journal α) : Prop where
  pulls : ∀ k, Spares c j (t.nth text k j).journal ((t.nth text k j).item.bind failure?)
  stream : ∀ sink,
    Spares c j (t.stream text sink j).journal (failure? (t.stream text sink j).result)
  tokens : Spares c j (t.tokens text j).2 (failure? (t.tokens text j).1)

/-- No way to scan them tells the two texts apart. -/
structure Confuses (t : Table α τ) (text text' : String) (j : Journal α) : Prop where
  pulls : ∀ k, (t.nth text' k j).item = (t.nth text k j).item ∧
    (t.nth text' k j).journal.calls = (t.nth text k j).journal.calls
  stream : ∀ sink, t.stream text' sink j = t.stream text sink j
  tokens : (t.tokens text' j).1 = (t.tokens text j).1 ∧
    (t.tokens text' j).2.calls = (t.tokens text j).2.calls

/-- A character that is not in the normalized text does not show. -/
theorem hides_of_notMem {t : Table α τ} (hl : t.limits.maxHops.toNat < hopCeiling) {c : Char}
    {text : String} (h : c ∉ normalize text.toList) (j : Journal α) : t.Hides c text j := by
  have avoids := Scan.Avoids.start h j
  -- the start of a scan makes no calls
  have start : Spares c j (Scan.start text j).2 none := .of_calls_eq rfl (by simp)
  have serve (sink : Sink τ) := start.trans
    (Scan.spares_serve t sink #[] (Scan.start text j).2 avoids)
  constructor
  case pulls => exact fun k => start.trans (Scan.spares_nth t _ avoids k)
  case stream =>
    intro sink
    rw [stream_eq_resume]
    exact (serve sink).of_alike (resume_alike t hl sink _ #[] j (Scan.start text j).2 rfl rfl)
  case tokens =>
    simp only [tokens, Scan.collect_eq_serve, failure?_map]
    exact serve fun _ => true

variable [DecidableEq α]

/-- A table that is built does what it does, whatever the log says. -/
theorem Built.tracks_self {t : Table α τ} (built : t.Built) : t.Tracks (fun _ => False) t := by
  obtain ⟨init, limits, script, j, j', built⟩ := built
  obtain ⟨-, blocks, -⟩ := Draft.run_start init limits script j
  have faithful := Draft.faithful_of_build blocks built
  exact faithful.tracks faithful rfl (.inl rfl) (fun _ _ _ found => found) fun _ _ => .inr

theorem confuses_of_normalize_eq {t : Table α τ} (built : t.Built) {text text' : String}
    (same : normalize text'.toList = normalize text.toList) (j : Journal α) :
    t.Confuses text text' j := by
  have self := built.tracks_self
  have starts : (Scan.start text j).1.Matches t t (Scan.start text' j).1 :=
    ⟨same, rfl, rfl, self.init, rfl⟩
  have calls : (Scan.start text' j).2.calls = (Scan.start text j).2.calls := rfl
  constructor
  case pulls =>
    intro k
    have pulls := Scan.matches_nth self starts calls k
    exact ⟨pulls.item, pulls.calls⟩
  case stream =>
    intro sink
    rw [stream, stream, same]
  case tokens =>
    have serves := Scan.alike_serve self (fun _ => true) starts #[] calls
    simpa [tokens, Scan.collect_eq_serve, serves.result, serves.received] using serves.calls

/-- All that is seen of a text is its normalized form. -/
theorem only_normalized_text_is_seen (text : String) :
    Normalizes text ∧ ∀ t : Table α τ, t.Built → t.limits.maxHops.toNat < hopCeiling →
      ∀ j : Journal α, t.Hides '\r' text j ∧
        ∀ text', normalizeString text' = normalizeString text → t.Confuses text text' j := by
  refine ⟨normalizes text, fun t built hl j => ⟨?_, ?_⟩⟩
  · exact hides_of_notMem hl (cr_notMem_normalizeFrom false text.toList) j
  · intro text' same
    refine confuses_of_normalize_eq built ?_ j
    rw [← toList_normalizeString, same, toList_normalizeString]

/-- The line end after the word has no rule, and the error names it as LF. -/
theorem only_normalized_text_is_seen_letters :
    letterWords.Built ∧ letterWords.limits.maxHops.toNat < hopCeiling ∧
      normalizeString "aa\r\r\n" = normalizeString "aa\n\r" ∧
      (letterWords.nth "aa\r\r\n" 1 {}).item =
        some (.error (.error (.unhandled '\n' "false"))) ∧
      (letterWords.stream "aa\r\r\n" (fun _ => true) {}).received = #["aa"] ∧
      Spares '\r' {} (letterWords.tokens "aa\r\r\n" {}).2
        (failure? (letterWords.tokens "aa\r\r\n" {}).1) := by
  have hl : letterWords.limits.maxHops.toNat < hopCeiling := by decide
  have same : normalizeString "aa\r\r\n" = normalizeString "aa\n\r" := by decide +kernel
  obtain ⟨-, confused⟩ :=
    (only_normalized_text_is_seen "aa\n\r").2 letterWords built_letterWords hl {}
  obtain ⟨hides, -⟩ :=
    (only_normalized_text_is_seen "aa\r\r\n").2 letterWords built_letterWords hl {}
  have confuses := confused "aa\r\r\n" same
  refine ⟨built_letterWords, hl, same, ?_, ?_, hides.tokens⟩
  · rw [(confuses.pulls 1).1]
    decide +kernel
  · rw [confuses.stream]
    decide +kernel

end Table

end TableLexer
