import TableLexer.Proofs.Accounting
import TableLexer.Proofs.Closure
import TableLexer.Proofs.Newlines
import TableLexer.Proofs.Transcripts

/-!
# Scanning is online

A text that goes on is scanned as before, as far as it goes. Two scans are compared
that differ only in how much text is left: they fire the same rules and make the same
calls, until the shorter one stops with an error, and then so does the longer one, or
comes to the end of its text. What the shorter one does there, the longer one leaves
for later.
-/

namespace TableLexer

variable {α τ : Type}

/-- The calls made since the journal `j`. -/
def Journal.callsSince (k j : Journal α) : List (Call α) := k.calls.toList.drop j.calls.size

theorem Journal.callsSince_eq {j k : Journal α} {calls : List (Call α)}
    (h : k.calls = j.calls ++ calls.toArray) : k.callsSince j = calls := by
  simp [callsSince, h]

/-- The transcript of a text next to that of a longer one, both made after the calls
`earlier`: they share all calls but those at the end, and an error that ends the
first one ends both. -/
structure Transcript.Precedes (earlier : Array (Call α)) (x y : Transcript α τ) : Prop where
  calls : ∃ inner last more : List (Call α),
    x.journal.calls = earlier ++ (inner ++ last).toArray ∧
    y.journal.calls = earlier ++ (inner ++ more).toArray ∧
    (∀ call ∈ inner, call.atEnd = false) ∧ ∀ call ∈ last, call.atEnd = true
  items : ∀ stop, x.items.getLast? = some (.error stop) → y.items = x.items

/-- An error at the end of a transcript is not one of the tokens before it. -/
theorem getLast?_of_tokens {tokens : List τ} {items : List (Except Stop τ)} {stop : Stop}
    (h : (tokens.map Except.ok ++ items).getLast? = some (.error stop)) :
    items.getLast? = some (.error stop) := by
  rw [List.getLast?_append] at h
  cases hi : items.getLast? with
  | none => simp [hi] at h
  | some item => simpa [hi] using h

/-- Firing a rule before both transcripts keeps them alike. -/
theorem Transcript.Precedes.cons {earlier : Array (Call α)} {calls : List (Call α)}
    {x y : Transcript α τ} (inner : ∀ call ∈ calls, call.atEnd = false)
    (h : x.Precedes (earlier ++ calls.toArray) y) (tokens : List τ) :
    Transcript.Precedes earlier ⟨tokens.map .ok ++ x.items, x.journal⟩
      ⟨tokens.map .ok ++ y.items, y.journal⟩ := by
  obtain ⟨inner', last, more, hx, hy, hinner, hlast⟩ := h.calls
  constructor
  · refine ⟨calls ++ inner', last, more, ?_, ?_, ?_, hlast⟩
    · simpa [Array.append_assoc] using hx
    · simpa [Array.append_assoc] using hy
    · intro call hm
      exact (List.mem_append.mp hm).elim (inner call) (hinner call)
  · intro stop hstop
    have same := h.items stop (getLast?_of_tokens hstop)
    dsimp only
    rw [same]

namespace Scan

/-- The scan with more text to come. -/
def extend (s : Scan) (extra : List Char) : Scan := { s with rest := s.rest ++ extra }

theorem upcoming_extend {s : Scan} {ch : Char} {hops : Nat} {rest : List Char}
    (h : s.upcoming = some (ch, hops, rest)) (extra : List Char) :
    (s.extend extra).upcoming = some (ch, hops, rest ++ extra) := by
  obtain ⟨hp, hr⟩ | ⟨hp, rfl, hr⟩ := upcoming_eq_some h
  · simp [upcoming, extend, hp, hr]
  · simp [upcoming, extend, hp, hr]

theorem after_extend {rest : List Char} {ch : Char} {hops : Nat} {m : Machine}
    {reaction : Reaction τ} {s : Scan} (h : after rest ch hops m reaction = some s)
    (extra : List Char) : after (rest ++ extra) ch hops m reaction = some (s.extend extra) := by
  obtain ⟨token, rfl, rfl⟩ | ⟨token, rfl, hlt, rfl⟩ := after_eq_some h
  · rfl
  · exact if_pos hlt

/-- The longer text is scanned from the start with more to come. -/
theorem start_append (u v : String) (j j' : Journal α) :
    ∃ extra, (start (u ++ v) j').1 = (start u j).1.extend extra := by
  refine ⟨normalizeFrom (crBefore false u.toList) v.toList, ?_⟩
  simp only [start, extend, normalize, String.toList_append, normalizeFrom_append]

variable [Described α] {t : Table α τ}

theorem calls_transcript (hl : t.limits.maxHops.toNat < hopCeiling) (total : t.factory.Total)
    (s : Scan) (j : Journal α) :
    ∃ calls : List (Call α), (transcript t s j).journal.calls = j.calls ++ calls.toArray := by
  induction s, j using scan_induction hl total with
  | done s j hd => exact ⟨[], by simp [hd]⟩
  | ended s j hd hu =>
    obtain ⟨calls, made, -, -⟩ := Machine.calls_of_flushEnd t s.machine j
    rw [transcript_ended hd hu]
    exact ⟨calls, made⟩
  | errored s j ch hops rest m k e hd hu ho =>
    obtain ⟨calls, made, -, -⟩ := Machine.calls_of_fire ho
    rw [transcript_errored hd hu ho]
    exact ⟨calls, made⟩
  | fired s j ch hops rest m k reaction s' hd hu ho hs ih =>
    obtain ⟨calls, made, -, -⟩ := Machine.calls_of_fire ho
    obtain ⟨calls', later⟩ := ih
    rw [transcript_fired hd hu ho hs]
    exact ⟨calls ++ calls', by simp [later, made]⟩

/-- A scan makes a beginning for every scan that has more text to come. -/
theorem precedes_extend (hl : t.limits.maxHops.toNat < hopCeiling) (total : t.factory.Total)
    (closed : t.Closed) (extra : List Char) (s : Scan) (j j' : Journal α) (hd : s.done = false)
    (hm : s.machine.state < t.stateCount) (hj : j'.calls = j.calls) :
    (transcript t s j).Precedes j.calls (transcript t (s.extend extra) j') := by
  induction s, j using scan_induction hl total generalizing j' with
  | done s j done => exact absurd (hd.symm.trans done) (by decide)
  | ended s j _ hu =>
    obtain ⟨last, made, -, atEnd⟩ := Machine.calls_of_flushEnd t s.machine j
    obtain ⟨more, grown⟩ := calls_transcript hl total (s.extend extra) j'
    rw [transcript_ended hd hu]
    refine ⟨⟨[], last, more, made, by rw [grown, hj]; rfl, by simp, atEnd⟩, ?_⟩
    -- a state of the table has a label, so there is no error at the end of the text
    intro stop hstop
    obtain ⟨token, item⟩ | ⟨unlabelled, -⟩ := item_finish total s.machine j
    · rw [item] at hstop
      cases token <;> cases hstop
    · exact absurd unlabelled (Table.label?_ne_none hm)
  | errored s j ch hops rest m k e _ hu ho =>
    obtain ⟨calls, made, -, inner⟩ := Machine.calls_of_fire ho
    obtain ⟨k', ho', hk⟩ := (Machine.fire_alike t s.machine ch hops hj).exists_eq ho
    rw [transcript_errored hd hu ho,
      transcript_errored (s := s.extend extra) hd (upcoming_extend hu extra) ho']
    exact ⟨⟨calls, [], [], by simp [made], by simp [hk, made], inner, by simp⟩, fun _ _ => rfl⟩
  | fired s j ch hops rest m k reaction s' _ hu ho hs ih =>
    obtain ⟨calls, made, -, inner⟩ := Machine.calls_of_fire ho
    obtain ⟨k', ho', hk⟩ := (Machine.fire_alike t s.machine ch hops hj).exists_eq ho
    have hm' : s'.machine.state < t.stateCount := by
      rw [machine_after hs]
      exact (Machine.sound_fire closed hm ho).within
    have later := ih k' (done_after hs) hm' hk
    rw [made] at later
    rw [transcript_fired hd hu ho hs, transcript_fired (s := s.extend extra) hd
      (upcoming_extend hu extra) ho' (after_extend hs extra)]
    exact later.cons inner _

end Scan

namespace Table

variable [Described α]

/-- The calls that a scan of `text` makes before the end of it, with their answers. -/
def exchanges (t : Table α τ) (text : String) (j : Journal α) :
    List (Call α × Except Fault (Option τ)) :=
  (t.factory.dialogue j.calls ((t.transcript text j).journal.callsSince j)).filter
    fun exchange => !exchange.1.atEnd

/-- All calls are kept that are made before the end. -/
theorem exchanges_eq {t : Table α τ} {text : String} {j : Journal α} {inner more : List (Call α)}
    (made : (t.transcript text j).journal.calls = j.calls ++ (inner ++ more).toArray)
    (hinner : ∀ call ∈ inner, call.atEnd = false) :
    t.exchanges text j = t.factory.dialogue j.calls inner ++
      (t.factory.dialogue (j.calls ++ inner.toArray) more).filter
        fun exchange => !exchange.1.atEnd := by
  rw [exchanges, Journal.callsSince_eq made, Factory.dialogue_append, List.filter_append]
  congr 1
  apply List.filter_eq_self.mpr
  intro exchange hm
  simp [hinner exchange.1 (List.of_mem_zip hm).1]

/-- More text changes nothing of what has been done: the calls made before the end of
a text are the first ones made for any longer text, with the same answers, and an
error that stops the scan of a text stops that of the longer text at the same item. -/
theorem scanning_is_online [DecidableEq α] (t : Table α τ) (built : t.Built)
    (hl : t.limits.maxHops.toNat < hopCeiling) (total : t.factory.Total) (u v : String)
    (j : Journal α) :
    t.exchanges u j <+: t.exchanges (u ++ v) j ∧
      ∀ stop, (t.transcript u j).items.getLast? = some (.error stop) →
        (t.transcript (u ++ v) j).items = (t.transcript u j).items := by
  obtain ⟨extra, longer⟩ := Scan.start_append u v j j
  have precedes : (t.transcript u j).Precedes j.calls (t.transcript (u ++ v) j) := by
    rw [transcript, transcript, longer]
    exact Scan.precedes_extend hl total built.closed extra (Scan.start u j).1 (Scan.start u j).2
      (Scan.start (u ++ v) j).2 rfl t.stateCount_pos rfl
  obtain ⟨inner, last, more, hu, huv, hinner, hlast⟩ := precedes.calls
  refine ⟨?_, precedes.items⟩
  have none : (t.factory.dialogue (j.calls ++ inner.toArray) last).filter
      (fun exchange => !exchange.1.atEnd) = [] := by
    apply List.filter_eq_nil_iff.mpr
    intro exchange hm
    simp [hlast exchange.1 (List.of_mem_zip hm).1]
  rw [exchanges_eq hu hinner, exchanges_eq huv hinner, none, List.append_nil]
  exact List.prefix_append _ _

/-- A line end that is cut in two: the first half already stops the scan. -/
theorem scanning_is_online_line :
    letterWords.Built ∧ letterWords.limits.maxHops.toNat < hopCeiling ∧
      letterWords.factory.Total ∧
      letterWords.exchanges "aa\r" {} = [(⟨true, "aa", false⟩, .ok (some "aa"))] ∧
      letterWords.exchanges "aa\r" {} <+: letterWords.exchanges ("aa\r" ++ "\na") {} ∧
      (letterWords.transcript ("aa\r" ++ "\na") {}).items =
        [.ok "aa", .error (.error (.unhandled '\n' "false"))] := by
  have hl : letterWords.limits.maxHops.toNat < hopCeiling := by decide
  have done : (Scan.pulled letterWords 2 (Scan.start "aa\r" ({} : Journal Bool)).1
      (Scan.start "aa\r" {}).2).1.done = true := by decide +kernel
  have pulls := Scan.transcript_of_pulled done
  have items : (letterWords.transcript "aa\r" {}).items =
      [.ok "aa", .error (.error (.unhandled '\n' "false"))] := by
    rw [transcript, pulls]
    decide +kernel
  have made : letterWords.exchanges "aa\r" {} = [(⟨true, "aa", false⟩, .ok (some "aa"))] := by
    rw [exchanges, transcript, pulls]
    decide +kernel
  obtain ⟨calls, same⟩ :=
    scanning_is_online letterWords built_letterWords hl Factory.total_text "aa\r" "\na" {}
  refine ⟨built_letterWords, hl, Factory.total_text, made, calls, ?_⟩
  rw [same (.error (.unhandled '\n' "false")) (by rw [items]; rfl), items]

end Table

end TableLexer
