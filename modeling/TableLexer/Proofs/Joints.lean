import TableLexer.Proofs.Failure

/-!
# Texts cut at a joint

A text may be cut where the machine is back at its beginning: in the initial state, with
nothing held. A factory without memory cannot tell what came before the cut, and the hop
counter starts anew with every character, so what follows is scanned as if it stood
alone. The flush at the end of the first part has no text to make a token of. So the
tokens of the whole are those of the parts, one after the other.
-/

namespace TableLexer

variable {α τ : Type}

/-- The answer to a call does not depend on earlier ones. -/
def Factory.Memoryless (factory : Factory α τ) : Prop :=
  ∀ earlier earlier' call, factory earlier call = factory earlier' call

theorem Factory.memoryless_text : (Factory.text : Factory α String).Memoryless :=
  fun _ _ _ => rfl

/-- A delivery that goes like another one after `earlier` has been received. -/
structure Delivery.Follows (earlier : Array τ) (d d' : Delivery α τ) : Prop where
  machine : d.machine = d'.machine
  result : d.result = d'.result
  received : d.received = earlier ++ d'.received

theorem Delivery.Follows.exists_eq {earlier : Array τ} {d d' : Delivery α τ}
    (h : d.Follows earlier d') :
    ∃ k, d = ⟨d'.machine, k, earlier ++ d'.received, d'.result⟩ := by
  obtain ⟨m, k, received, result⟩ := d
  obtain ⟨rfl, rfl, rfl⟩ := h
  exact ⟨k, rfl⟩

namespace Machine

theorem deliver_append (earlier received : Array τ) (token : Option τ) :
    deliver (fun _ => true) (earlier ++ received) token =
      (earlier ++ (deliver (fun _ => true) received token).1,
        (deliver (fun _ => true) received token).2) := by
  cases token with
  | none => rfl
  | some token => simp [deliver]

variable {t : Table α τ} (memoryless : t.factory.Memoryless)
include memoryless

theorem flushEnd_memoryless {m m' : Machine} {j k : Journal α} {r : Except Stop (Option τ)}
    (flushed : m.flushEnd t j = ⟨m', k, r⟩) (j' : Journal α) :
    ∃ k', m.flushEnd t j' = ⟨m', k', r⟩ := by
  have closes := closes_flushEnd t m j
  rw [flushed] at closes
  cases closes with
  | unknown unlabelled => exact ⟨_, (Closes.unknown unlabelled).eq⟩
  | failed labelled answer =>
    rw [memoryless _ j'.calls] at answer
    exact ⟨_, (Closes.failed labelled answer).eq⟩
  | flushed labelled answer =>
    rw [memoryless _ j'.calls] at answer
    exact ⟨_, (Closes.flushed labelled answer).eq⟩

theorem follows_close (earlier : Array τ) (m : Machine) (received : Array τ) (j j' : Journal α) :
    (m.close t (fun _ => true) (earlier ++ received) j').Follows earlier
      (m.close t (fun _ => true) received j) := by
  unfold close
  rcases flushed : m.flushEnd t j with ⟨m', k, stop | token⟩
  · obtain ⟨k', flushed'⟩ := flushEnd_memoryless memoryless flushed j'
    rw [flushed']
    exact ⟨rfl, rfl, rfl⟩
  · obtain ⟨k', flushed'⟩ := flushEnd_memoryless memoryless flushed j'
    rw [flushed']
    dsimp only
    rw [deliver_append]
    exact ⟨rfl, rfl, rfl⟩

variable [Described α]

theorem fire_memoryless {m m' : Machine} {ch : Char} {hops : Nat} {j k : Journal α}
    {r : Except Stop (Reaction τ)} (fired : m.fire t ch hops j = ⟨m', k, r⟩) (j' : Journal α) :
    ∃ k', m.fire t ch hops j' = ⟨m', k', r⟩ := by
  have fires := fires_fire t m ch hops j
  rw [fired] at fires
  cases fires with
  | overLimit beyond => exact ⟨_, (Fires.overLimit beyond).eq⟩
  | noRule within missing => exact ⟨_, (Fires.noRule within missing).eq⟩
  | kept within selected keeps => exact ⟨_, (Fires.kept within selected keeps).eq⟩
  | failed within selected flushes labelled answer =>
    rw [memoryless _ j'.calls] at answer
    exact ⟨_, (Fires.failed within selected flushes labelled answer).eq⟩
  | flushed within selected flushes labelled answer =>
    rw [memoryless _ j'.calls] at answer
    exact ⟨_, (Fires.flushed within selected flushes labelled answer).eq⟩

/-- What a character comes to does not depend on what has been received before. -/
theorem follows_feedFrom (earlier : Array τ) (m : Machine) (ch : Char) (hops : Nat)
    (received : Array τ) (j j' : Journal α) :
    (m.feedFrom t (fun _ => true) ch hops (earlier ++ received) j').Follows earlier
      (m.feedFrom t (fun _ => true) ch hops received j) := by
  fun_induction feedFrom t (fun _ => true) m ch hops received j generalizing j' with
  | case1 m hops received j m' k stop fired =>
    obtain ⟨k', fired'⟩ := fire_memoryless memoryless fired j'
    rw [feedFrom, fired']
    exact ⟨rfl, rfl, rfl⟩
  | case2 m hops received j m' k token fired received' verdict delivered =>
    obtain ⟨k', fired'⟩ := fire_memoryless memoryless fired j'
    rw [feedFrom, fired']
    simp only [deliver_append, delivered]
    exact ⟨rfl, rfl, rfl⟩
  | case3 m hops received j m' k token fired received' delivered =>
    obtain ⟨k', fired'⟩ := fire_memoryless memoryless fired j'
    rw [feedFrom, fired']
    simp only [deliver_append, delivered]
    exact ⟨rfl, rfl, rfl⟩
  | case4 m hops received j m' k token fired received' delivered room ih =>
    obtain ⟨k', fired'⟩ := fire_memoryless memoryless fired j'
    rw [feedFrom, fired']
    simp only [deliver_append, delivered, room, if_true]
    exact ih k'
  | case5 m hops received j m' k token fired received' delivered full =>
    obtain ⟨k', fired'⟩ := fire_memoryless memoryless fired j'
    rw [feedFrom, fired']
    simp only [deliver_append, delivered, full, if_false]
    exact ⟨rfl, rfl, rfl⟩

theorem follows_feedAll (earlier : Array τ) (m : Machine) (received : Array τ)
    (j j' : Journal α) (chars : List Char) :
    (feedAll t (fun _ => true) m (earlier ++ received) j' chars).1.Follows earlier
      (feedAll t (fun _ => true) m received j chars).1 := by
  induction chars generalizing m received j j' with
  | nil => exact ⟨rfl, rfl, rfl⟩
  | cons ch chars ih =>
    obtain ⟨k', same⟩ := (follows_feedFrom memoryless earlier m ch 0 received j j').exists_eq
    rw [feedAll, feedAll, feed, feed, same]
    rcases m.feedFrom t (fun _ => true) ch 0 received j with ⟨m', k, received', stop | _ | _⟩
    · exact ⟨rfl, rfl, rfl⟩
    · exact ⟨rfl, rfl, rfl⟩
    · exact ih m' received' k k'

end Machine

namespace Table

variable [Described α]

theorem follows_push {t : Table α τ} (memoryless : t.factory.Memoryless) (earlier : Array τ)
    (m : Machine) (received : Array τ) (j j' : Journal α) (chars : List Char) :
    (push t (fun _ => true) m j' (earlier ++ received) chars).Follows earlier
      (push t (fun _ => true) m j received chars) := by
  obtain ⟨k', same⟩ :=
    (Machine.follows_feedAll memoryless earlier m received j j' chars).exists_eq
  rw [push, push, same]
  rcases (Machine.feedAll t (fun _ => true) m received j chars).1 with
    ⟨m', k, received', stop | _ | _⟩
  · exact ⟨rfl, rfl, rfl⟩
  · exact ⟨rfl, rfl, rfl⟩
  · exact Machine.follows_close memoryless earlier m' received' k k'

/-- Collecting the tokens of a text is pushing them to a consumer that wants them all. -/
theorem tokens_eq_push (t : Table α τ) (hl : t.limits.maxHops.toNat < hopCeiling) (text : String)
    (j : Journal α) :
    (t.tokens text j).1 =
      (push t (fun _ => true) {} j #[] (normalize text.toList)).result.map
        fun _ => (push t (fun _ => true) {} j #[] (normalize text.toList)).received := by
  have alike := resume_alike t hl (fun _ => true) (Scan.start text j).1 #[] j
    (Scan.start text j).2 rfl rfl
  simp only [tokens, Scan.collect_eq_serve]
  rw [← alike.result, ← alike.received, ← resume_unparked]
  rfl

omit [Described α] in
/-- A machine without text has no token to flush at the end. -/
theorem close_fresh {t : Table α String} (plain : t.factory = .text) (sink : Sink String)
    (received : Array String) (j : Journal α) :
    (({} : Machine).close t sink received j).result = .ok true ∧
      (({} : Machine).close t sink received j).received = received := by
  obtain ⟨label, labelled⟩ := lt_stateCount_iff.mp t.stateCount_pos
  have answer : t.factory j.calls ⟨label, "", true⟩ = .ok none := by rw [plain]; rfl
  have closes : ({} : Machine).flushEnd t j = _ := (Machine.Closes.flushed labelled answer).eq
  rw [Machine.close, closes]
  exact ⟨rfl, rfl⟩

/-- From a joint on, what is pushed is pushed as at the beginning. -/
theorem push_after_joint {t : Table α τ} (memoryless : t.factory.Memoryless) {j : Journal α}
    {chars : List Char}
    (through : (Machine.feedAll t (fun _ => true) {} #[] j chars).1.result = .ok true)
    (back : (Machine.feedAll t (fun _ => true) {} #[] j chars).1.machine = {})
    (k : Journal α) (more : List Char) :
    ∃ k', push t (fun _ => true) {} k #[] (chars ++ more) =
      push t (fun _ => true) {} k'
        (Machine.feedAll t (fun _ => true) {} #[] j chars).1.received more := by
  have follows := Machine.follows_feedAll memoryless #[] {} #[] j k chars
  rw [Array.empty_append] at follows
  have through' := follows.result.trans through
  rw [push, Machine.feedAll_append _ _ _ _ _ _ _ through', follows.machine, back,
    follows.received, Array.empty_append]
  exact ⟨_, rfl⟩

/-- If the machine is back at its beginning after the text `u`, and no pair CR LF is cut
in two, the tokens of `u` and `v` together are those of `u` and then those of `v`. What
`v` fails with, the whole text fails with. -/
theorem tokens_split_at_joint (t : Table α String) (plain : t.factory = .text)
    (hl : t.limits.maxHops.toNat < hopCeiling) (u v : String) (j j₁ j₂ j₃ : Journal α)
    (through : (Machine.feedAll t (fun _ => true) {} #[] j (normalize u.toList)).1.result =
      .ok true)
    (back : (Machine.feedAll t (fun _ => true) {} #[] j (normalize u.toList)).1.machine = {})
    (apart : ¬ (u.toList.getLast? = some '\r' ∧ v.toList.head? = some '\n')) :
    ∃ before, (t.tokens u j₁).1 = .ok before ∧
      (∀ tokens, (t.tokens v j₂).1 = .ok tokens →
        (t.tokens (u ++ v) j₃).1 = .ok (before ++ tokens)) ∧
      ∀ stop, (t.tokens v j₂).1 = .error stop → (t.tokens (u ++ v) j₃).1 = .error stop := by
  have memoryless : t.factory.Memoryless := plain ▸ Factory.memoryless_text
  have joint := push_after_joint memoryless through back
  generalize (Machine.feedAll t (fun _ => true) {} #[] j (normalize u.toList)).1.received =
    before at joint
  refine ⟨before, ?_, ?_⟩
  · obtain ⟨k', first⟩ := joint j₁ []
    obtain ⟨ends, received⟩ := close_fresh plain (fun _ => true) before k'
    rw [List.append_nil] at first
    rw [tokens_eq_push t hl, first, push]
    simp [Machine.feedAll, proceed, ends, received, Except.map]
  · obtain ⟨k', whole⟩ := joint j₃ (normalize v.toList)
    have second := follows_push memoryless before {} #[] j₂ k' (normalize v.toList)
    rw [Array.append_empty] at second
    rw [tokens_eq_push t hl, tokens_eq_push t hl (u ++ v), String.toList_append,
      normalize_append_of_apart apart, whole, second.result, second.received]
    cases (push t (fun _ => true) {} j₂ #[] (normalize v.toList)).result with
    | error stop => exact ⟨by rintro _ ⟨⟩, by rintro _ ⟨⟩; rfl⟩
    | ok verdict => exact ⟨by rintro _ ⟨⟩; rfl, by rintro _ ⟨⟩⟩

/-- Words of small letters, one on a line. -/
def lineScript : List (Directive Nat) :=
  [.on (.range 'a' 'z') .shift 1, .stay (.only '\n') .skip, .focus 1,
    .stay (.range 'a' 'z') .shift, .on (.only '\n') .skipReduce 0]

def lineTable : Table Nat String := ((Draft.start 0 {}).run lineScript {}).1.toTable .text

/-- After the end of a line the next words are as good as the first, and a character
that is no letter is as bad. -/
theorem tokens_split_at_joint_lines :
    (((Draft.start 0 {}).run lineScript {}).1.build .text {}).1 = .ok lineTable ∧
      (Machine.feedAll lineTable (fun _ => true) {} #[] {} (normalize "ab\r".toList)).1.machine =
        {} ∧
      (lineTable.tokens ("ab\r" ++ "c\nd") {}).1 = .ok #["ab", "c", "d"] ∧
      (lineTable.tokens ("ab\r" ++ "c\n?") {}).1 =
        .error (.error (.unhandled '?' "0")) := by
  have through : (Machine.feedAll lineTable (fun _ => true) {} #[] {}
      (normalize "ab\r".toList)).1.result = .ok true := by decide +kernel
  have back : (Machine.feedAll lineTable (fun _ => true) {} #[] {}
      (normalize "ab\r".toList)).1.machine = {} := by decide +kernel
  have collect := tokens_eq_push lineTable (by decide)
  have alone : (lineTable.tokens "ab\r" {}).1 = .ok #["ab"] := by rw [collect]; decide +kernel
  have words : (lineTable.tokens "c\nd" {}).1 = .ok #["c", "d"] := by rw [collect]; decide +kernel
  have fails : (lineTable.tokens "c\n?" {}).1 = .error (.error (.unhandled '?' "0")) := by
    rw [collect]; decide +kernel
  have split (v : String) (apart : v.toList.head? ≠ some '\n') :=
    tokens_split_at_joint lineTable rfl (by decide) "ab\r" v {} {} {} {} through back
      fun both => apart both.2
  obtain ⟨before, first, good, -⟩ := split "c\nd" (by decide)
  obtain ⟨-, -, -, bad⟩ := split "c\n?" (by decide)
  cases alone.symm.trans first
  exact ⟨rfl, back, good _ words, bad _ fails⟩

end Table

end TableLexer
