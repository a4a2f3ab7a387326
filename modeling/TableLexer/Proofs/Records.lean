import Mathlib.Data.List.Nodup
import TableLexer.Proofs.Values
import TableLexer.Settings.Document

/-!
# The grammar of records

Which values stand for a record: an object, with any of the known keys in any order, or
an array of the first values in the order of the fields. Fields are put in one after
another as they come, and the order does not matter because they are apart. A record is
read from exactly such values (`readRecord_reads`).
-/

namespace TableLexer.Json

/-! ## Which values stand for a record -/

/-- A field of a record: which values it takes and where they go. -/
structure Slot (ρ : Type) where
  key : String
  {β : Type}
  decode : Value → Option β
  put : ρ → β → ρ

/-- The members have different keys, and these are among the given ones. -/
def Keyed (keys : List String) (members : List (String × Value)) : Prop :=
  (members.map Prod.fst).Nodup ∧ ∀ key ∈ members.map Prod.fst, key ∈ keys

instance (keys : List String) (members : List (String × Value)) : Decidable (Keyed keys members) :=
  inferInstanceAs (Decidable (_ ∧ _))

/-- The values of a record by their keys. An object has some of the keys, each once. An
array has the first values, in order. -/
def Value.entries? (keys : List String) : Value → Option (List (String × Value))
  | .object members => if Keyed keys members then some members else none
  | .array elements => if elements.length ≤ keys.length then some (keys.zip elements) else none
  | _ => none

theorem Value.entries?_object {keys : List String} {members entries : List (String × Value)} :
    (Value.object members).entries? keys = some entries ↔
      Keyed keys members ∧ members = entries := by
  simp [Value.entries?]

theorem Value.entries?_array {keys : List String} {elements : List Value}
    {entries : List (String × Value)} : (Value.array elements).entries? keys = some entries ↔
      elements.length ≤ keys.length ∧ keys.zip elements = entries := by
  simp [Value.entries?]

variable {ρ : Type}

/-- Put the value of the slot's key into a record, if there is one. -/
def Slot.fill? (entries : List (String × Value)) (r : ρ) (slot : Slot ρ) : Option ρ :=
  match entries.lookup slot.key with
  | none => some r
  | some v => (slot.decode v).map (slot.put r)

/-- Fill all slots of a record. What no entry is for stays as it is in `r`. -/
def fillAll? (slots : List (Slot ρ)) (entries : List (String × Value)) (r : ρ) : Option ρ :=
  slots.foldlM (Slot.fill? entries) r

/-- The record that a value stands for, with the values of `r` where it has none. -/
def Value.record? (slots : List (Slot ρ)) (r : ρ) (v : Value) : Option ρ :=
  (v.entries? (slots.map Slot.key)).bind fun entries => fillAll? slots entries r

/-! ## Marks between values -/

theorem readColon_ok_iff {cs rest : List Char} :
    readColon cs = .ok rest ↔ skipBlank cs = ':' :: rest := by
  unfold readColon
  split <;> simp_all

theorem readClosing_ok_iff {cs rest : List Char} :
    readClosing cs = .ok rest ↔ skipBlank cs = ']' :: rest := by
  unfold readClosing
  split <;> simp_all

theorem nextElement_finish_iff {first : Bool} {cs rest : List Char} :
    nextElement first cs = .ok (.finish rest) ↔ skipBlank cs = ']' :: rest := by
  unfold nextElement
  split
  · simp_all
  · simp_all
  · split
    · simp_all
    · split
      · split <;> simp_all
      · simp_all

theorem nextMember_finish_iff {first : Bool} {cs rest : List Char} :
    nextMember first cs = .ok (.finish rest) ↔ skipBlank cs = '\x7d' :: rest := by
  unfold nextMember
  split
  · simp_all
  · simp_all
  · split
    · split <;> simp_all
    · split
      · split <;> simp_all
      · simp_all

theorem nextElement_entry {first : Bool} {cs rest : List Char}
    (h : nextElement first cs = .ok (.entry rest)) :
    ∃ lead, Lead first lead ∧ cs = lead ++ rest := by
  unfold nextElement at h
  split at h
  · cases h
  · cases h
  · next c more _ found =>
    cases first with
    | true =>
      cases h
      exact exists_blank_of_skipBlank found
    | false =>
      simp only [Bool.false_eq_true, if_false] at h
      split at h
      · next comma =>
        obtain rfl := comma
        split at h
        · cases h
        · cases h
        · cases h
          exact exists_lead_of_comma found
      · cases h

theorem nextElement_lead {first : Bool} {lead rest : List Char} {c : Char} (leads : Lead first lead)
    (mark : isBlank c = false) (opens : c ≠ ']') :
    nextElement first (lead ++ c :: rest) = .ok (.entry (c :: rest)) := by
  cases first with
  | true =>
    rw [nextElement, skipBlank_append leads mark]
    simp
  | false =>
    obtain ⟨before, after, blank, blank', rfl⟩ := leads
    rw [List.append_assoc, List.cons_append, nextElement, skipBlank_append blank rfl]
    simp [skipBlank_append blank' mark, opens]

theorem nextMember_entry_iff {first : Bool} {cs rest : List Char} :
    nextMember first cs = .ok (.entry rest) ↔
      ∃ lead, Lead first lead ∧ cs = lead ++ '"' :: rest := by
  constructor
  · intro h
    unfold nextMember at h
    split at h
    · cases h
    · cases h
    · next c more _ found =>
      cases first with
      | true =>
        simp only [if_true] at h
        split at h
        · next quote =>
          cases h
          obtain rfl := quote
          exact exists_blank_of_skipBlank found
        · cases h
      | false =>
        simp only [Bool.false_eq_true, if_false] at h
        split at h
        · next comma =>
          obtain rfl := comma
          split at h
          · cases h
          · next quote =>
            cases h
            exact quote ▸ exists_lead_of_comma found
          · cases h
        · cases h
  · rintro ⟨lead, leads, rfl⟩
    cases first with
    | true =>
      rw [nextMember, skipBlank_append leads rfl]
      simp
    | false =>
      obtain ⟨before, after, blank, blank', rfl⟩ := leads
      rw [List.append_assoc, List.cons_append, nextMember, skipBlank_append blank rfl]
      simp [skipBlank_append blank' (rfl : isBlank '"' = false)]

/-! ## Filling a record in any order -/

/-- The slots of a record have different keys and do not get into each other's way. -/
structure Layout (slots : List (Slot ρ)) : Prop where
  keys : (slots.map Slot.key).Nodup
  apart : slots.Pairwise fun s t => ∀ r a b, s.put (t.put r b) a = t.put (s.put r a) b

theorem Layout.sublist {slots slots' : List (Slot ρ)} (layout : Layout slots)
    (sub : slots'.Sublist slots) : Layout slots' :=
  ⟨layout.keys.sublist (sub.map _), layout.apart.sublist sub⟩

theorem Layout.erase {before after : List (Slot ρ)} {slot : Slot ρ}
    (layout : Layout (before ++ slot :: after)) : Layout (before ++ after) :=
  layout.sublist ((List.sublist_cons_self slot after).append_left before)

theorem fillAll?_nil (slots : List (Slot ρ)) (r : ρ) : fillAll? slots [] r = some r := by
  induction slots with
  | nil => rfl
  | cons slot slots ih => exact ih

theorem fillAll?_cons (slot : Slot ρ) (slots : List (Slot ρ)) (entries : List (String × Value))
    (r : ρ) : fillAll? (slot :: slots) entries r =
      (slot.fill? entries r).bind (fillAll? slots entries) :=
  rfl

theorem Slot.fill?_cons_self (slot : Slot ρ) (v : Value) (entries : List (String × Value)) (r : ρ) :
    slot.fill? ((slot.key, v) :: entries) r = (slot.decode v).map (slot.put r) := by
  simp [Slot.fill?]

theorem Slot.fill?_cons_of_ne {slot : Slot ρ} {key : String} (other : slot.key ≠ key) (v : Value)
    (entries : List (String × Value)) (r : ρ) :
    slot.fill? ((key, v) :: entries) r = slot.fill? entries r := by
  simp [Slot.fill?, List.lookup_cons, beq_eq_false_iff_ne.mpr other]

theorem fillAll?_cons_of_not_mem {slots : List (Slot ρ)} {key : String}
    (absent : key ∉ slots.map Slot.key) (v : Value) (entries : List (String × Value)) (r : ρ) :
    fillAll? slots ((key, v) :: entries) r = fillAll? slots entries r := by
  induction slots generalizing r with
  | nil => rfl
  | cons slot slots ih =>
    simp only [List.map_cons, List.mem_cons, not_or] at absent
    rw [fillAll?_cons, fillAll?_cons, Slot.fill?_cons_of_ne (Ne.symm absent.1),
      funext (ih absent.2)]

/-- Slots that are apart are filled in either order. -/
theorem Slot.fill?_put {s t : Slot ρ} (apart : ∀ r a b, s.put (t.put r b) a = t.put (s.put r a) b)
    (entries : List (String × Value)) (r : ρ) (b : t.β) :
    s.fill? entries (t.put r b) = (s.fill? entries r).map (t.put · b) := by
  unfold Slot.fill?
  split
  · rfl
  · rw [Option.map_map]
    exact congrArg (Option.map · _) (funext fun a => apart r a b)

/-- The entry of one slot may be put into the record first. -/
theorem fillAll?_insert {before after : List (Slot ρ)} {slot : Slot ρ}
    (layout : Layout (before ++ slot :: after)) (v : Value) (entries : List (String × Value))
    (r : ρ) : fillAll? (before ++ slot :: after) ((slot.key, v) :: entries) r =
      (slot.decode v).bind fun b => fillAll? (before ++ after) entries (slot.put r b) := by
  induction before generalizing r with
  | nil =>
    have absent := (List.nodup_cons.mp layout.keys).1
    rw [List.nil_append, fillAll?_cons, Slot.fill?_cons_self, Option.bind_map]
    congr
    funext b
    exact fillAll?_cons_of_not_mem absent v entries (slot.put r b)
  | cons s before ih =>
    have others : Layout (before ++ slot :: after) := layout.sublist (List.sublist_cons_self s _)
    have different : s.key ≠ slot.key := fun same =>
      (List.nodup_cons.mp layout.keys).1 (by simp [same])
    have apart := (List.pairwise_cons.mp layout.apart).1 slot (by simp)
    simp only [List.cons_append, fillAll?_cons, Slot.fill?_cons_of_ne different,
      funext (ih others), Slot.fill?_put apart]
    -- either may fail, and then both orders do
    cases s.fill? entries r <;> cases slot.decode v <;> rfl

/-! ## Reading a record -/

/-- A slot with a reader for its values. -/
structure ReadSlot (ρ : Type) extends Slot ρ where
  read : Reader β
  reads : Reads read decode

def ReadSlot.field (slot : ReadSlot ρ) : RecordField ρ := Document.field slot.key slot.read slot.put

/-- The field has a reader for the values of the slot. -/
def Serves (field : RecordField ρ) (slot : Slot ρ) : Prop :=
  ∃ read, field = Document.field slot.key read slot.put ∧ Reads read slot.decode

theorem exists_readSlots {fields : List (RecordField ρ)} {slots : List (Slot ρ)}
    (serves : List.Forall₂ Serves fields slots) :
    ∃ readSlots : List (ReadSlot ρ),
      readSlots.map ReadSlot.field = fields ∧ readSlots.map ReadSlot.toSlot = slots := by
  induction serves with
  | nil => exact ⟨[], rfl, rfl⟩
  | @cons field slot fields slots served _ ih =>
    obtain ⟨read, rfl, reads⟩ := served
    obtain ⟨readSlots, rfl, rfl⟩ := ih
    exact ⟨⟨slot, read, reads⟩ :: readSlots, rfl, rfl⟩

theorem ReadSlot.field_read_ok_iff {slot : ReadSlot ρ} {r r' : ρ} {cs rest : List Char} :
    slot.field.read r cs = .ok (r', rest) ↔
      ∃ b, slot.read cs = .ok (b, rest) ∧ slot.put r b = r' := by
  rw [ReadSlot.field, Document.field, map_ok_iff]
  constructor
  · rintro ⟨⟨b, _⟩, read, rfl, rfl⟩
    exact ⟨b, read, rfl⟩
  · rintro ⟨b, read, rfl⟩
    exact ⟨(b, rest), read, rfl⟩

/-- The entries of the first slot and of the others. -/
theorem fillAll?_zip_cons {slot : Slot ρ} {slots : List (Slot ρ)} (layout : Layout (slot :: slots))
    (v : Value) (elements : List Value) (r : ρ) :
    fillAll? (slot :: slots) (((slot :: slots).map Slot.key).zip (v :: elements)) r =
      (slot.decode v).bind fun b =>
        fillAll? slots ((slots.map Slot.key).zip elements) (slot.put r b) :=
  @fillAll?_insert ρ [] slots slot layout v _ r

theorem readElements_sound {first : Bool} {slots : List (ReadSlot ρ)} {r r' : ρ}
    {cs rest : List Char} (layout : Layout (slots.map ReadSlot.toSlot))
    (h : readElements first (slots.map ReadSlot.field) r cs = .ok (r', rest)) :
    ∃ elements items, Items Written first elements items ∧ cs = items ++ ']' :: rest ∧
      elements.length ≤ slots.length ∧
      fillAll? (slots.map ReadSlot.toSlot)
        (((slots.map ReadSlot.toSlot).map Slot.key).zip elements) r = some r' := by
  induction slots generalizing first r cs with
  | nil =>
    obtain ⟨_, read, same⟩ := map_ok_iff.mp h
    cases same
    obtain ⟨blanks, blank, rfl⟩ := exists_blank_of_skipBlank (readClosing_ok_iff.mp read)
    exact ⟨[], blanks, .nil blank, rfl, Nat.le_refl _, rfl⟩
  | cons slot slots ih =>
    rw [List.map_cons, readElements] at h
    split at h
    · cases h
    · next finish =>
      cases h
      obtain ⟨blanks, blank, rfl⟩ := exists_blank_of_skipBlank (nextElement_finish_iff.mp finish)
      refine ⟨[], blanks, .nil blank, rfl, Nat.zero_le _, ?_⟩
      rw [List.zip_nil_right, fillAll?_nil]
    · next entry =>
      obtain ⟨lead, leads, rfl⟩ := nextElement_entry entry
      split at h
      · cases h
      · next filled =>
        obtain ⟨b, read, rfl⟩ := ReadSlot.field_read_ok_iff.mp filled
        obtain ⟨blanks, value, v, blank, written, rfl, means⟩ := slot.reads.sound read
        obtain ⟨elements, items, more, rfl, short, fills⟩ :=
          ih (layout.sublist (List.sublist_cons_self _ _)) h
        refine ⟨v :: elements, _, .cons (leads.append blank) written more, by simp,
          Nat.succ_le_succ short, ?_⟩
        rw [List.map_cons, fillAll?_zip_cons layout, means]
        exact fills

theorem readElements_complete {first : Bool} {slots : List (ReadSlot ρ)} {r r' : ρ}
    {elements : List Value} {items rest : List Char} (layout : Layout (slots.map ReadSlot.toSlot))
    (written : Items Written first elements items) (short : elements.length ≤ slots.length)
    (fills : fillAll? (slots.map ReadSlot.toSlot)
      (((slots.map ReadSlot.toSlot).map Slot.key).zip elements) r = some r') :
    readElements first (slots.map ReadSlot.field) r (items ++ ']' :: rest) = .ok (r', rest) := by
  induction slots generalizing first r elements items with
  | nil =>
    cases fills
    obtain rfl := List.eq_nil_of_length_eq_zero (Nat.le_zero.mp short)
    cases written with
    | nil blank =>
      exact map_ok_iff.mpr ⟨rest, readClosing_ok_iff.mpr (skipBlank_append blank rfl), rfl⟩
  | cons slot slots ih =>
    rw [List.map_cons, readElements]
    cases written with
    | nil blank =>
      rw [List.zip_nil_right, fillAll?_nil] at fills
      cases fills
      rw [nextElement_finish_iff.mpr (skipBlank_append blank rfl)]
    | @cons _ v elements lead value items leads written more =>
      rw [List.map_cons, fillAll?_zip_cons layout] at fills
      obtain ⟨b, means, fills⟩ := Option.bind_eq_some_iff.mp fills
      -- a number must not run on into what follows it
      have stops : Stops (items ++ ']' :: rest) := more.stops (stops_cons (by decide))
      have read := slot.reads.complete Blank.nil written means stops
      obtain ⟨c, value, rfl, mark, opens⟩ := written.exists_cons
      have entry : nextElement first (lead ++ c :: (value ++ (items ++ ']' :: rest))) = _ :=
        nextElement_lead leads mark opens
      simp only [List.append_assoc, List.cons_append, List.nil_append] at read ⊢
      rw [entry]
      simp only [ReadSlot.field_read_ok_iff.mpr ⟨b, read, rfl⟩]
      exact ih (layout.sublist (List.sublist_cons_self _ _)) more (Nat.le_of_succ_le_succ short)
        fills

theorem pick_eq_some {key : String} {fields others : List (RecordField ρ)} {field : RecordField ρ}
    {fewer : others.length < fields.length} (h : pick key fields = some (field, ⟨others, fewer⟩)) :
    ∃ before after, fields = before ++ field :: after ∧ others = before ++ after ∧
      field.key = key := by
  induction fields generalizing others with
  | nil => cases h
  | cons f fields ih =>
    rw [pick] at h
    split at h
    · next same =>
      cases h
      exact ⟨[], fields, rfl, rfl, same⟩
    · split at h
      · cases h
      · next found =>
        cases h
        obtain ⟨before, after, rfl, rfl, same⟩ := ih found
        exact ⟨f :: before, after, rfl, rfl, same⟩

theorem pick_append {key : String} {before after : List (RecordField ρ)} {field : RecordField ρ}
    (absent : key ∉ before.map RecordField.key) (same : field.key = key) :
    ∃ fewer, pick key (before ++ field :: after) = some (field, ⟨before ++ after, fewer⟩) := by
  induction before with
  | nil => exact ⟨by simp, by simp [pick, same]⟩
  | cons f before ih =>
    simp only [List.map_cons, List.mem_cons, not_or] at absent
    obtain ⟨fewer, found⟩ := ih absent.2
    refine ⟨Nat.succ_lt_succ fewer, ?_⟩
    simp only [List.cons_append, pick, if_neg (Ne.symm absent.1), found]

/-- A key is used up by the member that has it. -/
theorem keyed_cons_iff {before after : List String} {key : String} {v : Value}
    {members : List (String × Value)} (distinct : (before ++ key :: after).Nodup) :
    Keyed (before ++ key :: after) ((key, v) :: members) ↔ Keyed (before ++ after) members := by
  have absent : key ∉ before ++ after := (List.nodup_cons.mp (List.nodup_middle.mp distinct)).1
  constructor
  · rintro ⟨nodup, known⟩
    obtain ⟨fresh, nodup⟩ := List.nodup_cons.mp nodup
    refine ⟨nodup, fun k member => ?_⟩
    have other : k ≠ key := fun same => fresh (same ▸ member)
    simpa [other] using known k (List.mem_cons_of_mem _ member)
  · rintro ⟨nodup, known⟩
    have fresh : key ∉ members.map Prod.fst := fun member => absent (known key member)
    refine ⟨List.nodup_cons.mpr ⟨fresh, nodup⟩, fun k member => ?_⟩
    rcases List.mem_cons.mp member with rfl | member
    · simp
    · exact ((List.sublist_cons_self key after).append_left before).subset (known k member)

theorem readMembers_entry {first : Bool} {fields others : List (RecordField ρ)}
    {field : RecordField ρ} {fewer : others.length < fields.length} {r r' : ρ} {key : String}
    {cs cs₁ cs₂ cs₃ rest : List Char} (entry : nextMember first cs = .ok (.entry cs₁))
    (name : readString cs₁ = .ok (key, cs₂))
    (found : pick key fields = some (field, ⟨others, fewer⟩)) (colon : readColon cs₂ = .ok cs₃)
    (filled : field.read r cs₃ = .ok (r', rest)) :
    readMembers first fields r cs = readMembers false others r' rest := by
  rw [readMembers]
  simp only [entry, name, found, colon, filled]

theorem readMembers_sound {first : Bool} {slots : List (ReadSlot ρ)} {r r' : ρ}
    {cs rest : List Char} (layout : Layout (slots.map ReadSlot.toSlot))
    (h : readMembers first (slots.map ReadSlot.field) r cs = .ok (r', rest)) :
    ∃ members items, Items (Member Written) first members items ∧ cs = items ++ '\x7d' :: rest ∧
      Keyed ((slots.map ReadSlot.toSlot).map Slot.key) members ∧
      fillAll? (slots.map ReadSlot.toSlot) members r = some r' := by
  -- the slots go along with the fields that are left.
  generalize fields_eq : slots.map ReadSlot.field = fields at h
  fun_induction readMembers first fields r cs generalizing slots with
  | case1 => cases h
  | case2 first fields r cs after finish =>
    cases h
    obtain ⟨blanks, blank, rfl⟩ := exists_blank_of_skipBlank (nextMember_finish_iff.mp finish)
    exact ⟨[], blanks, .nil blank, rfl, by simp [Keyed], fillAll?_nil _ _⟩
  | case3 => cases h
  | case4 => cases h
  | case5 => cases h
  | case6 => cases h
  | case7 first fields r cs cs₁ entry key cs₂ name field others fewer found cs₃ colon r₁ cs₄ filled
      ih =>
    obtain ⟨lead, leads, rfl⟩ := nextMember_entry_iff.mp entry
    obtain ⟨literal, rfl, spells⟩ := readString_ok_iff.mp name
    obtain ⟨before, blank, rfl⟩ := exists_blank_of_skipBlank (readColon_ok_iff.mp colon)
    -- the field that was picked is that of a slot, and the slots around it are left
    obtain ⟨earlier, later, fields_split, rfl, same⟩ := pick_eq_some found
    obtain ⟨earlier, later, rfl, rfl, split⟩ :=
      List.map_eq_append_iff.mp (fields_eq.trans fields_split)
    obtain ⟨slot, later, rfl, rfl, rfl⟩ := List.map_eq_cons_iff.mp split
    obtain ⟨b, read, rfl⟩ := ReadSlot.field_read_ok_iff.mp filled
    obtain ⟨after, value, v, blank', written, rfl, means⟩ := slot.reads.sound read
    obtain rfl : slot.key = key := same
    simp only [List.map_append, List.map_cons] at layout ⊢
    have others : Layout ((earlier ++ later).map ReadSlot.toSlot) := by simpa using layout.erase
    obtain ⟨members, items, more, rfl, keyed, fills⟩ := ih others (by simp) h
    simp only [List.map_append] at keyed fills
    refine ⟨(slot.key, v) :: members, _, .cons leads (.mk spells blank blank' written) more,
      by simp, ?_, ?_⟩
    · exact (keyed_cons_iff (by simpa using layout.keys)).mpr keyed
    · rw [fillAll?_insert layout, means]
      exact fills

theorem readMembers_complete {first : Bool} {slots : List (ReadSlot ρ)} {r r' : ρ}
    {members : List (String × Value)} {items rest : List Char}
    (layout : Layout (slots.map ReadSlot.toSlot))
    (written : Items (Member Written) first members items)
    (keyed : Keyed ((slots.map ReadSlot.toSlot).map Slot.key) members)
    (fills : fillAll? (slots.map ReadSlot.toSlot) members r = some r') :
    readMembers first (slots.map ReadSlot.field) r (items ++ '\x7d' :: rest) = .ok (r', rest) := by
  induction written generalizing slots r with
  | nil blank =>
    rw [fillAll?_nil] at fills
    cases fills
    rw [readMembers, nextMember_finish_iff.mpr (skipBlank_append blank rfl)]
  | @cons first member members lead item items leads written more ih =>
    obtain @⟨key, v, literal, before, after, value, spells, blank, blank', written⟩ := written
    have known : key ∈ slots.map (·.key) := by simpa [Function.comp_def] using keyed.2 key
    obtain ⟨slot, member, rfl⟩ := List.mem_map.mp known
    obtain ⟨earlier, later, rfl⟩ := List.append_of_mem member
    simp only [List.map_append, List.map_cons] at layout keyed fills ⊢
    have others : Layout ((earlier ++ later).map ReadSlot.toSlot) := by simpa using layout.erase
    have distinct : ((earlier.map ReadSlot.toSlot).map Slot.key ++
        slot.key :: (later.map ReadSlot.toSlot).map Slot.key).Nodup := by
      simpa using layout.keys
    rw [fillAll?_insert layout] at fills
    obtain ⟨b, means, fills⟩ := Option.bind_eq_some_iff.mp fills
    have absent : slot.key ∉ (earlier.map ReadSlot.field).map RecordField.key := by
      have := (List.nodup_cons.mp (List.nodup_middle.mp distinct)).1
      simp only [List.mem_append, not_or] at this
      simpa [ReadSlot.field, Document.field] using this.1
    obtain ⟨fewer, found⟩ :=
      @pick_append ρ slot.key _ (later.map ReadSlot.field) slot.field absent rfl
    have stops : Stops (items ++ '\x7d' :: rest) := more.stops (stops_cons (by decide))
    have read : slot.field.read r _ = .ok (slot.put r b, _) := ReadSlot.field_read_ok_iff.mpr
      ⟨b, slot.reads.complete blank' written means stops, rfl⟩
    simp only [List.append_assoc, List.cons_append]
    rw [readMembers_entry (nextMember_entry_iff.mpr ⟨lead, leads, rfl⟩)
      (readString_ok_iff.mpr ⟨literal, rfl, spells⟩) found
      (readColon_ok_iff.mpr (skipBlank_append blank rfl)) read, ← List.map_append]
    refine ih others ?_ ?_
    · simpa using (keyed_cons_iff distinct).mp keyed
    · simpa using fills

/-- A record is read from exactly the values that stand for it. -/
theorem readRecord_reads {fields : List (RecordField ρ)} {slots : List (Slot ρ)}
    (serves : List.Forall₂ Serves fields slots) (layout : Layout slots) (r : ρ) :
    Reads (readRecord fields r) (Value.record? slots r) where
  sound {cs rest r'} h := by
    obtain ⟨slots, rfl, rfl⟩ := exists_readSlots serves
    unfold readRecord at h
    split at h
    · next found =>
      obtain ⟨blanks, blank, rfl⟩ := exists_blank_of_skipBlank found
      obtain ⟨elements, items, written, rfl, short, fills⟩ := readElements_sound layout h
      refine ⟨blanks, _, .array elements, blank, .array written, by simp, ?_⟩
      exact Option.bind_eq_some_iff.mpr
        ⟨_, Value.entries?_array.mpr ⟨by simpa using short, rfl⟩, fills⟩
    · next found =>
      obtain ⟨blanks, blank, rfl⟩ := exists_blank_of_skipBlank found
      obtain ⟨members, items, written, rfl, keyed, fills⟩ := readMembers_sound layout h
      refine ⟨blanks, _, .object members, blank, .object written, by simp, ?_⟩
      exact Option.bind_eq_some_iff.mpr ⟨_, Value.entries?_object.mpr ⟨keyed, rfl⟩, fills⟩
    · cases h
  complete {blanks value rest v r'} blank written means _ := by
    obtain ⟨slots, rfl, rfl⟩ := exists_readSlots serves
    obtain ⟨entries, known, fills⟩ := Option.bind_eq_some_iff.mp means
    cases written with
    | array written =>
      obtain ⟨short, rfl⟩ := Value.entries?_array.mp known
      rw [readRecord, List.cons_append, skipBlank_append blank rfl, List.append_assoc]
      exact readElements_complete layout written (by simpa using short) fills
    | object written =>
      obtain ⟨keyed, rfl⟩ := Value.entries?_object.mp known
      rw [readRecord, List.cons_append, skipBlank_append blank rfl, List.append_assoc]
      exact readMembers_complete layout written keyed fills
    | _ => cases known

end TableLexer.Json
