import TableLexer.Predicate

/-!
# The text of a predicate tells the tree

A text that begins with a quoted character tells the character and where it ends,
whatever comes after the closing quote. For a whole predicate this fails at one point
only: the text of a single character is the beginning of that of a range. So a tree can
be told from what begins with its text, provided that no dot comes next, and within a
larger tree a blank or a parenthesis comes next. Trees with the same text differ at most
in the tests at their leaves, for which the text has one word only.
-/

namespace TableLexer

namespace Text

/-! ## Numbers in hexadecimal -/

theorem digitChar_inj {m n : Nat} (hm : m < 16) (hn : n < 16) (h : m.digitChar = n.digitChar) :
    m = n := by
  have digits : ∀ a < 16, ∀ b < 16, Nat.digitChar a = Nat.digitChar b → a = b := by decide
  exact digits m hm n hn h

theorem digitChar_ne_brace {n : Nat} (hn : n < 16) : n.digitChar ≠ '\x7d' := by
  have digits : ∀ a < 16, Nat.digitChar a ≠ '\x7d' := by decide
  exact digits n hn

/-- A number can be read off its digits. -/
theorem toDigits_inj {m n : Nat} (h : Nat.toDigits 16 m = Nat.toDigits 16 n) : m = n := by
  induction m using Nat.strongRecOn generalizing n with
  | _ m ih =>
    rw [Nat.toDigits_eq_if (by decide), Nat.toDigits_eq_if (n := n) (by decide)] at h
    by_cases hm : m < 16
    · by_cases hn : n < 16
      · rw [if_pos hm, if_pos hn] at h
        exact digitChar_inj hm hn (List.singleton_inj.mp h)
      · rw [if_pos hm, if_neg hn] at h
        obtain ⟨none, -⟩ := List.append_inj' (show [] ++ [m.digitChar] = _ from h) rfl
        exact absurd none.symm Nat.toDigits_ne_nil
    · by_cases hn : n < 16
      · rw [if_neg hm, if_pos hn] at h
        obtain ⟨none, -⟩ := List.append_inj' (show _ = [] ++ [n.digitChar] from h) rfl
        exact absurd none Nat.toDigits_ne_nil
      · rw [if_neg hm, if_neg hn] at h
        obtain ⟨earlier, last⟩ := List.append_inj' h rfl
        have quotient := ih (m / 16) (by omega) earlier
        have remainder := digitChar_inj (Nat.mod_lt m (by decide)) (Nat.mod_lt n (by decide))
          (List.singleton_inj.mp last)
        omega

theorem brace_notMem_toDigits (n : Nat) : '\x7d' ∉ Nat.toDigits 16 n := by
  induction n using Nat.strongRecOn with
  | _ n ih =>
    rw [Nat.toDigits_eq_if (by decide)]
    by_cases hn : n < 16
    · simp [hn, (digitChar_ne_brace hn).symm]
    · have last := (digitChar_ne_brace (Nat.mod_lt n (by decide : 0 < 16))).symm
      simpa [hn, last] using ih (n / 16) (by omega)

/-- Texts before the first occurrence of a character are told apart. -/
theorem append_cons_inj {c : Char} {before before' rest rest' : List Char} (hc : c ∉ before)
    (hc' : c ∉ before') (h : before ++ c :: rest = before' ++ c :: rest') :
    before = before' ∧ rest = rest' := by
  induction before generalizing before' with
  | nil =>
    cases before' with
    | nil => exact ⟨rfl, (List.cons.inj h).2⟩
    | cons d before' => exact absurd (by simp [(List.cons.inj h).1]) hc'
  | cons d before ih =>
    cases before' with
    | nil => exact absurd (by simp [(List.cons.inj h).1]) hc
    | cons d' before' =>
      obtain ⟨rfl, tails⟩ := List.cons.inj h
      obtain ⟨rfl, same⟩ := ih (List.not_mem_of_not_mem_cons hc)
        (List.not_mem_of_not_mem_cons hc') tails
      exact ⟨rfl, same⟩

theorem numbered_append_inj {c d : Char} {rest rest' : List Char}
    (h : numbered c ++ rest = numbered d ++ rest') : c = d ∧ rest = rest' := by
  simp only [numbered, List.cons_append, List.append_assoc, List.nil_append, List.cons.injEq,
    true_and] at h
  obtain ⟨digits, same⟩ :=
    append_cons_inj (brace_notMem_toDigits c.toNat) (brace_notMem_toDigits d.toNat) h
  exact ⟨Char.toNat_inj.mp (toDigits_inj digits), same⟩

/-! ## Characters between single quotes -/

/-- The escapes of two characters, each with what it stands for. -/
def shortEscapes : List (Char × Char) :=
  [('0', '\x00'), ('t', '\t'), ('n', '\n'), ('r', '\r'), ('\\', '\\'), ('\'', '\'')]

theorem shortEscapes_inj {e c d : Char} (hc : (e, c) ∈ shortEscapes) (hd : (e, d) ∈ shortEscapes) :
    c = d := by
  have unique : ∀ x ∈ shortEscapes, ∀ y ∈ shortEscapes, x.1 = y.1 → x.2 = y.2 := by decide
  exact unique _ hc _ hd rfl

theorem u_notMem_shortEscapes (c : Char) : ('u', c) ∉ shortEscapes := by
  simp [shortEscapes]

/-- The three ways to write a character: it stands for itself, or a short escape or its
number stands for it. -/
theorem escape_shape (c : Char) :
    (escape '\'' c = [c] ∧ c ≠ '\\') ∨
    (∃ e, escape '\'' c = ['\\', e] ∧ (e, c) ∈ shortEscapes) ∨
    escape '\'' c = numbered c := by
  unfold escape
  by_cases nul : c = '\x00'
  · exact .inr (.inl ⟨'0', by rw [if_pos nul], by simp [nul, shortEscapes]⟩)
  rw [if_neg nul]
  by_cases tab : c = '\t'
  · exact .inr (.inl ⟨'t', by rw [if_pos tab], by simp [tab, shortEscapes]⟩)
  rw [if_neg tab]
  by_cases newline : c = '\n'
  · exact .inr (.inl ⟨'n', by rw [if_pos newline], by simp [newline, shortEscapes]⟩)
  rw [if_neg newline]
  by_cases ret : c = '\r'
  · exact .inr (.inl ⟨'r', by rw [if_pos ret], by simp [ret, shortEscapes]⟩)
  rw [if_neg ret]
  by_cases special : c = '\\' ∨ c = '\''
  · refine .inr (.inl ⟨c, by rw [if_pos special], ?_⟩)
    cases special with
    | inl backslash => simp [backslash, shortEscapes]
    | inr quote => simp [quote, shortEscapes]
  rw [if_neg special]
  by_cases unprintable : isUnprintable c
  · exact .inr (.inr (by rw [if_pos unprintable]))
  · rw [if_neg unprintable]
    exact .inl ⟨rfl, fun backslash => special (.inl backslash)⟩

/-- What begins with the escape of a character tells the character. -/
theorem escape_append_inj {c d : Char} {rest rest' : List Char}
    (h : escape '\'' c ++ rest = escape '\'' d ++ rest') : c = d ∧ rest = rest' := by
  obtain ⟨hc, plain⟩ | ⟨e, hc, short⟩ | hc := escape_shape c <;>
    obtain ⟨hd, plain'⟩ | ⟨e', hd, short'⟩ | hd := escape_shape d <;>
    rw [hc, hd] at h
  · simpa using h
  · exact absurd (List.cons.inj h).1 plain
  · exact absurd (List.cons.inj h).1 plain
  · exact absurd (List.cons.inj h).1.symm plain'
  · simp only [List.cons_append, List.nil_append, List.cons.injEq, true_and] at h
    obtain ⟨rfl, same⟩ := h
    exact ⟨shortEscapes_inj short short', same⟩
  · simp only [numbered, List.cons_append, List.cons.injEq, true_and] at h
    exact absurd (h.1 ▸ short) (u_notMem_shortEscapes c)
  · exact absurd (List.cons.inj h).1.symm plain'
  · simp only [numbered, List.cons_append, List.cons.injEq, true_and] at h
    exact absurd (h.1 ▸ short') (u_notMem_shortEscapes d)
  · exact numbered_append_inj h

theorem toList_quoteChar (c : Char) :
    (quoteChar c).toList = '\'' :: (escape '\'' c ++ ['\'']) := by
  simp [quoteChar]

theorem quoteChar_append_inj {c d : Char} {rest rest' : List Char}
    (h : (quoteChar c).toList ++ rest = (quoteChar d).toList ++ rest') : c = d ∧ rest = rest' := by
  simp only [toList_quoteChar, List.cons_append, List.append_assoc, List.nil_append,
    List.cons.injEq, true_and] at h
  obtain ⟨rfl, same⟩ := escape_append_inj h
  exact ⟨rfl, (List.cons.inj same).2⟩

end Text

/-! ## Trees -/

namespace Predicate

/-- The same tree, up to the tests at its leaves. -/
inductive Alike : Predicate → Predicate → Prop where
  | any : Alike .any .any
  | only (c : Char) : Alike (.only c) (.only c)
  | range (first last : Char) : Alike (.range first last) (.range first last)
  | test (t t' : CharTest) : Alike (.test t) (.test t')
  | and {p p' q q' : Predicate} (left : Alike p p') (right : Alike q q') :
    Alike (.and p q) (.and p' q')
  | or {p p' q q' : Predicate} (left : Alike p p') (right : Alike q q') :
    Alike (.or p q) (.or p' q')
  | not {p p' : Predicate} (inner : Alike p p') : Alike (.not p) (.not p')

/-- No test from outside is a leaf of the tree. -/
def TestFree : Predicate → Prop
  | .any | .only _ | .range _ _ => True
  | .test _ => False
  | .and p q | .or p q => p.TestFree ∧ q.TestFree
  | .not p => p.TestFree

theorem Alike.text_eq {p q : Predicate} (alike : p.Alike q) : p.text = q.text := by
  induction alike with
  | any | only | range | test => rfl
  | and left right ihl ihr | or left right ihl ihr => simp only [text, ihl, ihr]
  | not inner ih => simp only [text, ih]

/-- Without tests there is nothing in which the trees could differ. -/
theorem Alike.eq_of_testFree {p q : Predicate} (alike : p.Alike q) (free : p.TestFree) :
    p = q := by
  induction alike with
  | any | only | range => rfl
  | test => exact free.elim
  | and left right ihl ihr | or left right ihl ihr => rw [ihl free.1, ihr free.2]
  | not inner ih => rw [ih free]

/-- What begins with the text of a predicate tells the tree and where its text ends,
unless a dot comes next. -/
theorem text_append_inj {p q : Predicate} {rest rest' : List Char}
    (dotless : rest.head? ≠ some '.') (dotless' : rest'.head? ≠ some '.')
    (h : p.text.toList ++ rest = q.text.toList ++ rest') : p.Alike q ∧ rest = rest' := by
  induction p generalizing q rest rest' with
  | any =>
    cases q with
    | any => exact ⟨.any, by simpa [text] using h⟩
    | _ => simp [text, Text.toList_quoteChar] at h
  | only c =>
    cases q with
    | only d =>
      obtain ⟨rfl, same⟩ := Text.quoteChar_append_inj h
      exact ⟨.only c, same⟩
    | range first last =>
      -- where the single character ends, the range goes on with a dot
      simp only [text, String.toList_append, List.append_assoc] at h
      obtain ⟨-, same⟩ := Text.quoteChar_append_inj h
      exact absurd (by simp [same]) dotless
    | _ => simp [text, Text.toList_quoteChar] at h
  | range first last =>
    cases q with
    | only d =>
      simp only [text, String.toList_append, List.append_assoc] at h
      obtain ⟨-, same⟩ := Text.quoteChar_append_inj h
      exact absurd (by simp [← same]) dotless'
    | range first' last' =>
      simp only [text, String.toList_append, List.append_assoc] at h
      obtain ⟨rfl, same⟩ := Text.quoteChar_append_inj h
      obtain ⟨rfl, same'⟩ := Text.quoteChar_append_inj (List.append_cancel_left same)
      exact ⟨.range first last, same'⟩
    | _ => simp [text, Text.toList_quoteChar] at h
  | test t =>
    cases q with
    | test t' => exact ⟨.test t t', by simpa [text] using h⟩
    | _ => simp [text, Text.toList_quoteChar] at h
  | and p₁ p₂ ih₁ ih₂ =>
    cases q with
    | and q₁ q₂ =>
      simp only [text, String.toList_append, List.append_assoc] at h
      obtain ⟨left, same⟩ := ih₁ (by simp) (by simp) (List.append_cancel_left h)
      obtain ⟨right, same⟩ := ih₂ (by simp) (by simp) (List.append_cancel_left same)
      exact ⟨.and left right, List.append_cancel_left same⟩
    | or q₁ q₂ =>
      -- the first operands have the same text, so the operators would have to
      simp only [text, String.toList_append, List.append_assoc] at h
      obtain ⟨-, same⟩ := ih₁ (by simp) (by simp) (List.append_cancel_left h)
      simp at same
    | _ => simp [text, Text.toList_quoteChar] at h
  | or p₁ p₂ ih₁ ih₂ =>
    cases q with
    | or q₁ q₂ =>
      simp only [text, String.toList_append, List.append_assoc] at h
      obtain ⟨left, same⟩ := ih₁ (by simp) (by simp) (List.append_cancel_left h)
      obtain ⟨right, same⟩ := ih₂ (by simp) (by simp) (List.append_cancel_left same)
      exact ⟨.or left right, List.append_cancel_left same⟩
    | and q₁ q₂ =>
      simp only [text, String.toList_append, List.append_assoc] at h
      obtain ⟨-, same⟩ := ih₁ (by simp) (by simp) (List.append_cancel_left h)
      simp at same
    | _ => simp [text, Text.toList_quoteChar] at h
  | not p ih =>
    cases q with
    | not q =>
      simp only [text, String.toList_append, List.append_assoc] at h
      obtain ⟨inner, same⟩ := ih dotless dotless' (List.append_cancel_left h)
      exact ⟨.not inner, same⟩
    | _ => simp [text, Text.toList_quoteChar] at h

theorem text_eq_iff {p q : Predicate} : p.text = q.text ↔ p.Alike q := by
  constructor
  · intro same
    have whole : p.text.toList ++ [] = q.text.toList ++ [] := by rw [same]
    exact (text_append_inj (by simp) (by simp) whole).1
  · exact Alike.text_eq

@[simp] theorem describe_eq_text (p : Predicate) : describe p = p.text := by
  rw [describe, outline, instDescribed, Outline.inline]

/-- Two predicates have the same text exactly if they are the same tree up to the tests
at the leaves. Without tests they accept the same characters. -/
theorem text_tells_tree (p q : Predicate) :
    (describe p = describe q ↔ p.Alike q) ∧
    (describe p = describe q → p.TestFree → q.TestFree → ∀ c, p.accepts c = q.accepts c) := by
  simp only [describe_eq_text, text_eq_iff, true_and]
  intro alike free _ c
  rw [alike.eq_of_testFree free]

theorem text_tells_tree_punctuation :
    (describe (Predicate.or (.not (.only '\'')) (.range '.' '\x7f')) =
        "(!'\\'' || '.'..='\\u\x7b7f\x7d')" ∧
      ¬ (Predicate.or (.not (.only '\'')) (.range '.' '\x7f')).Alike
        (.not (.or (.only '\'') (.range '.' '\x7f')))) ∧
    (Predicate.and (.only '(') .any).TestFree ∧
    ∀ c, (Predicate.and (.only '(') .any).accepts c =
      (Predicate.and (.only (Char.ofNat 40)) .any).accepts c := by
  have same : describe (Predicate.and (.only '(') .any) =
      describe (Predicate.and (.only (Char.ofNat 40)) .any) := rfl
  refine ⟨⟨by decide +kernel, ?_⟩, ⟨trivial, trivial⟩, ?_⟩
  · rw [← (text_tells_tree _ _).1]
    decide +kernel
  · exact (text_tells_tree _ _).2 same ⟨trivial, trivial⟩ ⟨trivial, trivial⟩

end Predicate

end TableLexer
