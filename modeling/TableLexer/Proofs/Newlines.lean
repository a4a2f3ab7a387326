import TableLexer.LineEndings

/-!
# What normalizing does to a text

A normalized text has no CR, and a text without CR is its own normalized form. A text
may be normalized piece by piece: all that a later piece needs to know of the earlier
ones is whether they end with a CR. The result is what two passes over the text give,
the first for the pairs CR LF and the second for the CRs that are left.
-/

namespace TableLexer

/-- Whether a CR stands right before what follows `text`, given whether one stands
right before `text`. -/
def crBefore (b : Bool) (text : List Char) : Bool :=
  match text.getLast? with
  | none => b
  | some c => c = '\r'

theorem crBefore_cons (b : Bool) (c : Char) (text : List Char) :
    crBefore b (c :: text) = crBefore (c = '\r') text := by
  cases text with
  | nil => rfl
  | cons d text => simp [crBefore, List.getLast?_cons]

theorem normalizeFrom_append (b : Bool) (u v : List Char) :
    normalizeFrom b (u ++ v) = normalizeFrom b u ++ normalizeFrom (crBefore b u) v := by
  induction u generalizing b with
  | nil => simp [crBefore]
  | cons c u ih =>
    rw [List.cons_append, crBefore_cons, normalizeFrom, normalizeFrom]
    by_cases hcr : c = '\r'
    · simp [hcr, ih]
    · by_cases hlf : c = '\n' ∧ b = true
      · simp [hlf, ih]
      · simp [hcr, hlf, ih]

theorem cr_notMem_normalizeFrom (b : Bool) (text : List Char) : '\r' ∉ normalizeFrom b text := by
  induction text generalizing b with
  | nil => simp
  | cons c text ih =>
    rw [normalizeFrom]
    split
    · simp [ih]
    · next hcr =>
      split
      · exact ih false
      · simp [ih, Ne.symm hcr]

theorem normalize_of_cr_notMem {text : List Char} (h : '\r' ∉ text) : normalize text = text := by
  induction text with
  | nil => rfl
  | cons c text ih =>
    simp only [List.mem_cons, not_or] at h
    have hcr : c ≠ '\r' := Ne.symm h.1
    simp only [normalize, normalizeFrom, hcr, Bool.false_eq_true, and_false, if_false]
    exact congrArg _ (ih h.2)

theorem normalize_eq_self_iff {text : List Char} : normalize text = text ↔ '\r' ∉ text := by
  constructor
  · intro fixed
    rw [← fixed]
    exact cr_notMem_normalizeFrom false text
  · exact normalize_of_cr_notMem

/-- The text without its first character if that is an LF. -/
def dropLf (text : List Char) : List Char := if text.head? = some '\n' then text.tail else text

/-- After a CR, an LF that comes first is passed over. -/
theorem normalizeFrom_true (text : List Char) :
    normalizeFrom true text = normalize (dropLf text) := by
  cases text with
  | nil => rfl
  | cons c text =>
    by_cases hlf : c = '\n'
    · simp [normalize, normalizeFrom, dropLf, hlf]
    · simp [normalize, normalizeFrom, dropLf, hlf]

/-- A pair CR LF that is cut in two counts for the first piece. -/
theorem normalize_append (u v : List Char) :
    normalize (u ++ v) =
      normalize u ++ normalize (if u.getLast? = some '\r' then dropLf v else v) := by
  rw [normalize, normalizeFrom_append]
  congr 1
  split
  · next hcr => rw [← normalizeFrom_true, crBefore, hcr]; rfl
  · next hcr =>
    have after : crBefore false u = false := by
      unfold crBefore
      split
      · rfl
      · next c hc => simpa [hc] using hcr
    rw [after, normalize]

theorem normalize_append_of_apart {u v : List Char}
    (apart : ¬ (u.getLast? = some '\r' ∧ v.head? = some '\n')) :
    normalize (u ++ v) = normalize u ++ normalize v := by
  rw [normalize_append]
  split
  · next ends =>
    have lone : v.head? ≠ some '\n' := fun begins => apart ⟨ends, begins⟩
    rw [dropLf, if_neg lone]
  · rfl

/-! ## Two passes -/

/-- Every pair CR LF replaced by an LF. -/
def foldPairs : List Char → List Char
  | '\r' :: '\n' :: cs => '\n' :: foldPairs cs
  | c :: cs => c :: foldPairs cs
  | [] => []

/-- Every CR replaced by an LF. -/
def crToLf (text : List Char) : List Char := text.map fun c => if c = '\r' then '\n' else c

/-- One pass with a memory of one bit does the work of two. -/
theorem normalize_eq_two_passes (text : List Char) : normalize text = crToLf (foldPairs text) := by
  fun_induction foldPairs text with
  | case1 cs ih =>
    rw [normalize, normalizeFrom_cr, normalizeFrom_true]
    exact congrArg ('\n' :: ·) ih
  | case2 c cs single ih =>
    by_cases hcr : c = '\r'
    · -- the CR stands alone, so nothing after it is passed over
      have alone : dropLf cs = cs := by
        cases cs with
        | nil => rfl
        | cons d cs =>
          have other : d ≠ '\n' := fun h => single cs hcr (h ▸ rfl)
          simp [dropLf, other]
      subst hcr
      rw [normalize, normalizeFrom_cr, normalizeFrom_true, alone]
      exact congrArg ('\n' :: ·) ih
    · simpa [normalize, normalizeFrom, crToLf, hcr] using ih
  | case3 => rfl

end TableLexer
