import Mathlib.Algebra.Group.Nat.Defs
import Mathlib.Tactic.Ring
import PropertyGraph.Calendar.Date

/-!
# Integers and dates read back

The text of an integer is read as that integer, and the text of a date as that date, whatever its
year: a year of four digits stands without a sign, and one with more digits has a sign in front,
after which any number of digits is read.

    ofDigits_append        digits one behind the other
    ofDigits_dropZeros     zeros at the end of a fraction
    readInt?_toString      the text of an integer is read as that integer
    readDigits?_append     digits are read up to the first character that is none
    readYear?_append       the text of a year is read as that year
    readStored?_text       the text of a date is read as that date
-/

namespace PropertyGraph

namespace Number

/-! ## Digits of a number -/

/-- Zeros in front do not change a number. -/
theorem ofDigits_zeros_append (k : Nat) (cs : List Char) :
    ofDigits (List.replicate k '0' ++ cs) = ofDigits cs := by
  induction k with
  | zero => rfl
  | succ k ih => exact ih

/-- The digits of a number stand for it. -/
theorem ofDigits_toDigits (n : Nat) : ofDigits (Nat.toDigits 10 n) = n :=
  Nat.ofDigitChars_ten_toDigits

theorem ofDigits_append (cs ds : List Char) :
    ofDigits (cs ++ ds) = ofDigits cs * 10 ^ ds.length + ofDigits ds := by
  have hfold : ∀ n : Nat, ds.foldl (fun n c => 10 * n + (c.toNat - 48)) n =
      n * 10 ^ ds.length + ofDigits ds := by
    unfold ofDigits
    induction ds with
    | nil => intro n; simp
    | cons d ds ih =>
      intro n
      rw [List.foldl_cons, ih, List.foldl_cons, ih (10 * 0 + _), List.length_cons, Nat.pow_succ]
      ring
  exact (List.foldl_append ..).trans (hfold _)

theorem ofDigits_replicate_zero (k : Nat) : ofDigits (List.replicate k '0') = 0 := by
  have h := ofDigits_zeros_append k []
  rwa [List.append_nil] at h

/-- A fraction without the zeros at its end. -/
def dropZeros (cs : List Char) : List Char := (cs.reverse.dropWhile (· == '0')).reverse

/-- Zeros at the end are dropped from a fraction without changing it. -/
theorem ofDigits_dropZeros (cs : List Char) : ∃ k,
    cs.length = (dropZeros cs).length + k ∧ ofDigits cs = ofDigits (dropZeros cs) * 10 ^ k := by
  have hsplit := List.takeWhile_append_dropWhile (p := (· == '0')) (l := cs.reverse)
  have hzeros : cs.reverse.takeWhile (· == '0') =
      List.replicate (cs.reverse.takeWhile (· == '0')).length '0' :=
    List.eq_replicate_of_mem fun c hc => beq_iff_eq.1 (List.all_eq_true.1 List.all_takeWhile c hc)
  generalize (cs.reverse.takeWhile (· == '0')).length = k at hzeros
  have hcs : cs = dropZeros cs ++ List.replicate k '0' := by
    have := congrArg List.reverse hsplit
    rw [List.reverse_append, List.reverse_reverse, hzeros, List.reverse_replicate] at this
    exact this.symm
  refine ⟨k, ?_, ?_⟩
  · have := congrArg List.length hcs
    rwa [List.length_append, List.length_replicate] at this
  · have := congrArg ofDigits hcs
    rwa [ofDigits_append, ofDigits_replicate_zero, List.length_replicate, Nat.add_zero] at this

theorem mem_of_mem_dropZeros {cs : List Char} {c : Char} (hc : c ∈ dropZeros cs) : c ∈ cs :=
  List.mem_reverse.1 ((List.dropWhile_suffix _).subset (List.mem_reverse.1 hc))

theorem length_toDigits_le {n k : Nat} (hk : 0 < k) (h : n < 10 ^ k) :
    (Nat.toDigits 10 n).length ≤ k :=
  (Nat.length_toDigits_le_iff (by decide) hk).2 h

/-! ## Integers -/

/-- A sign is written in front of a negative number only. -/
def signChars (negative : Bool) : List Char := if negative then ['-'] else []

theorem mem_signChars {negative : Bool} {c : Char} (hc : c ∈ signChars negative) : c = '-' := by
  cases negative with
  | false => cases hc
  | true => exact List.mem_singleton.1 hc

theorem toList_toString_int (n : Int) :
    (toString n).toList = signChars (n < 0) ++ Nat.toDigits 10 n.natAbs := by
  cases n with
  | ofNat m =>
    show (toString m).toList = _
    rw [Nat.toString_eq_ofList_toDigits, String.toList_ofList]
    rfl
  | negSucc m =>
    show ("-" ++ toString (m + 1)).toList = _
    rw [Nat.toString_eq_ofList_toDigits, String.toList_append, String.toList_ofList,
      String.toList_ofList, decide_eq_true (Int.negSucc_lt_zero m)]
    rfl

theorem takeSign_append (negative : Bool) {cs : List Char} (hne : cs ≠ [])
    (hcs : ∀ c ∈ cs, c.isDigit = true) (rest : List Char) :
    takeSign (signChars negative ++ (cs ++ rest)) = (negative, cs ++ rest) := by
  cases negative with
  | true => rfl
  | false =>
    cases cs with
    | nil => exact absurd rfl hne
    | cons c cs =>
      have hc := hcs c List.mem_cons_self
      show takeSign (c :: (cs ++ rest)) = _
      unfold takeSign
      split
      · next heq => cases heq; cases hc
      · next heq => cases heq; cases hc
      · rfl

theorem isDigit_of_mem_toDigits {n : Nat} {c : Char} (h : c ∈ Nat.toDigits 10 n) :
    c.isDigit = true :=
  Nat.isDigit_of_mem_toDigits (by decide) (by decide) h

/-- The text of an integer is made of digits and a sign. -/
theorem mem_toString_int {n : Int} {c : Char} (hc : c ∈ (toString n).toList) :
    (c.isDigit || c == '-') = true := by
  rw [toList_toString_int, List.mem_append] at hc
  rcases hc with hc | hc
  · rw [mem_signChars hc]
    rfl
  · rw [isDigit_of_mem_toDigits hc]
    rfl

theorem readInt?_toString (n : Int) : readInt? (toString n).toList = some n := by
  have hne : Nat.toDigits 10 n.natAbs ≠ [] := Nat.toDigits_ne_nil
  have hsign := takeSign_append (n < 0) hne (fun c => isDigit_of_mem_toDigits) []
  rw [List.append_nil] at hsign
  unfold readInt?
  rw [toList_toString_int, hsign]
  dsimp only
  rw [if_pos, ofDigits_toDigits]
  · congr 1
    by_cases hn : n < 0
    · rw [decide_eq_true hn, if_pos rfl]
      omega
    · rw [decide_eq_false hn, if_neg Bool.false_ne_true]
      omega
  · have hall : (Nat.toDigits 10 n.natAbs).all Char.isDigit = true :=
      List.all_eq_true.2 fun c => isDigit_of_mem_toDigits
    rw [hall, Bool.and_true, Bool.not_eq_true', List.isEmpty_eq_false_iff]
    exact hne

theorem span_digits {cs : List Char} (hcs : ∀ c ∈ cs, c.isDigit = true) (rest : List Char)
    (hrest : ∀ c ∈ rest.head?, c.isDigit = false) :
    (cs ++ rest).takeWhile Char.isDigit = cs ∧ (cs ++ rest).dropWhile Char.isDigit = rest := by
  rw [List.takeWhile_append_of_pos hcs, List.dropWhile_append_of_pos hcs]
  cases rest with
  | nil => exact ⟨List.append_nil cs, rfl⟩
  | cons c rest =>
    have hc : ¬ c.isDigit = true := Bool.eq_false_iff.1 (hrest c rfl)
    rw [List.takeWhile_cons_of_neg hc, List.dropWhile_cons_of_neg hc]
    exact ⟨List.append_nil cs, rfl⟩

end Number

theorem Text.isBlank_eq_false_of_isDigit {c : Char} (h : c.isDigit = true) :
    Text.isBlank c = false := by
  simp only [Char.isDigit, Bool.and_eq_true, decide_eq_true_eq, UInt32.le_iff_toNat_le] at h
  have hrange : 48 ≤ c.toNat ∧ c.toNat ≤ 57 := h
  rw [← Bool.not_eq_true]
  simp only [isBlank, Bool.or_eq_true, Bool.and_eq_true, decide_eq_true_eq, beq_iff_eq]
  omega

namespace Date

/-! ## Digits -/

/-- The digits of a number with zeros in front up to a width. -/
def paddedDigits (width n : Nat) : List Char :=
  List.replicate (width - (Nat.toDigits 10 n).length) '0' ++ Nat.toDigits 10 n

theorem toList_padded (width n : Nat) : (padded width n).toList = paddedDigits width n := by
  unfold padded Number.zeros paddedDigits
  rw [Nat.toString_eq_ofList_toDigits]
  simp

theorem ofDigits_paddedDigits (width n : Nat) : Number.ofDigits (paddedDigits width n) = n := by
  rw [paddedDigits, Number.ofDigits_zeros_append, Number.ofDigits_toDigits]

theorem isDigit_of_mem_paddedDigits {width n : Nat} {c : Char} (h : c ∈ paddedDigits width n) :
    c.isDigit = true := by
  rcases List.mem_append.1 h with h | h
  · rw [List.eq_of_mem_replicate h]
    decide
  · exact Nat.isDigit_of_mem_toDigits (by decide) (by decide) h

theorem paddedDigits_ne_nil (width n : Nat) : paddedDigits width n ≠ [] := by
  simp [paddedDigits, Nat.toDigits_ne_nil]

/-- A number below ten to the width has exactly so many digits. -/
theorem length_paddedDigits {w n : Nat} (hw : 0 < w) (h : n < 10 ^ w) :
    (paddedDigits w n).length = w := by
  have := (Nat.length_toDigits_le_iff (b := 10) (n := n) (by decide) hw).2 h
  rw [paddedDigits, List.length_append, List.length_replicate]
  omega

/-- Digits are read up to the number allowed, or to a character that is none. -/
theorem readDigits?_append {most : Nat} {digits rest : List Char} (hne : digits ≠ [])
    (hdigits : ∀ c ∈ digits, c.isDigit = true) (hmost : digits.length ≤ most)
    (hstop : digits.length = most ∨ ∀ c ∈ rest.head?, c.isDigit = false) :
    readDigits? most (digits ++ rest) = some (Number.ofDigits digits, rest) := by
  have htaken : ((digits ++ rest).take most).takeWhile Char.isDigit = digits := by
    rw [List.take_append, List.take_of_length_le hmost,
      List.takeWhile_append_of_pos hdigits]
    refine List.append_right_eq_self.2 ?_
    rcases hstop with hlen | hhead
    · rw [hlen, Nat.sub_self]
      rfl
    · cases rest with
      | nil => simp
      | cons c rest =>
        cases most - digits.length with
        | zero => rfl
        | succ k =>
          rw [List.take_succ_cons]
          exact List.takeWhile_cons_of_neg (by simp [hhead c rfl])
  unfold readDigits?
  rw [htaken]
  simp [hne]

/-- No blank stands before digits. -/
theorem dropWhile_isBlank_paddedDigits (width n : Nat) (rest : List Char) :
    (paddedDigits width n ++ rest).dropWhile Text.isBlank = paddedDigits width n ++ rest := by
  cases hds : paddedDigits width n with
  | nil => exact absurd hds (paddedDigits_ne_nil width n)
  | cons c ds =>
    have hc : c.isDigit = true := isDigit_of_mem_paddedDigits (hds ▸ List.mem_cons_self)
    rw [List.cons_append, List.dropWhile_cons_of_neg]
    simp [Text.isBlank_eq_false_of_isDigit hc]

/-! ## Years -/

/-- The characters of a year's text. -/
theorem toList_yearText (year : Int) : (yearText year).toList =
    if 0 ≤ year ∧ year ≤ 9999 then paddedDigits 4 year.toNat
    else (if year < 0 then '-' else '+') :: paddedDigits 4 year.natAbs := by
  unfold yearText
  split
  · exact toList_padded 4 _
  · rw [String.toList_append, toList_padded]
    split <;> rfl

/-- A year is read up to a character that is no digit, and no blank stands before it. -/
theorem readYear?_append (year : Int) {rest : List Char}
    (hstop : ∀ c ∈ rest.head?, c.isDigit = false) :
    readYear? (((yearText year).toList ++ rest).dropWhile Text.isBlank) = some (year, rest) := by
  rw [toList_yearText]
  split
  · next hrange =>
    have hlen := length_paddedDigits (w := 4) (n := year.toNat) (by decide) (by omega)
    have hread : readDigits? 4 (paddedDigits 4 year.toNat ++ rest) = _ :=
      readDigits?_append (paddedDigits_ne_nil 4 year.toNat)
        (fun c => isDigit_of_mem_paddedDigits) (Nat.le_of_eq hlen) (Or.inl hlen)
    rw [dropWhile_isBlank_paddedDigits]
    cases hds : paddedDigits 4 year.toNat with
    | nil => exact absurd hds (paddedDigits_ne_nil 4 _)
    | cons c ds =>
      have hc : c.isDigit = true := isDigit_of_mem_paddedDigits (hds ▸ List.mem_cons_self)
      rw [hds] at hread
      unfold readYear?
      split
      · next heq =>
        cases heq
        cases hc
      · next heq =>
        cases heq
        cases hc
      · rw [hread, ← hds, ofDigits_paddedDigits]
        simp only [Option.map_some, Option.some.injEq, Prod.mk.injEq, and_true]
        omega
  · next hrange =>
    have hread := readDigits?_append (paddedDigits_ne_nil 4 year.natAbs)
      (fun c => isDigit_of_mem_paddedDigits)
      (show _ ≤ (paddedDigits 4 year.natAbs ++ rest).length by simp) (Or.inr hstop)
    rw [ofDigits_paddedDigits] at hread
    split
    · next hneg =>
      rw [List.cons_append, List.dropWhile_cons_of_neg (by decide)]
      show (readDigits? _ (paddedDigits 4 year.natAbs ++ rest)).map _ = _
      rw [hread, Option.map_some]
      simp only [show -(year.natAbs : Int) = year by omega]
    · next hpos =>
      rw [List.cons_append, List.dropWhile_cons_of_neg (by decide)]
      show (readDigits? _ (paddedDigits 4 year.natAbs ++ rest)).map _ = _
      rw [hread, Option.map_some]
      simp only [show (year.natAbs : Int) = year by omega]

/-! ## Dates -/

theorem daysInMonth_le (year : Int) (month : Nat) : daysInMonth year month ≤ 31 := by
  unfold daysInMonth
  split <;> try split
  all_goals omega

theorem month_le_of_daysInMonth_pos (year : Int) (month : Nat) (h : 0 < daysInMonth year month) :
    month ≤ 12 := by
  unfold daysInMonth at h
  split at h <;> omega

/-- Numbers of the month and of the day have two digits. -/
theorem lt_hundred (d : Date) : d.month < 100 ∧ d.day < 100 := by
  have h := d.valid
  simp only [isCivil, Bool.and_eq_true, decide_eq_true_eq] at h
  have hdays := daysInMonth_le d.year d.month
  have hmonth := month_le_of_daysInMonth_pos d.year d.month (by omega)
  omega

/-- Two digits after a dash are read as they stand. -/
theorem readDigits?_two {n : Nat} (h : n < 100) (rest : List Char) :
    readDigits? 2 ((paddedDigits 2 n ++ rest).dropWhile Text.isBlank) = some (n, rest) := by
  have hlen := length_paddedDigits (w := 2) (by decide) h
  rw [dropWhile_isBlank_paddedDigits, readDigits?_append (paddedDigits_ne_nil 2 n)
    (fun c => isDigit_of_mem_paddedDigits) (Nat.le_of_eq hlen) (Or.inl hlen), ofDigits_paddedDigits]

theorem readDash?_dash (rest : List Char) : readDash? true ('-' :: rest) = some rest := rfl

/-- The text of a date is read as that date. -/
theorem readStored?_text (d : Date) : readStored? d.text = some d := by
  obtain ⟨hmonth, hday⟩ := d.lt_hundred
  have htext : d.text.toList = (yearText d.year).toList ++
      '-' :: (paddedDigits 2 d.month ++ '-' :: (paddedDigits 2 d.day ++ [])) := by
    unfold text
    simp [toList_padded]
  unfold readStored? readChars?
  rw [htext, readYear?_append d.year (by simp)]
  simp only [Option.bind_eq_bind, Option.bind_some, readDash?_dash, readDigits?_two hmonth,
    readDigits?_two hday]
  simp [ofParts?, d.valid]

end Date

end PropertyGraph
