import Mathlib.Data.List.Induction
import Mathlib.Data.Nat.Digits.Defs
import NodeFlow.Fault
import NodeFlow.Text.Digit

/-!
# Numerals of whole numbers

A whole number is shown as a sign and plain digits.  Read again, such a text gives the number back,
unless it has more digits than are read.

Main results:

- Theorems `toList_toString` and `eq_of_toString_eq`: the characters of a shown number tell it.
- Theorem `Decimal.readInt_toString`: what comes of reading a shown number.
- Theorem `Fault.writableOnly_of_readWhole`: a number that has been read can be written.
- Theorem `Text.looksNumeric_toString`: a shown number looks like one.
-/

namespace NodeFlow

/-! ## Digits -/

section Digit

variable {c : Char} (h : c.isDigit = true)

include h

private theorem toNat_of_isDigit : 48 ≤ c.toNat ∧ c.toNat ≤ 57 := by
  simp only [Char.isDigit, Bool.and_eq_true, decide_eq_true_eq] at h
  exact ⟨h.1, h.2⟩

private theorem Text.digitValue?_of_isDigit : Text.digitValue? c = some (c.toNat - '0'.toNat) := by
  obtain ⟨hlow, hhigh⟩ := toNat_of_isDigit h
  have hhere : (decide (48 ≤ c.toNat) && decide (c.toNat < 48 + 10)) = true := by
    simp only [Bool.and_eq_true, decide_eq_true_eq]
    omega
  simp only [Text.digitValue?, Text.decimalZeros, List.find?_cons, hhere, Option.map_some]
  rfl

private theorem Text.isSpace_of_isDigit : Text.isSpace c = false := by
  obtain ⟨hlow, hhigh⟩ := toNat_of_isDigit h
  have hblank : Text.isBlank c = false := by
    simp only [Text.isBlank, Text.inRanges, Text.blankRanges, List.any_cons, List.any_nil,
      Bool.or_false, Bool.or_eq_false_iff, Bool.and_eq_false_iff, decide_eq_false_iff_not]
    omega
  rw [Text.isSpace, hblank, Bool.false_and]

private theorem ne_hyphen_of_isDigit : c ≠ '-' := by
  rintro rfl
  exact absurd h (by decide)

end Digit

private theorem Text.trimBoth_eq_self {p : Char → Bool} {s : List Char} (h : ∀ c ∈ s, p c = false) :
    Text.trimBoth p s = s := by
  have hdrop : ∀ t : List Char, (∀ c ∈ t, p c = false) → t.dropWhile p = t := by
    intro t ht
    cases t with
    | nil => rfl
    | cons c t => simp [ht c List.mem_cons_self]
  rw [Text.trimBoth, hdrop s h, hdrop s.reverse (by simpa using h), List.reverse_reverse]

namespace Decimal

/-- A run of plain digits is read to its end. -/
theorem readDigits_of_isDigit {cs : List Char} (h : ∀ c ∈ cs, c.isDigit = true) (joined : Bool) :
    readDigits Text.digitValue? joined cs = (cs.map fun c => c.toNat - '0'.toNat, []) := by
  induction cs generalizing joined with
  | nil => rfl
  | cons c cs ih =>
    have hrest := ih (fun d hd => h d (List.mem_cons_of_mem c hd)) true
    simp only [readDigits, Text.digitValue?_of_isDigit (h c List.mem_cons_self), hrest,
      List.map_cons]

private theorem ofDigits_map (cs : List Char) :
    ofDigits (cs.map fun c => c.toNat - '0'.toNat) = Nat.ofDigitChars 10 cs 0 := by
  rw [ofDigits, List.foldl_map, Nat.ofDigitChars_eq_foldl]

end Decimal

/-! ## Shown numbers -/

private theorem isDigit_of_mem_toDigits {n : Nat} {c : Char} (h : c ∈ Nat.toDigits 10 n) :
    c.isDigit = true := Nat.isDigit_of_mem_toDigits (by omega) (by omega) h

/-- A shown number is a sign, if it is negative, and the digits of its absolute value. -/
theorem toList_toString (n : Int) :
    (toString n).toList =
      if n < 0 then '-' :: Nat.toDigits 10 n.natAbs else Nat.toDigits 10 n.natAbs := by
  rw [Int.toString_eq_repr, Int.repr_eq_if]
  by_cases hn : n < 0
  · have habs : (-n).toNat = n.natAbs := by omega
    rw [if_neg (by omega), if_pos hn, habs, Nat.repr_eq_ofList_toDigits, String.toList_append,
      String.toList_ofList]
    simp
  · have habs : n.toNat = n.natAbs := by omega
    rw [if_pos (by omega), if_neg hn, habs, Nat.repr_eq_ofList_toDigits, String.toList_ofList]

private theorem natAbs_eq_of_toDigits {n m : Int}
    (h : Nat.toDigits 10 n.natAbs = Nat.toDigits 10 m.natAbs) : n.natAbs = m.natAbs :=
  calc n.natAbs = Nat.ofDigitChars 10 (Nat.toDigits 10 n.natAbs) 0 :=
        Nat.ofDigitChars_ten_toDigits.symm
    _ = Nat.ofDigitChars 10 (Nat.toDigits 10 m.natAbs) 0 := by rw [h]
    _ = m.natAbs := Nat.ofDigitChars_ten_toDigits

/-- Different numbers are shown differently. -/
theorem eq_of_toString_eq {n m : Int} (h : toString n = toString m) : n = m := by
  have hlist := congrArg String.toList h
  rw [toList_toString, toList_toString] at hlist
  have hhyphen : ∀ k : Int, '-' ∉ Nat.toDigits 10 k.natAbs := fun k hmem =>
    ne_hyphen_of_isDigit (isDigit_of_mem_toDigits hmem) rfl
  by_cases hn : n < 0 <;> by_cases hm : m < 0
  · rw [if_pos hn, if_pos hm] at hlist
    have habs := natAbs_eq_of_toDigits (List.cons.inj hlist).2
    omega
  · rw [if_pos hn, if_neg hm] at hlist
    exact absurd (hlist ▸ List.mem_cons_self) (hhyphen m)
  · rw [if_neg hn, if_pos hm] at hlist
    exact absurd (hlist ▸ List.mem_cons_self) (hhyphen n)
  · rw [if_neg hn, if_neg hm] at hlist
    have habs := natAbs_eq_of_toDigits hlist
    omega

private theorem Decimal.takeSign_toString (n : Int) :
    takeSign (Text.trimBoth Text.isSpace (toString n).toList) =
      (decide (n < 0), Nat.toDigits 10 n.natAbs) := by
  have hdigits : ∀ c ∈ Nat.toDigits 10 n.natAbs, c.isDigit = true := fun c =>
    isDigit_of_mem_toDigits
  have hspace : ∀ c ∈ (toString n).toList, Text.isSpace c = false := by
    intro c hc
    rw [toList_toString] at hc
    split at hc
    · rcases List.mem_cons.1 hc with rfl | hc
      · decide
      · exact Text.isSpace_of_isDigit (hdigits c hc)
    · exact Text.isSpace_of_isDigit (hdigits c hc)
  rw [Text.trimBoth_eq_self hspace, toList_toString]
  by_cases hn : n < 0
  · simp [hn, takeSign]
  · rw [if_neg hn]
    -- the first digit is no sign
    cases hcs : Nat.toDigits 10 n.natAbs with
    | nil => simp [takeSign, hn]
    | cons c cs =>
      have hc : c.isDigit = true := hdigits c (by simp [hcs])
      unfold takeSign
      split
      · rename_i heq
        cases heq
        exact absurd hc (by decide)
      · rename_i heq
        cases heq
        exact absurd hc (by decide)
      · simp [hn]

/-- A shown number is read as the number, if it has no more digits than are read. -/
theorem Decimal.readInt_toString (n : Int) :
    readInt Text.digitValue? (toString n) =
      if maxDigits < (Nat.toDigits 10 n.natAbs).length then
        .tooLong (Nat.toDigits 10 n.natAbs).length
      else .whole n := by
  have hall : ∀ c ∈ Nat.toDigits 10 n.natAbs, c.isDigit = true := fun c => isDigit_of_mem_toDigits
  have hdigits := readDigits_of_isDigit hall false
  have hvalue := ofDigits_map (Nat.toDigits 10 n.natAbs)
  rw [Nat.ofDigitChars_ten_toDigits] at hvalue
  obtain ⟨c, cs, hcs⟩ := List.exists_cons_of_ne_nil (Nat.toDigits_ne_nil (n := n.natAbs) (b := 10))
  rw [readInt, takeSign_toString]
  rw [hcs] at hdigits hvalue ⊢
  simp only [hdigits, List.map_cons, List.length_cons, List.length_map, List.isEmpty_nil, if_true]
  split
  · rfl
  · have hsigned : signed (decide (n < 0)) ((c :: cs).map fun c => c.toNat - '0'.toNat) = n := by
      rw [signed, hvalue]
      by_cases hn : n < 0
      · rw [if_pos (by simpa using hn)]
        omega
      · rw [if_neg (by simpa using hn)]
        omega
    rw [List.map_cons] at hsigned
    rw [hsigned]

/-- Reading a shown number gives it back, if it gives anything. -/
theorem Fault.eq_of_readWhole_toString {n m : Int} (h : readWhole (toString n) = .ok m) :
    m = n := by
  rw [readWhole, Decimal.readInt_toString] at h
  by_cases hlong : Decimal.maxDigits < (Nat.toDigits 10 n.natAbs).length
  · rw [if_pos hlong] at h
    cases h
  · rw [if_neg hlong] at h
    cases h
    rfl

/-! ## Read numbers -/

namespace Decimal

private theorem lt_ten_of_mem_readDigits {d : Nat} (joined : Bool) (cs : List Char)
    (h : d ∈ (readDigits Text.digitValue? joined cs).1) : d < 10 := by
  fun_induction readDigits Text.digitValue? joined cs with
  | case1 joined => cases h
  | case2 joined c cs d' hd' ds rest hrest ih =>
    rcases List.mem_cons.1 h with rfl | h
    · exact Text.digitValue?_lt hd'
    · exact ih (by rw [hrest]; exact h)
  | case3 joined c cs hc hjoin hnone ih => cases h
  | case4 joined c cs hc hjoin hfound ih => exact ih h
  | case5 joined c cs hc hjoin => cases h

private theorem ofDigits_lt {ds : List Nat} (h : ∀ d ∈ ds, d < 10) :
    ofDigits ds < 10 ^ ds.length := by
  induction ds using List.reverseRecOn with
  | nil => simp [ofDigits]
  | append_singleton ds d ih =>
    have hfront := ih fun d' hd' => h d' (List.mem_append_left _ hd')
    have hlast := h d (by simp)
    simp only [ofDigits, List.foldl_append, List.foldl_cons, List.foldl_nil, List.length_append,
      List.length_singleton, pow_succ] at hfront ⊢
    omega

/-- A number that has been read has no more digits than are read. -/
theorem length_toDigits_of_readInt {s : String} {n : Int}
    (h : readInt Text.digitValue? s = .whole n) :
    (Nat.toDigits 10 n.natAbs).length ≤ maxDigits := by
  rcases hsign : takeSign (Text.trimBoth Text.isSpace s.toList) with ⟨negative, cs⟩
  rcases hdigits : readDigits Text.digitValue? false cs with ⟨ds, rest⟩
  have hten : ∀ d ∈ ds, d < 10 := fun d hd =>
    lt_ten_of_mem_readDigits false cs (by rw [hdigits]; exact hd)
  have habs : ∀ b, (signed b ds).natAbs = ofDigits ds := by
    intro b
    cases b <;> simp [signed]
  simp only [readInt, hsign, hdigits] at h
  split at h
  · cases h
  · cases h
  · rename_i ds' rest' hnil hunder hsame
    cases hsame
    split at h
    · cases h
    · rename_i hshort
      split at h
      · cases h
        have hlength : 0 < ds.length := List.length_pos_iff.2 fun hds => by simp [hds] at hnil
        rw [habs]
        exact (Nat.toDigits_length 10 _ _ hlength (ofDigits_lt hten)).trans (not_lt.1 hshort)
      · cases h

end Decimal

/-- A number that has been read can be written. -/
theorem Fault.writableOnly_of_readWhole {s : String} {n : Int} (h : readWhole s = .ok n) :
    writableOnly (.number n) = .ok (.number n) := by
  unfold readWhole at h
  split at h
  · rename_i m hread
    cases h
    rw [writableOnly, if_pos (Decimal.length_toDigits_of_readInt hread)]
  · cases h
  · cases h

/-- A shown number looks like a number. -/
theorem Text.looksNumeric_toString (n : Int) : looksNumeric (toString n) = true := by
  have hdigits : ∀ c ∈ Nat.toDigits 10 n.natAbs, c.isDigit = true := fun c =>
    isDigit_of_mem_toDigits
  have hdrop : (Nat.toDigits 10 n.natAbs).dropWhile (· == '-') = Nat.toDigits 10 n.natAbs := by
    cases hcs : Nat.toDigits 10 n.natAbs with
    | nil => rfl
    | cons c cs =>
      have hne := ne_hyphen_of_isDigit (hdigits c (by simp [hcs]))
      simp [hne]
  have hsame : (toString n).toList.dropWhile (· == '-') = Nat.toDigits 10 n.natAbs := by
    rw [toList_toString]
    split
    · simp [hdrop]
    · exact hdrop
  rw [looksNumeric, hsame, Bool.and_eq_true, List.all_eq_true]
  refine ⟨by simp [Nat.toDigits_ne_nil], ?_⟩
  intro c hc
  rw [isDigit, digitValue?_of_isDigit (hdigits c hc)]
  rfl

end NodeFlow
