import CompletionCheck.Json.Number
import Mathlib.Data.List.TakeDrop

/-!
# Whole numbers read back

A whole number is written as its decimal digits, behind a minus when it is negative.  Reading takes
all digits in front and puts them into a significand of 64 bits; what it takes for the number's
end is the first character that could not belong to a number (`Ends`).  A number in the range of 64
bits, signed or unsigned, comes back as it was (`readNumber_toString`).

The digits are those of `Nat.toDigits`; what has to be known of them is that they are digits, that
they add up to the number, and that the first one is zero for zero alone.
-/

namespace CompletionCheck.Json

/-- The characters of a digit string as the numbers they stand for. -/
def digitValues (n : Nat) : List Nat :=
  (Nat.toDigits 10 n).map fun c => c.toNat - '0'.toNat

/-- No character that would continue a number stands here. -/
def Ends (rest : List Char) : Prop :=
  ∀ c after, rest = c :: after → c.isDigit = false ∧ c ≠ '.' ∧ c ≠ 'e' ∧ c ≠ 'E'

theorem Ends.nil : Ends [] := by
  intro c after h
  cases h

theorem Ends.cons {c : Char} (rest : List Char)
    (h : c.isDigit = false ∧ c ≠ '.' ∧ c ≠ 'e' ∧ c ≠ 'E') : Ends (c :: rest) := by
  intro d after hd
  cases hd
  exact h

theorem isDigit_of_mem_digits {n : Nat} {c : Char} (h : c ∈ Nat.toDigits 10 n) :
    c.isDigit = true :=
  Nat.isDigit_of_mem_toDigits (by decide) (by decide) h

theorem exists_leading_digit (n : Nat) :
    ∃ c cs, Nat.toDigits 10 n = c :: cs ∧ c.isDigit = true := by
  obtain ⟨c, cs, hcs⟩ := List.exists_cons_of_ne_nil (Nat.toDigits_ne_nil (n := n) (b := 10))
  refine ⟨c, cs, hcs, isDigit_of_mem_digits (n := n) ?_⟩
  rw [hcs]
  exact List.mem_cons_self

theorem toList_toString_nat (n : Nat) : (toString n).toList = Nat.toDigits 10 n := by
  rw [Nat.toString_eq_ofList_toDigits, String.toList_ofList]

theorem toList_toString_int (n : Int) :
    (toString n).toList
      = if n < 0 then '-' :: Nat.toDigits 10 n.natAbs else Nat.toDigits 10 n.natAbs := by
  cases n with
  | ofNat n =>
      rw [if_neg (by simp)]
      exact toList_toString_nat n
  | negSucc n =>
      rw [if_pos (Int.negSucc_lt_zero n)]
      show ("-" ++ (n + 1).repr).toList = _
      rw [String.toList_append, Nat.toList_repr]
      rfl

theorem toString_opens (n : Int) :
    ∃ c cs, (toString n).toList = c :: cs ∧ (c = '-' ∨ c.isDigit = true) := by
  rw [toList_toString_int]
  split
  · exact ⟨_, _, rfl, Or.inl rfl⟩
  · obtain ⟨c, cs, hcs, hc⟩ := exists_leading_digit n.natAbs
    exact ⟨c, cs, hcs, Or.inr hc⟩

/-! ## The digits of a number -/

theorem foldl_digitValues (n : Nat) :
    (digitValues n).foldl (fun total d => total * 10 + d) 0 = n := by
  rw [digitValues, List.foldl_map]
  have h := Nat.ofDigitChars_ten_toDigits (n := n)
  rw [Nat.ofDigitChars_eq_foldl] at h
  simpa only [Nat.mul_comm] using h

theorem digitValues_ne_nil (n : Nat) : digitValues n ≠ [] := by
  simp [digitValues]

theorem digitValues_leading {n d : Nat} {ds : List Nat} (h : digitValues n = d :: ds)
    (hn : n ≠ 0) : d ≠ 0 := by
  induction n using Nat.strongRecOn generalizing d ds with
  | ind n ih =>
      rw [digitValues] at h
      by_cases small : n < 10
      · rw [Nat.toDigits_of_lt_base small] at h
        obtain ⟨rfl, -⟩ := List.cons.inj h
        show n.digitChar.toNat - '0'.toNat ≠ 0
        rw [Nat.toNat_digitChar_of_lt_ten small]
        have : '0'.toNat = 48 := rfl
        omega
      · -- The first digit is the first digit of what is left without the last one.
        rw [Nat.toDigits_of_base_le (by decide) (by omega), List.map_append] at h
        obtain ⟨e, es, hes⟩ := List.exists_cons_of_ne_nil (digitValues_ne_nil (n / 10))
        have he : e ≠ 0 := ih (n / 10) (by omega) hes (by omega)
        rw [← digitValues, hes, List.cons_append] at h
        obtain ⟨rfl, -⟩ := List.cons.inj h
        exact he

/-! ## Reading the digits -/

theorem takeDigits_digits (n : Nat) {rest : List Char} (h : Ends rest) :
    takeDigits (Nat.toDigits 10 n ++ rest) = (digitValues n, rest) := by
  have take : (Nat.toDigits 10 n ++ rest).takeWhile Char.isDigit = Nat.toDigits 10 n := by
    rw [List.takeWhile_append_of_pos fun c hc => isDigit_of_mem_digits hc]
    cases rest with
    | nil => simp
    | cons c after => simp [(h c after rfl).1]
  have drop : (Nat.toDigits 10 n ++ rest).dropWhile Char.isDigit = rest := by
    rw [List.dropWhile_append_of_pos fun c hc => isDigit_of_mem_digits hc]
    cases rest with
    | nil => rfl
    | cons c after => simp [(h c after rfl).1]
  rw [takeDigits, List.span_eq_takeWhile_dropWhile, take, drop]
  rfl

theorem le_foldl_digits (ds : List Nat) :
    ∀ total, total ≤ ds.foldl (fun total d => total * 10 + d) total := by
  induction ds with
  | nil =>
      intro total
      exact Nat.le_refl _
  | cons d ds ih =>
      intro total
      have := ih (total * 10 + d)
      rw [List.foldl_cons]
      omega

theorem fillSignificand_of_fits (ds : List Nat) :
    ∀ total, ds.foldl (fun total d => total * 10 + d) total < 0x10000000000000000 →
      fillSignificand total ds = (ds.foldl (fun total d => total * 10 + d) total, []) := by
  induction ds with
  | nil =>
      intro total _
      rfl
  | cons d ds ih =>
      intro total h
      rw [List.foldl_cons] at h ⊢
      have := le_foldl_digits ds (total * 10 + d)
      rw [fillSignificand, if_neg (by omega)]
      exact ih _ h

theorem fillSignificand_digitValues {n : Nat} (h : n < 0x10000000000000000) :
    fillSignificand 0 (digitValues n) = (n, []) := by
  rw [fillSignificand_of_fits _ _ (by rw [foldl_digitValues]; exact h), foldl_digitValues]

/-! ## Reading the number -/

def signedInt (negative : Bool) (n : Nat) : Int :=
  if negative then -n else n

theorem digitValues_unpadded (n d : Nat) (ds : List Nat) : digitValues n ≠ 0 :: d :: ds := by
  intro h
  rcases Nat.eq_zero_or_pos n with rfl | hn
  · simp [digitValues] at h
  · exact digitValues_leading h (Nat.ne_of_gt hn) rfl

theorem ite_signed {negative : Bool} {n : Nat}
    (h : negative = true → n ≠ 0 ∧ n ≤ 0x8000000000000000) (x : Json) (rest : List Char) :
    (if !negative then some (.int n, rest)
      else if n = 0 || 0x8000000000000000 < n then some (x, rest)
      else some (.int (-n), rest))
      = some (Json.int (signedInt negative n), rest) := by
  cases negative with
  | false => rfl
  | true =>
      obtain ⟨hzero, hbound⟩ := h rfl
      simp [hzero, Nat.not_lt.mpr hbound, signedInt]

theorem readMagnitude_digits (negative : Bool) {n : Nat} {rest : List Char} (h : Ends rest)
    (hn : n < 0x10000000000000000)
    (hneg : negative = true → n ≠ 0 ∧ n ≤ 0x8000000000000000) :
    readMagnitude negative (Nat.toDigits 10 n ++ rest)
      = some (.int (signedInt negative n), rest) := by
  rw [readMagnitude, takeDigits_digits n h]
  dsimp only
  split
  · next hnil => exact absurd hnil (digitValues_ne_nil n)
  · next d ds hds => exact absurd hds (digitValues_unpadded n d ds)
  · rw [fillSignificand_digitValues hn]
    cases rest with
    | nil => exact ite_signed hneg _ _
    | cons c after =>
        obtain ⟨-, hpoint, he, hE⟩ := h c after rfl
        simp only [hpoint, he, hE, decide_false, Bool.or_self, Bool.false_eq_true, if_false]
        exact ite_signed hneg _ _

/-- A whole number of 64 bits is read as it was written. -/
theorem readNumber_toString {n : Int} {rest : List Char} (h : Ends rest)
    (low : -0x8000000000000000 ≤ n) (high : n < 0x10000000000000000) :
    readNumber ((toString n).toList ++ rest) = some (.int n, rest) := by
  rw [toList_toString_int]
  by_cases negative : n < 0
  · rw [if_pos negative, List.cons_append, readNumber, if_pos rfl,
      readMagnitude_digits true h (by omega) (by omega)]
    have : signedInt true n.natAbs = n := by
      rw [signedInt, if_pos rfl]
      omega
    rw [this]
  · rw [if_neg negative]
    obtain ⟨c, cs, hcs, hdigit⟩ := exists_leading_digit n.natAbs
    have hc : c ≠ '-' := by
      rintro rfl
      contradiction
    have hm := readMagnitude_digits false (n := n.natAbs) h (by omega) (by simp)
    rw [hcs, List.cons_append] at hm ⊢
    rw [readNumber, if_neg hc, hm]
    have : signedInt false n.natAbs = n := by
      rw [signedInt, if_neg Bool.false_ne_true]
      omega
    rw [this]

end CompletionCheck.Json
