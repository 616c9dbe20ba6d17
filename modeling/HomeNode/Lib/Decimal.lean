-- SUMMARY: Decimal numerals as bytes, and how they compare when they are compared byte by byte.
import Mathlib.Data.List.Lex
import Mathlib.Tactic.IntervalCases
import Mathlib.Tactic.Common

/-!
# Numerals compared as strings

The numeral of a number has no leading zeros. Of two numerals of the same length
the greater one has the greater value; otherwise the shorter one is compared
with the leading digits of the longer one.
-/

namespace Decimal

/-! ## Lexicographic order -/

theorem append_lt_append_iff {as bs cs ds : List UInt8} (h : as.length = bs.length) :
    as ++ cs < bs ++ ds ↔ as < bs ∨ as = bs ∧ cs < ds := by
  induction as generalizing bs with
  | nil =>
    obtain rfl := List.length_eq_zero_iff.mp h.symm
    simp
  | cons a as ih =>
    cases bs with
    | nil => simp at h
    | cons b bs =>
      have hlen : as.length = bs.length := by simpa using h
      simp only [List.cons_append, List.cons_lt_cons_iff, ih hlen, List.cons.injEq]
      tauto

theorem append_lt_append_left {as cs ds : List UInt8} : as ++ cs < as ++ ds ↔ cs < ds := by
  rw [append_lt_append_iff rfl]
  simp [List.lt_irrefl]

theorem cons_lt_cons_left {b : UInt8} {cs ds : List UInt8} : b :: cs < b :: ds ↔ cs < ds := by
  simp only [List.cons_lt_cons_iff, UInt8.lt_irrefl, false_or, true_and]

theorem singleton_lt_iff {a b : UInt8} : [a] < [b] ↔ a < b := by
  simp [List.cons_lt_cons_iff]

/-! ## Numerals -/

/-- The decimal numeral of `n`, in ASCII. -/
def numeral (n : Nat) : List UInt8 := (Nat.toDigits 10 n).map fun c => c.toNat.toUInt8

theorem toUInt8_digitChar {d : Nat} (h : d < 10) :
    (Nat.digitChar d).toNat.toUInt8 = (48 + d).toUInt8 := by
  interval_cases d <;> rfl

/-- The last digit comes off the end. -/
theorem numeral_eq (n : Nat) :
    numeral n = (if n < 10 then [] else numeral (n / 10)) ++ [(48 + n % 10).toUInt8] := by
  unfold numeral
  rw [Nat.toDigits_eq_if (by decide)]
  split
  case isTrue h => simp [toUInt8_digitChar h, Nat.mod_eq_of_lt h]
  case isFalse => simp [toUInt8_digitChar (Nat.mod_lt n (by decide : 0 < 10))]

theorem numeral_of_ge {n : Nat} (h : 10 ≤ n) :
    numeral n = numeral (n / 10) ++ [(48 + n % 10).toUInt8] := by
  rw [numeral_eq, if_neg (not_lt.mpr h)]

theorem numeral_length_pos (n : Nat) : 0 < (numeral n).length := by
  rw [numeral_eq]
  simp

theorem digit_ge {d : Nat} (h : d < 10) : (48 : UInt8) ≤ (48 + d).toUInt8 := by
  interval_cases d <;> decide

theorem digit_lt_iff {d d' : Nat} (h : d < 10) (h' : d' < 10) :
    (48 + d).toUInt8 < (48 + d').toUInt8 ↔ d < d' := by
  interval_cases d <;> interval_cases d' <;> decide

theorem mem_numeral {n : Nat} {b : UInt8} (h : b ∈ numeral n) : 48 ≤ b := by
  induction n using Nat.strongRecOn with
  | ind n ih =>
    rw [numeral_eq] at h
    rcases List.mem_append.mp h with h | h
    · split at h
      · simp at h
      · exact ih (n / 10) (by omega) h
    · obtain rfl := List.mem_singleton.mp h
      exact digit_ge (Nat.mod_lt n (by decide))

/-- The numeral of `n` begins with the numeral of `n / 10 ^ k`. -/
theorem numeral_split {n k : Nat} (h : k < (numeral n).length) :
    ∃ tail, numeral n = numeral (n / 10 ^ k) ++ tail ∧ tail.length = k ∧ ∀ b ∈ tail, 48 ≤ b := by
  induction k generalizing n with
  | zero => exact ⟨[], by simp, rfl, by simp⟩
  | succ k ih =>
    have hge : 10 ≤ n := by
      by_contra hlt
      rw [numeral_eq, if_pos (not_le.mp hlt)] at h
      simp at h
    rw [numeral_of_ge hge] at h ⊢
    obtain ⟨tail, htail, hlen, hdigits⟩ := ih (n := n / 10) (by simpa using h)
    refine ⟨tail ++ [(48 + n % 10).toUInt8], ?_, by simp [hlen], ?_⟩
    · rw [htail, Nat.div_div_eq_div_mul, ← Nat.pow_succ', List.append_assoc]
    · intro b hb
      rcases List.mem_append.mp hb with hb | hb
      · exact hdigits b hb
      · obtain rfl := List.mem_singleton.mp hb
        exact digit_ge (Nat.mod_lt n (by decide))

theorem length_numeral_eq_one_iff (n : Nat) : (numeral n).length = 1 ↔ n < 10 := by
  rw [numeral_eq]
  split
  case isTrue h => simpa using h
  case isFalse h =>
    have := numeral_length_pos (n / 10)
    simp only [List.length_append, List.length_singleton]
    omega

theorem numeral_injective {m n : Nat} (h : numeral m = numeral n) : m = n := by
  induction m using Nat.strongRecOn generalizing n with
  | ind m ih =>
    have hlen := congrArg List.length h
    have hsmall : m < 10 ↔ n < 10 := by
      rw [← length_numeral_eq_one_iff, ← length_numeral_eq_one_iff, hlen]
    have hdigit (d d' : Nat) (hd : d < 10) (hd' : d' < 10)
        (heq : (48 + d).toUInt8 = (48 + d').toUInt8) : d = d' := by
      have hlt := digit_lt_iff hd hd'
      have hgt := digit_lt_iff hd' hd
      rw [heq] at hlt hgt
      have hself := UInt8.lt_irrefl (48 + d').toUInt8
      exact Nat.le_antisymm (not_lt.mp fun h => hself (hgt.mpr h))
        (not_lt.mp fun h => hself (hlt.mpr h))
    by_cases hm : m < 10
    · rw [numeral_eq, if_pos hm, numeral_eq, if_pos (hsmall.mp hm)] at h
      have := hdigit _ _ (Nat.mod_lt m (by decide)) (Nat.mod_lt n (by decide)) (by simpa using h)
      have := hsmall.mp hm
      omega
    · have hn := mt hsmall.mpr hm
      rw [numeral_of_ge (not_lt.mp hm), numeral_of_ge (not_lt.mp hn)] at h
      obtain ⟨hfront, hlast⟩ := List.append_inj' h rfl
      have := ih (m / 10) (by omega) hfront
      have := hdigit _ _ (Nat.mod_lt m (by decide)) (Nat.mod_lt n (by decide)) (by simpa using hlast)
      omega

/-- Numerals of one length compare as their values. -/
theorem numeral_lt_iff {m n : Nat} (h : (numeral m).length = (numeral n).length) :
    numeral m < numeral n ↔ m < n := by
  induction m using Nat.strongRecOn generalizing n with
  | ind m ih =>
    have hsmall : m < 10 ↔ n < 10 := by
      rw [← length_numeral_eq_one_iff, ← length_numeral_eq_one_iff, h]
    by_cases hm : m < 10
    · have hn := hsmall.mp hm
      rw [numeral_eq m, if_pos hm, numeral_eq n, if_pos hn, Nat.mod_eq_of_lt hm, Nat.mod_eq_of_lt hn]
      exact singleton_lt_iff.trans (digit_lt_iff hm hn)
    · have hn := mt hsmall.mpr hm
      rw [numeral_of_ge (not_lt.mp hm), numeral_of_ge (not_lt.mp hn)] at h ⊢
      have hlen : (numeral (m / 10)).length = (numeral (n / 10)).length := by simpa using h
      have hlast : [(48 + m % 10).toUInt8] < [(48 + n % 10).toUInt8] ↔ m % 10 < n % 10 :=
        singleton_lt_iff.trans
          (digit_lt_iff (Nat.mod_lt m (by decide)) (Nat.mod_lt n (by decide)))
      rw [append_lt_append_iff hlen, ih (m / 10) (by omega) hlen, hlast]
      constructor
      · rintro (hlt | ⟨heq, hlt⟩)
        · omega
        · have := numeral_injective heq
          omega
      · intro hlt
        by_cases heq : m / 10 = n / 10
        · exact .inr ⟨by rw [heq], by omega⟩
        · exact .inl (by omega)

theorem length_numeral_le_iff {n k : Nat} (h : 0 < k) :
    (numeral n).length ≤ k ↔ n < 10 ^ k := by
  rw [numeral, List.length_map]
  exact Nat.length_toDigits_le_iff (by decide) h

theorem numeral_length_mono {m n : Nat} (h : m ≤ n) :
    (numeral m).length ≤ (numeral n).length := by
  have hn := (length_numeral_le_iff (numeral_length_pos n)).mp (le_refl (numeral n).length)
  exact (length_numeral_le_iff (numeral_length_pos n)).mpr (h.trans_lt hn)

/-! ## Numerals in a text -/

/-- What may follow a numeral so that it ends there: nothing, or a byte below the digits. -/
def EndsNumeral (rest : List UInt8) : Prop := ∀ b ∈ rest.head?, b < 48

theorem EndsNumeral.nil : EndsNumeral [] := by simp [EndsNumeral]

theorem EndsNumeral.cons {b : UInt8} {rest : List UInt8} (h : b < 48) : EndsNumeral (b :: rest) := by
  simpa [EndsNumeral] using h

/-- The numerals of `m ≤ n` compare as their values: the leading digits of `n`, as many
as `m` has, are not less than `m`. -/
def Agrees (m n : Nat) : Prop := m ≤ n / 10 ^ ((numeral n).length - (numeral m).length)

instance (m n : Nat) : Decidable (Agrees m n) := inferInstanceAs (Decidable (_ ≤ _))

/-- A numeral that ends comes before one that goes on. -/
theorem lt_append_of_ends {rest tail : List UInt8} (hrest : EndsNumeral rest) (htail : tail ≠ [])
    (hdigits : ∀ b ∈ tail, 48 ≤ b) (rest' : List UInt8) : rest < tail ++ rest' := by
  cases tail with
  | nil => exact absurd rfl htail
  | cons d tail =>
    cases rest with
    | nil => exact List.nil_lt_cons _ _
    | cons b rest =>
      have hb : b < 48 := by simpa [EndsNumeral] using hrest
      have hd : 48 ≤ d := hdigits d List.mem_cons_self
      exact List.cons_lt_cons_iff.mpr (.inl (UInt8.lt_of_lt_of_le hb hd))

/-- The numeral of the greater number is its leading digits, as many as the smaller one has,
and the rest of its digits. -/
theorem numeral_leading {m n : Nat} (h : m ≤ n) :
    ∃ tail, numeral n = numeral (n / 10 ^ ((numeral n).length - (numeral m).length)) ++ tail ∧
      (numeral (n / 10 ^ ((numeral n).length - (numeral m).length))).length =
        (numeral m).length ∧
      (tail = [] → n / 10 ^ ((numeral n).length - (numeral m).length) = n) ∧
      ∀ b ∈ tail, 48 ≤ b := by
  have hmono := numeral_length_mono h
  have hpos := numeral_length_pos m
  generalize hk : (numeral n).length - (numeral m).length = k
  obtain ⟨tail, hsplit, htail, hdigits⟩ := numeral_split (n := n) (k := k) (by omega)
  refine ⟨tail, hsplit, ?_, ?_, hdigits⟩
  · have := congrArg List.length hsplit
    rw [List.length_append] at this
    omega
  · rintro rfl
    obtain rfl : 0 = k := htail
    simp

section

variable {m n : Nat} {rest rest' : List UInt8}

/-- A smaller number comes first exactly when the numerals agree with the values. -/
theorem numeral_append_lt_iff (h : m < n) (hrest : EndsNumeral rest) :
    numeral m ++ rest < numeral n ++ rest' ↔ Agrees m n := by
  obtain ⟨tail, hsplit, hlen, htail, hdigits⟩ := numeral_leading h.le
  rw [hsplit, List.append_assoc, append_lt_append_iff hlen.symm, numeral_lt_iff hlen.symm, Agrees,
    le_iff_lt_or_eq]
  constructor
  · rintro (hlt | ⟨heq, -⟩)
    · exact .inl hlt
    · exact .inr (numeral_injective heq)
  · rintro (hlt | heq)
    · exact .inl hlt
    · refine .inr ⟨by rw [← heq], lt_append_of_ends hrest (fun hnil => ?_) hdigits rest'⟩
      -- with no further digit the numbers would be equal
      exact h.ne (heq.trans (htail hnil))

/-- And the greater one comes first exactly when they do not. -/
theorem numeral_append_gt_iff (h : m < n) (hrest : EndsNumeral rest) :
    numeral n ++ rest' < numeral m ++ rest ↔ ¬ Agrees m n := by
  obtain ⟨tail, hsplit, hlen, htail, hdigits⟩ := numeral_leading h.le
  rw [hsplit, List.append_assoc, append_lt_append_iff hlen, numeral_lt_iff hlen, Agrees, not_le]
  apply or_iff_left
  rintro ⟨heq, hlt⟩
  have hne : tail ≠ [] := fun hnil => h.ne ((numeral_injective heq).symm.trans (htail hnil))
  exact List.lt_asymm hlt (lt_append_of_ends hrest hne hdigits rest')

end

end Decimal
