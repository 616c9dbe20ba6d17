-- SUMMARY: Release tags, and when the string comparison of is_update_available orders them as versions.
import HomeNode.Lib.Decimal
import HomeNode.Ota.Task

/-!
# Release tags

A release is tagged `v<major>.<minor>.<patch>`, and the tag is the version both
of the manifest and of the image. `is_update_available` compares two of them
byte by byte.
-/

namespace HomeNode.Ota

open Decimal

/-- The numbers of a release. -/
structure Version where
  major : Nat
  minor : Nat
  patch : Nat
  deriving DecidableEq

namespace Version

/-- The characters of the tag. -/
def tagBytes (v : Version) : List UInt8 :=
  118 :: (numeral v.major ++ 46 :: (numeral v.minor ++ 46 :: numeral v.patch))

/-- The tag of a release. -/
def tag (v : Version) : CStr where
  bytes := v.tagBytes
  nulFree h := by
    have hdigit (n : Nat) (hmem : 0 ∈ numeral n) : False := by
      have : (48 : UInt8) ≤ 0 := mem_numeral hmem
      exact absurd this (by decide)
    simp only [tagBytes, List.mem_cons, List.mem_append] at h
    rcases h with h | h | h | h | h | h
    · exact absurd h (by decide)
    · exact hdigit _ h
    · exact absurd h (by decide)
    · exact hdigit _ h
    · exact absurd h (by decide)
    · exact hdigit _ h

example : (⟨1, 20, 3⟩ : Version).tagBytes = CStr.ascii "v1.20.3" := by decide +kernel

/-- `w` is the later release. -/
def Newer (v w : Version) : Prop :=
  v.major < w.major ∨ v.major = w.major ∧
    (v.minor < w.minor ∨ v.minor = w.minor ∧ v.patch < w.patch)

/-- The numerals of two different numbers compare as the numbers. -/
def Compares (m n : Nat) : Prop := Agrees (min m n) (max m n)

/-- So do the numbers in which the tags differ first. -/
def Comparable (v w : Version) : Prop :=
  if v.major ≠ w.major then Compares v.major w.major
  else if v.minor ≠ w.minor then Compares v.minor w.minor
  else v.patch ≠ w.patch → Compares v.patch w.patch

end Version

/-- One number of the tags, with what stands behind it. -/
theorem numeral_append_compare {m n : Nat} {rest rest' : List UInt8} (hrest : EndsNumeral rest)
    (hrest' : EndsNumeral rest') (hne : m ≠ n) :
    (numeral m ++ rest < numeral n ++ rest' ↔ m < n) ↔ Version.Compares m n := by
  unfold Version.Compares
  rcases lt_or_gt_of_ne hne with h | h
  · rw [numeral_append_lt_iff h hrest, min_eq_left h.le, max_eq_right h.le]
    simp [h]
  · rw [numeral_append_gt_iff h hrest', min_eq_right h.le, max_eq_left h.le]
    have hnot : ¬ m < n := not_lt.mpr h.le
    simp [hnot]

theorem isUpdateAvailable_tag (v w : Version) :
    isUpdateAvailable (some v.tag) w.tag = true ↔ v.tagBytes < w.tagBytes := by
  have hne : w.tag.bytes ≠ [] := List.cons_ne_nil _ _
  rw [isUpdateAvailable, if_neg hne]
  simp only [decide_eq_true_eq]
  exact CStr.strcmp_pos_iff w.tag v.tag

/-- An update is taken for a later release, and for no other, exactly when the tags compare
as the numbers in which they differ first. -/
theorem isUpdateAvailable_newer_iff (v w : Version) :
    (isUpdateAvailable (some v.tag) w.tag = true ↔ v.Newer w) ↔ v.Comparable w := by
  have hdot (rest : List UInt8) : EndsNumeral (46 :: rest) := .cons (by decide)
  rw [isUpdateAvailable_tag, Version.tagBytes, Version.tagBytes, cons_lt_cons_left,
    Version.Comparable, Version.Newer]
  by_cases hmajor : v.major = w.major
  case neg =>
    simpa [hmajor] using numeral_append_compare (hdot _) (hdot _) hmajor
  rw [hmajor, append_lt_append_left, cons_lt_cons_left]
  by_cases hminor : v.minor = w.minor
  case neg =>
    simpa [hminor] using numeral_append_compare (hdot _) (hdot _) hminor
  rw [hminor, append_lt_append_left, cons_lt_cons_left]
  by_cases hpatch : v.patch = w.patch
  · simp [hpatch, List.lt_irrefl]
  · simpa [hpatch] using numeral_append_compare .nil .nil hpatch

/-- A tenth minor release does not replace the ninth. -/
theorem not_isUpdateAvailable_tenth :
    ¬ ∀ v w : Version, v.tag.length ≤ 31 → w.tag.length ≤ 31 →
      (isUpdateAvailable (some v.tag) w.tag = true ↔ v.Newer w) := by
  intro h
  have hnewer : (⟨1, 9, 0⟩ : Version).Newer ⟨1, 10, 0⟩ := by simp [Version.Newer]
  have hlater := (h ⟨1, 9, 0⟩ ⟨1, 10, 0⟩ (by decide +kernel) (by decide +kernel)).mpr hnewer
  exact absurd hlater (by decide +kernel)

end HomeNode.Ota
