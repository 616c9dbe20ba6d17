-- SUMMARY: Fixed pools of objects, and the bookkeeping that ties the objects in use to those who hold them.
import Mathlib.Data.Multiset.Count
import Mathlib.Data.Multiset.Fintype
import Mathlib.Data.Fintype.Card

/-!
# Banks

A bank is a fixed pool of objects with a mark on each that is in use. `Holds b m`
says that the objects in use are exactly those of the multiset `m`, each held
once: `m` is read off the system around the bank, so an object that is freed
while it is held elsewhere, held twice, or forgotten breaks it.
-/

/-- The marks of a pool. -/
abbrev Bank (α : Type*) := α → Bool

namespace Bank

variable {α : Type*} [DecidableEq α]

def empty : Bank α := fun _ => false

/-- Every object is in use. -/
def exhausted [Fintype α] (b : Bank α) : Bool := decide (∀ i, b i = true)

/-- An allocation that hands out the given object, or nothing. It hands out an
object that is not in use, and nothing only when all are in use. -/
def alloc [Fintype α] (b : Bank α) : Option α → Option (Bank α)
  | some i => if b i then none else some (Function.update b i true)
  | none => if b.exhausted then some b else none

def free (b : Bank α) (i : α) : Bank α := Function.update b i false

/-- The objects in use are those of `m`, each held once. -/
def Holds (b : Bank α) (m : Multiset α) : Prop := ∀ i, m.count i = (b i).toNat

variable {b b' : Bank α} {m : Multiset α} {i : α}

theorem Holds.empty : Holds (Bank.empty : Bank α) 0 := fun _ => by simp [Bank.empty]

theorem Holds.mem_iff (h : Holds b m) : i ∈ m ↔ b i = true := by
  rw [← Multiset.count_pos, h i]
  cases b i <;> simp

/-- What is in use determines the holders. -/
theorem Holds.unique {m' : Multiset α} (h : Holds b m) (h' : Holds b m') : m = m' :=
  Multiset.ext.mpr fun i => (h i).trans (h' i).symm

theorem Holds.nodup (h : Holds b m) : m.Nodup := by
  rw [Multiset.nodup_iff_count_le_one]
  intro i
  rw [h i]
  cases b i <;> simp

theorem Holds.cons_not_mem (h : Holds b (i ::ₘ m)) : i ∉ m :=
  (Multiset.nodup_cons.mp h.nodup).1

theorem Holds.free (h : Holds b (i ::ₘ m)) : Holds (b.free i) m := by
  intro j
  by_cases hj : j = i
  · subst hj
    simp [Bank.free, Multiset.count_eq_zero.mpr h.cons_not_mem]
  · have := h j
    rw [Multiset.count_cons_of_ne hj] at this
    simpa [Bank.free, hj] using this

section

variable [Fintype α]

omit [Fintype α] in
/-- Freeing an object leaves the others in use. -/
theorem free_of_notMem (hnot : i ∉ m) (hall : ∀ j ∈ i ::ₘ m, b j = true) :
    ∀ j ∈ m, b.free i j = true := by
  intro j hj
  have hne : j ≠ i := fun heq => hnot (heq ▸ hj)
  simpa [free, hne] using hall j (Multiset.mem_cons_of_mem hj)

theorem alloc_some : b.alloc (some i) = some b' ↔ b i = false ∧ b' = Function.update b i true := by
  cases h : b i <;> simp [alloc, h, eq_comm]

theorem alloc_none : b.alloc none = some b' ↔ b.exhausted ∧ b' = b := by
  cases h : b.exhausted <;> simp [alloc, h, eq_comm]

/-- Nothing is handed out exactly when nothing is left. -/
theorem alloc_eq_none_iff {res : Option α} (h : b.alloc res = some b') :
    res = none ↔ b.exhausted := by
  cases res with
  | none => simp [(alloc_none.mp h).1]
  | some i =>
    have hfree := (alloc_some.mp h).1
    have hnot : ¬ ∀ i, b i = true := fun hall => by simp [hall i] at hfree
    simp [exhausted, hnot]

/-- Every allocation has an answer. -/
theorem exists_alloc (b : Bank α) : ∃ res b', b.alloc res = some b' := by
  by_cases h : b.exhausted
  · exact ⟨none, b, alloc_none.mpr ⟨h, rfl⟩⟩
  · obtain ⟨i, hi⟩ : ∃ i, b i = false := by simpa [exhausted] using h
    exact ⟨some i, _, alloc_some.mpr ⟨hi, rfl⟩⟩

theorem Holds.alloc (h : Holds b m) (ha : b.alloc (some i) = some b') :
    Holds b' (i ::ₘ m) ∧ i ∉ m := by
  obtain ⟨hfree, rfl⟩ := alloc_some.mp ha
  have hnot : i ∉ m := by rw [h.mem_iff, hfree]; simp
  refine ⟨fun j => ?_, hnot⟩
  by_cases hj : j = i
  · subst hj
    simp [Multiset.count_eq_zero.mpr hnot]
  · simpa [hj] using h j

/-- What an allocation handed out is held. -/
theorem Holds.alloc_toList {res : Option α} (h : Holds b m) (ha : b.alloc res = some b') :
    Holds b' (↑res.toList + m) := by
  cases res with
  | none =>
    obtain ⟨-, rfl⟩ := alloc_none.mp ha
    simpa using h
  | some i => simpa using (h.alloc ha).1

/-- No more objects are held than there are. -/
theorem Holds.card_le (h : Holds b m) : m.card ≤ Fintype.card α := by
  have hcard : m.card = m.toFinset.card := (Multiset.toFinset_card_of_nodup h.nodup).symm
  rw [hcard]
  exact Finset.card_le_univ _

/-- A bank is exhausted exactly when as many objects are held as it has. -/
theorem Holds.exhausted_iff (h : Holds b m) : b.exhausted ↔ Fintype.card α ≤ m.card := by
  have hcard : m.card = m.toFinset.card := (Multiset.toFinset_card_of_nodup h.nodup).symm
  rw [hcard, exhausted, decide_eq_true_iff]
  constructor
  · intro hfull
    have : m.toFinset = Finset.univ := by
      ext i
      simp [h.mem_iff, hfull i]
    rw [this, Finset.card_univ]
  · intro hle i
    have : m.toFinset = Finset.univ := Finset.eq_univ_of_card _
      (le_antisymm (Finset.card_le_univ _) hle)
    exact h.mem_iff.mp (Multiset.mem_toFinset.mp (this ▸ Finset.mem_univ i))

end

end Bank
