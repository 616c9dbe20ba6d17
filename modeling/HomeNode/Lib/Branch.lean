-- SUMMARY: Branches that take a push only on top of their newest revision, and runs whose value is the fold of what was pushed.
import HomeNode.Lib.Transition

/-!
# Branches

A branch counts its revisions, and a copy remembers the one it was taken from. A
push is refused when the branch has moved on since then. However many copies are
changed at the same time, what a push changes is therefore the newest value.
-/

/-- A value with the number of pushes that made it. -/
structure Branch (α : Type*) where
  revision : Nat
  value : α

namespace Branch

variable {α : Type*}

/-- A working copy, and the revision it was taken from. -/
structure Copy (α : Type*) where
  base : Nat
  value : α

/-- Take a copy of the newest revision. -/
def checkout (b : Branch α) : Copy α := ⟨b.revision, b.value⟩

/-- Change a copy. -/
def Copy.edit (c : Copy α) (f : α → α) : Copy α := { c with value := f c.value }

/-- Publish a copy, unless the branch has moved on. -/
def push (b : Branch α) (c : Copy α) : Option (Branch α) :=
  if c.base = b.revision then some ⟨b.revision + 1, c.value⟩ else none

/-- The branch `b'` is `b`, or has moved on from it. -/
structure Extends (b b' : Branch α) : Prop where
  le : b.revision ≤ b'.revision
  value : b.revision = b'.revision → b.value = b'.value

/-- The copy was taken from the branch, and not changed since. -/
def Copy.Of (c : Copy α) (b : Branch α) : Prop := Extends ⟨c.base, c.value⟩ b

variable {b b' b'' : Branch α} {c : Copy α} {f : α → α}

theorem Extends.refl (b : Branch α) : Extends b b := ⟨le_rfl, fun _ => rfl⟩

theorem Extends.trans (h : Extends b b') (h' : Extends b' b'') : Extends b b'' where
  le := h.le.trans h'.le
  value heq := by
    have hle := h.le
    have hle' := h'.le
    exact (h.value (by omega)).trans (h'.value (by omega))

theorem push_eq_some (h : b.push c = some b') :
    c.base = b.revision ∧ b' = ⟨b.revision + 1, c.value⟩ := by
  unfold push at h
  split at h
  · next hbase => exact ⟨hbase, (Option.some.inj h).symm⟩
  · exact absurd h (by simp)

theorem push_extends (h : b.push c = some b') : Extends b b' := by
  obtain ⟨-, rfl⟩ := push_eq_some h
  exact ⟨Nat.le_succ _, fun heq => absurd heq (Nat.succ_ne_self _).symm⟩

theorem checkout_of (b : Branch α) : b.checkout.Of b := Extends.refl b

theorem Copy.Of.mono (h : c.Of b) (hb : Extends b b') : c.Of b' := h.trans hb

/-- An accepted push applies its change to the value of the branch. -/
theorem push_edit (h : c.Of b) (hpush : b.push (c.edit f) = some b') :
    b' = ⟨b.revision + 1, f b.value⟩ ∧ c.value = b.value := by
  obtain ⟨hbase, rfl⟩ := push_eq_some hpush
  have hvalue : c.value = b.value := h.value hbase
  exact ⟨by rw [Copy.edit, hvalue], hvalue⟩

end Branch

namespace Transition

variable {σ ℓ α ε : Type*} {step : σ → ℓ → Option σ}

/-- The log rule: where each step leaves the view, or applies to it the change that its
label stands for, a run applies the changes of its labels, one after the other. -/
theorem run_eq_foldl {Inv : σ → Prop} (view : σ → α) {change : ℓ → Option ε} {apply : α → ε → α}
    (hinv : Preserved step Inv)
    (hstep : ∀ s l t, Inv s → step s l = some t →
      view t = (change l).elim (view s) (apply (view s)))
    {s t : σ} {ls : List ℓ} (hs : Inv s) (hrun : run step s ls = some t) :
    view t = (ls.filterMap change).foldl apply (view s) := by
  have hall : ∀ ls t, run step s ls = some t →
      Inv t ∧ view t = (ls.filterMap change).foldl apply (view s) := by
    apply run_induction
    · exact ⟨hs, rfl⟩
    · intro ls t l u _ ih hl
      obtain ⟨ht, hview⟩ := ih
      refine ⟨hinv t l u ht hl, ?_⟩
      rw [hstep t l u ht hl, hview]
      cases hchange : change l <;> simp [hchange]
  exact (hall ls t hrun).2

end Transition
