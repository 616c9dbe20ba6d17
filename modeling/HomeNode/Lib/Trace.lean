-- SUMMARY: Lists of events read as traces: where an event can stand, and properties of its past and of its future.
import Mathlib.Data.List.Basic
import Mathlib.Tactic.Common

/-!
# Traces

A trace is the list of the events of a run, oldest first. The lemmas below say
where an event can stand in a trace that was put together from parts.
-/

namespace Trace

variable {α : Type*}

/-- A trace whose parts around `x` hold no event of the kind `p` can be split at
an event of that kind in one way only. -/
theorem split_unique {p : α → Prop} {as bs pre post : List α} {x y : α}
    (h : as ++ x :: bs = pre ++ y :: post)
    (ha : ∀ a ∈ as, ¬ p a) (hb : ∀ b ∈ bs, ¬ p b) (hy : p y) :
    pre = as ∧ y = x ∧ post = bs := by
  rcases List.append_eq_append_iff.mp h with ⟨cs, hpre, hrest⟩ | ⟨cs, has, hrest⟩
  · cases cs with
    | nil =>
      simp only [List.append_nil, List.nil_append, List.cons.injEq] at hpre hrest
      exact ⟨hpre, hrest.1.symm, hrest.2.symm⟩
    | cons c cs =>
      simp only [List.cons_append, List.cons.injEq] at hrest
      exact absurd hy (hb y (by rw [hrest.2]; simp))
  · cases cs with
    | nil =>
      simp only [List.append_nil, List.nil_append, List.cons.injEq] at has hrest
      exact ⟨has.symm, hrest.1, hrest.2⟩
    | cons c cs =>
      simp only [List.cons_append, List.cons.injEq] at hrest
      exact absurd hy (ha y (by rw [has, hrest.1]; simp))

/-- An event of a kind that the first part does not hold is in the second one. -/
theorem exists_mem_append_iff {p : α → Prop} {as : List α} (h : ∀ a ∈ as, ¬ p a) (bs : List α) :
    (∃ a ∈ as ++ bs, p a) ↔ ∃ a ∈ bs, p a := by
  constructor
  · rintro ⟨a, ha, hp⟩
    rcases List.mem_append.mp ha with ha | ha
    · exact absurd hp (h a ha)
    · exact ⟨a, ha, hp⟩
  · rintro ⟨a, ha, hp⟩
    exact ⟨a, List.mem_append_right as ha, hp⟩

/-- A part without the event `y` ends before a later `y`. -/
theorem prefix_of_not_mem {as bs pre post : List α} {y : α}
    (h : as ++ bs = pre ++ y :: post) (hy : y ∉ as) : as <+: pre := by
  rcases List.append_eq_append_iff.mp h with ⟨cs, hpre, -⟩ | ⟨cs, has, hrest⟩
  · exact ⟨cs, hpre.symm⟩
  · cases cs with
    | nil => exact ⟨[], by simp [has]⟩
    | cons c cs =>
      obtain ⟨rfl, -⟩ := List.cons.inj hrest
      exact absurd (by simp [has]) hy

/-- The first element with `Q`, before which all have `P`: it is the head, or comes behind it. -/
theorem exists_first_cons {P Q : α → Prop} {x : α} {xs : List α} :
    (∃ pre y post, x :: xs = pre ++ y :: post ∧ (∀ z ∈ pre, P z) ∧ Q y) ↔
      Q x ∨ P x ∧ ∃ pre y post, xs = pre ++ y :: post ∧ (∀ z ∈ pre, P z) ∧ Q y := by
  constructor
  · rintro ⟨pre, y, post, heq, hpre, hy⟩
    cases pre with
    | nil =>
      obtain ⟨rfl, rfl⟩ := List.cons.inj heq
      exact .inl hy
    | cons z pre =>
      obtain ⟨rfl, rfl⟩ := List.cons.inj heq
      exact .inr ⟨hpre _ (by simp), pre, y, post, rfl,
        fun z hz => hpre z (List.mem_cons_of_mem _ hz), hy⟩
  · rintro (hx | ⟨hx, pre, y, post, rfl, hpre, hy⟩)
    · exact ⟨[], x, xs, rfl, by simp, hx⟩
    · exact ⟨x :: pre, y, post, rfl, by simpa using ⟨hx, hpre⟩, hy⟩

/-- An event of a trace is its last one, or it was in the trace before. -/
theorem concat_eq_split {tr pre post : List α} {x y : α} :
    tr ++ [x] = pre ++ y :: post ↔
      (pre = tr ∧ y = x ∧ post = []) ∨ ∃ post', post = post' ++ [x] ∧ tr = pre ++ y :: post' := by
  constructor
  · intro h
    rcases List.eq_nil_or_concat post with rfl | ⟨post', z, rfl⟩
    · obtain ⟨rfl, hx⟩ := List.append_inj' h rfl
      exact .inl ⟨rfl, (List.cons.inj hx).1.symm, rfl⟩
    · rw [List.concat_eq_append, ← List.cons_append, ← List.append_assoc] at h
      obtain ⟨rfl, hx⟩ := List.append_inj' h rfl
      obtain rfl : x = z := (List.cons.inj hx).1
      exact .inr ⟨post', List.concat_eq_append, rfl⟩
  · rintro (⟨rfl, rfl, rfl⟩ | ⟨post', rfl, rfl⟩)
    · rfl
    · simp

/-! ## Past and future -/

/-- Every event satisfies `P` with the events before it. -/
def Past (P : List α → α → Prop) (tr : List α) : Prop :=
  ∀ pre x post, tr = pre ++ x :: post → P pre x

/-- Every event satisfies `Q` with the events after it. -/
def Future (Q : α → List α → Prop) (tr : List α) : Prop :=
  ∀ pre x post, tr = pre ++ x :: post → Q x post

variable {P : List α → α → Prop} {Q : α → List α → Prop} {tr : List α} {x : α}

theorem Past.nil : Past P [] := by simp [Past]

theorem past_concat : Past P (tr ++ [x]) ↔ Past P tr ∧ P tr x := by
  constructor
  · intro h
    refine ⟨fun pre y post htr => ?_, h tr x [] rfl⟩
    exact h pre y (post ++ [x]) (by simp [htr])
  · rintro ⟨htr, hx⟩ pre y post h
    rcases concat_eq_split.mp h with ⟨rfl, rfl, -⟩ | ⟨post', -, hsplit⟩
    · exact hx
    · exact htr pre y post' hsplit

theorem Past.mono {P' : List α → α → Prop} (h : Past P tr) (hP : ∀ pre x, P pre x → P' pre x) :
    Past P' tr :=
  fun pre x post htr => hP pre x (h pre x post htr)

theorem past_cons : Past P (x :: tr) ↔ P [] x ∧ Past (fun pre y => P (x :: pre) y) tr := by
  constructor
  · intro h
    exact ⟨h [] x tr rfl, fun pre y post htr => h (x :: pre) y post (by simp [htr])⟩
  · rintro ⟨hx, htr⟩ pre y post h
    cases pre with
    | nil =>
      obtain ⟨rfl, -⟩ := List.cons.inj h
      exact hx
    | cons z pre =>
      obtain ⟨rfl, htail⟩ := List.cons.inj h
      exact htr pre y post htail

theorem past_append {as bs : List α} :
    Past P (as ++ bs) ↔ Past P as ∧ Past (fun pre y => P (as ++ pre) y) bs := by
  induction as generalizing P with
  | nil => simp [Past.nil]
  | cons a as ih => simp only [List.cons_append, past_cons, ih, and_assoc]

theorem Past.congr {P' : List α → α → Prop} (hP : ∀ pre x, P pre x ↔ P' pre x) :
    Past P tr ↔ Past P' tr :=
  ⟨fun h => h.mono fun pre x => (hP pre x).mp, fun h => h.mono fun pre x => (hP pre x).mpr⟩

instance decidablePast : (P : List α → α → Prop) → [∀ pre x, Decidable (P pre x)] →
    (tr : List α) → Decidable (Past P tr)
  | _, _, [] => .isTrue .nil
  | P, _, x :: tr =>
    have := decidablePast (fun pre y => P (x :: pre) y) tr
    decidable_of_iff _ past_cons.symm

theorem Future.nil : Future Q [] := by simp [Future]

theorem Future.mono {Q' : α → List α → Prop} (h : Future Q tr)
    (hQ : ∀ y post, Q y post → Q' y post) : Future Q' tr :=
  fun pre y post htr => hQ y post (h pre y post htr)

theorem Future.concat {Q' : α → List α → Prop} (h : Future Q tr)
    (hQ : ∀ y post, Q y post → Q' y (post ++ [x])) (hx : Q' x []) : Future Q' (tr ++ [x]) := by
  intro pre y post hsplit
  rcases concat_eq_split.mp hsplit with ⟨-, rfl, rfl⟩ | ⟨post', rfl, htr⟩
  · exact hx
  · exact hQ y post' (h pre y post' htr)

theorem future_append {as bs : List α} :
    Future Q (as ++ bs) ↔ Future (fun y post => Q y (post ++ bs)) as ∧ Future Q bs := by
  constructor
  · intro h
    refine ⟨fun pre y post htr => ?_, fun pre y post htr => ?_⟩
    · exact h pre y (post ++ bs) (by simp [htr])
    · exact h (as ++ pre) y post (by simp [htr])
  · rintro ⟨has, hbs⟩ pre y post h
    rcases List.append_eq_append_iff.mp h with ⟨cs, rfl, hrest⟩ | ⟨cs, rfl, hrest⟩
    · exact hbs cs y post hrest
    · cases cs with
      | nil => exact hbs [] y post hrest.symm
      | cons c cs =>
        obtain ⟨rfl, rfl⟩ := List.cons.inj hrest
        exact has pre y cs rfl

end Trace
