-- SUMMARY: Labelled step functions, their runs, and the induction rules that lift a fact about one step to whole runs.
import Mathlib.Data.List.Induction
import Mathlib.Order.WellFounded
import Mathlib.Tactic.Common

/-!
# Runs of a step function

A system is a function `step : σ → ℓ → Option σ`: the action `l` is enabled in
`s` when `step s l` is a state. The label carries whatever the system does not
decide itself (which task moves, what a call returns), so a run is a list of
labels and every interleaving is such a list.
-/

namespace Transition

variable {σ ℓ : Type*} {step : σ → ℓ → Option σ}

/-- Execute the actions `ls` from `s`. Undefined when one of them is not enabled. -/
def run (step : σ → ℓ → Option σ) : σ → List ℓ → Option σ
  | s, [] => some s
  | s, l :: ls => (step s l).bind fun s' => run step s' ls

@[simp] theorem run_nil (s : σ) : run step s [] = some s := rfl

@[simp] theorem run_cons (s : σ) (l : ℓ) (ls : List ℓ) :
    run step s (l :: ls) = (step s l).bind fun s' => run step s' ls := rfl

theorem run_append (s : σ) (ls ms : List ℓ) :
    run step s (ls ++ ms) = (run step s ls).bind fun s' => run step s' ms := by
  induction ls generalizing s with
  | nil => rfl
  | cons l ls ih =>
    cases h : step s l with
    | none => simp [h]
    | some s' => simpa [h] using ih s'

theorem run_concat {s t : σ} {ls : List ℓ} {l : ℓ} :
    run step s (ls ++ [l]) = some t ↔ ∃ u, run step s ls = some u ∧ step u l = some t := by
  rw [run_append]
  cases run step s ls <;> simp

theorem run_prefix {s t : σ} {ls ms : List ℓ} (h : run step s ls = some t) (hpre : ms <+: ls) :
    ∃ u, run step s ms = some u := by
  obtain ⟨rest, rfl⟩ := hpre
  rw [run_append] at h
  obtain ⟨u, hu, -⟩ := Option.bind_eq_some_iff.mp h
  exact ⟨u, hu⟩

/-- A property of states that every step keeps. -/
def Preserved (step : σ → ℓ → Option σ) (P : σ → Prop) : Prop :=
  ∀ s l s', P s → step s l = some s' → P s'

/-- The invariant rule: what holds at the start and is preserved holds wherever a
run ends. -/
theorem Preserved.run {P : σ → Prop} (hP : Preserved step P) {s t : σ} {ls : List ℓ}
    (hs : P s) (h : Transition.run step s ls = some t) : P t := by
  induction ls generalizing s with
  | nil => simpa [← Option.some.inj h] using hs
  | cons l ls ih =>
    obtain ⟨u, hu, hrest⟩ := Option.bind_eq_some_iff.mp h
    exact ih (hP s l u hs hu) hrest

/-- Induction over a run with the labels taken so far, for invariants that speak
about the history. -/
theorem run_induction {P : List ℓ → σ → Prop} {s : σ} (hnil : P [] s)
    (hstep : ∀ ls t l u, run step s ls = some t → P ls t → step t l = some u → P (ls ++ [l]) u) :
    ∀ ls t, run step s ls = some t → P ls t := by
  intro ls
  induction ls using List.reverseRecOn with
  | nil => rintro t ht; simpa [← Option.some.inj ht] using hnil
  | append_singleton ls l ih =>
    intro t ht
    obtain ⟨u, hu, hl⟩ := run_concat.mp ht
    exact hstep ls u l t hu (ih u hu) hl

/-- The loop rule: where an invariant enables each action that comes next and is kept by it,
the whole run goes through and keeps it. -/
theorem run_total {P : List ℓ → σ → Prop} {s : σ} {ls : List ℓ} (hnil : P [] s)
    (hstep : ∀ pre l t, pre ++ [l] <+: ls → P pre t → ∃ u, step t l = some u ∧ P (pre ++ [l]) u) :
    ∃ t, run step s ls = some t ∧ P ls t := by
  induction ls using List.reverseRecOn with
  | nil => exact ⟨s, rfl, hnil⟩
  | append_singleton ls l ih =>
    obtain ⟨t, ht, hP⟩ := ih fun pre m t hpre =>
      hstep pre m t (hpre.trans (List.prefix_append ls [l]))
    obtain ⟨u, hu, hPu⟩ := hstep ls l t List.prefix_rfl hP
    exact ⟨u, run_concat.mpr ⟨t, ht, hu⟩, hPu⟩

/-- Every action `l` of the run `ls` from `s` is taken in a state `u` with `Ok u l`. -/
def Throughout (step : σ → ℓ → Option σ) (Ok : σ → ℓ → Prop) (s : σ) (ls : List ℓ) : Prop :=
  ∀ pre l u, pre ++ [l] <+: ls → run step s pre = some u → Ok u l

theorem throughout_concat {Ok : σ → ℓ → Prop} {s u : σ} {ls : List ℓ} {l : ℓ}
    (hrun : run step s ls = some u) :
    Throughout step Ok s (ls ++ [l]) ↔ Throughout step Ok s ls ∧ Ok u l := by
  constructor
  · intro h
    exact ⟨fun pre m v hpre => h pre m v (hpre.trans (List.prefix_append ls [l])),
      h ls l u (List.prefix_refl _) hrun⟩
  · rintro ⟨h, hl⟩ pre m v hpre hv
    rcases List.prefix_concat_iff.mp hpre with heq | hpre
    · obtain ⟨rfl, hm⟩ := List.append_inj' heq rfl
      obtain rfl : m = l := by simpa using hm
      obtain rfl : v = u := Option.some.inj (hv.symm.trans hrun)
      exact hl
    · exact h pre m v hpre hv

theorem Throughout.initial {Ok : σ → ℓ → Prop} {s : σ} {ls ms : List ℓ}
    (h : Throughout step Ok s ls) (hpre : ms <+: ls) : Throughout step Ok s ms :=
  fun pre l u hl hu => h pre l u (hl.trans hpre) hu

theorem Throughout.nil {Ok : σ → ℓ → Prop} {s : σ} : Throughout step Ok s [] := by
  intro pre l u hpre
  simp at hpre

theorem throughout_cons {Ok : σ → ℓ → Prop} {s : σ} {ls : List ℓ} {l : ℓ} :
    Throughout step Ok s (l :: ls) ↔ Ok s l ∧ ∀ t, step s l = some t → Throughout step Ok t ls := by
  constructor
  · intro h
    refine ⟨h [] l s (by simp) rfl, fun t ht pre m u hpre hu => ?_⟩
    apply h (l :: pre) m u (by simpa using hpre)
    rw [run_cons, ht]
    exact hu
  · rintro ⟨hl, hrest⟩ pre m u hpre hu
    cases pre with
    | nil =>
      obtain ⟨rfl, -⟩ := List.cons_prefix_cons.mp hpre
      obtain rfl := Option.some.inj hu
      exact hl
    | cons n pre =>
      obtain ⟨rfl, htail⟩ := List.cons_prefix_cons.mp hpre
      obtain ⟨t, ht, hu⟩ := Option.bind_eq_some_iff.mp hu
      exact hrest t ht pre m u htail hu

/-- What a step keeps under `Ok` holds in every state of a run that meets `Ok`. -/
theorem Throughout.run {Ok : σ → ℓ → Prop} {P : σ → Prop}
    (hP : ∀ s l s', P s → Ok s l → step s l = some s' → P s') {s : σ} {ls : List ℓ}
    (h : Throughout step Ok s ls) (hs : P s) {pre : List ℓ} {u : σ} (hpre : pre <+: ls)
    (hu : Transition.run step s pre = some u) : P u := by
  suffices hall : ∀ pre u, Transition.run step s pre = some u → pre <+: ls → P u from
    hall pre u hu hpre
  refine run_induction (fun _ => hs) ?_
  intro ms t l u ht ih hl hpre
  have hms : ms <+: ls := (List.prefix_append ms [l]).trans hpre
  exact hP t l u (ih hms) (h ms l t hpre ht) hl

/-- A run goes through when `Ok` enables each of its actions. -/
theorem Throughout.run_isSome {Ok : σ → ℓ → Prop}
    (henabled : ∀ s l, Ok s l → (step s l).isSome = true) {s : σ} {ls : List ℓ}
    (h : Throughout step Ok s ls) : (Transition.run step s ls).isSome = true := by
  induction ls generalizing s with
  | nil => rfl
  | cons l ls ih =>
    obtain ⟨hl, hrest⟩ := throughout_cons.mp h
    obtain ⟨t, ht⟩ := Option.isSome_iff_exists.mp (henabled s l hl)
    simpa [ht] using ih (hrest t ht)

theorem throughout_and {Ok Ok' : σ → ℓ → Prop} {s : σ} {ls : List ℓ} :
    Throughout step (fun s l => Ok s l ∧ Ok' s l) s ls ↔
      Throughout step Ok s ls ∧ Throughout step Ok' s ls := by
  constructor
  · intro h
    exact ⟨fun pre l u hpre hu => (h pre l u hpre hu).1,
      fun pre l u hpre hu => (h pre l u hpre hu).2⟩
  · rintro ⟨h, h'⟩ pre l u hpre hu
    exact ⟨h pre l u hpre hu, h' pre l u hpre hu⟩

/-- Conditions that agree wherever the run comes to. -/
theorem throughout_congr {Ok Ok' : σ → ℓ → Prop} {s : σ} {ls : List ℓ}
    (h : ∀ pre l u, pre ++ [l] <+: ls → run step s pre = some u → (Ok u l ↔ Ok' u l)) :
    Throughout step Ok s ls ↔ Throughout step Ok' s ls := by
  constructor
  · exact fun hok pre l u hpre hu => (h pre l u hpre hu).mp (hok pre l u hpre hu)
  · exact fun hok pre l u hpre hu => (h pre l u hpre hu).mpr (hok pre l u hpre hu)

instance decidableThroughout {Ok : σ → ℓ → Prop} [∀ s l, Decidable (Ok s l)] :
    (s : σ) → (ls : List ℓ) → Decidable (Throughout step Ok s ls)
  | _, [] => .isTrue .nil
  | s, l :: ls =>
    match h : step s l with
    | none => decidable_of_iff (Ok s l) (by simp [throughout_cons, h])
    | some t =>
      have : Decidable (Throughout step Ok t ls) := decidableThroughout t ls
      decidable_of_iff (Ok s l ∧ Throughout step Ok t ls) (by simp [throughout_cons, h])

/-- The exactness rule: when each step keeps `Good` exactly under `Ok`, a run
ends in a good state exactly when `Ok` held at all of its steps. -/
theorem good_iff_throughout {Inv Good : σ → Prop} {Ok : σ → ℓ → Prop}
    (hinv : Preserved step Inv)
    (hgood : ∀ s l t, Inv s → step s l = some t → (Good t ↔ Good s ∧ Ok s l))
    {s t : σ} {ls : List ℓ} (hs : Inv s) (hstart : Good s) (hrun : run step s ls = some t) :
    Good t ↔ Throughout step Ok s ls := by
  have hboth : ∀ ls t, run step s ls = some t → Inv t ∧ (Good t ↔ Throughout step Ok s ls) := by
    refine run_induction ⟨hs, ?_⟩ ?_
    · exact ⟨fun _ pre l u hpre => by simp at hpre, fun _ => hstart⟩
    · rintro ls t l u hls ⟨ht, hiff⟩ hl
      refine ⟨hinv t l u ht hl, ?_⟩
      rw [hgood t l u ht hl, hiff, throughout_concat hls]
  exact (hboth ls t hrun).2

/-! ## Infinite inputs -/

/-- The first `n` elements of an infinite sequence. -/
def first (f : Nat → ℓ) (n : Nat) : List ℓ := (List.range n).map f

theorem first_succ (f : Nat → ℓ) (n : Nat) : first f (n + 1) = first f n ++ [f n] := by
  simp [first, List.range_succ]

theorem mem_first {f : Nat → ℓ} {n : Nat} {l : ℓ} : l ∈ first f n ↔ ∃ m < n, f m = l := by
  simp [first]

/-- The stream rule: when the state behind the first `n` inputs satisfies `Inv n`, and
the next input is refused there exactly if `Stop n`, the inputs are consumed up to the
first one with `Stop`. -/
theorem run_first_eq_none_iff {Inv : Nat → σ → Prop} {Stop : Nat → Prop} {f : Nat → ℓ} {s : σ}
    (hs : Inv 0 s) (hstop : ∀ n t, Inv n t → (step t (f n) = none ↔ Stop n))
    (hstep : ∀ n t u, Inv n t → step t (f n) = some u → Inv (n + 1) u) (n : Nat) :
    run step s (first f n) = none ↔ ∃ m < n, Stop m := by
  have hboth : (∃ t, run step s (first f n) = some t ∧ Inv n t ∧ ∀ m < n, ¬ Stop m) ∨
      (run step s (first f n) = none ∧ ∃ m < n, Stop m) := by
    induction n with
    | zero => exact .inl ⟨s, rfl, hs, by simp⟩
    | succ n ih =>
      rw [first_succ, run_append]
      rcases ih with ⟨t, ht, hinv, hgo⟩ | ⟨hnone, m, hm, hm'⟩
      · cases hnext : step t (f n) with
        | none => exact .inr ⟨by simp [ht, hnext], n, n.lt_succ_self, (hstop n t hinv).mp hnext⟩
        | some u =>
          refine .inl ⟨u, by simp [ht, hnext], hstep n t u hinv hnext, fun m hm => ?_⟩
          rcases Nat.lt_succ_iff_lt_or_eq.mp hm with hm | rfl
          · exact hgo m hm
          · exact fun h => by simp [(hstop m t hinv).mpr h] at hnext
      · exact .inr ⟨by simp [hnone], m, by omega, hm'⟩
  rcases hboth with ⟨t, ht, -, hgo⟩ | ⟨hnone, hex⟩
  · simp only [ht, reduceCtorEq, false_iff]
    rintro ⟨m, hm, h⟩
    exact hgo m hm h
  · simp only [hnone, true_iff]
    exact hex

/-! ## Termination -/

/-- No run over the actions in `L` goes on for ever from `s`. -/
def Ends (step : σ → ℓ → Option σ) (L : ℓ → Prop) (s : σ) : Prop :=
  Acc (fun t s => ∃ l, L l ∧ step s l = some t) s

/-- The termination rule: a measure falls at each action. -/
theorem Ends.of_measure {α : Type*} [Preorder α] [WellFoundedLT α] {L : ℓ → Prop} (μ : σ → α)
    (hfall : ∀ s l t, L l → step s l = some t → μ t < μ s) (s : σ) : Ends step L s := by
  have hsub : Subrelation (fun t s => ∃ l, L l ∧ step s l = some t) (InvImage (· < ·) μ) := by
    rintro t s ⟨l, hl, hstep⟩
    exact hfall s l t hl hstep
  exact (hsub.wf (InvImage.wf μ wellFounded_lt)).apply s

end Transition
