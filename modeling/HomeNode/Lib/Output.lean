-- SUMMARY: What the steps of a run put out, and the rules for what they pass on in order, keep in a log, or still owe.
import HomeNode.Lib.Trace
import HomeNode.Lib.Transition

/-!
# What a run puts out

A step may take items in and put items out: messages, calls, events. Neither has to be
in the state. The rules here go from one step to whole runs: what is passed on arrives
in order, a log holds what was put out, and what is asked is answered or still owed.
-/

namespace Transition

variable {σ ℓ β γ : Type*} {step : σ → ℓ → Option σ} {s t : σ} {ls : List ℓ}

/-- What the steps of a run put out, one after another. -/
def output (step : σ → ℓ → Option σ) (out : σ → ℓ → List β) : σ → List ℓ → List β
  | _, [] => []
  | s, l :: ls => out s l ++ ((step s l).map fun t => output step out t ls).getD []

variable {out : σ → ℓ → List β}

@[simp] theorem output_nil (s : σ) : output step out s [] = [] := rfl

theorem output_append (hrun : Transition.run step s ls = some t) (ms : List ℓ) :
    output step out s (ls ++ ms) = output step out s ls ++ output step out t ms := by
  induction ls generalizing s with
  | nil =>
    obtain rfl := Option.some.inj hrun
    rfl
  | cons l ls ih =>
    obtain ⟨u, hu, hrest⟩ := Option.bind_eq_some_iff.mp hrun
    simp only [List.cons_append, output, hu, Option.map_some, Option.getD_some, ih hrest,
      List.append_assoc]

theorem output_concat {l : ℓ} (hrun : Transition.run step s ls = some t) :
    output step out s (ls ++ [l]) = output step out s ls ++ out t l := by
  rw [output_append hrun]
  cases hstep : step t l <;> simp [output, hstep]

/-- A step passes items on in order: what waits and what comes in is put out or goes on
waiting. -/
def Relays (step : σ → ℓ → Option σ) (waiting : σ → List β) (input out : σ → ℓ → List β) : Prop :=
  ∀ s l t, step s l = some t → waiting s ++ input s l = out s l ++ waiting t

/-- The relay rule: a run passes on all that comes in, once and in order. -/
theorem Relays.run {waiting : σ → List β} {input : σ → ℓ → List β}
    (h : Relays step waiting input out) (hrun : Transition.run step s ls = some t) :
    waiting s ++ output step input s ls = output step out s ls ++ waiting t := by
  have hall : ∀ ls t, Transition.run step s ls = some t →
      waiting s ++ output step input s ls = output step out s ls ++ waiting t := by
    apply run_induction
    · simp
    · intro ls t l u hls ih hstep
      rw [output_concat hls, output_concat hls, ← List.append_assoc, ih, List.append_assoc,
        List.append_assoc, h t l u hstep]
  exact hall ls t hrun

/-- The log rule: where each step adds what it puts out to a log, the log holds what the run
has put out. -/
theorem log_run (log : σ → List β) (h : ∀ s l t, step s l = some t → log t = log s ++ out s l)
    (hrun : Transition.run step s ls = some t) : log t = log s ++ output step out s ls := by
  have hall : ∀ ls t, Transition.run step s ls = some t →
      log t = log s ++ output step out s ls := by
    apply run_induction
    · simp
    · intro ls t l u hls ih hstep
      rw [h t l u hstep, ih, output_concat hls, List.append_assoc]
  exact hall ls t hrun

/-- What the labels alone bring. -/
theorem output_label {entered : ℓ → List β} (hrun : Transition.run step s ls = some t) :
    output step (fun _ l => entered l) s ls = ls.flatMap entered := by
  have hall : ∀ ls t, Transition.run step s ls = some t →
      output step (fun _ l => entered l) s ls = ls.flatMap entered := by
    apply run_induction
    · rfl
    · intro ls t l u hls ih _
      rw [output_concat hls, ih, List.flatMap_append, List.flatMap_singleton]
  exact hall ls t hrun

/-- What is worked out from the items one by one can be worked out at each step. -/
theorem output_hom {F : List β → List γ} (hnil : F [] = [])
    (happend : ∀ as bs, F (as ++ bs) = F as ++ F bs) (s : σ) (ls : List ℓ) :
    output step (fun s l => F (out s l)) s ls = F (output step out s ls) := by
  induction ls generalizing s with
  | nil => exact hnil.symm
  | cons l ls ih =>
    simp only [output, happend]
    cases step s l with
    | none => simp [hnil]
    | some t => simp [ih]

/-- What brings an item of one kind with it at each step does so in a run. -/
theorem exists_mem_output {out' : σ → ℓ → List γ} {b : β} {Q : γ → Prop}
    (h : ∀ s l, b ∈ out s l → ∃ c ∈ out' s l, Q c) (hmem : b ∈ output step out s ls) :
    ∃ c ∈ output step out' s ls, Q c := by
  induction ls generalizing s with
  | nil => exact absurd hmem List.not_mem_nil
  | cons l ls ih =>
    rcases List.mem_append.mp hmem with hhead | htail
    · obtain ⟨c, hc, hq⟩ := h s l hhead
      exact ⟨c, List.mem_append_left _ hc, hq⟩
    · cases hstep : step s l with
      | none => simp [hstep] at htail
      | some t =>
        obtain ⟨c, hc, hq⟩ := ih (by simpa [hstep] using htail)
        exact ⟨c, List.mem_append_right _ (by simpa [hstep] using hc), hq⟩

/-- The rule of parts: where each step of the whole is some steps of a part, a run of the whole
is a run of the part. -/
theorem part_run {σ' ℓ' : Type*} {step' : σ' → ℓ' → Option σ'} (part : σ → σ')
    {label : σ → ℓ → List ℓ'}
    (h : ∀ s l t, step s l = some t → Transition.run step' (part s) (label s l) = some (part t))
    (hrun : Transition.run step s ls = some t) :
    Transition.run step' (part s) (output step label s ls) = some (part t) := by
  have hall : ∀ ls t, Transition.run step s ls = some t →
      Transition.run step' (part s) (output step label s ls) = some (part t) := by
    apply run_induction
    · rfl
    · intro ls t l u hls ih hstep
      rw [output_concat hls, run_append, ih]
      exact h t l u hstep
  exact hall ls t hrun

/-- The rule of debts: where an item that asks leaves a debt, and a debt stays until an answer is
put out, each item that asks was answered later or there is a debt in the end. -/
theorem owed_run (Owed : σ → Prop) {Inv : σ → Prop} {Asks Answers : β → Prop}
    (hinv : Preserved step Inv)
    (hasks : ∀ s l t, Inv s → step s l = some t →
      Trace.Future (fun b post => Asks b → Owed t ∨ ∃ a ∈ post, Answers a) (out s l))
    (hkeeps : ∀ s l t, Inv s → step s l = some t → Owed s → Owed t ∨ ∃ a ∈ out s l, Answers a)
    (hs : Inv s) (hrun : Transition.run step s ls = some t) :
    Trace.Future (fun b post => Asks b → Owed t ∨ ∃ a ∈ post, Answers a)
      (output step out s ls) := by
  have hall : ∀ ls t, Transition.run step s ls = some t →
      Trace.Future (fun b post => Asks b → Owed t ∨ ∃ a ∈ post, Answers a)
        (output step out s ls) := by
    apply run_induction
    · exact Trace.Future.nil
    · intro ls t l u hls ih hstep
      have ht : Inv t := hinv.run hs hls
      rw [output_concat hls]
      refine Trace.future_append.mpr ⟨ih.mono ?_, hasks t l u ht hstep⟩
      intro b post h hb
      rcases h hb with howed | ⟨a, ha, hanswers⟩
      · rcases hkeeps t l u ht hstep howed with howed | ⟨a, ha, hanswers⟩
        · exact .inl howed
        · exact .inr ⟨a, List.mem_append_right _ ha, hanswers⟩
      · exact .inr ⟨a, List.mem_append_left _ ha, hanswers⟩
  exact hall ls t hrun

end Transition
