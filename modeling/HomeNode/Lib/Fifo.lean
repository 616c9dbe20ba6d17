-- SUMMARY: Bounded first-in first-out queues, and the rule that carries what is conserved by each step to whole runs.
import HomeNode.Lib.Output
import Mathlib.Data.List.Basic

/-!
# Bounded queues

A `Fifo` cannot hold more than its capacity: a full one refuses what is sent to it.
Where items go through several queues, the ones that have left the last queue and
the ones on their way make up what has entered, in its order.
-/

/-- A queue of at most `cap` items, the oldest first. -/
structure Fifo (cap : Nat) (α : Type*) where
  items : List α
  bounded : items.length ≤ cap

namespace Fifo

variable {α : Type*} {cap : Nat} {q q' : Fifo cap α} {a : α}

def empty : Fifo cap α := ⟨[], cap.zero_le⟩

@[simp] theorem items_empty : (empty : Fifo cap α).items = [] := rfl

theorem length_concat_le {l : List α} (h : l.length < cap) (a : α) : (l ++ [a]).length ≤ cap := by
  rw [List.length_append, List.length_singleton]
  omega

/-- Add an item behind the others, unless the queue is full. -/
def send (q : Fifo cap α) (a : α) : Option (Fifo cap α) :=
  if h : q.items.length < cap then some ⟨q.items ++ [a], length_concat_le h a⟩ else none

theorem tail_length_le {l : List α} (h : l.length ≤ cap) : l.tail.length ≤ cap := by
  rw [List.length_tail]
  omega

/-- Take the oldest item. -/
def receive (q : Fifo cap α) : Option (α × Fifo cap α) :=
  q.items.head?.map fun a => (a, ⟨q.items.tail, tail_length_le q.bounded⟩)

theorem send_eq_some (h : q.send a = some q') : q'.items = q.items ++ [a] := by
  unfold send at h
  split_ifs at h
  rw [← Option.some.inj h]

theorem send_eq_none_iff : q.send a = none ↔ q.items.length = cap := by
  have := q.bounded
  unfold send
  split_ifs
  · simp only [false_iff]
    omega
  · simp only [true_iff]
    omega

theorem receive_eq_some (h : q.receive = some (a, q')) : q.items = a :: q'.items := by
  obtain ⟨b, hhead, heq⟩ := Option.map_eq_some_iff.mp h
  obtain ⟨rfl, rfl⟩ := Prod.mk.inj heq
  exact List.eq_cons_of_mem_head? hhead

theorem receive_eq_none_iff : q.receive = none ↔ q.items = [] := by
  simp [receive]

end Fifo

namespace Transition

variable {σ ℓ β : Type*} {step : σ → ℓ → Option σ}

/-- A step loses nothing and keeps the order: what has left and what is on its way grow by
what enters. -/
def Conveys (step : σ → ℓ → Option σ) (left pending : σ → List β) (entered : ℓ → List β) : Prop :=
  ∀ s l t, step s l = some t → left s ++ pending s ++ entered l = left t ++ pending t

variable {left pending : σ → List β} {entered : ℓ → List β} {s t : σ} {ls : List ℓ}

/-- The conservation rule: over a run, what has entered has left or is on its way. -/
theorem Conveys.run (h : Conveys step left pending entered)
    (hrun : Transition.run step s ls = some t) :
    left s ++ pending s ++ ls.flatMap entered = left t ++ pending t := by
  have hstep : ∀ s l t, step s l = some t →
      left t ++ pending t = left s ++ pending s ++ (fun (_ : σ) l => entered l) s l :=
    fun s l t hstep => (h s l t hstep).symm
  have hlog := log_run (fun s => left s ++ pending s) hstep hrun
  rw [output_label hrun] at hlog
  exact hlog.symm

end Transition
