import Qpc.Qep.Dispatch
import Qpc.Qf.EQueue

/-! # An active object and its thread

Modelled from the spec (§4.4): an active object owns a state machine and an event queue, and
its thread loops forever taking the oldest event from the queue and dispatching it to
completion; with an empty queue it waits. `QACTIVE_POST` without a margin treats a full queue
as fatal (§7), so a post either enqueues the event or stops the system.

`Follows` records what posts and turns do to the object: the machine has processed a prefix of
the queued and posted events, in order, and the queue holds the rest. A post and a turn each
give it, and it composes, so every interleaving of them does.
-/

namespace Qpc.Qf

open Qep

/-- Modelled from the spec: an active object, the `QActive` of `qf.h`: its state machine and
its event queue. -/
structure Active (σ X E : Type) where
  hsm : QHsm σ X
  queue : EQueue E

namespace Active

variable {σ X E O : Type} [DecidableEq σ] (H : QHsmDef σ X E O)

/-- Modelled from the spec: `QACTIVE_POST` with no margin. `none` is the assertion that a full
queue trips. -/
def post (a : Active σ X E) (e : E) : Option (Active σ X E) :=
  (a.queue.post e).map fun q => { a with queue := q }

/-- Modelled from the spec: one turn of the thread's event loop, `QActive_get_` followed by
`QHSM_DISPATCH`. An empty queue leaves the thread waiting. Returns the actions of the
dispatch. -/
def turn (a : Active σ X E) : Active σ X E × List O :=
  match a.queue.get with
  | none => (a, [])
  | some (e, q) => ((⟨(H.dispatch a.hsm e).1, q⟩ : Active σ X E), (H.dispatch a.hsm e).2)

omit [DecidableEq σ] in
theorem post_spec {a a' : Active σ X E} {e : E} (h : a.post e = some a') :
    a'.hsm = a.hsm ∧ a'.queue.toList = a.queue.toList ++ [e] := by
  unfold post at h
  cases hq : a.queue.post e with
  | none => simp [hq] at h
  | some q =>
    simp only [hq, Option.map_some', Option.some.injEq] at h
    subst h
    exact ⟨rfl, EQueue.toList_post hq⟩

/-- A turn dispatches the oldest queued event, or waits on an empty queue. -/
theorem turn_spec (a : Active σ X E) :
    (a.queue.toList = [] ∧ a.turn H = (a, [])) ∨
      ∃ e, a.queue.toList = e :: (a.turn H).1.queue.toList ∧
        (a.turn H).1.hsm = (H.dispatch a.hsm e).1 ∧ (a.turn H).2 = (H.dispatch a.hsm e).2 := by
  unfold turn
  cases hq : a.queue.get with
  | none => exact .inl ⟨EQueue.get_eq_none.mp hq, rfl⟩
  | some p => exact .inr ⟨p.1, EQueue.toList_get hq, rfl, rfl⟩

/-- `a'` is `a` after the events `es` were posted to it and its machine processed some of the
queued and posted events, in order, emitting `out`; the queue holds the rest. -/
def Follows (a : Active σ X E) (es : List E) (a' : Active σ X E) (out : List O) : Prop :=
  ∃ ds, ds ++ a'.queue.toList = a.queue.toList ++ es ∧ H.run a.hsm ds = (a'.hsm, out)

theorem Follows.refl (a : Active σ X E) : Follows H a [] a [] := ⟨[], by simp, rfl⟩

theorem Follows.post {a a' : Active σ X E} {e : E} (h : a.post e = some a') :
    Follows H a [e] a' [] :=
  have ⟨hm, hq⟩ := post_spec h
  ⟨[], by simp [hq], by rw [hm]; rfl⟩

theorem Follows.turn (a : Active σ X E) : Follows H a [] (a.turn H).1 (a.turn H).2 := by
  rcases turn_spec H a with ⟨-, ht⟩ | ⟨e, hq, hm, hout⟩
  · rw [ht]; exact Follows.refl H a
  · exact ⟨[e], by simp [hq], by rw [QHsmDef.run_cons, ← hm, QHsmDef.run_nil, hout, List.append_nil]⟩

theorem Follows.trans {a a₁ a₂ : Active σ X E} {es fs : List E} {o₁ o₂ : List O}
    (h₁ : Follows H a es a₁ o₁) (h₂ : Follows H a₁ fs a₂ o₂) : Follows H a (es ++ fs) a₂ (o₁ ++ o₂) :=
  have ⟨ds₁, hq₁, hr₁⟩ := h₁
  have ⟨ds₂, hq₂, hr₂⟩ := h₂
  ⟨ds₁ ++ ds₂, by rw [List.append_assoc, hq₂, ← List.append_assoc, hq₁, List.append_assoc],
    by rw [QHsmDef.run_append, hr₁, hr₂]⟩

end Active

end Qpc.Qf
