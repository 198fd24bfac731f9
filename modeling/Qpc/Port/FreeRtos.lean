import Qpc.Game.Missile.Dispatch
import Qpc.Qf.Active

/-! # Waking an active object under FreeRTOS

The FreeRTOS port of `ports_rtos.dox` runs each active object in its own task. A post enqueues
the event inside a critical section and then calls `xTaskNotifyGive` on the task; the task,
finding its queue empty, blocks in `ulTaskNotifyTake(pdTRUE, portMAX_DELAY)` and tests its queue
again when woken. Posts interleave with the task between any two of these calls. The
notification value counts, so no wake-up is lost, and the port refines `Qpc.Qf.Active`.
-/

namespace Qpc.Port

open Qep Qf Game

/-- Where the active object's task is: testing its queue in `QActive_get_`, calling (or blocked
in) `ulTaskNotifyTake`, or dispatching the event it took. -/
inductive Pc where
  | get
  | take
  | dispatch
  deriving DecidableEq, Repr

/-- Modelled from the spec: an active object under the FreeRTOS port, with its task's
notification value `notified`, the number `due` of posts that have enqueued their event and not
yet called `xTaskNotifyGive`, and where the task is. -/
structure Task (σ X E : Type) where
  ao : Active σ X E
  notified : Nat
  due : Nat
  pc : Pc

inductive Op (E : Type) where
  | post (e : E)
  | give
  | task
  deriving DecidableEq, Repr

namespace Task

variable {σ X E O : Type} [DecidableEq σ] (H : QHsmDef σ X E O)

def start (a : Active σ X E) : Task σ X E := ⟨a, 0, 0, .get⟩

/-- Modelled from the spec: one step and the actions it emits; `none` when the step cannot be
taken (nothing to give, a task blocked on a zero notification value) or a post overflows. -/
def step (t : Task σ X E) : Op E → Option (Task σ X E × List O)
  | .post e => (t.ao.post e).map fun a => ({ t with ao := a, due := t.due + 1 }, [])
  | .give =>
    if t.due = 0 then none else some ({ t with due := t.due - 1, notified := t.notified + 1 }, [])
  | .task =>
    match t.pc with
    | .get =>
      if t.ao.queue.nUsed = 0 then some ({ t with pc := .take }, [])
      else some ({ t with ao := (t.ao.turn H).1, pc := .dispatch }, (t.ao.turn H).2)
    | .take => if t.notified = 0 then none else some ({ t with notified := 0, pc := .get }, [])
    | .dispatch => some ({ t with pc := .get }, [])

def exec : Task σ X E → List (Op E) → Option (Task σ X E × List O)
  | t, [] => some (t, [])
  | t, op :: ops =>
    (step H t op).bind fun r => (exec r.1 ops).map fun p => (p.1, r.2 ++ p.2)

def posted : List (Op E) → List E
  | [] => []
  | .post e :: ops => e :: posted ops
  | _ :: ops => posted ops

inductive Reachable : Task σ X E → Prop
  | start (a : Active σ X E) : Reachable (start a)
  | step {t t' : Task σ X E} {op : Op E} {out : List O} :
    Reachable t → step H t op = some (t', out) → Reachable t'

theorem step_follows {t t' : Task σ X E} {op : Op E} {out : List O}
    (h : step H t op = some (t', out)) : Active.Follows H t.ao (posted [op]) t'.ao out := by
  cases op with
  | post e =>
    simp only [step, Option.map_eq_some'] at h
    obtain ⟨a, ha, he⟩ := h
    cases he
    exact Active.Follows.post H ha
  | give =>
    simp only [step] at h
    split at h <;> cases h
    exact Active.Follows.refl H t.ao
  | task =>
    simp only [step] at h
    split at h <;> (try split at h) <;> cases h
    · exact Active.Follows.refl H t.ao
    · exact Active.Follows.turn H t.ao
    · exact Active.Follows.refl H t.ao
    · exact Active.Follows.refl H t.ao

/-- The port refines the event loop of `Qpc.Qf.Active`: over every interleaving of posts,
notifications and task steps without an overflow, the state machine has run over a prefix of
the events queued before and posted since, in that order, emitting the actions collected, and
the queue holds the remaining events. -/
theorem exec_refines_active {t t' : Task σ X E} {out : List O} :
    ∀ {ops : List (Op E)}, exec H t ops = some (t', out) →
      ∃ ds, ds ++ t'.ao.queue.toList = t.ao.queue.toList ++ posted ops ∧
        H.run t.ao.hsm ds = (t'.ao.hsm, out)
  | [], h => by cases h; exact Active.Follows.refl H t.ao
  | op :: ops, h => by
    simp only [exec, Option.bind_eq_some, Option.map_eq_some'] at h
    obtain ⟨⟨t₁, o₁⟩, h₁, ⟨t₂, o₂⟩, h, he⟩ := h
    cases he
    have hp : posted (op :: ops) = posted [op] ++ posted ops := by
      cases op <;> rfl
    rw [hp]
    exact Active.Follows.trans H (step_follows H h₁) (exec_refines_active h)

/-- The Missile's task waits on its empty queue, is woken by the Ship's `MISSILE_FIRE` and
dispatches it. -/
theorem exec_refines_active_after_fire :
    let g : Consts := ⟨128, 2, 1, 2, 6⟩
    let q : EQueue Evt := EQueue.init [.timeTick, .timeTick] (by decide)
    let taken : EQueue Evt := ⟨[.missileFire ⟨5, 7⟩, .timeTick], 1, 0, by decide, by decide⟩
    let t : Task Missile.State Missile Evt := start ⟨⟨.armed, Missile.lMissile⟩, q⟩
    let ops : List (Op Evt) := [.task, .post (.missileFire ⟨5, 7⟩), .give, .task, .task]
    exec (Missile.hsm g) t ops = some (⟨⟨⟨.flying, ⟨5, 7, 0⟩⟩, taken⟩, 0, 0, .dispatch⟩, []) ∧
      ∃ ds, ds ++ taken.toList = t.ao.queue.toList ++ posted ops ∧
        (Missile.hsm g).run t.ao.hsm ds = (⟨.flying, ⟨5, 7, 0⟩⟩, []) :=
  have h : exec (Missile.hsm ⟨128, 2, 1, 2, 6⟩)
      (start ⟨⟨.armed, Missile.lMissile⟩, EQueue.init [.timeTick, .timeTick] (by decide)⟩)
      [.task, .post (.missileFire ⟨5, 7⟩), .give, .task, .task] =
      some (⟨⟨⟨.flying, ⟨5, 7, 0⟩⟩,
        ⟨[.missileFire ⟨5, 7⟩, .timeTick], 1, 0, by decide, by decide⟩⟩, 0, 0, .dispatch⟩, []) :=
    rfl
  ⟨h, exec_refines_active (Missile.hsm _) h⟩

/-- The invariant of the protocol: while the task is at `ulTaskNotifyTake`, each queued event
is matched by a notification given or due. -/
def Inv (t : Task σ X E) : Prop := t.pc = .take → t.ao.queue.nUsed ≤ t.notified + t.due

theorem step_inv {t t' : Task σ X E} {op : Op E} {out : List O} (ht : Inv t)
    (h : step H t op = some (t', out)) : Inv t' := by
  intro hp
  cases op with
  | post e =>
    simp only [step, Option.map_eq_some'] at h
    obtain ⟨a, ha, he⟩ := h
    cases he
    dsimp only at hp ⊢
    have := congrArg List.length (Active.post_spec ha).2
    simp only [EQueue.length_toList, List.length_append, List.length_singleton] at this
    have := ht hp
    omega
  | give =>
    simp only [step] at h
    split at h
    · cases h
    · cases h; have := ht hp; dsimp only; omega
  | task =>
    simp only [step] at h
    split at h <;> (try split at h) <;> cases h <;> cases hp
    dsimp only; omega

theorem Reachable.inv {t : Task σ X E} (h : Reachable H t) : Inv t := by
  induction h with
  | start a => intro h; cases h
  | step _ h ih => exact step_inv H ih h

theorem Reachable.blocked {t : Task σ X E} (h : Reachable H t) (hp : t.pc = .take)
    (hn : t.notified = 0) : t.ao.queue.nUsed = 0 ∨ 0 < t.due := by
  have := h.inv H hp
  omega

theorem exec_cons {t t₁ : Task σ X E} {op : Op E} {ops : List (Op E)} {o₁ : List O}
    (h : step H t op = some (t₁, o₁)) :
    exec H t (op :: ops) = (exec H t₁ ops).map fun p => (p.1, o₁ ++ p.2) := by
  simp [exec, h]

theorem exec_get (t : Task σ X E) {e : E} {es : List E} (hp : t.pc = .get)
    (hq : t.ao.queue.toList = e :: es) :
    ∃ t' out, exec H t [.task] = some (t', out) ∧ t'.pc = .dispatch ∧ t'.ao.queue.toList = es ∧
      t'.ao.hsm = (H.dispatch t.ao.hsm e).1 := by
  have hn : t.ao.queue.nUsed ≠ 0 := by
    rw [← EQueue.length_toList, hq]; exact Nat.succ_ne_zero _
  rcases Active.turn_spec H t.ao with ⟨he, -⟩ | ⟨e', he, hm, -⟩
  · simp [he] at hq
  · rw [hq, List.cons.injEq] at he
    obtain ⟨rfl, hes⟩ := he
    exact ⟨{ t with ao := (t.ao.turn H).1, pc := .dispatch }, (t.ao.turn H).2,
      by simp [exec, step, hp, hn], rfl, hes.symm, hm⟩

/-- No wake-up is lost: from every reachable state whose queue holds an event, the gives
already due and the task's own steps, with no further post, bring the task to dispatch its
oldest event, and the rest of the queue is still waiting. -/
theorem reachable_dispatches {t : Task σ X E} (h : Reachable H t) {e : E} {es : List E}
    (hq : t.ao.queue.toList = e :: es) :
    ∃ ops t' out, (∀ op ∈ ops, op = .give ∨ op = .task) ∧ exec H t ops = some (t', out) ∧
      t'.pc = .dispatch ∧ t'.ao.queue.toList = es ∧ t'.ao.hsm = (H.dispatch t.ao.hsm e).1 := by
  obtain ⟨ao, n, d, pc⟩ := t
  cases pc with
  | get =>
    obtain ⟨t', out, hx, hr⟩ := exec_get H ⟨ao, n, d, .get⟩ rfl hq
    exact ⟨[.task], t', out, by simp, hx, hr⟩
  | dispatch =>
    obtain ⟨t', out, hx, hr⟩ := exec_get H ⟨ao, n, d, .get⟩ rfl hq
    refine ⟨[.task, .task], t', out, by simp, ?_, hr⟩
    rw [exec_cons H (rfl : step H ⟨ao, n, d, .dispatch⟩ .task = some (⟨ao, n, d, .get⟩, [])), hx]
    rfl
  | take =>
    by_cases hn : n = 0
    · have hd : d ≠ 0 := by
        rcases h.blocked H rfl hn with h0 | h0
        · rw [← EQueue.length_toList, hq] at h0; cases h0
        · exact Nat.pos_iff_ne_zero.mp h0
      subst hn
      obtain ⟨t', out, hx, hr⟩ := exec_get H ⟨ao, 0, d - 1, .get⟩ rfl hq
      refine ⟨[.give, .task, .task], t', out, by simp, ?_, hr⟩
      rw [exec_cons H (by simp [step, hd] :
          step H ⟨ao, 0, d, .take⟩ .give = some (⟨ao, 1, d - 1, .take⟩, [])),
        exec_cons H (rfl : step H ⟨ao, 1, d - 1, .take⟩ .task = some (⟨ao, 0, d - 1, .get⟩, [])),
        hx]
      rfl
    · obtain ⟨t', out, hx, hr⟩ := exec_get H ⟨ao, 0, d, .get⟩ rfl hq
      refine ⟨[.task, .task], t', out, by simp, ?_, hr⟩
      rw [exec_cons H (by simp [step, hn] :
        step H ⟨ao, n, d, .take⟩ .task = some (⟨ao, 0, d, .get⟩, [])), hx]
      rfl

/-- The Missile's task, blocked on an empty queue when the Ship's `MISSILE_FIRE` is enqueued and
before its notification is given. -/
theorem reachable_dispatches_after_fire :
    let g : Consts := ⟨128, 2, 1, 2, 6⟩
    let fired : EQueue Evt := ⟨[.missileFire ⟨5, 7⟩, .timeTick], 0, 1, by decide, by decide⟩
    let t : Task Missile.State Missile Evt := ⟨⟨⟨.armed, Missile.lMissile⟩, fired⟩, 0, 1, .take⟩
    Reachable (Missile.hsm g) t ∧ t.ao.queue.toList = [.missileFire ⟨5, 7⟩] ∧
      ∃ ops t' out, (∀ op ∈ ops, op = .give ∨ op = .task) ∧
        exec (Missile.hsm g) t ops = some (t', out) ∧ t'.pc = .dispatch ∧
        t'.ao.queue.toList = [] ∧
        t'.ao.hsm = ((Missile.hsm g).dispatch t.ao.hsm (.missileFire ⟨5, 7⟩)).1 :=
  let g : Consts := ⟨128, 2, 1, 2, 6⟩
  let q : EQueue Evt := EQueue.init [.timeTick, .timeTick] (by decide)
  let fired : EQueue Evt := ⟨[.missileFire ⟨5, 7⟩, .timeTick], 0, 1, by decide, by decide⟩
  have h0 : Reachable (Missile.hsm g) ⟨⟨⟨.armed, Missile.lMissile⟩, q⟩, 0, 0, .take⟩ :=
    .step (.start ⟨⟨.armed, Missile.lMissile⟩, q⟩)
      (rfl : step (Missile.hsm g) (start ⟨⟨.armed, Missile.lMissile⟩, q⟩) .task =
        some (⟨⟨⟨.armed, Missile.lMissile⟩, q⟩, 0, 0, .take⟩, []))
  have h1 : Reachable (Missile.hsm g) ⟨⟨⟨.armed, Missile.lMissile⟩, fired⟩, 0, 1, .take⟩ :=
    .step h0 (rfl : step (Missile.hsm g) ⟨⟨⟨.armed, Missile.lMissile⟩, q⟩, 0, 0, .take⟩
      (.post (.missileFire ⟨5, 7⟩)) = some (⟨⟨⟨.armed, Missile.lMissile⟩, fired⟩, 0, 1, .take⟩, []))
  have hq : fired.toList = [.missileFire ⟨5, 7⟩] := by decide
  ⟨h1, hq, reachable_dispatches (Missile.hsm g) h1 hq⟩

end Task

end Qpc.Port
