import Qpc.Game.Missile.Dispatch

/-! # What the Missile sends

Whatever events reach it and in whatever state, the Missile only posts images to the Tunnel
and passes mine hits on to the Ship, and it posts at most one event for each time tick or
mine hit it receives. Its only subscription is made by the initial transition.
-/

namespace Qpc.Game.Missile

open Qep

variable {g : Consts}

/-- What the Missile may send once initialised: an image to the Tunnel, or a mine hit passed
on to the Ship. -/
def Sent : Action → Prop
  | .post .tunnel (.missileImg _) => True
  | .post .tunnel (.explosion _) => True
  | .post .ship .destroyedMine => True
  | _ => False

theorem step_sent (m : QHsm State Missile) (e : Evt) : ∀ a ∈ (step g m e).2, Sent a := by
  obtain ⟨s, me⟩ := m
  cases s <;> cases e <;> simp only [step] <;> (try split_ifs) <;> simp [Sent]

theorem step_length (m : QHsm State Missile) (e : Evt) :
    (step g m e).2.length ≤ [e].count .timeTick + [e].count .destroyedMine := by
  obtain ⟨s, me⟩ := m
  cases s <;> cases e <;> simp only [step] <;> (try split_ifs) <;> simp

theorem step_length_le_one (m : QHsm State Missile) (e : Evt) : (step g m e).2.length ≤ 1 :=
  (step_length m e).trans (by cases e <;> simp)

/-- Over every run, from every configuration, each action is an image to the Tunnel or a
mine hit passed on to the Ship. -/
theorem run_sent (m : QHsm State Missile) (es : List Evt) :
    ∀ a ∈ ((hsm g).run m es).2, Sent a := by
  induction es generalizing m with
  | nil => simp
  | cons e es ih =>
    rw [QHsmDef.run_cons, dispatch_eq_step]
    intro a ha
    rcases List.mem_append.mp ha with ha | ha
    · exact step_sent m e a ha
    · exact ih _ a ha

/-- A flight step and a mine hit pass on an image and the mine hit. -/
theorem run_sent_flying :
    let g : Consts := ⟨128, 2, 1, 2, 6⟩
    let r := (hsm g).run ⟨.flying, lMissile⟩ [.timeTick, .other 7, .destroyedMine]
    r.2.length = 2 ∧ ∀ a ∈ r.2, Sent a :=
  ⟨by decide, run_sent _ _⟩

/-- Over every run, the Missile posts at most one event per time tick or mine hit. -/
theorem run_posts_le (m : QHsm State Missile) (es : List Evt) :
    ((hsm g).run m es).2.length ≤ es.count .timeTick + es.count .destroyedMine := by
  induction es generalizing m with
  | nil => simp
  | cons e es ih =>
    rw [QHsmDef.run_cons, dispatch_eq_step, List.length_append]
    have h1 := step_length (g := g) m e
    have h2 := ih (step g m e).1
    simp only [List.count_cons, List.count_nil] at h1 ⊢
    omega

end Qpc.Game.Missile
