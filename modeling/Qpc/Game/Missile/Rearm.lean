import Qpc.Game.Missile.Dispatch

/-! # The Missile always rearms

Without a new `MISSILE_FIRE`, time ticks bring the Missile back to `armed` from any
configuration: a flight gains at least a pixel per tick inside a tunnel no wider than the
`uint8_t` position can hold, and an explosion lasts at most 16 ticks. The measure
`ticksToArm` falls on every tick and never rises on other events.
-/

namespace Qpc.Game.Missile

open Qep

variable (g : Consts)

/-- Ticks the Missile may still spend away from `armed`: the rest of the tunnel for a
flight, which a wall hit can turn into a 16-tick explosion. -/
def ticksToArm : QHsm State Missile → Nat
  | ⟨.armed, _⟩ => 0
  | ⟨.flying, me⟩ => g.gameTunnelWidth - me.x.toNat + 16
  | ⟨.exploding, me⟩ => 16 - min me.expCtr.toNat 15

theorem state_eq_armed_of_ticksToArm_eq_zero {m : QHsm State Missile} (h : ticksToArm g m = 0) :
    m.state = .armed := by
  obtain ⟨s, me⟩ := m
  cases s <;> simp_all [ticksToArm]; omega

theorem ticksToArm_le (m : QHsm State Missile) : ticksToArm g m ≤ g.gameTunnelWidth + 16 := by
  obtain ⟨s, me⟩ := m
  cases s <;> simp [ticksToArm]; omega

variable {g}

/-- Without a `MISSILE_FIRE`, an armed Missile stays as it is. -/
theorem step_armed (me : Missile) {e : Evt} (he : e.sig ≠ .missileFire) :
    step g ⟨.armed, me⟩ e = (⟨.armed, me⟩, []) := by
  cases e <;> simp_all [step, Evt.sig]

theorem run_armed (me : Missile) {es : List Evt} (hes : ∀ e ∈ es, e.sig ≠ .missileFire) :
    (hsm g).run ⟨.armed, me⟩ es = (⟨.armed, me⟩, []) := by
  induction es with
  | nil => rfl
  | cons e es ih =>
    rw [QHsmDef.run_cons, dispatch_eq_step, step_armed me (hes e (.head _)),
      ih (fun e' he' => hes e' (.tail _ he'))]
    rfl

/-- A dispatch other than `MISSILE_FIRE` rearms the Missile or lowers `ticksToArm`, by one
at least on a tick. -/
theorem step_ticksToArm (hS : 1 ≤ g.gameMissileSpeedX) (hW : g.gameTunnelWidth ≤ 256)
    (m : QHsm State Missile) {e : Evt} (he : e.sig ≠ .missileFire) :
    (step g m e).1.state = .armed ∨
      ticksToArm g (step g m e).1 + [e].count .timeTick ≤ ticksToArm g m := by
  obtain ⟨s, me⟩ := m
  cases s <;> cases e <;> simp only [step] <;> (try split_ifs) <;> simp_all [ticksToArm, Evt.sig] <;>
    omega

theorem run_rearms (hS : 1 ≤ g.gameMissileSpeedX) (hW : g.gameTunnelWidth ≤ 256)
    (m : QHsm State Missile) (es : List Evt) (hes : ∀ e ∈ es, e.sig ≠ .missileFire)
    (hk : ticksToArm g m ≤ es.count .timeTick) : ((hsm g).run m es).1.state = .armed := by
  induction es generalizing m with
  | nil => exact state_eq_armed_of_ticksToArm_eq_zero g (by simpa using hk)
  | cons e es ih =>
    have hes' : ∀ e' ∈ es, e'.sig ≠ .missileFire := fun e' he' => hes e' (.tail _ he')
    rw [QHsmDef.run_cons, dispatch_eq_step]
    rcases step_ticksToArm hS hW m (hes e (.head _)) with h | h
    · generalize step g m e = r at h ⊢
      obtain ⟨⟨s, me⟩, out⟩ := r
      cases h
      rw [run_armed me hes']
    · refine ih _ hes' ?_
      simp only [List.count_cons, List.count_nil] at h hk
      omega

/-- From any configuration, events without a `MISSILE_FIRE` that include
`GAME_TUNNEL_WIDTH + 16` time ticks leave the Missile armed. -/
theorem rearmed_after_ticks (hS : 1 ≤ g.gameMissileSpeedX) (hW : g.gameTunnelWidth ≤ 256)
    (m : QHsm State Missile) (es : List Evt) (hes : ∀ e ∈ es, e.sig ≠ .missileFire)
    (hk : g.gameTunnelWidth + 16 ≤ es.count .timeTick) : ((hsm g).run m es).1.state = .armed :=
  run_rearms hS hW m es hes (le_trans (ticksToArm_le g m) hk)

/-- Twenty ticks, with a wall hit among them, rearm a Missile flying in a 4-pixel tunnel. -/
theorem rearmed_after_wall_hit :
    let g : Consts := ⟨4, 1, 1, 2, 6⟩
    let es := .hitWall :: List.replicate 20 Evt.timeTick
    1 ≤ g.gameMissileSpeedX ∧ g.gameTunnelWidth ≤ 256 ∧ (∀ e ∈ es, e.sig ≠ .missileFire) ∧
      g.gameTunnelWidth + 16 ≤ es.count .timeTick ∧
      ((hsm g).run ⟨.flying, lMissile⟩ es).1.state = .armed :=
  ⟨by decide, by decide, by decide, by decide,
    rearmed_after_ticks (by decide) (by decide) _ _ (by decide) (by decide)⟩

end Qpc.Game.Missile
