import Qpc.Game.Missile.Model

/-! # One dispatch of the Missile

What `QHsm_dispatch` does to the Missile in each state, one lemma per handler branch. No
Missile state has an exit action or an initial transition, so a transition is the source
handler's action followed by the target's entry action; only `exploding` has one.
-/

namespace Qpc.Game.Missile

open Qep

variable (g : Consts) (me : Missile)

@[simp] theorem handler_exit (s : State) : handler g s .exit me = ⟨.super, me, []⟩ := by
  cases s <;> rfl

@[simp] theorem handler_init (s : State) : handler g s .init me = ⟨.super, me, []⟩ := by
  cases s <;> rfl

@[simp] theorem drill_hsm (n : Nat) (t : State) : (hsm g).drill n t me = (t, me, []) := by
  cases n <;> simp [QHsmDef.drill]

/-- A dispatch runs the current state's handler and, on a transition, the target's entry
action. -/
theorem dispatch_eq (m : QHsm State Missile) (e : Evt) :
    (hsm g).dispatch m e =
      let r := handler g m.state (.user e) m.me
      match r.status with
      | .tran t => (⟨t, (handler g t .entry r.me).me⟩, r.out ++ (handler g t .entry r.me).out)
      | _ => (⟨m.state, r.me⟩, r.out) := by
  rw [QHsmDef.dispatch_of_flat _ (hsm_flat g)]
  cases h : (handler g m.state (.user e) m.me).status <;> simp [h]

/-- `QHsm_init` of `l_missile` arms it and subscribes it to the time tick. -/
theorem init_lMissile :
    (hsm g).init lMissile = some (⟨.armed, lMissile⟩, [.subscribe .timeTick]) := by
  simp [QHsmDef.init, QHsmDef.trig, initial, handler, armed, StateTree.path_of_flat _ (hsm_flat g)]

/-- One dispatch of the Missile, read off its handlers: the flat transition function that
`QHsm_dispatch` computes for it. -/
def step : QHsm State Missile → Evt → QHsm State Missile × List Action
  | ⟨.armed, me⟩, .missileFire pos => (⟨.flying, { me with x := pos.x, y := pos.y }⟩, [])
  | ⟨.flying, me⟩, .timeTick =>
    if me.x.toNat + g.gameMissileSpeedX < g.gameTunnelWidth then
      (⟨.flying, { me with x := me.x + BitVec.ofNat 8 g.gameMissileSpeedX }⟩,
        [.post .tunnel (.missileImg
          ⟨me.x + BitVec.ofNat 8 g.gameMissileSpeedX, me.y, BitVec.ofNat 8 g.missileBmp⟩)])
    else (⟨.armed, me⟩, [])
  | ⟨.flying, me⟩, .hitWall => (⟨.exploding, { me with expCtr := 0 }⟩, [])
  | ⟨.flying, me⟩, .destroyedMine => (⟨.armed, me⟩, [.post .ship .destroyedMine])
  | ⟨.exploding, me⟩, .timeTick =>
    if g.gameSpeedX ≤ me.x.toNat ∧ me.expCtr.toNat < 15 then
      (⟨.exploding, { me with expCtr := me.expCtr + 1, x := me.x - BitVec.ofNat 8 g.gameSpeedX }⟩,
        [.post .tunnel (.explosion ⟨me.x - BitVec.ofNat 8 g.gameSpeedX + 3, me.y - 4,
          BitVec.ofNat 8 (g.explosion0Bmp + ((me.expCtr + 1).toNat >>> 2))⟩)])
    else (⟨.armed, me⟩, [])
  | m, _ => (m, [])

/-- The event processor running the Missile's handlers computes `step`. -/
theorem dispatch_eq_step : (hsm g).dispatch = step g := by
  funext m e
  obtain ⟨s, me⟩ := m
  cases s <;> cases e <;> simp [dispatch_eq, handler, armed, flying, exploding, step] <;>
    split_ifs <;> rfl

/-! ## armed -/

theorem dispatch_armed_fire (pos : ObjectPosEvt) :
    (hsm g).dispatch ⟨.armed, me⟩ (.missileFire pos) =
      (⟨.flying, { me with x := pos.x, y := pos.y }⟩, []) := by
  simp [dispatch_eq_step, step]

/-! ## flying -/

theorem dispatch_flying_tick (h : me.x.toNat + g.gameMissileSpeedX < g.gameTunnelWidth) :
    (hsm g).dispatch ⟨.flying, me⟩ .timeTick =
      (⟨.flying, { me with x := me.x + BitVec.ofNat 8 g.gameMissileSpeedX }⟩,
        [.post .tunnel (.missileImg
          ⟨me.x + BitVec.ofNat 8 g.gameMissileSpeedX, me.y, BitVec.ofNat 8 g.missileBmp⟩)]) := by
  simp [dispatch_eq_step, step, h]

theorem dispatch_flying_tick_end (h : g.gameTunnelWidth ≤ me.x.toNat + g.gameMissileSpeedX) :
    (hsm g).dispatch ⟨.flying, me⟩ .timeTick = (⟨.armed, me⟩, []) := by
  simp [dispatch_eq_step, step, Nat.not_lt.mpr h]

theorem dispatch_flying_hitWall :
    (hsm g).dispatch ⟨.flying, me⟩ .hitWall = (⟨.exploding, { me with expCtr := 0 }⟩, []) := by
  simp [dispatch_eq_step, step]

theorem dispatch_flying (e : Evt) (h₁ : e ≠ .timeTick) (h₂ : e ≠ .hitWall)
    (h₃ : e ≠ .destroyedMine) : (hsm g).dispatch ⟨.flying, me⟩ e = (⟨.flying, me⟩, []) := by
  cases e <;> simp_all [dispatch_eq_step, step]

/-! ## exploding -/

theorem dispatch_exploding_tick (h : g.gameSpeedX ≤ me.x.toNat ∧ me.expCtr.toNat < 15) :
    (hsm g).dispatch ⟨.exploding, me⟩ .timeTick =
      (⟨.exploding, { me with expCtr := me.expCtr + 1, x := me.x - BitVec.ofNat 8 g.gameSpeedX }⟩,
        [.post .tunnel (.explosion ⟨me.x - BitVec.ofNat 8 g.gameSpeedX + 3, me.y - 4,
          BitVec.ofNat 8 (g.explosion0Bmp + ((me.expCtr + 1).toNat >>> 2))⟩)]) := by
  simp [dispatch_eq_step, step, h]

theorem dispatch_exploding_tick_end (h : ¬(g.gameSpeedX ≤ me.x.toNat ∧ me.expCtr.toNat < 15)) :
    (hsm g).dispatch ⟨.exploding, me⟩ .timeTick = (⟨.armed, me⟩, []) := by
  simp [dispatch_eq_step, step, h]

theorem dispatch_exploding (e : Evt) (he : e ≠ .timeTick) :
    (hsm g).dispatch ⟨.exploding, me⟩ e = (⟨.exploding, me⟩, []) := by
  cases e <;> simp_all [dispatch_eq_step, step]

end Qpc.Game.Missile
