import Qpc.Game.Events

/-! # The Missile active object

The state handlers of `missile.c`, one definition each, and the state machine they form
under the event processor. All three states sit directly below `QHsm_top`: every handler
leaves the signals it does not name to `QHsm_top` through `Q_SUPER(&QHsm_top)`. The guards
compare after integer promotion, so exactly while `x + GAME_MISSILE_SPEED_X` fits the promoted
type (see `Consts`); the stores into `uint8_t` fields wrap.
-/

namespace Qpc.Game

open Qep

/-- The attributes of `Missile`. -/
structure Missile where
  x : BitVec 8
  y : BitVec 8
  expCtr : BitVec 8
  deriving DecidableEq, Repr

namespace Missile

inductive State where
  | armed
  | flying
  | exploding
  deriving DecidableEq, Repr

/-- The sole instance `l_missile`, in zero-initialised static storage. -/
def lMissile : Missile := ⟨0, 0, 0⟩

/-- `Missile_initial`: subscribe to the time tick and arm. -/
def initial (me : Missile) : QResult State Missile Action :=
  ⟨.tran .armed, me, [.subscribe .timeTick]⟩

/-- `Missile_armed`: a `MISSILE_FIRE` event loads the position and starts the flight. -/
def armed : QSignal Evt → Missile → QResult State Missile Action
  | .user (.missileFire pos), me => ⟨.tran .flying, { me with x := pos.x, y := pos.y }, []⟩
  | _, me => ⟨.super, me, []⟩

/-- `Missile_flying`. -/
def flying (g : Consts) : QSignal Evt → Missile → QResult State Missile Action
  | .user .timeTick, me =>
    if me.x.toNat + g.gameMissileSpeedX < g.gameTunnelWidth then
      let me := { me with x := me.x + BitVec.ofNat 8 g.gameMissileSpeedX }
      ⟨.handled, me, [.post .tunnel (.missileImg ⟨me.x, me.y, BitVec.ofNat 8 g.missileBmp⟩)]⟩
    else ⟨.tran .armed, me, []⟩
  | .user .hitWall, me => ⟨.tran .exploding, me, []⟩
  | .user .destroyedMine, me => ⟨.tran .armed, me, [.post .ship .destroyedMine]⟩
  | _, me => ⟨.super, me, []⟩

/-- `Missile_exploding`. The image row `(int8_t)((int)me->y - 4U)` keeps the low eight
bits of `y - 4`. -/
def exploding (g : Consts) : QSignal Evt → Missile → QResult State Missile Action
  | .entry, me => ⟨.handled, { me with expCtr := 0 }, []⟩
  | .user .timeTick, me =>
    if g.gameSpeedX ≤ me.x.toNat ∧ me.expCtr.toNat < 15 then
      let me := { me with expCtr := me.expCtr + 1 }
      let me := { me with x := me.x - BitVec.ofNat 8 g.gameSpeedX }
      ⟨.handled, me, [.post .tunnel (.explosion
        ⟨me.x + 3, me.y - 4, BitVec.ofNat 8 (g.explosion0Bmp + (me.expCtr.toNat >>> 2))⟩)]⟩
    else ⟨.tran .armed, me, []⟩
  | _, me => ⟨.super, me, []⟩

def handler (g : Consts) : State → QSignal Evt → Missile → QResult State Missile Action
  | .armed => armed
  | .flying => flying g
  | .exploding => exploding g

/-- The Missile's state machine. -/
def hsm (g : Consts) : QHsmDef State Missile Evt Action where
  tree :=
    { parent := fun _ => none
      depth := fun _ => 0
      maxDepth := 1
      depth_parent := fun _ _ h => nomatch h
      depth_lt := fun _ => Nat.zero_lt_one }
  initial := initial
  handler := handler g

@[simp] theorem hsm_handler (g : Consts) : (hsm g).handler = handler g := rfl

@[simp] theorem hsm_initial (g : Consts) : (hsm g).initial = initial := rfl

theorem hsm_flat (g : Consts) : (hsm g).tree.Flat := fun _ => rfl

end Missile

end Qpc.Game
