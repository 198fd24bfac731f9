import Qpc.Qep.Dispatch

/-! # What the game's active objects exchange

The constants, signals and events of `game.h` that the Missile reads or posts. The header
is not part of the model: its constants are parameters, and an event is its signal together
with the payload of its event type (`ObjectPosEvt`, `ObjectImageEvt`). Every `uint8_t` is
a `BitVec 8`; the `int8_t` image row is kept as its two's-complement bits.
-/

namespace Qpc.Game

/-- The constants of `game.h` that the Missile reads. The model compares them exactly with the
`uint8_t` attributes, as C does after integer promotion while `x + GAME_MISSILE_SPEED_X` fits the
promoted type: for every `GAME_MISSILE_SPEED_X` below `2^31 - 255` (`2^32 - 255` for an
unsigned constant). -/
structure Consts where
  gameTunnelWidth : Nat
  gameMissileSpeedX : Nat
  gameSpeedX : Nat
  missileBmp : Nat
  explosion0Bmp : Nat
  deriving DecidableEq, Repr

structure ObjectPosEvt where
  x : BitVec 8
  y : BitVec 8
  deriving DecidableEq, Repr

/-- `ObjectImageEvt`: a bitmap for the Tunnel to draw; `y` is an `int8_t`. -/
structure ObjectImageEvt where
  x : BitVec 8
  y : BitVec 8
  bmp : BitVec 8
  deriving DecidableEq, Repr

inductive Sig where
  | timeTick
  | missileFire
  | hitWall
  | destroyedMine
  | missileImg
  | explosion
  | other (n : Nat)
  deriving DecidableEq, Repr

/-- An event: its signal with the payload of its event type. -/
inductive Evt where
  | timeTick
  | missileFire (pos : ObjectPosEvt)
  | hitWall
  | destroyedMine
  | missileImg (img : ObjectImageEvt)
  | explosion (img : ObjectImageEvt)
  | other (n : Nat)
  deriving DecidableEq, Repr

def Evt.sig : Evt → Sig
  | .timeTick => .timeTick
  | .missileFire _ => .missileFire
  | .hitWall => .hitWall
  | .destroyedMine => .destroyedMine
  | .missileImg _ => .missileImg
  | .explosion _ => .explosion
  | .other n => .other n

theorem Evt.sig_eq_timeTick {e : Evt} : e.sig = .timeTick ↔ e = .timeTick := by
  cases e <;> simp [Evt.sig]

/-- The active objects the Missile posts to: `AO_Tunnel` and `AO_Ship`. -/
inductive AO where
  | tunnel
  | ship
  deriving DecidableEq, Repr

/-- What a Missile action asks of the framework: `QActive_subscribe` or `QACTIVE_POST`. -/
inductive Action where
  | subscribe (sig : Sig)
  | post (ao : AO) (e : Evt)
  deriving DecidableEq, Repr

end Qpc.Game
