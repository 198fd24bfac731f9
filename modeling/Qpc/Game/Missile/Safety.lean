import Qpc.Game.Missile.Dispatch

/-! # The Missile keeps its position inside the tunnel

Over every sequence of events after `QHsm_init`, as long as the Ship fires the Missile from
inside the tunnel, the Missile's position stays below the tunnel width and the explosion
counter at most 15. No `uint8_t` store wraps: the guards alone make one dispatch move the
attributes exactly as the same machine over unbounded integers does, and from a configuration
inside the tunnel every image posted carries the position it was computed from.
-/

namespace Qpc.Game.Missile

open Qep

variable (g : Consts)

/-- The Missile read over unbounded integers. -/
structure Unbounded where
  state : State
  x : Nat
  y : BitVec 8
  expCtr : Nat
  deriving DecidableEq, Repr

/-- One dispatch of the Missile computed without wrapping. -/
def Unbounded.step : Unbounded → Evt → Unbounded
  | ⟨.armed, _, _, c⟩, .missileFire pos => ⟨.flying, pos.x.toNat, pos.y, c⟩
  | ⟨.flying, x, y, c⟩, .timeTick =>
    if x + g.gameMissileSpeedX < g.gameTunnelWidth then ⟨.flying, x + g.gameMissileSpeedX, y, c⟩
    else ⟨.armed, x, y, c⟩
  | ⟨.flying, x, y, _⟩, .hitWall => ⟨.exploding, x, y, 0⟩
  | ⟨.flying, x, y, c⟩, .destroyedMine => ⟨.armed, x, y, c⟩
  | ⟨.exploding, x, y, c⟩, .timeTick =>
    if g.gameSpeedX ≤ x ∧ c < 15 then ⟨.exploding, x - g.gameSpeedX, y, c + 1⟩
    else ⟨.armed, x, y, c⟩
  | u, _ => u

def unbounded (m : QHsm State Missile) : Unbounded :=
  ⟨m.state, m.me.x.toNat, m.me.y, m.me.expCtr.toNat⟩

/-- What the Missile keeps: inside the tunnel, and at most 15 explosion stages. -/
structure Unbounded.Safe (u : Unbounded) : Prop where
  x_lt : u.x < g.gameTunnelWidth
  expCtr_le : u.state = .exploding → u.expCtr ≤ 15

/-- The events the Ship may send: a `MISSILE_FIRE` from inside the tunnel, or anything else. -/
def FiresInside : Evt → Prop
  | .missileFire pos => pos.x.toNat < g.gameTunnelWidth
  | _ => True

/-- What a posted image carries, given the configuration its dispatch left: a flight image
inside the tunnel with the Missile's bitmap; an explosion image three pixels right of the
Missile with one of the four explosion bitmaps. -/
def ImageOk (m : QHsm State Missile) : Action → Prop
  | .post _ (.missileImg img) =>
    img.x.toNat < g.gameTunnelWidth ∧ img.bmp = BitVec.ofNat 8 g.missileBmp
  | .post _ (.explosion img) =>
    img.x.toNat = m.me.x.toNat + 3 ∧ ∃ k ≤ 3, img.bmp = BitVec.ofNat 8 (g.explosion0Bmp + k)
  | _ => True

variable {g}

/-- In a tunnel no wider than a `uint8_t` holds, the guards alone keep every store exact:
from any configuration one dispatch moves the attributes as the unbounded machine does. -/
theorem unbounded_dispatch (hW : g.gameTunnelWidth ≤ 256) (m : QHsm State Missile) (e : Evt) :
    unbounded ((hsm g).dispatch m e).1 = (unbounded m).step g e := by
  obtain ⟨s, me⟩ := m
  rw [dispatch_eq_step]
  cases s <;> cases e <;> simp only [step, Unbounded.step, unbounded] <;> (try split_ifs) <;>
    simp_all [BitVec.toNat_sub] <;> omega

/-- Over every run from every configuration, the `uint8_t` Missile read as integers is the
unbounded Missile: no store of `x` or `exp_ctr` ever wraps. -/
theorem unbounded_run (hW : g.gameTunnelWidth ≤ 256) (m : QHsm State Missile) (es : List Evt) :
    unbounded ((hsm g).run m es).1 = es.foldl (Unbounded.step g) (unbounded m) := by
  induction es generalizing m with
  | nil => rfl
  | cons e es ih => rw [QHsmDef.run_cons, ih, List.foldl_cons, unbounded_dispatch hW]

/-- A flight from `x = 250` in a full-width tunnel, its wall hit and explosion. -/
theorem unbounded_run_full_width :
    let g : Consts := ⟨256, 3, 2, 2, 6⟩
    let m : QHsm State Missile := ⟨.flying, ⟨250, 0, 200⟩⟩
    let es := [Evt.timeTick, .timeTick, .hitWall, .timeTick, .timeTick]
    g.gameTunnelWidth ≤ 256 ∧
      unbounded ((hsm g).run m es).1 = es.foldl (Unbounded.step g) (unbounded m) :=
  ⟨by decide, unbounded_run (by decide) _ _⟩

theorem Unbounded.step_safe {u : Unbounded} (hu : u.Safe g) {e : Evt} (he : FiresInside g e) :
    (u.step g e).Safe g := by
  obtain ⟨s, x, y, c⟩ := u
  obtain ⟨hx, hc⟩ := hu
  cases s <;> cases e <;> simp only [Unbounded.step] <;> (try split_ifs) <;> constructor <;>
    simp_all [FiresInside] <;> omega

theorem dispatch_imageOk (hW : g.gameTunnelWidth + 3 ≤ 256) {m : QHsm State Missile}
    (hm : (unbounded m).Safe g) (e : Evt) :
    ∀ a ∈ ((hsm g).dispatch m e).2, ImageOk g ((hsm g).dispatch m e).1 a := by
  obtain ⟨s, me⟩ := m
  obtain ⟨hx, hc⟩ := hm
  rw [dispatch_eq_step]
  cases s <;> cases e <;> simp only [step] <;> (try split_ifs) <;>
    simp_all [ImageOk, unbounded, BitVec.toNat_sub, Nat.shiftRight_eq_div_pow]
  · omega
  · exact ⟨by omega, _, by omega, rfl⟩

variable (g)

/-- The configurations `QHsm_init` of `l_missile` and then events the Ship may send reach. -/
inductive Reachable : QHsm State Missile → Prop
  | init {m : QHsm State Missile} {out : List Action} :
    (hsm g).init lMissile = some (m, out) → Reachable m
  | dispatch {m : QHsm State Missile} {e : Evt} :
    Reachable m → FiresInside g e → Reachable ((hsm g).dispatch m e).1

variable {g}

theorem Reachable.safe (hW : g.gameTunnelWidth + 3 ≤ 256) (hW1 : 1 ≤ g.gameTunnelWidth)
    {m : QHsm State Missile} (hm : Reachable g m) : (unbounded m).Safe g := by
  induction hm with
  | init h =>
    rw [init_lMissile] at h
    cases h
    exact ⟨by simpa [unbounded, lMissile] using hW1, by simp [unbounded]⟩
  | dispatch _ he ih => rw [unbounded_dispatch (by omega)]; exact Unbounded.step_safe ih he

/-- Every configuration the Missile reaches is inside the tunnel, with at most 15 explosion
stages; from it, one dispatch computes every `uint8_t` update without wrapping and posts
only well-formed images. -/
theorem reachable_inside (hW : g.gameTunnelWidth + 3 ≤ 256) (hW1 : 1 ≤ g.gameTunnelWidth)
    {m : QHsm State Missile} (hm : Reachable g m) :
    m.me.x.toNat < g.gameTunnelWidth ∧ (m.state = .exploding → m.me.expCtr.toNat ≤ 15) ∧
    ∀ e, unbounded ((hsm g).dispatch m e).1 = (unbounded m).step g e ∧
      ∀ a ∈ ((hsm g).dispatch m e).2, ImageOk g ((hsm g).dispatch m e).1 a :=
  have hs := hm.safe hW hW1
  ⟨hs.x_lt, hs.expCtr_le, fun e => ⟨unbounded_dispatch (by omega) m e, dispatch_imageOk hW hs e⟩⟩

/-- A configuration fired from inside a 128-pixel tunnel. -/
theorem reachable_inside_fired :
    let g : Consts := ⟨128, 2, 1, 2, 6⟩
    let m := ((hsm g).dispatch ⟨.armed, lMissile⟩ (.missileFire ⟨5, 7⟩)).1
    g.gameTunnelWidth + 3 ≤ 256 ∧ 1 ≤ g.gameTunnelWidth ∧ Reachable g m ∧
      (m.me.x.toNat < g.gameTunnelWidth ∧ (m.state = .exploding → m.me.expCtr.toNat ≤ 15) ∧
      ∀ e, unbounded ((hsm g).dispatch m e).1 = (unbounded m).step g e ∧
        ∀ a ∈ ((hsm g).dispatch m e).2, ImageOk g ((hsm g).dispatch m e).1 a) :=
  have hm : Reachable ⟨128, 2, 1, 2, 6⟩ _ :=
    .dispatch (.init (init_lMissile _)) (e := .missileFire ⟨5, 7⟩) (by simp [FiresInside])
  ⟨by decide, by decide, hm, reachable_inside (by decide) (by decide) hm⟩

/-- With a tunnel of width zero the zero-initialised Missile is armed outside it. -/
theorem reachable_outside_of_width_zero :
    let g : Consts := ⟨0, 1, 1, 0, 0⟩
    1 ≤ g.gameMissileSpeedX ∧ g.gameTunnelWidth + 3 ≤ 256 ∧
      Reachable g ⟨.armed, lMissile⟩ ∧ ¬ lMissile.x.toNat < g.gameTunnelWidth :=
  ⟨by decide, by decide, .init (init_lMissile _), by decide⟩

end Qpc.Game.Missile
