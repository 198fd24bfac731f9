import Qpc.Game.Missile.Dispatch

/-! # A flight of the Missile

Once fired from `armed`, the Missile moves `GAME_MISSILE_SPEED_X` pixels right on every time
tick and reports each position to the Tunnel, until the next step would leave the tunnel;
that tick takes it back to `armed`. Events other than the tick, the wall hit and the mine
hit leave it alone. The flight law holds for every firing position, tunnel width and speed
and every interleaving of ticks with ignored events.
-/

namespace Qpc.Game.Missile

open Qep

variable (g : Consts)

def flightImage (x y : BitVec 8) : Action :=
  .post .tunnel (.missileImg ⟨x, y, BitVec.ofNat 8 g.missileBmp⟩)

/-- The images of the first `k` ticks of a flight fired at `x`. -/
def flightImages (x : Nat) (y : BitVec 8) (k : Nat) : List Action :=
  (List.range k).map fun i => flightImage g (BitVec.ofNat 8 (x + (i + 1) * g.gameMissileSpeedX)) y

@[simp] theorem flightImages_zero (x : Nat) (y : BitVec 8) : flightImages g x y 0 = [] := rfl

theorem flightImages_succ (x : Nat) (y : BitVec 8) (k : Nat) :
    flightImages g x y (k + 1) = flightImages g x y k ++
      [flightImage g (BitVec.ofNat 8 (x + (k + 1) * g.gameMissileSpeedX)) y] := by
  simp [flightImages, List.range_succ]

variable {g}

/-- A flight from `x0` after `k` ticks: still flying at `x0 + k * GAME_MISSILE_SPEED_X`. -/
theorem run_flying (hS : 1 ≤ g.gameMissileSpeedX) (hW : g.gameTunnelWidth ≤ 256) (me : Missile)
    (es : List Evt) (hes : ∀ e ∈ es, e ≠ .hitWall ∧ e ≠ .destroyedMine)
    (hk : es.count .timeTick * g.gameMissileSpeedX ≤ g.gameTunnelWidth - 1 - me.x.toNat) :
    (hsm g).run ⟨.flying, me⟩ es = (⟨.flying,
      { me with x := BitVec.ofNat 8 (me.x.toNat + es.count .timeTick * g.gameMissileSpeedX) }⟩,
      flightImages g me.x.toNat me.y (es.count .timeTick)) := by
  induction es using List.reverseRecOn with
  | nil => simp
  | append_singleton es e ih =>
    simp only [List.mem_append, List.mem_singleton] at hes
    have hle : es.count .timeTick * g.gameMissileSpeedX ≤
        (es ++ [e]).count .timeTick * g.gameMissileSpeedX := Nat.mul_le_mul_right _ (by simp)
    rw [QHsmDef.run_concat, ih (fun e he => hes e (.inl he)) (by omega)]
    obtain ⟨hw, hd⟩ := hes e (.inr rfl)
    by_cases ht : e = .timeTick
    · subst ht
      simp only [List.count_append, List.count_singleton_self, Nat.add_mul, Nat.one_mul] at hk ⊢
      have hx : me.x.toNat + es.count .timeTick * g.gameMissileSpeedX < 256 := by omega
      rw [dispatch_flying_tick g _ (by simp [Nat.mod_eq_of_lt hx]; omega), flightImages_succ,
        BitVec.ofNat_add_ofNat, Nat.add_mul, Nat.one_mul, Nat.add_assoc]
      rfl
    · rw [dispatch_flying g _ e ht hw hd]
      simp [List.count_singleton, Ne.symm ht]

/-- A flight fired at `pos`: through the first `n` ticks the Missile stays in `flying`, at
`x0 + k * GAME_MISSILE_SPEED_X` after `k` of them, having posted exactly one image per tick;
the tick after the `n`-th posts nothing and rearms it. -/
theorem flight (hS : 1 ≤ g.gameMissileSpeedX) (hW : g.gameTunnelWidth ≤ 256) (me : Missile)
    (pos : ObjectPosEvt) (es : List Evt) (hes : ∀ e ∈ es, e ≠ .hitWall ∧ e ≠ .destroyedMine) :
    let fired := (hsm g).dispatch ⟨.armed, me⟩ (.missileFire pos)
    let n := (g.gameTunnelWidth - 1 - pos.x.toNat) / g.gameMissileSpeedX
    let k := es.count .timeTick
    let r := (hsm g).run fired.1 es
    fired.2 = [] ∧
    (k ≤ n → r.1.state = .flying ∧ r.1.me.x.toNat = pos.x.toNat + k * g.gameMissileSpeedX ∧
      r.1.me.y = pos.y ∧ r.1.me.expCtr = me.expCtr ∧ r.2 = flightImages g pos.x.toNat pos.y k) ∧
    (k = n → (hsm g).dispatch r.1 .timeTick = (⟨.armed, r.1.me⟩, [])) := by
  intro fired n k r
  have hS0 : 0 < g.gameMissileSpeedX := hS
  have hfired : fired = (⟨.flying, { me with x := pos.x, y := pos.y }⟩, []) :=
    dispatch_armed_fire g me pos
  have hkS (hk : k ≤ n) := (Nat.le_div_iff_mul_le hS0).mp hk
  have hx (hk : k ≤ n) : pos.x.toNat + k * g.gameMissileSpeedX < 256 := by
    have := hkS hk; have := pos.x.isLt; omega
  have hr (hk : k ≤ n) : r = (⟨.flying, { me with
      x := BitVec.ofNat 8 (pos.x.toNat + k * g.gameMissileSpeedX), y := pos.y }⟩,
      flightImages g pos.x.toNat pos.y k) := by
    simp only [r, hfired]
    exact run_flying hS hW { me with x := pos.x, y := pos.y } es hes (hkS hk)
  refine ⟨by rw [hfired], fun hk => ?_, fun hk => ?_⟩
  · rw [hr hk]
    simp [Nat.mod_eq_of_lt (hx hk)]
  · have hend : g.gameTunnelWidth - 1 - pos.x.toNat < g.gameMissileSpeedX * (n + 1) :=
      Nat.lt_mul_div_succ _ hS0
    rw [hr hk.le]
    apply dispatch_flying_tick_end
    rw [BitVec.toNat_ofNat, Nat.mod_eq_of_lt (hx hk.le), hk]
    rw [Nat.mul_add, Nat.mul_one, Nat.mul_comm] at hend
    omega

/-- A flight fired at `x = 120` in a 128-pixel tunnel at two pixels per tick, through an
ignored event. -/
theorem flight_at_120 :
    let g : Consts := ⟨128, 2, 1, 2, 6⟩
    let me := lMissile
    let pos : ObjectPosEvt := ⟨120, 7⟩
    let es := [Evt.timeTick, .other 3, .timeTick]
    1 ≤ g.gameMissileSpeedX ∧ g.gameTunnelWidth ≤ 256 ∧
      (∀ e ∈ es, e ≠ .hitWall ∧ e ≠ .destroyedMine) ∧
      (let fired := (hsm g).dispatch ⟨.armed, me⟩ (.missileFire pos)
      let n := (g.gameTunnelWidth - 1 - pos.x.toNat) / g.gameMissileSpeedX
      let k := es.count .timeTick
      let r := (hsm g).run fired.1 es
      fired.2 = [] ∧
      (k ≤ n → r.1.state = .flying ∧ r.1.me.x.toNat = pos.x.toNat + k * g.gameMissileSpeedX ∧
        r.1.me.y = pos.y ∧ r.1.me.expCtr = me.expCtr ∧ r.2 = flightImages g pos.x.toNat pos.y k) ∧
      (k = n → (hsm g).dispatch r.1 .timeTick = (⟨.armed, r.1.me⟩, []))) :=
  ⟨by decide, by decide, by decide, flight (by decide) (by decide) _ _ _ (by decide)⟩

end Qpc.Game.Missile
