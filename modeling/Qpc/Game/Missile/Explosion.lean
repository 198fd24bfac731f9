import Qpc.Game.Missile.Dispatch

/-! # An explosion of the Missile

A wall hit while flying starts an explosion: the entry action of `exploding` clears the
counter, and every time tick then drifts the explosion `GAME_SPEED_X` pixels left, advances
the counter and posts the next stage to the Tunnel, until the counter reaches 15 or the
explosion would leave the screen; that tick rearms the Missile. Every other event is
ignored. The counter therefore always equals the number of stages posted since the hit.
-/

namespace Qpc.Game.Missile

open Qep

variable (g : Consts)

def explosionImage (x y : BitVec 8) (j : Nat) : Action :=
  .post .tunnel (.explosion
    ⟨x + 3, BitVec.ofInt 8 (y.toNat - 4), BitVec.ofNat 8 (g.explosion0Bmp + (j >>> 2))⟩)

/-- The images of the first `j` ticks of an explosion at `x`. -/
def explosionImages (x : Nat) (y : BitVec 8) (j : Nat) : List Action :=
  (List.range j).map fun i =>
    explosionImage g (BitVec.ofNat 8 (x - (i + 1) * g.gameSpeedX)) y (i + 1)

@[simp] theorem explosionImages_zero (x : Nat) (y : BitVec 8) : explosionImages g x y 0 = [] :=
  rfl

@[simp] theorem explosionImages_length (x : Nat) (y : BitVec 8) (j : Nat) :
    (explosionImages g x y j).length = j := by
  simp [explosionImages]

theorem explosionImages_succ (x : Nat) (y : BitVec 8) (j : Nat) :
    explosionImages g x y (j + 1) = explosionImages g x y j ++
      [explosionImage g (BitVec.ofNat 8 (x - (j + 1) * g.gameSpeedX)) y (j + 1)] := by
  simp [explosionImages, List.range_succ]

/-- The row `(int8_t)((int)me->y - 4U)` is the `int8_t` conversion of `y - 4`. -/
theorem sub_four_eq_ofInt (y : BitVec 8) : y - 4 = BitVec.ofInt 8 (y.toNat - 4) := by
  apply BitVec.eq_of_toNat_eq
  simp [BitVec.toNat_sub, BitVec.toNat_ofInt]
  omega

theorem ofNat_sub_ofNat_of_le {a b : Nat} (h : b ≤ a) :
    BitVec.ofNat 8 a - BitVec.ofNat 8 b = BitVec.ofNat 8 (a - b) := by
  apply BitVec.eq_of_toNat_eq
  simp [BitVec.toNat_sub]
  omega

/-- The tick after the `min 15 (x / GAME_SPEED_X)`-th fails the guard of `exploding`. -/
theorem guard_fails_at_min {G : Nat} (hG : 1 ≤ G) (x : Nat) :
    ¬(G ≤ x - min 15 (x / G) * G ∧ min 15 (x / G) < 15) := by
  rintro ⟨hg, h15⟩
  rw [min_eq_right (by omega)] at hg
  have := Nat.div_add_mod' x G
  have := Nat.mod_lt x hG
  omega

variable {g}

/-- An explosion at `x` after `j` ticks, while `j ≤ 15` and `j * GAME_SPEED_X ≤ x`: still
exploding, `j * GAME_SPEED_X` pixels left of `x`, with counter `j`. -/
theorem run_exploding (me : Missile) (es : List Evt) (h15 : es.count .timeTick ≤ 15)
    (hx : es.count .timeTick * g.gameSpeedX ≤ me.x.toNat) :
    (hsm g).run ⟨.exploding, { me with expCtr := 0 }⟩ es = (⟨.exploding,
      { me with x := BitVec.ofNat 8 (me.x.toNat - es.count .timeTick * g.gameSpeedX),
                expCtr := BitVec.ofNat 8 (es.count .timeTick) }⟩,
      explosionImages g me.x.toNat me.y (es.count .timeTick)) := by
  induction es using List.reverseRecOn with
  | nil => simp
  | append_singleton es e ih =>
    have hle : es.count .timeTick * g.gameSpeedX ≤ (es ++ [e]).count .timeTick * g.gameSpeedX :=
      Nat.mul_le_mul_right _ (by simp)
    rw [QHsmDef.run_concat, ih (by simp at h15; omega) (by omega)]
    by_cases ht : e = .timeTick
    · subst ht
      simp only [List.count_append, List.count_singleton_self, Nat.add_mul, Nat.one_mul] at h15 hx ⊢
      have hj : (BitVec.ofNat 8 (es.count .timeTick)).toNat = es.count .timeTick := by simp; omega
      have hc : BitVec.ofNat 8 (es.count .timeTick) + 1 = BitVec.ofNat 8 (es.count .timeTick + 1) :=
        BitVec.ofNat_add_ofNat _ 1
      rw [dispatch_exploding_tick g _ (by simp [hj]; omega), explosionImages_succ]
      simp only [explosionImage, ofNat_sub_ofNat_of_le (by omega : g.gameSpeedX ≤
        me.x.toNat - es.count .timeTick * g.gameSpeedX), Nat.sub_sub, Nat.add_mul, Nat.one_mul,
        BitVec.toNat_add, hj]
      simpa [Nat.mod_eq_of_lt (by omega : es.count .timeTick + 1 < 256)] using
        ⟨hc, sub_four_eq_ofInt me.y⟩
    · rw [dispatch_exploding g _ e ht]
      simp [List.count_singleton, Ne.symm ht]

/-- An explosion started by a wall hit at `xh`: through the first
`n = min 15 (xh / GAME_SPEED_X)` ticks the Missile stays in `exploding`, after `j` of them at
`xh - j * GAME_SPEED_X` with counter `j`, whatever the counter held before the hit, having
posted exactly one image per tick; the tick after the `n`-th posts nothing and rearms it. -/
theorem explosion (hG : 1 ≤ g.gameSpeedX) (me : Missile) (es : List Evt) :
    let hit := (hsm g).dispatch ⟨.flying, me⟩ .hitWall
    let n := min 15 (me.x.toNat / g.gameSpeedX)
    let j := es.count .timeTick
    let r := (hsm g).run hit.1 es
    hit.2 = [] ∧
    (j ≤ n → r.1.state = .exploding ∧ r.1.me.expCtr.toNat = j ∧ r.2.length = j ∧
      j * g.gameSpeedX ≤ me.x.toNat ∧ r.1.me.x.toNat = me.x.toNat - j * g.gameSpeedX ∧
      r.1.me.y = me.y ∧ r.2 = explosionImages g me.x.toNat me.y j) ∧
    (j = n → (hsm g).dispatch r.1 .timeTick = (⟨.armed, r.1.me⟩, [])) := by
  intro hit n j r
  have hhit : hit = (⟨.exploding, { me with expCtr := 0 }⟩, []) := dispatch_flying_hitWall g me
  have hjx (hj : j ≤ n) : j * g.gameSpeedX ≤ me.x.toNat :=
    (Nat.le_div_iff_mul_le hG).mp (le_trans hj (min_le_right _ _))
  have hr (hj : j ≤ n) : r = (⟨.exploding, { me with
      x := BitVec.ofNat 8 (me.x.toNat - j * g.gameSpeedX), expCtr := BitVec.ofNat 8 j }⟩,
      explosionImages g me.x.toNat me.y j) := by
    simp only [r, hhit]
    exact run_exploding me es (le_trans hj (min_le_left _ _)) (hjx hj)
  have hlt (hj : j ≤ n) : j < 256 := by have := min_le_left 15 (me.x.toNat / g.gameSpeedX); omega
  refine ⟨by rw [hhit], fun hj => ?_, fun hj => ?_⟩
  · have := me.x.isLt
    rw [hr hj]
    simp [Nat.mod_eq_of_lt (hlt hj), hjx hj]
    omega
  · have := me.x.isLt
    rw [hr hj.le]
    apply dispatch_exploding_tick_end
    rw [BitVec.toNat_ofNat, BitVec.toNat_ofNat, Nat.mod_eq_of_lt (hlt hj.le),
      Nat.mod_eq_of_lt (by omega), hj]
    exact guard_fails_at_min hG _

/-- An explosion after a wall hit at `x = 9`, one pixel per tick, through an ignored
`MISSILE_FIRE`. -/
theorem explosion_at_nine :
    let g : Consts := ⟨128, 2, 1, 2, 6⟩
    let me : Missile := ⟨9, 30, 12⟩
    let es := [Evt.timeTick, .missileFire ⟨1, 2⟩, .timeTick]
    1 ≤ g.gameSpeedX ∧
      (let hit := (hsm g).dispatch ⟨.flying, me⟩ .hitWall
      let n := min 15 (me.x.toNat / g.gameSpeedX)
      let j := es.count .timeTick
      let r := (hsm g).run hit.1 es
      hit.2 = [] ∧
      (j ≤ n → r.1.state = .exploding ∧ r.1.me.expCtr.toNat = j ∧ r.2.length = j ∧
        j * g.gameSpeedX ≤ me.x.toNat ∧ r.1.me.x.toNat = me.x.toNat - j * g.gameSpeedX ∧
        r.1.me.y = me.y ∧ r.2 = explosionImages g me.x.toNat me.y j) ∧
      (j = n → (hsm g).dispatch r.1 .timeTick = (⟨.armed, r.1.me⟩, []))) :=
  ⟨by decide, explosion (by decide) _ _⟩

end Qpc.Game.Missile
