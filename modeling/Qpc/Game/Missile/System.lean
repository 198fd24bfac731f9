import Qpc.Game.Missile.Safety
import Qpc.Game.Missile.Traffic
import Qpc.Qf.Active

/-! # The Missile in the running game

The Missile's active object beside the Tunnel and the Ship (§4.4, §4.5). Each object has an
event queue and a row of the subscriber registry. The Missile's handlers subscribe and post as
their actions say; every other producer (the peers' handlers, interrupts) may post, publish and
change the peers' rows at any moment. Over every interleaving, while each `MISSILE_FIRE` posted
to the Missile is inside the tunnel, the Missile stays inside, is subscribed to the time tick
alone, and posts only images drawn there and mine hits.
-/

namespace Qpc.Game.Missile

open Qep Qf

/-- Modelled from the spec: the game around the Missile: its active object, the event queues of
`AO_Tunnel` and `AO_Ship`, and each object's row of the subscriber registry. -/
structure World where
  missile : Active State Missile Evt
  peers : AO → EQueue Evt
  subs : List Sig
  peerSubs : AO → List Sig

/-- A step of the game: a post to the Missile or to a peer by another producer, a
`QF_PUBLISH`, a peer's `QActive_subscribe` or `QActive_unsubscribe`, or a turn of a thread. -/
inductive World.Op where
  | post (e : Evt)
  | postPeer (ao : AO) (e : Evt)
  | publish (e : Evt)
  | subscribe (ao : AO) (s : Sig)
  | unsubscribe (ao : AO) (s : Sig)
  | missile
  | peer (ao : AO)
  deriving DecidableEq, Repr

namespace World

def postMissile (w : World) (e : Evt) : Option World :=
  (w.missile.post e).map fun a => { w with missile := a }

def postPeer (w : World) (ao : AO) (e : Evt) : Option World :=
  ((w.peers ao).post e).map fun q => { w with peers := Function.update w.peers ao q }

def deliver (w : World) (e : Evt) (ao : AO) : Option World :=
  if e.sig ∈ w.peerSubs ao then w.postPeer ao e else some w

/-- Modelled from the spec: `QF_PUBLISH` posts the event to every object whose row has its
signal. The order of the deliveries changes no queue: each subscriber gets one copy, and a full
queue anywhere stops the game. -/
def publish (w : World) (e : Evt) : Option World :=
  ((w.deliver e .tunnel).bind fun w => w.deliver e .ship).bind fun w =>
    if e.sig ∈ w.subs then w.postMissile e else some w

def perform (w : World) : Action → Option World
  | .subscribe s => some { w with subs := w.subs.insert s }
  | .post ao e => w.postPeer ao e

def performAll : World → List Action → Option World
  | w, [] => some w
  | w, a :: as => (w.perform a).bind fun w' => performAll w' as

/-- `QACTIVE_START` of the Missile over the queues given, with the registry cleared: `QHsm_init`
of `l_missile`, with the actions of its initial transition carried out. -/
def start (g : Consts) (mq : EQueue Evt) (pq : AO → EQueue Evt) : Option World :=
  ((hsm g).init lMissile).bind fun r => performAll ⟨⟨r.1, mq⟩, pq, [], fun _ => []⟩ r.2

def step (g : Consts) (w : World) : Op → Option World
  | .post e => w.postMissile e
  | .postPeer ao e => w.postPeer ao e
  | .publish e => w.publish e
  | .subscribe ao s =>
    some { w with peerSubs := Function.update w.peerSubs ao ((w.peerSubs ao).insert s) }
  | .unsubscribe ao s =>
    some { w with peerSubs := Function.update w.peerSubs ao ((w.peerSubs ao).erase s) }
  | .missile =>
    performAll { w with missile := (w.missile.turn (hsm g)).1 } (w.missile.turn (hsm g)).2
  | .peer ao =>
    let q := w.peers ao
    some { w with peers := Function.update w.peers ao ((q.get.map Prod.snd).getD q) }

variable (g : Consts)

/-- An event the Missile may post to the Tunnel: a flight image inside the tunnel with the
Missile's bitmap, or an explosion image less than three pixels past the tunnel with one of the
four explosion bitmaps. -/
def TunnelEvt : Evt → Prop
  | .missileImg img => img.x.toNat < g.gameTunnelWidth ∧ img.bmp = BitVec.ofNat 8 g.missileBmp
  | .explosion img => img.x.toNat < g.gameTunnelWidth + 3 ∧
      ∃ k ≤ 3, img.bmp = BitVec.ofNat 8 (g.explosion0Bmp + k)
  | _ => False

def ActionOk : Action → Prop
  | .subscribe s => s = .timeTick
  | .post .tunnel e => TunnelEvt g e
  | .post .ship e => e = .destroyedMine

def Op.FiresInside : Op → Prop
  | .post e => Missile.FiresInside g e
  | _ => True

/-- The states of the game that starting the Missile over an empty queue and then any steps
whose fire events posted to it are inside the tunnel reach. -/
inductive Reachable : World → Prop
  | start {mq : EQueue Evt} {pq : AO → EQueue Evt} {w : World} : mq.toList = [] →
    start g mq pq = some w → Reachable w
  | step {w w' : World} {op : Op} : Reachable w → op.FiresInside g → step g w op = some w' →
    Reachable w'

/-- The invariant of the game: the Missile's configuration is one its handlers reach, every
event waiting for it fires inside the tunnel, and its row holds the time tick alone. -/
structure Inv (w : World) : Prop where
  missile : Missile.Reachable g w.missile.hsm
  queued : ∀ e ∈ w.missile.queue.toList, Missile.FiresInside g e
  subs : w.subs = [.timeTick]

variable {g}

theorem postMissile_spec {w w' : World} {e : Evt} (h : w.postMissile e = some w') :
    w'.missile.hsm = w.missile.hsm ∧ w'.missile.queue.toList = w.missile.queue.toList ++ [e] ∧
      w'.peers = w.peers ∧ w'.subs = w.subs ∧ w'.peerSubs = w.peerSubs := by
  simp only [postMissile, Option.map_eq_some'] at h
  obtain ⟨a, ha, rfl⟩ := h
  exact ⟨(Active.post_spec ha).1, (Active.post_spec ha).2, rfl, rfl, rfl⟩

theorem postPeer_spec {w w' : World} {ao : AO} {e : Evt} (h : w.postPeer ao e = some w') :
    w'.missile = w.missile ∧ w'.subs = w.subs ∧ w'.peerSubs = w.peerSubs ∧
      ∀ ao', (w'.peers ao').toList = (w.peers ao').toList ++ if ao' = ao then [e] else [] := by
  simp only [postPeer, Option.map_eq_some'] at h
  obtain ⟨q, hq, rfl⟩ := h
  refine ⟨rfl, rfl, rfl, fun ao' => ?_⟩
  by_cases ha : ao' = ao
  · subst ha; simp [EQueue.toList_post hq]
  · simp [Function.update_noteq ha, ha]

theorem deliver_spec {w w' : World} {e : Evt} {ao : AO} (h : w.deliver e ao = some w') :
    w'.missile = w.missile ∧ w'.subs = w.subs ∧ w'.peerSubs = w.peerSubs ∧
      ∀ ao', (w'.peers ao').toList =
        (w.peers ao').toList ++ if ao' = ao ∧ e.sig ∈ w.peerSubs ao then [e] else [] := by
  unfold deliver at h
  split at h
  · next hs => simpa [hs] using postPeer_spec h
  · next hs => cases h; simp [hs]

theorem publish_missile {w w' : World} {e : Evt} (h : w.publish e = some w') :
    w'.missile.hsm = w.missile.hsm ∧ w'.subs = w.subs ∧
      w'.missile.queue.toList = w.missile.queue.toList ++ if e.sig ∈ w.subs then [e] else [] := by
  simp only [publish, Option.bind_eq_some] at h
  obtain ⟨w₂, ⟨w₁, h₁, h₂⟩, h⟩ := h
  obtain ⟨hm₁, hs₁, -⟩ := deliver_spec h₁
  obtain ⟨hm₂, hs₂, -⟩ := deliver_spec h₂
  rw [← hm₁, ← hm₂, ← hs₁, ← hs₂]
  split at h
  · next hs =>
    obtain ⟨hm, hq, -, hs', -⟩ := postMissile_spec h
    exact ⟨hm, hs', by simp [hq, hs]⟩
  · next hs => cases h; simp [hs]

theorem perform_spec {w w' : World} {a : Action} (h : w.perform a = some w') :
    w'.missile = w.missile ∧ (w.subs = [.timeTick] → ActionOk g a → w'.subs = [.timeTick]) := by
  rcases a with s | ⟨ao, e⟩
  · cases h
    exact ⟨rfl, fun hs (ha : s = _) => by rw [hs, ha]; rfl⟩
  · obtain ⟨hm, hs, -⟩ := postPeer_spec h
    exact ⟨hm, fun h _ => hs.trans h⟩

theorem performAll_spec {w w' : World} {as : List Action} (h : performAll w as = some w')
    (hs : w.subs = [.timeTick]) (ha : ∀ a ∈ as, ActionOk g a) :
    w'.missile = w.missile ∧ w'.subs = [.timeTick] := by
  induction as generalizing w with
  | nil => cases h; exact ⟨rfl, hs⟩
  | cons a as ih =>
    simp only [performAll, Option.bind_eq_some] at h
    obtain ⟨w₁, h₁, h⟩ := h
    obtain ⟨hm, hp⟩ := perform_spec h₁
    obtain ⟨hm', hs'⟩ := ih h (hp hs (ha a (.head _))) fun a' h' => ha a' (.tail _ h')
    exact ⟨hm'.trans hm, hs'⟩

theorem dispatch_actionOk (hW : g.gameTunnelWidth + 3 ≤ 256) (hW1 : 1 ≤ g.gameTunnelWidth)
    {m : QHsm State Missile} (hm : Missile.Reachable g m) {e : Evt}
    (he : Missile.FiresInside g e) : ∀ a ∈ ((hsm g).dispatch m e).2, ActionOk g a := by
  intro a ha
  have hs : Sent a := step_sent m e a (by rwa [← dispatch_eq_step])
  have hi := dispatch_imageOk hW (hm.safe hW hW1) e a ha
  have hx := ((Missile.Reachable.dispatch hm he).safe hW hW1).x_lt
  rcases a with s | ⟨_ | _, _ | _ | _ | _ | _ | _ | _⟩ <;> simp only [Sent] at hs
  · exact hi
  · obtain ⟨hix, hk⟩ := hi
    simp only [unbounded] at hx
    exact ⟨by omega, hk⟩
  · rfl

theorem start_inv {mq : EQueue Evt} {pq : AO → EQueue Evt} {w : World} (hm : mq.toList = [])
    (h : start g mq pq = some w) : Inv g w := by
  simp only [start, init_lMissile, Option.some_bind, performAll, perform] at h
  cases h
  exact ⟨.init (init_lMissile g), by simp [hm], rfl⟩

theorem perform_isSome (w : World) (a : Action)
    (hp : ∀ ao, (w.peers ao).toList.length < (w.peers ao).cap) : ∃ w', w.perform a = some w' := by
  rcases a with s | ⟨ao, e⟩
  · exact ⟨_, rfl⟩
  · obtain ⟨q, hq⟩ := EQueue.post_isSome (hp ao) e
    exact ⟨{ w with peers := Function.update w.peers ao q }, by simp [perform, postPeer, hq]⟩

/-- From every state of the game, a turn of the Missile's thread never trips the assertion of a
full queue while the Tunnel's and the Ship's queues each have a free slot: one dispatch of the
Missile posts at most one event. -/
theorem missile_turn_completes (w : World)
    (ht : (w.peers .tunnel).toList.length < (w.peers .tunnel).cap)
    (hs : (w.peers .ship).toList.length < (w.peers .ship).cap) :
    ∃ w', step g w .missile = some w' := by
  simp only [step]
  rcases Active.turn_spec (hsm g) w.missile with ⟨-, ht'⟩ | ⟨e, -, -, hout⟩
  · rw [ht']; exact ⟨_, rfl⟩
  · have hlen := step_length_le_one (g := g) w.missile.hsm e
    rw [← dispatch_eq_step, ← hout] at hlen
    generalize (w.missile.turn (hsm g)).2 = as at hlen ⊢
    match as, hlen with
    | [], _ => exact ⟨_, rfl⟩
    | [a], _ =>
      obtain ⟨w', hw'⟩ := perform_isSome { w with missile := (w.missile.turn (hsm g)).1 } a
        fun ao => by cases ao <;> assumption
      exact ⟨w', by simp [performAll, hw']⟩

/-- A flying Missile with a queued tick, and one free slot in each peer's queue. -/
theorem missile_turn_completes_flying :
    let g : Consts := ⟨128, 2, 1, 2, 6⟩
    let q : EQueue Evt := EQueue.init [.timeTick] (by decide)
    let w : World := ⟨⟨⟨.flying, ⟨5, 7, 0⟩⟩, ⟨[.timeTick], 0, 1, by decide, by decide⟩⟩,
      fun _ => q, [.timeTick], fun _ => []⟩
    (w.peers .tunnel).toList.length < (w.peers .tunnel).cap ∧
      (w.peers .ship).toList.length < (w.peers .ship).cap ∧ ∃ w', step g w .missile = some w' :=
  ⟨by decide, by decide, missile_turn_completes _ (by decide) (by decide)⟩

theorem Inv.postMissile {w w' : World} {e : Evt} (hw : Inv g w) (he : Missile.FiresInside g e)
    (h : w.postMissile e = some w') : Inv g w' := by
  obtain ⟨hm, hq, -, hs, -⟩ := postMissile_spec h
  refine ⟨hm ▸ hw.missile, fun e' he' => ?_, hs ▸ hw.subs⟩
  rw [hq, List.mem_append, List.mem_singleton] at he'
  rcases he' with he' | rfl
  · exact hw.queued e' he'
  · exact he

theorem Inv.publish {w w' : World} {e : Evt} (hw : Inv g w) (h : w.publish e = some w') :
    Inv g w' := by
  obtain ⟨hm, hs, hq⟩ := publish_missile h
  refine ⟨hm ▸ hw.missile, fun e' he' => ?_, hs ▸ hw.subs⟩
  rw [hq, hw.subs, List.mem_append] at he'
  rcases he' with he' | he'
  · exact hw.queued e' he'
  · split at he'
    · next ht =>
      obtain rfl := List.mem_singleton.mp he'
      obtain rfl := Evt.sig_eq_timeTick.mp (List.mem_singleton.mp ht)
      trivial
    · cases he'

theorem Inv.turn {w : World} (hw : Inv g w) :
    Inv g { w with missile := (w.missile.turn (hsm g)).1 } := by
  rcases Active.turn_spec (hsm g) w.missile with ⟨-, ht⟩ | ⟨e, hq, hd, -⟩
  · rw [ht]; exact hw
  · have he := hw.queued e (by simp [hq])
    exact ⟨hd ▸ .dispatch hw.missile he, fun e' he' => hw.queued e' (by simp [hq, he']), hw.subs⟩

theorem Inv.turn_actionOk (hW : g.gameTunnelWidth + 3 ≤ 256) (hW1 : 1 ≤ g.gameTunnelWidth)
    {w : World} (hw : Inv g w) : ∀ a ∈ (w.missile.turn (hsm g)).2, ActionOk g a := by
  rcases Active.turn_spec (hsm g) w.missile with ⟨-, ht⟩ | ⟨e, hq, -, hout⟩
  · simp [ht]
  · exact hout ▸ dispatch_actionOk hW hW1 hw.missile (hw.queued e (by simp [hq]))

theorem step_inv (hW : g.gameTunnelWidth + 3 ≤ 256) (hW1 : 1 ≤ g.gameTunnelWidth)
    {w w' : World} {op : Op} (hw : Inv g w) (ho : op.FiresInside g) (h : step g w op = some w') :
    Inv g w' := by
  cases op with
  | post e => exact hw.postMissile ho h
  | publish e => exact hw.publish h
  | postPeer ao e =>
    obtain ⟨hm, hs, -⟩ := postPeer_spec h
    exact ⟨hm ▸ hw.missile, hm ▸ hw.queued, hs ▸ hw.subs⟩
  | subscribe | unsubscribe | peer => cases h; exact ⟨hw.missile, hw.queued, hw.subs⟩
  | missile =>
    obtain ⟨hm, hs⟩ := performAll_spec h hw.subs (hw.turn_actionOk hW hW1)
    exact ⟨hm ▸ hw.turn.missile, hm ▸ hw.turn.queued, hs⟩

theorem Reachable.inv (hW : g.gameTunnelWidth + 3 ≤ 256) (hW1 : 1 ≤ g.gameTunnelWidth)
    {w : World} (h : Reachable g w) : Inv g w := by
  induction h with
  | start hm h => exact start_inv hm h
  | step _ ho h ih => exact step_inv hW hW1 ih ho h

/-- In every state of the game reachable through any interleaving of posts, publications,
changes of the peers' rows and turns of the three threads, with every `MISSILE_FIRE` posted to
the Missile inside the tunnel: the Missile is inside the tunnel with at most 15 explosion
stages, its row of the registry holds the time tick alone, and its next turn posts to the Tunnel
only flight images inside the tunnel with the Missile's bitmap and explosion images less than
three pixels past it with an explosion bitmap, and to the Ship only mine hits. -/
theorem reachable_sends_ok (hW : g.gameTunnelWidth + 3 ≤ 256) (hW1 : 1 ≤ g.gameTunnelWidth)
    {w : World} (h : Reachable g w) :
    w.missile.hsm.me.x.toNat < g.gameTunnelWidth ∧
      (w.missile.hsm.state = .exploding → w.missile.hsm.me.expCtr.toNat ≤ 15) ∧
      w.subs = [.timeTick] ∧ ∀ a ∈ (w.missile.turn (hsm g)).2, ActionOk g a :=
  have hi := h.inv hW hW1
  have hs := hi.missile.safe hW hW1
  ⟨hs.x_lt, hs.expCtr_le, hi.subs, hi.turn_actionOk hW hW1⟩

/-- A Missile fired at `x = 5` in a 128-pixel tunnel, then a tick published to the Tunnel and the
Missile: the Missile's next turn posts its first image. -/
theorem reachable_sends_ok_after_publish :
    let g : Consts := ⟨128, 2, 1, 2, 6⟩
    let q : EQueue Evt := EQueue.init [.timeTick, .timeTick] (by decide)
    let w : World := ⟨⟨⟨.flying, ⟨5, 7, 0⟩⟩,
      ⟨[.missileFire ⟨5, 7⟩, .timeTick], 1, 1, by decide, by decide⟩⟩,
      Function.update (fun _ => q) .tunnel ⟨[.timeTick, .timeTick], 0, 1, by decide, by decide⟩,
      [.timeTick], Function.update (fun _ => []) .tunnel [.timeTick]⟩
    g.gameTunnelWidth + 3 ≤ 256 ∧ 1 ≤ g.gameTunnelWidth ∧ Reachable g w ∧
      (w.missile.hsm.me.x.toNat < g.gameTunnelWidth ∧
      (w.missile.hsm.state = .exploding → w.missile.hsm.me.expCtr.toNat ≤ 15) ∧
      w.subs = [.timeTick] ∧ ∀ a ∈ (w.missile.turn (hsm g)).2, ActionOk g a) :=
  let g : Consts := ⟨128, 2, 1, 2, 6⟩
  let q : EQueue Evt := EQueue.init [.timeTick, .timeTick] (by decide)
  let rows : AO → List Sig := Function.update (fun _ => []) .tunnel [.timeTick]
  let fired : EQueue Evt := ⟨[.missileFire ⟨5, 7⟩, .timeTick], 0, 1, by decide, by decide⟩
  let taken : EQueue Evt := ⟨[.missileFire ⟨5, 7⟩, .timeTick], 1, 0, by decide, by decide⟩
  have h0 : Reachable g ⟨⟨⟨.armed, lMissile⟩, q⟩, fun _ => q, [.timeTick], fun _ => []⟩ :=
    .start (EQueue.toList_init _ _) rfl
  have h1 : Reachable g ⟨⟨⟨.armed, lMissile⟩, q⟩, fun _ => q, [.timeTick], rows⟩ :=
    h0.step (show Op.FiresInside g (.subscribe .tunnel .timeTick) from trivial) rfl
  have h2 : Reachable g ⟨⟨⟨.armed, lMissile⟩, fired⟩, fun _ => q, [.timeTick], rows⟩ :=
    h1.step (show Op.FiresInside g (.post (.missileFire ⟨5, 7⟩)) from
      (by decide : (5 : BitVec 8).toNat < 128)) rfl
  have h3 : Reachable g ⟨⟨⟨.flying, ⟨5, 7, 0⟩⟩, taken⟩, fun _ => q, [.timeTick], rows⟩ :=
    h2.step (show Op.FiresInside g .missile from trivial) rfl
  have h4 := h3.step (show Op.FiresInside g (.publish .timeTick) from trivial) rfl
  ⟨by decide, by decide, h4, reachable_sends_ok (by decide) (by decide) h4⟩

end World

end Qpc.Game.Missile
