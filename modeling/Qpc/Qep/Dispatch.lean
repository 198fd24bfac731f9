import Qpc.Qep.StateTree

/-! # The QEP dispatcher

The event processor behind `QHsm_init` and `QHsm_dispatch`, whose source is not part of
this model; it follows the dispatch algorithm of the specification. An event is offered to
the current state and then to its superstates until a handler takes it. A transition exits
the states below the least common ancestor of source and target, innermost first, enters
the target's chain from there, outermost first, and then follows initial transitions down
to a leaf. Entry, exit and initial transitions are reserved signals sent to the same state
handlers; what the handlers emit is returned in order.
-/

namespace Qpc.Qep

/-- Modelled from the spec: the signals of `qep.h`. A state handler receives a reserved
signal of the event processor or a user event. -/
inductive QSignal (E : Type) where
  | entry
  | exit
  | init
  | user (e : E)
  deriving DecidableEq, Repr

/-- Modelled from the spec: the return codes of `qep.h`. A state handler returns
`Q_HANDLED()`, `Q_TRAN(target)`, or `Q_SUPER(...)`, which leaves the signal to the
superstate. -/
inductive QState (σ : Type) where
  | handled
  | tran (target : σ)
  | super
  deriving DecidableEq, Repr

structure QResult (σ X O : Type) where
  status : QState σ
  me : X
  out : List O

/-- Modelled from the spec: a state machine of `qep.h`, its state tree, its top-most
initial transition and the handler of every state. -/
structure QHsmDef (σ X E O : Type) where
  tree : StateTree σ
  initial : X → QResult σ X O
  handler : σ → QSignal E → X → QResult σ X O

/-- Modelled from the spec: the `QHsm` object of `qep.h`, its current state `me->state`
with the derived object's own attributes. -/
structure QHsm (σ X : Type) where
  state : σ
  me : X

namespace QHsmDef

variable {σ X E O : Type} [DecidableEq σ] (H : QHsmDef σ X E O)

/-- Modelled from the spec: the exit and entry chains of `qep_hsm.c`. Deliver one reserved
signal to each state of the list in order. -/
def trig (sig : QSignal E) : List σ → X → X × List O
  | [], x => (x, [])
  | s :: ss, x =>
    let r := H.handler s sig x
    let rest := trig sig ss r.me
    (rest.1, r.out ++ rest.2)

/-- Modelled from the spec: the superstate walk of `QHsm_dispatch`. Offer a user event to
each state of the chain in turn until one does not leave it to its superstate.
`some (s, t)` when the handler of `s` took a transition to `t`. -/
def walk (e : E) : List σ → X → Option (σ × σ) × X × List O
  | [], x => (none, x, [])
  | s :: ss, x =>
    let r := H.handler s (.user e) x
    match r.status with
    | .super =>
      let w := walk e ss r.me
      (w.1, w.2.1, r.out ++ w.2.2)
    | .handled => (none, r.me, r.out)
    | .tran t => (some (s, t), r.me, r.out)

/-- Modelled from the spec: the initial-transition drill of `qep_hsm.c`. Follow the initial
transitions of the entered state `t` towards a leaf, entering the states on the way; at
most `n` of them. Returns the settled state. -/
def drill : Nat → σ → X → σ × X × List O
  | 0, t, x => (t, x, [])
  | n + 1, t, x =>
    let r := H.handler t .init x
    match r.status with
    | .tran u =>
      let en := H.trig .entry (H.tree.upTo u (some t)).reverse r.me
      let d := drill n u en.1
      (d.1, d.2.1, r.out ++ en.2 ++ d.2.2)
    | _ => (t, r.me, r.out)

/-- Modelled from the spec: `QHsm_init`. Take the top-most initial transition, enter its
target from `QHsm_top` down and settle it. `none` when the initial pseudostate takes no
transition, which the event processor asserts against. -/
def init (x : X) : Option (QHsm σ X × List O) :=
  let r := H.initial x
  match r.status with
  | .tran t =>
    let en := H.trig .entry (H.tree.path t).reverse r.me
    let d := H.drill H.tree.maxDepth t en.1
    some (⟨d.1, d.2.1⟩, r.out ++ en.2 ++ d.2.2)
  | _ => none

/-- Modelled from the spec: `QHsm_dispatch`. Process one event to completion. -/
def dispatch (m : QHsm σ X) (e : E) : QHsm σ X × List O :=
  let w := H.walk e (H.tree.path m.state) m.me
  match w.1 with
  | none => (⟨m.state, w.2.1⟩, w.2.2)
  | some (s, t) =>
    let l := H.tree.lca s t
    let ex := H.trig .exit (H.tree.upTo m.state l) w.2.1
    let en := H.trig .entry (H.tree.upTo t l).reverse ex.1
    let d := H.drill H.tree.maxDepth t en.1
    (⟨d.1, d.2.1⟩, w.2.2 ++ ex.2 ++ en.2 ++ d.2.2)

/-- Dispatch the events one after another, keeping every emitted action in order. -/
def run (m : QHsm σ X) : List E → QHsm σ X × List O
  | [] => (m, [])
  | e :: es =>
    let r := H.dispatch m e
    let rest := run r.1 es
    (rest.1, r.2 ++ rest.2)

@[simp] theorem run_nil (m : QHsm σ X) : H.run m [] = (m, []) := rfl

theorem run_cons (m : QHsm σ X) (e : E) (es : List E) :
    H.run m (e :: es) = ((H.run (H.dispatch m e).1 es).1,
      (H.dispatch m e).2 ++ (H.run (H.dispatch m e).1 es).2) := rfl

theorem run_append (m : QHsm σ X) (es fs : List E) :
    H.run m (es ++ fs) =
      ((H.run (H.run m es).1 fs).1, (H.run m es).2 ++ (H.run (H.run m es).1 fs).2) := by
  induction es generalizing m with
  | nil => simp
  | cons e es ih => simp [run_cons, ih]

theorem run_concat (m : QHsm σ X) (es : List E) (e : E) :
    H.run m (es ++ [e]) = ((H.dispatch (H.run m es).1 e).1,
      (H.run m es).2 ++ (H.dispatch (H.run m es).1 e).2) := by
  simp [run_append, run_cons]

/-! ## Machines whose states all sit directly below the top state -/

section Flat

variable (hT : H.tree.Flat)
include hT

/-- On a flat machine an event is offered to the current state only, and a transition
exits the current state, enters the target and settles it. -/
theorem dispatch_of_flat (m : QHsm σ X) (e : E) :
    H.dispatch m e =
      let r := H.handler m.state (.user e) m.me
      match r.status with
      | .tran t =>
        let ex := H.handler m.state .exit r.me
        let en := H.handler t .entry ex.me
        let d := H.drill H.tree.maxDepth t en.me
        (⟨d.1, d.2.1⟩, r.out ++ ex.out ++ en.out ++ d.2.2)
      | _ => (⟨m.state, r.me⟩, r.out) := by
  simp only [dispatch, H.tree.path_of_flat hT, walk, H.tree.lca_of_flat hT, StateTree.upTo_top]
  cases (H.handler m.state (.user e) m.me).status <;> simp [trig]

end Flat

end QHsmDef

end Qpc.Qep
