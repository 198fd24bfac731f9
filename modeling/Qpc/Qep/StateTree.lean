import Mathlib.Data.List.Basic

/-! # The state hierarchy of a QEP state machine

States form a tree below the top state `QHsm_top`. The event processor walks a state's
ancestor chain twice: to offer an event to the superstates of the current state, and to
find the least common ancestor that bounds the exit and entry chains of a transition.
-/

namespace Qpc.Qep

variable {σ : Type}

/-- Modelled from the spec: the static state tree of `qep_hsm.c`. `parent s = none` makes
`s` a direct substate of `QHsm_top`; the nesting depth is bounded, as the path arrays of
the event processor are. -/
structure StateTree (σ : Type) where
  parent : σ → Option σ
  depth : σ → Nat
  maxDepth : Nat
  depth_parent : ∀ s p, parent s = some p → depth s = depth p + 1
  depth_lt : ∀ s, depth s < maxDepth

namespace StateTree

variable (T : StateTree σ) {s p : σ}

def pathAux : Nat → σ → List σ
  | 0, s => [s]
  | n + 1, s => s :: match T.parent s with
    | none => []
    | some p => pathAux n p

/-- The ancestor chain `s`, its superstate, …, up to a direct substate of `QHsm_top`. -/
def path (s : σ) : List σ := T.pathAux (T.depth s) s

@[simp] theorem path_of_parent_none (h : T.parent s = none) : T.path s = [s] := by
  unfold path
  cases T.depth s <;> simp [pathAux, h]

@[simp] theorem path_of_parent_some (h : T.parent s = some p) : T.path s = s :: T.path p := by
  rw [path, T.depth_parent s p h]
  simp [pathAux, h, path]

/-- A machine whose states all sit directly below `QHsm_top`. -/
def Flat : Prop := ∀ s, T.parent s = none

theorem path_of_flat (hT : T.Flat) (s : σ) : T.path s = [s] :=
  T.path_of_parent_none (hT s)

section Transition

variable [DecidableEq σ]

/-- Modelled from the spec: the least common ancestor of `QHsm_tran_`. Where a transition
from `s` to `t` stops exiting and starts entering: the first state of the source's chain
that lies on the target's (`none` is `QHsm_top`). A transition to self exits and
re-enters the source, so for it this is the source's superstate. -/
def lca (s t : σ) : Option σ :=
  if s = t then T.parent s else (T.path s).find? fun q => q ∈ T.path t

/-- The states of the chain of `s` strictly below `l`, innermost first. -/
def upTo (s : σ) (l : Option σ) : List σ :=
  (T.path s).takeWhile fun q => some q ≠ l

@[simp] theorem upTo_top (s : σ) : T.upTo s none = T.path s := by
  simp [upTo, List.takeWhile_eq_self_iff]

theorem lca_of_flat (hT : T.Flat) (s t : σ) : T.lca s t = none := by
  by_cases h : s = t <;> simp [lca, h, hT s, hT t]

end Transition

end StateTree

end Qpc.Qep
