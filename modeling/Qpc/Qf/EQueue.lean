import Mathlib.Data.List.OfFn

/-! # The event queue of an active object

Modelled from the spec (§4.2): the ring buffer `QEQueue` of `qf_qeq.c`, which the ports of
`ports_rtos.dox` use as the event queue of every active object. The queue lives in storage the
caller provides; it keeps the slot of its oldest entry and the number of entries, so a post
writes one slot and a get moves the head, and no event is ever copied. The ring refines a
bounded FIFO list: a post appends, a get takes the front, and a full queue refuses a post and
stays as it is.
-/

namespace Qpc.Qf

/-- The slot `offset` places after `head` in a ring of `cap` slots: the ring wraps at most once
while `head < cap` and `offset ≤ cap`. -/
def ringIndex (head offset cap : Nat) : Nat :=
  if head + offset < cap then head + offset else head + offset - cap

theorem ringIndex_lt {head offset cap : Nat} (h : head < cap) (ho : offset ≤ cap) :
    ringIndex head offset cap < cap := by
  unfold ringIndex; split <;> omega

theorem ringIndex_zero {head cap : Nat} (h : head < cap) : ringIndex head 0 cap = head := by
  simp [ringIndex, h]

theorem ringIndex_ne {head a b cap : Nat} (hab : a < b) (hb : b < cap) :
    ringIndex head a cap ≠ ringIndex head b cap := by
  unfold ringIndex; split <;> split <;> omega

theorem ringIndex_ringIndex_one {head offset cap : Nat} (h : head < cap) (ho : offset + 1 ≤ cap) :
    ringIndex (ringIndex head 1 cap) offset cap = ringIndex head (offset + 1) cap := by
  unfold ringIndex; split <;> split <;> split <;> omega

/-- Modelled from the spec: a `QEQueue` over the caller's storage `ring`, with the slot `head`
of its oldest entry and its number of entries `nUsed`. -/
structure EQueue (α : Type) where
  ring : List α
  head : Nat
  nUsed : Nat
  head_lt : head < ring.length
  nUsed_le : nUsed ≤ ring.length

/-- A bounded FIFO: the entries, oldest first, and the capacity. This is what a queue is for. -/
structure Fifo (α : Type) where
  items : List α
  cap : Nat
  length_le : items.length ≤ cap

namespace Fifo

variable {α : Type}

theorem eq_iff {f f' : Fifo α} : f = f' ↔ f.items = f'.items ∧ f.cap = f'.cap := by
  cases f; cases f'; simp

def post (f : Fifo α) (e : α) : Option (Fifo α) :=
  if h : f.items.length < f.cap then some ⟨f.items ++ [e], f.cap, by simpa using h⟩ else none

def get : Fifo α → Option (α × Fifo α)
  | ⟨[], _, _⟩ => none
  | ⟨e :: es, cap, h⟩ => some (e, ⟨es, cap, Nat.le_of_succ_le h⟩)

end Fifo

namespace EQueue

variable {α : Type}

def cap (q : EQueue α) : Nat := q.ring.length

/-- `QEQueue_init`: an empty queue over the caller's storage `sto`. -/
def init (sto : List α) (h : sto ≠ []) : EQueue α :=
  ⟨sto, 0, 0, List.length_pos.mpr h, Nat.zero_le _⟩

/-- The entries, oldest first: `nUsed` slots from `head` around the ring. -/
def toList (q : EQueue α) : List α :=
  List.ofFn fun i : Fin q.nUsed =>
    q.ring.get ⟨ringIndex q.head i q.ring.length, ringIndex_lt q.head_lt
      (Nat.le_trans i.isLt.le q.nUsed_le)⟩

/-- The FIFO the queue stands for. -/
def abs (q : EQueue α) : Fifo α :=
  ⟨q.toList, q.cap, by simpa [toList, cap] using q.nUsed_le⟩

/-- `QEQueue_post` (`try_post` of §4.2): a free slot takes the event after the newest entry;
a full queue refuses it. -/
def post (q : EQueue α) (e : α) : Option (EQueue α) :=
  if h : q.nUsed < q.ring.length then
    some ⟨q.ring.set (ringIndex q.head q.nUsed q.ring.length) e, q.head, q.nUsed + 1,
      by simpa using q.head_lt, by simpa using h⟩
  else none

/-- `QEQueue_get` (`pop` of §4.2): the oldest entry and the queue without it; an empty queue
gives nothing. -/
def get (q : EQueue α) : Option (α × EQueue α) :=
  if h : q.nUsed = 0 then none
  else
    some (q.ring.get ⟨q.head, q.head_lt⟩, ⟨q.ring, ringIndex q.head 1 q.ring.length, q.nUsed - 1,
      ringIndex_lt q.head_lt (Nat.succ_le_of_lt (Nat.zero_lt_of_lt q.head_lt)),
      by have := q.nUsed_le; omega⟩)

@[simp] theorem length_toList (q : EQueue α) : q.toList.length = q.nUsed := by
  simp [toList]

@[simp] theorem toList_init (sto : List α) (h : sto ≠ []) : (init sto h).toList = [] := by
  simp [toList, init]

theorem getElem_toList (q : EQueue α) (i : Nat) (hi : i < q.toList.length) :
    q.toList[i] = q.ring.get ⟨ringIndex q.head i q.ring.length, ringIndex_lt q.head_lt
      (by simp at hi; have := q.nUsed_le; omega)⟩ := by
  simp [toList]

theorem toList_post {q q' : EQueue α} {e : α} (h : q.post e = some q') :
    q'.toList = q.toList ++ [e] := by
  unfold post at h
  split at h
  · next hlt =>
    cases h
    apply List.ext_getElem (by simp)
    intro i h₁ h₂
    simp only [length_toList] at h₁
    rw [getElem_toList]
    simp only [List.get_eq_getElem, List.length_set]
    rw [List.getElem_set]
    by_cases hi : i < q.nUsed
    · rw [if_neg (ringIndex_ne hi hlt).symm, List.getElem_append_left (by simpa using hi),
        getElem_toList, List.get_eq_getElem]
    · have hi' : i = q.nUsed := by omega
      subst hi'
      simp
  · cases h

theorem toList_get {q q' : EQueue α} {e : α} (h : q.get = some (e, q')) :
    q.toList = e :: q'.toList := by
  unfold get at h
  split at h
  · cases h
  · next h0 =>
    cases h
    apply List.ext_getElem (by simp; omega)
    intro i h₁ h₂
    rw [getElem_toList]
    cases i with
    | zero => simp [ringIndex_zero q.head_lt]
    | succ i =>
      simp only [List.getElem_cons_succ]
      rw [getElem_toList]
      simp only [length_toList] at h₁
      have := q.nUsed_le
      simp only [ringIndex_ringIndex_one q.head_lt (by omega : i + 1 ≤ q.ring.length)]

theorem length_toList_le (q : EQueue α) : q.toList.length ≤ q.cap := by
  simpa using q.nUsed_le

theorem cap_post {q q' : EQueue α} {e : α} (h : q.post e = some q') : q'.cap = q.cap := by
  unfold post at h
  split at h <;> cases h
  simp [cap]

theorem cap_get {q q' : EQueue α} {e : α} (h : q.get = some (e, q')) : q'.cap = q.cap := by
  unfold get at h
  split at h <;> cases h
  rfl

theorem post_eq_none {q : EQueue α} {e : α} : q.post e = none ↔ q.toList.length = q.cap := by
  have := q.nUsed_le
  unfold post
  split <;> simp [cap] at * <;> omega

theorem post_isSome {q : EQueue α} (h : q.toList.length < q.cap) (e : α) :
    ∃ q', q.post e = some q' :=
  Option.ne_none_iff_exists'.mp fun hn => Nat.ne_of_lt h (post_eq_none.mp hn)

theorem get_eq_none {q : EQueue α} : q.get = none ↔ q.toList = [] := by
  rw [← List.length_eq_zero, length_toList]
  unfold get
  split <;> simp_all

/-- The queue a thread leaves when it takes its oldest event and consumes it. -/
theorem toList_get_getD (q : EQueue α) : ((q.get.map Prod.snd).getD q).toList = q.toList.tail := by
  cases h : q.get with
  | none => simp [get_eq_none.mp h]
  | some p => simp [toList_get h]

theorem map_abs_post (q : EQueue α) (e : α) : (q.post e).map abs = q.abs.post e := by
  cases h : q.post e with
  | none => simp [Fifo.post, abs, post_eq_none.mp h]
  | some q' =>
    have hlt : q.toList.length < q.cap :=
      lt_of_le_of_ne q.length_toList_le fun hc => by rw [post_eq_none.mpr hc] at h; cases h
    simp only [Option.map_some', Fifo.post, abs, dif_pos hlt, Option.some.injEq,
      Fifo.eq_iff, toList_post h, cap_post h, and_self]

theorem map_abs_get (q : EQueue α) : q.get.map (Prod.map id abs) = q.abs.get := by
  cases h : q.get with
  | none => simp [get_eq_none.mp h, abs, Fifo.get]
  | some p =>
    obtain ⟨e', q'⟩ := p
    simp [abs, toList_get h, Fifo.get, cap_get h]

/-- The ring refines the bounded FIFO: a post and a get of `QEQueue` do to the entries what the
list operations do, refusal and emptiness included. -/
theorem abs_post_get (q : EQueue α) (e : α) :
    (q.post e).map abs = q.abs.post e ∧ q.get.map (Prod.map id abs) = q.abs.get :=
  ⟨map_abs_post q e, map_abs_get q⟩

end EQueue

end Qpc.Qf
