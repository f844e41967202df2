import Mathlib.Logic.Function.Iterate
import Mathlib.Tactic.Common

/-! # Rings with a cycle bit

A producer and a consumer go around the same `n` cells. Each cell has a bit
beside its value, and each side has a bit of its own that it flips when it goes
around; the consumer takes a cell only while the two bits agree. Neither side
knows where the other one is.

`Ok` is what holds as long as the producer never gets a whole lap ahead, and
`Delivers` is what it is for: whatever the consumer still takes are the values
that were sent, each once and in order.
-/

namespace Rv64Vm.Lib

variable {α : Type}

/-- The next cell, and the bit to go with it. -/
def nextCell (n : Nat) (p : Nat × Bool) : Nat × Bool := if n ≤ p.1 + 1 then (0, !p.2) else (p.1 + 1, p.2)

/-- The bit of the `i`-th value: it changes from lap to lap. -/
def lap (n i : Nat) : Bool := decide (i / n % 2 = 0)

/-- The cell of the `i`-th value. -/
def cellOf (n i : Nat) : Nat × Bool := (i % n, lap n i)

/-- The ring, with what was sent and what was received. -/
structure CycleRing (α : Type) where
  cells : Nat → α × Bool
  head : Nat × Bool := (0, true)
  tail : Nat × Bool := (0, true)
  sent : List α := []
  received : List α := []

namespace CycleRing

/-- Fill the producer's cell, whatever it holds. -/
def send (n : Nat) (v : α) (r : CycleRing α) : CycleRing α :=
  { r with
    cells := Function.update r.cells r.head.1 (v, r.head.2)
    head := nextCell n r.head
    sent := r.sent ++ [v] }

/-- Take the consumer's cell, if its bit is right. -/
def receive (n : Nat) (r : CycleRing α) : CycleRing α :=
  if (r.cells r.tail.1).2 = r.tail.2 then
    { r with tail := nextCell n r.tail, received := r.received ++ [(r.cells r.tail.1).1] }
  else r

/-- However often the consumer looks, it takes the next values in order, and no others; and those it has not taken
    yet are all there. -/
structure Delivers (n : Nat) (r : CycleRing α) : Prop where
  taken : ∀ k, ((receive n)^[k] r).received = r.sent.take (r.received.length + k)
  kept : ∀ i v, r.received.length ≤ i → r.sent[i]? = some v → (r.cells (i % n)).1 = v

structure Ok (n : Nat) (r : CycleRing α) : Prop where
  head : r.head = cellOf n r.sent.length
  tail : r.tail = cellOf n r.received.length
  order : r.received = r.sent.take r.received.length
  room : r.sent.length ≤ r.received.length + n
  full : ∀ i v, r.received.length ≤ i → r.sent[i]? = some v → r.cells (i % n) = (v, lap n i)
  free : ∀ i, r.sent.length ≤ i → i < r.received.length + n → (r.cells (i % n)).2 ≠ lap n i

end CycleRing

/-! ## Laps -/

theorem lap_add_self {n : Nat} (pos : 0 < n) (i : Nat) : lap n (i + n) = !lap n i := by
  have next : (i + n) / n = i / n + 1 := Nat.add_div_right i pos
  unfold lap
  rw [next, Bool.eq_iff_iff]
  simp
  omega

theorem lap_of_lt {n i : Nat} (small : i < n) : lap n i = true := by
  rw [lap, Nat.div_eq_of_lt small]
  rfl

theorem nextCell_cellOf {n : Nat} (pos : 0 < n) (i : Nat) : nextCell n (cellOf n i) = cellOf n (i + 1) := by
  have split := Nat.div_add_mod i n
  have small := Nat.mod_lt i pos
  unfold nextCell cellOf
  dsimp only
  split
  case isTrue last =>
    have whole : i + 1 = n * (i / n) + n := by omega
    have rem : (i + 1) % n = 0 := by rw [whole, Nat.add_mod_right, Nat.mul_mod_right]
    have quot : (i + 1) / n = i / n + 1 := by
      rw [whole, Nat.add_div_right _ pos, Nat.mul_div_cancel_left _ pos]
    rw [rem, lap, lap, quot, Prod.mk.injEq, Bool.eq_iff_iff]
    simp
    omega
  case isFalse inside =>
    have rem : (i + 1) % n = i % n + 1 := by
      rw [Nat.add_mod, Nat.mod_eq_of_lt (show 1 < n by omega), Nat.mod_eq_of_lt (by omega)]
    have quot : (i + 1) / n = i / n := by
      rw [Nat.div_eq_of_lt_le (k := i / n)]
      · rw [Nat.mul_comm]
        omega
      · rw [Nat.mul_comm, Nat.mul_add]
        omega
    rw [rem, lap, lap, quot]

/-- Less than a lap apart, two values have different cells. -/
theorem mod_ne_of_close {n i j : Nat} (lt : i < j) (close : j < i + n) : i % n ≠ j % n := by
  intro same
  have divides : n ∣ j - i := Nat.dvd_of_mod_eq_zero (Nat.sub_mod_eq_zero_of_mod_eq same.symm)
  have le := Nat.le_of_dvd (by omega) divides
  omega

namespace CycleRing

variable {n : Nat} {r : CycleRing α}

theorem Ok.fresh {cells : Nat → α × Bool} (clear : ∀ i < n, (cells i).2 = false) :
    Ok n ⟨cells, (0, true), (0, true), [], []⟩ where
  head := by simp [cellOf, lap]
  tail := by simp [cellOf, lap]
  order := rfl
  room := Nat.zero_le _
  full i v _ there := by simp at there
  free i _ inside := by
    have small : i < n := by simpa using inside
    rw [Nat.mod_eq_of_lt small, clear i small, lap_of_lt small]
    exact Bool.false_ne_true

theorem Ok.length_le (ok : Ok n r) : r.received.length ≤ r.sent.length := by
  have length := congrArg List.length ok.order
  rw [List.length_take] at length
  omega

theorem Ok.send (ok : Ok n r) (room : r.sent.length < r.received.length + n) (v : α) : Ok n (r.send n v) := by
  have le := ok.length_le
  have place : r.head.1 = r.sent.length % n := by rw [ok.head]; rfl
  have other {i : Nat} (beyond : r.received.length ≤ i) (ne : i ≠ r.sent.length) (near : i < r.sent.length + n) :
      i % n ≠ r.head.1 := by
    rw [place]
    rcases Nat.lt_or_gt_of_ne ne with lt | gt
    · exact mod_ne_of_close lt (by omega)
    · exact (mod_ne_of_close gt near).symm
  constructor
  · simp only [CycleRing.send, ok.head, List.length_append, List.length_singleton]
    exact nextCell_cellOf (by omega) _
  · exact ok.tail
  · simp only [CycleRing.send]
    rw [List.take_append_of_le_length le]
    exact ok.order
  · simp only [CycleRing.send, List.length_append, List.length_singleton]
    omega
  · intro i w low there
    simp only [CycleRing.send] at low there ⊢
    rcases Nat.lt_trichotomy i r.sent.length with lt | rfl | gt
    · rw [List.getElem?_append_left lt] at there
      rw [Function.update_of_ne (other low (by omega) (by omega))]
      exact ok.full i w low there
    · rw [List.getElem?_concat_length] at there
      rw [← place, Function.update_self, ← Option.some.inj there, ok.head]
      rfl
    · rw [List.getElem?_eq_none (by simp; omega)] at there
      cases there
  · intro i high inside
    simp only [CycleRing.send, List.length_append, List.length_singleton] at high inside ⊢
    rw [Function.update_of_ne (other (by omega) (by omega) (by omega))]
    exact ok.free i (by omega) inside

/-- The consumer takes the next value, if there is one. -/
theorem Ok.receive_eq (ok : Ok n r) (pos : 0 < n) :
    r.receive n = match r.sent[r.received.length]? with
      | some v => { r with tail := nextCell n r.tail, received := r.received ++ [v] }
      | none => r := by
  have le := ok.length_le
  have tail : r.tail = (r.received.length % n, lap n r.received.length) := ok.tail
  cases next : r.sent[r.received.length]? with
  | some v =>
    have cell := ok.full _ v (Nat.le_refl _) next
    rw [receive, tail, cell, if_pos rfl]
  | none =>
    have all : r.sent.length ≤ r.received.length := List.getElem?_eq_none_iff.mp next
    have bit := ok.free r.received.length all (by omega)
    rw [receive, tail, if_neg bit]

theorem Ok.receive (ok : Ok n r) (pos : 0 < n) : Ok n (r.receive n) := by
  rw [ok.receive_eq pos]
  cases next : r.sent[r.received.length]? with
  | none => exact ok
  | some v =>
    obtain ⟨lt, here⟩ := List.getElem?_eq_some_iff.mp next
    have room := ok.room
    constructor
    · exact ok.head
    · simp only [ok.tail, List.length_append, List.length_singleton]
      exact nextCell_cellOf pos _
    · simp only [List.length_append, List.length_singleton]
      rw [List.take_add_one, next, ← ok.order]
      rfl
    · simp only [List.length_append, List.length_singleton]
      omega
    · intro i w low there
      simp only [List.length_append, List.length_singleton] at low there ⊢
      exact ok.full i w (by omega) there
    · intro i high inside
      simp only [List.length_append, List.length_singleton] at high inside ⊢
      by_cases last : i = r.received.length + n
      · rw [last, Nat.add_mod_right, ok.full _ v (Nat.le_refl _) next, lap_add_self pos]
        simp
      · exact ok.free i high (by omega)

theorem Ok.delivers (ok : Ok n r) (pos : 0 < n) : Delivers n r where
  taken k := by
    induction k generalizing r with
    | zero => exact ok.order
    | succ k ih =>
      rw [Function.iterate_succ_apply, ih (ok.receive pos)]
      have same : (r.receive n).sent = r.sent := by unfold CycleRing.receive; split <;> rfl
      rw [same, ok.receive_eq pos]
      cases next : r.sent[r.received.length]? with
      | some v =>
        simp only [List.length_append, List.length_singleton]
        congr 1
        omega
      | none =>
        have all : r.sent.length ≤ r.received.length := List.getElem?_eq_none_iff.mp next
        dsimp only
        rw [List.take_of_length_le (by omega), List.take_of_length_le (by omega)]
  kept i v low there := by rw [ok.full i v low there]

/-! ## What goes wrong -/

/-- The consumer waits although there is something for it. -/
theorem not_delivers_of_stuck (stuck : (r.cells r.tail.1).2 ≠ r.tail.2) (more : r.received.length < r.sent.length) :
    ¬ Delivers n r := by
  intro delivers
  have length := congrArg List.length (delivers.taken 1)
  rw [Function.iterate_one, CycleRing.receive, if_neg stuck, List.length_take] at length
  omega

/-- The producer comes back to a cell that was not taken. -/
theorem Ok.not_delivers_of_full (ok : Ok n r) (pos : 0 < n) (full : r.sent.length = r.received.length + n) (v : α) :
    ¬ Delivers n (r.send n v) := by
  have same : r.head.1 = r.tail.1 := by rw [ok.head, ok.tail, full, cellOf, cellOf, Nat.add_mod_right]
  have flipped : r.head.2 = !r.tail.2 := by rw [ok.head, ok.tail, full, cellOf, cellOf, lap_add_self pos]
  apply not_delivers_of_stuck
  · simp only [CycleRing.send, same, Function.update_self, flipped]
    simp
  · simp only [CycleRing.send, List.length_append]
    omega

theorem iterate_receive_sent (sent : List α) (k : Nat) (r : CycleRing α) :
    (receive n)^[k] { r with sent := sent } = { (receive n)^[k] r with sent := sent } := by
  induction k generalizing r with
  | zero => rfl
  | succ k ih =>
    have one : CycleRing.receive n { r with sent := sent } = { r.receive n with sent := sent } := by
      simp only [CycleRing.receive]
      split <;> rfl
    rw [Function.iterate_succ_apply, Function.iterate_succ_apply, one, ih]

/-- A value that is put in no cell. -/
theorem Ok.not_delivers_of_lost (ok : Ok n r) (pos : 0 < n) (v : α) :
    ¬ Delivers n { r with sent := r.sent ++ [v] } := by
  intro delivers
  have le := ok.length_le
  have length := congrArg List.length (delivers.taken (r.sent.length + 1))
  have before := congrArg List.length ((ok.delivers pos).taken (r.sent.length + 1))
  rw [iterate_receive_sent] at length
  simp only [List.length_take, List.length_append, List.length_singleton] at length before
  omega

/-- The second value is put in the first cell again. -/
theorem Ok.not_delivers_of_back (ok : Ok n r) (two : 2 ≤ n) (one : r.sent.length = 1) (v : α) :
    ¬ Delivers n { r with cells := Function.update r.cells 0 (v, false), sent := r.sent ++ [v] } := by
  have le := ok.length_le
  have tail := ok.tail
  apply not_delivers_of_stuck
  · dsimp only
    rcases Nat.lt_or_ge r.received.length 1 with fewer | taken
    · have zero : r.received.length = 0 := by omega
      rw [tail, zero, cellOf, Nat.zero_mod, Function.update_self, lap_of_lt (by omega)]
      exact Bool.false_ne_true
    · have once : r.received.length = 1 := by omega
      have free := ok.free 1 (by omega) (by omega)
      rw [Nat.mod_eq_of_lt (by omega)] at free
      rw [tail, once, cellOf, Nat.mod_eq_of_lt (by omega)]
      dsimp only
      rwa [Function.update_of_ne (by decide)]
  · simp only [List.length_append, List.length_singleton]
    omega

end CycleRing

end Rv64Vm.Lib
