import Rv64Vm.Lib.Pext

/-! # Bit patterns behind a lossy hash

A pattern fixes some bits of a word. A table that is indexed by the bits under a
hash mask can only see part of a pattern, so several patterns may claim one slot;
the most specific one gets it. `best_of_hashed` says when one comparison
against that winner decides the match as well as a search of all patterns would.
-/

namespace Rv64Vm.Lib

structure Pattern where
  mask : Nat
  value : Nat
  value_and_mask : value &&& mask = value

namespace Pattern

variable {p q : Pattern} {h w n : Nat}

def Matches (p : Pattern) (w : Nat) : Prop := w &&& p.mask = p.value

/-- The part of the match that is visible under the hash mask. -/
def Hashes (p : Pattern) (h w : Nat) : Prop := w &&& p.mask &&& h = p.value &&& h

instance : Decidable (p.Hashes h w) := inferInstanceAs (Decidable (_ = _))

def fixed (n : Nat) (p : Pattern) : Nat := popcount n p.mask

/-- A word can be in the slots of both. -/
def Clash (h : Nat) (p q : Pattern) : Prop := p.mask &&& q.value &&& h = q.mask &&& p.value &&& h

/-- `q` is more specific, and what the hash hides of `q` is fixed by `p` the same way. -/
structure Yields (n h : Nat) (p q : Pattern) : Prop where
  fixed_lt : p.fixed n < q.fixed n
  hidden : q.mask &&& (h ||| p.mask) = q.mask
  agree : p.mask &&& q.value = q.mask &&& p.value

def Separated (n h : Nat) (p q : Pattern) : Prop := p.Clash h q → p.Yields n h q ∨ q.Yields n h p

theorem Matches.hashes (hit : p.Matches w) : p.Hashes h w := by
  rw [Hashes, show w &&& p.mask = p.value from hit]

theorem Hashes.clash (left : p.Hashes h w) (right : q.Hashes h w) : p.Clash h q := by
  calc p.mask &&& q.value &&& h
      = p.mask &&& (q.value &&& h) := Nat.and_assoc ..
    _ = p.mask &&& (w &&& q.mask &&& h) := by rw [← right]
    _ = q.mask &&& (w &&& p.mask &&& h) := by
        simp only [Nat.and_left_comm, Nat.and_comm]
    _ = q.mask &&& (p.value &&& h) := by rw [left]
    _ = q.mask &&& p.value &&& h := (Nat.and_assoc ..).symm

/-- Patterns that share a word agree on the bits that both fix. -/
theorem Matches.agree (left : p.Matches w) (right : q.Matches w) : p.mask &&& q.value = q.mask &&& p.value := by
  rw [← show w &&& p.mask = p.value from left, ← show w &&& q.mask = q.value from right]
  simp only [Nat.and_left_comm, Nat.and_comm]

theorem Yields.matches_of (better : p.Yields n h q) (hashed : q.Hashes h w) (hit : p.Matches w) : q.Matches w := by
  apply Nat.eq_of_testBit_eq
  intro i
  have bit {a b : Nat} (same : a = b) := congrArg (Nat.testBit · i) same
  have own := bit q.value_and_mask
  have seen := bit hashed
  have hidden := bit better.hidden
  have agree := bit better.agree
  have matched := bit hit
  simp only [Nat.testBit_and, Nat.testBit_or] at own seen hidden agree matched ⊢
  -- a fixed bit of `q` is under the hash or is one of `p`
  grind

/-- Separated patterns of one rank never match the same word. -/
theorem Separated.fixed_ne (separated : p.Separated n h q) (left : p.Matches w) (right : q.Matches w) :
    p.fixed n ≠ q.fixed n := by
  rcases separated (left.hashes.clash right.hashes) with better | worse
  · exact better.fixed_lt.ne
  · exact worse.fixed_lt.ne'

section Table

variable {ι : Type*} {pat : ι → Pattern} {k : ι}

/-- The most specific pattern of a slot decides the match. -/
theorem best_of_hashed (sep : ∀ i j, i ≠ j → (pat i).Separated n h (pat j))
    (hashed : (pat k).Hashes h w) (best : ∀ j, (pat j).Hashes h w → (pat j).fixed n ≤ (pat k).fixed n)
    {j : ι} (hit : (pat j).Matches w) :
    (pat k).Matches w ∧ (j = k ∨ (pat j).fixed n < (pat k).fixed n) := by
  by_cases same : j = k
  · exact ⟨same ▸ hit, .inl same⟩
  · have le := best j hit.hashes
    rcases sep j k same (hit.hashes.clash hashed) with better | worse
    · exact ⟨better.matches_of hashed hit, .inr better.fixed_lt⟩
    · exact absurd worse.fixed_lt (by omega)

end Table

/-! ## Filling the slots of one pattern -/

/-- The bits of the hash that the pattern leaves open. -/
def Free (p : Pattern) (h d : Nat) : Prop := ∀ i, d.testBit i = (h.testBit i && !p.mask.testBit i)

/-- The slot of the word that has the pattern's bits and `x` elsewhere under the hash. -/
def slot (n : Nat) (p : Pattern) (h x : Nat) : Nat := pext n (p.value &&& h ||| x) h

variable {d x y : Nat}

theorem Free.submask (free : p.Free h d) (inside : x &&& d = x) (i : Nat) :
    x.testBit i = (x.testBit i && (h.testBit i && !p.mask.testBit i)) := by
  rw [← free i, ← Nat.testBit_and, inside]

theorem Free.lt (free : p.Free h d) (hh : h < 2 ^ n) : d < 2 ^ n := by
  have inside : d &&& h = d := by
    apply Nat.eq_of_testBit_eq
    intro i
    rw [Nat.testBit_and, free i]
    cases h.testBit i <;> simp
  exact inside ▸ Nat.and_lt_two_pow _ hh

theorem slot_arg_lt (hh : h < 2 ^ n) (hd : d < 2 ^ n) (inside : x &&& d = x) : p.value &&& h ||| x < 2 ^ n :=
  Nat.or_lt_two_pow (Nat.and_lt_two_pow _ hh) (inside ▸ Nat.and_lt_two_pow _ hd)

theorem Free.slot_inj (free : p.Free h d) (hh : h < 2 ^ n) (insideX : x &&& d = x) (insideY : y &&& d = y)
    (same : p.slot n h x = p.slot n h y) : x = y := by
  have hd := free.lt hh
  have agree := (pext_eq_iff (slot_arg_lt hh hd insideX) (slot_arg_lt hh hd insideY)).mp same
  apply Nat.eq_of_testBit_eq
  intro i
  have bits := congrArg (Nat.testBit · i) agree
  have own := congrArg (Nat.testBit · i) p.value_and_mask
  have onlyX := free.submask insideX i
  have onlyY := free.submask insideY i
  simp only [Nat.testBit_and, Nat.testBit_or] at bits own
  grind

/-- A word's slot is one of the pattern's exactly when its visible part matches. -/
theorem Free.slot_eq_iff (free : p.Free h d) (hh : h < 2 ^ n) (hw : w < 2 ^ n) :
    (∃ x, x &&& d = x ∧ p.slot n h x = pext n w h) ↔ p.Hashes h w := by
  constructor
  · rintro ⟨x, inside, same⟩
    have agree := (pext_eq_iff (slot_arg_lt hh (free.lt hh) inside) hw).mp same
    apply Nat.eq_of_testBit_eq
    intro i
    have bits := congrArg (Nat.testBit · i) agree
    have own := congrArg (Nat.testBit · i) p.value_and_mask
    have only := free.submask inside i
    simp only [Nat.testBit_and, Nat.testBit_or] at bits own ⊢
    grind
  · intro hashed
    have inside : w &&& d &&& d = w &&& d := by rw [Nat.and_assoc, Nat.and_self]
    refine ⟨w &&& d, inside, ?_⟩
    apply (pext_eq_iff (slot_arg_lt hh (free.lt hh) inside) hw).mpr
    apply Nat.eq_of_testBit_eq
    intro i
    have bits := congrArg (Nat.testBit · i) hashed
    have only := free i
    simp only [Nat.testBit_and, Nat.testBit_or] at bits ⊢
    grind

/-- After the loop over the free bits, the slots of matching words have been updated. -/
theorem Free.fill_slot {β : Type*} {put : β → β} (free : p.Free h d) (hh : h < 2 ^ n) (hw : w < 2 ^ n)
    {fuel : Nat} (enough : 2 ^ popcount n d ≤ fuel) (lut : Nat → β) :
    forSubmasks n d (fun x lut => Function.update lut (p.slot n h x) (put (lut (p.slot n h x)))) fuel 0 lut
        (pext n w h) =
      if p.Hashes h w then put (lut (pext n w h)) else lut (pext n w h) := by
  obtain ⟨visited, untouched⟩ := forSubmasks_apply put (free.lt hh)
    (fun x y insideX insideY => free.slot_inj hh insideX insideY) enough lut
  split
  case isTrue hashed =>
    obtain ⟨x, inside, same⟩ := (free.slot_eq_iff hh hw).mpr hashed
    rw [← same]
    exact visited x inside
  case isFalse apart =>
    exact untouched _ fun x inside same => apart ((free.slot_eq_iff hh hw).mp ⟨x, inside, same⟩)

end Pattern

end Rv64Vm.Lib
