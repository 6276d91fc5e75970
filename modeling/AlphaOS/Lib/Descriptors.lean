import Mathlib.Data.Nat.Notation
import Mathlib.Tactic.SplitIfs

set_option relaxedAutoImplicit false
set_option autoImplicit false

/-!
# Segment and gate descriptors

How an x86 processor in protected mode reads the descriptors of the global descriptor table and of
the interrupt descriptor table, and what it checks before it enters an interrupt handler.

## Main definitions

* `X86.SegDescriptor`, `X86.Gate` — descriptors, with their eight bytes.
* `X86.Tables`, `X86.Tables.deliver` — the two tables, and the delivery of an interrupt through
  them.

## Main results

* `X86.SegDescriptor.decode_bytes`, `X86.Gate.decode_bytes` — the fields are read back.
-/

namespace X86

/-! ## Fields of a word -/

section Fields

variable {a b start len : ℕ} {x : BitVec a} {y : BitVec b}

/-- A field of the left part. -/
lemma field_left (h : b ≤ start) :
    (x ++ y).extractLsb' start len = x.extractLsb' (start - b) len := by
  apply BitVec.eq_of_getLsbD_eq
  intro i hi
  have hshift : start + i - b = start - b + i := by omega
  simp only [BitVec.getLsbD_extractLsb', BitVec.getLsbD_append,
    if_neg (show ¬ start + i < b by omega), hshift]

/-- A field of the right part. -/
lemma field_right (h : start + len ≤ b) :
    (x ++ y).extractLsb' start len = y.extractLsb' start len := by
  apply BitVec.eq_of_getLsbD_eq
  intro i hi
  simp only [BitVec.getLsbD_extractLsb', BitVec.getLsbD_append,
    if_pos (show start + i < b by omega)]

/-- The whole word. -/
lemma field_all : x.extractLsb' 0 a = x := by
  apply BitVec.eq_of_getLsbD_eq
  intro i hi
  simp [hi]

end Fields

/-! ## Descriptors -/

/-- A segment descriptor. -/
structure SegDescriptor where
  base : BitVec 32
  limit : BitVec 20
  access : BitVec 8
  flags : BitVec 4
deriving DecidableEq, Repr

namespace SegDescriptor

/-- The fields in the eight bytes of a descriptor. -/
def decode (w : BitVec 64) : SegDescriptor where
  base := w.extractLsb' 56 8 ++ w.extractLsb' 32 8 ++ w.extractLsb' 16 16
  limit := w.extractLsb' 48 4 ++ w.extractLsb' 0 16
  access := w.extractLsb' 40 8
  flags := w.extractLsb' 52 4

/-- Bit 7 of the access byte. -/
def present (d : SegDescriptor) : Bool := d.access.getLsbD 7

/-- The descriptor's privilege level. -/
def dpl (d : SegDescriptor) : BitVec 2 := d.access.extractLsb' 5 2

/-- Code segments that are not conforming. -/
def isCode (d : SegDescriptor) : Bool :=
  d.access.getLsbD 4 && d.access.getLsbD 3 && !d.access.getLsbD 2

/-- **The fields of a descriptor are read back** from its bytes, the last one on the left. -/
lemma decode_bytes (baseHigh granularity access baseMiddle : BitVec 8)
    (baseLow limitLow : BitVec 16) :
    decode (baseHigh ++ granularity ++ access ++ baseMiddle ++ baseLow ++ limitLow) =
      ⟨baseHigh ++ baseMiddle ++ baseLow, granularity.extractLsb' 0 4 ++ limitLow, access,
        granularity.extractLsb' 4 4⟩ := by
  unfold decode
  simp (disch := decide) only [field_left, field_right, field_all, Nat.reduceSub]

end SegDescriptor

/-- A gate of the interrupt descriptor table. -/
structure Gate where
  offset : BitVec 32
  selector : BitVec 16
  attributes : BitVec 8
deriving DecidableEq, Repr

namespace Gate

/-- The fields in the eight bytes of a gate. -/
def decode (w : BitVec 64) : Gate where
  offset := w.extractLsb' 48 16 ++ w.extractLsb' 0 16
  selector := w.extractLsb' 16 16
  attributes := w.extractLsb' 40 8

/-- Bit 7 of the attributes. -/
def present (g : Gate) : Bool := g.attributes.getLsbD 7

/-- The gate's privilege level. -/
def dpl (g : Gate) : BitVec 2 := g.attributes.extractLsb' 5 2

/-- The 32-bit interrupt gates. -/
def isInterrupt (g : Gate) : Bool := g.attributes.extractLsb' 0 5 == 0xE#5

/-- **The fields of a gate are read back** from its bytes. -/
lemma decode_bytes (high : BitVec 16) (attributes reserved : BitVec 8) (selector low : BitVec 16) :
    decode (high ++ attributes ++ reserved ++ selector ++ low) =
      ⟨high ++ low, selector, attributes⟩ := by
  unfold decode
  simp (disch := decide) only [field_left, field_right, field_all, Nat.reduceSub]

end Gate

/-! ## Delivery -/

/-- The two tables as the processor finds them: where an entry is beyond the limit there is none. -/
structure Tables where
  gdt : ℕ → BitVec 64
  gdtLimit : BitVec 16
  idt : ℕ → BitVec 64
  idtLimit : BitVec 16

namespace Tables

variable (t : Tables)

/-- The segment descriptor of a selector. -/
def segment (selector : BitVec 16) : Option SegDescriptor :=
  if selector.toNat / 8 = 0 ∨ t.gdtLimit.toNat < 8 * (selector.toNat / 8) + 7 then none
  else some (.decode (t.gdt (selector.toNat / 8)))

/-- The gate of a vector. -/
def gate (v : ℕ) : Option Gate :=
  if t.idtLimit.toNat < 8 * v + 7 then none else some (.decode (t.idt v))

/-- **Delivery of an interrupt** at the privilege level `cpl`, raised by an `int` instruction or
not: the handler's address, the selector of its code segment and its privilege level. `none` is a
fault. -/
def deliver (cpl : BitVec 2) (software : Bool) (v : ℕ) :
    Option (BitVec 32 × BitVec 16 × BitVec 2) := do
  let g ← t.gate v
  guard (!software || decide (cpl ≤ g.dpl))
  guard (g.isInterrupt && g.present)
  let d ← t.segment g.selector
  guard (d.isCode && d.present && decide (d.dpl ≤ cpl))
  return (g.offset, g.selector, d.dpl)

end Tables

end X86
