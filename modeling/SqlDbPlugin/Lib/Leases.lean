import Mathlib.Data.Finset.Card
import Mathlib.Data.Multiset.AddSub

/-!
# Pools of slots

A pool hands out its slots: `lease` takes a free one, and waits while there
is none, and `giveBack` frees one. `SlotPool` is what users rely on, and
`SlotPool.ofSize` a pool that takes the first free slot.

`Owned P p owners` accounts for the leased slots: each has one owner, in the
multiset `owners`. It has a rule for each operation, and counts the leased
slots (`Owned.card`). In a pool of `n` slots (`HasSize`) there are at most
`n` owners, and fewer exactly when a slot can be leased (`HasSize.lease_iff`).
-/

namespace SqlDb

/-- A pool with states `π`. -/
structure SlotPool (π : Type*) where
  new : π
  /-- A slot, and the pool without it; nothing while no slot is free. -/
  lease : π → Option (Nat × π)
  giveBack : Nat → π → π
  leased : π → Finset Nat
  leased_new : leased new = ∅
  lease_free {p p' : π} {slot : Nat} : lease p = some (slot, p') → slot ∉ leased p
  leased_lease {p p' : π} {slot : Nat} : lease p = some (slot, p') → leased p' = insert slot (leased p)
  leased_giveBack (slot : Nat) (p : π) : leased (giveBack slot p) = (leased p).erase slot

namespace SlotPool

variable {π : Type*} {P : SlotPool π} {p p' : π} {slot : Nat} {owners : Multiset Nat}

/-- Giving back what has been leased leaves the same slots leased. -/
theorem leased_giveBack_lease (h : P.lease p = some (slot, p')) :
    P.leased (P.giveBack slot p') = P.leased p := by
  rw [P.leased_giveBack, P.leased_lease h, Finset.erase_insert (P.lease_free h)]

theorem leased_lease_ne (h : P.lease p = some (slot, p')) : P.leased p' ≠ P.leased p := by
  rw [P.leased_lease h, Ne, Finset.insert_eq_self]
  exact P.lease_free h

/-- Each leased slot has one owner. -/
def Owned (P : SlotPool π) (p : π) (owners : Multiset Nat) : Prop := (P.leased p).val = owners

namespace Owned

theorem new : P.Owned P.new 0 := by
  rw [Owned, P.leased_new]
  rfl

theorem card (h : P.Owned p owners) : (P.leased p).card = owners.card := congrArg Multiset.card h

theorem lease (h : P.Owned p owners) (hl : P.lease p = some (slot, p')) : P.Owned p' (slot ::ₘ owners) := by
  rw [Owned, P.leased_lease hl, Finset.insert_val_of_notMem (P.lease_free hl), h]

theorem giveBack (h : P.Owned p owners) (slot : Nat) : P.Owned (P.giveBack slot p) (owners.erase slot) := by
  rw [Owned, P.leased_giveBack, Finset.erase_val, h]

/-- Who owns what does not depend on how the pool keeps it. -/
theorem congr (h : P.Owned p owners) (he : P.leased p' = P.leased p) : P.Owned p' owners := by
  rw [Owned, he, h]

/-- No slot has two owners. -/
theorem nodup (h : P.Owned p owners) : owners.Nodup := h ▸ (P.leased p).nodup

theorem mem_leased (h : P.Owned p owners) : slot ∈ P.leased p ↔ slot ∈ owners := by
  rw [← Finset.mem_val, h]

end Owned

/-- The slots are those below `n`, and none is withheld. -/
structure HasSize (P : SlotPool π) (n : Nat) : Prop where
  lease_lt {p p' : π} {slot : Nat} : P.lease p = some (slot, p') → slot < n
  lease_isSome {p : π} {slot : Nat} : slot < n → slot ∉ P.leased p → (P.lease p).isSome

namespace HasSize

variable {n : Nat}

theorem card_le (h : ∀ slot ∈ P.leased p, slot < n) : (P.leased p).card ≤ n := by
  have hsub : P.leased p ⊆ Finset.range n := fun slot hs => Finset.mem_range.mpr (h slot hs)
  exact Finset.card_range n ▸ Finset.card_le_card hsub

/-- A slot can be leased as long as not all are. -/
theorem lease_iff (hP : P.HasSize n) (h : ∀ slot ∈ P.leased p, slot < n) :
    (P.lease p).isSome ↔ (P.leased p).card < n := by
  constructor
  · intro hlease
    obtain ⟨⟨slot, p'⟩, hslot⟩ := Option.isSome_iff_exists.mp hlease
    have hlt (x : Nat) (hx : x ∈ P.leased p') : x < n := by
      rw [P.leased_lease hslot, Finset.mem_insert] at hx
      obtain rfl | hx := hx
      · exact hP.lease_lt hslot
      · exact h x hx
    have hcard := card_le hlt
    rwa [P.leased_lease hslot, Finset.card_insert_of_notMem (P.lease_free hslot)] at hcard
  · intro hcard
    obtain ⟨slot, hslot, hfree⟩ : ∃ slot ∈ Finset.range n, slot ∉ P.leased p :=
      Finset.exists_mem_notMem_of_card_lt_card (by rwa [Finset.card_range])
    exact hP.lease_isSome (Finset.mem_range.mp hslot) hfree

end HasSize

/-- A pool of `n` slots that takes the first free one. -/
def ofSize (n : Nat) : SlotPool (Finset Nat) where
  new := ∅
  lease p := ((List.range n).find? (· ∉ p)).map fun slot => (slot, insert slot p)
  giveBack slot p := p.erase slot
  leased p := p
  leased_new := rfl
  lease_free {p p' slot} h := by
    obtain ⟨slot', hfind, he⟩ := Option.map_eq_some_iff.mp h
    cases he
    simpa using List.find?_some hfind
  leased_lease {p p' slot} h := by
    obtain ⟨slot', -, he⟩ := Option.map_eq_some_iff.mp h
    cases he
    rfl
  leased_giveBack _ _ := rfl

theorem hasSize_ofSize (n : Nat) : (ofSize n).HasSize n where
  lease_lt {p p' slot} h := by
    obtain ⟨slot', hfind, he⟩ := Option.map_eq_some_iff.mp h
    cases he
    exact List.mem_range.mp (List.mem_of_find?_eq_some hfind)
  lease_isSome {p slot} hlt hfree := by
    rw [ofSize, Option.isSome_map, List.find?_isSome]
    exact ⟨slot, List.mem_range.mpr hlt, decide_eq_true (show slot ∉ p from hfree)⟩

end SlotPool

end SqlDb
