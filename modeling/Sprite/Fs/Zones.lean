/-
**The zones of an inode.**

An inode names seven blocks directly, 512 through one index block and 512 * 512 through two levels of
them. `read_zone` takes an entry out of an index block before it reads the next block, so that it does
not matter which buffers these reads recycle.

* `Slot`, `slotOf` — the places of the map. `slotOf_injective` says that no two zones share one.
* `readZone_by_slot` — **`read_zone` answers the block that the slot names**.
-/
import Sprite.Fs.Walk

namespace Sprite.Fs

open Cache Ide

/-- A place of the map: `zone[k]`, an entry of the table in `zone[7]`, or an entry of the table that an
entry of the one in `zone[8]` names. -/
inductive Slot
  | direct (k : Fin 7)
  | single (k : Fin 512)
  | double (i k : Fin 512)

namespace Slot

/-- The zone of a place. -/
def zone : Slot → Nat
  | direct k => k.val
  | single k => 7 + k.val
  | double i k => 7 + 512 + (512 * i.val + k.val)

/-- The number of the block that stands at a place. -/
def block (content : UInt32 → Block) (inode : Memory) : Slot → UInt32
  | direct k => zoneNumber inode k.val
  | single k => indexed (content (zoneNumber inode 7)) k.val
  | double i k => indexed (content (indexed (content (zoneNumber inode 8)) i.val)) k.val

end Slot

/-- The place of a zone. -/
def slotOf (zone : Fin maxZones) : Slot :=
  if direct : zone.val < 7 then .direct ⟨zone.val, direct⟩
  else if single : zone.val < 7 + 512 then .single ⟨zone.val - 7, by omega⟩
  else
    have near : zone.val < 7 + 512 + 512 * 512 := zone.isLt
    .double ⟨(zone.val - (7 + 512)) / 512, by omega⟩ ⟨(zone.val - (7 + 512)) % 512, by omega⟩

theorem zone_slotOf (zone : Fin maxZones) : (slotOf zone).zone = zone.val := by
  unfold slotOf
  split_ifs with direct single
  · rfl
  · show 7 + (zone.val - 7) = zone.val
    omega
  · show 7 + 512 + (512 * ((zone.val - (7 + 512)) / 512) + (zone.val - (7 + 512)) % 512) = zone.val
    omega

/-- **Different zones have different places.** -/
theorem slotOf_injective : Function.Injective slotOf := by
  intro zone zone' same
  refine Fin.ext ?_
  rw [← zone_slotOf zone, ← zone_slotOf zone', same]

section Zones

variable {N : Nat} [NeZero N] {content : UInt32 → Block} {w : FsWorld N}

/-- The block of a zone stands at its place. -/
theorem zoneBlock_slotOf (content : UInt32 → Block) (inode : Memory) (zone : Fin maxZones) :
    zoneBlock content inode zone.val = (slotOf zone).block content inode := by
  unfold zoneBlock zoneBlocks slotOf
  split_ifs with direct single <;> rfl

/-- **`read_zone` answers a buffer with the block that the place of the zone names**, in every state of
the cache, and no two zones share a place. -/
theorem readZone_by_slot (two : 2 ≤ N) (coherent : Coherent w content) (inode : Memory) :
    (∀ zone : Fin maxZones, ∃ node w', readZone inode zone.val w = .ok (node, w') ∧
      w'.cache.Holds ((slotOf zone).block content inode) node ∧
      (w'.cache.value node).data = content ((slotOf zone).block content inode) ∧ Coherent w' content) ∧
    Function.Injective slotOf := by
  refine ⟨fun zone => ?_, slotOf_injective⟩
  obtain ⟨node, w', ran, holds, coherent', _⟩ := readZone_spec (B := Set.univ) coherent two inode
    zone.isLt fun bno _ => Set.mem_univ bno
  rw [zoneBlock_slotOf] at holds
  exact ⟨node, w', ran, holds, (coherent'.cached _ node holds).2, coherent'⟩

end Zones

/-! ### A cache with room for two blocks -/

/-- Block 6 is a table of tables, and block 7 one of them. -/
def nested : Nat → List UInt8
  | 6 => List.replicate 6 0 ++ [7]
  | 7 => List.replicate 8 0 ++ [9]
  | 9 => [42]
  | _ => []

/-- An inode with `zone[8]` = 6. -/
def nestedInode : Memory := fun a => if a = 30 then 6 else 0

/-- Every one of the three reads gives up a buffer for the next one, and the byte comes from block 9. -/
theorem nested_zone_read : ∃ node w', readZone nestedInode (7 + 512 + (512 * 3 + 4))
      (⟨LRUCache.fresh 2 (fun _ => none) (fun _ => 0) fun _ => ⟨fun _ => 0, 0, 0⟩, image nested⟩ : FsWorld 2)
        = .ok (node, w') ∧ (w'.cache.value node).data 0 = 42 := by
  have quiet : (image nested).Quiet := fun _ =>
    (by decide : (0x50 : UInt8) &&& (STAT_DF ||| STAT_ERR) = 0)
  have coherent := fresh_coherent (N := 2) (fun _ => none) (fun _ => 0) (fun _ => ⟨fun _ => 0, 0, 0⟩)
    (d := image nested) rfl quiet
  obtain ⟨node, w', ran, _, data, _⟩ :=
    (readZone_by_slot (by decide) coherent nestedInode).1 ⟨7 + 512 + (512 * 3 + 4), by decide⟩
  refine ⟨node, w', ran, ?_⟩
  have table : zoneNumber nestedInode 8 = 6 := by decide
  have zones : indexed (blockOf (image nested).disk 6) 3 = 7 := by
    simp only [indexed, load16, blockBytes, blockOf_image]
    decide
  have last : indexed (blockOf (image nested).disk 7) 4 = 9 := by
    simp only [indexed, load16, blockBytes, blockOf_image]
    decide
  have block : (slotOf ⟨7 + 512 + (512 * 3 + 4), by decide⟩).block (blockOf (image nested).disk) nestedInode
      = 9 := by
    show indexed (blockOf (image nested).disk
      (indexed (blockOf (image nested).disk (zoneNumber nestedInode 8)) 3)) 4 = 9
    rw [table, zones, last]
  rw [data, block, blockOf_image]
  rfl

end Sprite.Fs
