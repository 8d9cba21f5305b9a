import UintOS.Filesystem.Cache.Model

/-!
# Blocks of the cache on the devices

Which bytes of a device `vfs_cache_read_block` and `cache_writeback_block` transfer for a block of
the cache: `dev_count` device blocks from `dev_block` on, as `devCount` and `devBlock` give them.
-/

namespace UintOS.BlockCache

/-- The bytes `[first, last)` of a device transferred for a block. -/
def firstByte (id size devSize : UInt32) : ℕ := (devBlock id size devSize).toNat * devSize.toNat

def lastByte (id size devSize : UInt32) : ℕ :=
  ((devBlock id size devSize).toNat + (devCount size devSize).toNat) * devSize.toNat

structure Placed (id size devSize : UInt32) : Prop where
  first : firstByte id size devSize = id.toNat * size.toNat
  last : lastByte id size devSize = (id.toNat + 1) * size.toNat

/-- Two blocks are placed, do not meet on the device, and fill no more than their buffers. -/
structure Mapped (id id' size devSize : UInt32) : Prop where
  placed : Placed id size devSize
  placed' : Placed id' size devSize
  disjoint : lastByte id size devSize ≤ firstByte id' size devSize ∨
    lastByte id' size devSize ≤ firstByte id size devSize
  fits : (devCount size devSize).toNat * devSize.toNat ≤ size.toNat

/-- The product of `dev_block` does not wrap around, or is not needed. -/
def InReach (id size devSize : UInt32) : Prop :=
  devSize = size ∨ id.toNat * size.toNat < 4294967296

section Mapping

variable {id id' size devSize : UInt32}

theorem devCount_toNat (hdev : devSize ≠ 0) : (devCount size devSize).toNat =
    (size.toNat + devSize.toNat - 1) % 4294967296 / devSize.toNat := by
  have hpos : 0 < devSize.toNat := Nat.pos_of_ne_zero fun h => hdev (UInt32.toNat_inj.mp h)
  unfold devCount
  rw [UInt32.toNat_div, UInt32.toNat_sub, UInt32.toNat_add]
  congr 1
  have := size.toNat_lt
  have := devSize.toNat_lt
  simp
  omega

/-- A count that is not cut off fills the block only if that is made of whole device blocks. -/
theorem devCount_mul_iff (hdev : devSize ≠ 0) :
    (devCount size devSize).toNat * devSize.toNat = size.toNat ↔
      devSize.toNat ∣ size.toNat ∧ size.toNat + devSize.toNat ≤ 4294967296 := by
  have hpos : 0 < devSize.toNat := Nat.pos_of_ne_zero fun h => hdev (UInt32.toNat_inj.mp h)
  have hlt := devSize.toNat_lt
  rw [devCount_toNat hdev]
  constructor
  · intro h
    have hle := Nat.div_mul_le_self ((size.toNat + devSize.toNat - 1) % 4294967296) devSize.toNat
    exact ⟨⟨_, h.symm.trans (Nat.mul_comm _ _)⟩, by omega⟩
  · rintro ⟨⟨k, hk⟩, hle⟩
    have hdiv : (devSize.toNat * k + (devSize.toNat - 1)) / devSize.toNat = k := by
      rw [Nat.mul_add_div hpos, Nat.div_eq_of_lt (by omega), Nat.add_zero]
    rw [Nat.mod_eq_of_lt (by omega), Nat.add_sub_assoc hpos, hk, hdiv, Nat.mul_comm]

theorem firstByte_eq_iff (hdvd : devSize.toNat ∣ size.toNat) :
    firstByte id size devSize = id.toNat * size.toNat ↔ InReach id size devSize := by
  unfold firstByte devBlock InReach
  split_ifs with hne
  · rw [UInt32.toNat_toUInt64, UInt32.toNat_div, UInt32.toNat_mul, or_iff_right hne]
    constructor
    · intro h
      have hle := Nat.div_mul_le_self (id.toNat * size.toNat % 2 ^ 32) devSize.toNat
      omega
    · intro h
      rw [Nat.mod_eq_of_lt h, Nat.div_mul_cancel (hdvd.mul_left _)]
  · rw [not_not] at hne
    simp [hne]

theorem placed_iff (hdev : devSize ≠ 0) : Placed id size devSize ↔
    (devSize.toNat ∣ size.toNat ∧ size.toNat + devSize.toNat ≤ 4294967296) ∧
      InReach id size devSize := by
  have hlast : lastByte id size devSize =
      firstByte id size devSize + (devCount size devSize).toNat * devSize.toNat := Nat.add_mul _ _ _
  have hnext : (id.toNat + 1) * size.toNat = id.toNat * size.toNat + size.toNat := by ring
  rw [← devCount_mul_iff hdev]
  constructor
  · rintro ⟨h1, h2⟩
    have hcount : (devCount size devSize).toNat * devSize.toNat = size.toNat := by omega
    exact ⟨hcount, (firstByte_eq_iff ((devCount_mul_iff hdev).mp hcount).1).mp h1⟩
  · rintro ⟨hcount, hreach⟩
    have hfirst := (firstByte_eq_iff ((devCount_mul_iff hdev).mp hcount).1).mpr hreach
    exact ⟨hfirst, by omega⟩

/-- Two blocks are mapped correctly exactly if a cache block is made of whole device blocks and
neither the sum of `dev_count` nor the products of `dev_block` wrap. -/
theorem blocks_mapped_iff (hdev : devSize ≠ 0) (hne : id ≠ id') : Mapped id id' size devSize ↔
    (devSize.toNat ∣ size.toNat ∧ size.toNat + devSize.toNat ≤ 4294967296) ∧
      InReach id size devSize ∧ InReach id' size devSize := by
  constructor
  · intro h
    obtain ⟨hsize, hid⟩ := (placed_iff hdev).mp h.placed
    exact ⟨hsize, hid, ((placed_iff hdev).mp h.placed').2⟩
  · rintro ⟨hsize, hid, hid'⟩
    have hp := (placed_iff hdev).mpr ⟨hsize, hid⟩
    have hp' := (placed_iff hdev).mpr ⟨hsize, hid'⟩
    refine ⟨hp, hp', ?_, ((devCount_mul_iff hdev).mpr hsize).le⟩
    rw [hp.first, hp.last, hp'.first, hp'.last]
    rcases Nat.lt_or_gt_of_ne (mt UInt32.toNat_inj.mp hne) with hlt | hlt
    · exact .inl (Nat.mul_le_mul_right _ hlt)
    · exact .inr (Nat.mul_le_mul_right _ hlt)

end Mapping

theorem sectors_mapped : Mapped 7 8 4096 512 :=
  (blocks_mapped_iff (by decide) (by decide)).mpr
    ⟨⟨by decide, by decide⟩, .inr (by decide), .inr (by decide)⟩

/-- With device blocks of 4096 bytes the first two blocks of 1024 bytes are one device block, and
each buffer receives four times its size. -/
theorem small_blocks_share : ¬ Mapped 0 1 1024 4096 ∧
    firstByte 0 1024 4096 = firstByte 1 1024 4096 ∧ (devCount 1024 4096).toNat * 4096 = 4096 :=
  ⟨fun h => absurd h.fits (by decide), by decide, by decide⟩

end UintOS.BlockCache
