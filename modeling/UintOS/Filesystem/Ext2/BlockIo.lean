import UintOS.Filesystem.Cache.Devices
import UintOS.Library.Machine
import UintOS.Library.Traced

/-!
# Blocks of an ext2 disk

`read_block` and `write_block` of `ext2.c` on a device whose blocks can all be transferred, and
`read_file_block`, which finds a block of a file by its index. An ext2 block is found on the device
as a block of the cache is; there is memory for the buffers.
-/

namespace UintOS.Ext2.BlockIo

open Machine BlockCache

/-! ## Transfers -/

/-- `vfs_block_device_t`: `size` bytes, in blocks of `blockSize`. -/
structure BlockDevice where
  blockSize : UInt32
  size : ℕ
  bytes : ℕ → UInt8
  blockSize_ne : blockSize ≠ 0

variable (dev : BlockDevice) (blockSize : UInt32)

def BlockDevice.readBlocks (lba count : ℕ) : Option (ℕ → UInt8) :=
  if (lba + count) * dev.blockSize.toNat ≤ dev.size then
    some fun i => dev.bytes (lba * dev.blockSize.toNat + i)
  else none

def BlockDevice.writeBlocks (lba count : ℕ) (buffer : ℕ → UInt8) : Option BlockDevice :=
  let start := lba * dev.blockSize.toNat
  if (lba + count) * dev.blockSize.toNat ≤ dev.size then
    some { dev with
      bytes := fun a =>
        if start ≤ a ∧ a < (lba + count) * dev.blockSize.toNat then buffer (a - start)
        else dev.bytes a }
  else none

/-- `read_block`: how many bytes are stored in the buffer, and which. -/
def readBlock (n : UInt32) : Option (ℕ × (ℕ → UInt8)) :=
  let count := (devCount blockSize dev.blockSize).toNat
  (dev.readBlocks (devBlock n blockSize dev.blockSize).toNat count).map fun data =>
    if dev.blockSize < blockSize ∧ 1 < count then (blockSize.toNat, data)
    else (count * dev.blockSize.toNat, data)

/-- `write_block`; what is behind the buffer is a part of `buffer`. -/
def writeBlock (n : UInt32) (buffer : ℕ → UInt8) : Option BlockDevice :=
  let lba := (devBlock n blockSize dev.blockSize).toNat
  let count := (devCount blockSize dev.blockSize).toNat
  if dev.blockSize < blockSize ∧ 1 < count then
    (dev.readBlocks lba count).bind fun old =>
      dev.writeBlocks lba count fun i => if i < blockSize.toNat then buffer i else old i
  else dev.writeBlocks lba count buffer

abbrev Inside (n : UInt32) : Prop := n.toNat * blockSize.toNat + blockSize.toNat ≤ dev.size

/-- After a write of block `n`, block `m` is read: exactly its bytes are stored, those written or
those that were there. -/
def RoundTrip (n m : UInt32) (buffer : ℕ → UInt8) : Prop :=
  ∃ data, (writeBlock dev blockSize n buffer).bind (readBlock · blockSize m) =
      some (blockSize.toNat, data) ∧
    ∀ i < blockSize.toNat, data i =
      if m = n then buffer i else dev.bytes (m.toNat * blockSize.toNat + i)

variable {dev blockSize} {n m : UInt32}

section Whole

variable (hcount : (devCount blockSize dev.blockSize).toNat * dev.blockSize.toNat = blockSize.toNat)
include hcount

theorem writeBlock_eq (hin : firstByte n blockSize dev.blockSize + blockSize.toNat ≤ dev.size)
    (buffer : ℕ → UInt8) : let start := firstByte n blockSize dev.blockSize
    writeBlock dev blockSize n buffer = some { dev with
      bytes := fun a => if start ≤ a ∧ a < start + blockSize.toNat then buffer (a - start)
        else dev.bytes a } := by
  simp only [writeBlock, BlockDevice.readBlocks, BlockDevice.writeBlocks, Nat.add_mul, hcount,
    ← firstByte.eq_1, if_pos hin, Option.bind_some]
  split_ifs
  · congr 2
    funext a
    split_ifs <;> first | rfl | omega
  · rfl

theorem readBlock_eq (hin : firstByte m blockSize dev.blockSize + blockSize.toNat ≤ dev.size)
    (bytes : ℕ → UInt8) : readBlock { dev with bytes } blockSize m =
      some (blockSize.toNat, fun i => bytes (firstByte m blockSize dev.blockSize + i)) := by
  simp only [readBlock, BlockDevice.readBlocks, Nat.add_mul, hcount, ← firstByte.eq_1, if_pos hin,
    Option.map_some, ite_self]

end Whole

/-- Where a block is found: the product is cut off to 32 bits. -/
theorem firstByte_eq {devSize : UInt32} (hdvd : devSize.toNat ∣ blockSize.toNat)
    (hdev : devSize.toNat ∣ 4294967296) : firstByte n blockSize devSize =
      if devSize = blockSize then n.toNat * blockSize.toNat
      else n.toNat * blockSize.toNat % 4294967296 := by
  unfold firstByte devBlock
  by_cases heq : devSize = blockSize
  · rw [if_neg (not_not.mpr heq), if_pos heq, heq]
    rfl
  · rw [if_pos heq, if_neg heq, UInt32.toNat_toUInt64, UInt32.toNat_div, UInt32.toNat_mul]
    exact Nat.div_mul_cancel ((Nat.dvd_mod_iff hdev).mpr (hdvd.mul_left _))

section

variable {i j : ℕ} (hdev : dev.blockSize.toNat = 2 ^ i) (hsize : blockSize.toNat = 2 ^ j)
include hdev hsize

theorem sizes_spec (hle : i ≤ j) :
    dev.blockSize.toNat ∣ blockSize.toNat ∧ blockSize.toNat ∣ 4294967296 ∧
      (devCount blockSize dev.blockSize).toNat * dev.blockSize.toNat = blockSize.toNat := by
  have hj : j < 32 := (Nat.pow_lt_pow_iff_right (by decide : 1 < 2)).mp (hsize ▸ blockSize.toNat_lt)
  have hdvd : dev.blockSize.toNat ∣ blockSize.toNat := by
    rw [hdev, hsize]
    exact Nat.pow_dvd_pow 2 hle
  have hword : blockSize.toNat ∣ 4294967296 := by
    rw [hsize]
    exact Nat.pow_dvd_pow 2 hj.le
  refine ⟨hdvd, hword, (devCount_mul_iff dev.blockSize_ne).mpr ⟨hdvd, ?_⟩⟩
  rw [hdev, hsize]
  have := Nat.pow_le_pow_right (n := 2) (by decide) hle
  have := Nat.pow_le_pow_right (n := 2) (by decide) (Nat.le_of_lt_succ hj)
  omega

/-- After a write, a block is read where it is found. -/
theorem roundTrip_iff (hle : i ≤ j) (hin : Inside dev blockSize n) (hin' : Inside dev blockSize m)
    (buffer : ℕ → UInt8) : RoundTrip dev blockSize n m buffer ↔ ∀ i < blockSize.toNat,
      (if firstByte n blockSize dev.blockSize = firstByte m blockSize dev.blockSize then buffer i
        else dev.bytes (firstByte m blockSize dev.blockSize + i)) =
      if m = n then buffer i else dev.bytes (m.toNat * blockSize.toNat + i) := by
  obtain ⟨hdvd, hword, hcount⟩ := sizes_spec hdev hsize hle
  have hfirst := fun n => firstByte_eq (n := n) hdvd (hdvd.trans hword)
  have hmult : ∀ n, blockSize.toNat ∣ firstByte n blockSize dev.blockSize := by
    intro n
    rw [hfirst]
    split_ifs
    · exact Nat.dvd_mul_left _ _
    · exact (Nat.dvd_mod_iff hword).mpr (Nat.dvd_mul_left _ _)
  have hbelow : ∀ n, Inside dev blockSize n →
      firstByte n blockSize dev.blockSize + blockSize.toNat ≤ dev.size := by
    intro n hn
    have := Nat.mod_le (n.toNat * blockSize.toNat) 4294967296
    unfold Inside at hn
    rw [hfirst]
    split_ifs <;> omega
  obtain ⟨x, hx⟩ := hmult n
  obtain ⟨y, hy⟩ := hmult m
  unfold RoundTrip
  rw [writeBlock_eq hcount (hbelow n hin), Option.bind_some, readBlock_eq hcount (hbelow m hin')]
  simp only [Option.some.injEq, Prod.mk.injEq, true_and, exists_eq_left', hx, hy]
  apply forall₂_congr
  intro i hi
  -- whole blocks meet only if they are the same
  have hmeet : (blockSize.toNat * x ≤ blockSize.toNat * y + i ∧
      blockSize.toNat * y + i < blockSize.toNat * x + blockSize.toNat) ↔
        blockSize.toNat * x = blockSize.toNat * y := by
    constructor
    · intro h
      by_contra hne
      rcases Nat.lt_or_gt_of_ne (fun h => hne (congrArg _ h) : x ≠ y) with h | h
      all_goals
        have hmul := Nat.mul_le_mul_left blockSize.toNat h
        rw [Nat.mul_succ] at hmul
        omega
    · omega
  simp only [hmeet]
  split_ifs with heq <;> simp [heq]

/-- For sizes that are powers of two: whatever is on the device, a block that was written is read
back, and no other has changed, exactly if a device block is not larger than a block and, for
another block than the one that was written, its offset does not wrap and is not where the written
one went. -/
theorem write_then_read_iff (hin : Inside dev blockSize n) (hin' : Inside dev blockSize m) :
    (∀ bytes buffer, RoundTrip { dev with bytes } blockSize n m buffer) ↔
      dev.blockSize ≤ blockSize ∧ (m = n ∨ InReach m blockSize dev.blockSize ∧
        (dev.blockSize = blockSize ∨
          n.toNat * blockSize.toNat % 4294967296 ≠ m.toNat * blockSize.toNat)) := by
  have hpow : dev.blockSize ≤ blockSize ↔ i ≤ j := by
    rw [UInt32.le_iff_toNat_le, hdev, hsize]
    exact Nat.pow_le_pow_iff_right (by decide)
  have hpos : 0 < blockSize.toNat := hsize ▸ Nat.two_pow_pos j
  by_cases hle : i ≤ j
  swap
  · -- the buffer receives whole device blocks, which are larger
    refine iff_of_false (fun h => ?_) fun h => hle (hpow.mp h.1)
    obtain ⟨data, hbind, -⟩ := h dev.bytes fun _ => 0
    obtain ⟨dev', hwrite, hread⟩ := Option.bind_eq_some_iff.mp hbind
    have hnot : ¬ dev.blockSize < blockSize := fun h => hle (hpow.mp (UInt32.le_of_lt h))
    simp only [writeBlock, hnot, false_and, if_false, BlockDevice.writeBlocks] at hwrite
    split_ifs at hwrite
    cases hwrite
    simp only [readBlock, hnot, false_and, if_false, Option.map_eq_some_iff] at hread
    obtain ⟨_, -, hstored⟩ := hread
    have hdvd := Dvd.intro_left _ (congrArg Prod.fst hstored)
    exact hle (hpow.mp (UInt32.le_iff_toNat_le.mpr (Nat.le_of_dvd hpos hdvd)))
  obtain ⟨hdvd, hword, -⟩ := sizes_spec hdev hsize hle
  simp only [fun bytes buffer =>
    @roundTrip_iff { dev with bytes } _ _ _ _ _ hdev hsize hle hin hin' buffer]
  rw [and_iff_right (hpow.mpr hle), ← firstByte_eq_iff hdvd]
  by_cases hmn : m = n
  · subst hmn
    simp
  have hfirst := firstByte_eq (n := n) hdvd (hdvd.trans hword)
  rw [or_iff_right hmn]
  constructor
  · intro h
    have hread := h (fun a => if a = m.toNat * blockSize.toNat then 1 else 0) (fun _ => 2) 0 hpos
    simp only [if_neg hmn, Nat.add_zero, if_true] at hread
    split_ifs at hread with hsame hplace
    · exact absurd hread (by decide)
    · rw [hplace, hfirst] at hsame
      refine ⟨hplace, ?_⟩
      by_cases heq : dev.blockSize = blockSize
      · exact .inl heq
      · exact .inr (by rwa [if_neg heq] at hsame)
    · exact absurd hread (by decide)
  · rintro ⟨hplace, hne⟩ bytes buffer i hi
    rw [if_neg hmn, hplace, if_neg]
    rw [hfirst]
    split_ifs with heq
    · exact fun h => hmn (UInt32.toNat_inj.mp (Nat.eq_of_mul_eq_mul_right hpos h.symm))
    · exact hne.resolve_left heq

end

def disk (blockSize : UInt32) (h : blockSize ≠ 0) : BlockDevice := ⟨blockSize, 16384, fun _ => 7, h⟩

theorem sectors_round_trip : RoundTrip (disk 512 (by decide)) 1024 3 5 fun _ => 1 :=
  (@write_then_read_iff (disk 512 (by decide)) _ _ _ 9 10 rfl rfl (by decide)
    (by decide)).mpr ⟨by decide, .inr ⟨.inr (by decide), .inr (by decide)⟩⟩ _ _

/-- With device blocks of 4096 bytes, block 1 is written over block 0, and four blocks are read. -/
theorem large_device_blocks_overwrite :
    let dev := disk 4096 (by decide)
    Inside dev 1024 1 ∧ ((writeBlock dev 1024 1 fun _ => 1).bind fun dev' =>
      (readBlock dev' 1024 0).map fun r => (r.1, r.2 0)) = some (4096, 1) ∧ dev.bytes 0 = 7 ∧
      ¬ RoundTrip dev 1024 1 0 fun _ => 1 := by
  refine ⟨by decide, by decide, rfl, ?_⟩
  rintro ⟨data, hread, -⟩
  have hstored : _ = some 1024 := congrArg (Option.map Prod.fst) hread
  exact absurd hstored (by decide)

/-! ## The blocks of a file -/

inductive Error
  | ioError
  | invalidArg
deriving DecidableEq, Repr

section

variable (size : ℕ) (read : ℕ → Option (ℕ → UInt8)) (block : ℕ → ℕ) (index : ℕ)

/-- The end of `read_file_block`: block 0 is a hole. `read` is `read_block`. -/
def readData (n : ℕ) : Traced ℕ (Except Error (ℕ → UInt8)) :=
  if n = 0 then pure (.ok fun _ => 0)
  else do
    Traced.access [n]
    pure (match read n with
      | none => .error .ioError
      | some data => .ok data)

def withBlock (b : ℕ) (f : (ℕ → UInt8) → Traced ℕ (Except Error (ℕ → UInt8))) :
    Traced ℕ (Except Error (ℕ → UInt8)) := do
  Traced.access [b]
  match read b with
  | none => pure (.error .ioError)
  | some words => f words

/-- `read_file_block` for an inode with these block numbers; the accesses are the blocks read. -/
def readFileBlock : Traced ℕ (Except Error (ℕ → UInt8)) :=
  let p := size / 4
  if index < 12 then readData read (block index)
  else if index < 12 + p then
    withBlock read (block 12) fun indirect => readData read (read32 indirect (4 * (index - 12)))
  else if index < (12 + p + p * p) % 4294967296 then
    let index1 := (index - 12 - p) / p
    let index2 := (index - 12 - p) % p
    withBlock read (block 13) fun dind => withBlock read (read32 dind (4 * index1)) fun ind =>
      readData read (read32 ind (4 * index2))
  else pure (.error .invalidArg)

/-- Entry `i` of an index block; all entries of a hole are holes. -/
def pointer (b i : ℕ) : Except Error ℕ :=
  if b = 0 then .ok 0
  else
    match read b with
    | none => .error .ioError
    | some words => .ok (read32 words (4 * i))

/-- The block that the block tree of an inode designates. -/
def designated : Except Error ℕ :=
  let p := size / 4
  if index < 12 then .ok (block index)
  else if index < 12 + p then (pointer read (block 12) (index - 12)).bind .ok
  else if index < 12 + p + p * p then
    (pointer read (block 13) ((index - 12 - p) / p)).bind fun b =>
      (pointer read b ((index - 12 - p) % p)).bind .ok
  else .error .invalidArg

/-- The designated block is read, and not block 0 on the way. -/
structure Designates (x : Traced ℕ (Except Error (ℕ → UInt8))) (n : Except Error ℕ) : Prop where
  value : x.value = n.bind fun n => (readData read n).value
  accesses : x.Within (· ≠ 0)

/-- No index block on the way to a block is a hole. -/
def NoHole : Prop :=
  let p := size / 4
  (12 ≤ index → index < 12 + p → block 12 ≠ 0) ∧
    (12 + p ≤ index → index < 12 + p + p * p → block 13 ≠ 0 ∧
      ∀ dind, read (block 13) = some dind → read32 dind (4 * ((index - 12 - p) / p)) ≠ 0)

theorem designates_readData (n : ℕ) : Designates read (readData read n) (.ok n) := by
  refine ⟨rfl, ?_⟩
  unfold readData
  split_ifs with hn
  · exact Traced.within_pure _
  · simpa using hn

theorem designates_withBlock (b i : ℕ) (f : (ℕ → UInt8) → Traced ℕ (Except Error (ℕ → UInt8)))
    (g : ℕ → Except Error ℕ) :
    Designates read (withBlock read b f) ((pointer read b i).bind g) ↔
      b ≠ 0 ∧ ∀ words, read b = some words →
        Designates read (f words) (g (read32 words (4 * i))) := by
  constructor
  · rintro ⟨hvalue, haccesses⟩
    have hb : b ≠ 0 := haccesses b (List.mem_append_left _ (List.mem_singleton_self b))
    refine ⟨hb, fun words hwords => ?_⟩
    rw [withBlock, hwords] at hvalue haccesses
    rw [pointer, if_neg hb, hwords] at hvalue
    exact ⟨hvalue, ((Traced.within_bind _ _).mp haccesses).2⟩
  · rintro ⟨hb, h⟩
    unfold withBlock pointer
    rw [if_neg hb]
    cases hwords : read b with
    | none => exact ⟨rfl, by simpa using hb⟩
    | some words =>
      obtain ⟨hvalue, haccesses⟩ := h words hwords
      exact ⟨hvalue, by simpa [hb] using haccesses⟩

theorem readData_ne_invalidArg (b i : ℕ) (f : ℕ → Except Error ℕ)
    (hf : ∀ n, (f n).bind (fun n => (readData read n).value) ≠ .error .invalidArg) :
    ((pointer read b i).bind f).bind (fun n => (readData read n).value) ≠ .error .invalidArg := by
  unfold pointer
  split_ifs
  · exact hf 0
  · cases read b with
    | none => simp [Except.bind]
    | some words => exact hf _

/-- Every index leads to the designated block, or to an error, exactly if no index block on the way
is a hole and the number of blocks is not cut off to 32 bits below the index. -/
theorem read_file_block_iff :
    Designates read (readFileBlock size read block index) (designated size read block index) ↔
      NoHole size read block index ∧ (index < 12 + size / 4 + size / 4 * (size / 4) →
        index < 12 + size / 4 ∨
          index < (12 + size / 4 + size / 4 * (size / 4)) % 4294967296) := by
  have hdata := designates_readData read
  have hmod := Nat.mod_le (12 + size / 4 + size / 4 * (size / 4)) 4294967296
  simp only [readFileBlock, designated, NoHole]
  by_cases h1 : index < 12
  · rw [if_pos h1, if_pos h1]
    exact iff_of_true (hdata _) ⟨⟨by omega, by omega⟩, by omega⟩
  rw [if_neg h1, if_neg h1]
  by_cases h2 : index < 12 + size / 4
  · rw [if_pos h2, if_pos h2, designates_withBlock]
    exact ⟨fun h => ⟨⟨fun _ _ => h.1, by omega⟩, by omega⟩,
      fun h => ⟨h.1.1 (by omega) h2, fun _ _ => hdata _⟩⟩
  rw [if_neg h2, if_neg h2]
  by_cases h3 : index < (12 + size / 4 + size / 4 * (size / 4)) % 4294967296
  · have h4 := h3.trans_le hmod
    rw [if_pos h3, if_pos h4, designates_withBlock]
    simp only [designates_withBlock, hdata, implies_true, and_true]
    exact ⟨fun h => ⟨⟨by omega, fun _ _ => h⟩, fun _ => .inr h3⟩, fun h => h.1.2 (by omega) h4⟩
  · rw [if_neg h3]
    by_cases h4 : index < 12 + size / 4 + size / 4 * (size / 4)
    · rw [if_pos h4]
      refine iff_of_false (fun h => ?_) fun h => (h.2 h4).elim h2 h3
      refine readData_ne_invalidArg read _ _ _ (fun b => ?_) h.value.symm
      refine readData_ne_invalidArg read _ _ _ (fun n => ?_)
      simp only [Except.bind, readData]
      split_ifs
      · simp
      · cases read n <;> simp
    · rw [if_neg h4]
      exact iff_of_true ⟨rfl, Traced.within_pure _⟩ ⟨⟨by omega, by omega⟩, fun h => absurd h h4⟩

end

def tenBlocks (n : ℕ) : Option (ℕ → UInt8) := some fun _ => if n = 7 then 1 else 9

/-- The first block behind a double-indirect block. -/
theorem indirect_block_designated :
    Designates tenBlocks (readFileBlock 1024 tenBlocks (fun _ => 7) 268)
      (designated 1024 tenBlocks (fun _ => 7) 268) := by
  refine (read_file_block_iff 1024 tenBlocks _ 268).mpr ⟨⟨by decide, fun _ _ => ?_⟩, by decide⟩
  refine ⟨by decide, ?_⟩
  rintro _ ⟨⟩
  decide

/-- A file without an indirect block: block 0 is read in its place, and the numbers that it holds
are taken for block numbers. -/
theorem hole_reads_block_zero :
    (readFileBlock 1024 tenBlocks (fun _ => 0) 12).accesses = [0, 0x09090909] ∧
      ¬ Designates tenBlocks (readFileBlock 1024 tenBlocks (fun _ => 0) 12)
        (designated 1024 tenBlocks (fun _ => 0) 12) :=
  ⟨by decide, fun h => absurd (h.accesses 0 (by decide)) (by decide)⟩

end UintOS.Ext2.BlockIo
