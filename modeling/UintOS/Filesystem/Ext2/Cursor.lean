import UintOS.Filesystem.Ext2.Adapter

/-!
# An open file as an array with a cursor

The handle follows `ByteFile.Cursor` as long as its size is that of the stored file. A write at the
beginning of a longer file, into an empty file with the position behind it, or behind the end of a
file, and a sum that wraps, break this.
-/

namespace UintOS.Ext2

open ByteFile List Runs

/-! ## The reference -/

def target (size position : ℕ) (offset : Int64) : Whence → Option ℤ
  | .set => some offset.toInt
  | .cur => some (position + offset.toInt)
  | .fromEnd => some (size + offset.toInt)
  | .other => none

def Offset (p : ℤ) : Prop := 0 ≤ p ∧ p < 2 ^ 63

instance (p : ℤ) : Decidable (Offset p) := inferInstanceAs (Decidable (_ ∧ _))

def refMoveTo (c : Cursor UInt8) (p : ℤ) : Output × Cursor UInt8 :=
  if Offset p then (.sought, { c with position := p.toNat }) else (.error .invalidArg, c)

def refSeek (c : Cursor UInt8) (offset : Int64) (whence : Whence) : Output × Cursor UInt8 :=
  match target c.content.length c.position offset whence with
  | none => (.error .invalidArg, c)
  | some p => refMoveTo c p

variable (append : Bool)

def refServe (c : Cursor UInt8) : Request → Output × Cursor UInt8
  | .read size _ => (.read (c.peek size.toNat), c.advance size.toNat)
  | .write buffer _ => (.written buffer.bytes.length, c.write 0 append buffer.bytes)
  | .seek offset whence => refSeek c offset whence
  | .tell => (.offset c.position, c)

structure Session (σ : Type) where
  state : σ
  outputs : List Output

def step (s : Session File) (request : Request) : Option (Session File) :=
  (serve s.state request).map fun (output, f) => ⟨f, s.outputs ++ [output]⟩

def refStep (s : Session (Cursor UInt8)) (request : Request) : Session (Cursor UInt8) :=
  let (output, c) := refServe append s.state request
  ⟨c, s.outputs ++ [output]⟩

/-! ## The condition -/

variable (f : File)

/-- A read at the end of the file, or with memory and an end that is a `uint32_t`. -/
def ReadOk (size : ℕ) (heap : Heap) : Prop :=
  f.size ≤ f.position ∨ heap.isSome ∧ f.position + size < 2 ^ 32

/-- A write that gets memory and after which the size is an `int`: at the end in append
mode, inside or at the end of the file otherwise, or over the whole file. -/
def WriteOk (length : ℕ) (heap : Heap) : Prop :=
  if f.append then heap.isSome ∧ f.size + length < 2 ^ 31
  else
    (0 < f.position ∧ f.position ≤ f.size ∧ heap.isSome ∧ f.position + length < 2 ^ 31) ∨
      (f.position = 0 ∧ f.size ≤ length ∧ length < 2 ^ 31)

/-- A seek whose target, if it is an offset, is a `uint32_t`. -/
def SeekOk (offset : Int64) (whence : Whence) : Prop :=
  ∀ p ∈ target f.size f.position offset whence, Offset p → p < 2 ^ 32

def RequestOk : Request → Prop
  | .read size heap => ReadOk f size.toNat heap
  | .write buffer heap => WriteOk f buffer.bytes.length heap
  | .seek offset whence => SeekOk f offset whence
  | .tell => True

/-- The handle describes the stored file, and both are the reference. -/
structure Agrees (append : Bool) (f : File) (c : Cursor UInt8) : Prop where
  mode : f.append = append
  stored : f.stored = c.content
  size : f.size = c.content.length
  position : f.position = c.position
  small : c.content.length < 2 ^ 31
  reachable : c.position < 2 ^ 32

section

variable {append : Bool} {f : File} {c : Cursor UInt8} {heap : Heap} {n : ℕ}

theorem toInt_nonneg (h : n < 2 ^ 31) : ¬ toInt n < 0 := by
  unfold toInt
  omega

theorem wrap_of_lt (h : n < 2 ^ 32) : wrap n = n := Nat.mod_eq_of_lt h

theorem malloc_isSome (h : heap.isSome) (size : ℕ) :
    ∃ block, malloc heap size = some block ∧ block.length = size := by
  obtain ⟨garbage, rfl⟩ := Option.isSome_iff_exists.mp h
  exact ⟨_, rfl, by simp⟩

theorem readFile_whole (stored block : List UInt8) : ext2ReadFile stored block stored.length =
      (stored ++ block.drop stored.length, toInt stored.length) := by
  simp [ext2ReadFile]

section

variable {bytes : List UInt8} (h : Agrees append f c)
include h

theorem Agrees.read {size : ℕ} (hok : ReadOk f size heap) :
    ∃ g, ext2VfsRead f size heap = some (.read (c.peek size), g) ∧
      Agrees append g (c.advance size) := by
  obtain ⟨hmode, hstored, hsize, hposition, hsmall, hreach⟩ := h
  unfold ext2VfsRead
  by_cases hend : f.size ≤ f.position
  · have hpeek : c.peek size = [] := by
      unfold Cursor.peek
      rw [drop_eq_nil_of_le (by omega), take_nil]
    rw [if_pos hend, hpeek]
    refine ⟨f, rfl, ?_⟩
    have hadvance : c.advance size = c := by simp [Cursor.advance, hpeek]
    rw [hadvance]
    exact ⟨hmode, hstored, hsize, hposition, hsmall, hreach⟩
  · obtain ⟨hheap, hwrap⟩ := hok.resolve_left hend
    obtain ⟨block, hblock, hlen⟩ := malloc_isSome hheap f.size
    have hread : ext2ReadFile f.stored block f.size = (c.content, toInt c.content.length) := by
      rw [hstored, hsize, readFile_whole, drop_eq_nil_of_le (by omega), append_nil]
    rw [if_neg hend, hblock, wrap_of_lt hwrap]
    dsimp only
    rw [hread]
    dsimp only
    rw [if_neg (toInt_nonneg hsmall)]
    generalize hn : (if f.size < f.position + size then f.size - f.position else size) = n
    have hmin : n = min size (c.content.length - c.position) := by
      rw [← hn]
      split_ifs <;> omega
    have hpeek : (c.content.drop f.position).take n = c.peek size := by
      unfold Cursor.peek
      rw [hmin, hposition, take_eq_take_iff, length_drop]
      omega
    have hcount : (c.peek size).length = n := by
      rw [hmin]
      simp [Cursor.peek]
    rw [slice, if_pos (by omega), hpeek]
    refine ⟨_, rfl, hmode, hstored, hsize, ?_, hsmall, ?_⟩
    · change wrap (f.position + n) = c.position + (c.peek size).length
      rw [wrap_of_lt (by omega), hcount, hposition]
    · change c.position + (c.peek size).length < 2 ^ 32
      omega

/-- The branch that reads the file and writes it back, inside the file. -/
theorem Agrees.modify (hheap : heap.isSome)
    (hins : f.position ≤ f.size) (hfits : f.position + bytes.length < 2 ^ 31) :
    ∃ g, modifyFile f bytes heap = some (.written bytes.length, g) ∧
      Agrees append g (c.write 0 false bytes) := by
  obtain ⟨hmode, hstored, hsize, hposition, hsmall, hreach⟩ := h
  have hle : c.position ≤ c.content.length := by omega
  obtain ⟨block, hblock, hlen⟩ :=
    malloc_isSome hheap (max (f.position + bytes.length) f.size)
  have hread : (if 0 < f.size then ext2ReadFile f.stored block f.size else (block, 0)) =
      (c.content ++ block.drop c.content.length, toInt c.content.length) := by
    split_ifs with hpos
    · rw [hstored, hsize, readFile_whole]
    · have hnil : c.content = [] := length_eq_zero_iff.mp (by omega)
      rw [hnil]
      rfl
  have hsplice : splice (c.content ++ block.drop c.content.length) f.position bytes =
      some (overwrite 0 c.content c.position bytes) := by
    rw [hposition]
    apply splice_eq_overwrite 0 hle
    rw [hlen, hposition, hsize]
  have hover : (overwrite 0 c.content c.position bytes).length =
      max (c.position + bytes.length) c.content.length := length_overwrite 0 hle bytes
  have hwrite : ext2WriteFile f.stored (overwrite 0 c.content c.position bytes) =
      (overwrite 0 c.content c.position bytes,
        toInt (overwrite 0 c.content c.position bytes).length) := by
    unfold ext2WriteFile
    rw [hstored, drop_eq_nil_of_le (by omega), append_nil]
  unfold modifyFile
  rw [wrap_of_lt (by omega : f.position + bytes.length < 2 ^ 32)]
  dsimp only
  rw [hblock]
  dsimp only
  rw [hread]
  rw [if_neg (toInt_nonneg hsmall), hsplice]
  dsimp only
  rw [hwrite]
  rw [if_neg (toInt_nonneg (by omega))]
  refine ⟨_, rfl, hmode, rfl, ?_, ?_, ?_, ?_⟩
  · change max (f.position + bytes.length) f.size = (overwrite 0 c.content c.position bytes).length
    omega
  · change f.position + bytes.length = c.position + bytes.length
    omega
  · change (overwrite 0 c.content c.position bytes).length < 2 ^ 31
    omega
  · change c.position + bytes.length < 2 ^ 32
    omega

theorem Agrees.replace (hstart : f.position = 0)
    (hover : f.size ≤ bytes.length) (hfits : bytes.length < 2 ^ 31) :
    ∃ g, replaceFile f bytes = (.written bytes.length, g) ∧
      Agrees append g (c.write 0 false bytes) := by
  obtain ⟨hmode, hstored, hsize, hposition, hsmall, hreach⟩ := h
  have hwrite : ext2WriteFile f.stored bytes = (bytes, toInt bytes.length) := by
    unfold ext2WriteFile
    rw [hstored, drop_eq_nil_of_le (by omega), append_nil]
  have hcont : overwrite 0 c.content c.position bytes = bytes := by
    rw [← hposition, hstart, overwrite_zero, drop_eq_nil_of_le (by omega), append_nil]
  unfold replaceFile
  rw [hwrite]
  dsimp only
  rw [if_neg (toInt_nonneg hfits)]
  refine ⟨_, rfl, hmode, ?_, ?_, ?_, ?_, ?_⟩
  · exact hcont.symm
  · exact (congrArg List.length hcont).symm
  · change bytes.length = c.position + bytes.length
    omega
  · change (overwrite 0 c.content c.position bytes).length < 2 ^ 31
    rwa [hcont]
  · change c.position + bytes.length < 2 ^ 32
    omega

theorem Agrees.write {buffer : Buffer} (hok : WriteOk f buffer.bytes.length heap) :
    ∃ g, ext2VfsWrite f buffer heap = some (.written buffer.bytes.length, g) ∧
      Agrees append g (c.write 0 append buffer.bytes) := by
  obtain rfl := h.mode
  unfold ext2VfsWrite
  unfold WriteOk at hok
  split_ifs at hok with happend
  · rw [if_pos (.inr happend), if_pos happend]
    -- the position is first moved to the end
    have hwrite : c.write 0 f.append buffer.bytes =
        Cursor.write 0 false { c with position := c.content.length } buffer.bytes := by
      simp [Cursor.write, happend]
    rw [hwrite]
    have hmoved : Agrees f.append { f with position := f.size }
      { c with position := c.content.length } :=
      ⟨h.mode, h.stored, h.size, h.size, h.small, by have := h.small; dsimp only; omega⟩
    exact hmoved.modify hok.1 le_rfl hok.2
  · have hwrite : c.write 0 f.append buffer.bytes = c.write 0 false buffer.bytes := by
      rw [Bool.eq_false_iff.mpr happend]
    rw [hwrite]
    rcases hok with ⟨hpos, hins, hheap, hfits⟩ | ⟨hstart, hover, hfits⟩
    · rw [if_pos (.inl ⟨by omega, hpos⟩), if_neg happend]
      exact h.modify hheap hins hfits
    · rw [if_neg (by simp [hstart, happend])]
      obtain ⟨g, hg, hagrees⟩ := h.replace hstart hover hfits
      exact ⟨g, congrArg some hg, hagrees⟩

end

theorem toInt_addOffset {base : ℕ} (hbase : base < 2 ^ 32) (offset : Int64) :
    (addOffset base offset).toInt =
      if base + offset.toInt < 2 ^ 63 then base + offset.toInt
      else base + offset.toInt - 2 ^ 64 := by
  have hlow := Int64.le_toInt offset
  have hhigh := Int64.toInt_lt offset
  unfold addOffset
  rw [Int64.toInt_add, Int64.toInt_ofNat_of_lt (by omega)]
  rw [Int.bmod_def]
  split_ifs <;> omega

section

variable (h : Agrees append f c)
include h

theorem Agrees.moveTo {newPosition : Int64} {p : ℤ}
    (hp : newPosition.toInt = if p < 2 ^ 63 then p else p - 2 ^ 64) (hlt : p < 2 ^ 64)
    (hok : Offset p → p < 2 ^ 32) :
    (moveTo f newPosition).1 = (refMoveTo c p).1 ∧
      Agrees append (moveTo f newPosition).2 (refMoveTo c p).2 := by
  have hneg : newPosition < 0 ↔ ¬ Offset p := by
    rw [Int64.lt_iff_toInt_lt, hp, Int64.toInt_zero, Offset]
    split_ifs <;> omega
  unfold Ext2.moveTo refMoveTo
  by_cases hoffset : Offset p
  · have hto : newPosition.toInt = p := by rw [hp, if_pos hoffset.2]
    have hnat : p.toNat < 2 ^ 32 := by
      have := hok hoffset
      have := hoffset.1
      omega
    rw [if_neg (by simpa [hneg] using hoffset), if_pos hoffset, hto]
    exact ⟨rfl, h.mode, h.stored, h.size, wrap_of_lt hnat, h.small, hnat⟩
  · rw [if_pos (hneg.mpr hoffset), if_neg hoffset]
    exact ⟨rfl, h⟩

theorem Agrees.seek {offset : Int64} {whence : Whence} (hok : SeekOk f offset whence) :
    (ext2VfsSeek f offset whence).1 = (refSeek c offset whence).1 ∧
      Agrees append (ext2VfsSeek f offset whence).2 (refSeek c offset whence).2 := by
  have hhigh := Int64.toInt_lt offset
  have hsize := h.size
  have hsmall := h.small
  have hposition := h.position
  have hreach := h.reachable
  unfold ext2VfsSeek refSeek
  cases whence with
  | set => exact h.moveTo (by rw [if_pos (by omega)]) (by omega) (hok _ rfl)
  | cur =>
    rw [← hposition]
    exact h.moveTo (toInt_addOffset (by omega) offset) (by omega) (hok _ rfl)
  | fromEnd =>
    rw [← hsize]
    exact h.moveTo (toInt_addOffset (by omega) offset) (by omega) (hok _ rfl)
  | other => exact ⟨rfl, h⟩

theorem Agrees.serve {request : Request} (hok : RequestOk f request) :
    ∃ g, serve f request = some ((refServe append c request).1, g) ∧
      Agrees append g (refServe append c request).2 := by
  cases request with
  | read size heap => exact h.read hok
  | write buffer heap => exact h.write hok
  | seek offset whence =>
    obtain ⟨houtput, hagrees⟩ := h.seek hok
    refine ⟨_, ?_, hagrees⟩
    change some (ext2VfsSeek f offset whence) = some ((refSeek c offset whence).1, _)
    rw [← houtput]
  | tell =>
    refine ⟨f, ?_, h⟩
    change some (Output.offset f.position, f) = some (Output.offset c.position, f)
    rw [h.position]

end

end

/-- The sessions agree in their states and in what was returned. -/
def SessionAgrees (s : Session File) (r : Session (Cursor UInt8)) : Prop :=
  Agrees append s.state r.state ∧ s.outputs = r.outputs

theorem SessionAgrees.step {append : Bool} {s : Session File} {r : Session (Cursor UInt8)}
    (h : SessionAgrees append s r) {request : Request} (hok : RequestOk s.state request) :
    ∃ t, step s request = some t ∧ SessionAgrees append t (refStep append r request) := by
  obtain ⟨g, hg, hagrees⟩ := h.1.serve hok
  refine ⟨⟨g, s.outputs ++ [(refServe append r.state request).1]⟩, ?_, hagrees, ?_⟩
  · unfold Ext2.step
    rw [hg]
    rfl
  · rw [h.2]
    rfl

/-- A handle whose calls meet the condition is an array with a cursor: the calls return the
same, and the same is stored in the end. -/
theorem open_file_is_cursor (append : Bool) (content : Buffer) (f : File)
    (hopen : ext2VfsOpen append content = .ok f) (requests : List Request)
    (hok : Meets step (fun s => RequestOk s.state) ⟨f, []⟩ requests) :
    ∃ s, exec step ⟨f, []⟩ requests = some s ∧
      s.outputs = (requests.foldl (refStep append) ⟨⟨content.bytes, 0⟩, []⟩).outputs ∧
      s.state.stored = (requests.foldl (refStep append)
        ⟨⟨content.bytes, 0⟩, []⟩).state.content := by
  have hagrees : Agrees append f ⟨content.bytes, 0⟩ := by
    have hbound := content.bound
    unfold ext2VfsOpen toInt at hopen
    dsimp only at hopen
    split_ifs at hopen with hsmall hneg hneg
    · cases hopen
      exact ⟨rfl, rfl, Int.toNat_natCast _, rfl, hsmall, Nat.two_pow_pos 32⟩
    · omega
  have hsession : SessionAgrees append ⟨f, []⟩ ⟨⟨content.bytes, 0⟩, []⟩ := ⟨hagrees, rfl⟩
  obtain ⟨s, hs, hend⟩ := exec_refines step (refStep append)
    (fun s r i hsr hi => hsr.step hi) hsession hok
  exact ⟨s, hs, hend.2, hend.1.stored⟩

/-- Two bytes are read, and two are written at the end of the file. -/
theorem read_then_write_is_cursor : ∃ s, exec step ⟨⟨false, [1, 2], 2, 0⟩, []⟩
        [.read 5 (some fun _ => 7), .write ⟨[3, 4], by decide⟩ (some fun _ => 7)] = some s ∧
      s.outputs = [.read [1, 2], .written 2] ∧ s.state.stored = [1, 2, 3, 4] := by
  apply open_file_is_cursor false ⟨[1, 2], by decide⟩ _ rfl
  refine meets_cons _ (.inr ⟨rfl, by decide⟩) rfl (meets_cons _ (.inl ?_) rfl trivial)
  exact ⟨by decide, by decide, rfl, by decide⟩

/-- After a write of one byte at the start, the rest of the file cannot be read. -/
theorem write_at_start_hides_rest : ∃ f s, ext2VfsOpen false ⟨[1, 2, 3], by decide⟩ = .ok f ∧
      exec step ⟨f, []⟩ [.write ⟨[9], by decide⟩ (some fun _ => 0), .read 5 (some fun _ => 0)] =
        some s ∧
      s.outputs = [.written 1, .read []] ∧
      ([.write ⟨[9], by decide⟩ (some fun _ => 0), .read 5 (some fun _ => 0)].foldl
        (refStep false) ⟨⟨[1, 2, 3], 0⟩, []⟩).outputs = [.written 1, .read [2, 3]] :=
  ⟨_, _, rfl, rfl, rfl, rfl⟩

end UintOS.Ext2
