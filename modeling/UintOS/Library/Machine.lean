import Mathlib.Tactic

/-!
# Unsigned 32-bit arithmetic and byte memory

Numbers are natural numbers below `2 ^ 32`; the operations wrap around. Byte
memory is a function from addresses to bytes, with the block operations of the C
library and little-endian 32-bit access.
-/

namespace Machine

/-- `a + b` on `uint32_t`. -/
def add32 (a b : ℕ) : ℕ := (a + b) % 4294967296

/-- `a - b` on `uint32_t`. -/
def sub32 (a b : ℕ) : ℕ := (4294967296 + a - b) % 4294967296

/-- `a * b` on `uint32_t`. -/
def mul32 (a b : ℕ) : ℕ := (a * b) % 4294967296

theorem add32_eq {a b : ℕ} (h : a + b < 4294967296) : add32 a b = a + b :=
  Nat.mod_eq_of_lt h

theorem sub32_eq {a b : ℕ} (hb : b ≤ a) (ha : a < 4294967296) : sub32 a b = a - b := by
  unfold sub32
  omega

theorem add32_lt (a b : ℕ) : add32 a b < 4294967296 := Nat.mod_lt _ (by decide)

theorem sub32_lt (a b : ℕ) : sub32 a b < 4294967296 := Nat.mod_lt _ (by decide)

variable (m : ℕ → UInt8)

/-- `memset`: `n` bytes from `a` on are set to `v`. -/
def fill (a n : ℕ) (v : UInt8) : ℕ → UInt8 :=
  fun x => if a ≤ x ∧ x < a + n then v else m x

/-- `memcpy`: `n` bytes from `src` on are copied to `dst`. -/
def copy (dst src n : ℕ) : ℕ → UInt8 :=
  fun x => if dst ≤ x ∧ x < dst + n then m (src + (x - dst)) else m x

def storeBytes (a : ℕ) (l : List UInt8) : ℕ → UInt8 :=
  fun x => if a ≤ x ∧ x < a + l.length then l.getD (x - a) 0 else m x

def loadBytes (a n : ℕ) : List UInt8 := (List.range n).map fun i => m (a + i)

/-- The little-endian 32-bit number stored at `a`. -/
def read32 (a : ℕ) : ℕ :=
  (m a).toNat + 256 * (m (a + 1)).toNat + 65536 * (m (a + 2)).toNat + 16777216 * (m (a + 3)).toNat

/-- Store the 32-bit number `v` at `a`, little-endian. -/
def write32 (a v : ℕ) : ℕ → UInt8 := fun x =>
  if a ≤ x ∧ x < a + 4 then UInt8.ofNat (v / 256 ^ (x - a)) else m x

/-- The little-endian 16-bit number stored at `a`. -/
def read16 (a : ℕ) : ℕ := (m a).toNat + 256 * (m (a + 1)).toNat

/-- Store the 16-bit number `v` at `a`, little-endian. -/
def write16 (a v : ℕ) : ℕ → UInt8 := fun x =>
  if a ≤ x ∧ x < a + 2 then UInt8.ofNat (v / 256 ^ (x - a)) else m x

/-- Store the 32-bit numbers `f 0, …, f (n - 1)` in consecutive words from `a` on: the loop
`for (j = 0; j < n; j++) a[j] = f(j)`. -/
def storeWords (a n : ℕ) (f : ℕ → ℕ) : ℕ → UInt8 := fun x =>
  if a ≤ x ∧ x < a + 4 * n then UInt8.ofNat (f ((x - a) / 4) / 256 ^ ((x - a) % 4)) else m x

section Memory

variable {m m' : ℕ → UInt8} {a b n v x : ℕ} {f : ℕ → ℕ} {l : List UInt8}

theorem read32_congr (h : ∀ x, a ≤ x → x < a + 4 → m' x = m x) : read32 m' a = read32 m a := by
  unfold read32
  rw [h a (by omega) (by omega), h (a + 1) (by omega) (by omega),
    h (a + 2) (by omega) (by omega), h (a + 3) (by omega) (by omega)]

theorem read16_congr (h : ∀ x, a ≤ x → x < a + 2 → m' x = m x) : read16 m' a = read16 m a := by
  unfold read16
  rw [h a (by omega) (by omega), h (a + 1) (by omega) (by omega)]

theorem read32_lt (m : ℕ → UInt8) (a : ℕ) : read32 m a < 4294967296 := by
  unfold read32
  have h0 := (m a).toNat_lt
  have h1 := (m (a + 1)).toNat_lt
  have h2 := (m (a + 2)).toNat_lt
  have h3 := (m (a + 3)).toNat_lt
  omega

theorem read16_lt (m : ℕ → UInt8) (a : ℕ) : read16 m a < 65536 := by
  unfold read16
  have h0 := (m a).toNat_lt
  have h1 := (m (a + 1)).toNat_lt
  omega

@[simp] theorem length_loadBytes (m : ℕ → UInt8) (a n : ℕ) : (loadBytes m a n).length = n := by
  simp [loadBytes]

theorem getElem?_loadBytes {i : ℕ} (h : i < n) : (loadBytes m a n)[i]? = some (m (a + i)) := by
  simp [loadBytes, h]

theorem storeBytes_of_out (h : x < a ∨ a + l.length ≤ x) : storeBytes m a l x = m x := by
  unfold storeBytes
  rw [if_neg (by omega)]

theorem loadBytes_storeBytes (m : ℕ → UInt8) (a : ℕ) (l : List UInt8) :
    loadBytes (storeBytes m a l) a l.length = l := by
  apply List.ext_getElem?
  intro i
  by_cases hi : i < l.length
  · rw [getElem?_loadBytes hi]
    unfold storeBytes
    simp [List.getD, hi]
  · simp [hi]

theorem loadBytes_storeBytes_of_out (h : a + n ≤ b ∨ b + l.length ≤ a) :
    loadBytes (storeBytes m b l) a n = loadBytes m a n := by
  apply List.map_congr_left
  intro i hi
  have hlt := List.mem_range.mp hi
  exact storeBytes_of_out (by omega)

theorem loadBytes_add (m : ℕ → UInt8) (a n k : ℕ) :
    loadBytes m a (n + k) = loadBytes m a n ++ loadBytes m (a + n) k := by
  simp [loadBytes, List.range_add, Nat.add_assoc]

theorem fill_of_out (h : x < a ∨ a + n ≤ x) (w : UInt8) : fill m a n w x = m x := by
  unfold fill
  rw [if_neg (by omega)]

theorem copy_of_out (h : x < a ∨ a + n ≤ x) : copy m a b n x = m x := by
  unfold copy
  rw [if_neg (by omega)]

theorem write32_of_out (h : x < a ∨ a + 4 ≤ x) : write32 m a v x = m x := by
  unfold write32
  rw [if_neg (by omega)]

theorem write16_of_out (h : x < a ∨ a + 2 ≤ x) : write16 m a v x = m x := by
  unfold write16
  rw [if_neg (by omega)]

theorem storeWords_of_out (h : x < a ∨ a + 4 * n ≤ x) : storeWords m a n f x = m x := by
  unfold storeWords
  rw [if_neg (by omega)]

theorem read32_write32 (hv : v < 4294967296) : read32 (write32 m a v) a = v := by
  unfold read32 write32
  simp only [le_refl, Nat.le_add_right, Nat.lt_add_right_iff_pos, Nat.add_lt_add_iff_left,
    and_self, if_true, Nat.sub_self, Nat.add_sub_cancel_left, pow_zero, pow_one, Nat.div_one,
    Nat.ofNat_pos, Nat.reduceLT, Nat.one_lt_ofNat, UInt8.toNat_ofNat', Nat.reducePow]
  omega

theorem read16_write16 (hv : v < 65536) : read16 (write16 m a v) a = v := by
  unfold read16 write16
  simp only [le_refl, Nat.le_add_right, Nat.lt_add_right_iff_pos, Nat.add_lt_add_iff_left,
    and_self, if_true, Nat.sub_self, Nat.add_sub_cancel_left, pow_zero, pow_one, Nat.div_one,
    Nat.ofNat_pos, Nat.one_lt_ofNat, UInt8.toNat_ofNat', Nat.reducePow]
  omega

theorem read32_fill_zero (h : a ≤ b) (h' : b + 4 ≤ a + n) : read32 (fill m a n 0) b = 0 := by
  unfold read32 fill
  rw [if_pos (by omega), if_pos (by omega), if_pos (by omega), if_pos (by omega)]
  rfl

theorem read32_storeWords {j : ℕ} (hj : j < n) (hf : f j < 4294967296) :
    read32 (storeWords m a n f) (a + 4 * j) = f j := by
  have hword : ∀ i, i < 4 → storeWords m a n f (a + 4 * j + i) = write32 m (a + 4 * j) (f j)
      (a + 4 * j + i) := by
    intro i hi
    unfold storeWords write32
    rw [if_pos (by omega), if_pos (by omega)]
    congr
    · omega
    · omega
  rw [← read32_write32 (m := m) (a := a + 4 * j) hf]
  apply read32_congr
  intro x h1 h2
  obtain ⟨i, rfl⟩ := Nat.exists_eq_add_of_le h1
  exact hword i (by omega)

end Memory

end Machine
