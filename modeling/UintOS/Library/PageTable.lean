import UintOS.Library.Machine

/-!
# Two-level page tables

The 32-bit translation of the x86: a directory and its tables are pages of 1024 words in byte
memory. The low twelve bits of an entry are flags, bit 0 `present` and bit 1 `writable`; the others
are the address of a page. Masking with `0xFFF` and `~0xFFF` is written as remainder and quotient,
and the `or` of a page address and flags as a sum.
-/

namespace PageTable

open Machine

variable (m : ℕ → UInt8)

def entry (a i : ℕ) : ℕ := read32 m (a + 4 * i)

def setEntry (a i e : ℕ) : ℕ → UInt8 := write32 m (a + 4 * i) e

def present (e : ℕ) : Bool := e % 2 = 1

def writable (e : ℕ) : Bool := e / 2 % 2 = 1

/-- `e & ~0xFFF` and `e & 0xFFF`. -/
def frame (e : ℕ) : ℕ := e / 4096 * 4096
def flags (e : ℕ) : ℕ := e % 4096

/-- `e | WRITABLE` and `e & ~WRITABLE`. -/
def setWritable (e : ℕ) : ℕ := if writable e then e else e + 2
def clearWritable (e : ℕ) : ℕ := if writable e then e - 2 else e

def dirIndex (va : ℕ) : ℕ := va / 4194304
def tableIndex (va : ℕ) : ℕ := va / 4096 % 1024

/-- The table entry of the virtual address, when both levels are present. -/
def walk (dir va : ℕ) : Option ℕ :=
  if present (entry m dir (dirIndex va)) then
    let e := entry m (frame (entry m dir (dirIndex va))) (tableIndex va)
    if present e then some e else none
  else none

/-- Entry `j` of table `q` of the directory, when both levels are present. -/
def lookup (dir q j : ℕ) : Option ℕ :=
  if present (entry m dir q) then
    if present (entry m (frame (entry m dir q)) j) then some (entry m (frame (entry m dir q)) j)
    else none
  else none

def load (dir va : ℕ) : Option UInt8 :=
  (walk m dir va).map fun e => m (frame e + va % 4096)

def SamePage (m m' : ℕ → UInt8) (k : ℕ) : Prop := ∀ x, x / 4096 = k → m' x = m x

variable {m m' : ℕ → UInt8} {k i e a j : ℕ}

theorem SamePage.trans {m'' : ℕ → UInt8} (h : SamePage m m' k)
    (h' : SamePage m' m'' k) : SamePage m m'' k :=
  fun x hx => (h' x hx).trans (h x hx)

theorem SamePage.entry (h : SamePage m m' k) (hi : i < 1024) :
    entry m' (4096 * k) i = entry m (4096 * k) i :=
  read32_congr fun x _ _ => h x (by omega)

theorem frame_eq (e : ℕ) : frame e = 4096 * (e / 4096) := by
  unfold frame
  omega

theorem entry_lt (m : ℕ → UInt8) (a i : ℕ) : entry m a i < 4294967296 := read32_lt m _

theorem entry_setEntry (he : e < 4294967296) : entry (setEntry m a i e) a i = e := read32_write32 he

theorem entry_setEntry_ne (hij : j ≠ i) : entry (setEntry m a i e) a j = entry m a j :=
  read32_congr fun x _ _ => write32_of_out (by omega)

theorem entry_fill_zero (hi : i < 1024) : entry (fill m (4096 * k) 4096 0) (4096 * k) i = 0 :=
  read32_fill_zero (by omega) (by omega)

theorem entry_of_zero (h : ∀ x, x / 4096 = k → m x = 0) (hi : i < 1024) :
    entry m (4096 * k) i = 0 := by
  have hfill : ∀ x, 4096 * k + 4 * i ≤ x → x < 4096 * k + 4 * i + 4 →
      m x = fill m (4096 * k) 4096 0 x := by
    intro x hx hx'
    unfold fill
    rw [if_pos (by omega), h x (by omega)]
  exact (read32_congr hfill).trans (entry_fill_zero hi)

theorem tableIndex_lt (va : ℕ) : tableIndex va < 1024 := Nat.mod_lt _ (by decide)

theorem walk_eq_lookup (m : ℕ → UInt8) (dir va : ℕ) :
    walk m dir va = lookup m dir (dirIndex va) (tableIndex va) := rfl

theorem lookup_eq_some {dir q : ℕ} :
    lookup m dir q j = some e ↔ present (entry m dir q) ∧ present e ∧
      entry m (frame (entry m dir q)) j = e := by
  unfold lookup
  split_ifs with hdir htable
  · simp only [Option.some.injEq, hdir, true_and]
    constructor
    · rintro rfl
      exact ⟨htable, rfl⟩
    · exact fun h => h.2
  · simp only [hdir, true_and, false_iff, not_and]
    rintro he rfl
    exact htable he
  · simp [hdir]

section

variable (e : ℕ)

@[simp] theorem present_setWritable : present (setWritable e) = present e := by
  unfold setWritable present
  split_ifs <;> simp

@[simp] theorem writable_setWritable : writable (setWritable e) = true := by
  unfold setWritable
  split_ifs with hw
  · exact hw
  · unfold writable at *
    simp at hw ⊢
    omega

@[simp] theorem present_clearWritable : present (clearWritable e) = present e := by
  unfold clearWritable present
  split_ifs with hw
  · unfold writable at hw
    simp at hw
    simp
    omega
  · rfl

@[simp] theorem writable_clearWritable : writable (clearWritable e) = false := by
  unfold clearWritable
  split_ifs with hw
  · unfold writable at *
    simp at hw ⊢
    omega
  · simpa using hw

theorem frame_clearWritable : clearWritable e / 4096 = e / 4096 := by
  unfold clearWritable
  split_ifs with hw
  · unfold writable at hw
    simp at hw
    omega
  · rfl

theorem frame_setWritable : setWritable e / 4096 = e / 4096 := by
  unfold setWritable
  split_ifs with hw
  · rfl
  · unfold writable at hw
    simp at hw
    omega

theorem clearWritable_le : clearWritable e ≤ e := by
  unfold clearWritable
  split_ifs <;> omega

end

theorem setWritable_lt (he : e < 4294967296) : setWritable e < 4294967296 := by
  have := frame_setWritable e
  omega

end PageTable
