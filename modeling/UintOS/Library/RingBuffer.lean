import Mathlib.Tactic

/-!
# Ring buffers

An array used as a queue: `start` is the cell to be read next, `stop` the one to be written next,
and both wrap around. The number of elements is kept beside them, and is brought up to date after
the elements of a call were moved. `contents` are the elements, oldest first; writing appends to
them and reading takes from their front.
-/

structure RingBuffer (α : Type*) where
  cells : ℕ → α
  size : ℕ
  start : ℕ
  stop : ℕ
  count : ℕ

namespace RingBuffer

open Function List

variable {α : Type*} (b : RingBuffer α)

def put (x : α) : RingBuffer α :=
  { b with
    cells := update b.cells b.stop x
    stop := (b.stop + 1) % b.size }

def advance : RingBuffer α := { b with start := (b.start + 1) % b.size }

def write (l : List α) : RingBuffer α :=
  { l.foldl put b with count := b.count + l.length }

def fetch : ℕ → RingBuffer α → List α × RingBuffer α
  | 0, b => ([], b)
  | n + 1, b => (b.cells b.start :: (fetch n b.advance).1, (fetch n b.advance).2)

def read (n : ℕ) : List α × RingBuffer α :=
  ((fetch n b).1, { (fetch n b).2 with count := b.count - n })

def contents : List α :=
  (List.range b.count).map fun k => b.cells ((b.start + k) % b.size)

structure WellFormed (b : RingBuffer α) : Prop where
  start_lt : b.start < b.size
  count_le : b.count ≤ b.size
  stop_eq : b.stop = (b.start + b.count) % b.size

@[simp] theorem length_contents : b.contents.length = b.count := by
  simp [contents]

variable {b : RingBuffer α} {k n j : ℕ}

theorem wellFormed_empty (hsize : 0 < b.size) (hstart : b.start = 0) (hstop : b.stop = 0)
    (hcount : b.count = 0) : b.WellFormed where
  start_lt := hstart ▸ hsize
  count_le := by omega
  stop_eq := by rw [hstart, hstop, hcount, Nat.add_zero, Nat.zero_mod]

/-! ## Writing -/

def push (b : RingBuffer α) (x : α) : RingBuffer α := { b.put x with count := b.count + 1 }

theorem foldl_put_count (b : RingBuffer α) (l : List α) (n : ℕ) :
    l.foldl put { b with count := n } = { l.foldl put b with count := n } := by
  induction l generalizing b with
  | nil => rfl
  | cons x l ih => exact ih (b.put x)

theorem write_cons (b : RingBuffer α) (x : α) (l : List α) :
    b.write (x :: l) = (b.push x).write l := by
  simp only [write, push, foldl_cons, foldl_put_count, length_cons]
  congr 1
  omega

@[simp] theorem write_size (b : RingBuffer α) (l : List α) : (b.write l).size = b.size := by
  induction l generalizing b with
  | nil => rfl
  | cons x l ih => rw [write_cons, ih]; rfl

theorem wrap_succ (a n : ℕ) : (a % n + 1) % n = (a + 1) % n := by
  rw [Nat.add_mod, Nat.mod_mod, ← Nat.add_mod]

theorem wrap_ne {a size : ℕ} (hk : k < n) (hn : n < size) : (a + k) % size ≠ (a + n) % size := by
  intro h
  have hmod : k ≡ n [MOD size] := Nat.ModEq.add_left_cancel' a h
  have heq : k = n := Nat.ModEq.eq_of_lt_of_lt hmod (by omega) hn
  omega

theorem WellFormed.push (h : b.WellFormed) (hroom : b.count < b.size) (x : α) :
    (b.push x).WellFormed where
  start_lt := h.start_lt
  count_le := hroom
  stop_eq := by
    change (b.stop + 1) % b.size = (b.start + (b.count + 1)) % b.size
    rw [h.stop_eq, wrap_succ, Nat.add_assoc]

/-- The new element goes into a cell of none of the others. -/
theorem WellFormed.contents_push (h : b.WellFormed) (hroom : b.count < b.size)
    (x : α) : (b.push x).contents = b.contents ++ [x] := by
  have hnew : (b.push x).cells ((b.start + b.count) % b.size) = x := by
    change update b.cells b.stop x _ = x
    rw [← h.stop_eq, update_self]
  have hold : ∀ k < b.count,
      (b.push x).cells ((b.start + k) % b.size) = b.cells ((b.start + k) % b.size) := by
    intro k hk
    apply update_of_ne
    rw [h.stop_eq]
    exact wrap_ne hk hroom
  change (List.range (b.count + 1)).map (fun k => (b.push x).cells ((b.start + k) % b.size)) = _
  rw [range_succ, map_append, map_singleton, hnew, contents]
  congr 1
  exact map_congr_left fun k hk => hold k (mem_range.mp hk)

theorem WellFormed.write (h : b.WellFormed) {l : List α} (hroom : b.count + l.length ≤ b.size) :
    (b.write l).WellFormed ∧ (b.write l).contents = b.contents ++ l := by
  induction l generalizing b with
  | nil => exact ⟨h, (append_nil _).symm⟩
  | cons x l ih =>
    rw [length_cons] at hroom
    have hone : b.count < b.size := by omega
    have hrest : (b.push x).count + l.length ≤ (b.push x).size := by
      change b.count + 1 + l.length ≤ b.size
      omega
    obtain ⟨hwell, hcont⟩ := ih (h.push hone x) hrest
    rw [write_cons]
    refine ⟨hwell, ?_⟩
    rw [hcont, h.contents_push hone, append_assoc, singleton_append]

/-! ## Reading -/

def pop (b : RingBuffer α) : RingBuffer α := { b.advance with count := b.count - 1 }

theorem fetch_count (b : RingBuffer α) (n m : ℕ) :
    fetch n { b with count := m } = ((fetch n b).1, { (fetch n b).2 with count := m }) := by
  induction n generalizing b with
  | zero => rfl
  | succ n ih =>
    have hadvance : advance { b with count := m } = { b.advance with count := m } := rfl
    simp only [fetch, hadvance, ih]

theorem read_succ (b : RingBuffer α) (n : ℕ) :
    b.read (n + 1) = (b.cells b.start :: (b.pop.read n).1, (b.pop.read n).2) := by
  simp only [read, fetch, pop, fetch_count]
  congr 2
  omega

@[simp] theorem read_size (b : RingBuffer α) (n : ℕ) : (b.read n).2.size = b.size := by
  induction n generalizing b with
  | zero => rfl
  | succ n ih => rw [read_succ, ih]; rfl

section

variable (h : b.WellFormed)
include h

theorem WellFormed.pop (hcount : 0 < b.count) : b.pop.WellFormed where
  start_lt := Nat.mod_lt _ (Nat.zero_lt_of_lt h.start_lt)
  count_le := by
    have := h.count_le
    change b.count - 1 ≤ b.size
    omega
  stop_eq := by
    change b.stop = ((b.start + 1) % b.size + (b.count - 1)) % b.size
    rw [Nat.mod_add_mod, h.stop_eq]
    congr 1
    omega

theorem WellFormed.contents_pop (hcount : 0 < b.count) :
    b.contents = b.cells b.start :: b.pop.contents := by
  obtain ⟨n, hn⟩ : ∃ n, b.count = n + 1 := ⟨b.count - 1, by omega⟩
  have hpop : b.pop.count = n := by
    change b.count - 1 = n
    omega
  rw [contents, contents, hn, hpop, range_succ_eq_map, map_cons, map_map,
    Nat.add_zero, Nat.mod_eq_of_lt h.start_lt]
  congr 1
  apply map_congr_left
  intro k _
  change b.cells ((b.start + (k + 1)) % b.size) = b.cells (((b.start + 1) % b.size + k) % b.size)
  rw [Nat.mod_add_mod, Nat.add_assoc, Nat.add_comm 1 k]

theorem WellFormed.read (hn : n ≤ b.count) :
    (b.read n).2.WellFormed ∧ b.contents = (b.read n).1 ++ (b.read n).2.contents := by
  induction n generalizing b with
  | zero => exact ⟨h, rfl⟩
  | succ n ih =>
    have hpos : 0 < b.count := by omega
    have hrest : n ≤ b.pop.count := by
      change n ≤ b.count - 1
      omega
    obtain ⟨hwell, hcont⟩ := ih (h.pop hpos) hrest
    rw [read_succ]
    refine ⟨hwell, ?_⟩
    rw [h.contents_pop hpos, hcont, cons_append]

/-- Read the oldest element, and leave something else there. -/
def take (b : RingBuffer α) (x : α) : RingBuffer α :=
  { b.pop with cells := update b.cells b.start x }

theorem WellFormed.take (hcount : 0 < b.count) (x : α) : (b.take x).WellFormed where
  start_lt := (h.pop hcount).start_lt
  count_le := (h.pop hcount).count_le
  stop_eq := (h.pop hcount).stop_eq

/-- What is left in the cell is not seen again. -/
theorem WellFormed.contents_take (hcount : 0 < b.count)
    (x : α) : b.contents = b.cells b.start :: (b.take x).contents := by
  rw [h.contents_pop hcount]
  congr 1
  apply map_congr_left
  intro k hk
  have hlt : k < b.count - 1 := mem_range.mp hk
  have hle := h.count_le
  have hcell : ((b.start + 1) % b.size + k) % b.size ≠ b.start := by
    have hne : (b.start + 0) % b.size ≠ (b.start + (1 + k)) % b.size :=
      wrap_ne (by omega) (by omega)
    rw [Nat.add_zero, Nat.mod_eq_of_lt h.start_lt] at hne
    rw [Nat.mod_add_mod, Nat.add_assoc]
    exact hne.symm
  exact (update_of_ne hcell x b.cells).symm

end

/-! ## Taking an element out of the middle -/

def elem (b : RingBuffer α) (k : ℕ) : α := b.cells ((b.start + k) % b.size)

def pull (b : RingBuffer α) (k : ℕ) : RingBuffer α :=
  { b with cells := update b.cells ((b.start + k) % b.size) (b.elem (k + 1)) }

def pulls (b : RingBuffer α) : (k n : ℕ) → RingBuffer α
  | _, 0 => b
  | k, n + 1 => (b.pull k).pulls (k + 1) n

/-- Take the element at a place out, and close the gap. -/
def removeAt (b : RingBuffer α) (k : ℕ) : RingBuffer α :=
  { b.pulls k (b.count - 1 - k) with
    count := b.count - 1
    stop := (b.stop + b.size - 1) % b.size }

theorem elem_pull (hj : j < b.size) (hk : k < b.size) :
    (b.pull k).elem j = if j = k then b.elem (k + 1) else b.elem j := by
  change update b.cells ((b.start + k) % b.size) (b.elem (k + 1)) ((b.start + j) % b.size) = _
  by_cases hjk : j = k
  · rw [hjk, if_pos rfl, update_self]
  · have hne : (b.start + j) % b.size ≠ (b.start + k) % b.size := by
      rcases Nat.lt_or_gt_of_ne hjk with hlt | hgt
      · exact wrap_ne hlt hk
      · exact (wrap_ne hgt hj).symm
    rw [if_neg hjk, update_of_ne hne]
    rfl

theorem pulls_fields (b : RingBuffer α) (k n : ℕ) :
    (b.pulls k n).size = b.size ∧ (b.pulls k n).start = b.start := by
  induction n generalizing b k with
  | zero => exact ⟨rfl, rfl⟩
  | succ n ih => exact ih (b.pull k) (k + 1)

theorem elem_pulls (hj : j < b.size) (hn : k + n < b.size) :
    (b.pulls k n).elem j = if k ≤ j ∧ j < k + n then b.elem (j + 1) else b.elem j := by
  induction n generalizing b k with
  | zero => rw [if_neg (by omega), pulls]
  | succ n ih =>
    have hsize : (b.pull k).size = b.size := rfl
    rw [pulls, ih (hsize ▸ hj) (by rw [hsize]; omega)]
    by_cases hafter : k + 1 ≤ j ∧ j < k + 1 + n
    · rw [if_pos hafter, if_pos (by omega), elem_pull (by omega) (by omega), if_neg (by omega)]
    · rw [if_neg hafter, elem_pull hj (by omega)]
      by_cases hjk : j = k
      · rw [if_pos hjk, if_pos (by omega), hjk]
      · rw [if_neg hjk, if_neg (by omega)]

theorem contents_eq (b : RingBuffer α) : b.contents = (List.range b.count).map b.elem := rfl

theorem WellFormed.removeAt (h : b.WellFormed) (hk : k < b.count) : (b.removeAt k).WellFormed where
  start_lt := by
    change (b.pulls k _).start < (b.pulls k _).size
    rw [(pulls_fields b k _).1, (pulls_fields b k _).2]
    exact h.start_lt
  count_le := by
    change b.count - 1 ≤ (b.pulls k _).size
    rw [(pulls_fields b k _).1]
    have := h.count_le
    omega
  stop_eq := by
    change (b.stop + b.size - 1) % b.size =
      ((b.pulls k _).start + (b.count - 1)) % (b.pulls k _).size
    have hsize := h.start_lt
    rw [(pulls_fields b k _).1, (pulls_fields b k _).2, h.stop_eq, Nat.add_sub_assoc (by omega),
      Nat.mod_add_mod, show b.start + b.count + (b.size - 1) = b.start + (b.count - 1) + b.size by
        omega, Nat.add_mod_right]

theorem WellFormed.contents_removeAt (h : b.WellFormed)
    (hk : k < b.count) : (b.removeAt k).contents = b.contents.eraseIdx k := by
  have hle := h.count_le
  have hcount : (b.removeAt k).count = b.count - 1 := rfl
  have hat : ∀ j, j < b.count - 1 →
      (b.removeAt k).elem j = if j < k then b.elem j else b.elem (j + 1) := by
    intro j hj
    change (b.pulls k (b.count - 1 - k)).elem j = _
    rw [elem_pulls (by omega) (by omega)]
    by_cases hjk : j < k
    · rw [if_pos hjk, if_neg (by omega)]
    · rw [if_neg hjk, if_pos (by omega)]
  apply ext_getElem
  · rw [length_contents, hcount, length_eraseIdx_of_lt (by simpa using hk), length_contents]
  · intro j hj hj'
    rw [length_contents, hcount] at hj
    rw [getElem_eraseIdx]
    simp only [contents_eq, getElem_map, getElem_range, hat j hj]
    split_ifs <;> rfl

end RingBuffer
