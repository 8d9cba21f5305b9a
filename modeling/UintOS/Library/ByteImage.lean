import Mathlib.Tactic

/-!
# Records in a byte image

A byte image is a function from addresses to bytes, which `load` and `store` read and write.
A table is a row of records of one size that ends before a record whose first byte is zero,
or at its capacity.
-/

namespace ByteImage

open List

/-- A memory or a disk. -/
abbrev Image := ℕ → UInt8

def load (image : Image) (addr n : ℕ) : List UInt8 := (List.range n).map fun i => image (addr + i)

def store (image : Image) (addr : ℕ) (bytes : List UInt8) : Image := fun a =>
  if addr ≤ a ∧ a < addr + bytes.length then bytes.getD (a - addr) 0 else image a

/-! ## Loading and storing -/

variable {image image' : Image}

@[simp] theorem length_load (image : Image) (addr n : ℕ) : (load image addr n).length = n := by
  simp [load]

variable {addr n a : ℕ} {bytes : List UInt8}

theorem load_congr (h : ∀ a, addr ≤ a → a < addr + n → image' a = image a) :
    load image' addr n = load image addr n := by
  apply map_congr_left
  intro i hi
  rw [mem_range] at hi
  exact h (addr + i) (by omega) (by omega)

theorem load_add (image : Image) (addr m n : ℕ) :
    load image addr (m + n) = load image addr m ++ load image (addr + m) n := by
  unfold load
  rw [range_add, map_append, map_map]
  simp [Function.comp_def, Nat.add_assoc]

theorem store_outside
    (h : a < addr ∨ addr + bytes.length ≤ a) : store image addr bytes a = image a := by
  unfold store
  rw [if_neg (by omega)]

theorem store_congr (addr : ℕ) (bytes : List UInt8) (h : image' a = image a) :
    store image' addr bytes a = store image addr bytes a := by
  unfold store
  rw [h]

theorem load_store (image : Image) (addr : ℕ) (bytes : List UInt8) :
    load (store image addr bytes) addr bytes.length = bytes := by
  unfold load store
  apply ext_getElem
  · simp
  · intro i hi hi'
    simp [hi']

theorem load_store_outside {addr' : ℕ} (h : addr' + n ≤ addr ∨ addr + bytes.length ≤ addr') :
    load (store image addr bytes) addr' n = load image addr' n := by
  apply load_congr
  intro a ha ha'
  exact store_outside (by omega)

theorem load_store_le (h : n ≤ bytes.length) :
    load (store image addr bytes) addr n = bytes.take n := by
  have hsplit := load_add (store image addr bytes) addr n (bytes.length - n)
  rw [Nat.add_sub_cancel' h, load_store] at hsplit
  calc load (store image addr bytes) addr n
      = (load (store image addr bytes) addr n ++
          load (store image addr bytes) (addr + n) (bytes.length - n)).take n :=
        (take_left' (length_load _ _ _)).symm
    _ = bytes.take n := by rw [← hsplit]

/-! ## Numbers -/

def toBytes : ℕ → ℕ → List UInt8
  | 0, _ => []
  | w + 1, n => UInt8.ofNat (n % 256) :: toBytes w (n / 256)

def ofBytes : List UInt8 → ℕ
  | [] => 0
  | b :: bytes => b.toNat + 256 * ofBytes bytes

@[simp] theorem length_toBytes (w n : ℕ) : (toBytes w n).length = w := by
  induction w generalizing n with
  | zero => rfl
  | succ w ih => rw [toBytes, length_cons, ih]

theorem ofBytes_toBytes {w : ℕ} (h : n < 256 ^ w) : ofBytes (toBytes w n) = n := by
  induction w generalizing n with
  | zero =>
    obtain rfl : n = 0 := by simpa using h
    rfl
  | succ w ih =>
    have hdiv : n / 256 < 256 ^ w := by
      apply Nat.div_lt_of_lt_mul
      rwa [← pow_succ']
    have hbyte : (UInt8.ofNat (n % 256)).toNat = n % 256 := by
      rw [UInt8.toNat_ofNat']
      omega
    rw [toBytes, ofBytes, ih hdiv, hbyte]
    omega

/-! ## Tables -/

/-- The records from an address on: up to one that begins with zero, and at most `cap`. -/
def records (image : Image) (size : ℕ) : (cap addr : ℕ) → List (List UInt8)
  | 0, _ => []
  | cap + 1, addr =>
    if image addr = 0 then [] else load image addr size :: records image size cap (addr + size)

structure Table (image : Image) (base size cap : ℕ) (rs : List (List UInt8)) : Prop where
  short : rs.length ≤ cap
  sized : ∀ r ∈ rs, r.length = size
  named : ∀ r ∈ rs, r.head? ≠ some 0
  stored : load image base (rs.length * size) = rs.flatten
  blank : ∀ i, rs.length ≤ i → i < cap → image (base + i * size) = 0

variable {base size cap : ℕ} {rs rs' : List (List UInt8)} {r : List UInt8}

theorem length_flatten_of_sized (h : ∀ r ∈ rs, r.length = size) :
    rs.flatten.length = rs.length * size := by
  induction rs with
  | nil => simp
  | cons r rs ih =>
    rw [flatten_cons, length_append, h r mem_cons_self,
      ih fun x hx => h x (mem_cons_of_mem r hx), length_cons, Nat.succ_mul, Nat.add_comm]

theorem load_head {rest : List UInt8} (hn : 0 < n) (h : load image addr n = r ++ rest)
    (hr : r ≠ []) : r.head? = some (image addr) := by
  have hhead := congrArg List.head? h
  rw [head?_append_of_ne_nil _ hr] at hhead
  rw [← hhead]
  obtain ⟨n, rfl⟩ := Nat.exists_eq_add_of_lt hn
  unfold load
  rw [head?_map, Nat.zero_add, range_succ_eq_map]
  simp

theorem Table.records_eq (h : Table image base size cap rs) (hsize : 0 < size) :
    records image size cap base = rs := by
  induction rs generalizing base cap with
  | nil =>
    cases cap with
    | zero => rfl
    | succ cap =>
      have hzero := h.blank 0 (Nat.zero_le _) (by omega)
      rw [Nat.zero_mul, Nat.add_zero] at hzero
      rw [records, if_pos hzero]
  | cons r rs ih =>
    obtain ⟨hshort, hsized, hnamed, hstored, hblank⟩ := h
    rw [length_cons] at hshort hstored hblank
    have hr := hsized r mem_cons_self
    have hne : r ≠ [] := length_pos_iff.mp (by omega)
    cases cap with
    | zero => omega
    | succ cap =>
      have hhead := load_head (Nat.mul_pos (by omega) hsize) hstored hne
      rw [Nat.succ_mul, Nat.add_comm, load_add, flatten_cons] at hstored
      obtain ⟨hfirst, hrest⟩ := append_inj hstored (by simp [hr])
      have hnonzero : image base ≠ 0 := by
        intro hzero
        rw [hzero] at hhead
        exact hnamed r mem_cons_self hhead
      rw [records, if_neg hnonzero, hfirst]
      congr 1
      apply ih
      refine ⟨by omega, fun x hx => hsized x (mem_cons_of_mem r hx),
        fun x hx => hnamed x (mem_cons_of_mem r hx), hrest, ?_⟩
      intro i hi hi'
      rw [← hblank (i + 1) (by omega) (by omega), Nat.succ_mul]
      congr 1
      omega

theorem Table.congr (h : Table image base size cap rs)
    (himage : ∀ a, base ≤ a → a < base + cap * size → image' a = image a) (hsize : 0 < size) :
    Table image' base size cap rs := by
  have hle := Nat.mul_le_mul_right size h.short
  refine ⟨h.short, h.sized, h.named, ?_, ?_⟩
  · rw [← h.stored]
    apply load_congr
    intro a ha ha'
    exact himage a ha (by omega)
  · intro i hi hi'
    have hlt : (i + 1) * size ≤ cap * size := Nat.mul_le_mul_right size hi'
    rw [Nat.succ_mul] at hlt
    rw [himage _ (by omega) (by omega)]
    exact h.blank i hi hi'

theorem records_congr (himage : ∀ a, base ≤ a → a < base + cap * size → image' a = image a)
    (hsize : 0 < size) : records image' size cap base = records image size cap base := by
  induction cap generalizing base with
  | zero => rfl
  | succ cap ih =>
    rw [Nat.succ_mul] at himage
    have hload : load image' base size = load image base size :=
      load_congr fun a ha ha' => himage a ha (by omega)
    rw [records, records, himage base le_rfl (by omega), hload,
      ih fun a ha ha' => himage a (by omega) (by omega)]

theorem Table.push (h : Table image base size cap rs) (hroom : rs.length < cap)
    (hr : r.length = size) (hnamed : r.head? ≠ some 0) :
    Table (store image (base + rs.length * size) r) base size cap (rs ++ [r]) := by
  refine ⟨by simpa using hroom, ?_, ?_, ?_, ?_⟩
  · intro x hx
    rcases mem_append.mp hx with hx | hx
    · exact h.sized x hx
    · rw [mem_singleton.mp hx]
      exact hr
  · intro x hx
    rcases mem_append.mp hx with hx | hx
    · exact h.named x hx
    · rw [mem_singleton.mp hx]
      exact hnamed
  · rw [length_append, length_singleton, Nat.succ_mul, load_add,
      load_store_outside (.inl le_rfl), h.stored, ← hr, load_store]
    simp
  · intro i hi hi'
    rw [length_append, length_singleton] at hi
    have hle := Nat.mul_le_mul_right size hi
    rw [Nat.succ_mul] at hle
    rw [store_outside (.inr (by omega))]
    exact h.blank i (by omega) hi'

theorem Table.rewrite (h : Table image base size cap rs)
    (hlen : rs'.length = rs.length) (hsized : ∀ r ∈ rs', r.length = size)
    (hnamed : ∀ r ∈ rs', r.head? ≠ some 0) :
    Table (store image base rs'.flatten) base size cap rs' := by
  have hflat := length_flatten_of_sized hsized
  refine ⟨by rw [hlen]; exact h.short, hsized, hnamed, ?_, ?_⟩
  · rw [← hflat, load_store]
  · intro i hi hi'
    have hle := Nat.mul_le_mul_right size hi
    rw [store_outside (.inr (by omega))]
    exact h.blank i (by omega) hi'

variable (image) in
theorem Table.init (hblank : ∀ i, i < cap → image (base + i * size) = 0) (hshort : rs.length ≤ cap)
    (hsized : ∀ r ∈ rs, r.length = size) (hnamed : ∀ r ∈ rs, r.head? ≠ some 0) :
    Table (store image base rs.flatten) base size cap rs := by
  have hflat := length_flatten_of_sized hsized
  refine ⟨hshort, hsized, hnamed, ?_, ?_⟩
  · rw [← hflat, load_store]
  · intro i hi hi'
    have hle := Nat.mul_le_mul_right size hi
    rw [store_outside (.inr (by omega))]
    exact hblank i hi'

theorem Table.shrink (h : Table image base size cap rs) (hsize : 0 < size)
    (hlen : rs'.length + 1 = rs.length)
    (hsized : ∀ r ∈ rs', r.length = size) (hnamed : ∀ r ∈ rs', r.head? ≠ some 0) :
    Table (store image base (rs' ++ [List.replicate size 0]).flatten) base size cap rs' := by
  have hflat := length_flatten_of_sized hsized
  have hall : (rs' ++ [List.replicate size (0 : UInt8)]).flatten.length =
    (rs'.length + 1) * size := by
    rw [flatten_append, length_append, hflat, Nat.succ_mul]
    simp
  refine ⟨by have := h.short; omega, hsized, hnamed, ?_, ?_⟩
  · rw [load_store_le (by rw [hall, Nat.succ_mul]; omega), flatten_append, ← hflat, take_left]
  · intro i hi hi'
    rcases Nat.lt_or_ge i rs.length with hlt | hge
    · obtain rfl : i = rs'.length := by omega
      have hzero : store image base (rs' ++ [List.replicate size 0]).flatten
          (base + rs'.length * size) = 0 := by
        unfold store
        rw [hall, Nat.succ_mul, if_pos (by omega), Nat.add_sub_cancel_left, flatten_append, ← hflat]
        simp [hsize]
      exact hzero
    · have hle := Nat.mul_le_mul_right size hge
      rw [store_outside (.inr (by rw [hall, hlen]; omega))]
      exact h.blank i hge hi'

end ByteImage
