import Mathlib.Tactic

/-!
# Copy-on-write sharing

Slots map frames, a slot at most one, read-only or writable. Every frame has contents and a
reference count. A write through a read-only slot first gives it a frame of its own: a fresh copy
while the frame counts more than one reference, the frame itself when it counts one.

`Inv` makes this safe: a writable slot is alone on its frame, and no frame with references counts
fewer of them than there are slots that map it. Then a write is not seen through any other slot.
-/

namespace CopyOnWrite

variable {ι φ δ : Type*}

structure Sharing (ι φ δ : Type*) where
  map : ι → Option (φ × Bool)
  refs : φ → ℕ
  data : φ → δ

namespace Sharing

variable (s : Sharing ι φ δ)

def frameOf (i : ι) : Option φ := (s.map i).map Prod.fst

def view (i : ι) : Option δ := (s.frameOf i).map s.data

variable [DecidableEq φ]

def count (slots : Finset ι) (f : φ) : ℕ := (slots.filter fun i => s.frameOf i = some f).card

variable [DecidableEq ι]

/-- The slot moves to the writable frame `g` with contents `x`. -/
def move (i : ι) (g : φ) (x : δ) : Sharing ι φ δ :=
  { s with map := Function.update s.map i (some (g, true)), data := Function.update s.data g x }

def copyTo (i : ι) (f g : φ) (x : δ) : Sharing ι φ δ :=
  { s.move i g x with refs := Function.update (Function.update s.refs f (s.refs f - 1)) g 1 }

/-- A write through the slot, with the fresh frame for a copy; nothing happens when the slot maps
nothing, or there is no frame for the copy it needs. -/
def write (i : ι) (fresh : Option φ) (update : δ → δ) : Sharing ι φ δ :=
  match s.map i with
  | none => s
  | some (f, true) => { s with data := Function.update s.data f (update (s.data f)) }
  | some (f, false) =>
    if 1 < s.refs f then
      match fresh with
      | none => s
      | some g => s.copyTo i f g (update (s.data f))
    else if s.refs f = 1 then s.move i f (update (s.data f))
    else s

end Sharing

/-- The states differ at most on frames that no slot maps. -/
structure Agree (slots : Finset ι) (s t : Sharing ι φ δ) : Prop where
  map : ∀ i ∈ slots, t.map i = s.map i
  refs : ∀ i ∈ slots, ∀ f, s.frameOf i = some f → t.refs f = s.refs f
  data : ∀ i ∈ slots, ∀ f, s.frameOf i = some f → t.data f = s.data f

structure Inv [DecidableEq φ] (slots : Finset ι) (s : Sharing ι φ δ) : Prop where
  exclusive : ∀ i ∈ slots, ∀ f, s.map i = some (f, true) →
    ∀ j ∈ slots, s.frameOf j = some f → j = i
  counted : ∀ i ∈ slots, ∀ f, s.frameOf i = some f → s.refs f = 0 ∨ s.count slots f ≤ s.refs f

section Agree

variable {slots : Finset ι} {s t : Sharing ι φ δ} {i : ι}

theorem Agree.frameOf (h : Agree slots s t) (hi : i ∈ slots) : t.frameOf i = s.frameOf i := by
  unfold Sharing.frameOf
  rw [h.map i hi]

theorem Agree.view (h : Agree slots s t) (hi : i ∈ slots) : t.view i = s.view i := by
  unfold Sharing.view
  rw [h.frameOf hi]
  cases hf : s.frameOf i with
  | none => rfl
  | some f => simp [h.data i hi f hf]

theorem count_congr [DecidableEq φ] (h : ∀ i ∈ slots, t.frameOf i = s.frameOf i) (f : φ) :
    t.count slots f = s.count slots f := by
  unfold Sharing.count
  congr 1
  apply Finset.filter_congr
  intro i hi
  rw [h i hi]

theorem Agree.inv [DecidableEq φ] (h : Agree slots s t) (hs : Inv slots s) : Inv slots t := by
  constructor
  · intro i hi f hf j hj hjf
    rw [h.map i hi] at hf
    rw [h.frameOf hj] at hjf
    exact hs.exclusive i hi f hf j hj hjf
  · intro i hi f hf
    rw [h.frameOf hi] at hf
    rw [count_congr (fun j hj => h.frameOf hj), h.refs i hi f hf]
    exact hs.counted i hi f hf

end Agree

section Write

variable {slots : Finset ι} {s : Sharing ι φ δ} {i j : ι} {f g : φ}

theorem frameOf_eq {w : Bool} (h : s.map i = some (f, w)) : s.frameOf i = some f := by
  simp [Sharing.frameOf, h]

theorem Inv.alone [DecidableEq φ] (hs : Inv slots s) (hi : i ∈ slots) (hf : s.frameOf i = some f)
    (hone : s.refs f = 1) (hj : j ∈ slots) (hjf : s.frameOf j = some f) : j = i := by
  have hcount : s.count slots f ≤ 1 := by
    rcases hs.counted i hi f hf with h0 | hle
    · omega
    · omega
  exact Finset.card_le_one.mp hcount j (by simp [hj, hjf]) i (by simp [hi, hf])

/-- New contents of a frame are not seen through a slot of another. -/
theorem map_data_update [DecidableEq φ] (x : δ) (hg : s.frameOf j ≠ some g) :
    (s.frameOf j).map (Function.update s.data g x) = s.view j := by
  unfold Sharing.view
  cases hjf : s.frameOf j with
  | none => rfl
  | some h =>
    have hne : h ≠ g := fun heq => hg (heq ▸ hjf)
    simp [Function.update_of_ne hne]

variable [DecidableEq ι] [DecidableEq φ] (x : δ)

theorem frameOf_move : (s.move i g x).frameOf j = if j = i then some g else s.frameOf j := by
  unfold Sharing.frameOf Sharing.move
  dsimp only
  by_cases hj : j = i
  · subst hj
    simp
  · rw [Function.update_of_ne hj, if_neg hj]

theorem frameOf_copyTo :
    (s.copyTo i f g x).frameOf j = if j = i then some g else s.frameOf j := frameOf_move x

theorem count_copyTo_old (hi : i ∈ slots) (hf : s.frameOf i = some f) (hg : g ≠ f) :
    (s.copyTo i f g x).count slots f + 1 = s.count slots f := by
  unfold Sharing.count
  have herase : slots.filter (fun j => (s.copyTo i f g x).frameOf j = some f) =
      (slots.filter fun j => s.frameOf j = some f).erase i := by
    ext j
    simp only [Finset.mem_filter, Finset.mem_erase, frameOf_copyTo]
    by_cases hj : j = i
    · simp [hj, hg]
    · simp [hj]
  rw [herase]
  exact Finset.card_erase_add_one (by simp [hi, hf])

theorem count_copyTo_other {h : φ} (hg : h ≠ g) (hf : s.frameOf i ≠ some h) :
    (s.copyTo i f g x).count slots h = s.count slots h := by
  apply congrArg Finset.card
  apply Finset.filter_congr
  intro j _
  rw [frameOf_copyTo]
  by_cases hj : j = i
  · subst hj
    simp [hf, Ne.symm hg]
  · rw [if_neg hj]

/-- A frame no slot maps counts one slot once one has moved to it. -/
theorem count_copyTo_new (hfr : ∀ j ∈ slots, s.frameOf j ≠ some g) :
    (s.copyTo i f g x).count slots g ≤ 1 := by
  have honly : ∀ j ∈ slots.filter fun j => (s.copyTo i f g x).frameOf j = some g, j = i := by
    intro j hj
    simp only [Finset.mem_filter, frameOf_copyTo] at hj
    by_contra hne
    rw [if_neg hne] at hj
    exact hfr j hj.1 hj.2
  apply Finset.card_le_one.mpr
  intro j hj k hk
  rw [honly j hj, honly k hk]

section

variable (hs : Inv slots s) (hi : i ∈ slots) (hf : s.frameOf i = some f)
include hs hi hf

theorem Inv.copyTo (hmany : 1 < s.refs f) (hfr : ∀ j ∈ slots, s.frameOf j ≠ some g) :
    Inv slots (s.copyTo i f g x) := by
  have hgf : g ≠ f := fun heq => hfr i hi (heq ▸ hf)
  constructor
  · intro j hj h hjh k hk hkh
    rw [frameOf_copyTo] at hkh
    change Function.update s.map i (some (g, true)) j = some (h, true) at hjh
    by_cases hji : j = i
    · subst hji
      obtain rfl : g = h := by simpa using hjh
      by_contra hkj
      rw [if_neg hkj] at hkh
      exact hfr k hk hkh
    · rw [Function.update_of_ne hji] at hjh
      split_ifs at hkh with hki
      · exact absurd (frameOf_eq hjh) (Option.some.inj hkh ▸ hfr j hj)
      · exact hs.exclusive j hj h hjh k hk hkh
  · intro j hj h hjh
    have hrefs : (s.copyTo i f g x).refs h =
        Function.update (Function.update s.refs f (s.refs f - 1)) g 1 h := rfl
    rw [hrefs]
    by_cases hhg : h = g
    · subst hhg
      rw [Function.update_self]
      exact Or.inr (count_copyTo_new x hfr)
    rw [Function.update_of_ne hhg]
    by_cases hhf : h = f
    · subst hhf
      rw [Function.update_self]
      have hcount := count_copyTo_old x hi hf hgf
      rcases hs.counted i hi h hf with h0 | hle
      · omega
      · exact Or.inr (by omega)
    · rw [Function.update_of_ne hhf]
      have hih : s.frameOf i ≠ some h := fun heq => hhf (Option.some.inj (heq.symm.trans hf))
      rw [count_copyTo_other x hhg hih]
      rw [frameOf_copyTo] at hjh
      split_ifs at hjh with hji
      · exact absurd (Option.some.inj hjh).symm hhg
      · exact hs.counted j hj h hjh

theorem Inv.own (hone : s.refs f = 1) : Inv slots (s.move i f x) := by
  have hsame : ∀ j, (s.move i f x).frameOf j = s.frameOf j := by
    intro j
    rw [frameOf_move]
    split_ifs with hji
    · rw [hji, hf]
    · rfl
  constructor
  · intro j hj h hjh k hk hkh
    rw [hsame] at hkh
    by_cases hji : j = i
    · subst hji
      have hfh : f = h := by simpa [Sharing.move] using hjh
      exact hs.alone hj hf hone hk (hfh ▸ hkh)
    · have hold : s.map j = some (h, true) := by
        simpa [Sharing.move, Function.update_of_ne hji] using hjh
      exact hs.exclusive j hj h hold k hk hkh
  · intro j hj h hjh
    rw [hsame] at hjh
    rw [count_congr fun k _ => hsame k]
    exact hs.counted j hj h hjh

end

variable {fresh : Option φ} (update : δ → δ)

theorem Inv.write (hs : Inv slots s) (hi : i ∈ slots)
    (hfr : ∀ g, fresh = some g → ∀ j ∈ slots, s.frameOf j ≠ some g) :
    Inv slots (s.write i fresh update) := by
  unfold Sharing.write
  split
  · exact hs
  · exact ⟨hs.exclusive, hs.counted⟩
  · next f hmap =>
    split_ifs with hmany hone
    · cases fresh with
      | none => exact hs
      | some g => exact hs.copyTo _ hi (frameOf_eq hmap) hmany (hfr g rfl)
    · exact hs.own _ hi (frameOf_eq hmap) hone
    · exact hs

theorem view_move (hji : j ≠ i) (hg : s.frameOf j ≠ some g) : (s.move i g x).view j = s.view j := by
  rw [← map_data_update x hg]
  unfold Sharing.view
  rw [frameOf_move, if_neg hji]
  rfl

/-- **Isolation.** A write through one slot is not seen through another. -/
theorem Inv.write_view (hs : Inv slots s) (hi : i ∈ slots)
    (hfr : ∀ g, fresh = some g → ∀ j ∈ slots, s.frameOf j ≠ some g)
    (hj : j ∈ slots) (hji : j ≠ i) : (s.write i fresh update).view j = s.view j := by
  unfold Sharing.write
  split
  · rfl
  · next f hmap =>
    exact map_data_update _ fun heq => hji (hs.exclusive i hi f hmap j hj heq)
  · next f hmap =>
    split_ifs with hmany hone
    · cases fresh with
      | none => rfl
      | some g => exact view_move _ hji (hfr g rfl j hj)
    · exact view_move _ hji fun hjf => hji (hs.alone hi (frameOf_eq hmap) hone hj hjf)
    · rfl

end Write

end CopyOnWrite
