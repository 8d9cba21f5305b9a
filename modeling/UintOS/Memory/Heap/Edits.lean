import UintOS.Memory.Heap.Blocks

/-!
# Edits of the physical list

A block is carved in two (`split_block`), absorbs its free successor (`merge_blocks`,
`heap_realloc`), or is attached behind the last one (`heap_extend`). Each keeps `Phys`.
-/

namespace UintOS.KernelHeap

open Function Links List Machine

def setBack (h : Heap) (behind : Ptr) (b : ℕ) : Heap :=
  match behind with
  | some q => h.modify q fun c => { c with prev := some b }
  | none => h

section SetBack

variable (h : Heap) (behind : Ptr) (b : ℕ)

theorem setBack_header (c : ℕ) : (setBack h behind b).header c =
    if behind = some c then { h.header c with prev := some b } else h.header c := by
  cases behind with
  | none => rfl
  | some q =>
    by_cases hcq : c = q
    · simp [setBack, hcq]
    · simp [setBack, hcq, Ne.symm hcq]

@[simp] theorem setBack_same :
    (setBack h behind b).footer = h.footer ∧ (setBack h behind b).bins = h.bins ∧
      (setBack h behind b).start = h.start ∧ (setBack h behind b).regions = h.regions := by
  cases behind <;> exact ⟨rfl, rfl, rfl, rfl⟩

end SetBack

/-- The header keeps its marks and its links in the free list. -/
def SameMarks (h h' : Heap) (c : ℕ) : Prop :=
  (h'.header c).magic = (h.header c).magic ∧ (h'.header c).canary = (h.header c).canary ∧
    (h'.header c).nextFree = (h.header c).nextFree ∧ (h'.header c).prevFree = (h.header c).prevFree

theorem other_fields_of_header {h h' : Heap} {behind : Ptr} {b c : ℕ} (ho : h'.header c =
      if behind = some c then { h.header c with prev := some b } else h.header c) :
    h'.size c = h.size c ∧ h'.status c = h.status c ∧ h'.next c = h.next c ∧
      h'.prev c = (if behind = some c then some b else h.prev c) ∧ SameMarks h h' c := by
  unfold SameMarks
  by_cases hq : behind = some c
  · rw [if_pos hq] at ho ⊢
    simp [Heap.size, Heap.status, Heap.next, Heap.prev, ho]
  · rw [if_neg hq] at ho ⊢
    simp [Heap.size, Heap.status, Heap.next, Heap.prev, ho]

section Carve

variable {h : Heap} {b r : ℕ}

structure Carved (h h' : Heap) (b n r : ℕ) : Prop where
  fresh : h'.header n =
    { magic := heapMagic, size := h.size b - r, status := .free, prev := some b,
      next := h.next b, nextFree := none, prevFree := none, canary := heapCanaryValue }
  cut : h'.header b = { h.header b with size := r, next := some n }
  other : ∀ c, c ≠ b → c ≠ n → h'.header c =
    if h.next b = some c then { h.header c with prev := some n } else h.header c
  footer : h'.footer = update
    (update h.footer (b + h.size b - 16) ⟨heapMagic, n, h.size b - r, heapCanaryValue⟩)
    (b + r - 16) ⟨heapMagic, b, r, heapCanaryValue⟩
  bins : h'.bins = h.bins
  start : h'.start = h.start
  regions : h'.regions = h.regions

theorem carve_spec (hs : Sound h b) (hr : 56 ≤ r) (hroom : r + 88 ≤ h.size b) {n : ℕ}
    (hn : n = b + r) (hb : h.next b ≠ some b) (hq : h.next b ≠ some n) :
    Carved h (carve h b r) b n r := by
  have h1 := hs.fits
  have h2 := hs.size_lt
  have hadd : add32 b r = n := (add32_eq (by omega)).trans hn.symm
  have hsub : sub32 (h.header b).size r = h.size b - r :=
    sub32_eq (by unfold Heap.size at hroom; omega) h2
  have hne : n ≠ b := by omega
  have hfn : sub32 (add32 n (h.size b - r)) footerSize = b + h.size b - 16 := by
    unfold add32 sub32 footerSize
    omega
  have hfb : sub32 n footerSize = b + r - 16 := by
    unfold sub32 footerSize
    omega
  change Carved h (Heap.writeFooter (setBack _ _ (add32 b r)) b) b n r
  simp only [hadd, hsub, Heap.modify_header, Heap.writeFooter_header, if_neg hne, if_true]
  have hnext : (h.header b).next = h.next b := rfl
  constructor
  · simp [setBack_header, hnext, hq, hne]
  · simp [setBack_header, hnext, hb, hne.symm]
  · intro c hcb hcn
    simp [setBack_header, hnext, hcb, hcn]
  · simp [setBack_header, hnext, hb, hne.symm, Heap.writeFooter, Heap.footerAddr, Heap.modify, hadd,
      hfn, hfb]
  · simp
  · simp
  · simp

namespace Carved

variable {h' : Heap} {n : ℕ}

section

variable {R : ℕ × ℕ} (hc : Carved h h' b n r)
include hc

/-- A block other than the halves keeps all but its back link. -/
theorem other_fields {c : ℕ} (hcb : c ≠ b) (hcn : c ≠ n) :
    h'.size c = h.size c ∧ h'.status c = h.status c ∧ h'.next c = h.next c ∧
      h'.prev c = (if h.next b = some c then some n else h.prev c) ∧ SameMarks h h' c :=
  other_fields_of_header (hc.other c hcb hcn)

theorem size_fresh : h'.size n = h.size b - r := by
  simp [Heap.size, hc.fresh]

theorem size_cut : h'.size b = r := by
  simp [Heap.size, hc.cut]

theorem status {c : ℕ} (hcn : c ≠ n) : h'.status c = h.status c := by
  by_cases hcb : c = b
  · simp [Heap.status, hcb, hc.cut]
  · exact (hc.other_fields hcb hcn).2.1

theorem next_fresh : h'.next n = h.next b := by
  simp [Heap.next, hc.fresh]

theorem next_cut : h'.next b = some n := by
  simp [Heap.next, hc.cut]

theorem sound_fresh (hs : Sound h b) (hn : n = b + r) (hr : 56 ≤ r)
    (hroom : r + 88 ≤ h.size b) : Sound h' n := by
  have hfits := hs.fits
  have hsz := hc.size_fresh
  have haddr : h'.footerAddr n = b + h.size b - 16 := by
    rw [footerAddr_eq (by omega) (by omega)]
    omega
  refine ⟨?_, by omega, by omega, by omega⟩
  rw [blockValid_iff, haddr, hc.footer, hc.fresh, hsz, update_of_ne (by omega), update_self]
  simp

theorem sound_cut (hs : Sound h b) (hr : 56 ≤ r) (hroom : r + 88 ≤ h.size b) : Sound h' b := by
  have hfits := hs.fits
  have hpos := hs.pos
  have hsz := hc.size_cut
  have hvalid := (blockValid_iff h b).mp hs.valid
  have haddr : h'.footerAddr b = b + r - 16 := by
    rw [footerAddr_eq (by omega) (by omega), hsz]
  refine ⟨?_, by omega, hpos, by omega⟩
  rw [blockValid_iff, haddr, hc.footer, hc.cut, hsz, update_self]
  exact ⟨hvalid.1, hvalid.2.1, rfl⟩

theorem sound_other {c : ℕ} (hsc : Sound h c)
    (hap : Apart h b c) (hcb : c ≠ b) (hcn : c ≠ n) (hr : 56 ≤ r) (hroom : r + 88 ≤ h.size b) :
    Sound h' c := by
  obtain ⟨hsz, _, _, _, hm, hk, _⟩ := hc.other_fields hcb hcn
  have hlarge := hsc.large
  apply hsc.congr _ hsz
  apply blockValid_congr hm hk hsz
  rw [hsc.footerAddr, hc.footer]
  unfold Apart at hap
  rw [update_of_ne (by omega), update_of_ne (by omega)]

theorem inside_fresh (hn : n = b + r) (hroom : r + 88 ≤ h.size b) (hin : Inside h b R) :
    Inside h' n R := by
  unfold Inside at *
  rw [hc.size_fresh]
  omega

theorem inside_cut (hroom : r + 88 ≤ h.size b) (hin : Inside h b R) : Inside h' b R := by
  unfold Inside at *
  rw [hc.size_cut]
  omega

end

variable {l₁ l₂ : List ℕ}

theorem phys (hc : Carved h h' b n r) {t : Ptr} (hp : Phys h t (l₁ ++ b :: l₂))
    (hn : n = b + r) (hr : 56 ≤ r) (hroom : r + 88 ≤ h.size b) :
    Phys h' t (l₁ ++ b :: n :: l₂) := by
  have hbL : b ∈ l₁ ++ b :: l₂ := by simp
  have hnL : n ∉ l₁ ++ b :: l₂ := hp.not_mem_of_inside hbL (by omega) (by omega)
  have hsb := hp.sound b hbL
  have hfr := hc.size_fresh
  have hcut := hc.size_cut
  have hold : ∀ {c}, c ∈ l₁ ++ b :: l₂ → c = b ∨
      c ≠ b ∧ c ≠ n ∧ h'.size c = h.size c ∧ h'.next c = h.next c ∧ Apart h b c := by
    intro c hcL
    by_cases hcb : c = b
    · exact .inl hcb
    · have hcn : c ≠ n := fun e => hnL (e ▸ hcL)
      obtain ⟨hsize, -, hnext, -⟩ := hc.other_fields hcb hcn
      exact .inr ⟨hcb, hcn, hsize, hnext, hp.apart b hbL c hcL (Ne.symm hcb)⟩
  have hplace : ∀ {c}, c ∈ l₁ ++ b :: n :: l₂ → c = n ∨ c ∈ l₁ ++ b :: l₂ := by
    intro c
    simp only [mem_append, mem_cons]
    tauto
  have hins : ∀ {c R}, c ∈ l₁ ++ b :: l₂ → Inside h c R → Inside h' c R := by
    intro c R hcL hin
    rcases hold hcL with rfl | ⟨-, -, hsize, -⟩
    · exact hc.inside_cut hroom hin
    · rwa [Inside, hsize]
  have hlinked : Linked h'.next h'.prev none (l₁ ++ b :: n :: l₂) none := by
    apply hp.linked.insertAfter hc.next_cut hc.next_fresh
    · simp [Heap.prev, hc.fresh]
    · intro c hcL hcb
      exact (hc.other_fields hcb fun e => hnL (e ▸ hcL)).2.2.1
    · intro c hcL
      rcases hold hcL with rfl | ⟨hcb, hcn, -⟩
      · rw [if_neg (hp.linked.chain.next_ne_self hbL)]
        simp [Heap.prev, hc.cut]
      · exact (hc.other_fields hcb hcn).2.2.2.1
  constructor
  · exact hlinked
  · rw [hc.start, ← hp.start]
    cases l₁ <;> simp
  · exact hlinked.chain.nodup
  · intro c hcL
    rcases hplace hcL with rfl | hcL
    · exact hc.sound_fresh hsb hn hr hroom
    · rcases hold hcL with rfl | ⟨hcb, hcn, -, -, hap⟩
      · exact hc.sound_cut hsb hr hroom
      · exact hc.sound_other (hp.sound c hcL) hap hcb hcn hr hroom
  · intro c hcL d hdL hne
    rcases hplace hcL with rfl | hcO <;> rcases hplace hdL with rfl | hdO
    · exact absurd rfl hne
    · rcases hold hdO with rfl | hd <;> unfold Apart at * <;> omega
    · rcases hold hcO with rfl | hc <;> unfold Apart at * <;> omega
    · have := hp.apart c hcO d hdO hne
      rcases hold hcO with rfl | hc <;> rcases hold hdO with rfl | hd <;>
        unfold Apart at * <;> omega
  · intro c hcL
    rw [hc.regions]
    rcases hplace hcL with rfl | hcL
    · obtain ⟨R, hR, hin⟩ := hp.owned b hbL
      exact ⟨R, hR, hc.inside_fresh hn hroom hin⟩
    · obtain ⟨R, hR, hin⟩ := hp.owned c hcL
      exact ⟨R, hR, hins hcL hin⟩
  · intro c hcL d hd
    have hsta : d ∈ l₁ ++ b :: l₂ → h'.status d = h.status d := fun hdL =>
      hc.status fun e => hnL (e ▸ hdL)
    unfold Joined
    rw [hc.regions]
    rcases hplace hcL with rfl | hcL
    · rw [hc.next_fresh] at hd
      have hdL := hp.next_mem hbL hd
      rw [hsta hdL, hfr]
      rcases hp.joined b hbL d hd with ⟨hadj, R, hR, hbR, hdR⟩ | hused
      · exact .inl ⟨by omega, R, hR, hc.inside_fresh hn hroom hbR, hins hdL hdR⟩
      · exact .inr hused
    · rcases hold hcL with rfl | ⟨-, -, hsize, hnext, -⟩
      · obtain rfl : n = d := Option.some.inj (hc.next_cut.symm.trans hd)
        obtain ⟨R, hR, hin⟩ := hp.owned c hbL
        exact .inl ⟨by omega, R, hR, hins hbL hin, hc.inside_fresh hn hroom hin⟩
      · rw [hnext] at hd
        have hdL := hp.next_mem hcL hd
        rw [hsta hdL, hsize]
        rcases hp.joined c hcL d hd with ⟨hadj, R, hR, hcR, hdR⟩ | hused
        · exact .inl ⟨hadj, R, hR, hins hcL hcR, hins hdL hdR⟩
        · exact .inr hused
  · rw [hc.regions]
    exact hp.regions_apart

end Carved

end Carve

section Absorb

variable {h h' : Heap} {b n : ℕ}

structure Absorbed (h h' : Heap) (b n : ℕ) : Prop where
  grown : h'.header b = { h.header b with size := h.size b + h.size n, next := h.next n }
  other : ∀ c, c ≠ b → h'.header c =
    if h.next n = some c then { h.header c with prev := some b } else h.header c
  footer : h'.footer = update h.footer (b + h.size b + h.size n - 16)
    ⟨heapMagic, b, h.size b + h.size n, heapCanaryValue⟩
  bins : h'.bins = h.bins
  start : h'.start = h.start
  regions : h'.regions = h.regions

theorem absorb_spec (hsb : Sound h b) (hsn : Sound h n) (hadj : n = b + h.size b)
    (hq : h.next n ≠ some b) : Absorbed h (absorb h b n) b n := by
  have h1 := hsn.fits
  have h2 := hsb.pos
  have h3 := hsb.large
  have hadd : add32 (h.header b).size (h.header n).size = h.size b + h.size n := by
    unfold Heap.size at *
    exact add32_eq (by omega)
  have hnb : n ≠ b := by omega
  have hfb : sub32 (add32 b (h.size b + h.size n)) footerSize = b + h.size b + h.size n - 16 := by
    unfold add32 sub32 footerSize
    omega
  change Absorbed h (Heap.writeFooter (setBack _ _ b) b) b n
  simp only [Heap.modify_header, if_true, if_neg hnb, hadd]
  have hnext : (h.header n).next = h.next n := rfl
  constructor
  · simp [setBack_header, hnext, hq, hadd]
  · intro c hcb
    simp [setBack_header, hnext, hcb]
  · simp [setBack_header, hnext, hq, Heap.writeFooter, Heap.footerAddr, Heap.modify, hadd, hfb]
  · simp
  · simp
  · simp

namespace Absorbed

section

variable (hc : Absorbed h h' b n)
include hc

theorem other_fields {c : ℕ} (hcb : c ≠ b) :
    h'.size c = h.size c ∧ h'.status c = h.status c ∧ h'.next c = h.next c ∧
      h'.prev c = (if h.next n = some c then some b else h.prev c) ∧ SameMarks h h' c :=
  other_fields_of_header (hc.other c hcb)

theorem size_grown : h'.size b = h.size b + h.size n := by
  simp [Heap.size, hc.grown]

theorem status (c : ℕ) : h'.status c = h.status c := by
  by_cases hcb : c = b
  · simp [Heap.status, hcb, hc.grown]
  · exact (hc.other_fields hcb).2.1

theorem next_grown : h'.next b = h.next n := by
  simp [Heap.next, hc.grown]

theorem sound_grown (hsb : Sound h b) (hsn : Sound h n) (hadj : n = b + h.size b) : Sound h' b := by
  have hfits := hsn.fits
  have hlarge := hsb.large
  have hsz := hc.size_grown
  have hvalid := (blockValid_iff h b).mp hsb.valid
  have haddr : h'.footerAddr b = b + h.size b + h.size n - 16 := by
    rw [footerAddr_eq (by omega) (by omega), hsz]
    omega
  refine ⟨?_, by omega, hsb.pos, by omega⟩
  rw [blockValid_iff, haddr, hc.footer, hc.grown, hsz, update_self]
  exact ⟨hvalid.1, hvalid.2.1, rfl⟩

theorem sound_other {c : ℕ} (hsc : Sound h c) (hsn : Sound h n)
    (hadj : n = b + h.size b) (hap : Apart h n c) (hcb : c ≠ b) : Sound h' c := by
  obtain ⟨hsz, _, _, _, hm, hk, _⟩ := hc.other_fields hcb
  have hlarge := hsc.large
  have hlarge' := hsn.large
  apply hsc.congr _ hsz
  apply blockValid_congr hm hk hsz
  rw [hsc.footerAddr, hc.footer]
  unfold Apart at hap
  rw [update_of_ne (by omega)]

end

variable {l₁ l₂ : List ℕ}

theorem phys (hc : Absorbed h h' b n) {t : Ptr} (hp : Phys h t (l₁ ++ b :: n :: l₂))
    (hfree : h.status n = .free) (ht : t ≠ some n) : Phys h' t (l₁ ++ b :: l₂) := by
  have hmem : ∀ {c}, c ∈ l₁ ++ b :: l₂ → c ∈ l₁ ++ b :: n :: l₂ := by
    intro c
    simp only [mem_append, mem_cons]
    tauto
  have hbL : b ∈ l₁ ++ b :: n :: l₂ := by simp
  have hnL : n ∈ l₁ ++ b :: n :: l₂ := by simp
  have hnext : h.next b = some n := hp.linked.fields.2
  have hperm := perm_insertAfter l₁ l₂ b n
  obtain ⟨hnout, hnd⟩ := nodup_cons.mp (hperm.nodup_iff.mp hp.nodup)
  obtain ⟨hadj, R, hR, hbR, hnR⟩ := hp.joined_free hbL hnext hfree ht
  have hsn := hp.sound n hnL
  have hgrown := hc.size_grown
  have hold : ∀ {c}, c ∈ l₁ ++ b :: l₂ → c = b ∨ c ≠ b ∧ h'.size c = h.size c ∧
      h'.next c = h.next c ∧ 56 ≤ h.size c ∧ Apart h b c ∧ Apart h n c := by
    intro c hcL
    by_cases hcb : c = b
    · exact .inl hcb
    · obtain ⟨hsize, -, hnext, -⟩ := hc.other_fields hcb
      exact .inr ⟨hcb, hsize, hnext, (hp.sound c (hmem hcL)).large,
        hp.apart b hbL c (hmem hcL) (Ne.symm hcb),
        hp.apart n hnL c (hmem hcL) fun e => hnout (e ▸ hcL)⟩
  have hprevn : h.prev n = some b := (hp.linked.next_iff_prev hbL hnL).mp hnext
  constructor
  · have hlink : Linked h.next h.prev none ((l₁ ++ [b]) ++ n :: l₂) none := by
      simpa using hp.linked
    have hres : Linked h'.next h'.prev none ((l₁ ++ [b]) ++ l₂) none := by
      apply hlink.unlink
      · intro c hcL
        rw [hprevn]
        rcases hold (by simpa using hcL) with rfl | ⟨hcb, -, hnext, -⟩
        · rw [if_pos rfl, hc.next_grown]
        · rw [if_neg (by simpa using Ne.symm hcb), hnext]
      · intro c hcL
        rw [hprevn]
        rcases hold (by simpa using hcL) with rfl | ⟨hcb, -⟩
        · rw [if_neg hp.next_ne_prev]
          simp [Heap.prev, hc.grown]
        · exact (hc.other_fields hcb).2.2.2.1
    simpa using hres
  · rw [hc.start, ← hp.start]
    cases l₁ <;> simp
  · exact hnd
  · intro c hcL
    rcases hold hcL with rfl | ⟨hcb, -, -, -, -, hap⟩
    · exact hc.sound_grown (hp.sound c hbL) hsn hadj
    · exact hc.sound_other (hp.sound c (hmem hcL)) hsn hadj hap hcb
  · intro c hcL d hdL hne
    have := hp.apart c (hmem hcL) d (hmem hdL) hne
    rcases hold hcL with rfl | hc <;> rcases hold hdL with rfl | hd <;> unfold Apart at * <;> omega
  · intro c hcL
    rw [hc.regions]
    rcases hold hcL with rfl | ⟨-, hsize, -⟩
    · refine ⟨R, hR, ?_⟩
      unfold Inside at *
      omega
    · obtain ⟨S, hS, hin⟩ := hp.owned c (hmem hcL)
      exact ⟨S, hS, by rwa [Inside, hsize]⟩
  · have hins : ∀ {e S}, e ∈ l₁ ++ b :: l₂ → S ∈ h.regions → Inside h e S → Inside h' e S := by
      intro e S heL hS hin
      rcases hold heL with rfl | ⟨-, hsize, -⟩
      · obtain rfl := hp.region_unique hbL hR hS hbR hin
        unfold Inside at *
        omega
      · rwa [Inside, hsize]
    have hkeep : ∀ {d}, d ∈ l₁ ++ b :: n :: l₂ → d ≠ n → d ∈ l₁ ++ b :: l₂ := fun hd hdn =>
      (mem_cons.mp (hperm.mem_iff.mp hd)).resolve_left hdn
    intro c hcL d hd
    unfold Joined
    rw [hc.regions, hc.status]
    rcases hold hcL with rfl | ⟨hcb, hsize, hnext, -⟩
    · rw [hc.next_grown] at hd
      have hdL := hkeep (hp.next_mem hnL hd) fun e =>
        hp.linked.chain.next_ne_self hnL (hd.trans (congrArg some e))
      rcases hp.joined n hnL d hd with ⟨hd', S, hS, hnS, hdS⟩ | hused
      · obtain rfl := hp.region_unique hnL hR hS hnR hnS
        exact .inl ⟨by omega, R, hR, hins hcL hR hbR, hins hdL hR hdS⟩
      · exact .inr hused
    · rw [hnext] at hd
      have hdL := hkeep (hp.next_mem (hmem hcL) hd) fun e => hcb <| by
        have := (hp.linked.next_iff_prev (hmem hcL) hnL).mp (hd.trans (congrArg some e))
        exact Option.some.inj (this.symm.trans hprevn)
      rw [hsize]
      rcases hp.joined c (hmem hcL) d hd with ⟨hd', S, hS, hcS, hdS⟩ | hused
      · exact .inl ⟨hd', S, hS, hins hcL hS hcS, hins hdL hS hdS⟩
      · exact .inr hused
  · rw [hc.regions]
    exact hp.regions_apart

end Absorbed

end Absorb

section Append

variable {h h' : Heap} {last n e : ℕ}

/-- `attach` without the bin: the new block is linked behind the last one. -/
def append (h : Heap) (last n e : ℕ) : Heap :=
  let h₁ := (formatPages h n e).modify last fun c => { c with next := some n }
  let h₂ := h₁.modify n fun c => { c with prev := some last }
  { h₂ with regions := (n, e) :: h₂.regions }

structure Appended (h h' : Heap) (last n e : ℕ) : Prop where
  fresh : h'.header n =
    { magic := heapMagic, size := e, status := .free, prev := some last, next := none,
      nextFree := none, prevFree := none, canary := heapCanaryValue }
  tail : h'.header last = { h.header last with next := some n }
  other : ∀ c, c ≠ last → c ≠ n → h'.header c = h.header c
  footer : h'.footer =
    update h.footer (n + e - 16) ⟨heapMagic, n, e, heapCanaryValue⟩
  bins : h'.bins = h.bins
  start : h'.start = h.start
  regions : h'.regions = (n, e) :: h.regions

theorem append_spec (hne : last ≠ n) (he : 56 ≤ e) (hfits : n + e ≤ 4294967296) :
    Appended h (append h last n e) last n e := by
  have hfoot : sub32 (add32 n e) footerSize = n + e - 16 := by
    unfold add32 sub32 footerSize
    omega
  unfold append formatPages
  constructor
  · simp [hne.symm]
  · simp [hne]
  · intro c hcl hcn
    simp [hcl, hcn]
  · simp [Heap.writeFooter, Heap.footerAddr, Heap.modify, hfoot]
  · rfl
  · rfl
  · rfl

namespace Appended

section

variable (hc : Appended h h' last n e)
include hc

theorem other_fields {c : ℕ} (hcn : c ≠ n) :
    h'.size c = h.size c ∧ h'.status c = h.status c ∧ h'.prev c = h.prev c ∧ SameMarks h h' c := by
  unfold SameMarks
  by_cases hcl : c = last
  · subst hcl
    simp [Heap.size, Heap.status, Heap.prev, hc.tail]
  · simp [Heap.size, Heap.status, Heap.prev, hc.other c hcl hcn]

theorem next_other {c : ℕ} (hcn : c ≠ n) (hcl : c ≠ last) : h'.next c = h.next c := by
  simp [Heap.next, hc.other c hcl hcn]

theorem next_tail : h'.next last = some n := by
  simp [Heap.next, hc.tail]

theorem next_fresh : h'.next n = none := by
  simp [Heap.next, hc.fresh]

theorem size_fresh : h'.size n = e := by
  simp [Heap.size, hc.fresh]

theorem status_fresh : h'.status n = .free := by
  simp [Heap.status, hc.fresh]

theorem sound_fresh (hpos : 0 < n) (he : 56 ≤ e) (hfits : n + e ≤ 4294967296) : Sound h' n := by
  have hsz := hc.size_fresh
  have haddr : h'.footerAddr n = n + e - 16 := by
    rw [footerAddr_eq (by omega) (by omega), hsz]
  refine ⟨?_, by omega, hpos, by omega⟩
  rw [blockValid_iff, haddr, hc.footer, hc.fresh, hsz, update_self]
  simp

theorem sound_other {c : ℕ} (hsc : Sound h c) (he : 56 ≤ e)
    (hap : c + h.size c ≤ n ∨ n + e ≤ c) (hcn : c ≠ n) : Sound h' c := by
  obtain ⟨hsz, _, _, hm, hk, _⟩ := hc.other_fields hcn
  have hlarge := hsc.large
  apply hsc.congr _ hsz
  apply blockValid_congr hm hk hsz
  rw [hsc.footerAddr, hc.footer, update_of_ne (by omega)]

end

variable {l : List ℕ}

theorem phys (hc : Appended h h' last n e) (hp : Phys h none (l ++ [last]))
    (hpage : n % pageSize = 0) (hpos : 0 < n) (he : 56 ≤ e) (hfits : n + e ≤ 4294967296)
    (hnew : ∀ r ∈ h.regions, n + e ≤ r.1 ∨ r.1 + r.2 ≤ n) : Phys h' (some n) (l ++ [last, n]) := by
  have hold : ∀ {c}, c ∈ l ++ [last] →
      c ≠ n ∧ h'.size c = h.size c ∧ (c + h.size c ≤ n ∨ n + e ≤ c) := by
    intro c hcL
    obtain ⟨r, hr, hin⟩ := hp.owned c hcL
    have hlarge := (hp.sound c hcL).large
    have := hnew r hr
    unfold Inside at hin
    have hcn : c ≠ n := by omega
    exact ⟨hcn, (hc.other_fields hcn).1, by omega⟩
  have hmem : ∀ {c}, c ∈ l ++ [last, n] → c = n ∨ c ∈ l ++ [last] := by
    intro c
    simp only [mem_append, mem_cons]
    tauto
  have hins : ∀ {c r}, c ∈ l ++ [last] → Inside h c r → Inside h' c r := by
    intro c r hcL hin
    rwa [Inside, (hold hcL).2.1]
  have hfr := hc.size_fresh
  have hlast : h.next last = none := hp.linked.fields.2
  have hlinked : Linked h'.next h'.prev none (l ++ [last, n]) none := by
    apply hp.linked.insertAfter hc.next_tail
    · rw [hc.next_fresh, hlast]
    · simp [Heap.prev, hc.fresh]
    · intro c hcL hcl
      exact hc.next_other (hold hcL).1 hcl
    · intro c hcL
      simp [hlast, (hc.other_fields (hold hcL).1).2.2.1]
  constructor
  · exact hlinked
  · rw [hc.start, ← hp.start]
    cases l <;> simp
  · exact hlinked.chain.nodup
  · intro c hcL
    rcases hmem hcL with rfl | hcL
    · exact hc.sound_fresh hpos he hfits
    · obtain ⟨hcn, -, hap⟩ := hold hcL
      exact hc.sound_other (hp.sound c hcL) he hap hcn
  · intro c hcL d hdL hne
    unfold Apart
    rcases hmem hcL with rfl | hcO <;> rcases hmem hdL with rfl | hdO
    · exact absurd rfl hne
    · have := hold hdO
      omega
    · have := hold hcO
      omega
    · rw [(hold hcO).2.1, (hold hdO).2.1]
      exact hp.apart c hcO d hdO hne
  · intro c hcL
    rw [hc.regions]
    rcases hmem hcL with rfl | hcL
    · exact ⟨(c, e), by simp, by simp [Inside, hfr]⟩
    · obtain ⟨r, hr, hin⟩ := hp.owned c hcL
      exact ⟨r, by simp [hr], hins hcL hin⟩
  · intro c hcL d hd
    have hcL : c ∈ l ++ [last] := by
      rcases hmem hcL with rfl | hcL
      · cases hc.next_fresh.symm.trans hd
      · exact hcL
    by_cases hcl : c = last
    · rw [hcl, hc.next_tail] at hd
      exact .inr ⟨Option.some.inj hd ▸ hpage, .inr hd⟩
    · obtain ⟨hcn, hsize, -⟩ := hold hcL
      rw [hc.next_other hcn hcl] at hd
      have hdL := hp.next_mem hcL hd
      unfold Joined
      rw [hc.regions, hsize, (hc.other_fields (hold hdL).1).2.1]
      rcases hp.joined c hcL d hd with ⟨hadj, r, hr, hcr, hdr⟩ | ⟨hd', hu | hu⟩
      · exact .inl ⟨hadj, r, by simp [hr], hins hcL hcr, hins hdL hdr⟩
      · exact .inr ⟨hd', .inl hu⟩
      · cases hu
  · rw [hc.regions]
    intro r hr s hs a har har' has has'
    rcases mem_cons.mp hr with rfl | hr <;> rcases mem_cons.mp hs with rfl | hs
    · rfl
    · have := hnew s hs
      omega
    · have := hnew r hr
      omega
    · exact hp.regions_apart r hr s hs a har har' has has'

end Appended

end Append

end UintOS.KernelHeap
