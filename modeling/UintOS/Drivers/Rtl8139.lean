import UintOS.Library.Machine
import UintOS.Library.Runs

/-!
# The receive ring of the RTL8139

`rtl8139_process_rx` of `rtl8139.c`, one round of its loop for each frame that the card has stored.
The card stores bytes around the end of the ring; the driver reads a header and the addresses behind
it straight on, and wraps its own position only when it is beyond the end, not when it is at it.
-/

namespace UintOS.Rtl8139

open List Machine Runs

def rxBufferSize : ℕ := 8192

/-- A frame with its status. The length field is the length of the data. -/
structure Frame where
  status : UInt16
  data : List UInt8

def Frame.bytes (f : Frame) : List UInt8 :=
  [UInt8.ofNat f.status.toNat, UInt8.ofNat (f.status.toNat / 256), UInt8.ofNat f.data.length,
    UInt8.ofNat (f.data.length / 256)] ++ f.data

/-- Receive OK. -/
abbrev Frame.Good (f : Frame) : Prop := f.status.toNat % 2 = 1

variable (buffer : ℕ → UInt8)

/-- The card stores bytes from the position `p` of the ring on. -/
def store (p : ℕ) (bytes : List UInt8) : ℕ → UInt8 := fun a =>
  let i := (a + rxBufferSize - p) % rxBufferSize
  if a < rxBufferSize ∧ i < bytes.length then bytes.getD i 0 else buffer a

structure Driver where
  rxBuffer : ℕ → UInt8
  curRx : ℕ
  packetCounter : ℕ
  bytesCounter : ℕ

/-- One round of the loop of `rtl8139_process_rx`, with the number of bytes it reads: the header,
and of a good frame the two addresses. -/
def processRx (d : Driver) : Driver × ℕ :=
  let status := read16 d.rxBuffer d.curRx
  let length := read16 d.rxBuffer (d.curRx + 2)
  let cur := add32 (add32 d.curRx length) 7 / 4 * 4
  ({ d with
      curRx := if cur > rxBufferSize then cur - rxBufferSize else cur
      packetCounter := if status % 2 = 1 then add32 d.packetCounter 1 else d.packetCounter
      bytesCounter := if status % 2 = 1 then add32 d.bytesCounter length else d.bytesCounter },
    if status % 2 = 1 then 16 else 4)

/-! ## The driver beside the card -/

/-- The driver, the card's position, the number of good frames, and the offset of each byte read
beside the one where the card has put it. -/
structure Session where
  driver : Driver
  position : ℕ
  good : ℕ
  reads : List (ℕ × ℕ)

/-- The first multiple of four behind a frame at `p`. -/
def Frame.stop (f : Frame) (p : ℕ) : ℕ := (p + f.bytes.length + 3) / 4 * 4

/-- The card stores a frame, and the driver processes it. -/
def step (s : Session) (f : Frame) : Option Session :=
  let r := processRx { s.driver with rxBuffer := store s.driver.rxBuffer s.position f.bytes }
  some {
    driver := r.1
    position := f.stop s.position % rxBufferSize
    good := s.good + if f.Good then 1 else 0
    reads := s.reads ++
      (range r.2).map fun i => (s.driver.curRx + i, (s.position + i) % rxBufferSize) }

def start : Session := ⟨⟨buffer, 0, 0, 0⟩, 0, 0, []⟩

structure Right (s : Session) : Prop where
  inside : s.driver.curRx < rxBufferSize
  placed : ∀ x ∈ s.reads, x.1 = x.2 ∧ x.1 < rxBufferSize + 16
  counted : s.driver.packetCounter = s.good % 4294967296

/-- How many bytes the driver reads of a frame. -/
def Frame.used (f : Frame) : ℕ := if f.Good then 16 else 4

/-- What is read of the frame is in front of the end of the ring, and the frame does not end there.
-/
def Fits (s : Session) (f : Frame) : Prop :=
  s.position + f.used ≤ rxBufferSize ∧ f.stop s.position ≠ rxBufferSize

instance (s : Session) (f : Frame) : Decidable (Fits s f) := inferInstanceAs (Decidable (_ ∧ _))

structure Inv (s : Session) : Prop extends Right s where
  together : s.driver.curRx = s.position
  aligned : s.position % 4 = 0

theorem store_at {p i : ℕ} {bytes : List UInt8} (hi : i < bytes.length)
    (hp : p + i < rxBufferSize) : store buffer p bytes (p + i) = bytes.getD i 0 := by
  have hoffset : (p + i + rxBufferSize - p) % rxBufferSize = i := by
    unfold rxBufferSize at *
    omega
  simp only [store, hoffset]
  rw [if_pos ⟨hp, hi⟩]

/-- The header of a frame is read as the card has stored it. -/
theorem header_read {p : ℕ} (hp : p + 4 ≤ rxBufferSize) {f : Frame}
    (hlen : f.data.length < 65536) : read16 (store buffer p f.bytes) p = f.status.toNat ∧
      read16 (store buffer p f.bytes) (p + 2) = f.data.length := by
  have hbyte : ∀ i < 4, store buffer p f.bytes (p + i) = f.bytes.getD i 0 := fun i hi =>
    store_at buffer (by simp [Frame.bytes]; omega) (by omega)
  have h0 := hbyte 0 (by decide)
  rw [Nat.add_zero] at h0
  have hsta := f.status.toNat_lt
  unfold read16
  rw [h0, hbyte 1 (by decide), hbyte 2 (by decide), Nat.add_assoc p 2 1, hbyte 3 (by decide)]
  simp only [Frame.bytes, cons_append, getD_cons_zero, getD_cons_succ, UInt8.toNat_ofNat']
  omega

section Step

variable {s : Session} {f : Frame}

theorem step_eq (h : Inv s) (hlen : f.data.length ≤ 1518) : f.stop s.position < 2 * rxBufferSize ∧
    ∃ d, step s f = some ⟨d, f.stop s.position % rxBufferSize, s.good + (if f.Good then 1 else 0),
        s.reads ++ (range f.used).map fun i => (s.position + i, (s.position + i) % rxBufferSize)⟩ ∧
      d.curRx = (if f.stop s.position > rxBufferSize then f.stop s.position - rxBufferSize
        else f.stop s.position) ∧
      d.packetCounter = (s.good + if f.Good then 1 else 0) % 4294967296 := by
  have hp : s.position + 4 ≤ 8192 := by
    have hin := h.inside
    have halign := h.aligned
    rw [h.together, rxBufferSize] at hin
    omega
  obtain ⟨hsta, hlength⟩ := header_read s.driver.rxBuffer hp (f := f) (by omega)
  have hbytes : f.bytes.length = f.data.length + 4 := by simp [Frame.bytes]
  have hstop : add32 (add32 s.position f.data.length) 7 / 4 * 4 = f.stop s.position := by
    rw [Frame.stop, hbytes]
    unfold add32
    omega
  refine ⟨?_, (processRx ⟨store s.driver.rxBuffer s.position f.bytes, s.driver.curRx,
    s.driver.packetCounter, s.driver.bytesCounter⟩).1, ?_, ?_, ?_⟩
  · rw [Frame.stop, hbytes, rxBufferSize]
    omega
  · simp only [step, processRx, h.together, hsta]
    rfl
  · simp only [processRx, h.together, hlength, hstop]
  · simp only [processRx, h.together, hsta, h.counted]
    split_ifs <;> simp [add32]

theorem Inv.step (h : Inv s) (hlen : f.data.length ≤ 1518) (hfits : Fits s f) {t : Session}
    (ht : step s f = some t) : Inv t := by
  obtain ⟨hstop, d, hstep, hcur, hcount⟩ := step_eq h hlen
  obtain ⟨hroom, hend⟩ := hfits
  have htogether : d.curRx = f.stop s.position % rxBufferSize := by
    rw [hcur]
    unfold rxBufferSize at *
    split_ifs <;> omega
  rw [hstep] at ht
  cases ht
  refine ⟨⟨?_, ?_, hcount⟩, htogether, ?_⟩
  · rw [htogether]
    exact Nat.mod_lt _ (by decide)
  · refine forall_mem_append.mpr ⟨h.placed, ?_⟩
    simp only [mem_map, mem_range]
    rintro x ⟨i, hi, rfl⟩
    have hlt : s.position + i < rxBufferSize := by omega
    exact ⟨(Nat.mod_eq_of_lt hlt).symm, by omega⟩
  · change f.stop s.position % 8192 % 4 = 0
    unfold Frame.stop
    omega

theorem not_right_of_not_fits (h : Inv s) (hlen : f.data.length ≤ 1518) (hno : ¬ Fits s f) :
    ∃ t, step s f = some t ∧ ¬ Right t := by
  obtain ⟨-, d, hstep, hcur, -⟩ := step_eq h hlen
  refine ⟨_, hstep, fun hright => hno ⟨?_, fun hend => ?_⟩⟩
  · -- the last byte that is read lies where the card has put it, so in front of the end
    have hused : 0 < f.used := by
      unfold Frame.used
      split_ifs <;> decide
    have hread := (hright.placed _ (mem_append_right _ (mem_map.mpr
      ⟨f.used - 1, mem_range.mpr (by omega), rfl⟩))).1
    have hlt := Nat.mod_lt (s.position + (f.used - 1)) (show 0 < rxBufferSize by decide)
    omega
  · have hin := hright.inside
    rw [hcur, hend, if_neg (lt_irrefl _)] at hin
    exact lt_irrefl _ hin

end Step

/-! ## Arbitrary length fields -/

/-- A round with whatever is in the buffer. -/
def round (d : Driver) (buffer : ℕ → UInt8) : Option Driver :=
  some (processRx { d with rxBuffer := buffer }).1

/-- The next round reads inside of the buffer, whatever is there. -/
def ReadsInside (d : Driver) : Prop :=
  ∀ buffer, d.curRx + (processRx { d with rxBuffer := buffer }).2 ≤ rxBufferSize + 16

/-- By its length field the frame ends in front of the end of a second ring. -/
def Ends (d : Driver) (buffer : ℕ → UInt8) : Prop :=
  (d.curRx + read16 buffer (d.curRx + 2) + 7) / 4 * 4 ≤ 2 * rxBufferSize

theorem readsInside_iff (d : Driver) : ReadsInside d ↔ d.curRx ≤ rxBufferSize := by
  constructor
  · intro h
    have hread := h fun _ => 1
    simpa [processRx, read16] using hread
  · intro h buffer
    apply Nat.add_le_add h
    simp only [processRx]
    split_ifs <;> decide

theorem readsInside_round {d : Driver} (h : ReadsInside d) (buffer : ℕ → UInt8) :
    ReadsInside (processRx { d with rxBuffer := buffer }).1 ↔ Ends d buffer := by
  have hlength := read16_lt buffer (d.curRx + 2)
  rw [readsInside_iff] at h ⊢
  have hcur : add32 (add32 d.curRx (read16 buffer (d.curRx + 2))) 7 =
      d.curRx + read16 buffer (d.curRx + 2) + 7 := by
    unfold add32 rxBufferSize at *
    omega
  simp only [processRx, Ends, hcur]
  by_cases hwrap : (d.curRx + read16 buffer (d.curRx + 2) + 7) / 4 * 4 > rxBufferSize
  · rw [if_pos hwrap]
    omega
  · rw [if_neg hwrap]
    omega

/-- The driver reads every frame where the card has put it, inside of the buffer, and counts the
good ones, with its position in the ring, exactly if no frame that it reads crosses the end of the
ring or ends there. With any contents of the buffer it reads inside of that exactly if no length
field leads behind the end of a second ring. -/
theorem frames_read_iff (buffer : ℕ → UInt8) :
    (∀ frames : List Frame, (∀ f ∈ frames, 64 ≤ f.data.length ∧ f.data.length ≤ 1518) →
      (Throughout step Right (start buffer) frames ↔ Meets step Fits (start buffer) frames)) ∧
    ∀ buffers, Throughout round ReadsInside (start buffer).driver buffers ↔
      Meets round Ends (start buffer).driver buffers := by
  constructor
  · intro frames hlen
    apply throughout_iff_of_step step (I := Inv) (fun _ h => h.toRight) _ _ _
      (meets_of_forall step hlen)
    · intro s f t h hlen hfits ht
      exact h.step hlen.2 hfits ht
    · intro s f h hlen hno
      exact not_right_of_not_fits h hlen.2 hno
    · exact ⟨⟨Nat.zero_lt_succ 8191, nofun, rfl⟩, rfl, rfl⟩
  · intro buffers
    refine throughout_iff_meets round (fun _ h => h) ?_ ?_ buffers
    · intro d b h
      exact ⟨_, rfl, (readsInside_round h b).mpr, mt (readsInside_round h b).mp⟩
    · exact (readsInside_iff _).mpr (Nat.zero_le _)

theorem two_frames_read : Throughout step Right (start fun _ => 0)
      [⟨1, replicate 64 170⟩, ⟨0, replicate 64 85⟩] :=
  ((frames_read_iff _).1 _ (by decide)).mpr (by decide)

/-- Six frames fill the ring, and the driver is at its end. After the length `0xFFFF` it reads far
behind the buffer. -/
theorem full_ring_left :
    (¬ Throughout step Right (start fun _ => 0)
      (replicate 5 ⟨1, replicate 1516 0⟩ ++ [⟨1, replicate 588 0⟩])) ∧
    (processRx ⟨fun _ => 255, 0, 0, 0⟩).1.curRx = 57348 ∧
    ¬ Throughout round ReadsInside (start fun _ => 0).driver [fun _ => 255] := by
  refine ⟨fun h => ?_, by decide, fun h => absurd ((readsInside_iff _).mp (h.last round rfl)) ?_⟩
  swap
  · decide
  have hend : (exec step (start fun _ => 0) (replicate 5 ⟨1, replicate 1516 0⟩ ++
      [⟨1, replicate 588 0⟩])).map (·.driver.curRx) = some 8192 := by decide +kernel
  obtain ⟨t, ht, hcur⟩ := Option.map_eq_some_iff.mp hend
  have hin := (h.last step ht).inside
  rw [hcur] at hin
  exact lt_irrefl _ hin

end UintOS.Rtl8139
