import UintOS.Library.Runs
import UintOS.Network.Link

/-!
# What a network buffer holds

Bytes are put before and behind those of a buffer and taken from its start. The buffer holds them
in order, inside its block, as long as no sum in the guard of `net_buffer_append` wraps.
-/

namespace UintOS.Link

open List Machine Option Runs

/-- `net_buffer_append`. Other sums stay in 32 bits while the data ends inside the block. -/
def NetBuffer.append (b : NetBuffer) (data : List UInt8) : Option NetBuffer :=
  if b.size < (b.offset + b.len + data.length) % 2 ^ 32 then none
  else some { b with
    memory := storeBytes b.memory (b.offset + b.len) data
    len := (b.len + data.length) % 2 ^ 32 }

/-- `net_buffer_reserve` fails and leaves the buffer, or the buffer is empty. -/
theorem NetBuffer.reserve_cases (b : NetBuffer) (len : ℕ) :
    (b.reserve len).2 ≠ 0 ∧ (b.reserve len).1 = b ∨
      b.reserve len = ({ b with offset := len }, 0) ∧ b.len = 0 ∧ len ≤ b.size := by
  unfold NetBuffer.reserve
  split_ifs
  · simp
  · simp
  · exact .inr ⟨rfl, by omega, by omega⟩

/-- A call; the header is written to where `net_buffer_push` points to. -/
inductive Edit
  | push (header : List UInt8)
  | pull (len : ℕ)
  | reserve (len : ℕ)
  | append (data : List UInt8)

/-- A buffer with its pointer, and the bytes it is to hold. -/
structure Held where
  buffer : NetBuffer
  data : ℕ
  contents : List UInt8

namespace Held

/-- The buffer after a call that succeeds. -/
def edit (h : Held) : Edit → Option Held
  | .push header => (h.buffer.push header.length).map fun b =>
    ⟨b.write header, h.data - header.length, header ++ h.contents⟩
  | .pull len => (h.buffer.pull len).map fun b => ⟨b, h.data + len, h.contents.drop len⟩
  | .reserve len =>
    if (h.buffer.reserve len).2 = 0 then
      some ⟨(h.buffer.reserve len).1, h.data - h.buffer.offset + len, h.contents⟩
    else none
  | .append data => (h.buffer.append data).map fun b => ⟨b, h.data, h.contents ++ data⟩

def step (h : Held) (e : Edit) : Option Held := some ((h.edit e).getD h)

/-- The bytes end inside the block and are those put in; `net_buffer_free` finds the start. -/
structure Intact (start : ℕ) (h : Held) : Prop where
  bound : h.buffer.offset + h.buffer.len ≤ h.buffer.size
  data : h.data = start + h.buffer.offset
  bytes : h.buffer.bytes = h.contents

/-- The sum of the guard does not wrap to one that passes. -/
def Exact (h : Held) : Edit → Prop
  | .append data => (h.buffer.offset + h.buffer.len + data.length) % 2 ^ 32 ≤ h.buffer.size →
    h.buffer.offset + h.buffer.len + data.length < 2 ^ 32
  | _ => True

variable {start : ℕ} {h t : Held}

theorem Intact.edit (hi : Intact start h) (hsize : h.buffer.size < 2 ^ 32) {e : Edit}
    (ht : h.edit e = some t) :
    t.buffer.size = h.buffer.size ∧ (Intact start t ↔ h.Exact e) := by
  obtain ⟨hbound, hdata, hbytes⟩ := hi
  unfold NetBuffer.bytes at hbytes
  cases e with
  | push header =>
    obtain ⟨b, hb, rfl⟩ := map_eq_some_iff.mp ht
    unfold NetBuffer.push at hb
    split_ifs at hb with hroom
    cases hb
    have hoffset : h.buffer.offset - header.length + header.length = h.buffer.offset := by omega
    refine ⟨rfl, iff_of_true ⟨?_, ?_, ?_⟩ trivial⟩ <;> dsimp only [NetBuffer.bytes, NetBuffer.write]
    · omega
    · omega
    · rw [Nat.add_comm h.buffer.len, loadBytes_add, loadBytes_storeBytes, hoffset,
        loadBytes_storeBytes_of_out (.inr hoffset.le), hbytes]
  | pull len =>
    obtain ⟨b, hb, rfl⟩ := map_eq_some_iff.mp ht
    unfold NetBuffer.pull at hb
    split_ifs at hb with hshort
    cases hb
    refine ⟨rfl, iff_of_true ⟨?_, ?_, ?_⟩ trivial⟩ <;> dsimp only [NetBuffer.bytes]
    · omega
    · omega
    · have hsplit := loadBytes_add h.buffer.memory h.buffer.offset len (h.buffer.len - len)
      rw [Nat.add_sub_of_le (by omega), hbytes] at hsplit
      rw [hsplit, drop_left' (length_loadBytes ..)]
  | reserve len =>
    rw [Held.edit] at ht
    rcases h.buffer.reserve_cases len with ⟨hne, -⟩ | ⟨heq, hzero, hroom⟩
    · rw [if_neg hne] at ht
      cases ht
    rw [heq, if_pos rfl] at ht
    cases ht
    rw [hzero] at hbytes
    refine ⟨rfl, iff_of_true ⟨?_, ?_, ?_⟩ trivial⟩ <;> dsimp only [NetBuffer.bytes]
    · omega
    · omega
    · rw [hzero, ← hbytes]
      rfl
  | append data =>
    obtain ⟨b, hb, rfl⟩ := map_eq_some_iff.mp ht
    unfold NetBuffer.append at hb
    split_ifs at hb with hfull
    cases hb
    refine ⟨rfl, ?_, ?_⟩
    · rintro ⟨hbound', -, hbytes'⟩ -
      have hlength := congrArg length hbytes'
      rw [← hbytes] at hlength
      simp only [NetBuffer.bytes, length_append, length_loadBytes] at hbound' hlength
      omega
    · intro hexact
      have hsum := hexact (by omega)
      have hlen : (h.buffer.len + data.length) % 2 ^ 32 = h.buffer.len + data.length :=
        Nat.mod_eq_of_lt (by omega)
      refine ⟨?_, hdata, ?_⟩ <;> dsimp only [NetBuffer.bytes]
      · omega
      · rw [hlen, loadBytes_add, loadBytes_storeBytes, loadBytes_storeBytes_of_out (.inl le_rfl),
          hbytes]

/-- The calls keep the buffer intact exactly if no sum wraps; a `net_buffer_reserve` that fails
leaves the buffer as it is. -/
theorem buffer_intact_iff (heap : ℕ → UInt8) (start size reserve : ℕ) (hreserve : reserve ≤ size)
    (hsize : size < 2 ^ 32) {b : NetBuffer} (halloc : NetBuffer.alloc heap size reserve = some b)
    (edits : List Edit) :
    (Throughout step (Intact start) ⟨b, start + reserve, []⟩ edits ↔
      Meets step Exact ⟨b, start + reserve, []⟩ edits) ∧
    ∀ (b : NetBuffer) len, (b.reserve len).2 ≠ 0 → (b.reserve len).1 = b := by
  constructor
  · unfold NetBuffer.alloc at halloc
    split_ifs at halloc with hzero
    cases halloc
    apply throughout_iff_meets step (I := fun h => Intact start h ∧ h.buffer.size < 2 ^ 32)
    · exact fun h hi => hi.1
    · rintro h e ⟨hi, hlt⟩
      refine ⟨_, rfl, ?_⟩
      cases he : h.edit e with
      | none =>
        have hexact : h.Exact e := by
          cases e with
          | append data =>
            intro hle
            rw [edit, NetBuffer.append, if_neg (not_lt.mpr hle)] at he
            cases he
          | _ => trivial
        exact ⟨fun _ => ⟨hi, hlt⟩, fun hno => absurd hexact hno⟩
      | some t =>
        obtain ⟨hsame, hiff⟩ := hi.edit hlt he
        exact ⟨fun hexact => ⟨hiff.mpr hexact, hsame ▸ hlt⟩, mt hiff.mp⟩
    · exact ⟨⟨hreserve, rfl, rfl⟩, hsize⟩
  · intro b len hfails
    rcases b.reserve_cases len with ⟨-, hsame⟩ | ⟨heq, -⟩
    · exact hsame
    · exact absurd (congrArg Prod.snd heq) hfails

theorem three_bytes_intact : Throughout step (Intact 0x1000)
    ⟨⟨fun _ => 0, 16, 4, 0⟩, 0x1000 + 4, []⟩ [.append [1, 2, 3], .push [9], .pull 2] := by
  refine (buffer_intact_iff _ 0x1000 16 4 (by decide) (by decide) rfl _).1.mpr ?_
  exact meets_cons _ (fun _ => by decide) rfl (meets_cons _ trivial rfl (meets_cons _ trivial rfl
    trivial))

/-- The sum of the guard is 2 ^ 32, that is 0. -/
theorem long_append_passes : ∃ data : List UInt8, data.length = 2 ^ 32 - 4 ∧
    ∃ t, exec step ⟨⟨fun _ => 0, 16, 4, 0⟩, 0x1000 + 4, []⟩ [.append data] = some t ∧
      t.buffer.size = 16 ∧ t.buffer.offset + t.buffer.len = 2 ^ 32 := by
  have hdata : ∀ n, ∃ data : List UInt8, data.length = n := fun n =>
    ⟨List.replicate n 0, length_replicate⟩
  obtain ⟨data, hlength⟩ := hdata (2 ^ 32 - 4)
  refine ⟨data, hlength, _, rfl, ?_⟩
  simp [edit, NetBuffer.append, hlength]

end Held

end UintOS.Link
