import UintOS.Library.Machine
import UintOS.Library.Runs
import UintOS.Library.Traced

/-!
# The log in memory

`log_message`, `log_clear_buffer` and `log_get_buffer` of `log.c`. A string is the list of its bytes
before the terminator; the buffer is memory that is accessed by the offset from `log_buffer`, and
what is accessed is reported.

A line that does not fit makes the second half of the buffer its first half. As no line is longer
than 255 bytes, the notice of the overflow and the line fit behind it.
-/

namespace UintOS.Logging

open Function List Machine Runs Traced

/-- The bytes of a C string. -/
abbrev Text := List UInt8

def text (s : String) : Text := s.toList.map fun c => UInt8.ofNat c.toNat

/-- `log_level_t`, and the values of that type that have no name. -/
inductive Level
  | trace
  | debug
  | info
  | notice
  | warning
  | error
  | critical
  | alert
  | emergency
  | unknown (above : ℕ)
deriving DecidableEq, Repr

def Level.rank : Level → ℕ
  | .trace => 0
  | .debug => 1
  | .info => 2
  | .notice => 3
  | .warning => 4
  | .error => 5
  | .critical => 6
  | .alert => 7
  | .emergency => 8
  | .unknown above => 9 + above

def Level.name : Level → String
  | .trace => "TRACE"
  | .debug => "DEBUG"
  | .info => "INFO"
  | .notice => "NOTICE"
  | .warning => "WARNING"
  | .error => "ERROR"
  | .critical => "CRITICAL"
  | .alert => "ALERT"
  | .emergency => "EMERGENCY"
  | .unknown _ => "UNKNOWN"

def destMemory : UInt8 := 1

/-- `LOG_FORMAT_*`. -/
def formatTimestamp : UInt8 := 1
def formatLevel : UInt8 := 2
def formatSource : UInt8 := 4

def bufferSize : ℕ := 16384

def maxMessageSize : ℕ := 256

def newline : UInt8 := 10

structure Log where
  level : Level
  destinations : UInt8
  formatOptions : UInt8
  timestamp : UInt32
  buffer : ℕ → UInt8
  position : ℕ

/-- The arguments of `log_message`: `formatted` is what the format and its arguments give, and
`ticks` the system timer, if it is available. -/
structure Message where
  level : Level
  source : Option Text
  formatted : Text
  ticks : Option UInt32
deriving DecidableEq, Repr

variable (s : Log)

def getSystemTime (ticks : Option UInt32) : UInt32 := ticks.getD s.timestamp

/-- `format_timestamp`. -/
def formatTime (timestamp : UInt32) : Text :=
  let centiseconds := timestamp.toNat % 100
  text (toString (timestamp.toNat / 100)) ++ text "." ++
    (if centiseconds < 10 then text "0" else []) ++ text (toString centiseconds)

def bracketed (t : Text) : Text := text "[" ++ t ++ text "] "

variable (m : Message)

/-- `full_message`, which `log_message` puts together. -/
def fullMessage : Text :=
  (if s.formatOptions &&& formatTimestamp ≠ 0 then bracketed (formatTime (getSystemTime s m.ticks))
    else []) ++
  (if s.formatOptions &&& formatLevel ≠ 0 then bracketed (text m.level.name) else []) ++
  (if s.formatOptions &&& formatSource ≠ 0 then (m.source.map bracketed).getD [] else []) ++
  m.formatted.take (maxMessageSize - 1)

/-- `strcpy(&log_buffer[log_buffer_position], t); log_buffer_position += strlen(t)`. -/
def append (t : Text) : Traced ℕ Log := do
  access (List.range' s.position (t.length + 1))
  pure { s with
    buffer := storeBytes s.buffer s.position (t ++ [0])
    position := add32 s.position t.length }

/-- `log_buffer[log_buffer_position++] = '\n'; log_buffer[log_buffer_position] = '\0'`. -/
def endLine : Traced ℕ Log := do
  access [s.position, add32 s.position 1]
  pure { s with
    buffer := update (update s.buffer s.position newline) (add32 s.position 1) 0
    position := add32 s.position 1 }

/-- `memmove(log_buffer, log_buffer + moveSize, n); log_buffer_position -= moveSize`. -/
def move (moveSize n : ℕ) : Traced ℕ Log := do
  access (List.range' 0 n ++ List.range' moveSize n)
  pure { s with
    buffer := copy s.buffer 0 moveSize n
    position := sub32 s.position moveSize }

def makeRoom : Traced ℕ Log :=
  let moveSize := sub32 s.position (bufferSize / 2)
  move s moveSize (sub32 bufferSize moveSize)

def overflowMsg : Text := text "[LOGGING] Log buffer overflow, oldest messages lost\n"

def Log.fits (line : Text) : Prop :=
  add32 (add32 s.position line.length) 2 < bufferSize

instance (line : Text) : Decidable (s.fits line) :=
  inferInstanceAs (Decidable (_ < _))

/-- The part of `log_message` that is about the memory buffer. -/
def storeLine (line : Text) : Traced ℕ Log :=
  if s.destinations &&& destMemory ≠ 0 ∧ s.position < bufferSize then
    if s.fits line then do
      let s ← append s line
      endLine s
    else do
      let s ← makeRoom s
      let s ← append s overflowMsg
      let s ← append s line
      endLine s
  else pure s

def logMessage : Traced ℕ Log :=
  if m.level.rank < s.level.rank then pure s
  else do
    let s ← storeLine s (fullMessage s m)
    pure { s with timestamp := s.timestamp + 1 }

/-- The message that `log_clear_buffer` logs first. -/
def clearMessage (ticks : Option UInt32) : Message :=
  ⟨.debug, some (text "LOG"), text "Clearing log buffer", ticks⟩

def logClearBuffer (ticks : Option UInt32) : Traced ℕ Log := do
  let s ← logMessage s (clearMessage ticks)
  access (List.range' 0 bufferSize)
  pure { s with buffer := fill s.buffer 0 bufferSize 0, position := 0 }

def logGetBuffer (maxSize : ℕ) : List UInt8 :=
  if maxSize = 0 then []
  else loadBytes s.buffer 0 (if s.position < maxSize then s.position else maxSize - 1)

/-! ## The buffer as a text -/

structure Holds (s : Log) (content : Text) : Prop where
  position : s.position = content.length
  room : content.length < bufferSize
  bytes : loadBytes s.buffer 0 content.length = content
  terminated : s.buffer content.length = 0

section Holds

variable {s : Log} {content t line : Text} (h : Holds s content)
include h

theorem Holds.logGetBuffer_eq : logGetBuffer s bufferSize = content := by
  unfold logGetBuffer
  rw [if_neg (by decide), h.position, if_pos h.room]
  exact h.bytes

theorem Holds.stored (hroom : content.length + t.length < bufferSize)
    {u : Log} (hbuffer : u.buffer = storeBytes s.buffer content.length (t ++ [0]))
    (hpos : u.position = content.length + t.length) : Holds u (content ++ t) := by
  have hload : loadBytes u.buffer content.length (t.length + 1) = t ++ [0] := by
    have hself := loadBytes_storeBytes s.buffer content.length (t ++ [0])
    rwa [length_append, length_singleton, ← hbuffer] at hself
  have hsplit := loadBytes_add u.buffer content.length t.length 1
  rw [hload] at hsplit
  obtain ⟨htext, hzero⟩ := append_inj hsplit (by simp)
  have hold : loadBytes u.buffer 0 content.length = content := by
    rw [hbuffer, loadBytes_storeBytes_of_out (by omega)]
    exact h.bytes
  constructor
  · rw [hpos, length_append]
  · rwa [length_append]
  · rw [length_append, loadBytes_add, hold, Nat.zero_add, ← htext]
  · rw [length_append]
    simpa [loadBytes] using hzero.symm

theorem Holds.append (hroom : content.length + t.length < bufferSize) :
    Holds (append s t).value (content ++ t) ∧ Within (· < bufferSize) (append s t) := by
  have hlt : content.length + t.length < 4294967296 := hroom.trans (by decide)
  constructor
  · refine h.stored hroom ?_ ?_
    · simp [Logging.append, h.position]
    · simp [Logging.append, h.position, add32_eq hlt]
  · simp only [Logging.append, within_bind, within_access, within_pure, and_true, mem_range'_1]
    intro a ha
    rw [h.position] at ha
    omega

theorem Holds.endLine (hroom : content.length + 1 < bufferSize) :
    Holds (endLine s).value (content ++ [newline]) ∧ Within (· < bufferSize) (endLine s) := by
  have hnext : add32 content.length 1 = content.length + 1 := add32_eq (hroom.trans (by decide))
  constructor
  · refine h.stored (t := [newline]) hroom ?_ ?_
    · simp only [Logging.endLine, value_bind, value_pure, h.position, hnext]
      funext a
      rcases lt_trichotomy a content.length with ha | rfl | ha
      · rw [storeBytes_of_out (Or.inl ha), update_of_ne (by omega), update_of_ne (by omega)]
      · simp [storeBytes]
      · by_cases hlast : a = content.length + 1
        · subst hlast
          simp [storeBytes]
        · rw [storeBytes_of_out (by simp; omega), update_of_ne hlast, update_of_ne (by omega)]
    · simp [Logging.endLine, h.position, hnext]
  · simp only [Logging.endLine, within_bind, within_access, within_pure, and_true,
      h.position, hnext]
    intro a ha
    simp only [mem_cons, not_mem_nil, or_false] at ha
    omega

/-- The last half of a buffer is left, at its start. -/
theorem Holds.makeRoom (hlong : bufferSize / 2 ≤ content.length) :
    Holds (makeRoom s).value (content.drop (content.length - bufferSize / 2)) ∧
      Within (· < bufferSize) (makeRoom s) := by
  have hroom := h.room
  have hmove : sub32 s.position (bufferSize / 2) = content.length - bufferSize / 2 := by
    rw [h.position]
    exact sub32_eq hlong (hroom.trans (by decide))
  obtain ⟨moveSize, hm⟩ : ∃ m, m = content.length - bufferSize / 2 := ⟨_, rfl⟩
  rw [← hm] at hmove ⊢
  have hn : sub32 bufferSize moveSize = bufferSize - moveSize :=
    sub32_eq (by omega) (by decide)
  have hpos : sub32 s.position moveSize = content.length - moveSize := by
    rw [h.position]
    exact sub32_eq (by omega) (hroom.trans (by decide))
  have hlen : (content.drop moveSize).length = content.length - moveSize := length_drop
  have hcopy : ∀ a, a < bufferSize - moveSize →
      copy s.buffer 0 moveSize (bufferSize - moveSize) a = s.buffer (moveSize + a) := by
    intro a ha
    simp [copy, ha]
  constructor
  · constructor
    · simp [Logging.makeRoom, move, hmove, hpos]
    · omega
    · have hwhole := loadBytes_add s.buffer 0 moveSize (content.length - moveSize)
      have hsum : moveSize + (content.length - moveSize) = content.length := by omega
      rw [hsum, h.bytes, Nat.zero_add] at hwhole
      have hdrop := congrArg (List.drop moveSize) hwhole
      rw [drop_left' (length_loadBytes _ _ _)] at hdrop
      rw [hlen, hdrop]
      simp only [Logging.makeRoom, move, value_bind, value_pure, hmove, hn]
      apply map_congr_left
      intro i hi
      have hi' := mem_range.mp hi
      rw [Nat.zero_add, hcopy i (by omega)]
    · simp only [Logging.makeRoom, move, value_bind, value_pure, hmove, hn, hlen]
      rw [hcopy _ (by omega), Nat.add_sub_cancel' (by omega)]
      exact h.terminated
  · simp only [Logging.makeRoom, move, within_bind, within_access, within_pure, and_true, hmove, hn,
      mem_append, mem_range'_1]
    intro a ha
    omega

/-- What a line leaves of the content, with the notice if some is lost. -/
def kept (s : Log) (content line : Text) : Text :=
  if s.fits line then content
  else content.drop (content.length - bufferSize / 2) ++ overflowMsg

/-- A short line always finds room: where it does not fit, the buffer is nearly full, and a half of
it becomes free. -/
theorem Holds.storeLine (hmemory : s.destinations &&& destMemory ≠ 0) (hshort : line.length ≤ 255) :
    Holds (storeLine s line).value (kept s content line ++ line ++ [newline]) ∧
      Within (· < bufferSize) (storeLine s line) := by
  have hroom := h.room
  have hnotice : overflowMsg.length = 52 := by decide
  have hfits : s.fits line ↔ content.length + line.length + 2 < bufferSize := by
    unfold Log.fits
    rw [h.position]
    unfold bufferSize add32 at *
    omega
  have hsize : bufferSize = 16384 := rfl
  unfold Logging.storeLine kept
  rw [if_pos ⟨hmemory, h.position ▸ hroom⟩]
  by_cases hfit : s.fits line
  · rw [if_pos hfit, if_pos hfit]
    rw [hfits] at hfit
    obtain ⟨hline, hwithin⟩ := h.append (t := line) (by omega)
    obtain ⟨hend, hwithin'⟩ := hline.endLine (by rw [length_append]; omega)
    exact ⟨hend, (within_bind _ _).mpr ⟨hwithin, hwithin'⟩⟩
  · rw [if_neg hfit, if_neg hfit]
    rw [hfits] at hfit
    obtain ⟨hmove, hwithin⟩ := h.makeRoom (by omega)
    have hhalf : (content.drop (content.length - bufferSize / 2)).length = 8192 := by
      rw [length_drop]
      omega
    obtain ⟨hoverflow, hwithin'⟩ := hmove.append (t := overflowMsg) (by omega)
    have hlong : (content.drop (content.length - bufferSize / 2) ++ overflowMsg).length = 8244 := by
      rw [length_append, hhalf, hnotice]
    obtain ⟨hline, hwithin''⟩ := hoverflow.append (t := line) (by omega)
    obtain ⟨hend, hlast⟩ := hline.endLine (by rw [length_append]; omega)
    refine ⟨hend, ?_⟩
    simp only [within_bind]
    exact ⟨hwithin, hwithin', hwithin'', hlast⟩

end Holds

/-! ## Runs -/

/-- A call of `log_message` or of `log_clear_buffer`. -/
inductive Request
  | message (m : Message)
  | clear (ticks : Option UInt32)
deriving DecidableEq, Repr

/-- The log beside what was logged since the last clear: the text with the notices in it, the last
line, and all offsets accessed. -/
structure Session where
  log : Log
  written : Text
  recent : Option Text
  accesses : List ℕ

def Log.takes : Prop := ¬ m.level.rank < s.level.rank

instance : Decidable (s.takes m) := inferInstanceAs (Decidable (¬ _))

def Log.produces : Text :=
  (if s.fits (fullMessage s m) then [] else overflowMsg) ++ (fullMessage s m ++ [newline])

def step (s : Session) : Request → Option Session
  | .message m =>
    let r := logMessage s.log m
    some {
      log := r.value
      written := if s.log.takes m then s.written ++ s.log.produces m else s.written
      recent := if s.log.takes m then some (fullMessage s.log m) else s.recent
      accesses := s.accesses ++ r.accesses }
  | .clear ticks =>
    let r := logClearBuffer s.log ticks
    some { log := r.value, written := [], recent := none, accesses := s.accesses ++ r.accesses }

def Session.start (level : Level) (destinations formatOptions : UInt8) : Session :=
  ⟨⟨level, destinations, formatOptions, 0, fun _ => 0, 0⟩, [], none, []⟩

/-- The buffer is in order, and its content is the end of what was logged. -/
structure Sound (s : Session) : Prop where
  position : s.log.position < bufferSize
  terminated : s.log.buffer s.log.position = 0
  inside : ∀ a ∈ s.accesses, a < bufferSize
  suffix : logGetBuffer s.log bufferSize <:+ s.written
  recent : ∀ line, s.recent = some line → line ++ [newline] <:+ logGetBuffer s.log bufferSize

/-- The line that a call assembles, if any, has at most 255 bytes. -/
def Short (s : Session) : Request → Prop
  | .message m => s.log.takes m → (fullMessage s.log m).length ≤ 255
  | .clear ticks =>
    s.log.takes (clearMessage ticks) → (fullMessage s.log (clearMessage ticks)).length ≤ 255

instance (s : Session) : (r : Request) → Decidable (Short s r)
  | .message _ | .clear _ => inferInstanceAs (Decidable (_ → _))

structure Inv (s : Session) : Prop where
  memory : s.log.destinations &&& destMemory ≠ 0
  inside : ∀ a ∈ s.accesses, a < bufferSize
  content : ∃ content, Holds s.log content ∧ content <:+ s.written ∧
    ∀ line, s.recent = some line → line ++ [newline] <:+ content

theorem Inv.sound {s : Session} (h : Inv s) : Sound s := by
  obtain ⟨content, hholds, hsuffix, hrecent⟩ := h.content
  have hcont := hholds.logGetBuffer_eq
  constructor
  · rw [hholds.position]
    exact hholds.room
  · rw [hholds.position]
    exact hholds.terminated
  · exact h.inside
  · rwa [hcont]
  · rwa [hcont]

section Step

variable {s t : Session} {content : Text} {m : Message}

section

variable (s : Log)

theorem append_destinations (t : Text) : (append s t).value.destinations = s.destinations := rfl

theorem endLine_destinations : (endLine s).value.destinations = s.destinations := rfl

theorem move_destinations (moveSize n : ℕ) :
    (move s moveSize n).value.destinations = s.destinations := rfl

theorem makeRoom_destinations : (makeRoom s).value.destinations = s.destinations :=
  move_destinations s _ _

theorem storeLine_destinations (line : Text) :
    (storeLine s line).value.destinations = s.destinations := by
  unfold storeLine
  split_ifs
  · rw [value_bind, endLine_destinations, append_destinations]
  · rw [value_bind, value_bind, value_bind, endLine_destinations, append_destinations,
      append_destinations, makeRoom_destinations]
  · rfl

theorem logMessage_destinations (m : Message) :
    (logMessage s m).value.destinations = s.destinations := by
  unfold logMessage
  split_ifs
  · rfl
  · exact storeLine_destinations s _

end

theorem logMessage_skipped {s : Log} (htakes : ¬ s.takes m) : logMessage s m = pure s :=
  if_pos (not_not.mp htakes)

section

variable (h : Holds s.log content) (hmemory : s.log.destinations &&& destMemory ≠ 0)
include h hmemory

/-- The content and what was logged are prolonged by the same text; the start of the content may be
lost. -/
theorem logMessage_holds (htakes : s.log.takes m) (hshort : (fullMessage s.log m).length ≤ 255) :
    ∃ lost, Holds (logMessage s.log m).value (content.drop lost ++ s.log.produces m) ∧
      Within (· < bufferSize) (logMessage s.log m) := by
  obtain ⟨hholds, hwithin⟩ := h.storeLine hmemory hshort
  have hmessage : logMessage s.log m = storeLine s.log (fullMessage s.log m) >>=
      fun s => pure { s with timestamp := s.timestamp + 1 } := if_neg htakes
  have hcont : ∃ lost, kept s.log content (fullMessage s.log m) ++ fullMessage s.log m ++
      [newline] = content.drop lost ++ s.log.produces m := by
    unfold kept Log.produces
    split_ifs
    · exact ⟨0, by simp⟩
    · exact ⟨content.length - bufferSize / 2, by simp only [append_assoc]⟩
  obtain ⟨lost, hlost⟩ := hcont
  rw [hlost] at hholds
  refine ⟨lost, ?_, ?_⟩
  · rw [hmessage]
    exact ⟨hholds.position, hholds.room, hholds.bytes, hholds.terminated⟩
  · rw [hmessage, within_bind]
    exact ⟨hwithin, within_pure _⟩

theorem logMessage_within (hshort : s.log.takes m → (fullMessage s.log m).length ≤ 255) :
    Within (· < bufferSize) (logMessage s.log m) := by
  by_cases htakes : s.log.takes m
  · obtain ⟨_, -, hwithin⟩ := logMessage_holds h hmemory htakes (hshort htakes)
    exact hwithin
  · rw [logMessage_skipped htakes]
    exact within_pure _

end

theorem Inv.message (h : Inv s) (hshort : Short s (.message m))
    (ht : step s (.message m) = some t) : Inv t := by
  obtain ⟨content, hholds, hsuffix, hrecent⟩ := h.content
  cases ht
  refine ⟨?_, forall_mem_append.mpr ⟨h.inside, ?_⟩, ?_⟩
  · rw [logMessage_destinations]
    exact h.memory
  · exact logMessage_within hholds h.memory hshort
  · by_cases htakes : s.log.takes m
    · obtain ⟨lost, hholds', -⟩ := logMessage_holds hholds h.memory htakes (hshort htakes)
      simp only [if_pos htakes]
      refine ⟨_, hholds', ?_, ?_⟩
      · obtain ⟨before, hbef⟩ := (drop_suffix lost content).trans hsuffix
        exact ⟨before, by rw [← hbef, append_assoc]⟩
      · intro line hline
        obtain rfl := Option.some.inj hline
        exact (suffix_append _ _).trans (suffix_append _ _)
    · simp only [if_neg htakes, logMessage_skipped htakes]
      exact ⟨content, hholds, hsuffix, hrecent⟩

theorem Inv.clear (h : Inv s) {ticks : Option UInt32} (hshort : Short s (.clear ticks))
    (ht : step s (.clear ticks) = some t) : Inv t := by
  obtain ⟨content, hholds, -, -⟩ := h.content
  have hwithin := logMessage_within hholds h.memory hshort
  cases ht
  refine ⟨?_, forall_mem_append.mpr ⟨h.inside, ?_⟩, ?_⟩
  · change (logMessage s.log (clearMessage ticks)).value.destinations &&& destMemory ≠ 0
    rw [logMessage_destinations]
    exact h.memory
  · refine (within_bind _ _).mpr ⟨hwithin, (within_bind _ _).mpr ⟨?_, within_pure _⟩⟩
    rw [within_access]
    intro a ha
    rw [mem_range'_1] at ha
    omega
  · refine ⟨[], ⟨rfl, by decide, rfl, rfl⟩, suffix_refl _, ?_⟩
    intro line hline
    cases hline

theorem Inv.step {r : Request} (h : Inv s) (hshort : Short s r)
    (ht : step s r = some t) : Inv t := by
  cases r with
  | message m => exact h.message hshort ht
  | clear ticks => exact h.clear hshort ht

end Step

theorem inv_start (level : Level) {destinations : UInt8} (formatOptions : UInt8)
    (hmemory : destinations &&& destMemory ≠ 0) :
    Inv (Session.start level destinations formatOptions) := by
  refine ⟨hmemory, by simp [Session.start], [], ⟨rfl, by decide, rfl, rfl⟩, suffix_refl _, ?_⟩
  intro line hline
  cases hline

/-- In every run the buffer has the end of what was logged since the last clear, with the last line
in it, and no access is outside of the buffer. -/
theorem log_is_suffix (level : Level) {destinations : UInt8} (formatOptions : UInt8)
    (hmemory : destinations &&& destMemory ≠ 0) {requests : List Request}
    (hshort : Meets step Short (Session.start level destinations formatOptions) requests) :
    Throughout step Sound (Session.start level destinations formatOptions) requests := by
  have hinv := throughout_of_meets step (fun _ _ _ h hshort ht => h.step hshort ht)
    (inv_start level formatOptions hmemory) hshort
  exact hinv.imp step fun _ h => h.sound

/-- Two messages with all their parts, the second below the level, and a clear. -/
theorem cleared_log_is_suffix : Throughout step Sound (Session.start .info 1 7)
      [.message ⟨.warning, some (text "IRQ"), text "spurious", none⟩,
        .message ⟨.debug, none, text "tick", some 250⟩, .clear none] :=
  log_is_suffix .info 7 (by decide) (by decide)

/-! ## Assembling a line -/

/-- What `log_message` appends to `full_message`, one call of `strcat` after the other. -/
def pieces : List Text :=
  let bracketed (t : Text) := [text "[", t, text "] "]
  (if s.formatOptions &&& formatTimestamp ≠ 0 then bracketed (formatTime (getSystemTime s m.ticks))
    else []) ++
  (if s.formatOptions &&& formatLevel ≠ 0 then bracketed (text m.level.name) else []) ++
  (if s.formatOptions &&& formatSource ≠ 0 then (m.source.map bracketed).getD [] else []) ++
  [m.formatted.take (maxMessageSize - 1)]

/-- `strcat(full_message, t)`: `t` and the terminator are written behind the line. -/
def strcat (line t : Text) : Traced ℕ Text := do
  access (List.range' line.length (t.length + 1))
  pure (line ++ t)

def assemble : Traced ℕ Text := do
  access [0]
  (pieces s m).foldlM strcat []

theorem flatten_pieces : (pieces s m).flatten = fullMessage s m := by
  unfold pieces fullMessage
  cases m.source <;> split_ifs <;> simp [bracketed]

theorem value_strcats (ts : List Text) (line : Text) :
    (ts.foldlM strcat line).value = line ++ ts.flatten := by
  induction ts generalizing line with
  | nil => simp
  | cons t ts ih =>
    rw [foldlM_cons, value_bind, ih, flatten_cons, ← append_assoc]
    rfl

theorem within_strcat (line t : Text) (n : ℕ) :
    Within (· < n) (strcat line t) ↔ (line ++ t).length < n := by
  simp only [strcat, within_bind, within_access, within_pure, and_true, mem_range'_1, length_append]
  constructor
  · intro h
    exact h _ (by omega)
  · intro h k hk
    omega

/-- The last piece reaches as far as the whole line. -/
theorem within_strcats {n : ℕ} (ts : List Text) {line : Text} (hline : line.length < n) :
    Within (· < n) (ts.foldlM strcat line) ↔ (line ++ ts.flatten).length < n := by
  induction ts generalizing line with
  | nil => simpa using hline
  | cons t ts ih =>
    rw [foldlM_cons, within_bind, within_strcat, flatten_cons, ← append_assoc]
    constructor
    · rintro ⟨ht, hts⟩
      exact (ih ht).mp hts
    · intro h
      have ht : (line ++ t).length < n := by
        rw [length_append] at h
        omega
      exact ⟨ht, (ih ht).mpr h⟩

/-- The enabled prefixes, each with its brackets and a blank, and the message. -/
def lineLength : ℕ :=
  (if s.formatOptions &&& formatTimestamp ≠ 0 then
    (formatTime (getSystemTime s m.ticks)).length + 3 else 0) +
  (if s.formatOptions &&& formatLevel ≠ 0 then (text m.level.name).length + 3 else 0) +
  (if s.formatOptions &&& formatSource ≠ 0 then (m.source.map (·.length + 3)).getD 0 else 0) +
  min (maxMessageSize - 1) m.formatted.length

theorem length_fullMessage : (fullMessage s m).length = lineLength s m := by
  have hbracketed : ∀ t, (bracketed t).length = t.length + 3 := by
    simp [bracketed, text]
  unfold fullMessage lineLength
  cases m.source <;> split_ifs <;> simp [hbracketed, Nat.add_assoc]

/-- `full_message` is the line of the prefixes and the message, written inside of its array exactly
if the line and its terminator fit. -/
theorem line_assembled_iff (s : Log) (m : Message) : (assemble s m).value = fullMessage s m ∧
      (Within (· < maxMessageSize) (assemble s m) ↔ lineLength s m < maxMessageSize) := by
  rw [← length_fullMessage, ← flatten_pieces, assemble, value_bind, value_strcats, within_bind,
    within_access, within_strcats _ (by decide)]
  simp [maxMessageSize]

/-- The level and a message of 255 bytes. -/
theorem long_line_overruns : ¬ Within (· < maxMessageSize) (assemble
      ⟨.info, 1, formatLevel, 0, fun _ => 0, 0⟩ ⟨.info, none, replicate 255 97, none⟩) := by
  intro h
  have hlast := h 261 (by decide +kernel)
  exact absurd hlast (by decide)

end UintOS.Logging
