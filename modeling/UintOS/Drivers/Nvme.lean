import UintOS.Library.Runs

/-!
# Completions of NVMe commands

`nvme_submit_admin_cmd` and `nvme_submit_io_cmd` of `nvme.c`, which differ in their queues only. The
controller answers in order and may post completions before every poll. Of a command its id is
modelled, of a completion the id and the status.

`(cpl->status & 1) == cq->head & 1` compares the phase bit with the head itself: at head 0 an entry
is new when the bit is 0, as it is before anything was posted, at head 1 when it is 1, and at all
other heads never.
-/

namespace UintOS.Nvme

open Function List Runs

inductive ReqStatus
  | free
  | pending
  | completed
  | failed
  | timeout
deriving DecidableEq, Repr

/-- `nvme_cpl_t`. -/
structure Completion where
  cid : ℕ
  status : ℕ
deriving DecidableEq, Repr

/-- A controller with a pair of queues of `size` entries. `commands` are the ids of all commands,
`answers` the status codes posted, in the same order; `origin` tells which command an entry is for,
and `consumed` which completions the driver has taken. -/
structure System where
  size : ℕ
  nextCmdId : ℕ
  requests : Fin 32 → ReqStatus
  head : ℕ
  entries : ℕ → Completion
  commands : List ℕ
  answers : List ℕ
  origin : ℕ → Option ℕ
  consumed : List ℕ

def init (size nextCmdId : ℕ) : System :=
  ⟨size, nextCmdId, fun _ => .free, 0, fun _ => ⟨0, 0⟩, [], [], fun _ => none, []⟩

/-- The phase bit of the completion of command `k`: 1 at first, inverted on each wrap. -/
def phase (size k : ℕ) : ℕ := 1 - k / size % 2

variable (s : System)

/-- The controller posts the completion of the first command without one. -/
def post (status : ℕ) : System :=
  match s.commands[s.answers.length]? with
  | none => s
  | some cid =>
    let k := s.answers.length
    { s with
      entries := update s.entries (k % s.size) ⟨cid, 2 * status + phase s.size k⟩
      origin := update s.origin (k % s.size) (some k)
      answers := s.answers ++ [status] }

/-- The entry at the head passes for the completion of the command. -/
def Accepts (cmdId : ℕ) : Prop :=
  (s.entries s.head).status % 2 = s.head ∧ (s.entries s.head).cid = cmdId

instance (cmdId : ℕ) : Decidable (Accepts s cmdId) :=
  inferInstanceAs (Decidable (_ ∧ _))

def consume : System :=
  { s with
    head := (s.head + 1) % s.size
    consumed := s.consumed ++ (s.origin s.head).toList }

/-- The polls of the completion queue, with what the controller posts before each. -/
def poll (cmdId : ℕ) : List (List ℕ) → System → System × Option Completion
  | [], s => (s, none)
  | posts :: rounds, s =>
    let s := posts.foldl post s
    if Accepts s cmdId then (consume s, some (s.entries s.head)) else poll cmdId rounds s

/-- The polls of a call: `timeout` is counted down from 1000. -/
def rounds (posts : ℕ → List ℕ) : List (List ℕ) := (List.range 1000).map posts

def enqueue (i : Fin 32) : System :=
  { s with
    nextCmdId := (s.nextCmdId + 1) % 65536
    requests := update s.requests i .pending
    commands := s.commands ++ [s.nextCmdId] }

def outcome : Option Completion → ReqStatus
  | none => .timeout
  | some cpl => if cpl.status / 2 = 0 then .completed else .failed

/-- `nvme_submit_admin_cmd` and `nvme_submit_io_cmd`. -/
def submitCmd (posts : ℕ → List ℕ) : System × ℤ :=
  match Fin.find? fun i => s.requests i = .free with
  | none => (s, -1)
  | some i =>
    let r := poll s.nextCmdId (rounds posts) (enqueue s i)
    ({ r.1 with requests := update r.1.requests i .free },
      if outcome r.2 = .completed then 0 else -1)

def step (posts : ℕ → List ℕ) : Option System := some (submitCmd s posts).1

/-! ## The contract -/

/-- The status codes posted when the time of a call is over. -/
def answered (posts : ℕ → List ℕ) : List ℕ :=
  (s.answers ++ (rounds posts).flatten).take (s.commands.length + 1)

/-- A call succeeds only if the controller has posted so; a command answered in time returns that
answer; and no completion is taken twice. -/
structure Correct (s : System) (posts : ℕ → List ℕ) : Prop where
  success : (submitCmd s posts).2 = 0 →
    (submitCmd s posts).1.answers[s.commands.length]? = some 0
  inTime : ∀ status, (answered s posts)[s.commands.length]? = some status →
    (submitCmd s posts).2 = if status = 0 then 0 else -1
  once : (submitCmd s posts).1.consumed.Nodup

/-- Fewer than 2^16 commands are outstanding, the entry at the head does not pass for the completion
of the new command, and if this is answered in time, its completion has the place and the phase bit
that the driver waits for. -/
@[mk_iff]
structure Expected (s : System) (posts : ℕ → List ℕ) : Prop where
  outstanding : s.commands.length + 1 < s.answers.length + 65536
  fresh : ¬ Accepts s s.nextCmdId
  place : s.commands.length < (answered s posts).length →
    s.head = s.commands.length % s.size ∧ s.head = phase s.size s.commands.length

instance (posts : ℕ → List ℕ) : Decidable (Expected s posts) :=
  decidable_of_iff' _ (expected_iff s posts)

/-! ## The polls -/

section Polls

variable {s u : System} {k cmdId : ℕ}

/-- The last command, number `k`, is not answered, and nothing passes for its completion. -/
structure Waiting (k cmdId : ℕ) (s : System) : Prop where
  last : s.commands.length = k + 1
  cmd : s.commands[k]? = some cmdId
  unanswered : s.answers.length ≤ k
  fresh : ¬ Accepts s cmdId
  others : ∀ j, s.answers.length ≤ j → j < k → s.commands[j]? ≠ some cmdId

/-- The completion of command `k` is in its entry, and all commands are answered. -/
structure Answered (k cmdId status : ℕ) (s : System) : Prop where
  all : s.answers.length = s.commands.length
  answer : s.answers[k]? = some status
  entry : s.entries (k % s.size) = ⟨cmdId, 2 * status + phase s.size k⟩
  origin : s.origin (k % s.size) = some k

def Posted (s u : System) : Prop :=
  ∃ entries origin answers,
    u = { s with entries := entries, origin := origin, answers := answers }

theorem Posted.trans {v : System} (h : Posted s u) (h' : Posted u v) : Posted s v := by
  obtain ⟨_, _, _, rfl⟩ := h
  obtain ⟨_, _, _, rfl⟩ := h'
  exact ⟨_, _, _, rfl⟩

theorem post_of_all (h : s.answers.length = s.commands.length) (status : ℕ) :
    post s status = s := by
  simp [post, h]

theorem posts_of_all (h : s.answers.length = s.commands.length) (posts : List ℕ) :
    posts.foldl post s = s := by
  induction posts with
  | nil => rfl
  | cons a posts ih => rw [foldl_cons, post_of_all h, ih]

section

variable (h : Waiting k cmdId s)
include h

/-- One completion is posted: for an earlier command, or for this one. -/
theorem Waiting.post (status : ℕ) :
    Posted s (post s status) ∧ (post s status).answers = s.answers ++ [status] ∧
      (Waiting k cmdId (post s status) ∨
        s.answers.length = k ∧ Answered k cmdId status (post s status)) := by
  obtain ⟨cid, hcid⟩ : ∃ cid, s.commands[s.answers.length]? = some cid := by
    have hlt : s.answers.length < s.commands.length := by
      have := h.last
      have := h.unanswered
      omega
    exact ⟨_, getElem?_eq_getElem hlt⟩
  have hpost : Nvme.post s status = { s with
      entries := update s.entries (s.answers.length % s.size)
        ⟨cid, 2 * status + phase s.size s.answers.length⟩
      origin := update s.origin (s.answers.length % s.size) (some s.answers.length)
      answers := s.answers ++ [status] } := by
    simp [Nvme.post, hcid]
  rw [hpost]
  refine ⟨⟨_, _, _, rfl⟩, rfl, ?_⟩
  rcases Nat.lt_or_eq_of_le h.unanswered with hlt | heq
  · have hne := h.others _ le_rfl hlt
    rw [hcid] at hne
    refine .inl ⟨h.last, h.cmd, by simpa using hlt, ?_,
      fun j hj => h.others j (by simp at hj; omega)⟩
    -- the entry at the head is the old one, or that of the earlier command
    unfold Accepts
    dsimp only
    by_cases hhead : s.head = s.answers.length % s.size
    · rw [hhead, update_self]
      exact fun haccepts => hne (congrArg some haccepts.2)
    · rw [update_of_ne hhead]
      exact h.fresh
  · have hcmd : cid = cmdId := by
      rw [heq, h.cmd] at hcid
      exact (Option.some.inj hcid).symm
    refine .inr ⟨heq, ?_, ?_, ?_, ?_⟩
    · simp [heq, h.last]
    · simp [← heq]
    · simp [heq, hcmd]
    · simp [heq]

theorem Waiting.posts (posts : List ℕ) : Posted s (posts.foldl Nvme.post s) ∧
      (Waiting k cmdId (posts.foldl Nvme.post s) ∧
          (posts.foldl Nvme.post s).answers = s.answers ++ posts ∨
        ∃ status, (s.answers ++ posts)[k]? = some status ∧
          Answered k cmdId status (posts.foldl Nvme.post s)) := by
  induction posts generalizing s with
  | nil => exact ⟨⟨_, _, _, rfl⟩, .inl ⟨h, by simp⟩⟩
  | cons status posts ih =>
    obtain ⟨hposted, hanswers, hwait | ⟨hk, hdone⟩⟩ := h.post status
    · obtain ⟨hposted', hrest⟩ := ih hwait
      rw [hanswers, append_assoc] at hrest
      exact ⟨hposted.trans hposted', hrest⟩
    · rw [foldl_cons, posts_of_all hdone.all]
      exact ⟨hposted, .inr ⟨status, by simp [← hk], hdone⟩⟩

/-- The polls find the completion of the command if it is posted where the driver waits for it. -/
theorem Waiting.poll {rounds : List (List ℕ)} (hplace : k < (s.answers ++ rounds.flatten).length →
      s.head = k % s.size ∧ s.head = phase s.size k) :
    ∃ u, Posted s u ∧
      (Nvme.poll cmdId rounds s = (u, none) ∧ (s.answers ++ rounds.flatten).length ≤ k ∧
          u.answers.length ≤ k ∨
        ∃ status, Nvme.poll cmdId rounds s = (consume u, some (u.entries u.head)) ∧
          (s.answers ++ rounds.flatten)[k]? = some status ∧ Answered k cmdId status u ∧
          (u.entries u.head).status / 2 = status ∧ u.origin u.head = some k) := by
  induction rounds generalizing s with
  | nil => exact ⟨s, ⟨_, _, _, rfl⟩, .inl ⟨rfl, by simpa using h.unanswered, h.unanswered⟩⟩
  | cons posts rounds ih =>
    rw [flatten_cons, ← append_assoc] at hplace ⊢
    obtain ⟨hposted, ⟨hwait, hanswers⟩ | ⟨status, hsta, hdone⟩⟩ := h.posts posts
    · obtain ⟨_, _, _, hu⟩ := id hposted
      have hplace' := ih hwait (by rw [hanswers, hu]; exact hplace)
      rw [hanswers] at hplace'
      obtain ⟨u, hposted', hcases⟩ := hplace'
      refine ⟨u, hposted.trans hposted', ?_⟩
      unfold Nvme.poll
      dsimp only
      rw [if_neg hwait.fresh]
      exact hcases
    · have hlt := (List.getElem?_eq_some_iff.mp hsta).1
      obtain ⟨hhead, hphase⟩ := hplace (hlt.trans_le (by simp))
      refine ⟨_, hposted, .inr ⟨status, ?_⟩⟩
      rw [getElem?_append_left hlt]
      unfold Nvme.poll
      generalize posts.foldl Nvme.post s = u at hposted hdone ⊢
      have hu : u.head = k % u.size ∧ u.head = phase u.size k := by
        obtain ⟨_, _, _, rfl⟩ := hposted
        exact ⟨hhead, hphase⟩
      have hentry := hdone.entry
      have horigin := hdone.origin
      rw [← hu.1] at hentry horigin
      have hbit : phase u.size k ≤ 1 := Nat.sub_le ..
      have haccepts : Accepts u cmdId := by
        unfold Accepts
        rw [hentry]
        exact ⟨by dsimp only; omega, rfl⟩
      rw [if_pos haccepts, hentry]
      exact ⟨rfl, hsta, hdone, by dsimp only; omega, horigin⟩

end

end Polls

/-! ## Runs -/

/-- The command ids are counted from `start` on, all requests are free, and the driver has taken
completions of old commands, each once. -/
structure Inv (start : ℕ) (s : System) : Prop where
  free : ∀ i, s.requests i = .free
  ids : ∀ j < s.commands.length, s.commands[j]? = some ((start + j) % 65536)
  next : s.nextCmdId = (start + s.commands.length) % 65536
  known : s.answers.length ≤ s.commands.length
  nodup : s.consumed.Nodup
  taken : ∀ j ∈ s.consumed, j < s.commands.length

theorem inv_init {size start : ℕ} (h : start < 65536) : Inv start (init size start) :=
  ⟨fun _ => rfl, by simp [init], (Nat.mod_eq_of_lt h).symm, le_rfl, nodup_nil, by simp [init]⟩

section Step

variable {s u : System} {posts : ℕ → List ℕ} {start : ℕ}

theorem Inv.ids_snoc (h : Inv start s) :
    ∀ j < s.commands.length + 1,
      (s.commands ++ [s.nextCmdId])[j]? = some ((start + j) % 65536) := by
  intro j hj
  rcases Nat.lt_succ_iff_lt_or_eq.mp hj with hlt | rfl
  · rw [getElem?_append_left hlt, h.ids j hlt]
  · simp [h.next]

/-- The last 2^16 commands have different ids. -/
theorem Inv.waiting (h : Inv start s) (he : Expected s posts) (i : Fin 32) :
    Waiting s.commands.length s.nextCmdId (enqueue s i) where
  last := by simp [enqueue]
  cmd := by simp [enqueue]
  unanswered := h.known
  fresh := he.fresh
  others j hj hlt := by
    have hout := he.outstanding
    have hid : (s.commands ++ [s.nextCmdId])[j]? = some ((start + j) % 65536) :=
      h.ids_snoc j (Nat.lt_succ_of_lt hlt)
    change (s.commands ++ [s.nextCmdId])[j]? ≠ some s.nextCmdId
    change s.answers.length ≤ j at hj
    rw [hid, h.next]
    simp only [ne_eq, Option.some.injEq]
    omega

theorem Inv.after (h : Inv start s) (hfree : ∀ j, u.requests j = .free)
    (hcommands : u.commands = s.commands ++ [s.nextCmdId])
    (hnext : u.nextCmdId = (s.nextCmdId + 1) % 65536)
      (hknown : u.answers.length ≤ u.commands.length)
    (hconsumed : u.consumed = s.consumed ∨ u.consumed = s.consumed ++ [s.commands.length]) :
    Inv start u := by
  have hlen : u.commands.length = s.commands.length + 1 := by simp [hcommands]
  refine ⟨hfree, ?_, ?_, hknown, ?_, ?_⟩
  · rw [hlen, hcommands]
    exact h.ids_snoc
  · rw [hnext, h.next, hlen]
    omega
  · rcases hconsumed with heq | heq
    · rw [heq]
      exact h.nodup
    · rw [heq]
      refine nodup_append.mpr ⟨h.nodup, nodup_singleton _, ?_⟩
      intro a ha b hb
      rw [mem_singleton.mp hb]
      exact (h.taken a ha).ne
  · intro j hj
    rw [hlen]
    rcases hconsumed with heq | heq
    · rw [heq] at hj
      exact Nat.lt_succ_of_lt (h.taken j hj)
    · rw [heq, mem_append, mem_singleton] at hj
      rcases hj with hj | rfl
      · exact Nat.lt_succ_of_lt (h.taken j hj)
      · exact Nat.lt_succ_self _

theorem submitCmd_of_poll {i : Fin 32} {r : Option Completion}
    (hi : Fin.find? (fun i => decide (s.requests i = .free)) = some i)
    (hpoll : poll s.nextCmdId (rounds posts) (enqueue s i) = (u, r)) :
    submitCmd s posts = ({ u with requests := update u.requests i .free },
      if outcome r = .completed then 0 else -1) := by
  unfold submitCmd
  rw [hi]
  dsimp only
  rw [hpoll]

theorem Inv.step (h : Inv start s) (he : Expected s posts) :
    Correct s posts ∧ Inv start (submitCmd s posts).1 := by
  obtain ⟨i, hi⟩ : ∃ i, Fin.find? (fun i => decide (s.requests i = .free)) = some i := by
    apply Option.isSome_iff_exists.mp
    simp [h.free]
  have hplace : s.commands.length < (s.answers ++ (rounds posts).flatten).length →
      s.head = s.commands.length % s.size ∧ s.head = phase s.size s.commands.length := by
    intro hlt
    apply he.place
    rw [answered, length_take]
    omega
  have hanswered : (answered s posts)[s.commands.length]? =
      ((enqueue s i).answers ++ (rounds posts).flatten)[s.commands.length]? := by
    rw [answered, getElem?_take_of_lt (Nat.lt_succ_self _)]
    rfl
  have hfree : ∀ j, update (enqueue s i).requests i .free j = .free := by
    intro j
    unfold enqueue
    rw [update_idem, ← h.free i, update_eq_self, h.free j, h.free i]
  obtain ⟨u, hposted, hcases⟩ := (h.waiting he i).poll hplace
  rcases hcases with ⟨hpoll, hlate, hle⟩ | ⟨status, hpoll, hsta, hdone, hcode, horigin⟩
  · have hsubmit := submitCmd_of_poll hi hpoll
    obtain ⟨_, _, _, rfl⟩ := hposted
    have hinv : Inv start (submitCmd s posts).1 := by
      rw [hsubmit]
      exact h.after hfree rfl rfl (hle.trans (by simp [enqueue])) (.inl rfl)
    rw [getElem?_eq_none hlate] at hanswered
    refine ⟨⟨?_, by simp [hanswered], hinv.nodup⟩, hinv⟩
    rw [hsubmit]
    simp [outcome]
  · have hsubmit := submitCmd_of_poll hi hpoll
    have houtcome : outcome (some (u.entries u.head)) = .completed ↔ status = 0 := by
      simp [outcome, hcode]
    simp only [houtcome] at hsubmit
    have hconsumed : (consume u).consumed = u.consumed ++ [s.commands.length] := by
      simp [consume, horigin]
    have hinv : Inv start (submitCmd s posts).1 := by
      rw [hsubmit]
      obtain ⟨_, _, _, rfl⟩ := hposted
      exact h.after hfree rfl rfl hdone.all.le (.inr hconsumed)
    refine ⟨⟨?_, ?_, hinv.nodup⟩, hinv⟩
    · rw [hsubmit]
      intro hzero
      have hstatus0 : status = 0 := by
        by_contra hne
        simp [hne] at hzero
      exact hdone.answer.trans (congrArg some hstatus0)
    · rw [hanswered, hsta, hsubmit]
      rintro _ ⟨⟩
      rfl

end Step

/-- Every command gets its own completion, as long as completions come where they are expected. -/
theorem completions_match {size start : ℕ} (hstart : start < 65536) {calls : List (ℕ → List ℕ)}
    (h : Meets step Expected (init size start) calls) :
    Meets step Correct (init size start) calls := by
  apply Meets.imp step (I := Inv start) _ _ (inv_init hstart) h
  · intro s posts t hinv he ht
    cases ht
    exact (hinv.step he).2
  · exact fun s posts hinv he => (hinv.step he).1

/-- Before the first poll the controller answers the given commands. -/
def atOnce (answers : List ℕ) : ℕ → List ℕ
  | 0 => answers
  | _ => []

/-- On queues of two entries, two commands time out, and the third is answered in time. -/
theorem third_command_matched :
    Meets step Expected (init 2 1) [atOnce [], atOnce [], atOnce [0, 0, 0]] ∧
      Meets step Correct (init 2 1) [atOnce [], atOnce [], atOnce [0, 0, 0]] := by
  have h : Meets step Expected (init 2 1) [atOnce [], atOnce [], atOnce [0, 0, 0]] := by
    decide +kernel
  exact ⟨h, completions_match (by decide) h⟩

/-- The first I/O command is answered before the first poll, and times out all the same. The first
admin command, with the id 0, returns 0 without an answer. -/
theorem first_answer_missed : ((answered (init 64 4) (atOnce [0]))[0]? = some 0 ∧
      (submitCmd (init 64 4) (atOnce [0])).2 = -1) ∧
    ((submitCmd (init 32 0) (atOnce [])).1.answers = [] ∧
      (submitCmd (init 32 0) (atOnce [])).2 = 0) := by
  decide +kernel

end UintOS.Nvme
