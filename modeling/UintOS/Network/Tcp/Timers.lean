import UintOS.Network.Tcp.Calls

/-!
# The `TIME_WAIT` table

An entry of the table is for a socket in `TIME_WAIT`, and a socket has one entry at most, so
the timer closes sockets in this state only. A segment with `RST` for such a socket is the
one thing that destroys this: it frees the slot and leaves the entry behind.
-/

namespace UintOS.Tcp

open Network Link

/-- Every `TIME_WAIT` entry is for a socket in that state, one each. -/
structure TimersOk (s : State) : Prop where
  stopped : ∀ i, (s.sockets i).conn.timer = 0
  entries : ∀ k i, (s.timeWait k).socket = some i → (s.sockets i).state = .timeWait
  once : ∀ k k' i, (s.timeWait k).socket = some i → (s.timeWait k').socket = some i → k = k'

variable {s t : State} {i : Slot}

section

variable (h : TimersOk s)
include h

/-- The table is the same and the sockets in `TIME_WAIT` stay there. -/
theorem TimersOk.frame (htable : t.timeWait = s.timeWait)
    (hstopped : ∀ i, (t.sockets i).conn.timer = 0)
    (hstay : ∀ i, (s.sockets i).state = .timeWait → (t.sockets i).state = .timeWait) :
    TimersOk t where
  stopped := hstopped
  entries k i hk := hstay i (h.entries k i (htable ▸ hk))
  once k k' i hk hk' := h.once k k' i (htable ▸ hk) (htable ▸ hk')

theorem TimersOk.writes {c : Socket} (hw : Writes s i c t) (hc : c.conn.timer = 0)
    (hstay : (s.sockets i).state = .timeWait → c.state = .timeWait) : TimersOk t := by
  apply h.frame hw.timeWait
  · intro j
    by_cases hj : j = i
    · subst hj
      rwa [hw.self]
    · rw [hw.other hj]
      exact h.stopped j
  · intro j hst
    by_cases hj : j = i
    · subst hj
      rw [hw.self]
      exact hstay hst
    · rwa [hw.other hj]

theorem TimersOk.served (ht : Served i s t) : TimersOk t := by
  have hstopped : ∀ j, (t.sockets j).conn.timer = 0 := by
    intro j
    by_cases hj : j = i
    · subst hj
      exact (congrArg Identity.timer ht.identity).trans (h.stopped j)
    · rw [ht.others j hj]
      exact h.stopped j
  have hstay : ∀ j, (s.sockets j).state = .timeWait → (t.sockets j).state = .timeWait := by
    intro j hst
    by_cases hj : j = i
    · subst hj
      have hfol := ht.follows
      rwa [hst] at hfol
    · rwa [ht.others j hj]
  rcases ht.timers with htable | ⟨hnew, hst, k, w, hfree, hw, htable⟩
  · exact h.frame htable hstopped hstay
  · -- the new entry is for a socket that had none
    have hnone : ∀ k', (s.timeWait k').socket ≠ some i := fun k' hk' => hnew (h.entries k' i hk')
    have hentry : ∀ k' j, (t.timeWait k').socket = some j →
        k' = k ∧ j = i ∨ k' ≠ k ∧ j ≠ i ∧ (s.timeWait k').socket = some j := by
      intro k' j hk'
      rw [htable] at hk'
      by_cases hkk : k' = k
      · subst hkk
        rw [Function.update_self, hw] at hk'
        exact Or.inl ⟨rfl, (Option.some_injective _ hk').symm⟩
      · rw [Function.update_of_ne hkk] at hk'
        refine Or.inr ⟨hkk, ?_, hk'⟩
        rintro rfl
        exact hnone k' hk'
    constructor
    · exact hstopped
    · intro k' j hk'
      obtain ⟨-, rfl⟩ | ⟨-, -, hold⟩ := hentry k' j hk'
      · exact hst
      · exact hstay j (h.entries k' j hold)
    · intro k₁ k₂ j h₁ h₂
      obtain ⟨rfl, rfl⟩ | ⟨-, hne, hold₁⟩ := hentry k₁ j h₁
      · obtain ⟨rfl, -⟩ | ⟨-, hne, -⟩ := hentry k₂ j h₂
        · rfl
        · exact absurd rfl hne
      · obtain ⟨-, rfl⟩ | ⟨-, -, hold₂⟩ := hentry k₂ j h₂
        · exact absurd rfl hne
        · exact h.once k₁ k₂ j hold₁ hold₂

theorem TimersOk.expire (now : UInt32) (k : Fin 32) : TimersOk (expire now s k) := by
  obtain hsame | ⟨i, hi, -, ht⟩ := expire_cases now s k
  · rwa [hsame]
  · rw [ht]
    have hentry : ∀ k' j,
        (Function.update s.timeWait k { s.timeWait k with socket := none } k').socket = some j →
        k' ≠ k ∧ (s.timeWait k').socket = some j := by
      intro k' j hk'
      by_cases hkk : k' = k
      · subst hkk
        rw [Function.update_self] at hk'
        cases hk'
      · rw [Function.update_of_ne hkk] at hk'
        exact ⟨hkk, hk'⟩
    constructor
    · intro j
      change ((setSocket s i _).sockets j).conn.timer = 0
      by_cases hj : j = i
      · subst hj
        rw [setSocket_self]
        exact h.stopped j
      · rw [setSocket_of_ne s _ hj]
        exact h.stopped j
    · intro k' j hk'
      obtain ⟨hne, hold⟩ := hentry k' j hk'
      change ((setSocket s i _).sockets j).state = .timeWait
      rw [setSocket_of_ne]
      · exact h.entries k' j hold
      · rintro rfl
        exact hne (h.once k' k j hold hi)
    · intro k₁ k₂ j h₁ h₂
      exact h.once k₁ k₂ j (hentry k₁ j h₁).2 (hentry k₂ j h₂).2

theorem TimersOk.timer (msec now : UInt32) : TimersOk (timer s msec now) := by
  have hloop : TimersOk ((List.finRange 32).foldl (Tcp.expire now) s) :=
    List.foldlRecOn _ _ h fun s hs k _ => hs.expire now k
  have hsame : Tcp.timer s msec now = (List.finRange 32).foldl (Tcp.expire now) s := by
    unfold Tcp.timer
    dsimp only
    rw [show (fun i => countDown msec (((List.finRange 32).foldl (Tcp.expire now) s).sockets i)) =
      ((List.finRange 32).foldl (Tcp.expire now) s).sockets from
        funext fun i => countDown_eq msec (hloop.stopped i)]
  rw [hsame]
  exact hloop

theorem TimersOk.timer_closes {msec now : UInt32}
    (hne : ((Tcp.timer s msec now).sockets i).state ≠ (s.sockets i).state) :
    (s.sockets i).state = .timeWait := by
  by_cases hdue : ∃ k, Due s now k i
  · obtain ⟨k, hk, -⟩ := hdue
    exact h.entries k i hk
  · rw [(timer_sockets h.stopped msec now i).2 fun k hk => hdue ⟨k, hk⟩] at hne
    exact absurd rfl hne

end

/-! ## The requests -/

theorem Harmless.timersOk (h : Harmless s t) (hs : TimersOk s) : TimersOk t := by
  cases h with
  | same hsockets htable =>
    apply hs.frame htable
    · rw [hsockets]
      exact hs.stopped
    · rw [hsockets]
      exact fun _ => id
  | @written i c hw hcl hc htimer =>
    apply hs.writes hw
    · rcases htimer with h | h
      · rw [h, hs.stopped i]
      · exact h
    · simp [hcl]

theorem ClosedBy.timersOk (h : ClosedBy s i t) (hs : TimersOk s) : TimersOk t := by
  cases h with
  | ignored _ => exact hs
  | listener h | unsent h => exact hs.writes (writes_setSocket s i _) (hs.stopped i) (by simp [h])
  | fin st n h =>
    apply hs.writes (writes_setSocket s i _)
    · exact hs.stopped i
    · intro hst
      simp [hst] at h

theorem Received.timersOk {seg : Segment} {out : Outside} (h : Received s seg out t)
    (hs : TimersOk s) (hreset : seg.has tcpFlagRst → ∀ i, seg.target s.sockets = some i →
      (s.sockets i).state ≠ .timeWait) : TimersOk t := by
  cases h with
  | ignored _ => exact hs
  | reset i hrst hi =>
    exact hs.writes (writes_setSocket s i _) (hs.stopped i) fun h => absurd h (hreset hrst i hi)
  | established i _ _ _ _ hst _ =>
    exact hs.writes (writes_setSocket s i _) (hs.stopped i) (by simp [hst])
  | opened l j q hopens =>
    have hcl : (s.sockets j).state = .closed := firstClosed_eq_some hopens.slot
    obtain ⟨-, n, b, ht⟩ | ⟨-, n, b, ht⟩ := processSyn_cases hopens out
    · rw [ht]
      have henqueue : TimersOk (enqueue s l j q) :=
        hs.writes (writes_setSocket s l _) (hs.stopped l) id
      apply henqueue.writes (writes_setSocket _ j _) rfl
      rw [enqueue, setSocket_of_ne _ _ hopens.ne, hcl]
      exact nofun
    · rw [ht]
      exact hs.writes (writes_setSocket s j _) rfl (by simp [hcl])
  | served i _ _ _ => exact hs.served (rxOrdinary_served s i seg out)

/-- The timers stay right over requests that do not reset a socket in `TIME_WAIT`. -/
theorem step_timersOk (hs : TimersOk s) {e : Event}
    (hreset : ∀ p seg i, e.request = .rx (some p) → parse p = some seg → seg.has tcpFlagRst →
      seg.target s.sockets = some i → (s.sockets i).state ≠ .timeWait) :
    TimersOk (perform s e.out e.request) := by
  generalize perform s e.out e.request = t, performed s e = h
  cases h with
  | harmless _ _ h _ _ => exact h.timersOk hs
  | listening i _ limit _ hcl =>
    exact hs.writes (writes_setSocket s i _) (hs.stopped i) (by simp [hcl])
  | accepting l j q _ _ _ _ =>
    have hdequeue : TimersOk (dequeue s l j q) :=
      hs.writes (writes_setSocket s l _) (hs.stopped l) id
    apply hdequeue.writes (writes_setSocket _ j _)
    · exact hdequeue.stopped j
    · intro hst
      simp [accepted, hst]
  | connecting i _ _ _ _ _ c _ hcl hconn hw =>
    exact hs.writes hw (hconn.timer.trans (hs.stopped i)) (by simp [hcl])
  | closing _ _ _ h => exact h.timersOk hs
  | sending _ _ _ i n _ | receiving _ _ _ _ i b =>
    exact hs.writes (writes_setSocket _ i _) (hs.stopped i) id
  | segment p seg _ hp _ h => exact h.timersOk hs fun hrst i hi => hreset p seg i rfl hp hrst hi
  | timer msec out => exact hs.timer msec out.now

end UintOS.Tcp
