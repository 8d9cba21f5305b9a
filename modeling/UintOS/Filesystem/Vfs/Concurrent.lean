import UintOS.Filesystem.Vfs.Resolve

/-!
# Concurrent mounts

Any number of calls run at once. `vfs_unmount` keeps the lock, so it is one action. `vfs_mount`
takes three: the critical section that looks for the mount point, the handler of the file system,
and the critical section that adds the mount. In between, the mount point is in no list, and a
second call for it gets past the first one's test.
-/

namespace UintOS.Vfs

open List Runs

inductive Call
  | fresh
  | handling (mount : Mount)
  | adding (mount : Mount)
  | returned (result : Except Error Unit)

structure System where
  mountPoints : List Mount
  calls : ℕ → Call

def System.init : System := ⟨[], fun _ => .fresh⟩

def System.setCall (s : System) (k : ℕ) (call : Call) : System :=
  { s with calls := Function.update s.calls k call }

/-- One action of a schedule. `memory` and `result` are what the allocator and the handler
of the file system answer. -/
inductive Action
  | enter (k : ℕ) (fsName mountPoint : Text) (memory : Bool)
  | handler (k : ℕ) (result : ℤ)
  | add (k : ℕ)
  | unmount (mountPoint : Text) (result : ℤ)
deriving DecidableEq

def Action.call : Action → Option ℕ
  | .enter k _ _ _ => some k
  | .handler k _ => some k
  | .add k => some k
  | .unmount _ _ => none

section

variable (registered : List FsType)

/-- An action; `none` if its call is at another place. -/
def act (s : System) : Action → Option System
  | .enter k fsName mountPoint memory =>
    match s.calls k with
    | .fresh =>
      match beginMount registered s.mountPoints fsName mountPoint memory with
      | .error e => some (s.setCall k (.returned (.error e)))
      | .ok mount => some (s.setCall k (.handling mount))
    | _ => none
  | .handler k result =>
    match s.calls k with
    | .handling mount =>
      match runHandler mount.fsType.mount result with
      | .error e => some (s.setCall k (.returned (.error e)))
      | .ok _ => some (s.setCall k (.adding mount))
    | _ => none
  | .add k =>
    match s.calls k with
    | .adding mount =>
      some { s.setCall k (.returned (.ok ())) with mountPoints := addMount s.mountPoints mount }
    | _ => none
  | .unmount mountPoint result =>
    match vfsUnmount s.mountPoints mountPoint result with
    | .error _ => some s
    | .ok mountPoints => some { s with mountPoints }

inductive Effect (s : System) : Action → System → Prop
  | refused {k fsName mountPoint memory e} (fresh : s.calls k = .fresh)
      (refuses : beginMount registered s.mountPoints fsName mountPoint memory = .error e) :
      Effect s (.enter k fsName mountPoint memory) (s.setCall k (.returned (.error e)))
  | entered {k fsName mountPoint memory mount} (fresh : s.calls k = .fresh)
      (begins : beginMount registered s.mountPoints fsName mountPoint memory = .ok mount) :
      Effect s (.enter k fsName mountPoint memory) (s.setCall k (.handling mount))
  | failed {k result mount e} (handling : s.calls k = .handling mount)
      (fails : runHandler mount.fsType.mount result = .error e) :
      Effect s (.handler k result) (s.setCall k (.returned (.error e)))
  | handled {k result mount} (handling : s.calls k = .handling mount)
      (succeeds : runHandler mount.fsType.mount result = .ok ()) :
      Effect s (.handler k result) (s.setCall k (.adding mount))
  | added {k mount} (adding : s.calls k = .adding mount) :
      Effect s (.add k) { s.setCall k (.returned (.ok ())) with
        mountPoints := addMount s.mountPoints mount }
  | kept {mountPoint result e} (fails : vfsUnmount s.mountPoints mountPoint result = .error e) :
      Effect s (.unmount mountPoint result) s
  | unmounted {mountPoint result mountPoints}
      (removes : vfsUnmount s.mountPoints mountPoint result = .ok mountPoints) :
      Effect s (.unmount mountPoint result) { s with mountPoints }

variable {a : Action} {k : ℕ} {mount : Mount} {u : System}

theorem effect_of_act {s t : System} (h : act registered s a = some t) :
    Effect registered s a t := by
  cases a with
  | enter k fsName mountPoint memory =>
    dsimp only [act] at h
    split at h
    · next hfr =>
      split at h
      · next hbegin =>
        cases h
        exact .refused hfr hbegin
      · next hbegin =>
        cases h
        exact .entered hfr hbegin
    · cases h
  | handler k result =>
    dsimp only [act] at h
    split at h
    · next hk =>
      split at h
      · next hrun =>
        cases h
        exact .failed hk hrun
      · next hrun =>
        cases h
        exact .handled hk hrun
    · cases h
  | add k =>
    dsimp only [act] at h
    split at h
    · next hk =>
      cases h
      exact .added hk
    · cases h
  | unmount mountPoint result =>
    dsimp only [act] at h
    split at h
    · next hunmount =>
      cases h
      exact .kept hunmount
    · next hunmount =>
      cases h
      exact .unmounted hunmount

/-- A call that has looked for its mount point and not yet added it. -/
def Pending (s : System) (k : ℕ) (mount : Mount) : Prop :=
  s.calls k = .handling mount ∨ s.calls k = .adding mount

/-- No call begins while another for the same mount point is pending. -/
def NoRival (s : System) : Action → Prop
  | .enter _ _ mountPoint _ =>
    ∀ j mount, Pending s j mount → mount.mountPoint ≠ vfsNormalizePath mountPoint maxPath
  | _ => True

/-- The mount points in the list are different, and those of the pending calls are different
from them and from each other. -/
structure Unique (s : System) : Prop where
  nodup : (s.mountPoints.map (·.mountPoint)).Nodup
  absent : ∀ k mount, Pending s k mount → ∀ m ∈ s.mountPoints, m.mountPoint ≠ mount.mountPoint
  apart : ∀ j k m n, Pending s j m → Pending s k n → j ≠ k → m.mountPoint ≠ n.mountPoint

/-! ## Uniqueness -/

variable {s t : System} {registered} {result : Except Error Unit} {schedule : List Action}
  {call : Call} {mountPoints : List Mount} {mountPoint : Text} {j : ℕ}

theorem unique_init : Unique System.init := by
  refine ⟨nodup_nil, ?_, ?_⟩
  · rintro k mount (h | h) <;> cases h
  · rintro j k m n (h | h) <;> cases h

theorem pending_setCall (h : Pending (s.setCall k call) j mount) :
    (j = k ∧ (call = .handling mount ∨ call = .adding mount)) ∨ (j ≠ k ∧ Pending s j mount) := by
  by_cases hj : j = k
  · subst hj
    left
    simpa [Pending, System.setCall] using h
  · right
    simpa [Pending, System.setCall, hj] using h

theorem Unique.setCall (h : Unique s)
    (hcall : ∀ mount, call = .handling mount ∨ call = .adding mount → Pending s k mount) :
    Unique (s.setCall k call) := by
  have hpend : ∀ j mount, Pending (s.setCall k call) j mount → Pending s j mount := by
    intro j mount hj
    rcases pending_setCall hj with ⟨rfl, hmount⟩ | ⟨-, hj⟩
    · exact hcall mount hmount
    · exact hj
  refine ⟨h.nodup, ?_, ?_⟩
  · exact fun j mount hj => h.absent j mount (hpend j mount hj)
  · exact fun i j m n hi hj hne => h.apart i j m n (hpend i m hi) (hpend j n hj) hne

theorem Unique.enter (h : Unique s) {fsName : Text} {memory : Bool}
    (hbegin : beginMount registered s.mountPoints fsName mountPoint memory = .ok mount)
    (hrival : NoRival s (.enter k fsName mountPoint memory)) :
    Unique (s.setCall k (.handling mount)) := by
  obtain ⟨hpoint, habsent⟩ := beginMount_mountPoint hbegin
  have hnew : ∀ j m, Pending s j m → m.mountPoint ≠ mount.mountPoint := by
    intro j m hj
    rw [hpoint]
    exact hrival j m hj
  have hself : ∀ m, Call.handling mount = .handling m ∨ Call.handling mount = .adding m →
      m = mount := by
    rintro m (hm | hm) <;> cases hm
    rfl
  refine ⟨h.nodup, ?_, ?_⟩
  · intro j m hj
    rcases pending_setCall hj with ⟨-, hm⟩ | ⟨-, hj⟩
    · rw [hself m hm]
      exact habsent
    · exact h.absent j m hj
  · intro i j m n hi hj hne
    rcases pending_setCall hi with ⟨rfl, hm⟩ | ⟨-, hi⟩
    · rcases pending_setCall hj with ⟨rfl, -⟩ | ⟨-, hj⟩
      · exact absurd rfl hne
      · rw [hself m hm]
        exact (hnew j n hj).symm
    · rcases pending_setCall hj with ⟨-, hn⟩ | ⟨-, hj⟩
      · rw [hself n hn]
        exact hnew i m hi
      · exact h.apart i j m n hi hj hne

theorem Unique.add (h : Unique s) (hk : s.calls k = .adding mount) :
    Unique { s.setCall k (.returned (.ok ())) with
      mountPoints := addMount s.mountPoints mount } := by
  have hpend : Pending s k mount := .inr hk
  have hreturned : Unique (s.setCall k (.returned (.ok ()))) := by
    apply h.setCall
    rintro m (hm | hm) <;> cases hm
  refine ⟨?_, ?_, hreturned.apart⟩
  · unfold addMount
    rw [map_append, map_singleton]
    refine h.nodup.append (nodup_singleton _) ?_
    rw [disjoint_singleton, mem_map]
    rintro ⟨m, hm, heq⟩
    exact h.absent k mount hpend m hm heq
  · intro j m hj m' hm'
    rcases pending_setCall (s := s) hj with ⟨-, hm | hm⟩ | ⟨hne, hj⟩
    · cases hm
    · cases hm
    · rcases mem_append.mp hm' with hm' | hm'
      · exact h.absent j m hj m' hm'
      · rw [mem_singleton.mp hm']
        exact h.apart k j mount m hpend hj hne.symm

theorem Unique.sublist (h : Unique s)
    (hsub : mountPoints.Sublist s.mountPoints) : Unique { s with mountPoints } := by
  refine ⟨h.nodup.sublist (hsub.map _), ?_, h.apart⟩
  exact fun k mount hk m hm => h.absent k mount hk m (hsub.subset hm)

theorem vfsUnmount_sublist {mountPoints' : List Mount} {result : ℤ}
    (h : vfsUnmount mountPoints mountPoint result = .ok mountPoints') :
    mountPoints'.Sublist mountPoints := by
  unfold vfsUnmount at h
  dsimp only at h
  split at h
  · cases h
  · split at h
    · cases h
    · cases h
      exact eraseP_sublist

theorem Unique.effect (h : Unique s) (ha : NoRival s a)
    (heffect : Effect registered s a t) : Unique t := by
  cases heffect with
  | refused fresh refuses =>
    apply h.setCall
    rintro m (hm | hm) <;> cases hm
  | entered fresh begins => exact h.enter begins ha
  | failed handling fails =>
    apply h.setCall
    rintro m (hm | hm) <;> cases hm
  | handled handling succeeds =>
    apply h.setCall
    rintro m (hm | hm) <;> cases hm
    exact .inl handling
  | added adding => exact h.add adding
  | kept fails => exact h
  | unmounted removes => exact h.sublist (vfsUnmount_sublist removes)

/-! ## Calls that fail -/

def Without (k : ℕ) (s u : System) : Prop :=
  u.mountPoints = s.mountPoints ∧ ∀ j, j ≠ k → u.calls j = s.calls j

theorem Without.setCall_self (h : Without k s u) (call : Call) :
    Without k (s.setCall k call) u := by
  refine ⟨h.1, ?_⟩
  intro j hj
  simp [System.setCall, hj, h.2 j hj]

theorem Without.setCall (h : Without k s u) (call : Call) :
    Without k (s.setCall j call) (u.setCall j call) := by
  refine ⟨h.1, ?_⟩
  intro i hi
  by_cases hij : i = j
  · simp [System.setCall, hij]
  · simp [System.setCall, hij, h.2 i hi]

/-- An action of another call does the same in a schedule without the call. -/
theorem Without.other (h : Without k s u) (ha : a.call ≠ some k)
    (heffect : Effect registered s a t) : ∃ v, act registered u a = some v ∧ Without k t v := by
  have hcalls : ∀ j, a.call = some j → u.calls j = s.calls j := by
    intro j hj
    apply h.2
    rintro rfl
    exact ha hj
  cases heffect with
  | refused fresh refuses =>
    refine ⟨_, ?_, h.setCall _⟩
    simp [act, hcalls _ rfl, fresh, h.1, refuses]
  | entered fresh begins =>
    refine ⟨_, ?_, h.setCall _⟩
    simp [act, hcalls _ rfl, fresh, h.1, begins]
  | failed handling fails =>
    refine ⟨_, ?_, h.setCall _⟩
    simp [act, hcalls _ rfl, handling, fails]
  | handled handling succeeds =>
    refine ⟨_, ?_, h.setCall _⟩
    simp [act, hcalls _ rfl, handling, succeeds]
  | @added j mount adding =>
    refine ⟨{ u.setCall j (.returned (.ok ())) with
      mountPoints := addMount u.mountPoints mount }, ?_, ?_, (h.setCall _).2⟩
    · simp [act, hcalls _ rfl, adding]
    · simp [h.1]
  | kept fails =>
    refine ⟨u, ?_, h⟩
    simp [act, h.1, fails]
  | unmounted removes =>
    refine ⟨{ u with mountPoints := _ }, ?_, rfl, h.2⟩
    simp [act, h.1, removes]

theorem returned_effect (hk : s.calls k = .returned result)
    (heffect : Effect registered s a t) : a.call ≠ some k ∧ t.calls k = .returned result := by
  have hother : ∀ (j : ℕ) (call : Call), j ≠ k → (s.setCall j call).calls k = .returned result := by
    intro j call hj
    simp [System.setCall, Ne.symm hj, hk]
  have hne : ∀ (j : ℕ) (call : Call), s.calls j = call → call ≠ .returned result → j ≠ k := by
    rintro j call hj hcall rfl
    exact hcall (hj.symm.trans hk)
  cases heffect with
  | refused fresh _ | entered fresh _ =>
    have := hne _ _ fresh (by simp)
    exact ⟨by simpa [Action.call] using this, hother _ _ this⟩
  | failed handling _ | handled handling _ =>
    have := hne _ _ handling (by simp)
    exact ⟨by simpa [Action.call] using this, hother _ _ this⟩
  | added adding =>
    have := hne _ _ adding (by simp)
    exact ⟨by simpa [Action.call] using this, hother _ _ this⟩
  | kept _ | unmounted _ => exact ⟨by simp [Action.call], hk⟩

/-- An action of the call leaves the list alone, or the call returns successfully. -/
theorem Without.self (h : Without k s u) (ha : a.call = some k)
    (heffect : Effect registered s a t) : Without k t u ∨ t.calls k = .returned (.ok ()) := by
  cases heffect with
  | refused _ _ | entered _ _ | failed _ _ | handled _ _ =>
    cases ha
    exact .inl (h.setCall_self _)
  | added _ =>
    cases ha
    right
    simp [System.setCall]
  | kept _ | unmounted _ => cases ha

theorem returned_run
    (hk : s.calls k = .returned result) (ht : exec (act registered) s schedule = some t) :
    t.calls k = .returned result := by
  induction schedule generalizing s with
  | nil =>
    cases ht
    exact hk
  | cons a schedule ih =>
    rw [exec_cons] at ht
    obtain ⟨m, hm, ht⟩ := Option.bind_eq_some_iff.mp ht
    exact ih (returned_effect hk (effect_of_act registered hm)).2 ht

/-- A schedule with a call that does not succeed, and the one without it. -/
theorem Without.run (h : Without k s u)
    (ht : exec (act registered) s schedule = some t) (hfail : t.calls k ≠ .returned (.ok ())) :
    ∃ v, exec (act registered) u (schedule.filter (·.call ≠ some k)) = some v ∧ Without k t v := by
  induction schedule generalizing s u with
  | nil =>
    cases ht
    exact ⟨u, rfl, h⟩
  | cons a schedule ih =>
    rw [exec_cons] at ht
    obtain ⟨m, hm, ht⟩ := Option.bind_eq_some_iff.mp ht
    have heffect := effect_of_act registered hm
    by_cases ha : a.call = some k
    · rw [filter_cons_of_neg (by simpa using ha)]
      rcases h.self ha heffect with hwithout | hok
      · exact ih hwithout ht
      · exact absurd (returned_run hok ht) hfail
    · obtain ⟨v, hv, hwithout⟩ := h.other ha heffect
      rw [filter_cons_of_pos (by simpa using ha), exec_cons, hv]
      exact ih hwithout ht

end

/-- If no `vfs_mount` begins while another one for its mount point is pending, the mount points stay
unique. A call that fails leaves the list as it would be without it. -/
theorem mount_points_stay_unique (registered : List FsType) (schedule : List Action) :
    (Meets (act registered) NoRival System.init schedule →
        Throughout (act registered) (fun s => (s.mountPoints.map (·.mountPoint)).Nodup)
          System.init schedule) ∧
      ∀ t k e, exec (act registered) System.init schedule = some t →
        t.calls k = .returned (.error e) →
        (exec (act registered) System.init (schedule.filter (·.call ≠ some k))).map
          (·.mountPoints) = some t.mountPoints := by
  constructor
  · intro h
    have hunique : Throughout (act registered) Unique System.init schedule := by
      apply throughout_of_meets (act registered) ?_ unique_init h
      intro s a t hs ha hact
      exact hs.effect ha (effect_of_act registered hact)
    exact hunique.imp (act registered) fun s hs => hs.nodup
  · intro t k e ht hk
    have hself : Without k System.init System.init := ⟨rfl, fun _ _ => rfl⟩
    obtain ⟨v, hv, hwithout⟩ := hself.run ht (by simp [hk])
    rw [hv, Option.map_some, hwithout.1]

/-- Two calls for different mount points, one of which fails in its handler. -/
theorem different_points_stay_unique :
    Throughout (act [⟨[120], true, true⟩]) (fun s => (s.mountPoints.map (·.mountPoint)).Nodup)
      System.init [.enter 0 [120] [97] true, .enter 1 [120] [98] true, .handler 0 0,
        .handler 1 (-1), .add 0] := by
  refine (mount_points_stay_unique _ _).1 ?_
  refine meets_cons _ ?_ rfl (meets_cons _ ?_ rfl
    (meets_cons _ trivial rfl (meets_cons _ trivial rfl (meets_cons _ trivial rfl trivial))))
  · rintro j mount (h | h) <;> cases h
  · intro j mount hj
    have hj : Pending (System.init.setCall 0 (.handling ⟨[slash, 97], ⟨[120], true, true⟩⟩)) j
      mount := hj
    rcases pending_setCall hj with ⟨-, hm | hm⟩ | ⟨-, hm | hm⟩ <;> cases hm
    decide

/-- Two calls for one mount point both pass the test before one adds its mount. -/
theorem same_point_twice : ∃ t, exec (act [⟨[120], true, true⟩]) System.init
        [.enter 0 [120] [97] true, .enter 1 [120] [97] true, .handler 0 0, .handler 1 0,
          .add 0, .add 1] = some t ∧
      ¬ (t.mountPoints.map (·.mountPoint)).Nodup :=
  ⟨_, rfl, by decide⟩

end UintOS.Vfs
