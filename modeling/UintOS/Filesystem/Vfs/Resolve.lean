import UintOS.Filesystem.Vfs.Normalize

/-!
# Resolving a path

`vfs_find_mount_point` compares texts, and `vfs_normalize_path` gives a path that begins with a
slash a text that does not. So a mount point is found only for paths that are written like it, and
the root only for a path that denotes the root itself.
-/

namespace UintOS.Vfs

open List Paths

/-! ## What a resolution should be -/

def Owns (mount : Mount) (path : Text) : Prop :=
  components mount.mountPoint <+: components path

instance (mount : Mount) (path : Text) : Decidable (Owns mount path) :=
  inferInstanceAs (Decidable (components mount.mountPoint <+: components path))

/-- A mount whose mount point is the longest component-wise prefix of a path. -/
structure Owner (mountPoints : List Mount) (path : Text) (mount : Mount) : Prop where
  mem : mount ∈ mountPoints
  owns : Owns mount path
  longest : ∀ m ∈ mountPoints, Owns m path →
    (components m.mountPoint).length ≤ (components mount.mountPoint).length

/-- The mount found has the longest prefix, and the path relative to it denotes the same path. -/
def Resolves (mountPoints : List Mount) (path : Text) : Prop :=
  match vfsFindMountPoint mountPoints path with
  | none => ∀ m ∈ mountPoints, ¬ Owns m path
  | some mount => Owner mountPoints path mount ∧
      components (mount.mountPoint ++ vfsExtractRelativePath path mount.mountPoint maxPath) =
        components path

/-- The canonical path fits into the buffer, as `vfs_normalize_path` writes it. -/
def Fits (path : Text) : Prop :=
  (written slash (lead path) (components path)).length < maxPath

/-- The text of a mount point is written like that of the path: with a slash in front if the
path has none, and as the root only if the path denotes the root. -/
def WrittenLike (mount : Mount) (path : Text) : Prop :=
  mount.mountPoint = written slash (lead path) (components mount.mountPoint) ∧
    (components mount.mountPoint = [] → components path = [])

/-- The paths that are resolved: nothing is mounted above, or the longest prefix is written like the
path. -/
def Resolvable (mountPoints : List Mount) (path : Text) : Prop :=
  (∀ m ∈ mountPoints, ¬ Owns m path ∧ (¬ Fits path → m.mountPoint ≠ slash :: path.dropLast)) ∨
    Fits path ∧ ∃ mount, Owner mountPoints path mount ∧ WrittenLike mount path

/-! ## The search -/

theorem vfsPathIsPrefix_iff (m n : Text) :
    vfsPathIsPrefix m n = true ↔ n = m ∨ ∃ r, n = m ++ slash :: r := by
  induction m generalizing n with
  | nil =>
    cases n with
    | nil => simp [vfsPathIsPrefix]
    | cons c n => simp [vfsPathIsPrefix]
  | cons p m ih =>
    cases n with
    | nil => simp [vfsPathIsPrefix]
    | cons c n =>
      rw [vfsPathIsPrefix, Bool.and_eq_true, decide_eq_true_iff, ih]
      constructor
      · rintro ⟨rfl, rfl | ⟨r, rfl⟩⟩
        · exact .inl rfl
        · exact .inr ⟨r, rfl⟩
      · rintro (h | ⟨r, h⟩)
        · cases h
          exact ⟨rfl, .inl rfl⟩
        · cases h
          exact ⟨rfl, .inr ⟨r, rfl⟩⟩

/-- The longest mount point that is a prefix of a text, if there is one. -/
def Best (normalized : Text) (mountPoints : List Mount) : Option Mount → Prop
  | none => ∀ m ∈ mountPoints, ¬ vfsPathIsPrefix m.mountPoint normalized
  | some mount => mount ∈ mountPoints ∧ vfsPathIsPrefix mount.mountPoint normalized ∧
      ∀ m ∈ mountPoints, vfsPathIsPrefix m.mountPoint normalized →
        m.mountPoint.length ≤ mount.mountPoint.length

theorem betterMatch_best {normalized : Text} {mountPoints : List Mount} {best : Option Mount}
    (hbest : Best normalized mountPoints best) {m : Mount} (hm : m.mountPoint ≠ []) :
    Best normalized (mountPoints ++ [m]) (betterMatch normalized best m) := by
  have hlen := length_pos_iff.mpr hm
  unfold betterMatch
  split_ifs with h
  · obtain ⟨hlonger, hpre⟩ := h
    refine ⟨by simp, hpre, ?_⟩
    intro m' hm' hpre'
    rcases mem_append.mp hm' with hm' | hm'
    · cases best with
      | none => exact absurd hpre' (hbest m' hm')
      | some b => exact ((hbest.2.2 m' hm' hpre').trans_lt hlonger).le
    · rw [mem_singleton.mp hm']
  · cases best with
    | none =>
      intro m' hm' hpre'
      rcases mem_append.mp hm' with hm' | hm'
      · exact hbest m' hm' hpre'
      · rw [mem_singleton.mp hm'] at hpre'
        exact h ⟨hlen, hpre'⟩
    | some b =>
      refine ⟨mem_append_left _ hbest.1, hbest.2.1, ?_⟩
      intro m' hm' hpre'
      rcases mem_append.mp hm' with hm' | hm'
      · exact hbest.2.2 m' hm' hpre'
      · rw [mem_singleton.mp hm'] at hpre' ⊢
        by_contra hlonger
        exact h ⟨not_le.mp hlonger, hpre'⟩

theorem vfsFindMountPoint_best {mountPoints : List Mount}
    (hne : ∀ m ∈ mountPoints, m.mountPoint ≠ []) (path : Text) :
    Best (vfsNormalizePath path maxPath) mountPoints (vfsFindMountPoint mountPoints path) := by
  unfold vfsFindMountPoint
  induction mountPoints using List.reverseRecOn with
  | nil => simp [Best]
  | append_singleton l m ih =>
    rw [foldl_append, foldl_cons, foldl_nil]
    exact betterMatch_best (ih fun m' hm' => hne m' (by simp [hm'])) (hne m (by simp))

/-- The path relative to a mount point whose text is a prefix, joined with the mount point. -/
theorem components_join {mountPoint path : Text} (hne : mountPoint ≠ [])
    (hpre : vfsPathIsPrefix mountPoint (vfsNormalizePath path maxPath)) :
    components (mountPoint ++ vfsExtractRelativePath path mountPoint maxPath) =
      components (vfsNormalizePath path maxPath) := by
  have hlen := length_normalize_lt path
  unfold vfsExtractRelativePath
  generalize vfsNormalizePath path maxPath = n at *
  rcases (vfsPathIsPrefix_iff mountPoint n).mp hpre with rfl | ⟨r, rfl⟩
  · rw [drop_length]
    exact canonical_concat_slash n
  · rw [drop_left]
    have htake : vfsCopyPath r (maxPath - 1) = r := by
      apply take_of_length_le
      rw [length_append, length_cons] at hlen
      omega
    simp [htake]

/-! ## Texts and components -/

theorem components_normalize {path : Text}
    (h : vfsNormalizePath path maxPath = written slash (lead path) (components path)) :
    components (vfsNormalizePath path maxPath) = components path := by
  rw [h]
  exact canonical_written (lead_cases path) (canonical_plain path)

/-- A mount point whose text is a prefix of a canonical path is written like it. -/
theorem components_of_matches {mount : Mount} {first : Text} {cs : List Text}
    (hfirst : first = [] ∨ first = [slash]) (hcs : ∀ c ∈ cs, Plain slash dot c)
    (hne : mount.mountPoint ≠ [])
    (hpre : vfsPathIsPrefix mount.mountPoint (written slash first cs)) :
    ∃ k, components mount.mountPoint = cs.take k ∧
      mount.mountPoint = written slash first (cs.take k) ∧ (cs.take k = [] → cs = []) := by
  obtain ⟨k, hk, hroot⟩ := eq_written_take hfirst (fun c hc => (hcs c hc).slash_notMem) hne
    ((vfsPathIsPrefix_iff _ _).mp hpre)
  refine ⟨k, ?_, hk, hroot⟩
  rw [hk]
  exact canonical_written hfirst fun c hc => hcs c (mem_of_mem_take hc)

/-- A mount point that is written like a path that it owns is a prefix of its text. -/
theorem matches_of_owns {mount : Mount} {path : Text} (howns : Owns mount path)
    (hlike : WrittenLike mount path) :
    vfsPathIsPrefix mount.mountPoint (written slash (lead path) (components path)) := by
  obtain ⟨ds, hds⟩ := howns
  rw [vfsPathIsPrefix_iff, hlike.1, ← hds]
  generalize hcs : components mount.mountPoint = cs at *
  by_cases hnil : ds = []
  · left
    rw [hnil, append_nil]
  · right
    have hne : cs ≠ [] := by
      intro h
      have := hlike.2 (hcs.trans h)
      rw [← hds, h] at this
      exact hnil this
    exact ⟨_, written_append _ hne hnil⟩

/-- Of two mount points that are written like a path that they own, the one with more
components has the longer text. -/
theorem length_lt_of_owns {m n : Mount} {path : Text} (hm : Owns m path) (hn : Owns n path)
    (hmlike : WrittenLike m path) (hnlike : WrittenLike n path)
    (hlen : (components m.mountPoint).length < (components n.mountPoint).length) :
    m.mountPoint.length < n.mountPoint.length := by
  obtain ⟨ds, hds⟩ := prefix_of_prefix_length_le hm hn hlen.le
  have hne : components m.mountPoint ≠ [] := by
    intro h
    have hroot := hmlike.2 h
    rw [Owns, hroot, prefix_nil] at hn
    rw [hn] at hlen
    simp at hlen
  have hdsne : ds ≠ [] := by
    rintro rfl
    rw [append_nil] at hds
    rw [hds] at hlen
    exact lt_irrefl _ hlen
  rw [hmlike.1, hnlike.1, ← hds, written_append _ hne hdsne, length_append]
  simp

/-! ## A path that is cut -/

section

variable {path q : Text} {c : UInt8} (hc : c ≠ slash) (hpath : path = q ++ [c])
  (hwritten : slash :: path = written slash [slash] (components path))

include hc hpath hwritten

theorem cut_shape : ∃ s d, components path = s ++ [d ++ [c]] ∧ slash :: q = raw [slash] s d ∧
    (∀ e ∈ s, Plain slash dot e) ∧ slash ∉ d := by
  have hb : slash :: q ++ [c] = written slash [slash] (components path) := by
    rw [← hwritten, hpath]
    rfl
  rcases eq_nil_or_concat' (components path) with hnil | ⟨s, e, hcs⟩
  · rw [hnil] at hb
    have hroot : (slash :: q) ++ [c] = [] ++ [slash] := hb
    exact absurd (append_inj' hroot rfl).2 (by simpa using hc)
  · have hplain : Plain slash dot e := canonical_plain path e (by simp [hcs])
    obtain ⟨d, x, rfl⟩ := (eq_nil_or_concat' e).resolve_left hplain.ne_nil
    rw [hcs, written_concat, ← append_assoc] at hb
    obtain ⟨hq, hx⟩ := append_inj' hb rfl
    cases hx
    refine ⟨s, d, hcs, hq, fun e he => canonical_plain path e (by simp [hcs, he]), fun h => ?_⟩
    exact hplain.slash_notMem (by simp [h])

theorem owns_or_eq_of_matches {mount : Mount} (hne : mount.mountPoint ≠ [])
    (hpre : vfsPathIsPrefix mount.mountPoint (finish (slash :: q).reverse)) :
    Owns mount path ∨ mount.mountPoint = slash :: q := by
  obtain ⟨s, d, hcs, hq, hplain, hslash⟩ := cut_shape hc hpath hwritten
  have howns : ∀ k, mount.mountPoint = written slash [slash] (s.take k) → Owns mount path := by
    intro k hk
    have hcomp : components mount.mountPoint = s.take k := by
      rw [hk]
      exact canonical_written (.inr rfl) fun e he => hplain e (mem_of_mem_take he)
    rw [Owns, hcomp, hcs]
    exact (List.take_prefix k s).trans (prefix_append s _)
  rw [hq] at hpre
  by_cases hd : d = []
  · left
    subst hd
    rw [finish_raw_nil (.inr rfl) hplain] at hpre
    obtain ⟨k, -, hk, -⟩ := components_of_matches (.inr rfl) hplain hne hpre
    exact howns k hk
  · rw [finish_raw hd hslash] at hpre
    have hsd : ∀ e ∈ s ++ [d], slash ∉ e := by
      intro e he
      rcases mem_append.mp he with he | he
      · exact (hplain e he).slash_notMem
      · rw [mem_singleton.mp he]
        exact hslash
    obtain ⟨k, hk, -⟩ := eq_written_take (.inr rfl) hsd hne ((vfsPathIsPrefix_iff _ _).mp hpre)
    by_cases hle : k ≤ s.length
    · left
      rw [take_append_of_le_length hle] at hk
      exact howns k hk
    · right
      have hall : (s ++ [d]).take k = s ++ [d] := by
        simp
        omega
      rw [hk, hall, written_concat, hq]
      rfl

theorem owns_or_matches_of_eq {mount : Mount} (heq : mount.mountPoint = slash :: q) :
    Owns mount path ∨ vfsPathIsPrefix mount.mountPoint (finish (slash :: q).reverse) := by
  obtain ⟨s, d, hcs, hq, hplain, hslash⟩ := cut_shape hc hpath hwritten
  by_cases hd : d = []
  · left
    subst hd
    rw [Owns, heq, hq, components_raw (.inr rfl) hplain (by simp), hcs]
    simp [descend]
  · right
    rw [vfsPathIsPrefix_iff, heq, hq, finish_raw hd hslash, written_concat]
    exact .inl rfl

theorem components_cut_ne : components (finish (slash :: q).reverse) ≠ components path := by
  rw [components_finish, reverse_reverse]
  apply components_cut (.inr rfl) (canonical_plain path) hc
  rw [← hwritten, hpath]
  rfl

end

/-! ## Which paths are resolved -/

section

variable {mountPoints : List Mount} (hne : ∀ m ∈ mountPoints, m.mountPoint ≠ []) {path : Text}

include hne

theorem resolves_iff_of_eq
    (hnorm : vfsNormalizePath path maxPath = written slash (lead path) (components path)) :
    Resolves mountPoints path ↔ Resolvable mountPoints path := by
  have hfits : Fits path := by
    rw [Fits, ← hnorm]
    exact length_normalize_lt path
  have hbest := vfsFindMountPoint_best hne path
  unfold Resolves
  rw [hnorm] at hbest
  cases hfind : vfsFindMountPoint mountPoints path with
  | none =>
    rw [hfind] at hbest
    constructor
    · exact fun h => .inl fun m hm => ⟨h m hm, fun hnot => absurd hfits hnot⟩
    · rintro (h | ⟨-, mount, howner, hlike⟩)
      · exact fun m hm => (h m hm).1
      · exact absurd (matches_of_owns howner.owns hlike) (hbest mount howner.mem)
  | some mount =>
    rw [hfind] at hbest
    obtain ⟨hmem, hpre, hlongest⟩ := hbest
    obtain ⟨k, hcomp, htext, hroot⟩ := components_of_matches (lead_cases path)
      (canonical_plain path) (hne mount hmem) hpre
    have howns : Owns mount path := by
      rw [Owns, hcomp]
      exact take_prefix k _
    have hlike : WrittenLike mount path := ⟨by rw [hcomp, ← htext], fun h => hroot (hcomp ▸ h)⟩
    constructor
    · exact fun h => .inr ⟨hfits, mount, h.1, hlike⟩
    · rintro (h | ⟨-, best, howner, hlike'⟩)
      · exact absurd howns (h mount hmem).1
      · refine ⟨⟨hmem, howns, ?_⟩, ?_⟩
        · intro m hm hm'
          apply (howner.longest m hm hm').trans
          by_contra hlt
          have hlonger := length_lt_of_owns howns howner.owns hlike hlike' (not_le.mp hlt)
          have := hlongest best howner.mem (matches_of_owns howner.owns hlike')
          omega
        · rw [← hnorm] at hpre
          rw [components_join (hne mount hmem) hpre]
          exact components_normalize hnorm

theorem resolves_iff_of_cut {q : Text} {c : UInt8} (hc : c ≠ slash) (hpath : path = q ++ [c])
    (hlen : path.length + 1 = maxPath) (hlead : lead path = [slash])
    (hwritten : slash :: path = written slash [slash] (components path))
    (hnorm : vfsNormalizePath path maxPath = finish (slash :: q).reverse) :
    Resolves mountPoints path ↔ Resolvable mountPoints path := by
  have hfits : ¬ Fits path := by
    rw [Fits, hlead, ← hwritten, length_cons, hlen]
    exact lt_irrefl _
  have hq : path.dropLast = q := by rw [hpath, dropLast_concat]
  have hbest := vfsFindMountPoint_best hne path
  unfold Resolves Resolvable
  rw [hq]
  cases hfind : vfsFindMountPoint mountPoints path with
  | none =>
    rw [hfind, hnorm] at hbest
    constructor
    · intro h
      left
      intro m hm
      refine ⟨h m hm, fun _ heq => ?_⟩
      rcases owns_or_matches_of_eq hc hpath hwritten heq with howns | hpre
      · exact h m hm howns
      · exact hbest m hm hpre
    · rintro (h | ⟨hfits', -⟩)
      · exact fun m hm => (h m hm).1
      · exact absurd hfits' hfits
  | some mount =>
    rw [hfind] at hbest
    obtain ⟨hmem, hpre, -⟩ := hbest
    constructor
    · rintro ⟨-, hjoin⟩
      rw [components_join (hne mount hmem) hpre, hnorm] at hjoin
      exact absurd hjoin (components_cut_ne hc hpath hwritten)
    · rintro (h | ⟨hfits', -⟩)
      · rw [hnorm] at hpre
        rcases owns_or_eq_of_matches hc hpath hwritten (hne mount hmem) hpre with howns | heq
        · exact absurd howns (h mount hmem).1
        · exact absurd heq ((h mount hmem).2 hfits)
      · exact absurd hfits' hfits

end

/-! ## Tables that `vfs_mount` builds -/

/-- The arguments of a call of `vfs_mount`, whether there is memory, and what the handler of
the file system returns. -/
structure MountCall where
  fsName : Text
  mountPoint : Text
  memory : Bool
  result : ℤ

variable (registered : List FsType)

def afterMount (mountPoints : List Mount) (call : MountCall) : List Mount :=
  match vfsMount registered mountPoints call.fsName call.mountPoint call.memory call.result with
  | .error _ => mountPoints
  | .ok mountPoints' => mountPoints'

def mountTable (calls : List MountCall) : List Mount :=
  calls.foldl (afterMount registered) []

theorem beginMount_mountPoint {registered : List FsType} {mountPoints : List Mount}
    {fsName mountPoint : Text} {memory : Bool} {mount : Mount}
    (h : beginMount registered mountPoints fsName mountPoint memory = .ok mount) :
    mount.mountPoint = vfsNormalizePath mountPoint maxPath ∧
      ∀ m ∈ mountPoints, m.mountPoint ≠ mount.mountPoint := by
  have hcopy : vfsCopyPath (vfsNormalizePath mountPoint maxPath) maxPath =
      vfsNormalizePath mountPoint maxPath := by
    have := length_normalize_lt mountPoint
    exact take_of_length_le (by omega)
  unfold beginMount at h
  split at h
  · cases h
  · dsimp only at h
    split_ifs at h with hany
    cases h
    rw [hcopy]
    refine ⟨rfl, fun m hm heq => hany ?_⟩
    exact any_eq_true.mpr ⟨m, hm, decide_eq_true heq⟩

theorem mountTable_ne_nil (calls : List MountCall) :
    ∀ m ∈ mountTable registered calls, m.mountPoint ≠ [] := by
  unfold mountTable
  induction calls using List.reverseRecOn with
  | nil => simp
  | append_singleton calls call ih =>
    rw [foldl_append, foldl_cons, foldl_nil]
    generalize calls.foldl (afterMount registered) [] = table at *
    unfold afterMount vfsMount
    cases hbegin : beginMount registered table call.fsName call.mountPoint call.memory with
    | error e => exact ih
    | ok mount =>
      dsimp only
      cases runHandler mount.fsType.mount call.result with
      | error e => exact ih
      | ok u =>
        intro m hm
        rcases mem_append.mp hm with hm | hm
        · exact ih m hm
        · rw [mem_singleton.mp hm, (beginMount_mountPoint hbegin).1]
          exact finish_ne_nil _

/-- Over every table that `vfs_mount` builds, a path is resolved exactly if nothing is
mounted above it, or the longest prefix is written like the path. -/
theorem resolves_iff_resolvable (registered : List FsType) (calls : List MountCall) (path : Text)
    (hlen : path.length < maxPath) :
    Resolves (mountTable registered calls) path ↔
      Resolvable (mountTable registered calls) path := by
  have hne := mountTable_ne_nil registered calls
  rcases normalize_cases hlen with hnorm | ⟨q, c, hc, hpath, hlen', hlead, hwritten, hnorm⟩
  · exact resolves_iff_of_eq hne hnorm
  · exact resolves_iff_of_cut hne hc hpath hlen' hlead hwritten hnorm

/-- With something mounted on `a`, the path `a/b` is resolved. -/
theorem relative_path_resolves : ([97, slash, 98] : Text).length < maxPath ∧
      Resolves (mountTable [⟨[120], false, false⟩] [⟨[120], [97], true, 0⟩]) [97, slash, 98] := by
  refine ⟨by decide, ?_⟩
  apply (resolves_iff_resolvable _ _ _ (by decide)).mpr
  refine .inr ⟨by unfold Fits; decide, ⟨[slash, 97], ⟨[120], false, false⟩⟩, ?_, ?_⟩
  · exact ⟨by decide, by decide, by decide⟩
  · exact ⟨by decide, by decide⟩

/-- The file system on the root is not found for `/a`. -/
theorem root_is_not_found : ([slash, 97] : Text).length < maxPath ∧
      ¬ Resolves (mountTable [⟨[120], false, false⟩] [⟨[120], [slash], true, 0⟩]) [slash, 97] := by
  refine ⟨by decide, ?_⟩
  have hfind : vfsFindMountPoint
      (mountTable [⟨[120], false, false⟩] [⟨[120], [slash], true, 0⟩]) [slash, 97] = none := by
    decide
  unfold Resolves
  intro h
  exact h ⟨[slash], ⟨[120], false, false⟩⟩ (by decide) (by decide)

/-- After a successful `vfs_mount` and any mounts behind it, `vfs_unmount` of the path, however it
is written, takes out that mount only. -/
theorem unmount_undoes_mount {registered : List FsType} {table table' : List Mount}
    {fsName path path' : Text} {memory : Bool} {result : ℤ}
    (h : vfsMount registered table fsName path memory result = .ok table')
    (hpath : vfsNormalizePath path' maxPath = vfsNormalizePath path maxPath) (later : List Mount) :
    vfsUnmount (table' ++ later) path' 0 = .ok (table ++ later) := by
  unfold vfsMount at h
  cases hbegin : beginMount registered table fsName path memory with
  | error e => simp [hbegin] at h
  | ok mount =>
    obtain ⟨hpoint, habsent⟩ := beginMount_mountPoint hbegin
    cases hrun : runHandler mount.fsType.mount result with
    | error e => simp [hbegin, hrun] at h
    | ok u =>
      simp only [hbegin, hrun] at h
      cases h
      have hnone : table.find? (·.mountPoint = mount.mountPoint) = none := by simpa using habsent
      simp only [vfsUnmount, hpath, ← hpoint, addMount, append_assoc, find?_append, hnone]
      rw [eraseP_append_right _ (by simpa using habsent)]
      simp [runHandler]

theorem mount_of_a_undone :
    vfsUnmount [⟨[slash, 97], ⟨[120], true, true⟩⟩, ⟨[slash], ⟨[120], true, true⟩⟩]
      [46, slash, 97] 0 = .ok [⟨[slash], ⟨[120], true, true⟩⟩] := by
  have h : vfsMount [⟨[120], true, true⟩] [] [120] [97] true 0 =
      .ok [⟨[slash, 97], ⟨[120], true, true⟩⟩] := by
    decide
  exact unmount_undoes_mount h (by decide) [_]

end UintOS.Vfs
