import Mathlib.Tactic

/-!
# Paths as lists of components

A path is a text with a symbol `slash` between its components and a symbol `dot` of which `.` and
`..` are made. `canonical` is the list of components it denotes: empty ones and `.` are left out,
and `..` takes the component before it away. `written` is the text of such a list.
-/

namespace Paths

open List

variable {α : Type*} [DecidableEq α] (slash dot : α)

/-- One more component of a path, behind those resolved. -/
def descend (stack : List (List α)) (c : List α) : List (List α) :=
  if c = [] ∨ c = [dot] then stack
  else if c = [dot, dot] then stack.dropLast
  else stack ++ [c]

def canonical (p : List α) : List (List α) := (p.splitOn slash).foldl (descend dot) []

structure Plain (c : List α) : Prop where
  ne_nil : c ≠ []
  ne_dot : c ≠ [dot]
  ne_dots : c ≠ [dot, dot]
  slash_notMem : slash ∉ c

/-- The components with a slash between them, behind `lead`; the empty list is a slash. -/
def written (lead : List α) (cs : List (List α)) : List α :=
  if cs = [] then [slash] else lead ++ [slash].intercalate cs

/-! ## Splitting -/

theorem splitOn_cons_slash (p : List α) : (slash :: p).splitOn slash = [] :: p.splitOn slash := by
  simp [List.splitOn, splitOnP_cons_eq_if_modifyHead]

theorem splitOn_cons_of_ne {a : α} (ha : a ≠ slash) (p : List α) :
    (a :: p).splitOn slash = (p.splitOn slash).modifyHead (List.cons a) := by
  simp [List.splitOn, splitOnP_cons_eq_if_modifyHead, ha]

variable {c p : List α} {cs : List (List α)}

theorem slash_notMem_of_mem_splitOn (hc : c ∈ p.splitOn slash) : slash ∉ c := by
  induction p generalizing c with
  | nil =>
    rw [splitOn_nil, mem_singleton] at hc
    simp [hc]
  | cons a p ih =>
    by_cases ha : a = slash
    · subst ha
      rw [splitOn_cons_slash, mem_cons] at hc
      rcases hc with rfl | hc
      · simp
      · exact ih hc
    · rw [splitOn_cons_of_ne slash ha] at hc
      cases hs : p.splitOn slash with
      | nil => exact absurd hs (splitOn_ne_nil slash p)
      | cons d ds =>
        rw [hs] at ih hc
        rw [modifyHead_cons, mem_cons] at hc
        rcases hc with rfl | hc
        · have hd := ih mem_cons_self
          simp [hd, Ne.symm ha]
        · exact ih (mem_cons_of_mem d hc)

/-- The first component is the whole path or stands before a slash. -/
theorem eq_or_append_of_head (hc : (p.splitOn slash).head? = some c) :
    p = c ∨ ∃ q, p = c ++ slash :: q := by
  have hp : [slash].intercalate (p.splitOn slash) = p := intercalate_splitOn slash
  cases hs : p.splitOn slash with
  | nil => exact absurd hs (splitOn_ne_nil slash p)
  | cons d ds =>
    rw [hs] at hc hp
    obtain rfl : d = c := by simpa using hc
    by_cases hds : ds = []
    · exact .inl (by simpa [hds] using hp.symm)
    · rw [intercalate_cons_of_ne_nil hds] at hp
      exact .inr ⟨_, by simpa using hp.symm⟩

/-! ## Resolving -/

variable {slash dot} {stack ds : List (List α)} {lead : List α}

theorem Plain.descend_eq (h : Plain slash dot c) (stack : List (List α)) :
    descend dot stack c = stack ++ [c] := by
  simp [descend, h.ne_nil, h.ne_dot, h.ne_dots]

theorem descend_plain (hs : ∀ d ∈ stack, Plain slash dot d)
    (hc : slash ∉ c) : ∀ d ∈ descend dot stack c, Plain slash dot d := by
  intro d hd
  unfold descend at hd
  split_ifs at hd with h1 h2
  · exact hs d hd
  · exact hs d (mem_of_mem_dropLast hd)
  · rcases mem_append.mp hd with hd | hd
    · exact hs d hd
    · rw [mem_singleton] at hd
      subst hd
      exact ⟨fun h => h1 (.inl h), fun h => h1 (.inr h), h2, hc⟩

theorem foldl_descend_plain (hs : ∀ d ∈ stack, Plain slash dot d)
    (hc : ∀ c ∈ cs, slash ∉ c) : ∀ d ∈ cs.foldl (descend dot) stack, Plain slash dot d := by
  induction cs generalizing stack with
  | nil => exact hs
  | cons c cs ih =>
    apply ih (descend_plain hs (hc c mem_cons_self))
    exact fun d hd => hc d (mem_cons_of_mem c hd)

theorem canonical_plain (p : List α) : ∀ c ∈ canonical slash dot p, Plain slash dot c :=
  foldl_descend_plain (by simp) fun _ hc => slash_notMem_of_mem_splitOn slash hc

theorem foldl_descend_of_plain (h : ∀ c ∈ cs, Plain slash dot c)
    (stack : List (List α)) : cs.foldl (descend dot) stack = stack ++ cs := by
  induction cs generalizing stack with
  | nil => simp
  | cons c cs ih =>
    rw [foldl_cons, (h c mem_cons_self).descend_eq, ih fun d hd => h d (mem_cons_of_mem c hd)]
    simp

theorem canonical_append_slash (p q : List α) : canonical slash dot (p ++ slash :: q) =
      (q.splitOn slash).foldl (descend dot) (canonical slash dot p) := by
  rw [canonical, splitOn_append_cons_self, foldl_append]
  rfl

theorem canonical_concat_slash (p : List α) :
    canonical slash dot (p ++ [slash]) = canonical slash dot p := by
  rw [canonical_append_slash]
  simp [descend]

theorem canonical_cons_slash (p : List α) :
    canonical slash dot (slash :: p) = canonical slash dot p := by
  rw [canonical, splitOn_cons_slash]
  simp [descend, canonical]

theorem canonical_intercalate (h : ∀ c ∈ cs, Plain slash dot c) :
    canonical slash dot ([slash].intercalate cs) = cs := by
  by_cases hcs : cs = []
  · subst hcs
    simp [canonical, descend, List.intercalate]
  · rw [canonical, splitOn_intercalate slash (fun c hc => (h c hc).slash_notMem) hcs,
      foldl_descend_of_plain h]
    rfl

theorem canonical_written (hlead : lead = [] ∨ lead = [slash])
    (h : ∀ c ∈ cs, Plain slash dot c) : canonical slash dot (written slash lead cs) = cs := by
  unfold written
  split_ifs with hcs
  · subst hcs
    simp [canonical, splitOn_cons_slash, descend]
  · rcases hlead with rfl | rfl
    · exact canonical_intercalate h
    · rw [singleton_append, canonical_cons_slash, canonical_intercalate h]

/-! ## Writing -/

omit [DecidableEq α] in
theorem intercalate_concat (cs : List (List α)) (c : List α) :
    [slash].intercalate (cs ++ [c]) = cs.flatMap (· ++ [slash]) ++ c := by
  induction cs with
  | nil => simp
  | cons d cs ih =>
    rw [cons_append, intercalate_cons_of_ne_nil (by simp), ih]
    simp

omit [DecidableEq α] in
theorem written_concat (lead : List α) (cs : List (List α)) (c : List α) :
    written slash lead (cs ++ [c]) = lead ++ cs.flatMap (· ++ [slash]) ++ c := by
  unfold written
  rw [if_neg (by simp), intercalate_concat, append_assoc]

omit [DecidableEq α] in
theorem intercalate_append (hcs : cs ≠ []) (hds : ds ≠ []) : [slash].intercalate (cs ++ ds) =
      [slash].intercalate cs ++ slash :: [slash].intercalate ds := by
  obtain ⟨s, c, rfl⟩ := (eq_nil_or_concat' cs).resolve_left hcs
  obtain ⟨t, d, rfl⟩ := (eq_nil_or_concat' ds).resolve_left hds
  rw [← append_assoc, intercalate_concat, intercalate_concat, intercalate_concat]
  simp

/-- A part of a written path that ends with a component is a written path. -/
theorem eq_written_take (hlead : lead = [] ∨ lead = [slash])
    (hcs : ∀ c ∈ cs, slash ∉ c) {m : List α} (hm : m ≠ [])
    (h : written slash lead cs = m ∨ ∃ r, written slash lead cs = m ++ slash :: r) :
    ∃ k, m = written slash lead (cs.take k) ∧ (cs.take k = [] → cs = []) := by
  rcases h with rfl | ⟨r, hr⟩
  · exact ⟨cs.length, by simp, by simp⟩
  · by_cases hne : cs = []
    · subst hne
      have hlen := congrArg List.length hr
      have := length_pos_iff.mpr hm
      simp [written] at hlen
      omega
    · have htake : ∀ q, q ++ slash :: r = [slash].intercalate cs →
          ∃ k, q = [slash].intercalate (cs.take k) ∧ cs.take k ≠ [] := by
        intro q hq
        have hsplit := congrArg (List.splitOn slash) hq
        rw [splitOn_append_cons_self, splitOn_intercalate slash hcs hne] at hsplit
        refine ⟨(q.splitOn slash).length, ?_, ?_⟩
        · rw [← hsplit, take_left, intercalate_splitOn]
        · rw [← hsplit, take_left]
          exact splitOn_ne_nil slash q
      rw [written, if_neg hne] at hr
      rcases hlead with rfl | rfl
      · obtain ⟨k, rfl, hk⟩ := htake m hr.symm
        exact ⟨k, by simp [written, hk], fun h => absurd h hk⟩
      · obtain ⟨a, q, rfl⟩ := exists_cons_of_ne_nil hm
        rw [singleton_append, cons_append, cons.injEq] at hr
        obtain ⟨k, rfl, hk⟩ := htake q hr.2.symm
        exact ⟨k, by simp [written, hk, hr.1], fun h => absurd h hk⟩

omit [DecidableEq α] in
/-- The first components of a path are a part that ends with a component. -/
theorem written_append (lead : List α) (hcs : cs ≠ []) (hds : ds ≠ []) :
    written slash lead (cs ++ ds) = written slash lead cs ++ slash :: [slash].intercalate ds := by
  unfold written
  rw [if_neg (by simp [hcs]), if_neg hcs, intercalate_append hcs hds, append_assoc]

end Paths
