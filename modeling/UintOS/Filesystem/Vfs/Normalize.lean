import UintOS.Filesystem.Vfs.Model

/-!
# What `vfs_normalize_path` writes

As long as the buffer is large enough, the result is the canonical path, written out with
a slash in front exactly if the given path does not begin with one. A path that begins with
a slash always fits; a path that does not may lose its last character.
-/

namespace UintOS.Vfs

open List Paths

abbrev components (path : Text) : List Text := canonical slash dot path

/-- The buffer inside the loop: complete components, and a part of one. -/
def raw (first : Text) (stack : List Text) (cur : Text) : Text :=
  first ++ stack.flatMap (· ++ [slash]) ++ cur

theorem lead_cases (path : Text) : lead path = [] ∨ lead path = [slash] := by
  unfold lead
  split_ifs
  · exact .inl rfl
  · exact .inr rfl

section

variable {first : Text} (hfirst : first = [] ∨ first = [slash]) {stack : List Text}

theorem finish_concat (l : Text) (c : UInt8) :
    finish (l ++ [c]).reverse = if l ≠ [] ∧ c = slash then l else l ++ [c] := by
  simp [finish]

theorem raw_concat (stack : List Text) (c : Text) :
    raw first (stack ++ [c]) [] = raw first stack c ++ [slash] := by
  simp [raw]

theorem raw_dropLast_length (stack : List Text) :
    (raw first stack.dropLast []).length ≤ (raw first stack []).length := by
  rcases eq_nil_or_concat' stack with rfl | ⟨s, c, rfl⟩
  · exact le_rfl
  · rw [dropLast_concat, raw_concat]
    simp [raw]

include hfirst in
theorem finish_raw_nil (hs : ∀ c ∈ stack, Plain slash dot c) :
    finish (raw first stack []).reverse = written slash first stack := by
  rcases eq_nil_or_concat' stack with rfl | ⟨s, c, rfl⟩
  · rcases hfirst with rfl | rfl <;> rfl
  · have hc : c ≠ [] := (hs c (by simp)).ne_nil
    rw [raw_concat, finish_concat, if_pos ⟨by simp [raw, hc], rfl⟩, written_concat]
    rfl

theorem finish_raw {cur : Text} (hne : cur ≠ []) (hslash : slash ∉ cur) :
    finish (raw first stack cur).reverse = written slash first (stack ++ [cur]) := by
  rcases eq_nil_or_concat' cur with rfl | ⟨l, c, rfl⟩
  · exact absurd rfl hne
  · have hc : c ≠ slash := by
      rintro rfl
      simp at hslash
    have hraw : raw first stack (l ++ [c]) = raw first stack l ++ [c] := by simp [raw]
    rw [hraw, finish_concat, if_neg (fun h => hc h.2), written_concat, ← hraw]
    rfl

include hfirst in
/-- What stands before a component is empty or ends with a slash. -/
theorem dropWhile_raw (stack : List Text) :
    (raw first stack []).reverse.dropWhile (· ≠ slash) = (raw first stack []).reverse := by
  rcases eq_nil_or_concat' stack with rfl | ⟨s, c, rfl⟩
  · rcases hfirst with rfl | rfl <;> rfl
  · rw [raw_concat]
    simp

include hfirst in
theorem ascend_raw (hs : ∀ c ∈ stack, Plain slash dot c) :
    ascend (raw first stack []).reverse = (raw first stack.dropLast []).reverse := by
  rcases eq_nil_or_concat' stack with rfl | ⟨s, c, rfl⟩
  · rcases hfirst with rfl | rfl <;> rfl
  · have hplain := hs c (by simp)
    have hraw : (raw first (s ++ [c]) []).reverse =
        slash :: (c.reverse ++ (raw first s []).reverse) := by
      simp [raw]
    have hlen : 1 < (slash :: (c.reverse ++ (raw first s []).reverse)).length := by
      have := length_pos_iff.mpr hplain.ne_nil
      simp
      omega
    have hdrop : ∀ x ∈ c.reverse, decide (x ≠ slash) := by
      intro x hx
      have hne : x ≠ slash := by
        rintro rfl
        exact hplain.slash_notMem (mem_reverse.mp hx)
      simpa using hne
    rw [hraw, ascend, if_pos hlen, tail_cons, dropWhile_append_of_pos hdrop,
      dropWhile_raw hfirst, dropLast_concat]

end

/-! ## The loop -/

section

variable {room : ℕ} {out : Text}

theorem dot_ne_slash : dot ≠ slash := by decide

theorem loop_nil (room : ℕ) (start : Bool) (out : Text) : normalizeLoop room [] start out = out :=
  rfl

theorem loop_cons (room : ℕ) (c : UInt8) (rest : Text) (start : Bool) (out : Text) :
    normalizeLoop room (c :: rest) start out =
      if out.length < room then
        if start ∧ c = slash then normalizeLoop room rest true out
        else if start ∧ c = dot then
          match rest with
          | [] => out
          | d :: rest' =>
            if d = slash then normalizeLoop room rest' true out
            else if d = dot then
              match rest' with
              | [] => ascend out
              | e :: rest'' =>
                if e = slash then normalizeLoop room rest'' true (ascend out)
                else normalizeLoop room (d :: e :: rest'') false (c :: out)
            else normalizeLoop room (d :: rest') false (c :: out)
        else normalizeLoop room rest (c = slash) (c :: out)
      else out := by
  rw [normalizeLoop.eq_def]
  rcases rest with _ | ⟨d, _ | ⟨e, rest⟩⟩ <;> rfl

section

variable (h : out.length < room)
include h

theorem loop_slash (p : Text) :
    normalizeLoop room (slash :: p) true out = normalizeLoop room p true out := by
  rw [loop_cons]
  simp [h]

theorem loop_dot : normalizeLoop room [dot] true out = out := by
  rw [loop_cons]
  simp [h, dot_ne_slash]

theorem loop_dot_slash (p : Text) :
    normalizeLoop room (dot :: slash :: p) true out = normalizeLoop room p true out := by
  rw [loop_cons]
  simp [h, dot_ne_slash]

theorem loop_dots : normalizeLoop room [dot, dot] true out = ascend out := by
  rw [loop_cons]
  simp [h, dot_ne_slash]

theorem loop_dots_slash (p : Text) : normalizeLoop room (dot :: dot :: slash :: p) true out =
      normalizeLoop room p true (ascend out) := by
  rw [loop_cons]
  simp [h, dot_ne_slash]

/-- The first character of a component that stands for itself is copied. -/
theorem loop_copy_first {c : UInt8} {p : Text} (hc : c ≠ slash)
    (hhead : ∀ d ∈ ((c :: p).splitOn slash).head?, d ≠ [dot] ∧ d ≠ [dot, dot]) :
    normalizeLoop room (c :: p) true out = normalizeLoop room p false (c :: out) := by
  by_cases hdot : c = dot
  · subst hdot
    have hsplit := splitOn_cons_of_ne slash hc p
    rw [hsplit] at hhead
    match p with
    | [] => simp at hhead
    | d :: q =>
      by_cases hd : d = slash
      · subst hd
        simp [splitOn_cons_slash] at hhead
      · by_cases hdd : d = dot
        · subst hdd
          rw [splitOn_cons_of_ne slash hd] at hhead
          match q with
          | [] => simp at hhead
          | e :: q =>
            have he : e ≠ slash := by
              rintro rfl
              simp [splitOn_cons_slash] at hhead
            rw [loop_cons]
            simp [h, hc, he]
        · rw [loop_cons]
          simp [h, hc, hd, hdd]
  · rw [loop_cons]
    simp [h, hc, hdot]

theorem loop_copy (c : UInt8) (p : Text) :
    normalizeLoop room (c :: p) false out = normalizeLoop room p (c = slash) (c :: out) := by
  rw [loop_cons]
  simp [h]

end

end

/-- Where a component begins, a slash, a `.` or a `..` is skipped, the latter two with the slash
behind them; the first character of any other component is copied. -/
theorem loop_start (c : UInt8) (p : Text) :
    (∃ q : Text, q.length ≤ p.length ∧ ((∀ room out, out.length < room →
        normalizeLoop room (c :: p) true out = normalizeLoop room q true out) ∨
      ∀ room out, out.length < room →
        normalizeLoop room (c :: p) true out = normalizeLoop room q true (ascend out))) ∨
    c ≠ slash ∧ ∀ room out, out.length < room →
      normalizeLoop room (c :: p) true out = normalizeLoop room p false (c :: out) := by
  by_cases hc : c = slash
  · subst hc
    exact .inl ⟨p, le_rfl, .inl fun room out h => loop_slash h p⟩
  by_cases hplain : ∀ d ∈ ((c :: p).splitOn slash).head?, d ≠ [dot] ∧ d ≠ [dot, dot]
  · exact .inr ⟨hc, fun room out h => loop_copy_first h hc hplain⟩
  left
  push Not at hplain
  obtain ⟨d, hd, hdots⟩ := hplain
  rcases eq_or_append_of_head slash hd with hp | ⟨q, hp⟩
  · refine ⟨[], by simp, ?_⟩
    rw [hp]
    by_cases hdot : d = [dot]
    · exact .inl fun room out h => by rw [hdot, loop_dot h, loop_nil]
    · exact .inr fun room out h => by rw [hdots hdot, loop_dots h, loop_nil]
  · have hlen := congrArg List.length hp
    rw [hp]
    by_cases hdot : d = [dot]
    · subst hdot
      exact ⟨q, by simp at hlen; omega, .inl fun room out h => loop_dot_slash h q⟩
    · obtain rfl : d = [dot, dot] := hdots hdot
      exact ⟨q, by simp at hlen; omega, .inr fun room out h => loop_dots_slash h q⟩

variable {c : UInt8} {room n : ℕ} {first p out path : Text} {stack : List Text}

theorem loop_full {start : Bool} (h : room ≤ out.length) :
    normalizeLoop room p start out = out := by
  cases p with
  | nil => rfl
  | cons c p => rw [loop_cons, if_neg (not_lt.mpr h)]

/-- The rest of a component is copied as far as there is room. -/
theorem loop_component (cur : Text) (hcur : cur ≠ []) (hslash : slash ∉ cur) (hp : slash ∉ p)
    (hroom : (raw first stack cur).length ≤ room) (rest : Text) :
    (raw first stack (cur ++ p)).length ≤ room ∧
        normalizeLoop room (p ++ rest) false (raw first stack cur).reverse =
          normalizeLoop room rest false (raw first stack (cur ++ p)).reverse ∨
      room < (raw first stack (cur ++ p)).length ∧ ∃ c ≠ [], slash ∉ c ∧
        normalizeLoop room (p ++ rest) false (raw first stack cur).reverse =
          (raw first stack c).reverse := by
  induction p generalizing cur with
  | nil => exact .inl (by simpa using hroom)
  | cons c p ih =>
    rw [mem_cons, not_or] at hp
    have hraw : c :: (raw first stack cur).reverse = (raw first stack (cur ++ [c])).reverse := by
      simp [raw]
    by_cases hlt : (raw first stack cur).length < room
    · rw [cons_append, loop_copy (by rwa [length_reverse]), decide_eq_false (Ne.symm hp.1), hraw,
        append_cons cur c p]
      exact ih (cur ++ [c]) (by simp) (by simp [hslash, hp.1]) hp.2 (by simp [raw] at hlt ⊢; omega)
    · refine .inr ⟨?_, cur, hcur, hslash, loop_full (by simpa using hlt)⟩
      simp [raw] at hlt ⊢
      omega

theorem loop_plain {c : Text} (hc : Plain slash dot c) (hroom : (raw first stack []).length < room)
    (rest : Text) (hsplit : ((c ++ rest).splitOn slash).head? = some c) :
    (raw first stack c).length ≤ room ∧
        normalizeLoop room (c ++ rest) true (raw first stack []).reverse =
          normalizeLoop room rest false (raw first stack c).reverse ∨
      room < (raw first stack c).length ∧ ∃ d ≠ [], slash ∉ d ∧
        normalizeLoop room (c ++ rest) true (raw first stack []).reverse =
          (raw first stack d).reverse := by
  obtain ⟨x, p, rfl⟩ := exists_cons_of_ne_nil hc.ne_nil
  obtain ⟨hx, hp⟩ := not_or.mp (mem_cons.not.mp hc.slash_notMem)
  have hraw : x :: (raw first stack []).reverse = (raw first stack [x]).reverse := by simp [raw]
  rw [cons_append] at hsplit ⊢
  rw [loop_copy_first (by rwa [length_reverse]) (Ne.symm hx), hraw]
  · exact loop_component [x] (by simp) (by simpa using hx) hp
      (by simp [raw] at hroom ⊢; omega) rest
  · rw [hsplit]
    rintro d ⟨⟩
    exact ⟨hc.ne_dot, hc.ne_dots⟩

theorem loop_skip {c : Text} (hfirst : first = [] ∨ first = [slash])
    (hs : ∀ c ∈ stack, Plain slash dot c) (hroom : (raw first stack []).length < room)
    (hc : c = [] ∨ c = [dot] ∨ c = [dot, dot]) :
    normalizeLoop room c true (raw first stack []).reverse =
        (raw first (descend dot stack c) []).reverse ∧
      ∀ p, normalizeLoop room (c ++ slash :: p) true (raw first stack []).reverse =
        normalizeLoop room p true (raw first (descend dot stack c) []).reverse := by
  have hout : (raw first stack []).reverse.length < room := by rwa [length_reverse]
  rcases hc with rfl | rfl | rfl
  · exact ⟨rfl, loop_slash hout⟩
  · exact ⟨loop_dot hout, loop_dot_slash hout⟩
  · exact ascend_raw hfirst hs ▸ ⟨loop_dots hout, loop_dots_slash hout⟩

/-- Each directory on the way fits with the slash behind it, and so does the last component. Only
a slash at the end may be missing. -/
def WayFits (room : ℕ) (first : Text) : List Text → List Text → Prop
  | _, [] => True
  | stack, [c] => c = [] ∧ (raw first stack []).length ≤ room + 1 ∨
      (raw first stack []).length < room ∧ (Plain slash dot c → (raw first stack c).length ≤ room)
  | stack, c :: cs => (raw first stack []).length < room ∧
    WayFits room first (descend dot stack c) cs

theorem fits_cons {cs : List Text} (hcs : cs ≠ []) (c : Text) : WayFits room first stack (c :: cs) ↔
    (raw first stack []).length < room ∧ WayFits room first (descend dot stack c) cs := by
  cases cs with
  | nil => exact absurd rfl hcs
  | cons d cs => rfl

theorem WayFits.length_lt {cs : List Text} (h : WayFits room first stack cs) (hne : cs ≠ [])
    (hend : cs ≠ [[]]) : (raw first stack []).length < room := by
  match cs with
  | [] => exact absurd rfl hne
  | [c] => exact (h.resolve_left fun hc => hend (by rw [hc.1])).1
  | _ :: _ :: _ => exact h.1

theorem WayFits.length_le {cs : List Text} (h : WayFits room first stack cs) (hne : cs ≠ []) :
    (raw first stack []).length ≤ room + 1 := by
  by_cases hend : cs = [[]]
  · subst hend
    exact h.elim (fun h => h.2) fun h => by omega
  · have := h.length_lt hne hend
    omega

theorem fits_of_length {cs : List Text}
    (h : (raw first stack []).length + ([slash].intercalate cs).length ≤ room) :
    WayFits room first stack cs := by
  induction cs generalizing stack with
  | nil => trivial
  | cons c cs ih =>
    by_cases hnil : cs = []
    · subst hnil
      rw [intercalate_singleton] at h
      by_cases hc : c = []
      · exact .inl ⟨hc, by omega⟩
      · have := length_pos_iff.mpr hc
        refine .inr ⟨by omega, fun _ => ?_⟩
        simp [raw] at h ⊢
        omega
    · have htext : [slash].intercalate (c :: cs) = c ++ slash :: [slash].intercalate cs := by
        simpa using intercalate_append (cons_ne_nil c []) hnil
      have hle : (raw first (descend dot stack c) []).length ≤
          (raw first stack []).length + c.length + 1 := by
        have : (raw first stack.dropLast []).length ≤ _ := raw_dropLast_length stack
        unfold descend
        split_ifs
        · omega
        · omega
        · simp [raw]
          omega
      rw [htext, length_append, length_cons] at h
      exact (fits_cons hnil c).mpr ⟨by omega, ih (by omega)⟩

theorem written_concat_ne {c : Text} (hc : c ≠ []) (hslash : slash ∉ c) :
    written slash first (stack ++ [c]) ≠ [slash] := by
  obtain ⟨d, x, rfl⟩ := (eq_nil_or_concat' c).resolve_left hc
  rw [written_concat, ← append_assoc]
  intro h
  obtain ⟨-, hx⟩ := append_inj' (h.trans (nil_append [slash]).symm) rfl
  exact hslash (by simp [(cons.inj hx).1])

theorem written_eq_slash_iff (hs : ∀ c ∈ stack, Plain slash dot c) :
    written slash first stack = [slash] ↔ stack = [] := by
  refine ⟨fun h => ?_, fun h => by rw [h]; rfl⟩
  rcases eq_nil_or_concat' stack with rfl | ⟨s, c, rfl⟩
  · rfl
  · have hc := hs c (by simp)
    exact absurd h (written_concat_ne hc.ne_nil hc.slash_notMem)

/-- The components are resolved behind the complete ones if they fit. Otherwise the buffer is full
behind a directory or inside a component, and the result is not the root. -/
theorem finish_loop (hfirst : first = [] ∨ first = [slash]) (hlen : first.length < room)
    {cs : List Text} (hcs : ∀ c ∈ cs, slash ∉ c) (hne : cs ≠ [])
    (hs : ∀ c ∈ stack, Plain slash dot c) :
    let result := finish (normalizeLoop room ([slash].intercalate cs) true
      (raw first stack []).reverse)
    WayFits room first stack cs ∧ result = written slash first (cs.foldl (descend dot) stack) ∨
      ¬ WayFits room first stack cs ∧ result ≠ [slash] := by
  induction cs generalizing stack with
  | nil => exact absurd rfl hne
  | cons c cs ih =>
    dsimp only at ih ⊢
    have hslash := hcs c (by simp)
    have hs' := descend_plain hs hslash
    rw [foldl_cons]
    by_cases hroom : (raw first stack []).length < room
    swap
    · rw [loop_full (by simpa using hroom), finish_raw_nil hfirst hs]
      by_cases hend : c :: cs = [[]] ∧ (raw first stack []).length ≤ room + 1
      · obtain ⟨rfl, rfl⟩ := cons.inj hend.1
        exact .inl ⟨.inl ⟨rfl, hend.2⟩, by simp [descend]⟩
      · have hstack : stack ≠ [] := by
          rintro rfl
          simp [raw, hlen] at hroom
        refine .inr ⟨fun h => ?_, fun h => hstack ((written_eq_slash_iff hs).mp h)⟩
        exact hroom (h.length_lt hne fun heq => hend ⟨heq, h.length_le hne⟩)
    have hsplit : ([slash].intercalate (c :: cs)).splitOn slash = c :: cs :=
      splitOn_intercalate slash hcs (by simp)
    have htext : cs ≠ [] → [slash].intercalate (c :: cs) = c ++ slash :: [slash].intercalate cs :=
      fun h => by simpa using intercalate_append (cons_ne_nil c []) h
    have hnext := fun hnil => ih (fun d hd => hcs d (by simp [hd])) hnil hs'
    by_cases hplain : c = [] ∨ c = [dot] ∨ c = [dot, dot]
    · have hskip := loop_skip hfirst hs hroom hplain
      by_cases hnil : cs = []
      · subst hnil
        rw [intercalate_singleton, hskip.1, finish_raw_nil hfirst hs']
        refine .inl ⟨.inr ⟨hroom, fun h => ?_⟩, rfl⟩
        exact absurd hplain (by simp [h.ne_nil, h.ne_dot, h.ne_dots])
      · rw [htext hnil, hskip.2, fits_cons hnil, and_iff_right hroom]
        exact hnext hnil
    · simp only [not_or] at hplain
      have hc : Plain slash dot c := ⟨hplain.1, hplain.2.1, hplain.2.2, hslash⟩
      rw [hc.descend_eq] at hs' hnext ⊢
      have hcut : ∀ d : Text, d ≠ [] → slash ∉ d → finish (raw first stack d).reverse ≠ [slash] :=
        fun d hd hd' => finish_raw hd hd' ▸ written_concat_ne hd hd'
      by_cases hnil : cs = []
      · subst hnil
        rw [intercalate_singleton] at hsplit ⊢
        have hcopy := loop_plain hc hroom [] (by rw [append_nil, hsplit]; rfl)
        rw [append_nil] at hcopy
        rcases hcopy with ⟨hle, h⟩ | ⟨hlt, d, hd, hd', h⟩
        · rw [h, loop_nil]
          exact .inl ⟨.inr ⟨hroom, fun _ => hle⟩, finish_raw hc.ne_nil hslash⟩
        · rw [h]
          refine .inr ⟨fun hfits => ?_, hcut d hd hd'⟩
          exact absurd ((hfits.resolve_left fun h => hc.ne_nil h.1).2 hc) (not_le.mpr hlt)
      · have hconcat : (raw first (stack ++ [c]) []).length = (raw first stack c).length + 1 := by
          rw [raw_concat, length_append, length_singleton]
        rw [htext hnil] at hsplit ⊢
        rw [fits_cons hnil, and_iff_right hroom, hc.descend_eq]
        rcases loop_plain hc hroom _ (by rw [hsplit]; rfl) with ⟨hle, h⟩ | ⟨hlt, d, hd, hd', h⟩
        · rw [h]
          by_cases hlt : (raw first stack c).length < room
          · have hend : slash :: (raw first stack c).reverse =
                (raw first (stack ++ [c]) []).reverse := by
              simp [raw_concat]
            rw [loop_copy (by rwa [length_reverse]), decide_eq_true rfl, hend]
            exact hnext hnil
          · rw [loop_full (by simpa using hlt)]
            by_cases hend : cs = [[]]
            · subst hend
              refine .inl ⟨.inl ⟨rfl, by omega⟩, ?_⟩
              simpa [descend] using finish_raw hc.ne_nil hslash
            · refine .inr ⟨fun hfits => ?_, hcut c hc.ne_nil hslash⟩
              have := hfits.length_lt hnil hend
              omega
        · rw [h]
          refine .inr ⟨fun hfits => ?_, hcut d hd hd'⟩
          have := hfits.length_le hnil
          omega

theorem normalize_cases_fits (hlen : (lead path).length < room) :
    let result := finish (normalizeLoop room path true (lead path))
    WayFits room (lead path) [] (path.splitOn slash) ∧
        result = written slash (lead path) (components path) ∨
      ¬ WayFits room (lead path) [] (path.splitOn slash) ∧ result ≠ [slash] := by
  have hraw : (raw (lead path) [] []).reverse = lead path := by
    rcases lead_cases path with h | h <;> simp [raw, h]
  have hloop := finish_loop (lead_cases path) hlen
    (fun _ hc => slash_notMem_of_mem_splitOn slash hc) (splitOn_ne_nil slash path)
    fun c (hc : c ∈ ([] : List Text)) => absurd hc not_mem_nil
  rwa [intercalate_splitOn, hraw] at hloop

theorem normalize_of_fits (hlen : (lead path).length < room)
    (hroom : (lead path).length + path.length ≤ room) :
    finish (normalizeLoop room path true (lead path)) =
      written slash (lead path) (components path) := by
  refine ((normalize_cases_fits hlen).resolve_right fun h => h.1 (fits_of_length ?_)).2
  rw [intercalate_splitOn]
  simpa [raw] using hroom

/-! ## A path that does not fit -/

theorem length_ascend_le (out : Text) : (ascend out).length ≤ out.length := by
  unfold ascend
  split_ifs
  · have hsub : (out.tail.dropWhile (· ≠ slash)).Sublist out :=
      (dropWhile_sublist _).trans (tail_sublist out)
    exact hsub.length_le
  · exact le_rfl

/-- A round of the loop skips a part of the path or copies a character, however much room there is.
-/
theorem loop_step (c : UInt8) (p : Text) (start : Bool) (out : Text) :
    (∃ p' out', p'.length ≤ p.length ∧ out'.length ≤ out.length ∧ ∀ room, out.length < room →
      normalizeLoop room (c :: p) start out = normalizeLoop room p' true out') ∨
    ∀ room, out.length < room →
      normalizeLoop room (c :: p) start out = normalizeLoop room p (c = slash) (c :: out) := by
  cases start with
  | false => exact .inr fun room h => loop_copy h c p
  | true =>
    rcases loop_start c p with ⟨q, hq, hloop | hloop⟩ | ⟨hc, hloop⟩
    · exact .inl ⟨q, out, hq, le_rfl, fun room h => hloop room out h⟩
    · exact .inl ⟨q, ascend out, hq, length_ascend_le out, fun room h => hloop room out h⟩
    · right
      intro room h
      rw [hloop room out h, decide_eq_false hc]

theorem loop_room {start : Bool} (hn : p.length ≤ n) (h : out.length + p.length ≤ room) :
    normalizeLoop (room + 1) p start out = normalizeLoop room p start out := by
  induction n generalizing p start out with
  | zero =>
    obtain rfl : p = [] := length_eq_zero_iff.mp (Nat.le_zero.mp hn)
    rw [loop_nil, loop_nil]
  | succ n ih =>
    cases p with
    | nil => rw [loop_nil, loop_nil]
    | cons c p =>
      rw [length_cons] at hn h
      rcases loop_step c p start out with ⟨p', out', hp, hout, hstep⟩ | hstep
      · rw [hstep room (by omega), hstep (room + 1) (by omega)]
        exact ih (by omega) (by omega)
      · rw [hstep room (by omega), hstep (room + 1) (by omega)]
        exact ih (by omega) (by simp; omega)

/-- With one character less room than the path may need, the loop does the same, or it has
copied the path and stops before the last character. -/
theorem loop_cut (h : out.length + p.length ≤ room + 1) :
    normalizeLoop room p (out.head? = some slash) out =
        normalizeLoop (room + 1) p (out.head? = some slash) out ∨
      ∃ q c, p = q ++ [c] ∧ (q.reverse ++ out).length = room ∧
        normalizeLoop room p (out.head? = some slash) out = q.reverse ++ out ∧
        normalizeLoop (room + 1) p (out.head? = some slash) out = normalizeLoop (room + 1) [c]
          ((q.reverse ++ out).head? = some slash) (q.reverse ++ out) := by
  induction p generalizing out with
  | nil =>
    left
    rw [loop_nil, loop_nil]
  | cons c p ih =>
    by_cases hfull : out.length < room
    · rw [length_cons] at h
      rcases loop_step c p (out.head? = some slash) out with ⟨p', out', hp, hout, hstep⟩ | hstep
      · left
        rw [hstep room hfull, hstep (room + 1) (by omega)]
        exact (loop_room le_rfl (by omega)).symm
      · have hstart : decide (c = slash) = decide ((c :: out).head? = some slash) := by simp
        rw [hstep room hfull, hstep (room + 1) (by omega), hstart]
        have hroom : (c :: out).length + p.length ≤ room + 1 := by
          rw [length_cons]
          omega
        rcases ih hroom with heq | ⟨q, d, rfl, hlast, hcut, hnext⟩
        · exact .inl heq
        · refine .inr ⟨c :: q, d, rfl, ?_, ?_, ?_⟩
          · rw [← hlast]
            simp
          · rw [hcut]
            simp
          · rw [hnext]
            simp
    · rw [length_cons] at h
      obtain rfl : p = [] := by
        apply length_eq_zero_iff.mp
        omega
      refine .inr ⟨[], c, rfl, ?_, ?_, rfl⟩
      · simp at h ⊢
        omega
      rw [loop_cons]
      simp [hfull]

theorem components_raw (hfirst : first = [] ∨ first = [slash]) (hs : ∀ c ∈ stack, Plain slash dot c)
    {cur : Text} (hslash : slash ∉ cur) :
    components (raw first stack cur) = descend dot stack cur := by
  have hsplit : cur.splitOn slash = [cur] := by
    apply splitOnP_eq_singleton
    intro x hx
    simpa using fun h : x = slash => hslash (h ▸ hx)
  rcases eq_nil_or_concat' stack with rfl | ⟨s, c, rfl⟩
  · rcases hfirst with rfl | rfl
    · simp [raw, canonical, hsplit]
    · simp [raw, canonical_cons_slash, canonical, hsplit]
  · have hraw : raw first (s ++ [c]) cur = written slash first (s ++ [c]) ++ slash :: cur := by
      rw [written_concat]
      simp [raw]
    rw [hraw, components, canonical_append_slash, canonical_written hfirst hs, hsplit]
    rfl

/-- A text cut off before its last character, which is no slash, denotes something else. -/
theorem components_cut (hfirst : first = [] ∨ first = [slash]) {cs : List Text}
    (hcs : ∀ c ∈ cs, Plain slash dot c) {b : Text} (hc : c ≠ slash)
    (hb : b ++ [c] = written slash first cs) : components b ≠ cs := by
  rcases eq_nil_or_concat' cs with rfl | ⟨s, d, rfl⟩
  · have hroot : b ++ [c] = [] ++ [slash] := hb
    exact absurd (append_inj' hroot rfl).2 (by simpa using hc)
  · have hd := hcs d (by simp)
    obtain rfl | ⟨d, x, rfl⟩ := eq_nil_or_concat' d
    · exact absurd rfl hd.ne_nil
    · rw [written_concat, ← append_assoc] at hb
      obtain rfl : b = raw first s d := (append_inj' hb rfl).1
      have hslash : slash ∉ d := fun h => hd.slash_notMem (by simp [h])
      rw [components_raw hfirst (fun e he => hcs e (by simp [he])) hslash]
      intro heq
      unfold descend at heq
      split_ifs at heq
      · have := congrArg List.length heq
        simp at this
      · have := congrArg List.length heq
        simp at this
      · have hlast := (append_inj' heq rfl).2
        have := congrArg List.length (cons.inj hlast).1
        simp at this

theorem components_finish (out : Text) : components (finish out) = components out.reverse := by
  cases out with
  | nil => rfl
  | cons c out =>
    unfold finish
    dsimp only
    split_ifs with h
    · rw [reverse_cons, h.2]
      exact (canonical_concat_slash out.reverse).symm
    · rfl

/-- The last character of a path makes no difference, or it is added to the buffer. -/
theorem loop_last (hout : out.length < room) (hne : out ≠ []) (c : UInt8) :
    finish (normalizeLoop room [c] (out.head? = some slash) out) = finish out ∨
      c ≠ slash ∧ finish (normalizeLoop room [c] (out.head? = some slash) out) =
        out.reverse ++ [c] := by
  by_cases hstart : out.head? = some slash
  · rw [decide_eq_true hstart]
    by_cases hc : c = slash
    · subst hc
      left
      rw [loop_slash hout, loop_nil]
    · by_cases hdot : c = dot
      · subst hdot
        left
        rw [loop_dot hout]
      · right
        have hhead : ∀ d ∈ ([c].splitOn slash).head?, d ≠ [dot] ∧ d ≠ [dot, dot] := by
          simp [splitOn_cons_of_ne slash hc, hdot]
        rw [loop_copy_first hout hc hhead, loop_nil]
        exact ⟨hc, by simp [finish, hc]⟩
  · rw [decide_eq_false hstart, loop_copy hout, loop_nil]
    by_cases hc : c = slash
    · subst hc
      left
      obtain ⟨d, l, rfl⟩ := exists_cons_of_ne_nil hne
      have hd : d ≠ slash := by simpa using hstart
      simp [finish, hd]
    · right
      exact ⟨hc, by simp [finish, hc]⟩

/-- For a path shorter than its buffer `vfs_normalize_path` writes the canonical path, unless that
is one character too long: then the path itself without its last character. -/
theorem normalize_cases (hlen : path.length < maxPath) :
    vfsNormalizePath path maxPath = written slash (lead path) (components path) ∨
      ∃ q c, c ≠ slash ∧ path = q ++ [c] ∧ path.length + 1 = maxPath ∧ lead path = [slash] ∧
        slash :: path = written slash [slash] (components path) ∧
        vfsNormalizePath path maxPath = finish (slash :: q).reverse := by
  unfold vfsNormalizePath
  rcases lead_cases path with hlead | hlead
  · left
    apply normalize_of_fits
    · rw [hlead]
      decide
    · rw [hlead, length_nil]
      unfold maxPath at *
      omega
  · have hwhole : finish (normalizeLoop 256 path true [slash]) =
        written slash [slash] (components path) := by
      rw [← hlead]
      apply normalize_of_fits
      · rw [hlead]
        decide
      · rw [hlead, length_singleton]
        unfold maxPath at hlen
        omega
    have hlength : [slash].length + path.length ≤ 255 + 1 := by
      rw [length_singleton]
      unfold maxPath at hlen
      omega
    rw [hlead]
    rcases loop_cut hlength with heq | ⟨q, c, hpath, hlast, hcut, hnext⟩
    · left
      rw [← hwhole]
      exact congrArg finish heq
    · change normalizeLoop 255 path true [slash] = q.reverse ++ [slash] at hcut
      change normalizeLoop 256 path true [slash] = _ at hnext
      rw [hnext] at hwhole
      rw [show maxPath - 1 = 255 from rfl, hcut]
      have hout : (q.reverse ++ [slash]).length < 256 := by omega
      rcases loop_last hout (by simp) c with hsame | ⟨hc, hadded⟩
      · left
        rw [← hwhole]
        exact hsame.symm
      · right
        refine ⟨q, c, hc, hpath, ?_, rfl, ?_, by rw [reverse_cons]⟩
        · rw [hpath]
          simp at hlast ⊢
          unfold maxPath
          omega
        · rw [← hwhole, hadded, hpath]
          simp

theorem loop_invariant (P : Bool → Text → Prop) (room : ℕ) (start : Bool) (h : P start out)
    (hascend : ∀ out, P true out → P true (ascend out))
    (hcopy : ∀ start out c, P start out → out.length < room → (start = true → c ≠ slash) →
      P (c = slash) (c :: out)) (hn : p.length ≤ n) :
    ∃ start', P start' (normalizeLoop room p start out) := by
  induction n generalizing p start out with
  | zero =>
    obtain rfl : p = [] := length_eq_zero_iff.mp (Nat.le_zero.mp hn)
    exact ⟨start, by rwa [loop_nil]⟩
  | succ n ih =>
    cases p with
    | nil => exact ⟨start, by rwa [loop_nil]⟩
    | cons c p =>
      rw [length_cons] at hn
      by_cases hroom : out.length < room
      · cases start with
        | false =>
          rw [loop_copy hroom]
          exact ih _ (hcopy false out c h hroom (by simp)) (by omega)
        | true =>
          rcases loop_start c p with ⟨q, hq, hloop | hloop⟩ | ⟨hc, hloop⟩
          · exact hloop room out hroom ▸ ih true h (by omega)
          · exact hloop room out hroom ▸ ih true (hascend out h) (by omega)
          · have hnext := hcopy true out c h hroom fun _ => hc
            rw [decide_eq_false hc] at hnext
            exact hloop room out hroom ▸ ih false hnext (by omega)
      · refine ⟨start, ?_⟩
        rw [loop_cons]
        simpa [hroom] using h

theorem length_loop_le (h : out.length ≤ room) : (normalizeLoop room p true out).length ≤ room := by
  obtain ⟨-, hle⟩ := loop_invariant (fun _ out => out.length ≤ room) room true h
    (fun out h => (length_ascend_le out).trans h) (fun _ _ _ _ hroom _ => hroom) (le_refl p.length)
  exact hle

theorem length_finish_le (out : Text) : (finish out).length ≤ max out.length 1 := by
  unfold finish
  split
  · simp
  · split_ifs <;> simp

theorem finish_ne_nil (out : Text) : finish out ≠ [] := by
  unfold finish
  split
  · simp
  · split_ifs with h
    · simpa using h.1
    · simp

theorem length_normalize_lt (path : Text) : (vfsNormalizePath path maxPath).length < maxPath := by
  have hlead : (lead path).length ≤ maxPath - 1 := by
    rcases lead_cases path with h | h <;> simp [h, maxPath]
  have hloop : (normalizeLoop (maxPath - 1) path true (lead path)).length ≤ maxPath - 1 :=
    length_loop_le hlead
  have hfinish := length_finish_le (normalizeLoop (maxPath - 1) path true (lead path))
  unfold vfsNormalizePath
  unfold maxPath at *
  omega

/-! ## Canonical results -/

theorem loop_head (room : ℕ) (p : Text) : (normalizeLoop room p true []).getLast? ≠ some slash := by
  have hempty : (true = false → ([] : Text) ≠ []) ∧ ([] : Text).getLast? ≠ some slash := by simp
  refine (loop_invariant (fun start out => (start = false → out ≠ []) ∧ out.getLast? ≠ some slash)
    room true hempty ?_ ?_ (le_refl p.length)).elim fun _ h => h.2
  · rintro out ⟨-, h⟩
    refine ⟨by simp, ?_⟩
    unfold ascend
    split_ifs
    · obtain ⟨t, ht⟩ := (dropWhile_suffix (· ≠ slash)).trans (tail_suffix out)
      intro hslash
      apply h
      rw [← ht, getLast?_append, hslash]
      rfl
    · exact h
  · rintro start out c ⟨hstart, h⟩ - hc
    refine ⟨by simp, ?_⟩
    cases out with
    | nil =>
      cases start with
      | false => exact absurd rfl (hstart rfl)
      | true => simpa using hc rfl
    | cons d out => simpa using h

theorem head_finish {out : Text} (h : out.getLast? ≠ some slash) :
    finish out = [slash] ∨ (finish out).head? ≠ some slash := by
  cases out with
  | nil => exact .inl rfl
  | cons c out =>
    right
    simp only [finish]
    split_ifs with hc
    · cases out with
      | nil => exact absurd rfl hc.1
      | cons d out => rwa [head?_reverse, ← getLast?_cons_cons]
    · rwa [head?_reverse]

/-- A normalized path begins with a slash, all its components stand for themselves, they are those
of the path if there is room for them, and they are normalized. -/
structure Canonical (path : Text) (maxLen : ℕ) : Prop where
  rooted : (vfsNormalizePath path maxLen).head? = some slash
  plain : vfsNormalizePath path maxLen = [slash] ∨
    ∀ c ∈ (vfsNormalizePath path maxLen).tail.splitOn slash, Plain slash dot c
  same : (written slash [slash] (components path)).length < maxLen →
    components (vfsNormalizePath path maxLen) = components path
  again : vfsNormalizePath (vfsNormalizePath path maxLen) maxLen = vfsNormalizePath path maxLen

/-- A result other than the root begins with a slash or is normalized, but not both. -/
theorem canonical_iff_root (path : Text) (maxLen : ℕ) :
    Canonical path maxLen ↔ vfsNormalizePath path maxLen = [slash] ∧
      ((written slash [slash] (components path)).length < maxLen → components path = []) := by
  have hroot : components [slash] = [] := by decide
  constructor
  · rintro ⟨hrooted, -, hsame, hagain⟩
    have hres : vfsNormalizePath path maxLen = [slash] := by
      have hlead : lead (vfsNormalizePath path maxLen) = [] := if_pos hrooted
      rw [← hagain, vfsNormalizePath, hlead] at hrooted ⊢
      exact (head_finish (loop_head _ _)).resolve_right (not_not.mpr hrooted)
    rw [hres, hroot] at hsame
    exact ⟨hres, fun h => (hsame h).symm⟩
  · rintro ⟨hres, hsame⟩
    refine ⟨by rw [hres]; rfl, .inl hres, ?_, ?_⟩
    · intro h
      rw [hres, hroot, hsame h]
    · have hloop : normalizeLoop (maxLen - 1) [slash] true [] = [] := by
        rw [loop_cons]
        simp [loop_nil]
      rw [hres]
      exact congrArg finish hloop

/-- No other path than one to the root has a canonical result, but for a buffer of two bytes. -/
theorem normalize_canonical_iff (path : Text) (maxLen : ℕ) (hmax : 2 ≤ maxLen) :
    Canonical path maxLen ↔ maxLen = 2 ∧ path.head? ≠ some slash ∨
      components path = [] ∧ WayFits (maxLen - 1) (lead path) [] (path.splitOn slash) := by
  rw [canonical_iff_root]
  by_cases hlen : (lead path).length < maxLen - 1
  · have hnot : ¬ (maxLen = 2 ∧ path.head? ≠ some slash) := by
      rintro ⟨rfl, hhead⟩
      simp [lead, hhead] at hlen
    rw [vfsNormalizePath, or_iff_right hnot]
    rcases normalize_cases_fits hlen with ⟨hfits, hres⟩ | ⟨hfits, hres⟩
    · rw [hres, written_eq_slash_iff (canonical_plain path), and_iff_left hfits]
      exact ⟨fun h => h.1, fun h => ⟨h, fun _ => h⟩⟩
    · simp [hfits, hres]
  · have hlead : lead path = [slash] := by
      refine (lead_cases path).resolve_left fun h => hlen ?_
      simp only [h, length_nil]
      omega
    have hhead : path.head? ≠ some slash := fun h => by simp [lead, h] at hlead
    rw [hlead, length_singleton] at hlen
    rw [vfsNormalizePath, hlead, loop_full (by simp; omega)]
    refine iff_of_true ⟨rfl, fun h => ?_⟩ (.inl ⟨by omega, hhead⟩)
    rcases eq_nil_or_concat' (components path) with hnil | ⟨s, c, hcs⟩
    · exact hnil
    · have hc := (canonical_plain path c (by rw [← components, hcs]; simp)).ne_nil
      rw [hcs, written_concat] at h
      have := length_pos_iff.mpr hc
      simp at h
      omega

/-- The path `a/..` leads to the root if its directory, `/a/`, leaves room. -/
theorem parent_path_canonical :
    Canonical [97, slash, dot, dot] 5 ∧ ¬ Canonical [97, slash, dot, dot] 4 := by
  have hsplit : [97, slash, dot, dot].splitOn slash = [[97], [dot, dot]] := by decide
  rw [normalize_canonical_iff _ 5 (by decide), normalize_canonical_iff _ 4 (by decide), hsplit]
  refine ⟨.inr ⟨by decide, by decide, .inr ⟨by decide, fun h => absurd rfl h.ne_dots⟩⟩, ?_⟩
  rintro (h | ⟨-, -, h | h⟩)
  · exact absurd h (by decide)
  · exact absurd h.1 (by decide)
  · exact absurd h.1 (by decide)

/-- `/a` is written without its slash. -/
theorem absolute_path_loses_slash :
    vfsNormalizePath [slash, 97] maxPath = [97] ∧ ¬ Canonical [slash, 97] maxPath :=
  ⟨by decide, fun h => absurd h.rooted (by decide)⟩

end UintOS.Vfs
