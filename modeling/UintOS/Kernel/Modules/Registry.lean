import UintOS.Library.Runs
import UintOS.Library.SlotTable

/-!
# The registered modules

`module_register`, `module_unregister`, `module_enable`, `module_disable` and
`module_check_dependencies` of `module.c`. A module is a record of the caller, known by its address;
the results of its callbacks are part of a request.

Dependencies are checked at the registration. They stay satisfied as long as no module goes away
that a loaded one depends on, and none is enabled whose dependencies went away while it was
disabled. A module whose initialisation fails stays in the table, although its registration returns
an error.
-/

namespace UintOS.Modules

open Function Runs SlotTable

abbrev maxModules : ℕ := 64

/-- `MODULE_STATUS_*`. -/
def statusUnloaded : UInt8 := 0
def statusLoaded : UInt8 := 1
def statusError : UInt8 := 2
def statusDisabled : UInt8 := 3

def flagEssential : UInt32 := 4

inductive Code
  | none
  | invalid
  | notFound
  | duplicate
  | dependency
  | permission
  | memory
  | init
  | callback (result : ℤ)
deriving DecidableEq, Repr

structure Dependency where
  name : String
  minVersion : UInt32
  maxVersion : UInt32
deriving DecidableEq, Repr

/-- `module_t`; of a callback it is known whether there is one. -/
structure Module where
  name : String
  version : UInt32
  id : UInt32
  flags : UInt32
  status : UInt8
  init : Bool
  start : Bool
  dependencies : List Dependency
deriving DecidableEq, Repr

def Module.essential (m : Module) : Bool := m.flags &&& flagEssential != 0

/-- The table, the records of all modules, and whether every failed `module_register` left the table
as it was. -/
structure System where
  modules : Fin maxModules → Option ℕ
  numModules : ℕ
  nextModuleId : UInt32
  record : ℕ → Module
  kept : Bool

variable (record : ℕ → Module)

def System.init : System := ⟨fun _ => none, 0, 1, record, true⟩

variable (s : System) (p : ℕ)

def System.setRecord (m : Module) : System :=
  { s with record := update s.record p m }

def System.setStatus (status : UInt8) : System :=
  s.setRecord p { s.record p with status }

def moduleFindByName (name : String) : Option ℕ :=
  find s.modules fun p => (s.record p).name = name

variable (d : Dependency)

/-- What `module_check_dependencies` asks of the module that it found. -/
def Dependency.accepts (m : Module) : Bool :=
  !(d.minVersion > 0 && m.version < d.minVersion) &&
    !(d.maxVersion > 0 && m.version > d.maxVersion) &&
    (m.status == statusLoaded || m.status == statusDisabled)

def moduleCheckDependencies : Bool :=
  (s.record p).dependencies.all fun d =>
    match moduleFindByName s d.name with
    | none => false
    | some q => d.accepts (s.record q)

def assignId : System :=
  if (s.record p).id = 0 then
    { s.setRecord p { s.record p with id := s.nextModuleId } with
      nextModuleId := s.nextModuleId + 1 }
  else s

def place (i : Fin maxModules) (p : ℕ) : System :=
  let s := { s with modules := update s.modules i (some p), numModules := s.numModules + 1 }
  if (s.record p).status = 0 then s.setStatus p statusLoaded else s

variable (module : Option ℕ)

/-- `module_register`; `initResult` is the result of `init`. The result of `start` is only logged.
-/
def moduleRegister (initResult : ℤ) : Code × System :=
  match module with
  | none => (.invalid, s)
  | some p =>
    if s.numModules ≥ maxModules then (.memory, s)
    else if (moduleFindByName s (s.record p).name).isSome then (.duplicate, s)
    else
      let s := assignId s p
      if !moduleCheckDependencies s p then (.dependency, s)
      else
        match firstFree s.modules with
        | none => (.memory, s)
        | some i =>
          let s := place s i p
          if (s.record p).init && initResult != 0 then (.init, s.setStatus p statusError)
          else (.none, s)

/-- `module_unregister`. The results of the callbacks are only logged. -/
def moduleUnregister : Code × System :=
  match module with
  | none => (.invalid, s)
  | some p =>
    if (s.record p).essential then (.permission, s)
    else
      match slotOf s.modules p with
      | none => (.notFound, s)
      | some i =>
        (.none, { s.setRecord p
          { s.record p with dependencies := [], status := statusUnloaded } with
          modules := update s.modules i none
          numModules := s.numModules - 1 })

/-- `module_enable`; `startResult` is the result of `start`. -/
def moduleEnable (startResult : ℤ) : Code × System :=
  match module with
  | none => (.invalid, s)
  | some p =>
    if (s.record p).status = statusLoaded then (.none, s)
    else if (s.record p).status ≠ statusDisabled then (.invalid, s)
    else if (s.record p).start && startResult != 0 then (.callback startResult, s)
    else (.none, s.setStatus p statusLoaded)

/-- `module_disable`. The result of `stop` is only logged. -/
def moduleDisable : Code × System :=
  match module with
  | none => (.invalid, s)
  | some p =>
    if (s.record p).status = statusDisabled then (.none, s)
    else if (s.record p).status ≠ statusLoaded then (.invalid, s)
    else if (s.record p).essential then (.permission, s)
    else (.none, s.setStatus p statusDisabled)

inductive Request
  | register (module : Option ℕ) (initResult : ℤ)
  | unregister (module : Option ℕ)
  | enable (module : Option ℕ) (startResult : ℤ)
  | disable (module : Option ℕ)
deriving DecidableEq, Repr

def step : Request → Option System
  | .register module initResult =>
    let r := moduleRegister s module initResult
    some { r.2 with kept := s.kept && (r.1 = .none || r.2.modules = s.modules) }
  | .unregister module => some (moduleUnregister s module).2
  | .enable module startResult => some (moduleEnable s module startResult).2
  | .disable module => some (moduleDisable s module).2

/-! ## Dependencies -/

def System.Provides : Prop :=
  ∃ q, Mem s.modules q ∧ (s.record q).name = d.name ∧ (d.minVersion ≤ (s.record q).version ∧
      (d.maxVersion = 0 ∨ (s.record q).version ≤ d.maxVersion)) ∧
    ((s.record q).status = statusLoaded ∨ (s.record q).status = statusDisabled)

instance : Decidable (s.Provides d) :=
  inferInstanceAs (Decidable (∃ q, Mem s.modules q ∧ _))

structure Consistent (s : System) : Prop where
  names : Distinct (fun p => (s.record p).name) s.modules
  count : s.numModules = used s.modules
  kept : s.kept = true
  provided : ∀ p, Mem s.modules p → (s.record p).status = statusLoaded →
    ∀ d ∈ (s.record p).dependencies, s.Provides d

/-- An initialisation that is called succeeds; a registered module that is not essential is
unregistered only when no other loaded module depends on its name; a disabled one is enabled only
when its dependencies are satisfied. -/
def Careful : Request → Prop
  | .register (some p) initResult => (s.record p).init = true → initResult = 0
  | .unregister (some p) => Mem s.modules p → (s.record p).essential = false →
    ∀ q, Mem s.modules q → q ≠ p → (s.record q).status = statusLoaded →
      ∀ d ∈ (s.record q).dependencies, d.name ≠ (s.record p).name
  | .enable (some p) _ => Mem s.modules p → (s.record p).status = statusDisabled →
    moduleCheckDependencies s p = true
  | _ => True

instance : (r : Request) → Decidable (Careful s r)
  | .register (some _) _ => inferInstanceAs (Decidable (_ → _))
  | .unregister (some _) => inferInstanceAs (Decidable (_ → _ → ∀ q, Mem _ q → _ → _ → ∀ d ∈ _, _))
  | .enable (some _) _ => inferInstanceAs (Decidable (_ → _ → _))
  | .register none _ | .unregister none | .enable none _ | .disable _ => isTrue trivial

def Module.Usable (m : Module) : Prop := m.status = statusLoaded ∨ m.status = statusDisabled

/-- What is asked of a module that is found is what a dependency declares. -/
theorem accepts_iff {d : Dependency} {m : Module} : d.accepts m = true ↔
    (d.minVersion ≤ m.version ∧ (d.maxVersion = 0 ∨ m.version ≤ d.maxVersion)) ∧ m.Usable := by
  have hmin : ¬ (0 < d.minVersion ∧ m.version < d.minVersion) ↔ d.minVersion ≤ m.version := by
    simp only [UInt32.lt_iff_toNat_lt, UInt32.le_iff_toNat_le, UInt32.toNat_zero]
    omega
  have hmax : ¬ (0 < d.maxVersion ∧ d.maxVersion < m.version) ↔
      d.maxVersion = 0 ∨ m.version ≤ d.maxVersion := by
    simp only [UInt32.lt_iff_toNat_lt, UInt32.le_iff_toNat_le, ← UInt32.toNat_inj,
      UInt32.toNat_zero]
    omega
  simp only [Dependency.accepts, Bool.and_eq_true, Bool.not_eq_true', ← Bool.not_eq_true,
    decide_eq_true_eq, gt_iff_lt, Bool.or_eq_true, beq_iff_eq, hmin, hmax, Module.Usable]

section Dependencies

variable {s t : System} {p : ℕ} {d : Dependency}

theorem provides_of_check (h : moduleCheckDependencies s p = true)
    (hd : d ∈ (s.record p).dependencies) : s.Provides d := by
  have haccepts := List.all_eq_true.mp h d hd
  split at haccepts
  · cases haccepts
  · rename_i q hfind
    obtain ⟨hmem, hname⟩ := find_some hfind
    obtain ⟨hversion, husable⟩ := accepts_iff.mp haccepts
    exact ⟨q, hmem, of_decide_eq_true hname, hversion, husable⟩

theorem System.Provides.mono (h : s.Provides d)
    (hstays : ∀ q, Mem s.modules q → (s.record q).name = d.name → (s.record q).Usable →
      Mem t.modules q ∧ (t.record q).name = (s.record q).name ∧
        (t.record q).version = (s.record q).version ∧ (t.record q).Usable) :
    t.Provides d := by
  obtain ⟨q, hmem, hname, hversion, husable⟩ := h
  obtain ⟨hmem', hname', hversion', husable'⟩ := hstays q hmem hname husable
  refine ⟨q, hmem', hname'.trans hname, ?_, husable'⟩
  rw [hversion']
  exact hversion

/-- What has to be shown of a step that leaves the table: it keeps names, versions and dependencies,
and what it makes loaded has its dependencies. -/
theorem Consistent.mono (h : Consistent s) (hmodules : t.modules = s.modules)
    (hnum : t.numModules = s.numModules) (hkept : t.kept = s.kept)
    (hrecord : ∀ q, ∃ id status, t.record q = { s.record q with id, status })
    (husable : ∀ q, Mem s.modules q → (s.record q).Usable → (t.record q).Usable)
    (hloaded : ∀ q, Mem s.modules q → (t.record q).status = statusLoaded →
      (s.record q).status = statusLoaded ∨ moduleCheckDependencies s q = true) :
    Consistent t := by
  have hfields : ∀ q, (t.record q).name = (s.record q).name ∧
      (t.record q).version = (s.record q).version ∧
      (t.record q).dependencies = (s.record q).dependencies := by
    intro q
    obtain ⟨id, status, heq⟩ := hrecord q
    simp [heq]
  constructor
  · simp only [hmodules, (hfields _).1]
    exact h.names
  · rw [hnum, hmodules]
    exact h.count
  · rw [hkept]
    exact h.kept
  · intro q hmem hsta d hd
    rw [hmodules] at hmem
    rw [(hfields q).2.2] at hd
    have hprovides : s.Provides d := by
      rcases hloaded q hmem hsta with hold | hcheck
      · exact h.provided q hmem hold d hd
      · exact provides_of_check hcheck hd
    apply hprovides.mono
    intro r hr _ hr'
    exact ⟨hmodules ▸ hr, (hfields r).1, (hfields r).2.1, husable r hr hr'⟩

end Dependencies

/-! ## The requests -/

section Requests

variable {s : System} {p : ℕ}

theorem record_setStatus (s : System) (p : ℕ) (status : UInt8) (q : ℕ) :
    (s.setStatus p status).record q =
      { s.record q with status := if q = p then status else (s.record q).status } := by
  by_cases hq : q = p
  · subst hq
    simp [System.setStatus, System.setRecord]
  · simp [System.setStatus, System.setRecord, hq]

theorem Consistent.setStatus (h : Consistent s) {status : UInt8}
    (husable : status = statusLoaded ∨ status = statusDisabled)
    (hloaded : Mem s.modules p → status = statusLoaded → moduleCheckDependencies s p = true) :
    Consistent (s.setStatus p status) := by
  apply h.mono (t := s.setStatus p status) rfl rfl rfl
    (fun q => ⟨_, _, record_setStatus s p status q⟩)
  · intro q _ hq
    unfold Module.Usable
    rw [record_setStatus]
    dsimp only
    split
    · exact husable
    · exact hq
  · intro q hmem hsta
    rw [record_setStatus] at hsta
    dsimp only at hsta
    split at hsta
    · rename_i heq
      subst heq
      exact .inr (hloaded hmem hsta)
    · exact .inl hsta

theorem assignId_fields (s : System) (p q : ℕ) :
    ∃ id, (assignId s p).record q = { s.record q with id } := by
  unfold assignId
  split
  · by_cases hq : q = p
    · subst hq
      exact ⟨s.nextModuleId, by simp [System.setRecord]⟩
    · exact ⟨(s.record q).id, by simp [System.setRecord, hq]⟩
  · exact ⟨(s.record q).id, rfl⟩

theorem assignId_modules (s : System) (p : ℕ) : (assignId s p).modules = s.modules ∧
    (assignId s p).numModules = s.numModules ∧ (assignId s p).kept = s.kept := by
  unfold assignId
  split <;> exact ⟨rfl, rfl, rfl⟩

theorem Consistent.assignId (h : Consistent s) (p : ℕ) : Consistent (assignId s p) := by
  obtain ⟨hmodules, hnum, hkept⟩ := assignId_modules s p
  have hrecord := assignId_fields s p
  refine h.mono hmodules hnum hkept (fun q => (hrecord q).imp fun id hid => ⟨_, hid⟩) ?_ ?_
  · intro q _ hq
    obtain ⟨id, hid⟩ := hrecord q
    rw [hid]
    exact hq
  · intro q _ hq
    obtain ⟨id, hid⟩ := hrecord q
    rw [hid] at hq
    exact .inl hq

theorem place_record (s : System) (i : Fin maxModules) (p q : ℕ) :
    (place s i p).record q = { s.record q with
      status := if q = p ∧ (s.record p).status = 0 then statusLoaded else
        (s.record q).status } := by
  unfold place
  dsimp only
  split
  · rename_i hzero
    simp [record_setStatus, hzero]
  · rename_i hzero
    simp [hzero]

theorem place_modules (s : System) (i : Fin maxModules) (p : ℕ) :
    (place s i p).modules = update s.modules i (some p) ∧
      (place s i p).numModules = s.numModules + 1 ∧ (place s i p).kept = s.kept := by
  unfold place
  dsimp only
  split <;> exact ⟨rfl, rfl, rfl⟩

section

variable {module : Option ℕ} (h : Consistent s)
include h

theorem Consistent.place {i : Fin maxModules} (hi : s.modules i = none)
    (hnew : ∀ q, Mem s.modules q → (s.record q).name ≠ (s.record p).name)
    (hcheck : moduleCheckDependencies s p = true) : Consistent (place s i p) := by
  obtain ⟨hmodules, hnum, hkept⟩ := place_modules s i p
  have hold : ∀ q, Mem s.modules q → q ≠ p := by
    rintro q hmem rfl
    exact hnew q hmem rfl
  have hprovides : ∀ d, s.Provides d → (Modules.place s i p).Provides d := by
    intro d hd
    apply hd.mono
    intro q hmem _ husable
    rw [place_record, if_neg fun hq => hold q hmem hq.1, hmodules]
    exact ⟨(mem_fill hi).mpr (.inr hmem), rfl, rfl, husable⟩
  constructor
  · rw [hmodules]
    simp only [place_record]
    exact h.names.fill hnew
  · rw [hmodules, hnum, used_fill hi, h.count]
  · rw [hkept]
    exact h.kept
  · intro q hmem hsta d hd
    rw [place_record] at hsta hd
    apply hprovides
    rw [hmodules, mem_fill hi] at hmem
    rcases hmem with rfl | hmem
    · exact provides_of_check hcheck hd
    · rw [if_neg fun hq => hold q hmem hq.1] at hsta
      exact h.provided q hmem hsta d hd

theorem Consistent.moduleRegister {initResult : ℤ}
    (hcare : Careful s (.register module initResult)) :
    Consistent (moduleRegister s module initResult).2 ∧
      ((moduleRegister s module initResult).1 = .none ∨
        (moduleRegister s module initResult).2.modules = s.modules) := by
  unfold Modules.moduleRegister
  split
  · exact ⟨h, .inr rfl⟩
  · rename_i p
    split
    · exact ⟨h, .inr rfl⟩
    · split
      · exact ⟨h, .inr rfl⟩
      · rename_i hfound
        dsimp only
        split
        · exact ⟨h.assignId p, .inr (assignId_modules s p).1⟩
        · rename_i hcheck
          split
          · exact ⟨h.assignId p, .inr (assignId_modules s p).1⟩
          · rename_i i hfree
            obtain ⟨id, hid⟩ := assignId_fields s p p
            have hinit : ((Modules.place (Modules.assignId s p) i p).record p).init =
                (s.record p).init := by
              rw [place_record, hid]
            have hnew : ∀ q, Mem (Modules.assignId s p).modules q →
                ((Modules.assignId s p).record q).name ≠
                  ((Modules.assignId s p).record p).name := by
              intro q hmem
              obtain ⟨id', hid'⟩ := assignId_fields s p q
              rw [(assignId_modules s p).1] at hmem
              rw [hid, hid']
              simpa using find_none (Option.not_isSome_iff_eq_none.mp hfound) hmem
            rw [if_neg]
            · exact ⟨(h.assignId p).place (firstFree_some hfree) hnew (by simpa using hcheck),
                .inl rfl⟩
            · rw [hinit]
              have hzero : (s.record p).init = true → initResult = 0 := hcare
              simpa using hzero

theorem Consistent.moduleUnregister (hcare : Careful s (.unregister module)) :
    Consistent (moduleUnregister s module).2 := by
  unfold Modules.moduleUnregister
  split
  · exact h
  · rename_i p
    split
    · exact h
    · rename_i hessential
      split
      · exact h
      · rename_i i hslot
        have hi := slotOf_some hslot
        have hgone := h.names.not_mem_clear hi
        have hother : ∀ q, Mem (update s.modules i none) q → q ≠ p := by
          rintro q hmem rfl
          exact hgone hmem
        constructor
        · apply h.names.clear.congr
          intro q hmem
          simp [System.setRecord, hother q hmem]
        · have hused := used_clear hi
          have hcount := h.count
          simp only
          omega
        · exact h.kept
        · intro q hmem hsta d hd
          have hmem' := mem_of_mem_clear hmem
          have hqp := hother q hmem
          simp only [System.setRecord, update_of_ne hqp] at hsta hd
          have hname := hcare ⟨i, hi⟩ (by simpa using hessential) q hmem' hqp hsta d hd
          apply (h.provided q hmem' hsta d hd).mono
          intro r hr hrname husable
          have hrp : r ≠ p := by
            rintro rfl
            exact hname hrname.symm
          simp only [System.setRecord, update_of_ne hrp]
          exact ⟨mem_clear hi hr hrp, trivial, trivial, husable⟩

theorem Consistent.moduleEnable {startResult : ℤ}
    (hcare : Careful s (.enable module startResult)) :
    Consistent (moduleEnable s module startResult).2 := by
  unfold Modules.moduleEnable
  split
  · exact h
  · split
    · exact h
    · split
      · exact h
      · rename_i hdisabled
        split
        · exact h
        · exact h.setStatus (.inl rfl) fun hmem _ => hcare hmem (not_not.mp hdisabled)

theorem Consistent.moduleDisable (module : Option ℕ) : Consistent (moduleDisable s module).2 := by
  unfold Modules.moduleDisable
  split
  · exact h
  · split
    · exact h
    · split
      · exact h
      · split
        · exact h
        · exact h.setStatus (.inr rfl) fun _ hsta => absurd hsta (by decide)

end

end Requests

theorem consistent_init : Consistent (System.init record) := by
  constructor
  · intro i j p q hi
    cases hi
  · exact used_empty.symm
  · rfl
  · rintro p ⟨i, hi⟩
    cases hi

theorem consistent_step (r : Request) (t : System) (h : Consistent s)
    (hcare : Careful s r) (hstep : step s r = some t) : Consistent t := by
  cases r with
  | register module initResult =>
    obtain ⟨hconsistent, hkept⟩ := h.moduleRegister hcare
    obtain rfl := Option.some.inj hstep
    refine ⟨hconsistent.names, hconsistent.count, ?_, hconsistent.provided⟩
    simp only [h.kept, Bool.true_and, Bool.or_eq_true, decide_eq_true_eq]
    exact hkept
  | unregister module =>
    obtain rfl := Option.some.inj hstep
    exact h.moduleUnregister hcare
  | enable module startResult =>
    obtain rfl := Option.some.inj hstep
    exact h.moduleEnable hcare
  | disable module =>
    obtain rfl := Option.some.inj hstep
    exact h.moduleDisable module

/-- From any records of modules, the registry stays in order in every run of careful requests. -/
theorem dependencies_stay_satisfied (record : ℕ → Module) (requests : List Request)
    (h : Meets step Careful (System.init record) requests) :
    Throughout step Consistent (System.init record) requests :=
  throughout_of_meets step consistent_step (consistent_init record) h

/-- A driver (`usb`) and a module that depends on it (`storage`), at the addresses 0 and 1, and one
whose initialisation may fail. -/
def exampleModules : ℕ → Module
  | 0 => ⟨"usb", 2, 0, 0, 0, true, true, []⟩
  | 1 => ⟨"storage", 1, 0, 0, 0, false, true, [⟨"usb", 1, 0⟩]⟩
  | _ => ⟨"net", 1, 0, 0, 0, true, false, []⟩

/-- The driver is disabled and enabled, and the module that depends on it goes first. -/
theorem ordered_unregistration_stays_satisfied :
    let requests : List Request := [.register (some 0) 0, .register (some 1) 0, .disable (some 0),
      .enable (some 0) 0, .unregister (some 1), .unregister (some 0)]
    Meets step Careful (System.init exampleModules) requests ∧
      Throughout step Consistent (System.init exampleModules) requests := by
  intro requests
  have hmeets : Meets step Careful (System.init exampleModules) requests := by decide +kernel
  exact ⟨hmeets, dependencies_stay_satisfied exampleModules requests hmeets⟩

/-- The driver is unregistered while the module that depends on it is loaded; a module whose
initialisation fails is still registered. -/
theorem dependency_goes_away : (∃ u, exec step (System.init exampleModules)
        [.register (some 0) 0, .register (some 1) 0, .unregister (some 0)] = some u ∧
      ¬ Consistent u) ∧
    ∃ u, exec step (System.init exampleModules) [.register (some 2) (-1)] = some u ∧
      Mem u.modules 2 ∧ ¬ Consistent u := by
  constructor
  · refine ⟨_, rfl, fun h => ?_⟩
    have hprovided := h.provided
    revert hprovided
    decide +kernel
  · refine ⟨_, rfl, by decide +kernel, fun h => ?_⟩
    have hkept := h.kept
    revert hkept
    decide +kernel

end UintOS.Modules
