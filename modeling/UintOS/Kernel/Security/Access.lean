import Mathlib.Tactic

/-!
# Access checks

`check_security_policy` of `security_monitor.c` with the functions of `security.c` that it calls:
the descriptor of a resource is a copy of the default one, made for the call, and the access list of
the copy decides. The one allocation of a call is that of the copied list. The values of
`RESOURCE_ACCESS_*` are not in the sources; they are parameters.

`security_create_descriptor` reports that the list could not be copied, but
`security_get_object_descriptor` does not look, and a descriptor without a list grants everything.
-/

namespace UintOS.Security

/-- `security_id_t`, as `security.c` uses it. -/
structure Sid where
  authority : UInt32
  subAuthorityCount : UInt8
  primaryId : UInt32
  subAuthorities : ℕ → UInt32

def sidSystem : Sid := ⟨1, 0, 0, fun _ => 0⟩
def sidAdmin : Sid := ⟨1, 1, 1, fun _ => 0⟩

def sidEqual (a b : Sid) : Bool :=
  a.authority == b.authority && a.subAuthorityCount == b.subAuthorityCount &&
    a.primaryId == b.primaryId &&
    (List.range a.subAuthorityCount.toNat).all fun i => a.subAuthorities i == b.subAuthorities i

/-- `ACE_TYPE_ALLOW`, `ACE_TYPE_DENY`, and any other value. -/
inductive AceType
  | allow
  | deny
  | unknown
deriving DecidableEq, Repr

abbrev AccessMask := BitVec 16

structure Ace where
  type : AceType
  accessMask : AccessMask
  sid : Sid

/-- `dacl_t`: its entries. -/
abbrev Dacl := List Ace

/-- `security_descriptor_t`, with its flags. -/
structure Descriptor where
  ownerValid : Bool
  groupValid : Bool
  daclPresent : Bool
  owner : Sid
  group : Sid
  dacl : Option Dacl

structure Token where
  user : Sid
  groups : List Sid
  capabilities : UInt64

variable (token : Token)

def sidInToken (sid : Sid) : Bool :=
  sidEqual token.user sid || token.groups.any fun group => sidEqual group sid

/-- Which allocations of a call succeed, in the order of the calls. -/
abbrev Heap := ℕ → Bool

/-- `create_dacl`, and the copy of the entries after it. -/
def createDacl (heap : Heap) (entries : Dacl) : Option Dacl :=
  if entries.length = 0 then none else if heap 0 then some entries else none

/-- `security_create_descriptor`, with the success of the call. -/
def createDescriptor (heap : Heap) (owner group : Option Sid) (dacl : Option Dacl) :
    Bool × Descriptor :=
  let zero : Sid := ⟨0, 0, 0, fun _ => 0⟩
  let d : Descriptor :=
    ⟨owner.isSome, group.isSome, false, owner.getD zero, group.getD zero, none⟩
  match dacl with
  | none => (true, d)
  | some entries =>
    match createDacl heap entries with
    | none => (false, d)
    | some copy => (true, { d with daclPresent := true, dacl := some copy })

/-- `security_get_object_descriptor`, for any name: it always succeeds. -/
def getObjectDescriptor (heap : Heap) (default : Option Dacl) : Option Descriptor :=
  some (createDescriptor heap (some sidSystem) (some sidAdmin) default).2

variable (masks : AccessMask × AccessMask)

/-- One round of the loop of `security_check_access`, on the masks granted and denied. -/
def checkAce (ace : Ace) : AccessMask × AccessMask :=
  if !sidInToken token ace.sid then masks
  else
    match ace.type with
    | .allow => (masks.1 ||| ace.accessMask, masks.2)
    | .deny => (masks.1, masks.2 ||| ace.accessMask)
    | .unknown => masks

variable (dacl : Dacl)

/-- The decision of `security_check_access` by the list. -/
def aclGrants (desired : AccessMask) : Bool :=
  let masks := dacl.foldl (checkAce token) (0, 0)
  if masks.2 &&& desired ≠ 0 then false else masks.1 &&& desired == desired

def checkAccess (descriptor : Descriptor) (desired : AccessMask) : Bool :=
  if sidEqual token.user sidSystem then true
  else if descriptor.ownerValid && sidEqual token.user descriptor.owner then true
  else
    match descriptor.daclPresent, descriptor.dacl with
    | true, some dacl => aclGrants token dacl desired
    | _, _ => true

/-- `CAP_SYS_ADMIN` and `security_check_capability`. -/
def capSysAdmin : UInt64 := 0x100

def checkCapability (capability : UInt64) : Bool :=
  token.capabilities &&& capability != 0

/-- `SEC_MODE_*`. -/
inductive Mode
  | disabled
  | auditOnly
  | enforcing
deriving DecidableEq, Repr

/-- The settings of `security_policy_t` that are read here. -/
structure Policy where
  enforceObjectPermissions : Bool
  restrictKernelAccess : Bool

/-- `RESOURCE_ACCESS_READ`, `_WRITE`, `_EXECUTE` and `_DELETE`. -/
structure AccessTypes where
  read : UInt32
  write : UInt32
  execute : UInt32
  delete : UInt32

def desiredAccess (types : AccessTypes) (accessType : UInt32) : AccessMask :=
  (if accessType &&& types.read ≠ 0 then 1 else 0) |||
    (if accessType &&& types.write ≠ 0 then 2 else 0) |||
    (if accessType &&& types.execute ≠ 0 then 4 else 0) |||
    (if accessType &&& types.delete ≠ 0 then 8 else 0)

/-- The bytes of `kernel/`, compared with the start of a name. -/
def isKernelResource (resource : List UInt8) : Bool :=
  resource.take 7 == [107, 101, 114, 110, 101, 108, 47]

/-- The mode, the policy, the default list and the constants of a check. -/
structure Configuration where
  mode : Mode
  policy : Policy
  defaultDacl : Option Dacl
  types : AccessTypes

variable (c : Configuration)

def kernelRestricted (token : Token) (resource : List UInt8) : Bool :=
  c.policy.restrictKernelAccess && isKernelResource resource && !checkCapability token capSysAdmin

def checkSecurityPolicy (heap : Heap) (token : Option Token)
    (resource : Option (List UInt8)) (accessType : UInt32) : Bool :=
  match token, resource with
  | some token, some resource =>
    if c.mode = .disabled then true
    else if c.policy.enforceObjectPermissions then
      match getObjectDescriptor heap c.defaultDacl with
      | none => false
      | some descriptor =>
        if !checkAccess token descriptor (desiredAccess c.types accessType) then false
        else !kernelRestricted c token resource
    else !kernelRestricted c token resource
  | _, _ => false

/-! ## What a list grants -/

/-- The same identifier: sub-authorities beyond the count do not matter. -/
def Sid.Same (a b : Sid) : Prop :=
  a.authority = b.authority ∧ a.subAuthorityCount = b.subAuthorityCount ∧
    a.primaryId = b.primaryId ∧
    ∀ i < a.subAuthorityCount.toNat, a.subAuthorities i = b.subAuthorities i

def Token.Holds (sid : Sid) : Prop :=
  token.user.Same sid ∨ ∃ group ∈ token.groups, group.Same sid

theorem sidEqual_iff (a b : Sid) : sidEqual a b = true ↔ a.Same b := by
  simp [sidEqual, Sid.Same, and_assoc]

theorem sidInToken_iff (sid : Sid) : sidInToken token sid = true ↔ token.Holds sid := by
  simp [sidInToken, Token.Holds, sidEqual_iff]

/-- An entry of the type applies to the token and has the bit. -/
def Ace.Sets (ace : Ace) (type : AceType) (token : Token) (k : ℕ) : Prop :=
  ace.type = type ∧ token.Holds ace.sid ∧ ace.accessMask.getLsbD k = true

/-- Each bit is set in an allowing entry for the token and in no denying one. -/
def Grants (entries : Dacl) (desired : AccessMask) : Prop :=
  ∀ k, desired.getLsbD k = true → (∃ ace ∈ entries, ace.Sets .allow token k) ∧
    ¬ ∃ ace ∈ entries, ace.Sets .deny token k

theorem checkAce_getLsbD (ace : Ace) (k : ℕ) : ((checkAce token masks ace).1.getLsbD k = true ↔
        masks.1.getLsbD k = true ∨ ace.Sets .allow token k) ∧
      ((checkAce token masks ace).2.getLsbD k = true ↔
        masks.2.getLsbD k = true ∨ ace.Sets .deny token k) := by
  unfold checkAce Ace.Sets
  rw [← sidInToken_iff]
  cases hin : sidInToken token ace.sid
  · simp
  · cases htype : ace.type <;> simp

/-- The masks after the loop: what was in them, and what the entries set. -/
theorem foldl_checkAce_getLsbD (masks : AccessMask × AccessMask) (k : ℕ) :
    ((dacl.foldl (checkAce token) masks).1.getLsbD k = true ↔
        masks.1.getLsbD k = true ∨ ∃ ace ∈ dacl, ace.Sets .allow token k) ∧
      ((dacl.foldl (checkAce token) masks).2.getLsbD k = true ↔
        masks.2.getLsbD k = true ∨ ∃ ace ∈ dacl, ace.Sets .deny token k) := by
  induction dacl generalizing masks with
  | nil => simp
  | cons ace dacl ih =>
    have hace := checkAce_getLsbD token masks ace k
    have hrest := ih (checkAce token masks ace)
    simp only [List.foldl_cons, List.mem_cons, exists_eq_or_imp]
    constructor
    · rw [hrest.1, hace.1, or_assoc]
    · rw [hrest.2, hace.2, or_assoc]

theorem and_eq_zero_iff (x d : AccessMask) :
    x &&& d = 0 ↔ ∀ k, d.getLsbD k = true → ¬ x.getLsbD k = true := by
  constructor
  · intro h k hd hx
    have hk := congrArg (BitVec.getLsbD · k) h
    simp [hd, hx] at hk
  · intro h
    apply BitVec.eq_of_getLsbD_eq
    intro k hk
    simp only [BitVec.getLsbD_and, BitVec.ofNat_eq_ofNat, BitVec.getLsbD_zero,
      Bool.and_eq_false_iff]
    by_cases hd : d.getLsbD k = true
    · exact Or.inl (Bool.eq_false_iff.mpr (h k hd))
    · exact Or.inr (Bool.eq_false_iff.mpr hd)

theorem and_eq_right_iff (x d : AccessMask) :
    x &&& d = d ↔ ∀ k, d.getLsbD k = true → x.getLsbD k = true := by
  constructor
  · intro h k hd
    have hk := congrArg (BitVec.getLsbD · k) h
    simpa [hd] using hk
  · intro h
    apply BitVec.eq_of_getLsbD_eq
    intro k hk
    rw [BitVec.getLsbD_and]
    by_cases hd : d.getLsbD k = true
    · rw [h k hd, Bool.true_and]
    · rw [Bool.eq_false_iff.mpr hd, Bool.and_false]

theorem aclGrants_iff (desired : AccessMask) :
    aclGrants token dacl desired = true ↔ Grants token dacl desired := by
  obtain ⟨masks, hmasks⟩ : ∃ masks, masks = dacl.foldl (checkAce token) (0, 0) := ⟨_, rfl⟩
  have hgranted : ∀ k, masks.1.getLsbD k = true ↔ ∃ ace ∈ dacl, ace.Sets .allow token k := by
    intro k
    rw [hmasks, (foldl_checkAce_getLsbD token dacl (0, 0) k).1]
    simp
  have hdenied : ∀ k, masks.2.getLsbD k = true ↔ ∃ ace ∈ dacl, ace.Sets .deny token k := by
    intro k
    rw [hmasks, (foldl_checkAce_getLsbD token dacl (0, 0) k).2]
    simp
  have heq : aclGrants token dacl desired = true ↔
      masks.2 &&& desired = 0 ∧ masks.1 &&& desired = desired := by
    rw [aclGrants, ← hmasks]
    by_cases hzero : masks.2 &&& desired = 0
    · simp [hzero]
    · rw [if_pos hzero]
      exact iff_of_false Bool.noConfusion fun h => hzero h.1
  rw [heq, and_eq_zero_iff, and_eq_right_iff]
  simp only [Grants, hgranted, hdenied, imp_and, forall_and]
  exact and_comm

/-! ## Failing closed -/

/-- Failing allocations do not grant what is denied otherwise. -/
def FailsClosed (heap : Heap) (token : Token) (resource : List UInt8)
    (accessType : UInt32) : Prop :=
  checkSecurityPolicy c heap (some token) (some resource) accessType = true →
    checkSecurityPolicy c (fun _ => true) (some token) (some resource) accessType = true

/-- The check on a new descriptor: a list that is empty, or for which there is no memory, denies
nothing. -/
theorem checkAccess_iff (heap : Heap) (token : Token) (owner group : Option Sid)
    (acl : Option Dacl) (desired : AccessMask) :
    checkAccess token (createDescriptor heap owner group acl).2 desired = true ↔
      token.user.Same sidSystem ∨ (∃ o ∈ owner, token.user.Same o) ∨
        ∀ entries ∈ acl, entries ≠ [] → heap 0 = true → Grants token entries desired := by
  simp only [← sidEqual_iff, ← aclGrants_iff, checkAccess]
  cases owner <;> cases acl with
  | none => simp [createDescriptor]
  | some entries =>
    cases hheap : heap 0 <;> cases entries <;> simp [createDescriptor, createDacl, hheap]

theorem checkSecurityPolicy_iff {c : Configuration} (heap : Heap) (token : Token)
    (resource : List UInt8) (accessType : UInt32) {entries : Dacl} (hmode : c.mode ≠ .disabled)
    (henforce : c.policy.enforceObjectPermissions = true) (hdacl : c.defaultDacl = some entries)
    (hne : entries ≠ []) :
    checkSecurityPolicy c heap (some token) (some resource) accessType = true ↔
      (token.user.Same sidSystem ∨
        (heap 0 = true → Grants token entries (desiredAccess c.types accessType))) ∧
        kernelRestricted c token resource = false := by
  have hcheck := checkAccess_iff heap token (some sidSystem) (some sidAdmin) (some entries)
    (desiredAccess c.types accessType)
  simp only [Option.mem_some_iff, exists_eq_left', forall_eq', ne_eq, hne, not_false_eq_true,
    true_implies, ← or_assoc, or_self] at hcheck
  simp only [checkSecurityPolicy, if_neg hmode, henforce, if_true, getObjectDescriptor, hdacl,
    ← hcheck]
  cases checkAccess token _ (desiredAccess c.types accessType) <;> simp

/-- With security enabled and object permissions enforced, a check fails closed exactly if the list
can be copied, or the decision does not depend on it: the user is the system, the list grants the
access anyway, or the capability for a resource of the kernel is missing. -/
theorem fails_closed_iff (c : Configuration) (heap : Heap) (token : Token) (resource : List UInt8)
    (accessType : UInt32) (entries : Dacl) (hmode : c.mode ≠ .disabled)
    (henforce : c.policy.enforceObjectPermissions = true) (hdacl : c.defaultDacl = some entries)
    (hne : entries ≠ []) :
    FailsClosed c heap token resource accessType ↔
      heap 0 = true ∨ token.user.Same sidSystem ∨
        Grants token entries (desiredAccess c.types accessType) ∨
        kernelRestricted c token resource = true := by
  simp only [FailsClosed, checkSecurityPolicy_iff _ token resource accessType hmode henforce hdacl
    hne, true_implies]
  cases heap 0 <;> cases kernelRestricted c token resource <;> simp

/-- The configuration after `security_init`, with the initial policy. -/
def initialConfiguration : Configuration where
  mode := .enforcing
  policy := ⟨true, true⟩
  defaultDacl := some [⟨.allow, 0xFFF, sidSystem⟩, ⟨.allow, 0xFFF, sidAdmin⟩]
  types := ⟨1, 2, 4, 8⟩

/-- An administrator reads `log` without memory for the list: the list grants it anyway. -/
theorem admin_read_fails_closed :
    FailsClosed initialConfiguration (fun _ => false) ⟨sidAdmin, [], 0⟩ [108, 111, 103] 1 := by
  rw [fails_closed_iff initialConfiguration (fun _ => false) ⟨sidAdmin, [], 0⟩ [108, 111, 103] 1 _
    (by decide) rfl rfl (by simp)]
  right; right; left
  rw [← aclGrants_iff]
  decide

/-- `SID_GUEST` reads `log`: denied, and granted when the list cannot be copied. -/
theorem guest_reads_without_memory :
    checkSecurityPolicy initialConfiguration (fun _ => true) (some ⟨⟨1, 0, 999, fun _ => 0⟩, [], 0⟩)
      (some [108, 111, 103]) 1 = false ∧
    checkSecurityPolicy initialConfiguration (fun _ => false)
      (some ⟨⟨1, 0, 999, fun _ => 0⟩, [], 0⟩) (some [108, 111, 103]) 1 = true ∧
    ¬ FailsClosed initialConfiguration (fun _ => false) ⟨⟨1, 0, 999, fun _ => 0⟩, [], 0⟩
      [108, 111, 103] 1 := by
  refine ⟨by decide, by decide, ?_⟩
  unfold FailsClosed
  decide

/-! ## Decisions -/

variable (token : Token) (owner group : Option Sid) (acl : Option Dacl) (desired : AccessMask)

/-- What the list an object was given, or the missing one, decides. -/
def Decision : Prop :=
  token.user.Same sidSystem ∨ (∃ o ∈ owner, token.user.Same o) ∨
    ∀ entries ∈ acl, Grants token entries desired

theorem grants_nil : Grants token [] desired ↔ desired = 0 := by
  have hzero : (0 : AccessMask) &&& desired = 0 := BitVec.zero_and
  rw [← aclGrants_iff, aclGrants, List.foldl_nil, hzero, if_neg (not_not.mpr rfl), beq_iff_eq]
  exact eq_comm

theorem grants_perm {groups : List Sid} {entries entries' : Dacl}
    (hgroups : token.groups.Perm groups) (hperm : entries.Perm entries') :
    Grants { token with groups } entries' desired ↔ Grants token entries desired := by
  have hholds : ∀ sid, ({ token with groups } : Token).Holds sid ↔ token.Holds sid := by
    intro sid
    simp only [Token.Holds, hgroups.mem_iff]
  simp only [Grants, Ace.Sets, hholds, hperm.mem_iff]

/-- With memory for the copy, the check on a descriptor is the decision of its list exactly if the
list is not empty (or missing), or the user is the system or the owner, or nothing is asked for. In
all cases the order of entries and groups does not matter. -/
theorem access_decided_iff (heap : Heap) (hheap : heap 0 = true) :
    ((checkAccess token (createDescriptor heap owner group acl).2 desired = true ↔
        Decision token owner acl desired) ↔
      acl ≠ some [] ∨ token.user.Same sidSystem ∨ (∃ o ∈ owner, token.user.Same o) ∨
        desired = 0) ∧
    ∀ groups acl', token.groups.Perm groups → Option.Rel List.Perm acl acl' →
      checkAccess { token with groups } (createDescriptor heap owner group acl').2 desired =
        checkAccess token (createDescriptor heap owner group acl).2 desired := by
  constructor
  · rw [checkAccess_iff, Decision]
    rcases acl with _ | _ | ⟨ace, entries⟩
    · simp
    · simp only [Option.mem_some_iff, forall_eq', grants_nil, ne_eq, not_true_eq_false,
        false_implies, or_true, true_iff, false_or]
    · simp [hheap]
  · intro groups acl' hgroups hentries
    rw [Bool.eq_iff_iff, checkAccess_iff, checkAccess_iff]
    cases hentries with
    | none => simp
    | some hperm =>
      simp only [Option.mem_some_iff, forall_eq', grants_perm token desired hgroups hperm,
        ← List.length_pos_iff, hperm.length_eq]

/-- `SID_GUEST`. -/
def sidGuest : Sid := ⟨1, 0, 999, fun _ => 0⟩

/-- A guest in the group of administrators, whom an entry lets read. -/
theorem guest_admin_reads : checkAccess ⟨sidGuest, [sidAdmin], 0⟩
      (createDescriptor (fun _ => true) none none (some [⟨.allow, 1, sidAdmin⟩])).2 1 = true ∧
    Decision ⟨sidGuest, [sidAdmin], 0⟩ none (some [⟨.allow, 1, sidAdmin⟩]) 1 := by
  have hgranted : checkAccess ⟨sidGuest, [sidAdmin], 0⟩
      (createDescriptor (fun _ => true) none none (some [⟨.allow, 1, sidAdmin⟩])).2 1 = true := by
    decide
  refine ⟨hgranted, ?_⟩
  exact ((access_decided_iff _ none none _ 1 _ rfl).1.mpr (.inl (by simp))).mp hgranted

/-- An empty list is not copied, and a guest may do everything. -/
theorem empty_list_grants :
    checkAccess ⟨sidGuest, [], 0⟩
      (createDescriptor (fun _ => true) (some sidSystem) none (some [])).2 0xFFF = true ∧
    ¬ Decision ⟨sidGuest, [], 0⟩ (some sidSystem) (some []) 0xFFF := by
  refine ⟨by decide, ?_⟩
  rintro (⟨-, -, h, -⟩ | ⟨_, hsome, -, -, h, -⟩ | h)
  · exact absurd h (by decide)
  · cases hsome
    exact absurd h (by decide)
  · exact absurd ((grants_nil _ _).mp (h [] rfl)) (by decide)

end UintOS.Security
