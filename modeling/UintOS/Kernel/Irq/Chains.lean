import Mathlib.Data.List.TakeWhile
import UintOS.Library.Runs

/-!
# Chains of interrupt handlers

`register_enhanced_irq_handler`, `unregister_irq_handler` and `irq_dispatch_enhanced` of `irq.c`.
The four slots of a vector are a list, a handler is its address, and of `irq_enable` and
`irq_disable` only the status is modelled.

The registrations of a vector are kept in the order in which they are called, as long as there are
no more than four: when all slots are in use, a handler with a higher priority still gets its slot,
and the last one is dropped.
-/

namespace UintOS.Irq

open Function List Option Runs

def maxHandlers : ℕ := 4

def maxPriorityLevels : ℕ := 16

inductive Result
  | handled
  | unhandled
  | pass
  | error
deriving DecidableEq, Repr

structure Entry where
  handler : Option ℕ
  priority : ℕ
  context : ℕ
  flags : UInt32
  name : Option String
deriving DecidableEq, Repr

def Entry.empty : Entry := ⟨none, 0, 0, 0, none⟩

/-- `enhanced_irq_handlers` and `irq_enabled_status`. -/
structure Table where
  handlers : UInt8 → List Entry
  enabledStatus : UInt8 → Bool

def Table.init : Table := ⟨fun _ => List.replicate maxHandlers .empty, fun _ => false⟩

variable (t : Table) (irq : UInt8)

def irqEnable : Table :=
  { t with enabledStatus := update t.enabledStatus irq true }

def irqDisable : Table :=
  { t with enabledStatus := update t.enabledStatus irq false }

variable (slots : List Entry)

/-- The slots from `i` on are moved down: from the last on, each is assigned the one before. -/
def shiftDown (i : ℕ) : List Entry :=
  slots.take (i + 1) ++ (slots.drop i).dropLast

/-- The slots behind `i` are moved up, and the last is cleared. -/
def shiftUp (i : ℕ) : List Entry :=
  slots.eraseIdx i ++ [.empty]

/-- The slot for a handler: the first that is empty or has a lower priority. -/
def findSlot (priority : ℕ) : Option ℕ :=
  slots.findIdx? fun e => e.handler = none || priority < e.priority

/-- The handler is stored in its slot; if that is in use, the rest is moved down first. -/
def insertAt (i : ℕ) (e : Entry) : List Entry :=
  if ((slots[i]?).bind Entry.handler).isNone then slots.set i e else (shiftDown slots i).set i e

/-- `register_enhanced_irq_handler`; the entry has the other arguments. -/
def registerEnhancedIrqHandler (e : Entry) : Result × Table :=
  if e.priority ≥ maxPriorityLevels then (.error, t)
  else
    match findSlot (t.handlers irq) e.priority with
    | none => (.error, t)
    | some i =>
      let t := { t with
        handlers := update t.handlers irq (insertAt (t.handlers irq) i e) }
      (.handled, if t.enabledStatus irq then t else irqEnable t irq)

def unregisterIrqHandler (handler : Option ℕ) : Result × Table :=
  let found := (t.handlers irq).findIdx? fun e => e.handler = handler
  let t :=
    match found with
    | none => t
    | some i => { t with handlers := update t.handlers irq (shiftUp (t.handlers irq) i) }
  let t := if (t.handlers irq).all fun e => e.handler = none then irqDisable t irq else t
  (if found.isSome then .handled else .unhandled, t)

inductive Invocation
  | handler (handler : ℕ) (irq : UInt8) (context : ℕ)
  | spurious (handler : ℕ) (irq : UInt8)
deriving DecidableEq, Repr

/-- The loop of `irq_dispatch_enhanced`, with the number of calls so far; `answers` are their
results. The second part tells whether one has handled the interrupt. -/
def dispatchLoop (irq : UInt8) (answers : ℕ → Result) : List Entry → ℕ → List Invocation × Bool
  | [], _ => ([], false)
  | e :: slots, calls =>
    match e.handler with
    | none => dispatchLoop irq answers slots calls
    | some h =>
      if answers calls = .handled then ([.handler h irq e.context], true)
      else
        let r := dispatchLoop irq answers slots (calls + 1)
        (.handler h irq e.context :: r.1, r.2)

/-- `irq_dispatch_enhanced`: the calls that it makes. -/
def irqDispatchEnhanced (spuriousIrqHandler : Option ℕ) (irq : UInt8)
    (answers : ℕ → Result) : List Invocation :=
  let r := dispatchLoop irq answers (t.handlers irq) 0
  r.1 ++ if r.2 then [] else (spuriousIrqHandler.map fun h => .spurious h irq).toList

/-! ## Registrations -/

/-- A registration that returned `HANDLED`, with its number among the calls. -/
structure Registration where
  number : ℕ
  entry : Entry
deriving DecidableEq, Repr

/-- The order of handlers: by priority, and the earlier one first among equals. -/
def Registration.Before (a b : Registration) : Prop :=
  a.entry.priority < b.entry.priority ∨ a.entry.priority = b.entry.priority ∧ a.number < b.number

/-- A later registration is entered before those of a lower priority. -/
def enter (r : Registration) (live : List Registration) : List Registration :=
  live.orderedInsert (fun a b => a.entry.priority < b.entry.priority) r

def withdraw (handler : Option ℕ) (live : List Registration) : List Registration :=
  live.eraseP fun r => r.entry.handler = handler

/-- The table, and for each vector the registrations in force, in order. -/
structure System where
  table : Table
  live : UInt8 → List Registration
  count : ℕ

def System.init : System := ⟨.init, fun _ => [], 0⟩

inductive Request
  | register (irq : UInt8) (handler priority context : ℕ) (flags : UInt32) (name : Option String)
  | unregister (irq : UInt8) (handler : Option ℕ)
deriving DecidableEq, Repr

variable (s : System)

def step : Request → Option System
  | .register irq handler priority context flags name =>
    let e : Entry := ⟨some handler, priority, context, flags, name⟩
    let r := registerEnhancedIrqHandler s.table irq e
    some {
      table := r.2
      live :=
        if r.1 = .handled then update s.live irq (enter ⟨s.count, e⟩ (s.live irq))
        else s.live
      count := s.count + 1 }
  | .unregister irq handler =>
    some { s with
      table := (unregisterIrqHandler s.table irq handler).2
      live := update s.live irq (withdraw handler (s.live irq)) }

/-- The handlers are called in order, up to the first that has handled the interrupt. -/
def CallsInOrder (answers : ℕ → Result) (spurious : Option ℕ)
    (live : List Registration) (calls : List Invocation) : Prop :=
  ∃ n ≤ live.length, (∀ k, k + 1 < n → answers k ≠ .handled) ∧
    calls = (live.take n).flatMap (fun r =>
        (r.entry.handler.map fun h => .handler h irq r.entry.context).toList) ++
      (if 0 < n ∧ answers (n - 1) = .handled then []
        else (spurious.map fun h => .spurious h irq).toList) ∧
    (n < live.length → 0 < n ∧ answers (n - 1) = .handled)

/-- The slots of every vector are the registrations in force, in order and without gaps. -/
structure Chained (s : System) : Prop where
  ordered : ∀ irq, (s.live irq).Pairwise Registration.Before
  room : ∀ irq, (s.live irq).length ≤ maxHandlers
  slots : ∀ irq, s.table.handlers irq = (s.live irq).map Registration.entry ++
    List.replicate (maxHandlers - (s.live irq).length) .empty
  enabled : ∀ irq, s.table.enabledStatus irq = true ↔ s.live irq ≠ []
  dispatched : ∀ irq answers spurious, CallsInOrder irq answers spurious (s.live irq)
    (irqDispatchEnhanced s.table spurious irq answers)

/-- When all slots of a vector are in use, no handler of a higher priority than theirs is
registered. -/
def Roomy : Request → Prop
  | .register irq _ priority _ _ _ => priority < maxPriorityLevels →
    (∀ e ∈ s.table.handlers irq, e.handler ≠ none) →
      ∀ e ∈ s.table.handlers irq, e.priority ≤ priority
  | .unregister _ _ => True

instance : (r : Request) → Decidable (Roomy s r)
  | .register _ _ _ _ _ _ => inferInstanceAs (Decidable (_ → _))
  | .unregister _ _ => isTrue trivial

/-! ## One vector -/

section Vector

variable {live : List Registration} {r : Registration} {n priority : ℕ}

def slotsOf (live : List Registration) (free : ℕ) : List Entry :=
  live.map Registration.entry ++ List.replicate free .empty

theorem exists_split (live : List Registration) (r : Registration) : ∃ before behind,
    live = before ++ behind ∧ (∀ a ∈ before, a.entry.priority ≤ r.entry.priority) ∧
      (∀ a, behind.head? = some a → r.entry.priority < a.entry.priority) ∧
      enter r live = before ++ r :: behind := by
  refine ⟨_, _, takeWhile_append_dropWhile.symm, ?_, ?_, orderedInsert_eq_take_drop _ r live⟩
  · intro a ha
    simpa using mem_takeWhile_imp ha
  · intro a ha
    have hnot := head?_dropWhile_not
      (fun b : Registration => ¬ r.entry.priority < b.entry.priority) live
    rw [ha] at hnot
    simpa using hnot

variable {before behind : List Registration} {free h : ℕ}

theorem findIdx_map_none {p : Entry → Bool} (h : ∀ a ∈ live, p a.entry = false) :
    (live.map Registration.entry).findIdx? p = none := by
  simpa [findIdx?_eq_none_iff] using h

theorem findSlot_none (hsome : ∀ a ∈ live, a.entry.handler.isSome)
    (hle : ∀ a ∈ live, a.entry.priority ≤ priority) :
    findSlot (live.map Registration.entry) priority = none := by
  apply findIdx_map_none
  intro a ha
  have hhandler := isSome_iff_ne_none.mp (hsome a ha)
  have hnot := Nat.not_lt.mpr (hle a ha)
  simp [hhandler, hnot]

theorem findSlot_split (free : ℕ) (hsome : ∀ a ∈ before, a.entry.handler.isSome)
    (hbef : ∀ a ∈ before, a.entry.priority ≤ priority)
    (hbehind : ∀ a, behind.head? = some a → priority < a.entry.priority)
    (hroom : behind ≠ [] ∨ 0 < free) :
    findSlot (slotsOf (before ++ behind) free) priority = some before.length := by
  have hnone := findSlot_none hsome hbef
  unfold findSlot at hnone ⊢
  rw [slotsOf, map_append, append_assoc, findIdx?_append]
  have hfirst : ((behind.map Registration.entry) ++ List.replicate free Entry.empty).findIdx?
      (fun e => e.handler = none || priority < e.priority) = some 0 := by
    cases behind with
    | nil =>
      obtain ⟨k, rfl⟩ := Nat.exists_eq_add_of_lt (hroom.resolve_left (by simp))
      simp [replicate_succ, findIdx?_cons, Entry.empty]
    | cons a behind => simp [findIdx?_cons, hbehind a rfl]
  rw [hnone, hfirst]
  simp

theorem insertAt_split (before : List Registration) (free : ℕ)
    (hsome : ∀ a ∈ behind, a.entry.handler.isSome) :
    insertAt (slotsOf (before ++ behind) (free + 1)) before.length r.entry =
      slotsOf (before ++ r :: behind) free := by
  have hslots : slotsOf (before ++ behind) (free + 1) = before.map Registration.entry ++
      (behind.map Registration.entry ++ List.replicate (free + 1) .empty) := by
    simp [slotsOf]
  have hlast : List.replicate (free + 1) Entry.empty = List.replicate free .empty ++ [.empty] :=
    replicate_succ'
  have hlen : before.length = (before.map Registration.entry).length := by simp
  rw [hslots]
  unfold insertAt shiftDown
  rw [getElem?_append_right (by simp), hlen, Nat.sub_self]
  cases behind with
  | nil =>
    rw [if_pos (by simp [replicate_succ, Entry.empty]), set_append_right _ _ le_rfl]
    simp [slotsOf, replicate_succ]
  | cons a behind =>
    have ha := isSome_iff_ne_none.mp (hsome a (by simp))
    rw [if_neg (by simpa using ha), take_append, drop_left, hlast, take_of_length_le (by simp)]
    simp only [map_cons, cons_append, ← append_assoc]
    rw [← cons_append, dropLast_concat]
    simp [slotsOf]

theorem findIdx_slotsOf (hbef : ∀ a ∈ before, a.entry.handler ≠ some h)
    (hr : r.entry.handler = some h) :
    (slotsOf (before ++ r :: behind) free).findIdx? (fun e => e.handler = some h) =
      some before.length := by
  unfold slotsOf
  rw [map_append, append_assoc, findIdx?_append]
  have hnone : (before.map Registration.entry).findIdx? (fun e => e.handler = some h) = none :=
    findIdx_map_none fun a ha => by simp [hbef a ha]
  simp [hnone, findIdx?_cons, hr]

theorem findIdx_slotsOf_none (hlive : ∀ a ∈ live, a.entry.handler ≠ some h) :
    (slotsOf live free).findIdx? (fun e => e.handler = some h) = none := by
  unfold slotsOf
  rw [findIdx?_append, findIdx_map_none fun a ha => by simp [hlive a ha]]
  simp [Entry.empty]

theorem findIdx_free (hsome : ∀ a ∈ live, a.entry.handler.isSome) :
    (slotsOf live free).findIdx? (fun e => e.handler = none) =
      if free = 0 then none else some live.length := by
  have hnone : (live.map Registration.entry).findIdx? (fun e => e.handler = none) = none :=
    findIdx_map_none fun a ha => by simp [isSome_iff_ne_none.mp (hsome a ha)]
  unfold slotsOf
  rw [findIdx?_append, hnone]
  cases free with
  | zero => rfl
  | succ free => simp [replicate_succ, findIdx?_cons, Entry.empty]

theorem shiftUp_slotsOf : shiftUp (slotsOf (before ++ r :: behind) free) before.length =
      slotsOf (before ++ behind) (free + 1) := by
  have hlen : before.length = (before.map Registration.entry).length := by simp
  unfold shiftUp slotsOf
  rw [map_append, append_assoc, eraseIdx_append_of_length_le (by simp), hlen,
    Nat.sub_self, map_cons, cons_append, eraseIdx_cons_zero, replicate_succ']
  simp

theorem shiftUp_free : shiftUp (slotsOf live (free + 1)) live.length = slotsOf live (free + 1) := by
  have hlen : live.length = (live.map Registration.entry).length := by simp
  unfold shiftUp slotsOf
  rw [eraseIdx_append_of_length_le (by simp), hlen, Nat.sub_self, replicate_succ,
    eraseIdx_cons_zero, ← replicate_succ, replicate_succ', append_assoc]

theorem withdraw_none {h : Option ℕ} (hlive : ∀ a ∈ live, a.entry.handler ≠ h) :
    withdraw h live = live := eraseP_of_forall_not (by simpa using hlive)

/-- The loop calls the registered handlers; `calls` were made before. -/
theorem dispatchLoop_slotsOf (answers : ℕ → Result) (calls free : ℕ)
    (hsome : ∀ a ∈ live, a.entry.handler.isSome) :
    ∃ n ≤ live.length, (∀ k, k + 1 < n → answers (calls + k) ≠ .handled) ∧
      dispatchLoop irq answers (slotsOf live free) calls = ((live.take n).flatMap fun r =>
          (r.entry.handler.map fun h => .handler h irq r.entry.context).toList,
        decide (0 < n ∧ answers (calls + (n - 1)) = .handled)) ∧
      (n < live.length → 0 < n ∧ answers (calls + (n - 1)) = .handled) := by
  induction live generalizing calls with
  | nil =>
    refine ⟨0, le_rfl, by simp, ?_, by simp⟩
    have hempty : ∀ m, dispatchLoop irq answers (List.replicate m .empty) calls = ([], false) := by
      intro m
      induction m with
      | zero => rfl
      | succ m ih => exact ih
    simpa [slotsOf] using hempty free
  | cons a live ih =>
    rw [forall_mem_cons] at hsome
    obtain ⟨h, hh⟩ := isSome_iff_exists.mp hsome.1
    have hslots : slotsOf (a :: live) free = a.entry :: slotsOf live free := rfl
    rw [hslots]
    unfold dispatchLoop
    rw [hh]
    by_cases hdone : answers calls = .handled
    · refine ⟨1, by simp, by simp, ?_, by simp [hdone]⟩
      simp [hdone, hh]
    · obtain ⟨n, hn, hbef, heq, hlast⟩ := ih (calls + 1) hsome.2
      refine ⟨n + 1, Nat.succ_le_succ hn, ?_, ?_, ?_⟩
      · intro k hk
        cases k with
        | zero => exact hdone
        | succ k =>
          have hnot := hbef k (by omega)
          rwa [Nat.add_right_comm] at hnot
      · cases n with
        | zero => simp [hdone, heq, hh]
        | succ n =>
          have hcalls : calls + 1 + n = calls + (n + 1) := by omega
          simp [hdone, heq, hh, hcalls]
      · intro hlt
        obtain ⟨hpos, hhandled⟩ := hlast (by simpa using hlt)
        refine ⟨Nat.succ_pos n, ?_⟩
        have hcalls : calls + 1 + (n - 1) = calls + (n + 1 - 1) := by omega
        rwa [hcalls] at hhandled

end Vector

/-! ## Runs -/

/-- The registrations of a vector are in order, and its slots and status are as they say. -/
structure VectorOk (table : Table) (live : List Registration) (irq : UInt8) (count : ℕ) : Prop where
  ordered : live.Pairwise Registration.Before
  room : live.length ≤ maxHandlers
  slots : table.handlers irq = slotsOf live (maxHandlers - live.length)
  enabled : table.enabledStatus irq = true ↔ live ≠ []
  handlers : ∀ r ∈ live, r.entry.handler.isSome
  older : ∀ r ∈ live, r.number < count

def Inv : Prop := ∀ irq, VectorOk s.table (s.live irq) irq s.count

section Vector

variable {table table' : Table} {live : List Registration} {irq : UInt8} {count : ℕ}

section

variable (h : VectorOk table live irq count)
include h

theorem VectorOk.dispatched (answers : ℕ → Result) (spurious : Option ℕ) :
    CallsInOrder irq answers spurious live (irqDispatchEnhanced table spurious irq answers) := by
  obtain ⟨n, hn, hbef, heq, hlast⟩ := dispatchLoop_slotsOf irq answers 0
    (maxHandlers - live.length) h.handlers
  simp only [Nat.zero_add] at hbef heq hlast
  refine ⟨n, hn, hbef, ?_, hlast⟩
  unfold irqDispatchEnhanced
  rw [h.slots, heq]
  simp only [decide_eq_true_eq]

theorem VectorOk.congr {count' : ℕ} (hslots : table'.handlers irq = table.handlers irq)
    (hen : table'.enabledStatus irq = table.enabledStatus irq) (hcount : count ≤ count') :
    VectorOk table' live irq count' := by
  refine ⟨h.ordered, h.room, hslots.trans h.slots, ?_, h.handlers, ?_⟩
  · rw [hen]
    exact h.enabled
  · intro r hr
    exact (h.older r hr).trans_le hcount

theorem VectorOk.full_iff :
    (∀ e ∈ table.handlers irq, e.handler ≠ none) ↔ live.length = maxHandlers := by
  rw [h.slots]
  constructor
  · intro hall
    by_contra hne
    have hfree : maxHandlers - live.length ≠ 0 := by
      have := h.room
      omega
    exact hall .empty (mem_append_right _ (mem_replicate.mpr ⟨hfree, rfl⟩)) rfl
  · intro hfull e he
    rw [hfull, Nat.sub_self] at he
    simp only [slotsOf, replicate_zero, append_nil] at he
    obtain ⟨r, hr, rfl⟩ := mem_map.mp he
    exact isSome_iff_ne_none.mp (h.handlers r hr)

end

/-- In an ordered list all behind a later registration has a lower priority. -/
theorem behind_of_ordered {before behind : List Registration} {priority : ℕ}
    (hordered : (before ++ behind).Pairwise Registration.Before)
    (hhead : ∀ a, behind.head? = some a → priority < a.entry.priority) :
    ∀ a ∈ behind, priority < a.entry.priority := by
  intro a ha
  cases behind with
  | nil => cases ha
  | cons b behind =>
    have hb := hhead b rfl
    rcases mem_cons.mp ha with rfl | ha
    · exact hb
    · have hrest := (pairwise_append.mp hordered).2.1
      have hba := (pairwise_cons.mp hrest).1 a ha
      unfold Registration.Before at hba
      omega

variable {e : Entry}

section

variable (h : VectorOk table live irq count)
include h

theorem VectorOk.register {h₀ : ℕ}
    (hhandler : e.handler = some h₀) (hprio : e.priority < maxPriorityLevels)
    (hroom : live.length < maxHandlers) :
    (registerEnhancedIrqHandler table irq e).1 = .handled ∧
      VectorOk (registerEnhancedIrqHandler table irq e).2 (enter ⟨count, e⟩ live) irq
        (count + 1) := by
  obtain ⟨before, behind, rfl, hbef, hbehind, hsplit⟩ := exists_split live ⟨count, e⟩
  have hafter := behind_of_ordered h.ordered hbehind
  obtain ⟨hsome, hsome'⟩ := forall_mem_append.mp h.handlers
  obtain ⟨free, hfree⟩ : ∃ free, maxHandlers - (before ++ behind).length = free + 1 :=
    ⟨maxHandlers - (before ++ behind).length - 1, by omega⟩
  have hslot := findSlot_split (free + 1) hsome hbef hbehind (.inr (Nat.succ_pos free))
  have hinsert := insertAt_split (r := ⟨count, e⟩) before free hsome'
  have hregister : registerEnhancedIrqHandler table irq e =
      (.handled, { handlers := update table.handlers irq
                    (slotsOf (before ++ ⟨count, e⟩ :: behind) free)
                   enabledStatus := update table.enabledStatus irq true }) := by
    unfold registerEnhancedIrqHandler
    rw [if_neg (Nat.not_le.mpr hprio), h.slots, hfree, hslot]
    simp only [hinsert]
    split_ifs with hon
    · rw [← hon, update_eq_self]
    · rfl
  have hlen : (before ++ (⟨count, e⟩ : Registration) :: behind).length =
      (before ++ behind).length + 1 := by
    simp only [length_append, length_cons]
    omega
  refine ⟨by rw [hregister], ?_⟩
  rw [hregister, hsplit]
  constructor
  · have hpairwise := pairwise_append.mp h.ordered
    refine pairwise_append.mpr ⟨hpairwise.1, pairwise_cons.mpr ⟨?_, hpairwise.2.1⟩, ?_⟩
    · intro a ha
      exact .inl (hafter a ha)
    · intro a ha b hb
      rcases mem_cons.mp hb with rfl | hb
      · have hle : a.entry.priority ≤ e.priority := hbef a ha
        have holder := h.older a (mem_append_left _ ha)
        unfold Registration.Before
        dsimp only
        omega
      · exact hpairwise.2.2 a ha b hb
  · omega
  · rw [hlen, ← Nat.sub_sub, hfree]
    simp
  · simp
  · refine forall_mem_append.mpr ⟨hsome, forall_mem_cons.mpr ⟨?_, hsome'⟩⟩
    simp [hhandler]
  · intro r hr
    have hcases : r ∈ before ++ behind ∨ r = ⟨count, e⟩ := by
      simp only [mem_append, mem_cons] at hr ⊢
      tauto
    rcases hcases with hr | rfl
    · exact Nat.lt_succ_of_lt (h.older r hr)
    · exact Nat.lt_succ_self count

/-- A new registration that finds all slots in use, and none of a lower priority. -/
theorem VectorOk.register_full
    (hfull : live.length = maxHandlers) (hle : ∀ a ∈ live, a.entry.priority ≤ e.priority) :
    registerEnhancedIrqHandler table irq e = (.error, table) := by
  unfold registerEnhancedIrqHandler
  rw [h.slots, hfull, Nat.sub_self, slotsOf, replicate_zero, append_nil,
    findSlot_none h.handlers hle]
  split_ifs <;> rfl

/-- A new registration that finds all slots in use gets the slot of a lower priority. -/
theorem VectorOk.register_evicts
    (hprio : e.priority < maxPriorityLevels) {a : Registration} (ha : a ∈ live)
    (hlt : e.priority < a.entry.priority) :
    (registerEnhancedIrqHandler table irq e).1 = .handled := by
  obtain ⟨before, behind, rfl, hbef, hbehind, -⟩ := exists_split live ⟨count, e⟩
  have hmem : a ∈ behind := by
    rcases mem_append.mp ha with ha | ha
    · exact absurd hlt (Nat.not_lt.mpr (hbef a ha))
    · exact ha
  have hslot := findSlot_split (maxHandlers - (before ++ behind).length)
    (forall_mem_append.mp h.handlers).1 hbef hbehind (.inl (ne_nil_of_mem hmem))
  unfold registerEnhancedIrqHandler
  rw [if_neg (Nat.not_le.mpr hprio), h.slots, hslot]

theorem VectorOk.withdrawn {handler : Option ℕ}
    (hslots : table'.handlers irq = slotsOf (withdraw handler live)
      (maxHandlers - (withdraw handler live).length))
    (hen : table'.enabledStatus irq = true ↔ withdraw handler live ≠ []) :
    VectorOk table' (withdraw handler live) irq count := by
  have hsub : (withdraw handler live).Sublist live := eraseP_sublist
  exact ⟨h.ordered.sublist hsub, hsub.length_le.trans h.room, hslots, hen,
    fun r hr => h.handlers r (hsub.subset hr), fun r hr => h.older r (hsub.subset hr)⟩

end

theorem all_none_slotsOf {free : ℕ} (hsome : ∀ a ∈ live, a.entry.handler.isSome) :
    ((slotsOf live free).all fun e => e.handler = none) = true ↔ live = [] := by
  cases live with
  | nil => simp [slotsOf, Entry.empty]
  | cons a live =>
    have ha := isSome_iff_ne_none.mp (hsome a (by simp))
    simp [slotsOf, ha]

section

variable (h : VectorOk table live irq count) (handler : Option ℕ)
include h handler

theorem VectorOk.unregister_slots :
    (match (table.handlers irq).findIdx? fun e => e.handler = handler with
      | none => table.handlers irq
      | some i => shiftUp (table.handlers irq) i) =
      slotsOf (withdraw handler live) (maxHandlers - (withdraw handler live).length) := by
  rw [h.slots]
  cases handler with
  | none =>
    have hne : ∀ a ∈ live, a.entry.handler ≠ none := fun a ha =>
      isSome_iff_ne_none.mp (h.handlers a ha)
    rw [withdraw_none hne]
    rw [findIdx_free h.handlers]
    split_ifs with hfree
    · rfl
    · obtain ⟨free, hsucc⟩ := Nat.exists_eq_succ_of_ne_zero hfree
      rw [hsucc]
      exact shiftUp_free
  | some k =>
    by_cases hmem : ∃ a ∈ live, a.entry.handler = some k
    · obtain ⟨a, ha, hk⟩ := hmem
      obtain ⟨r, before, behind, hbef, hr, rfl, herase⟩ :=
        exists_of_eraseP (p := fun r : Registration => r.entry.handler = some k) ha (by simpa)
      simp only [decide_eq_true_eq] at hbef hr
      have hwithdraw : withdraw (some k) (before ++ r :: behind) = before ++ behind := herase
      rw [findIdx_slotsOf hbef hr, hwithdraw]
      dsimp only
      rw [shiftUp_slotsOf]
      have hroom := h.room
      congr 1
      simp only [length_append, length_cons] at hroom ⊢
      omega
    · have hne : ∀ a ∈ live, a.entry.handler ≠ some k := fun a ha heq => hmem ⟨a, ha, heq⟩
      rw [findIdx_slotsOf_none hne, withdraw_none hne]

theorem VectorOk.unregister :
    VectorOk (unregisterIrqHandler table irq handler).2 (withdraw handler live) irq count := by
  have hslots := h.unregister_slots handler
  have hsub : (withdraw handler live).Sublist live := eraseP_sublist
  have hsome : ∀ r ∈ withdraw handler live, r.entry.handler.isSome :=
    fun r hr => h.handlers r (hsub.subset hr)
  -- the table after the search, before the status is looked at
  obtain ⟨t, ht⟩ : ∃ t : Table,
    t = match (table.handlers irq).findIdx? (fun e => e.handler = handler)
      with
      | none => table
      | some i =>
        { table with handlers := update table.handlers irq (shiftUp (table.handlers irq) i) }
    := ⟨_, rfl⟩
  have hsta : t.enabledStatus = table.enabledStatus := by
    rw [ht]
    split <;> rfl
  have hhandlers : t.handlers irq = slotsOf (withdraw handler live)
      (maxHandlers - (withdraw handler live).length) := by
    rw [← hslots, ht]
    split <;> simp
  have hunregister : (unregisterIrqHandler table irq handler).2 =
      if (t.handlers irq).all fun e => e.handler = none then irqDisable t irq else t := by
    rw [ht]
    rfl
  rw [hunregister, hhandlers]
  simp only [all_none_slotsOf hsome]
  split_ifs with hgone
  · exact h.withdrawn hhandlers (by simp [irqDisable, hgone])
  · refine h.withdrawn hhandlers ?_
    have hne : live ≠ [] := by
      rintro rfl
      exact hgone rfl
    rw [hsta]
    exact iff_of_true (h.enabled.mpr hne) hgone

end

theorem register_of_ne (table : Table) (e : Entry) {irq irq' : UInt8} (hne : irq' ≠ irq) :
    (registerEnhancedIrqHandler table irq e).2.handlers irq' = table.handlers irq' ∧
      (registerEnhancedIrqHandler table irq e).2.enabledStatus irq' = table.enabledStatus irq' := by
  unfold registerEnhancedIrqHandler
  split_ifs
  · exact ⟨rfl, rfl⟩
  · split
    · exact ⟨rfl, rfl⟩
    · dsimp only
      split_ifs
      · exact ⟨update_of_ne hne _ _, rfl⟩
      · exact ⟨update_of_ne hne _ _, update_of_ne hne _ _⟩

theorem unregister_of_ne (table : Table) (handler : Option ℕ) {irq irq' : UInt8}
    (hne : irq' ≠ irq) :
    (unregisterIrqHandler table irq handler).2.handlers irq' = table.handlers irq' ∧
      (unregisterIrqHandler table irq handler).2.enabledStatus irq' = table.enabledStatus irq' := by
  unfold unregisterIrqHandler
  dsimp only
  split
  · split_ifs
    · exact ⟨rfl, update_of_ne hne _ _⟩
    · exact ⟨rfl, rfl⟩
  · split_ifs
    · exact ⟨update_of_ne hne _ _, update_of_ne hne _ _⟩
    · exact ⟨update_of_ne hne _ _, rfl⟩

end Vector

theorem Inv.chained {s : System} (h : Inv s) : Chained s :=
  ⟨fun irq => (h irq).ordered, fun irq => (h irq).room, fun irq => (h irq).slots,
    fun irq => (h irq).enabled, fun irq => (h irq).dispatched⟩

theorem inv_init : Inv System.init := by
  intro irq
  refine ⟨.nil, Nat.zero_le _, rfl, ?_, ?_, ?_⟩
  · simp [System.init, Table.init]
  · intro r hr
    cases hr
  · intro r hr
    cases hr

section Step

variable {s t : System} {r : Request}

theorem Inv.register {irq : UInt8} {e : Entry} {h₀ : ℕ} (h : Inv s) (hhandler : e.handler = some h₀)
    (hroomy : e.priority < maxPriorityLevels → (s.live irq).length = maxHandlers →
      ∀ a ∈ s.live irq, a.entry.priority ≤ e.priority) :
    VectorOk (registerEnhancedIrqHandler s.table irq e).2
      (if (registerEnhancedIrqHandler s.table irq e).1 = .handled
        then enter ⟨s.count, e⟩ (s.live irq) else s.live irq) irq (s.count + 1) := by
  by_cases hprio : e.priority < maxPriorityLevels
  · rcases Nat.lt_or_eq_of_le (h irq).room with hroom | hfull
    · obtain ⟨hres, hok⟩ := (h irq).register hhandler hprio hroom
      rwa [if_pos hres]
    · rw [(h irq).register_full hfull (hroomy hprio hfull)]
      exact (h irq).congr rfl rfl (Nat.le_succ _)
  · have herror : registerEnhancedIrqHandler s.table irq e = (.error, s.table) :=
      if_pos (Nat.not_lt.mp hprio)
    rw [herror]
    exact (h irq).congr rfl rfl (Nat.le_succ _)

theorem roomy_iff (h : Inv s) {irq : UInt8} {handler priority context : ℕ} {flags : UInt32}
    {name : Option String} :
    Roomy s (.register irq handler priority context flags name) ↔
      (priority < maxPriorityLevels → (s.live irq).length = maxHandlers →
        ∀ a ∈ s.live irq, a.entry.priority ≤ priority) := by
  show (_ → _ → _) ↔ _
  rw [(h irq).full_iff, (h irq).slots]
  apply imp_congr_right
  intro _
  apply imp_congr_right
  intro hfull
  simp [hfull, slotsOf]

theorem Inv.step (h : Inv s) (hok : Roomy s r) (ht : step s r = some t) : Inv t := by
  cases r with
  | register irq handler priority context flags name =>
    rw [roomy_iff h] at hok
    cases ht
    intro irq'
    by_cases hirq : irq' = irq
    · subst hirq
      have hvector := h.register (e := ⟨some handler, priority, context, flags, name⟩) rfl hok
      dsimp only
      split_ifs at hvector ⊢ with hres
      · rwa [update_self]
      · exact hvector
    · obtain ⟨hslots, hen⟩ := register_of_ne s.table
        ⟨some handler, priority, context, flags, name⟩ hirq
      have hsame := (h irq').congr hslots hen (Nat.le_succ _)
      dsimp only
      split_ifs
      · rwa [update_of_ne hirq]
      · exact hsame
  | unregister irq handler =>
    cases ht
    intro irq'
    by_cases hirq : irq' = irq
    · subst hirq
      dsimp only
      rw [update_self]
      exact (h irq').unregister handler
    · obtain ⟨hslots, hen⟩ := unregister_of_ne s.table handler hirq
      dsimp only
      rw [update_of_ne hirq]
      exact (h irq').congr hslots hen le_rfl

/-- A registration that drops another: more are in force than there are slots. -/
theorem not_chained_of_not_roomy (h : Inv s) (hno : ¬ Roomy s r)
    (ht : step s r = some t) : ¬ Chained t := by
  cases r with
  | register irq handler priority context flags name =>
    rw [roomy_iff h] at hno
    push Not at hno
    obtain ⟨hprio, hfull, a, ha, hlt⟩ := hno
    have hres := (h irq).register_evicts (e := ⟨some handler, priority, context, flags, name⟩)
      hprio ha hlt
    cases ht
    intro hchained
    have hroom := hchained.room irq
    simp only [if_pos hres, update_self, enter, orderedInsert_length, hfull] at hroom
    omega
  | unregister irq handler => exact absurd trivial hno

end Step

/-- The handlers of every vector stay in order throughout a run exactly if no registration finds all
slots in use and one of a lower priority among them. -/
theorem chains_stay_iff (requests : List Request) :
    Throughout step Chained System.init requests ↔ Meets step Roomy System.init requests := by
  refine throughout_iff_meets step (I := Inv) (fun _ => Inv.chained) (fun s r h => ?_) inv_init _
  obtain ⟨t, ht⟩ : ∃ t, step s r = some t := by cases r <;> exact ⟨_, rfl⟩
  exact ⟨t, ht, fun hok => Inv.step h hok ht, fun hno => not_chained_of_not_roomy h hno ht⟩

/-- Four handlers, and a fifth more urgent than the last. -/
def crowded : List Request :=
  [.register 33 1 8 0 0 none, .register 33 2 8 0 0 none, .register 33 3 8 0 0 none,
    .register 33 4 8 0 0 none, .register 33 5 0 0 0 none]

theorem crowded_isSome : (exec step System.init crowded).isSome = true := by decide

/-- All five registrations returned `HANDLED`, and the fourth handler is gone. -/
theorem fourth_handler_dropped : ∃ t, exec step System.init crowded = some t ∧
    (t.live 33).map (·.entry.handler) = [some 5, some 1, some 2, some 3, some 4] ∧
    (t.table.handlers 33).map Entry.handler = [some 5, some 1, some 2, some 3] ∧ ¬ Chained t := by
  refine ⟨_, (some_get crowded_isSome).symm, by decide, by decide, ?_⟩
  intro hchained
  exact absurd (hchained.room 33) (by decide)

end UintOS.Irq
