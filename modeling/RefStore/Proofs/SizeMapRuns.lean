import Mathlib.Algebra.Order.Floor.Div
import RefStore.Proofs.SizeMaps
import RefStore.Proofs.TreeRuns

/-!
# Size maps as lists of counters

A size map answers like a list of counters, over any run of calls, commits and operations given up.
Slots are only ever added at the end of the list, and a slot that is deleted stays so. Beside the engine
a run keeps two lists: the committed one, and that of the operation in flight. Main statement:
`Reachable.counters_answered`.
-/

namespace RefStore.SizeMap

/-! ## Slots -/

/-- What a slot holds: a count, or nothing once it is deleted. -/
abbrev Slot := Option (Fin (2 ^ 31))

/-- What a call does with a slot. -/
abbrev Turn := Slot → Except SlotFault Slot

namespace Slot

def increment : Turn
  | none => .error .deleted
  | some k => if h : k.val + 1 < 2 ^ 31 then .ok (some ⟨k + 1, h⟩) else .error .overflow

def decrement : Turn
  | none => .error .deleted
  | some ⟨0, _⟩ => .error .empty
  | some ⟨k + 1, h⟩ => .ok (some ⟨k, Nat.lt_of_succ_lt h⟩)

def remove : Turn
  | none => .error .alreadyDeleted
  | some _ => .ok none

def look : Turn
  | none => .error .deleted
  | some k => .ok (some k)

def count (s : Slot) : Option Int := s.map fun k => k.val

/-- The number that stands for a slot in its bucket. -/
def number : Slot → Int32
  | some k => Int32.ofNat k
  | none => deletedMark

theorem toInt_number (k : Fin (2 ^ 31)) : (number (some k)).toInt = k := Int32.toInt_ofNat_of_lt k.isLt

theorem number_none_neg : number none < 0 := by decide

theorem not_number_neg (k : Fin (2 ^ 31)) : ¬ number (some k) < 0 := by
  rw [Int32.lt_iff_toInt_lt, toInt_number]
  exact Int.not_lt.mpr (Int.natCast_nonneg _)

theorem number_eq_iff {k : Fin (2 ^ 31)} {n : Int32} : number (some k) = n ↔ (k : Int) = n.toInt := by
  rw [← Int32.toInt_inj, toInt_number]

/-- A move with the numbers in a bucket is a turn with the slots. -/
def Reads {α : Type} (move : Bucket.Move α) (answer : α → Option Int) (turn : Turn) : Prop :=
  ∀ s : Slot, (move s.number).map (fun (a, n) => (answer a, n)) =
    (turn s).map fun s' => (s'.count, s'.number)

theorem increment_reads : Reads Bucket.Move.increment (some ·.toInt) increment := by
  rintro (_ | k)
  · rw [Bucket.Move.increment, if_pos number_none_neg]
    rfl
  · rw [Bucket.Move.increment, if_neg (not_number_neg k), increment]
    by_cases hk : k.val + 1 < 2 ^ 31
    · have hne : number (some k) ≠ Int32.maxValue := fun h => by
        have hmax : (k : Int) = 2147483647 := number_eq_iff.mp h
        omega
      have hsucc : number (some k) + 1 = number (some ⟨k + 1, hk⟩) := (Int32.ofNat_add k 1).symm
      rw [if_neg hne, dif_pos hk, hsucc]
      simp only [Except.map, toInt_number]
      rfl
    · have heq : number (some k) = Int32.maxValue := number_eq_iff.mpr (by
        have := k.isLt
        show (k : Int) = 2147483647
        omega)
      rw [if_pos heq, dif_neg hk]
      rfl

theorem decrement_reads : Reads Bucket.Move.decrement (some ·.toInt) decrement := by
  rintro (_ | ⟨_ | k, hk⟩)
  · rw [Bucket.Move.decrement, if_pos number_none_neg]
    rfl
  · rw [Bucket.Move.decrement, if_neg (not_number_neg _), if_pos (number_eq_iff.mpr rfl)]
    rfl
  · have hne : number (some ⟨k + 1, hk⟩) ≠ 0 := fun h => by
      have hzero : ((k + 1 : Nat) : Int) = 0 := number_eq_iff.mp h
      omega
    have hpred : number (some ⟨k + 1, hk⟩) - 1 = number (some ⟨k, Nat.lt_of_succ_lt hk⟩) := by
      show Int32.ofNat (k + 1) - 1 = Int32.ofNat k
      rw [Int32.ofNat_add]
      exact Int32.add_sub_cancel _ _
    rw [Bucket.Move.decrement, if_neg (not_number_neg _), if_neg hne, decrement, hpred]
    simp only [Except.map, toInt_number]
    rfl

theorem remove_reads : Reads Bucket.Move.delete (fun _ => none) remove := by
  rintro (_ | k)
  · rw [Bucket.Move.delete, if_pos number_none_neg]
    rfl
  · rw [Bucket.Move.delete, if_neg (not_number_neg k)]
    rfl

end Slot

/-! ## Calls -/

/-- The id of a slot, what a slot holds, or a number of buckets. -/
inductive Answer where
  | slot (id : Nat)
  | held (n : Option Int)
  | buckets (n : Nat)

inductive Call where
  | add
  | increment (id : SlotId)
  | decrement (id : SlotId)
  | remove (id : SlotId)
  | count (id : SlotId)
  | buckets

namespace Call

def run (m : SizeMap) : Call → Task Transaction SizesError Answer
  | add => do return .slot (← m.add).toNat
  | increment id => do return .held (some (← m.increment id).toInt)
  | decrement id => do return .held (some (← m.decrement id).toInt)
  | remove id => do
    m.remove id
    return .held none
  | count id => do return .held (some (← m.count id).toInt)
  | buckets => do return .buckets (← m.bucketCount)

/-- A turn with one of some slots. Where it fails, no slot changes. -/
def turned (slots : List Slot) (id : SlotId) (turn : Turn) : Checked SizesError Answer × List Slot :=
  match slots[id.toNat]? with
  | none => (refuse (.slot .unknown id), slots)
  | some s => match turn s with
    | .error kind => (refuse (.slot kind id), slots)
    | .ok s' => (.ok (.held s'.count), slots.set id.toNat s')

/-- What a list of counters answers, and the list after the call, where buckets have some capacity. -/
def on (capacity : Nat) (slots : List Slot) : Call → Checked SizesError Answer × List Slot
  | add => (.ok (.slot slots.length), slots ++ [some ⟨0, by decide⟩])
  | increment id => turned slots id Slot.increment
  | decrement id => turned slots id Slot.decrement
  | remove id => turned slots id Slot.remove
  | count id => turned slots id Slot.look
  | buckets => (.ok (.buckets (slots.length ⌈/⌉ capacity)), slots)

def isRead : Call → Bool
  | count _ | buckets => true
  | _ => false

def adds : Call → Nat
  | add => 1
  | _ => 0

/-- What the list answers to some calls, and the list after them. -/
def onAll (capacity : Nat) : List Slot → List Call → List (Checked SizesError Answer) × List Slot
  | slots, [] => ([], slots)
  | slots, call :: calls =>
    let rest := onAll capacity (call.on capacity slots).2 calls
    ((call.on capacity slots).1 :: rest.1, rest.2)

/-- Some calls one after another, each whatever the ones before it answered. -/
def runAll (m : SizeMap) : Transaction → List Call → List (Checked SizesError Answer) × Transaction
  | t, [] => ([], t)
  | t, call :: calls =>
    let rest := runAll m ((call.run m).start t).2 calls
    (((call.run m).start t).1 :: rest.1, rest.2)

/-- The ids among some answers. -/
def handed : List (Checked SizesError Answer) → List Nat :=
  List.filterMap fun answer => match answer with
    | .ok (.slot id) => some id
    | _ => none

variable {capacity : Nat} {slots : List Slot}

theorem getElem?_turned {id : SlotId} {turn : Turn} {n : Nat} (hturn : ∃ kind, turn none = .error kind)
    (hn : slots[n]? = some none) : (turned slots id turn).2[n]? = some none := by
  obtain ⟨kind, hkind⟩ := hturn
  rw [turned]
  cases hs : slots[id.toNat]? with
  | none => exact hn
  | some s =>
    dsimp only
    cases ht : turn s with
    | error kind' => exact hn
    | ok done =>
      dsimp only
      rw [List.getElem?_set_ne]
      · exact hn
      · rintro rfl
        obtain rfl : s = none := Option.some.inj (hs.symm.trans hn)
        rw [hkind] at ht
        cases ht

theorem length_turned (id : SlotId) (turn : Turn) : (turned slots id turn).2.length = slots.length := by
  rw [turned]
  cases slots[id.toNat]? with
  | none => rfl
  | some s =>
    dsimp only
    cases turn s with
    | error kind => rfl
    | ok done => exact List.length_set

/-- Slots are added at the end, and are never taken away. -/
theorem length_on (capacity : Nat) (slots : List Slot) (call : Call) :
    (call.on capacity slots).2.length = slots.length + call.adds := by
  cases call with
  | add => exact List.length_append
  | increment id => exact length_turned id _
  | decrement id => exact length_turned id _
  | remove id => exact length_turned id _
  | count id => exact length_turned id _
  | buckets => rfl

theorem handed_turned (id : SlotId) (turn : Turn) (answers : List (Checked SizesError Answer)) :
    handed ((turned slots id turn).1 :: answers) = handed answers := by
  rw [turned]
  cases slots[id.toNat]? with
  | none => rfl
  | some s =>
    dsimp only
    cases turn s with
    | error kind => rfl
    | ok s' => rfl

/-- Only a call that adds a slot answers with an id, the one that comes next. -/
theorem handed_on (call : Call) (answers : List (Checked SizesError Answer)) :
    handed ((call.on capacity slots).1 :: answers) =
      List.range' slots.length call.adds ++ handed answers := by
  cases call with
  | add => rfl
  | increment id => exact handed_turned id _ answers
  | decrement id => exact handed_turned id _ answers
  | remove id => exact handed_turned id _ answers
  | count id => exact handed_turned id _ answers
  | buckets => rfl

/-- The ids that some calls hand out follow those that there are, each once. -/
theorem handed_onAll (calls : List Call) : handed (onAll capacity slots calls).1 =
    List.range' slots.length (calls.map adds).sum := by
  induction calls generalizing slots with
  | nil => rfl
  | cons call calls ih =>
    rw [onAll, List.map_cons, List.sum_cons, ← List.range'_append_1, ← length_on capacity slots call]
    exact (handed_on call _).trans (congrArg _ ih)

/-- A slot that is deleted stays so. -/
theorem getElem?_on {n : Nat} (hn : slots[n]? = some none) (call : Call) :
    (call.on capacity slots).2[n]? = some none := by
  cases call with
  | add => exact (List.getElem?_append_left (List.getElem?_eq_some_iff.mp hn).1).trans hn
  | increment id => exact getElem?_turned ⟨_, rfl⟩ hn
  | decrement id => exact getElem?_turned ⟨_, rfl⟩ hn
  | remove id => exact getElem?_turned ⟨_, rfl⟩ hn
  | count id => exact getElem?_turned ⟨_, rfl⟩ hn
  | buckets => exact hn

theorem getElem?_onAll {n : Nat} (hn : slots[n]? = some none) (calls : List Call) :
    (onAll capacity slots calls).2[n]? = some none := by
  induction calls generalizing slots with
  | nil => exact hn
  | cons call calls ih => exact ih (getElem?_on hn call)

end Call

/-- A transaction shows a size map with the numbers of some slots. -/
abbrev Counts (t : Transaction) (file : FileId) (base : List Page) (slots : List Slot) : Prop :=
  Shows t file base (slots.map Slot.number)

namespace Counts

variable {t : Transaction} {m : SizeMap} {base : List Page} {slots : List Slot}

/-- A call that makes a move with a slot takes its turn. -/
theorem turn {α : Type} {f : SlotId → Page → Checked SizesError (α × List Write)} {move : Bucket.Move α}
    {answer : α → Option Int} {turn : Turn} (hf : Bucket.Moves f move) (hr : Slot.Reads move answer turn)
    (h : Counts t m.component.file base slots) (hatt : m.component.isAttached) (operation : String)
    (id : SlotId) :
    ∃ t', (do
        let a ← (do
          let file ← m.file
          m.during operation (SizeMap.onSlot file id f) : Task Transaction SizesError α)
        return .held (answer a) : Task Transaction SizesError Answer).start t =
          ((Call.turned slots id turn).1, t') ∧
      Transaction.Alters m.component.file t t' ∧
      Counts t' m.component.file base (Call.turned slots id turn).2 := by
  obtain ⟨outcome, t', hstart, ha, hend⟩ := h.moves hf hatt operation id
  rw [List.getElem?_map] at hend
  refine ⟨t', ?_⟩
  rw [Task.start_bind, hstart, Call.turned]
  cases hs : slots[id.toNat]? with
  | none =>
    rw [hs] at hend
    obtain ⟨rfl, hshows⟩ := hend
    exact ⟨rfl, ha, hshows⟩
  | some s =>
    rw [hs] at hend
    dsimp only [Option.map_some] at hend ⊢
    have hmove := hr s
    cases hn : move s.number with
    | error kind =>
      rw [hn] at hend hmove
      obtain ⟨rfl, hshows⟩ := hend
      cases ht : turn s with
      | error kind' =>
        rw [ht] at hmove
        cases hmove
        exact ⟨rfl, ha, hshows⟩
      | ok done =>
        rw [ht] at hmove
        cases hmove
    | ok done =>
      rw [hn] at hend hmove
      obtain ⟨rfl, hshows⟩ := hend
      cases ht : turn s with
      | error kind' =>
        rw [ht] at hmove
        cases hmove
      | ok done' =>
        rw [ht] at hmove
        simp only [Except.map, Except.ok.injEq, Prod.mk.injEq] at hmove
        obtain ⟨hanswer, hnumber⟩ := hmove
        refine ⟨congrArg (fun a => (Except.ok (Answer.held a), t')) hanswer, ha, ?_⟩
        rw [Counts, List.map_set, ← hnumber]
        exact hshows

/-- A read is answered as by the list. -/
theorem read (h : Counts t m.component.file base slots) (hatt : m.component.isAttached) (call : Call)
    (hread : call.isRead = true) :
    (call.run m).start t = ((call.on (Bucket.capacity t.mounted.volume.pageSize) slots).1, t) ∧
      (call.on (Bucket.capacity t.mounted.volume.pageSize) slots).2 = slots := by
  cases call with
  | add => cases hread
  | increment id => cases hread
  | decrement id => cases hread
  | remove id => cases hread
  | count id =>
    simp only [Call.run, Call.on, Call.turned]
    rw [Task.start_bind, h.spreads.count_start hatt id, List.getElem?_map]
    cases hs : slots[id.toNat]? with
    | none => exact ⟨rfl, rfl⟩
    | some s =>
      cases s with
      | none => exact ⟨rfl, rfl⟩
      | some k =>
        refine ⟨?_, ?_⟩
        · dsimp only [Option.map_some, Slot.look]
          rw [if_neg (Slot.not_number_neg k)]
          dsimp only
          rw [Slot.toInt_number]
          rfl
        · obtain ⟨hlt, hget⟩ := List.getElem?_eq_some_iff.mp hs
          dsimp only [Slot.look]
          rw [← hget, List.set_getElem_self]
  | buckets =>
    have hg := h.spreads.buckets
    rw [List.length_map] at hg
    refine ⟨((Spreads.file_gives hatt t).bind hg).bind ?_, rfl⟩
    rw [Nat.ceilDiv_eq_add_pred_div]
    exact .pure _ t

/-- A call is answered as by the list, and the size map has the slots of the list after it. -/
theorem call (h : Counts t m.component.file base slots) (hatt : m.component.isAttached) (call : Call)
    (space : slots.length + call.adds ≤ UInt32.size) :
    ∃ t', (call.run m).start t =
        ((call.on (Bucket.capacity t.mounted.volume.pageSize) slots).1, t') ∧
      Transaction.Alters m.component.file t t' ∧
      Counts t' m.component.file base (call.on (Bucket.capacity t.mounted.volume.pageSize) slots).2 := by
  cases call with
  | add =>
    obtain ⟨t', hstart, ha, hs⟩ := h.add hatt
    have hlt : slots.length < UInt32.size := space
    rw [List.length_map] at hstart hs
    rw [if_pos hlt] at hstart
    refine ⟨t', ?_, ha, ?_⟩
    · rw [Call.run, Task.start_bind, hstart]
      show (Except.ok (Answer.slot (UInt32.ofNat slots.length).toNat), t') = _
      rw [UInt32.toNat_ofNat_of_lt' hlt]
      rfl
    · rw [Counts, Call.on, List.map_append]
      exact hs hlt
  | increment id => exact h.turn Bucket.increment_moves Slot.increment_reads hatt _ id
  | decrement id => exact h.turn Bucket.decrement_moves Slot.decrement_reads hatt _ id
  | remove id => exact h.turn Bucket.delete_moves Slot.remove_reads hatt _ id
  | count id =>
    obtain ⟨hstart, hsame⟩ := h.read hatt (.count id) rfl
    exact ⟨t, hstart, .refl _ t, by rwa [hsame]⟩
  | buckets =>
    obtain ⟨hstart, hsame⟩ := h.read hatt .buckets rfl
    exact ⟨t, hstart, .refl _ t, h⟩

/-- Some calls are answered as by the list. -/
theorem calls (h : Counts t m.component.file base slots) (hatt : m.component.isAttached)
    (calls : List Call) (space : slots.length + (calls.map Call.adds).sum ≤ UInt32.size) :
    (Call.runAll m t calls).1 =
      (Call.onAll (Bucket.capacity t.mounted.volume.pageSize) slots calls).1 := by
  induction calls generalizing t slots with
  | nil => rfl
  | cons call calls ih =>
    rw [List.map_cons, List.sum_cons, ← Nat.add_assoc] at space
    obtain ⟨t', hstart, ha, hs⟩ := h.call hatt call (Nat.le_of_add_right_le space)
    have hrest := ih hs (by rwa [Call.length_on])
    rw [ha.mounted] at hrest
    rw [Call.runAll, Call.onAll, hstart, hrest]

/-- A new operation over the same pages shows the same size map. -/
theorem afresh {file : FileId} {mounted : Mounted} {id : OperationId}
    (h : Counts ⟨mounted, .fresh id⟩ file base slots) {mounted' : Mounted}
    (hv : mounted'.volume = mounted.volume) (hr : mounted'.Resident file base) (id' : OperationId) :
    Counts ⟨mounted', .fresh id'⟩ file base slots := by
  obtain ⟨pages, hp, hrenew⟩ := h.renew
  obtain rfl := hp.drafts.eq_of_fresh
  exact hrenew (by rw [hv]) (List.forall₂_same.mpr fun p _ => .refl p) hr id'

theorem elsewhere {file other : FileId} {t' : Transaction} (h : Counts t file base slots)
    (apart : other ≠ file) (ha : Transaction.Alters other t t') : Counts t' file base slots := by
  obtain ⟨⟨⟨pages, hp, hon⟩, hroom, hlimit, hfew, hcovers⟩, hids⟩ := h
  rw [← ha.mounted] at hon hroom hlimit hfew hcovers
  exact ⟨⟨⟨pages, ha.shows_other apart.symm hp, hon⟩, hroom, hlimit, hfew, hcovers⟩, hids⟩

end Counts

/-! ## Runs -/

/-- Engines reached from the creation of a size map, with the list that is committed if there is one,
and the operation in flight if there is one with its list. Slots are added as long as their ids last. -/
inductive Reachable (m : SizeMap) :
    Engine → Option (List Slot) → Option (Operation × List Slot) → Prop where
  | created {settings : Settings} {e₀ e : Engine} {op : Operation} {detached : SizeMap} {t : Transaction}
      (valid : settings.validate = .ok ()) (pages : e₀.mounted.volume.pageSize = settings.pageSize)
      (start : Engine.start.Gives e₀ op e) (create : detached.create.Gives ⟨e.mounted, op⟩ m t)
      (attached : m.component.isAttached) :
      Reachable m { e with mounted := t.mounted } none (some (t.operation, []))
  | call {e : Engine} {committed : Option (List Slot)} {op : Operation} {slots : List Slot}
      (h : Reachable m e committed (some (op, slots))) (call : Call)
      (space : slots.length + call.adds ≤ UInt32.size) {outcome : Checked SizesError Answer}
      {t : Transaction} (run : (call.run m).start ⟨e.mounted, op⟩ = (outcome, t)) :
      Reachable m { e with mounted := t.mounted } committed
        (some (t.operation, (call.on (Bucket.capacity e.mounted.volume.pageSize) slots).2))
  | view {e : Engine} {slots : List Slot} {flight : Option (Operation × List Slot)}
      (h : Reachable m e (some slots) flight) (call : Call) (read : call.isRead = true)
      {outcome : Checked SizesError Answer} {t : Transaction}
      (run : (call.run m).start ⟨e.mounted, .none⟩ = (outcome, t)) :
      Reachable m { e with mounted := t.mounted } (some slots) flight
  | elsewhere {e : Engine} {committed : Option (List Slot)} {op : Operation} {slots : List Slot}
      (h : Reachable m e committed (some (op, slots))) {other : FileId}
      (apart : other ≠ m.component.file) {t : Transaction}
      (alters : Transaction.Alters other ⟨e.mounted, op⟩ t) :
      Reachable m e committed (some (t.operation, slots))
  | commit {e e' : Engine} {committed : Option (List Slot)} {op : Operation} {slots : List Slot}
      (h : Reachable m e committed (some (op, slots))) (run : (Engine.commit op).Gives e () e') :
      Reachable m e' (some slots) none
  | failed {e e' : Engine} {committed : Option (List Slot)} {op : Operation} {slots : List Slot}
      (h : Reachable m e committed (some (op, slots))) {cause : StorageError}
      (run : (Engine.commit op).start e = (.error (.error cause), e'))
      (usable : e'.journal.broken = false) : Reachable m e' committed none
  | giveUp {e : Engine} {committed : Option (List Slot)} {op : Operation} {slots : List Slot}
      (h : Reachable m e committed (some (op, slots))) : Reachable m e committed none
  | start {e e' : Engine} {slots : List Slot} {op : Operation}
      (h : Reachable m e (some slots) none) (run : Engine.start.Gives e op e') :
      Reachable m e' (some slots) (some (op, slots))

/-- What holds of an engine along the runs of a size map. -/
structure Held (m : SizeMap) (e : Engine) (committed : Option (List Slot))
    (flight : Option (Operation × List Slot)) : Prop where
  attached : m.component.isAttached
  committed : ∀ slots, committed = some slots → ∃ base, e.mounted.Resident m.component.file base ∧
    Counts ⟨e.mounted, .none⟩ m.component.file base slots
  flight : ∀ op slots, flight = some (op, slots) →
    ∃ base, Engine.Known op m.component.file e.mounted base ∧
      Counts ⟨e.mounted, op⟩ m.component.file base slots

variable {m : SizeMap} {e e' : Engine} {committed : Option (List Slot)}
  {flight : Option (Operation × List Slot)} {op : Operation} {slots : List Slot} {t : Transaction}

/-! Each step of a run keeps what holds of the engine. -/

namespace Held

theorem created {settings : Settings} {e₀ : Engine} {detached : SizeMap} (valid : settings.validate = .ok ())
    (pages : e₀.mounted.volume.pageSize = settings.pageSize) (start : Engine.start.Gives e₀ op e)
    (create : detached.create.Gives ⟨e.mounted, op⟩ m t) (attached : m.component.isAttached) :
    Held m { e with mounted := t.mounted } none (some (t.operation, [])) := by
  obtain ⟨id, rfl, hm⟩ := Tree.start_gives start
  have hample : Tree.Ample e.mounted.volume.pageSize := by
    rw [hm, pages]
    exact .ofSettings valid
  obtain ⟨t', hg, ha, hs⟩ := exists_create (create_gives create)
    (by simp [Operation.fresh]) (fun i => by simp [Operation.fresh, Operation.draft?])
    (Nat.le_trans (by decide) hample.1) hample.2
  obtain ⟨rfl, rfl⟩ := hg.unique create
  refine ⟨attached, fun _ hslots => (by cases hslots), ?_⟩
  rintro op slots ⟨⟩
  refine ⟨[], .inl ⟨⟨detached.fileName, ?_⟩, rfl⟩, hs⟩
  rw [ha.created]
  rfl

theorem call (h : Held m e committed (some (op, slots))) (call : Call)
    (space : slots.length + call.adds ≤ UInt32.size) {outcome : Checked SizesError Answer}
    (run : (call.run m).start ⟨e.mounted, op⟩ = (outcome, t)) :
    Held m { e with mounted := t.mounted } committed
      (some (t.operation, (call.on (Bucket.capacity e.mounted.volume.pageSize) slots).2)) := by
  obtain ⟨base, hk, hs⟩ := h.flight op slots rfl
  obtain ⟨t', hstart, ha, hs'⟩ := hs.call h.attached call space
  obtain rfl : t' = t := congrArg Prod.snd (hstart.symm.trans run)
  have hm : t'.mounted = e.mounted := ha.mounted
  have ht : (⟨e.mounted, t'.operation⟩ : Transaction) = t' := by rw [← hm]
  rw [hm]
  refine ⟨h.attached, h.committed, ?_⟩
  rintro op' slots' ⟨⟩
  exact ⟨base, hk.alters ha, ht.symm ▸ hs'⟩

theorem view (h : Held m e (some slots) flight) (call : Call) (read : call.isRead = true)
    {outcome : Checked SizesError Answer} (run : (call.run m).start ⟨e.mounted, .none⟩ = (outcome, t)) :
    Held m { e with mounted := t.mounted } (some slots) flight := by
  obtain ⟨base, hr, hs⟩ := h.committed slots rfl
  obtain ⟨hstart, -⟩ := hs.read h.attached call read
  obtain rfl : (⟨e.mounted, .none⟩ : Transaction) = t := congrArg Prod.snd (hstart.symm.trans run)
  exact ⟨h.attached, h.committed, h.flight⟩

theorem elsewhere (h : Held m e committed (some (op, slots))) {other : FileId}
    (apart : other ≠ m.component.file) (ha : Transaction.Alters other ⟨e.mounted, op⟩ t) :
    Held m e committed (some (t.operation, slots)) := by
  refine ⟨h.attached, h.committed, ?_⟩
  rintro op' slots' ⟨⟩
  obtain ⟨base, hk, hs⟩ := h.flight op slots rfl
  have hm : t.mounted = e.mounted := ha.mounted
  refine ⟨base, hk.alters ha, ?_⟩
  rw [← hm]
  exact hs.elsewhere apart ha

theorem commit (h : Held m e committed (some (op, slots))) (run : (Engine.commit op).Gives e () e') :
    Held m e' (some slots) none := by
  obtain ⟨base, hk, hs⟩ := h.flight op slots rfl
  obtain ⟨pages, hp, hrenew⟩ := hs.renew
  obtain ⟨⟨cur, hr, ha⟩, hps⟩ :=
    Engine.commit_resident run hk hp.drafts (Nat.le_trans (by decide) hs.spreads.room)
  refine ⟨h.attached, ?_, nofun⟩
  rintro slots' ⟨⟩
  exact ⟨cur, hr, hrenew hps ha hr 0⟩

theorem failed (h : Held m e committed flight) {cause : StorageError}
    (run : (Engine.commit op).start e = (.error (.error cause), e')) (usable : e'.journal.broken = false) :
    Held m e' committed none := by
  have hv := (Engine.commit_fails run usable).volume
  refine ⟨h.attached, fun slots' hslots => ?_, nofun⟩
  obtain ⟨base, hr, hs⟩ := h.committed slots' hslots
  exact ⟨base, hr.congr hv, hs.afresh hv (hr.congr hv) 0⟩

theorem start (h : Held m e (some slots) none) (run : Engine.start.Gives e op e') :
    Held m e' (some slots) (some (op, slots)) := by
  obtain ⟨id, rfl, hm⟩ := Tree.start_gives run
  refine ⟨h.attached, ?_, ?_⟩
  · rw [hm]
    exact h.committed
  · rintro op' slots' ⟨⟩
    obtain ⟨base, hr, hs⟩ := h.committed slots rfl
    rw [hm]
    exact ⟨base, .inr ⟨by simp [Operation.fresh], hr⟩, hs.afresh rfl hr id⟩

end Held

theorem Reachable.held (h : Reachable m e committed flight) : Held m e committed flight := by
  induction h with
  | created valid pages start create attached => exact .created valid pages start create attached
  | call h call space run ih => exact ih.call call space run
  | view h call read run ih => exact ih.view call read run
  | elsewhere h apart alters ih => exact ih.elsewhere apart alters
  | commit h run ih => exact ih.commit run
  | failed h run usable ih => exact ih.failed run usable
  | giveUp h ih => exact { ih with flight := nofun }
  | start h run ih => exact ih.start run

/-- A size map can be created in every usable engine where its name is free. -/
theorem Reachable.exists_created (settings : Settings) (e : Engine) (name : String)
    (valid : settings.validate = .ok ()) (pages : e.mounted.volume.pageSize = settings.pageSize)
    (usable : e.journal.broken = false)
    (free : e.mounted.volume.idOf? (SizeMap.named name).fileName = none)
    (hid : e.mounted.volume.catalog.nextId ≠ .none) :
    ∃ e' op, Reachable ((SizeMap.named name).attached e.mounted.volume.catalog.nextId) e' none
      (some (op, [])) := by
  set op := Operation.fresh e.journal.nextOperation
  set e₁ : Engine := { e with journal := { e.journal with nextOperation := e.journal.nextOperation + 1 } }
  have hstart : Engine.start.Gives e op e₁ := Engine.start_of_usable usable
  have hfree : (Transaction.fileExists (SizeMap.named name).fileName).Gives ⟨e₁.mounted, op⟩ false
      ⟨e₁.mounted, op⟩ := by
    refine (Task.Gives.state _).bind ?_
    have hnew : ¬ (op.createdId? (SizeMap.named name).fileName).isSome = true := by
      simp [op, Operation.createdId?, Operation.fresh]
    dsimp only
    rw [if_neg hnew, show e₁.mounted.volume = e.mounted.volume from rfl, free]
    exact .pure _ _
  have hample : Tree.Ample e.mounted.volume.pageSize := pages ▸ .ofSettings valid
  obtain ⟨t, hcreate, -⟩ := exists_create hfree (by simp [op, Operation.fresh])
    (fun i => by simp [op, Operation.fresh, Operation.draft?]) (Nat.le_trans (by decide) hample.1) hample.2
  exact ⟨_, _, .created valid pages hstart hcreate (decide_eq_true hid)⟩

/-- Every call of a run is answered as by the list of counters: calls in the operation in flight, any
number of them one after another, by the list of that operation, and reads in a view by the committed
list. The ids that calls hand out follow those that there are, and what is deleted stays so. -/
theorem Reachable.counters_answered (h : Reachable m e committed flight) :
    (∀ op slots, flight = some (op, slots) → ∀ calls : List Call,
      slots.length + (calls.map Call.adds).sum ≤ UInt32.size →
      (Call.runAll m ⟨e.mounted, op⟩ calls).1 =
        (Call.onAll (Bucket.capacity e.mounted.volume.pageSize) slots calls).1 ∧
      Call.handed (Call.runAll m ⟨e.mounted, op⟩ calls).1 =
        List.range' slots.length (calls.map Call.adds).sum ∧
      ∀ n : Nat, slots[n]? = some none →
        (Call.onAll (Bucket.capacity e.mounted.volume.pageSize) slots calls).2[n]? = some none) ∧
    ∀ slots, committed = some slots → ∀ call : Call, call.isRead = true →
      (call.run m).start ⟨e.mounted, .none⟩ =
        ((call.on (Bucket.capacity e.mounted.volume.pageSize) slots).1, ⟨e.mounted, .none⟩) := by
  obtain ⟨hatt, hc, hf⟩ := h.held
  refine ⟨fun op slots hslots calls space => ?_, fun slots hslots call hread => ?_⟩
  · obtain ⟨base, -, hs⟩ := hf op slots hslots
    have hanswers := hs.calls hatt calls space
    refine ⟨hanswers, ?_, fun n hn => Call.getElem?_onAll hn calls⟩
    rw [hanswers]
    exact Call.handed_onAll calls
  · obtain ⟨base, -, hs⟩ := hc slots hslots
    exact (hs.read hatt call hread).1

/-- A counter that was added and deleted has no count. -/
theorem count_after_remove : ∃ m e op, Reachable m e none (some (op, [])) ∧
    (Call.runAll m ⟨e.mounted, op⟩ [.add, .increment 0, .remove 0, .count 0]).1 =
      [.ok (.slot 0), .ok (.held (some 1)), .ok (.held none), refuse (.slot .deleted 0)] := by
  obtain ⟨e, op, h⟩ := Reachable.exists_created ⟨"", 1024, 1, false⟩
    ⟨⟨.empty, ⟨.top, 1024, 1, .empty, ∅⟩⟩, ⟨⟨0, false⟩, 1, false⟩⟩ "counters" rfl rfl rfl rfl (by decide)
  have hanswers := ((Reachable.counters_answered h).1 _ _ rfl [.add, .increment 0, .remove 0, .count 0]
    (by decide)).1
  exact ⟨_, e, op, h, hanswers⟩

end RefStore.SizeMap
