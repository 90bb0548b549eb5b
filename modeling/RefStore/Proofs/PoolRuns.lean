import Mathlib.Data.List.Basic
import RefStore.Page.Pool

/-!
# Runs of a buffer pool

What a pool hands out, a buffer or a page, is out until it is given back. Over any run of calls, what is out
and what can still be handed out make up the capacity of the pool. Main statement: `Pool.runs_conserve`.
-/

namespace RefStore.Pool

/-- Something that was handed out. -/
inductive Loan where
  | buffer (bytes : ByteArray)
  | page (page : PooledPage)

namespace Loan

def bytes : Loan → ByteArray
  | buffer bytes => bytes
  | page p => p.bytes

/-- Whether it is one of the pool's own, which a page made outside it is not. -/
def owed : Loan → Bool
  | buffer _ => true
  | page p => p.pooled

/-- The same after it was written to. -/
def withBytes (bytes : ByteArray) : Loan → Loan
  | buffer _ => buffer bytes
  | page p => page { p with bytes }

@[simp] theorem bytes_withBytes (bytes : ByteArray) (loan : Loan) : (loan.withBytes bytes).bytes = bytes := by
  cases loan <;> rfl

@[simp] theorem owed_withBytes (bytes : ByteArray) (loan : Loan) : (loan.withBytes bytes).owed = loan.owed := by
  cases loan <;> rfl

end Loan

/-- How many of the pool's own are out. -/
def outstanding (loans : List Loan) : Nat := loans.countP Loan.owed

theorem outstanding_cons (loan : Loan) (loans : List Loan) :
    outstanding (loan :: loans) = outstanding loans + if loan.owed then 1 else 0 :=
  List.countP_cons

theorem outstanding_middle (left : List Loan) (loan : Loan) (right : List Loan) :
    outstanding (left ++ loan :: right) = outstanding (left ++ right) + if loan.owed then 1 else 0 := by
  rw [outstanding, List.perm_middle.countP_eq]
  exact outstanding_cons loan (left ++ right)

/-- A call on a pool, with what is out before and after it. What is out may be written to, keeping its size.
Only what is out is given back or dropped, and then it is out no more. -/
inductive Step : Pool → List Loan → Pool → List Loan → Prop where
  | lease {pool rest : Pool} {loans : List Loan} {bytes : ByteArray} (run : pool.lease = some (bytes, rest)) :
      Step pool loans rest (.buffer bytes :: loans)
  | leaseZeroed {pool rest : Pool} {loans : List Loan} {bytes : ByteArray}
      (run : pool.leaseZeroed = some (bytes, rest)) : Step pool loans rest (.buffer bytes :: loans)
  | leasePage {pool rest : Pool} {loans : List Loan} {p : PooledPage} (run : pool.leasePage = some (p, rest)) :
      Step pool loans rest (.page p :: loans)
  | zeroedPage {pool rest : Pool} {loans : List Loan} {p : PooledPage} (run : pool.zeroedPage = (p, rest)) :
      Step pool loans rest (.page p :: loans)
  | write {pool : Pool} {left right : List Loan} {loan : Loan} {bytes : ByteArray}
      (size : bytes.size = loan.bytes.size) :
      Step pool (left ++ loan :: right) pool (left ++ loan.withBytes bytes :: right)
  | giveBack {pool rest : Pool} {left right : List Loan} {bytes : ByteArray}
      (run : (pool.giveBack bytes : Checked Empty Pool) = .ok rest) :
      Step pool (left ++ .buffer bytes :: right) rest (left ++ right)
  | drop {pool rest : Pool} {left right : List Loan} {p : PooledPage}
      (run : (pool.drop p : Checked Empty Pool) = .ok rest) :
      Step pool (left ++ .page p :: right) rest (left ++ right)

/-- What a run of calls leads to. -/
inductive Reached (fresh : Pool) : Pool → List Loan → Prop where
  | start : Reached fresh fresh []
  | step {pool rest : Pool} {loans more : List Loan} (h : Reached fresh pool loans)
      (call : Step pool loans rest more) : Reached fresh rest more

/-- The buffers that were made are free or out, and all of them have the size of the pool's pages. -/
structure Balanced (pageSize capacity : Nat) (pool : Pool) (loans : List Loan) : Prop where
  size_eq : pool.pageSize = pageSize
  capacity_eq : pool.capacity = capacity
  made : pool.free.length + outstanding loans = pool.allocated
  room : pool.allocated ≤ capacity
  free : ∀ bytes ∈ pool.free, bytes.size = pageSize
  lent : ∀ loan ∈ loans, loan.bytes.size = pageSize

variable {pageSize capacity : Nat} {pool rest : Pool} {loans more left right : List Loan} {loan : Loan}
  {bytes : ByteArray}

theorem lease_eq_none_iff : pool.lease = none ↔ pool.free = [] ∧ pool.capacity ≤ pool.allocated := by
  rw [lease]
  cases pool.free with
  | nil => simp
  | cons buffer free => simp

/-- A free buffer goes out first, and a new one is made only when there is none. -/
theorem lease_cases (run : pool.lease = some (bytes, rest)) :
    (∃ free, pool.free = bytes :: free ∧ rest = { pool with free }) ∨
      pool.free = [] ∧ pool.allocated < pool.capacity ∧ bytes = Block.zeros pool.pageSize ∧
        rest = { pool with allocated := pool.allocated + 1 } := by
  rw [lease] at run
  cases hfree : pool.free with
  | cons buffer free =>
    simp only [hfree] at run
    cases run
    exact .inl ⟨free, rfl, rfl⟩
  | nil =>
    simp only [hfree] at run
    split at run
    · next hlt =>
      cases run
      exact .inr ⟨rfl, hlt, rfl, rfl⟩
    · cases run

theorem giveBack_eq {ε : Type} (size : bytes.size = pool.pageSize) (out : pool.free.length < pool.allocated) :
    (pool.giveBack bytes : Checked ε Pool) = .ok { pool with free := bytes :: pool.free } :=
  if_pos ⟨size, out⟩

theorem drop_unpooled {ε : Type} {p : PooledPage} (outside : p.pooled = false) :
    (pool.drop p : Checked ε Pool) = .ok pool := by
  rw [drop, outside]
  rfl

theorem drop_pooled {ε : Type} {p : PooledPage} (own : p.pooled = true) :
    (pool.drop p : Checked ε Pool) = pool.giveBack p.bytes :=
  if_pos own

namespace Balanced

theorem create (hsize : 0 < pageSize) (hcapacity : 0 < capacity) :
    (Pool.create pageSize capacity : Checked Empty Pool) = .ok ⟨pageSize, capacity, [], 0⟩ ∧
      Balanced pageSize capacity ⟨pageSize, capacity, [], 0⟩ [] := by
  constructor
  · exact if_pos ⟨hcapacity, hsize⟩
  · exact ⟨rfl, rfl, rfl, Nat.zero_le capacity, nofun, nofun⟩

section

variable (h : Balanced pageSize capacity pool loans)
include h

theorem size_lease (run : pool.lease = some (bytes, rest)) : bytes.size = pageSize := by
  rcases lease_cases run with ⟨free, hfree, -⟩ | ⟨-, -, rfl, -⟩
  · apply h.free
    rw [hfree]
    exact List.mem_cons_self
  · rw [Block.size_zeros, h.size_eq]

/-- One of the pool's own goes out. -/
theorem lend (run : pool.lease = some (bytes, rest)) (own : loan.owed = true)
    (size : loan.bytes.size = pageSize) : Balanced pageSize capacity rest (loan :: loans) := by
  have hmade := h.made
  have hcapacity := h.capacity_eq
  have hout : outstanding (loan :: loans) = outstanding loans + 1 := by
    rw [outstanding_cons, if_pos own]
  have hlent : ∀ x ∈ loan :: loans, x.bytes.size = pageSize := by
    simpa [size] using h.lent
  rcases lease_cases run with ⟨free, hfree, rfl⟩ | ⟨hfree, hlt, -, rfl⟩
  · have hsizes := h.free
    rw [hfree] at hmade hsizes
    constructor
    case size_eq => exact h.size_eq
    case capacity_eq => exact hcapacity
    case made =>
      rw [hout, ← hmade, List.length_cons, Nat.add_right_comm, Nat.add_assoc]
    case room => exact h.room
    case free => exact fun b hb => hsizes b (List.mem_cons_of_mem _ hb)
    case lent => exact hlent
  · rw [hfree] at hmade
    constructor
    case size_eq => exact h.size_eq
    case capacity_eq => exact hcapacity
    case made =>
      rw [hout, hfree, ← hmade, Nat.add_assoc]
    case room => exact hcapacity ▸ hlt
    case free => exact h.free
    case lent => exact hlent

/-- A page that was made outside the pool is out. -/
theorem lendOutside (outside : loan.owed = false) (size : loan.bytes.size = pageSize) :
    Balanced pageSize capacity pool (loan :: loans) where
  size_eq := h.size_eq
  capacity_eq := h.capacity_eq
  made := by
    rw [outstanding_cons, outside]
    exact h.made
  room := h.room
  free := h.free
  lent := by simpa [size] using h.lent

end

section

variable (h : Balanced pageSize capacity pool (left ++ loan :: right))
include h

theorem size_middle : loan.bytes.size = pageSize := h.lent loan (by simp)

theorem lent_rest : ∀ x ∈ left ++ right, x.bytes.size = pageSize := by
  intro x hx
  apply h.lent
  rw [List.mem_append, List.mem_cons]
  rw [List.mem_append] at hx
  tauto

/-- Something that is out was written to. -/
theorem write (size : bytes.size = loan.bytes.size) :
    Balanced pageSize capacity pool (left ++ loan.withBytes bytes :: right) where
  size_eq := h.size_eq
  capacity_eq := h.capacity_eq
  made := by
    have hmade := h.made
    rw [outstanding_middle] at hmade
    rw [outstanding_middle, Loan.owed_withBytes]
    exact hmade
  room := h.room
  free := h.free
  lent := by
    have hrest := h.lent_rest
    have hsize := h.size_middle
    intro x hx
    rw [List.mem_append, List.mem_cons] at hx
    rcases hx with hx | rfl | hx
    · exact hrest x (by simp [hx])
    · rw [Loan.bytes_withBytes, size, hsize]
    · exact hrest x (by simp [hx])

/-- One of the pool's own comes back. -/
theorem takeBack (own : loan.owed = true) : ∃ rest, (pool.giveBack loan.bytes : Checked Empty Pool) = .ok rest ∧
    Balanced pageSize capacity rest (left ++ right) := by
  have hmade := h.made
  have hsize := h.size_middle
  rw [outstanding_middle, if_pos own] at hmade
  refine ⟨{ pool with free := loan.bytes :: pool.free }, ?_, ?_⟩
  · apply giveBack_eq
    · rw [hsize, h.size_eq]
    · omega
  · constructor
    case size_eq => exact h.size_eq
    case capacity_eq => exact h.capacity_eq
    case made =>
      rw [List.length_cons, ← hmade]
      omega
    case room => exact h.room
    case free => simpa [hsize] using h.free
    case lent => exact h.lent_rest

/-- A page made outside the pool is gone. -/
theorem forget (outside : loan.owed = false) : Balanced pageSize capacity pool (left ++ right) where
  size_eq := h.size_eq
  capacity_eq := h.capacity_eq
  made := by
    have hmade := h.made
    rw [outstanding_middle, outside] at hmade
    exact hmade
  room := h.room
  free := h.free
  lent := h.lent_rest

end

end Balanced

/-! ## Runs -/

theorem leaseZeroed_eq : pool.leaseZeroed = pool.lease.map fun leased => (Block.zeros leased.1.size, leased.2) := rfl

theorem leasePage_eq :
    pool.leasePage = pool.lease.map fun leased => (⟨Block.zeros leased.1.size, true⟩, leased.2) := by
  rw [leasePage, leaseZeroed_eq, Option.map_map]
  rfl

theorem zeroedPage_cases :
    (∃ bytes rest, pool.lease = some (bytes, rest) ∧ pool.zeroedPage = (⟨Block.zeros bytes.size, true⟩, rest)) ∨
      pool.lease = none ∧ pool.zeroedPage = (⟨Block.zeros pool.pageSize, false⟩, pool) := by
  rw [zeroedPage, leasePage_eq]
  cases pool.lease with
  | none => exact .inr ⟨rfl, rfl⟩
  | some leased => exact .inl ⟨leased.1, leased.2, rfl, rfl⟩

/-- Every call keeps the balance. -/
theorem Step.balanced (call : Step pool loans rest more) (h : Balanced pageSize capacity pool loans) :
    Balanced pageSize capacity rest more := by
  cases call with
  | lease run => exact h.lend run rfl (h.size_lease run)
  | leaseZeroed run =>
    rw [leaseZeroed_eq] at run
    obtain ⟨⟨bytes, rest⟩, hlease, heq⟩ := Option.map_eq_some_iff.mp run
    cases heq
    exact h.lend hlease rfl ((Block.size_zeros _).trans (h.size_lease hlease))
  | leasePage run =>
    rw [leasePage_eq] at run
    obtain ⟨⟨bytes, rest⟩, hlease, heq⟩ := Option.map_eq_some_iff.mp run
    cases heq
    exact h.lend hlease rfl ((Block.size_zeros _).trans (h.size_lease hlease))
  | zeroedPage run =>
    rcases zeroedPage_cases with ⟨bytes, rest, hlease, heq⟩ | ⟨-, heq⟩
    · rw [heq] at run
      cases run
      exact h.lend hlease rfl ((Block.size_zeros _).trans (h.size_lease hlease))
    · rw [heq] at run
      cases run
      exact h.lendOutside rfl ((Block.size_zeros _).trans h.size_eq)
  | write size => exact h.write size
  | giveBack run =>
    obtain ⟨rest, hback, hrest⟩ := h.takeBack rfl
    cases run.symm.trans hback
    exact hrest
  | @drop _ _ _ p run =>
    cases hp : p.pooled with
    | true =>
      obtain ⟨rest, hback, hrest⟩ := h.takeBack hp
      rw [drop_pooled hp] at run
      cases run.symm.trans hback
      exact hrest
    | false =>
      rw [drop_unpooled hp] at run
      cases run
      exact h.forget hp

theorem Reached.balanced {fresh : Pool} (h : Reached fresh pool loans)
    (start : Balanced pageSize capacity fresh []) : Balanced pageSize capacity pool loans := by
  induction h with
  | start => exact start
  | step h call ih => exact call.balanced ih

/-- What a pool of some page size and capacity answers, with what is out. -/
structure Conserves (pageSize capacity : Nat) (pool : Pool) (loans : List Loan) : Prop where
  made : pool.allocated ≤ pool.capacity
  sum : pool.available + outstanding loans = capacity
  exhausted : pool.lease = none ↔ outstanding loans = capacity
  sizes : ∀ bytes ∈ pool.free ++ loans.map Loan.bytes, bytes.size = pageSize
  leased : ∀ bytes rest, pool.lease = some (bytes, rest) → bytes.size = pageSize
  leaseZeroed : pool.leaseZeroed = pool.lease.map fun leased => (Block.zeros pageSize, leased.2)
  leasePage : pool.leasePage = pool.lease.map fun leased => (⟨Block.zeros pageSize, true⟩, leased.2)
  zeroedPage : pool.zeroedPage =
    (pool.lease.map fun leased => (⟨Block.zeros pageSize, true⟩, leased.2)).getD (⟨Block.zeros pageSize, false⟩, pool)
  givenBack : ∀ bytes, .buffer bytes ∈ loans → ∃ rest, (pool.giveBack bytes : Checked Empty Pool) = .ok rest
  dropped : ∀ p, .page p ∈ loans → ∃ rest, (pool.drop p : Checked Empty Pool) = .ok rest
  outside : ∀ p, .page p ∈ loans → p.pooled = false → (pool.drop p : Checked Empty Pool) = .ok pool

namespace Balanced

variable (h : Balanced pageSize capacity pool loans)
include h

theorem available_add : pool.available + outstanding loans = capacity := by
  have hmade := h.made
  have hroom := h.room
  rw [available, h.capacity_eq]
  omega

theorem lease_none_iff : pool.lease = none ↔ outstanding loans = capacity := by
  have hmade := h.made
  have hroom := h.room
  rw [lease_eq_none_iff, h.capacity_eq]
  constructor
  · rintro ⟨hfree, hfull⟩
    rw [hfree] at hmade
    simp at hmade
    omega
  · intro hout
    have hnone : pool.free.length = 0 := by omega
    exact ⟨List.length_eq_zero_iff.mp hnone, by omega⟩

/-- Whatever a buffer held, a zeroed one has zeros only. -/
theorem map_lease {α : Type} (f : ByteArray → α) :
    (pool.lease.map fun leased => (f (Block.zeros leased.1.size), leased.2)) =
      pool.lease.map fun leased => (f (Block.zeros pageSize), leased.2) := by
  apply Option.map_congr
  intro leased hleased
  rw [h.size_lease hleased]

theorem leasePage_zeroed :
    pool.leasePage = pool.lease.map fun leased => (⟨Block.zeros pageSize, true⟩, leased.2) :=
  leasePage_eq.trans (h.map_lease fun bytes => (⟨bytes, true⟩ : PooledPage))

theorem comesBack (mem : loan ∈ loans) (own : loan.owed = true) :
    ∃ rest, (pool.giveBack loan.bytes : Checked Empty Pool) = .ok rest := by
  obtain ⟨left, right, rfl⟩ := List.append_of_mem mem
  obtain ⟨rest, hback, -⟩ := h.takeBack own
  exact ⟨rest, hback⟩

theorem conserves : Conserves pageSize capacity pool loans where
  made := h.capacity_eq ▸ h.room
  sum := h.available_add
  exhausted := h.lease_none_iff
  sizes bytes mem := by
    rw [List.mem_append, List.mem_map] at mem
    rcases mem with hfree | ⟨loan, hlent, rfl⟩
    · exact h.free bytes hfree
    · exact h.lent loan hlent
  leased _ _ := h.size_lease
  leaseZeroed := h.map_lease id
  leasePage := h.leasePage_zeroed
  zeroedPage := by rw [Pool.zeroedPage, h.leasePage_zeroed, h.size_eq]
  givenBack _ mem := h.comesBack mem rfl
  dropped p mem := by
    cases hp : p.pooled with
    | true =>
      rw [drop_pooled hp]
      exact h.comesBack mem hp
    | false => exact ⟨pool, drop_unpooled hp⟩
  outside _ _ := drop_unpooled

end Balanced

/-- A pool of some size and capacity can be made, and whatever calls follow, none is a misuse, what is out and
what is left make up the capacity, and what is handed out has the size of a page. -/
theorem runs_conserve (hsize : 0 < pageSize) (hcapacity : 0 < capacity) :
    ∃ fresh, (Pool.create pageSize capacity : Checked Empty Pool) = .ok fresh ∧
      ∀ pool loans, Reached fresh pool loans → Conserves pageSize capacity pool loans := by
  obtain ⟨hmade, hstart⟩ := Balanced.create hsize hcapacity
  exact ⟨_, hmade, fun pool loans h => (h.balanced hstart).conserves⟩

/-- A buffer that is written to and given back goes out zeroed the next time. -/
theorem runs_conserve_reused : ∃ fresh : Pool, (Pool.create 4 1 : Checked Empty Pool) = .ok fresh ∧
    Reached fresh ⟨4, 1, [⟨#[1, 2, 3, 4]⟩], 1⟩ [] ∧
    Conserves 4 1 ⟨4, 1, [⟨#[1, 2, 3, 4]⟩], 1⟩ [] ∧
    (⟨4, 1, [⟨#[1, 2, 3, 4]⟩], 1⟩ : Pool).leaseZeroed = some (Block.zeros 4, ⟨4, 1, [], 1⟩) := by
  have hsize : 0 < 4 := by decide
  have hcapacity : 0 < 1 := by decide
  obtain ⟨fresh, hfresh, hconserves⟩ := runs_conserve hsize hcapacity
  cases hfresh
  have hlease : Step ⟨4, 1, [], 0⟩ [] ⟨4, 1, [], 1⟩ [.buffer (Block.zeros 4)] := .lease rfl
  have hwrite : Step ⟨4, 1, [], 1⟩ ([] ++ .buffer (Block.zeros 4) :: []) ⟨4, 1, [], 1⟩
      ([] ++ (Loan.buffer (Block.zeros 4)).withBytes ⟨#[1, 2, 3, 4]⟩ :: []) := .write rfl
  have hgiveBack : Step ⟨4, 1, [], 1⟩ ([] ++ .buffer ⟨#[1, 2, 3, 4]⟩ :: [])
      ⟨4, 1, [⟨#[1, 2, 3, 4]⟩], 1⟩ ([] ++ []) := .giveBack rfl
  have hback : Reached ⟨4, 1, [], 0⟩ ⟨4, 1, [⟨#[1, 2, 3, 4]⟩], 1⟩ [] :=
    .step (.step (.step .start hlease) hwrite) hgiveBack
  have h := hconserves _ _ hback
  refine ⟨_, rfl, hback, h, ?_⟩
  rw [h.leaseZeroed]
  rfl

end RefStore.Pool
