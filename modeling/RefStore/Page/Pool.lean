import RefStore.Page

/-!
# Buffer pool

A pool hands out buffers of one size and takes them back. It makes new ones until it has made as
many as its capacity; buffers given back are handed out again, the last one first, with what they
hold.
-/

namespace RefStore

structure Pool where
  pageSize : Nat
  capacity : Nat
  free : List ByteArray
  allocated : Nat

/-- A page that goes back to the pool when it is dropped, unless it was made outside it. -/
structure PooledPage where
  bytes : ByteArray
  pooled : Bool

namespace Pool

variable {ε : Type}

def create (pageSize capacity : Nat) : Checked ε Pool :=
  if 0 < capacity ∧ 0 < pageSize then .ok ⟨pageSize, capacity, [], 0⟩ else halt .poolMisuse

def lease (pool : Pool) : Option (ByteArray × Pool) :=
  match pool.free with
  | buffer :: rest => some (buffer, { pool with free := rest })
  | [] =>
    if pool.allocated < pool.capacity then
      some (Block.zeros pool.pageSize, { pool with allocated := pool.allocated + 1 })
    else none

def leaseZeroed (pool : Pool) : Option (ByteArray × Pool) :=
  pool.lease.map fun (buffer, rest) => (Block.zeros buffer.size, rest)

def leasePage (pool : Pool) : Option (PooledPage × Pool) :=
  pool.leaseZeroed.map fun (buffer, rest) => (⟨buffer, true⟩, rest)

/-- A zeroed page, made outside the pool when the pool has none left. -/
def zeroedPage (pool : Pool) : PooledPage × Pool :=
  pool.leasePage.getD (⟨Block.zeros pool.pageSize, false⟩, pool)

def giveBack (pool : Pool) (buffer : ByteArray) : Checked ε Pool :=
  if buffer.size = pool.pageSize ∧ pool.free.length < pool.allocated then
    .ok { pool with free := buffer :: pool.free }
  else halt .poolMisuse

def drop (pool : Pool) (page : PooledPage) : Checked ε Pool :=
  if page.pooled then pool.giveBack page.bytes else .ok pool

def available (pool : Pool) : Nat := pool.free.length + (pool.capacity - pool.allocated)

end Pool

end RefStore
