import AudioFS.CInteger

/-!
# The C library and the kernel as the program sees them

A `Platform` is one fixed behaviour of the outside: which allocator calls
succeed, what freshly added memory contains, and what each system call answers.
Both are indexed by the number of calls made so far, so every sequence of
outcomes is the behaviour of some platform. A `Process` is the part of the
running program these calls change: the ledger of live blocks and open
descriptors, and the number of accesses outside a live block.
-/

namespace AudioFS

structure Platform where
  grants : ℕ → UInt64 → Bool
  /-- Byte `i` of the block returned by allocator call `n`, where the call leaves it open. -/
  fresh : ℕ → ℕ → UInt8
  openFile : ℕ → List UInt8 → Int32
  read : ℕ → Int32 → UInt64 → Int64 × List UInt8
  write : ℕ → Int32 → List UInt8 → Int64
  lseek : ℕ → Int32 → Int64 → Int32 → Int64
  /-- `st_size`, or nothing when `fstat` fails. -/
  fstat : ℕ → Int32 → Option Int64

def Platform.Generous (c : Platform) : Prop := ∀ call size, c.grants call size = true

def Platform.generous : Platform where
  grants := fun _ _ => true
  fresh := fun _ _ => 0
  openFile := fun _ _ => -1
  read := fun _ _ _ => (-1, [])
  write := fun _ _ _ => -1
  lseek := fun _ _ _ _ => -1
  fstat := fun _ _ => none

/-- A heap block; its address is the number of the allocator call that returned it. -/
structure Block where
  addr : ℕ
  bytes : List UInt8

structure Process where
  calls : ℕ
  refused : ℕ
  live : List ℕ
  syscalls : ℕ
  descriptors : List Int32
  faults : ℕ

namespace Process

def start : Process := ⟨0, 0, [], 0, [], 0⟩

def fault (p : Process) : Process := { p with faults := p.faults + 1 }

def refuse (p : Process) : Process :=
  { p with calls := p.calls + 1, refused := p.refused + 1 }

def grant (p : Process) : Process :=
  { p with calls := p.calls + 1, live := p.calls :: p.live }

def syscall (p : Process) : Process := { p with syscalls := p.syscalls + 1 }

def calloc (c : Platform) (p : Process) (size : UInt64) : Option Block × Process :=
  if c.grants p.calls size then (some ⟨p.calls, List.replicate size.toNat 0⟩, p.grant)
  else (none, p.refuse)

def release (p : Process) (addr : ℕ) : Process :=
  if addr ∈ p.live then { p with live := p.live.erase addr } else p.fault

def free (p : Process) : Option Block → Process
  | none => p
  | some b => p.release b.addr

def oldBytes : Option Block → List UInt8
  | none => []
  | some b => b.bytes

/-- The bytes a `realloc` of `old` to `size` bytes holds: the common prefix, then
whatever the allocator's memory contained. -/
def reallocated (c : Platform) (call : ℕ) (old : List UInt8) (size : ℕ) : List UInt8 :=
  old.take size ++ (List.range (size - old.length)).map (fun k => c.fresh call (old.length + k))

def realloc (c : Platform) (p : Process) (old : Option Block) (size : UInt64) :
    Option Block × Process :=
  if c.grants p.calls size then
    (some ⟨p.calls, reallocated c p.calls (oldBytes old) size.toNat⟩,
      ((p.free old).grant))
  else (none, p.refuse)

/-- `memcpy` out of a block: an access past its end is recorded as a fault, and what lies
there is not delivered. -/
def copyOut (p : Process) (src : List UInt8) (count : ℕ) : List UInt8 × Process :=
  (src.take count, if count ≤ src.length then p else p.fault)

/-- `memcpy` to the start of a block. -/
def copyIn (p : Process) (dst src : List UInt8) : List UInt8 × Process :=
  if src.length ≤ dst.length then (src ++ dst.drop src.length, p)
  else (src.take dst.length, p.fault)

/-- `memset` of `count` bytes to zero from index `start` on, as far as the block goes; the part
behind its end is recorded as a fault. -/
def zeroRange (p : Process) (dst : List UInt8) (start count : ℕ) : List UInt8 × Process :=
  (dst.mapIdx (fun i b => if start ≤ i ∧ i < start + count then 0 else b),
    if start + count ≤ dst.length then p else p.fault)

def cString (bytes : List UInt8) : List UInt8 := bytes.takeWhile (· != 0)

def strncpy (p : Process) (dst src : List UInt8) (count : ℕ) : List UInt8 × Process :=
  let copied := cString (src.take count)
  (copied ++ List.replicate (count - copied.length) 0 ++ dst.drop count,
    if count ≤ dst.length ∧ (count ≤ src.length ∨ 0 ∈ src) then p else p.fault)

@[simp] theorem fault_refused (p : Process) : p.fault.refused = p.refused := rfl

@[simp] theorem grant_refused (p : Process) : p.grant.refused = p.refused := rfl

@[simp] theorem refuse_refused (p : Process) : p.refuse.refused = p.refused + 1 := rfl

theorem grant_calls (p : Process) : p.grant.calls = p.calls + 1 := rfl

@[simp] theorem release_calls (p : Process) (addr : ℕ) : (p.release addr).calls = p.calls := by
  unfold release
  split <;> rfl

@[simp] theorem free_calls (p : Process) (b : Option Block) : (p.free b).calls = p.calls := by
  cases b with
  | none => rfl
  | some b => exact release_calls p b.addr

theorem free_grant_calls (p : Process) (b : Option Block) :
    (p.free b).grant.calls = p.calls + 1 := by
  rw [grant_calls, free_calls]

@[simp] theorem release_refused (p : Process) (addr : ℕ) :
    (p.release addr).refused = p.refused := by
  unfold release
  split <;> rfl

@[simp] theorem free_refused (p : Process) (b : Option Block) :
    (p.free b).refused = p.refused := by
  cases b with
  | none => rfl
  | some b => exact release_refused p b.addr

theorem length_reallocated (c : Platform) (call : ℕ) (old : List UInt8) (size : ℕ) :
    (reallocated c call old size).length = size := by
  simp only [reallocated, List.length_append, List.length_take, List.length_map,
    List.length_range]
  omega

theorem reallocated_prefix (c : Platform) (call : ℕ) {old : List UInt8} {size : ℕ}
    (h : old.length ≤ size) : old <+: reallocated c call old size := by
  rw [reallocated, List.take_of_length_le h]
  exact List.prefix_append _ _

theorem reallocated_getElem? (c : Platform) (call : ℕ) {old : List UInt8} {size : ℕ}
    (h : old.length ≤ size) (i : ℕ) :
    (reallocated c call old size)[i]? =
      if i < old.length then old[i]? else if i < size then some (c.fresh call i) else none := by
  rw [reallocated, List.take_of_length_le h]
  split_ifs with hlt hsize
  · exact List.getElem?_append_left hlt
  · rw [List.getElem?_append_right (by omega), List.getElem?_map,
      List.getElem?_range (by omega)]
    simp [Nat.add_sub_cancel' (not_lt.mp hlt)]
  · apply List.getElem?_eq_none
    simp only [List.length_append, List.length_map, List.length_range]
    omega

/-- What `new` holds beyond `old` was left there by the allocator. -/
def FreshBeyond (c : Platform) (old new : List UInt8) : Prop :=
  ∀ i b, old.length ≤ i → new[i]? = some b → ∃ n k, b = c.fresh n k

theorem freshBeyond_refl (c : Platform) (bytes : List UInt8) : FreshBeyond c bytes bytes := by
  intro i b hi hb
  rw [List.getElem?_eq_none hi] at hb
  exact absurd hb (by simp)

theorem FreshBeyond.trans {c : Platform} {old mid new : List UInt8} (h₁ : FreshBeyond c old mid)
    (hkept : mid <+: new) (h₂ : FreshBeyond c mid new) : FreshBeyond c old new := by
  intro i b hi hb
  rcases Nat.lt_or_ge i mid.length with hlt | hge
  · obtain ⟨rest, rfl⟩ := hkept
    rw [List.getElem?_append_left hlt] at hb
    exact h₁ i b hi hb
  · exact h₂ i b hge hb

theorem reallocated_fresh (c : Platform) (call : ℕ) {old : List UInt8} {size : ℕ}
    (h : old.length ≤ size) : FreshBeyond c old (reallocated c call old size) := by
  intro i b hi hb
  rw [reallocated, List.take_of_length_le h, List.getElem?_append_right hi, List.getElem?_map,
    Option.map_eq_some_iff] at hb
  obtain ⟨k, -, rfl⟩ := hb
  exact ⟨call, old.length + k, rfl⟩

end Process
end AudioFS
