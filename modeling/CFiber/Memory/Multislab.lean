/-
  CFiber.Memory.Multislab — the auto-expanding chain of slabs (`multislab_alloc.c`).

  Node structs live in memory obtained from the user's backing allocator; the memory of the node
  type is modelled one map per field (`NodeMem`), so `node->next = x` is an update of `next` at
  `node`.  `uint32_t` counters are `UInt32` and wrap.  Functions that call `mem_alloc` / `mem_free`
  thread the allocator's state `mem_ctx` through.  Loops over a list follow the links with
  `Base.walk`, or count a bound down; the bound is the number of node objects that exist, which no
  acyclic list exceeds (`Rep.active_length`), so no loop ever stops on it.
-/
import CFiber.Base.Linked
import CFiber.Memory.Slab

namespace CFiber.Memory

open CFiber.Base

/-! ## §1. The backing allocator. -/

/-- The user's `mem_alloc` / `mem_free` pair over a context of type `γ`. -/
structure Backing (γ : Type) where
  mem_alloc : Nat → γ → Option Nat × γ
  mem_free : Nat → Nat → γ → γ

/-- `sizeof(cfiber_slab_node_t)`: two, then three, pointer-sized words around the bitmap words. -/
def sizeof_node (T : Target) : Nat :=
  if T.WORD_BITS = 64 then 8 * (8 + T.BITMAP_SIZE) else 4 * (9 + T.BITMAP_SIZE)

theorem sizeof_node_pos (T : Target) : 0 < sizeof_node T := by
  unfold sizeof_node
  split <;> omega

/-! ## §2. Nodes and the allocator state. -/

/-- The memory of the `cfiber_slab_node_t` objects, field by field; `dom` lists the objects that
exist (allocated and not yet freed). -/
structure NodeMem (T : Target) where
  slab : Nat → Slab T
  next : Nat → Option Nat
  prev : Nat → Option Nat
  used_count : Nat → UInt32
  is_full : Nat → Bool
  raw_memory : Nat → Nat
  dom : List Nat

/-- `cfiber_multislab_t`, together with the memory of its nodes. -/
structure Multislab (T : Target) where
  active : Option Nat
  full : Option Nat
  block_size : Nat
  blocks_per_slab : UInt32
  slab_memory_size : Nat
  slab_count : UInt32
  max_slabs : UInt32
  empty_count : UInt32
  max_empty_reserve : UInt32
  nodes : NodeMem T

variable {T : Target} {γ : Type}

def list_push (m : NodeMem T) (head : Option Nat) (node : Nat) : NodeMem T × Option Nat :=
  let m := { m with next := Function.update m.next node head }
  let m := { m with prev := Function.update m.prev node none }
  let m := match head with
    | some h => { m with prev := Function.update m.prev h (some node) }
    | none => m
  (m, some node)

def list_unlink (m : NodeMem T) (head : Option Nat) (node : Nat) : NodeMem T × Option Nat :=
  let (m, head) := match m.prev node with
    | some p => ({ m with next := Function.update m.next p (m.next node) }, head)
    | none => (m, m.next node)
  let m := match m.next node with
    | some n => { m with prev := Function.update m.prev n (m.prev node) }
    | none => m
  (m, head)

/-! ## §3. The operations. -/

/-- `none` is the `-1` return. -/
def cfiber_multislab_init_ext (T : Target) (block_size : Nat)
    (blocks_per_slab max_slabs hysteresis_threshold : UInt32) : Option (Multislab T) :=
  if block_size < T.CACHE_LINE_SIZE ∨ block_size % T.CACHE_LINE_SIZE ≠ 0 ∨ blocks_per_slab = 0
      ∨ blocks_per_slab.toNat > T.MAX_BLOCKS ∨ blocks_per_slab.toNat > T.SIZE_MAX / block_size then
    none
  else some
    { active := none
      full := none
      block_size := block_size
      blocks_per_slab := blocks_per_slab
      slab_memory_size := T.wrap (block_size * blocks_per_slab.toNat)
      slab_count := 0
      max_slabs := max_slabs
      empty_count := 0
      max_empty_reserve := hysteresis_threshold
      nodes :=
        { slab := fun _ => ⟨0, 0, 0, fun _ => 0, 0⟩
          next := fun _ => none
          prev := fun _ => none
          used_count := fun _ => 0
          is_full := fun _ => false
          raw_memory := fun _ => 0
          dom := [] } }

def multislab_grow (B : Backing γ) (ms : Multislab T) (c : γ) : Option Nat × Multislab T × γ :=
  if ms.max_slabs ≠ 0 ∧ ms.slab_count ≥ ms.max_slabs then (none, ms, c)
  else match B.mem_alloc (sizeof_node T) c with
    | (none, c) => (none, ms, c)
    | (some node, c) =>
      match B.mem_alloc ms.slab_memory_size c with
      -- each failure path returns what was allocated before it
      | (none, c) => (none, ms, B.mem_free node (sizeof_node T) c)
      | (some mem, c) =>
        match cfiber_slab_init T ms.block_size mem ms.slab_memory_size with
        | none =>
          let c := B.mem_free mem ms.slab_memory_size c
          (none, ms, B.mem_free node (sizeof_node T) c)
        | some slab =>
          let m := { ms.nodes with
            slab := Function.update ms.nodes.slab node slab
            raw_memory := Function.update ms.nodes.raw_memory node mem
            used_count := Function.update ms.nodes.used_count node 0
            is_full := Function.update ms.nodes.is_full node false
            dom := node :: ms.nodes.dom }
          let (m, active) := list_push m ms.active node
          (some node,
            { ms with
              nodes := m
              active := active
              slab_count := ms.slab_count + 1
              empty_count := ms.empty_count + 1 }, c)

/-- The node struct ceases to exist with its second `mem_free`. -/
def multislab_free_node (B : Backing γ) (ms : Multislab T) (node : Nat) (c : γ) :
    Multislab T × γ :=
  let c := B.mem_free (ms.nodes.raw_memory node) ms.slab_memory_size c
  let c := B.mem_free node (sizeof_node T) c
  ({ ms with nodes := { ms.nodes with dom := ms.nodes.dom.erase node } }, c)

/-- `p >= base && p < base + ms->slab_memory_size`. -/
def owns (ms : Multislab T) (p node : Nat) : Bool :=
  let base := ms.nodes.raw_memory node
  decide (p ≥ base) && decide (p < T.wrap (base + ms.slab_memory_size))

def find_owning_slab (ms : Multislab T) (p : Nat) : Option Nat :=
  let steps := ms.nodes.dom.length
  match (walk ms.nodes.next steps ms.active).find? (owns ms p) with
  | some n => some n
  | none => (walk ms.nodes.next steps ms.full).find? (owns ms p)

def set_slab (ms : Multislab T) (node : Nat) (slab : Slab T) : Multislab T :=
  { ms with nodes := { ms.nodes with slab := Function.update ms.nodes.slab node slab } }

/-- Move `node` from the active list to the full list. -/
def move_to_full (ms : Multislab T) (node : Nat) : Multislab T :=
  let (m, active) := list_unlink ms.nodes ms.active node
  let (m, full) := list_push m ms.full node
  { ms with
    nodes := { m with is_full := Function.update m.is_full node true }
    active := active
    full := full }

/-- Move `node` from the full list to the active list. -/
def move_to_active (ms : Multislab T) (node : Nat) : Multislab T :=
  let (m, full) := list_unlink ms.nodes ms.full node
  let (m, active) := list_push m ms.active node
  { ms with
    nodes := { m with is_full := Function.update m.is_full node false }
    active := active
    full := full }

/-- The `while (ms->active)` loop of `cfiber_multislab_alloc`: try the first active slab, moving it
to the full list when it has no block. -/
def alloc_scan : Nat → Multislab T → Option Nat × Multislab T
  | 0, ms => (none, ms)
  | steps + 1, ms =>
    match ms.active with
    | none => (none, ms)
    | some node =>
      match cfiber_slab_alloc (ms.nodes.slab node) with
      | (some ptr, slab) => (some ptr, set_slab ms node slab)
      -- full slabs are moved lazily, so one may stand ahead of slabs with space
      | (none, slab) => alloc_scan steps (move_to_full (set_slab ms node slab) node)

/-- `if (node->used_count++ == 0) ms->empty_count--;` for the first active node. -/
def count_alloc (ms : Multislab T) : Multislab T :=
  match ms.active with
  | none => ms
  | some node =>
    let used := ms.nodes.used_count node
    { ms with
      nodes := { ms.nodes with used_count := Function.update ms.nodes.used_count node (used + 1) }
      empty_count := if used = 0 then ms.empty_count - 1 else ms.empty_count }

def cfiber_multislab_alloc (B : Backing γ) (ms : Multislab T) (c : γ) :
    Option Nat × Multislab T × γ :=
  match alloc_scan (ms.nodes.dom.length + 1) ms with
  | (some ptr, ms) => (some ptr, count_alloc ms, c)
  -- the active list is empty: every slab is full
  | (none, ms) =>
    match multislab_grow B ms c with
    | (none, ms, c) => (none, ms, c)
    | (some node, ms, c) =>
      let (ptr, slab) := cfiber_slab_alloc (ms.nodes.slab node)
      (ptr, count_alloc (set_slab ms node slab), c)

/-- The hysteresis block of `cfiber_multislab_release`, for a node left without a live block. -/
def reclaim_empty (B : Backing γ) (ms : Multislab T) (node : Nat) (c : γ) : Multislab T × γ :=
  let ms := { ms with empty_count := ms.empty_count + 1 }
  if ms.empty_count > ms.max_empty_reserve ∧ ms.slab_count > 1 then
    let (m, active) := list_unlink ms.nodes ms.active node
    let (ms, c) := multislab_free_node B { ms with nodes := m, active := active } node c
    ({ ms with slab_count := ms.slab_count - 1, empty_count := ms.empty_count - 1 }, c)
  else (ms, c)

/-- `node->used_count--`. -/
def count_release (ms : Multislab T) (node : Nat) : Multislab T :=
  let used := ms.nodes.used_count node
  { ms with
    nodes := { ms.nodes with used_count := Function.update ms.nodes.used_count node (used - 1) } }

def cfiber_multislab_release (B : Backing γ) (ms : Multislab T) (ptr : Nat) (c : γ) :
    Multislab T × γ :=
  match find_owning_slab ms ptr with
  | none => (ms, c)
  | some node =>
    match cfiber_slab_release (ms.nodes.slab node) ptr with
    -- a rejected release (double free, misaligned) must not touch the bookkeeping
    | (false, _) => (ms, c)
    | (true, slab) =>
      let ms := count_release (set_slab ms node slab) node
      -- tracked membership: a full slab can still be on the active list
      let ms := if ms.nodes.is_full node then move_to_active ms node else ms
      if ms.nodes.used_count node = 0 then reclaim_empty B ms node c else (ms, c)

/-- The loop reads `head->next` before it frees `head`, so it visits the list as it was. -/
def free_node_list (B : Backing γ) (ms : Multislab T) (head : Option Nat) (c : γ) :
    Multislab T × γ :=
  (walk ms.nodes.next ms.nodes.dom.length head).foldl
    (fun mc node => multislab_free_node B mc.1 node mc.2) (ms, c)

/-- The trailing `memset` is left out: nothing reads the struct afterwards. -/
def cfiber_multislab_destroy (B : Backing γ) (ms : Multislab T) (c : γ) : Multislab T × γ :=
  let (ms, c) := free_node_list B ms ms.active c
  free_node_list B ms ms.full c

/-! ## §4. The link surgery in library terms. -/

theorem list_push_eq (m : NodeMem T) (head : Option Nat) (node : Nat) :
    list_push m head node =
      ({ m with next := Function.update m.next node head, prev := consPrev m.prev head node },
        some node) := by
  cases head <;> rfl

theorem list_unlink_eq (m : NodeMem T) (head : Option Nat) (node : Nat) :
    list_unlink m head node =
      ({ m with next := unlinkNext m.next m.prev node, prev := unlinkPrev m.next m.prev node },
        unlinkHead m.next m.prev head node) := by
  unfold list_unlink unlinkNext unlinkPrev unlinkHead
  cases hp : m.prev node with
  | none =>
      cases hn : m.next node <;> simp [hn, hp]
  | some p =>
      have hkeep : Function.update m.next p (m.next node) node = m.next node := by
        by_cases h : node = p
        · subst h; simp
        · simp [Function.update_of_ne h]
      cases hn : m.next node with
      | none =>
          rw [hn] at hkeep
          simp [hkeep]
      | some n =>
          rw [hn] at hkeep
          simp [hp, hkeep]

end CFiber.Memory
