/-
  CFiber.Ev.Handles — handles of fibers that are gone.

  A handle is a block of the pool and a generation.  The block serves one fiber after another; one
  *incarnation* of it lasts while the block stays among the live fibers (`Same`).  `repooled` counts
  how often the block went back to the pool, and the generation is that count modulo `2 ^ 64`.

  Main results:

    • `same_iff_repooled`   — the count stands still during an incarnation and grows between two;
    • `issued_spec`         — a handle carries the count of the incarnation it names;
    • `apply_cmd_reaches`   — a command changes one fiber, of the generation it is for, or nothing;
    • `stale_handles_inert` — two incarnations have two handles, the block stays with the reactor,
                              and a command reaches the incarnation it is for or nothing.
-/
import CFiber.Ev.Census
import CFiber.Ev.Environment
import CFiber.Memory.Ledger

namespace CFiber.Ev

open CFiber.Base CFiber.Memory

variable {T : Target} {γ σ κ δ : Type}
variable {L : Libc γ} {P : StackPool σ} {K : Kernel κ δ}
variable {out : γ → List Region} {good : γ → Prop}

/-! ## §1. Incarnations. -/

section
variable (L : Libc γ) (P : StackPool σ) (K : Kernel κ δ)

/-- The fiber `f` of state `S` is not recycled while the actions `as` are taken. -/
def Same (f : Nat) (S : Sys T γ σ κ) (as : List (Action δ)) : Prop :=
  Along (step L P K) (fun S => f ∈ S.alive) S as

end

section
variable {S S' : Sys T γ σ κ} {q q' : List Nat} {a : Action δ} {m : Move} {f : Nat}

theorem same_cons (h : step L P K S a = some S') (as : List (Action δ)) :
    Same L P K f S (a :: as) ↔ f ∈ S.alive ∧ Same L P K f S' as := by
  constructor
  · intro hsame
    exact ⟨hsame.head, hsame.tail h⟩
  · rintro ⟨hf, hsame⟩
    refine ⟨hf, ?_⟩
    rw [h]
    exact hsame

/-- The end of an incarnation is counted. -/
theorem Does.repooled_of_gone (hd : Does P K out good S a S' m q q') (hf : f ∈ S.alive)
    (hgone : f ∉ S'.alive) : S.r.repooled f < S'.r.repooled f := by
  have halive := hd.moved.alive
  have hreap : m = .reap f := by
    cases m with
    | reap g =>
        by_cases hfg : f = g
        · rw [hfg]
        · apply absurd _ hgone
          rw [halive]
          exact (List.mem_erase_of_ne hfg).mpr hf
    | spawn g gen stack =>
        apply absurd _ hgone
        rw [halive]
        exact List.mem_cons_of_mem g hf
    | _ =>
        apply absurd _ hgone
        rw [halive]
        exact hf
  rw [(hd.moved.reaped f hreap).1]
  exact Nat.lt_succ_self _

/-- **During an incarnation** the count stands still. -/
theorem Does.repooled_of_live (hd : Does P K out good S a S' m q q') (hf : f ∈ S'.alive) :
    S'.r.repooled f = S.r.repooled f := by
  apply hd.moved.lasting.same
  rw [← hd.moved.alive]
  exact hf

/-- No step takes from the count. -/
theorem repooled_le (H : LibcOk T L out good) {as : List (Action δ)} :
    ∀ {S : Sys T γ σ κ} {q : List Nat}, Ok out good S q → exec (step L P K) S as = some S' →
      S.r.repooled f ≤ S'.r.repooled f := by
  induction as with
  | nil =>
      intro S q _ hrun
      obtain rfl : S = S' := by simpa using hrun
      exact Nat.le_refl _
  | cons a as ih =>
      intro S q hok hrun
      obtain ⟨t, ht, hrest⟩ := exec_cons.mp hrun
      obtain ⟨m, q', hd⟩ := step_does H hok ht
      exact Nat.le_trans (hd.moved.lasting.repooled f) (ih hd.ok hrest)

/-- **The count tells incarnations apart**, by induction on the run. -/
theorem same_iff_repooled (H : LibcOk T L out good) {as : List (Action δ)} :
    ∀ {S : Sys T γ σ κ} {q : List Nat}, Ok out good S q → f ∈ S.alive →
      exec (step L P K) S as = some S' →
      (Same L P K f S as ↔ S'.r.repooled f = S.r.repooled f) := by
  induction as with
  | nil =>
      intro S q _ hf hrun
      obtain rfl : S = S' := by simpa using hrun
      exact iff_of_true hf rfl
  | cons a as ih =>
      intro S q hok hf hrun
      obtain ⟨t, ht, hrest⟩ := exec_cons.mp hrun
      obtain ⟨m, q', hd⟩ := step_does H hok ht
      rw [same_cons ht]
      by_cases hlive : f ∈ t.alive
      · rw [ih hd.ok hlive hrest, hd.repooled_of_live hlive]
        exact ⟨fun h => h.2, fun h => ⟨hf, h⟩⟩
      · -- recycled: the count has grown, and does not come back
        have hlt := hd.repooled_of_gone hf hlive
        have hle := repooled_le (f := f) H hd.ok hrest
        constructor
        · intro h
          exact absurd h.2.head hlive
        · intro h
          omega

end

/-! ## §2. Handles. -/

/-- The handle that a step hands out. -/
def issued (a : Action δ) (S' : Sys T γ σ κ) : Option Handle :=
  match a, S'.ret with
  | .spawn, some (.spawned h) => some h
  | .self, some (.self h) => some h
  | _, _ => none

section
variable {S S' : Sys T γ σ κ} {q q' : List Nat} {a : Action δ} {f : Nat}

theorem issued_action {h : Handle} (hh : issued a S' = some h) :
    (a = .spawn ∧ S'.ret = some (.spawned h)) ∨ (a = .self ∧ S'.ret = some (.self h)) := by
  unfold issued at hh
  split at hh
  · rename_i h' hret
    obtain rfl := Option.some.inj hh
    exact Or.inl ⟨rfl, hret⟩
  · rename_i h' hret
    obtain rfl := Option.some.inj hh
    exact Or.inr ⟨rfl, hret⟩
  · exact absurd hh (by simp)

/-- A spawn is made by the host or by a fiber. -/
theorem spawn_step (h : step L P K S .spawn = some S') : S' = spawned S (spawn_locked L P S.r) := by
  cases hpc : S.pc with
  | host => simpa [step, hpc, eq_comm] using h
  | fiber g e => simpa [step, hpc, act, eq_comm] using h
  | _ => simp [step, hpc] at h

theorem self_step (h : step L P K S .self = some S') :
    (∃ g e, S.pc = .fiber g e) ∧ S' = { S with ret := some (.self (cfiber_ev_self S.r)) } := by
  cases hpc : S.pc with
  | fiber g e => exact ⟨⟨g, e, rfl⟩, by simpa [step, hpc, act, eq_comm] using h⟩
  | _ => simp [step, hpc] at h

/-- **A handle** names a fiber that is live when it is handed out, by the count of its block. -/
theorem issued_spec (H : LibcOk T L out good) (hok : Ok out good S q)
    (hs : step L P K S a = some S') {h : Handle} (hh : issued a S' = some h) :
    ∃ f, h = ⟨some f, UInt64.ofNat (S'.r.repooled f)⟩ ∧ f ∈ S'.alive := by
  rcases issued_action hh with ⟨rfl, hret⟩ | ⟨rfl, hret⟩
  · obtain rfl := spawn_step hs
    rcases spawn_locked_spec H P hok.core hok.pool with ⟨r', heq, -⟩ | ⟨f, r', heq, hspawn⟩
    · rw [heq] at hret
      exact absurd hret (by simp [spawned])
    · rw [heq] at hret ⊢
      obtain rfl : ⟨some f, UInt64.ofNat (S.r.repooled f)⟩ = h := by simpa [spawned] using hret
      refine ⟨f, ?_, by simp [spawned]⟩
      show _ = Handle.mk (some f) (UInt64.ofNat (r'.repooled f))
      rw [hspawn.repooled]
  · obtain ⟨⟨g, e, hpc⟩, rfl⟩ := self_step hs
    obtain ⟨hcur, -⟩ := hok.current hpc
    have hlive : g ∈ S.alive := (hok.core.running hcur).2.1
    obtain rfl : cfiber_ev_self S.r = h := by simpa using hret
    refine ⟨g, ?_, hlive⟩
    unfold cfiber_ev_self
    rw [hcur]
    show Handle.mk (some g) (S.r.mem.generation g) = _
    rw [hok.pool.gen hlive]

/-- The count modulo `2 ^ 64` is enough as long as it does not go round. -/
theorem ofNat_count {n m : Nat} (hle : n ≤ m) (hlt : m < n + 2 ^ 64) :
    UInt64.ofNat m = UInt64.ofNat n ↔ m = n := by
  constructor
  · intro h
    have hmod : m % 2 ^ 64 = n % 2 ^ 64 := by simpa using congrArg UInt64.toNat h
    omega
  · intro h
    rw [h]

/-- **A command** goes to a fiber that is not stale, or changes nothing. -/
theorem apply_cmd_reaches (K : Kernel κ δ) (hok : Ok out good S q) {kind : CmdKind} {gen : UInt64}
    (hne : apply_cmd K S.r ⟨kind, some f, gen⟩ ≠ S.r) :
    f ∈ S.alive ∧ S.r.mem.generation f = gen ∧ S.r.mem.state f ≠ .FB_ZOMBIE ∧
      ∀ g, g ≠ f → view (apply_cmd K S.r ⟨kind, some f, gen⟩) g = view S.r g ∧
        (apply_cmd K S.r ⟨kind, some f, gen⟩).mem.reg_fd g = S.r.mem.reg_fd g := by
  rcases apply_cmd_spec K S.r ⟨kind, some f, gen⟩ with ⟨-, heq⟩ | ⟨g, ha, hcase⟩
  · exact absurd heq hne
  obtain ⟨htarget, hstale⟩ := addressee_some.mp ha
  obtain rfl : f = g := Option.some.inj htarget
  obtain ⟨hgen, hfree, hzombie⟩ := not_stale hstale
  refine ⟨hok.core.mem_live hfree, hgen, hzombie, ?_⟩
  intro g hgf
  have hwoken : ∀ status, S.r.mem.state f = .FB_PARKED →
      view (unpark K S.r f status) g = view S.r g ∧
        (unpark K S.r f status).mem.reg_fd g = S.r.mem.reg_fd g := by
    intro status hp
    obtain ⟨hwoke, -, -⟩ := unpark_spec K hok.core hp status
    refine ⟨?_, hwoke.others g hgf⟩
    rw [hwoke.view, Function.update_of_ne hgf]
  rcases hcase with ⟨-, hp, heq⟩ | ⟨-, -, heq⟩ | ⟨-, hp, -, heq⟩ | ⟨-, -, heq⟩
  · rw [heq]
    exact hwoken _ hp
  · rw [heq]
    exact ⟨rfl, rfl⟩
  · rw [heq]
    exact hwoken _ hp
  · rw [heq, permitted_view, Function.update_of_ne hgf]
    exact ⟨rfl, rfl⟩

end

/-! ## §3. Blocks. -/

/-- The memory of the block `f`, as the reactor obtained it, is never given back. -/
def Keeps (L : Libc γ) (P : StackPool σ) (K : Kernel κ δ) (out : γ → List Region) (f : Nat)
    (S : Sys T γ σ κ) (as : List (Action δ)) : Prop :=
  ∃ region : Region, region.1 ≤ f ∧ f + S.r.fibers.block_size ≤ region.1 + region.2 ∧
    Along (step L P K) (fun S => region ∈ out S.r.libc) S as

theorem keeps_block (H : LibcOk T L out good) {S : Sys T γ σ κ} {q : List Nat} {f : Nat}
    (hok : Ok out good S q) (hf : f ∈ S.alive) (as : List (Action δ)) :
    Keeps L P K out f S as := by
  obtain ⟨active, full, hrep⟩ := hok.pool.rep
  obtain ⟨n, hn, hlo, hhi⟩ := ((hok.pool.live f).mpr hf).region hrep
  refine ⟨(S.r.fibers.nodes.raw_memory n, S.r.fibers.slab_memory_size), hlo, hhi, ?_⟩
  have hmem : (S.r.fibers.nodes.raw_memory n, S.r.fibers.slab_memory_size) ∈ out S.r.libc := by
    apply hok.pool.own.perm.mem_iff.mpr
    apply List.mem_flatMap.mpr
    exact ⟨n, hn, by simp [nodeRegions]⟩
  apply along_of_inv (fun S : Sys T γ σ κ => (∃ q, Ok out good S q) ∧ _ ∈ out S.r.libc)
    (fun S hS => hS.2) _ ⟨⟨q, hok⟩, hmem⟩
  rintro S a S' ⟨⟨q, hok⟩, hmem⟩ hs
  obtain ⟨m, q', hd⟩ := step_does H hok hs
  exact ⟨⟨q', hd.ok⟩, hd.moved.lasting.held _ hmem⟩

/-! ## §4. Stale handles. -/

/-- **What a handle is good for**, after a run `as` from `S`, where it was handed out, to `S'`. -/
structure Inert (L : Libc γ) (P : StackPool σ) (K : Kernel κ δ) (out : γ → List Region) (f : Nat)
    (gen : UInt64) (S : Sys T γ σ κ) (as : List (Action δ)) (S' : Sys T γ σ κ) : Prop where
  /-- A handle for the block has the same generation just if it is for the same fiber. -/
  unique : ∀ a S'' gen', step L P K S' a = some S'' → issued a S'' = some ⟨some f, gen'⟩ →
    (gen' = gen ↔ Same L P K f S (as ++ [a]))
  block : Keeps L P K out f S as
  /-- A command that changes anything is for the same fiber, still at work, and changes no other. -/
  command : ∀ kind, apply_cmd K S'.r ⟨kind, some f, gen⟩ ≠ S'.r →
    Same L P K f S as ∧ S'.r.mem.state f ≠ .FB_ZOMBIE ∧
      ∀ g, g ≠ f → view (apply_cmd K S'.r ⟨kind, some f, gen⟩) g = view S'.r g ∧
        (apply_cmd K S'.r ⟨kind, some f, gen⟩).mem.reg_fd g = S'.r.mem.reg_fd g

/-- **Stale handles are inert.**  A step of a run hands out a handle; the run goes on, and the block
goes back to the pool less than `2 ^ 64` times. -/
theorem stale_handles_inert (H : LibcOk T L out good) {r : Reactor T γ σ κ}
    (hr : Fresh T out good r) {before after : List (Action δ)} {a : Action δ}
    {S₀ S₁ S₂ : Sys T γ σ κ} {h : Handle}
    (hrun : exec (step L P K) (boot r) before = some S₀) (hs : step L P K S₀ a = some S₁)
    (hh : issued a S₁ = some h) (hafter : exec (step L P K) S₁ after = some S₂)
    (hcount : ∀ f, h.f = some f → S₂.r.repooled f < S₁.r.repooled f + 2 ^ 64) :
    ∃ f, h.f = some f ∧ f ∈ S₁.alive ∧ Inert L P K out f h.gen S₁ after S₂ := by
  obtain ⟨q₀, hok₀⟩ := exec_ok H (boot_ok hr) hrun
  obtain ⟨f, rfl, hlive⟩ := issued_spec H hok₀ hs hh
  obtain ⟨m₁, q₁, hd₁⟩ := step_does H hok₀ hs
  obtain ⟨q₂, hok₂⟩ := exec_ok H hd₁.ok hafter
  have hbound := hcount f rfl
  refine ⟨f, rfl, hlive, ?_, keeps_block H hd₁.ok hlive after, ?_⟩
  · intro b S₃ gen' hb hissued
    obtain ⟨m, q₃, hd⟩ := step_does H hok₂ hb
    obtain ⟨g, heq, hlive₃⟩ := issued_spec H hok₂ hb hissued
    obtain ⟨hfg, rfl⟩ := Handle.mk.inj heq
    obtain rfl := Option.some.inj hfg
    have hrun₃ : exec (step L P K) S₁ (after ++ [b]) = some S₃ := exec_snoc.mpr ⟨S₂, hafter, hb⟩
    have hsame := hd.repooled_of_live hlive₃
    have hle := repooled_le (f := f) H hd₁.ok hrun₃
    rw [same_iff_repooled H hd₁.ok hlive hrun₃]
    exact ofNat_count hle (by omega)
  · intro kind hne
    obtain ⟨hlive₂, hgen, hzombie, hothers⟩ := apply_cmd_reaches K hok₂ hne
    refine ⟨?_, hzombie, hothers⟩
    -- the generations agree, so the counts do
    have hle := repooled_le (f := f) H hd₁.ok hafter
    rw [hok₂.pool.gen hlive₂] at hgen
    rw [same_iff_repooled H hd₁.ok hlive hafter]
    exact (ofNat_count hle hbound).mp hgen

/-- The fiber runs and finishes; the next one gets its block. -/
def block_reused : List (Action Choice) :=
  [.run, .turn, .turn, .finish, .turn, .turn, .spawn]

theorem stale_handles_inert_epoll : ∃ r S₁ S₂ gen, start = some r ∧
    step bumpLibc roomyStacks epoll (boot r) .spawn = some S₁ ∧
    issued (.spawn : Action Choice) S₁ = some ⟨some 192, gen⟩ ∧
    exec (step bumpLibc roomyStacks epoll) S₁ block_reused = some S₂ ∧
    S₂.r.mem.state 192 = .FB_READY ∧ S₂.r.repooled 192 = 1 ∧
    Inert bumpLibc roomyStacks epoll Prod.snd 192 gen S₁ block_reused S₂ := by
  have hsome : (start.bind fun r =>
      (step bumpLibc roomyStacks epoll (boot r) .spawn).bind fun S₁ =>
      (exec (step bumpLibc roomyStacks epoll) S₁ block_reused).map fun S₂ =>
        (issued (.spawn : Action Choice) S₁, S₁.r.repooled 192, S₂.r.mem.state 192,
          S₂.r.repooled 192)) = some (some ⟨some 192, 0⟩, 0, .FB_READY, 1) := by decide +kernel
  obtain ⟨r, hr, hsome⟩ := Option.bind_eq_some_iff.mp hsome
  obtain ⟨S₁, hs, hsome⟩ := Option.bind_eq_some_iff.mp hsome
  obtain ⟨S₂, hafter, heq⟩ := Option.map_eq_some_iff.mp hsome
  simp only [Prod.mk.injEq] at heq
  obtain ⟨hissued, hcount₁, hst, hcount₂⟩ := heq
  have hcount : ∀ f, (⟨some 192, 0⟩ : Handle).f = some f →
      S₂.r.repooled f < S₁.r.repooled f + 2 ^ 64 := by
    intro f hf
    obtain rfl := Option.some.inj hf
    omega
  obtain ⟨f, hf, -, hinert⟩ := stale_handles_inert bumpLibc_ok (start_fresh hr) (exec_nil _ _) hs
    hissued hafter hcount
  obtain rfl := Option.some.inj hf
  exact ⟨r, S₁, S₂, 0, hr, hs, hissued, hafter, hst, hcount₂, hinert⟩

end CFiber.Ev
